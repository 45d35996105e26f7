import VirtioBench.Vhost.Custody

/- What is left when the threads end. The consumer ends when a drain call finds
   the ring empty, but the producer tests `quit_` only between batches, so it can
   still push one batch after that.

   1. `shutdown_not_wedged` — that batch always fits: with a ring that takes
      all that fits, once the consumer has ended the ring and the producer's rest
      hold at most one burst, the next push takes the whole rest, and no packet is
      dequeued after it. The invariant (`Quiescent`) says what the producer can
      still hold at each of its program counters.
   2. `all_freed_iff` — nothing leaks exactly when there is no such batch: at the
      closing drain call the ring is empty and the producer holds nothing, and no
      later dequeue returns packets (`NoLateBatch`). `late_batch_leaks` is the
      interleaving in which the batch is pushed into a ring nobody reads. -/
namespace VirtioBench.Vhost

variable {rule : BurstRule} {s s' : State} {a : Act}

/-! ## The producer after the consumer's exit -/

/-- The consumer has left its main loop. -/
def ConsumerPc.Draining : ConsumerPc → Prop
  | .drainDequeue | .drainFree .. | .exited => True
  | _ => False

/-- The producer has passed its test of `quit_` and not dequeued yet. -/
def ProducerPc.ToDequeue : ProducerPc → Prop
  | .loadReady | .loadVid | .dequeueBurst _ => True
  | _ => False

/-- The consumer only drains after `quit_`. Once it has ended, the producer
finds the ring empty if it is yet to dequeue, and in any case the ring and its
rest are at most one burst. -/
structure Quiescent (s : State) : Prop where
  quit : s.consumer.Draining → s.quit = true
  empty : s.consumer = .exited → s.producer.ToDequeue → s.ring = []
  burst : s.consumer = .exited → s.ring.length + s.producer.rest.length ≤ pktBurstSz

theorem rest_length_le {p : ProducerPc} (h : p.InRange) : p.rest.length ≤ pktBurstSz := by
  cases p with
  | ringEnqueue pkts sent | retryLoadQuit pkts sent =>
    show (pkts.drop sent).length ≤ pktBurstSz
    have hle := h.2
    rw [List.length_drop]
    omega
  | _ => exact Nat.zero_le _

/-- A push moves packets from the rest to the ring. -/
theorem push_length (s : State) (pkts : List Mbuf) (sent k : Nat) :
    (s.push pkts sent k).ring.length + (s.push pkts sent k).producer.rest.length =
      s.ring.length + (pkts.drop sent).length := by
  rw [push_ring, push_rest, List.length_append, List.length_take, List.length_drop,
    List.length_drop]
  omega

/-- The producer comes to dequeue only by a test of `quit_` that failed. -/
theorem ProducerEdge.toDequeue {p p' : ProducerPc} (h : ProducerEdge s p p')
    (ht : p'.ToDequeue) : s.quit = false ∨ p.ToDequeue := by
  cases h with
  | enter hq => exact .inl hq
  | ready | loadVid => exact .inr trivial
  | exit | notReady | received | nothing | short | retry | pushed => exact ht.elim

theorem ProducerMove.quiescent (h : ProducerMove rule s a s') (hi : Quiescent s) :
    Quiescent s' := by
  have hsame := h.sameConsumer.consumer
  refine ⟨fun hd => ?_, fun hc hp' => ?_, fun hc => ?_⟩
  · rw [h.sameEnv.quit]
    exact hi.quit (hsame ▸ hd)
  · rw [hsame] at hc
    have hq : s.quit = true := hi.quit (hc ▸ trivial)
    have ht : s.producer.ToDequeue := by
      rcases h.edge.toDequeue hp' with hq' | ht
      · rw [hq] at hq'; cases hq'
      · exact ht
    have h0 := hi.empty hc ht
    cases h with
    | push pkts sent pushed hp hk => rw [hp] at ht; exact ht.elim
    | _ => exact h0
  · rw [hsame] at hc
    have hb := hi.burst hc
    cases h with
    | exit hp | enter hp | ready hp | notReady hp | loadVid hp | retry pkts sent hp =>
      rw [hp] at hb
      exact hb
    | receive vid pkts hp hf =>
      -- a batch taken after the consumer's exit finds the ring empty
      have h0 : s.ring = [] := hi.empty hc (hp ▸ trivial)
      rw [receive_ring, receive_rest, h0, List.length_nil, Nat.zero_add]
      exact hf.1
    | push pkts sent pushed hp hk =>
      rw [hp] at hb
      rw [push_length]
      exact hb

/-- The drain is entered from the loop test, after `quit_` was seen. -/
theorem ConsumerEdge.draining {c c' : ConsumerPc} (h : ConsumerEdge s c c') (hd : c'.Draining) :
    s.quit = true ∨ c.Draining := by
  cases h with
  | leave hq => exact .inl hq
  | drain | drained | drainFree | drainFreed => exact .inr trivial
  | enter | ready | notReady | take | nothing | loadVid | retry | giveUp | accepted | emptyBatch
  | freeUndelivered | undeliveredFreed | noneDelivered | freeDelivered | batchFreed =>
    exact hd.elim

theorem ConsumerEdge.exited {c c' : ConsumerPc} (h : ConsumerEdge s c c') (he : c' = .exited) :
    c = .drainDequeue := by
  cases h with
  | drained => rfl
  | _ => cases he

/-- The consumer ends with the drain call that returns nothing, and only there. -/
theorem ConsumerMove.exited (h : ConsumerMove rule s a s') (he : s'.consumer = .exited) :
    a = .rteRingScDequeueBurst 0 ∧ s.consumer = .drainDequeue ∧ s' = s.drainBatch 0 ∧
      rule.allows (min pktBurstSz s.ring.length) 0 = true := by
  have hd : s.consumer = .drainDequeue := h.edge.exited he
  cases h with
  | drain remaining hc hk =>
    rcases drainBatch_consumer s remaining with ⟨-, h⟩ | ⟨rfl, -⟩
    · rw [h] at he; cases he
    · exact ⟨rfl, hc, rfl, hk⟩
  | leave hc | enter hc | ready hc | notReady hc | take _ hc | loadVid _ _ _ hc
  | deliver _ _ _ _ _ hc | freeUndelivered _ _ _ _ hc | freeDelivered _ _ _ _ hc
  | drainFree _ _ _ hc => rw [hd] at hc; cases hc

/-- A ring that hands out all it has answers 0 only when it is empty. -/
theorem ring_empty_of_allows (h : BurstRule.allThatFits.allows (min pktBurstSz s.ring.length) 0 = true) :
    s.ring = [] := by
  have hmin : 0 = min pktBurstSz s.ring.length := by
    simpa only [BurstRule.allows, decide_eq_true_eq] using h
  have hburst : pktBurstSz = 32 := rfl
  exact List.eq_nil_of_length_eq_zero (by omega)

theorem ConsumerMove.quiescent (h : ConsumerMove .allThatFits s a s') (hr : s.producer.InRange)
    (hi : Quiescent s) : Quiescent s' := by
  have hempty : s'.consumer = .exited → s'.ring = [] := by
    intro he
    obtain ⟨-, -, rfl, hk⟩ := h.exited he
    rw [drainBatch_ring, ring_empty_of_allows hk, List.drop_nil]
  refine ⟨fun hd => ?_, fun hc _ => hempty hc, fun hc => ?_⟩
  · rw [h.sameEnv.quit]
    exact (h.edge.draining hd).elim id hi.quit
  · rw [hempty hc, h.sameProducer.producer, List.length_nil, Nat.zero_add]
    exact rest_length_le hr

theorem EnvMove.quit_of_quit (h : EnvMove s a s') (hq : s.quit = true) : s'.quit = true := by
  cases h with
  | stop => rfl
  | _ => exact hq

theorem step_quiescent (hr : s.InRange) (hi : Quiescent s)
    (h : step .allThatFits s a = some s') : Quiescent s' := by
  rcases step_cases h with hp | hc | he
  · exact hp.quiescent hi
  · exact hc.quiescent hr.1 hi
  · obtain ⟨⟨hp, -, -⟩, ⟨hc, -, -, -, -⟩, hring⟩ := he.sameThreads
    refine ⟨fun hd => he.quit_of_quit (hi.quit (hc ▸ hd)), fun hx ht => ?_, fun hx => ?_⟩
    · rw [hring]; exact hi.empty (hc ▸ hx) (hp ▸ ht)
    · rw [hring, hp]; exact hi.burst (hc ▸ hx)

theorem quiescent_init : Quiescent init := by
  refine ⟨?_, ?_, ?_⟩
  · intro hd; exact hd.elim
  · intro hc; cases hc
  · intro hc; cases hc

theorem reachable_quiescent (h : Reachable .allThatFits s) : Quiescent s :=
  h.invariant_inRange quiescent_init (fun _ _ _ => step_quiescent)

/-! ## The producer always gets rid of its last batch -/

/-- The producer is pushing its last batch or done with it. -/
structure LastBatch (s : State) : Prop where
  quit : s.quit = true
  producer : ¬ s.producer.ToDequeue

theorem step_lastBatch (hi : LastBatch s) (h : step rule s a = some s') : LastBatch s' := by
  rcases step_cases h with hp | hc | he
  · refine ⟨hp.sameEnv.quit ▸ hi.quit, fun ht => ?_⟩
    rcases hp.edge.toDequeue ht with hq | ht
    · rw [hi.quit] at hq; cases hq
    · exact hi.producer ht
  · exact ⟨hc.sameEnv.quit ▸ hi.quit, hc.sameProducer.producer ▸ hi.producer⟩
  · exact ⟨he.quit_of_quit hi.quit, he.sameThreads.producer ▸ hi.producer⟩

/-- In the last batch nothing is dequeued any more. -/
theorem lastBatch_no_dequeue (hi : LastBatch s) (h : step rule s a = some s') :
    ∀ pkts, a ≠ .rteVhostDequeueBurst pkts := by
  rintro pkts rfl
  rcases step_cases h with hp | hc | he
  · cases hp with
    | receive vid pkts hp hf => exact hi.producer (hp ▸ trivial)
  · cases hc
  · cases he

theorem toDequeue_rest {p : ProducerPc} (h : p.rest ≠ []) : ¬ p.ToDequeue := by
  cases p with
  | ringEnqueue | retryLoadQuit => exact id
  | _ => exact (h rfl).elim

/-- With the consumer ended, one push takes the whole rest. -/
theorem last_push (hr : s.InRange) (hi : Quiescent s) (hc : s.consumer = .exited)
    {pkts : List Mbuf} {sent : Nat} (hp : s.producer = .ringEnqueue pkts sent) :
    (∃ k s', step .allThatFits s (.rteRingSpEnqueueBurst k) = some s') ∧
    ∀ k s', step .allThatFits s (.rteRingSpEnqueueBurst k) = some s' →
      k = pkts.length - sent ∧ s'.producer = .loadQuit := by
  have hlt : sent < pkts.length := by
    have hrp := hr.1
    rw [hp] at hrp
    exact hrp.1
  -- ring and rest are one burst at most, so the rest is what limits the call
  have hroom : min (pkts.length - sent) (ringSize - 1 - s.ring.length) = pkts.length - sent := by
    have hburst := hi.burst hc
    rw [hp] at hburst
    have hle : s.ring.length + (pkts.drop sent).length ≤ pktBurstSz := hburst
    rw [List.length_drop] at hle
    have : ringSize = 4096 ∧ pktBurstSz = 32 := ⟨rfl, rfl⟩
    omega
  refine ⟨⟨pkts.length - sent, s.push pkts sent (pkts.length - sent), ?_⟩, fun k s' hs => ?_⟩
  · simp [step, rteRingSpEnqueueBurst, hp, hroom, BurstRule.allows]
  · rcases step_cases hs with hm | hm | hm
    · cases hm with
      | push pkts' sent' pushed hp' hk =>
        rw [hp] at hp'
        cases hp'
        rw [hroom] at hk
        have hk' : k = pkts.length - sent := by
          simpa only [BurstRule.allows, decide_eq_true_eq] using hk
        refine ⟨hk', ?_⟩
        rcases push_producer s pkts sent k with ⟨hshort, -⟩ | ⟨-, h⟩
        · omega
        · exact h
    · cases hm
    · cases hm

/-- **Shutdown does not wedge the producer.** Once the consumer has ended, the
ring and the producer's rest hold at most one burst; the next push is possible
and takes the whole rest; and no run from here dequeues again. -/
theorem shutdown_not_wedged (s : State) (h : Reachable .allThatFits s)
    (hc : s.consumer = .exited) :
    s.ring.length + s.producer.rest.length ≤ pktBurstSz ∧
    (∀ pkts sent, s.producer = .ringEnqueue pkts sent →
      (∃ k s', step .allThatFits s (.rteRingSpEnqueueBurst k) = some s') ∧
      ∀ k s', step .allThatFits s (.rteRingSpEnqueueBurst k) = some s' →
        k = pkts.length - sent ∧ s'.producer = .loadQuit) ∧
    (s.producer.rest ≠ [] → ∀ as s', Transition.run (step .allThatFits) s as = some s' →
      ∀ pkts, .rteVhostDequeueBurst pkts ∉ as) := by
  have hi := reachable_quiescent h
  refine ⟨hi.burst hc, fun pkts sent hp => last_push (reachable_inRange h) hi hc hp, ?_⟩
  intro hrest as s' hrun pkts hmem
  -- a producer with packets in hand is past its dequeue, and meets `quit_` before the next
  have hl : LastBatch s := ⟨hi.quit (hc ▸ trivial), toDequeue_rest hrest⟩
  have hnone := Transition.run_actions (I := LastBatch)
    (P := fun a => ∀ pkts, a ≠ .rteVhostDequeueBurst pkts)
    (fun _ _ _ => step_lastBatch) (fun _ _ _ => lastBatch_no_dequeue) hl hrun
  exact hnone _ hmem pkts rfl

/-- One packet is taken from the guest, then `stop()` comes and the consumer
drains an empty ring and ends before the producer has pushed. -/
def lateBatchRun : List Act :=
  connect 0 ++ receives 0 1 ++ [.stop, .consumerLoadQuit, .rteRingScDequeueBurst 0]

def lateBatchState : State := (Transition.run (step .allThatFits) init lateBatchRun).getD init

theorem lateBatchState_reachable : Reachable .allThatFits lateBatchState := ⟨lateBatchRun, rfl⟩

theorem shutdown_not_wedged_late :
    lateBatchState.producer.rest = [mbufOf 0] ∧
    lateBatchState.ring.length + lateBatchState.producer.rest.length ≤ pktBurstSz ∧
    (∀ pkts sent, lateBatchState.producer = .ringEnqueue pkts sent →
      (∃ k s', step .allThatFits lateBatchState (.rteRingSpEnqueueBurst k) = some s') ∧
      ∀ k s', step .allThatFits lateBatchState (.rteRingSpEnqueueBurst k) = some s' →
        k = pkts.length - sent ∧ s'.producer = .loadQuit) ∧
    (lateBatchState.producer.rest ≠ [] →
      ∀ as s', Transition.run (step .allThatFits) lateBatchState as = some s' →
        ∀ pkts, .rteVhostDequeueBurst pkts ∉ as) :=
  ⟨rfl, shutdown_not_wedged lateBatchState lateBatchState_reachable rfl⟩

/-! ## Leaks -/

/-- The condition on a step under which nothing leaks: the closing drain call
finds the ring empty and the producer without packets, and after it no dequeue
returns packets. -/
def NoLateBatch (s : State) : Act → Prop
  | .rteRingScDequeueBurst remaining =>
    s.consumer = .drainDequeue → remaining = 0 → s.ring = [] ∧ s.producer.rest = []
  | .rteVhostDequeueBurst pkts => s.consumer = .exited → pkts = []
  | _ => True

/-- The packets the consumer has not seen: the ring and the producer's rest. -/
def State.upstream (s : State) : List Mbuf := s.ring ++ s.producer.rest

/-- The producer only adds to them. -/
theorem ProducerMove.upstream (h : ProducerMove rule s a s') :
    s'.upstream = s.upstream ∨ ∃ pkts, a = .rteVhostDequeueBurst pkts ∧
      s'.upstream = s.upstream ++ pkts := by
  unfold State.upstream
  cases h with
  | exit hp | enter hp | ready hp | notReady hp | loadVid hp | retry pkts sent hp =>
    left
    rw [hp]
    rfl
  | receive vid pkts hp hf =>
    right
    refine ⟨pkts, rfl, ?_⟩
    have hrest : s.producer.rest = [] := by rw [hp]; rfl
    rw [receive_ring, receive_rest, hrest, List.append_nil]
  | push pkts sent pushed hp hk =>
    left
    have hrest : s.producer.rest = pkts.drop sent := by rw [hp]; rfl
    rw [push_ring, push_rest, hrest, List.append_assoc, ← List.drop_drop, List.take_append_drop]

/-- Packets nobody will free: the consumer has ended and there are some left. -/
def State.Leaking (s : State) : Prop := s.consumer = .exited ∧ s.upstream ≠ []

theorem ConsumerMove.not_exited (h : ConsumerMove rule s a s') : s.consumer ≠ .exited := by
  intro hx
  have he := h.edge
  rw [hx] at he
  cases he

theorem consumer_stays_exited (h : step rule s a = some s') (hc : s.consumer = .exited) :
    s'.consumer = .exited := by
  rcases step_cases h with hp | hm | he
  · rw [hp.sameConsumer.consumer, hc]
  · exact (hm.not_exited hc).elim
  · rw [he.sameThreads.consumer, hc]

theorem step_leaking (h : step rule s a = some s') (hl : s.Leaking) : s'.Leaking := by
  refine ⟨consumer_stays_exited h hl.1, ?_⟩
  rcases step_cases h with hp | hc | he
  · rcases hp.upstream with heq | ⟨pkts, -, heq⟩ <;> rw [heq]
    · exact hl.2
    · exact List.append_ne_nil_of_left_ne_nil hl.2 pkts
  · exact (hc.not_exited hl.1).elim
  · rw [State.upstream, he.sameThreads.ring, he.sameThreads.producer]
    exact hl.2

/-- A step that fails the condition leaks. -/
theorem leaking_of_not_noLateBatch (h : step rule s a = some s') (hn : ¬ NoLateBatch s a) :
    s'.Leaking := by
  rcases step_cases h with hp | hc | he
  · cases hp with
    | receive vid pkts hp hf =>
      obtain ⟨hx, hne⟩ := Classical.not_imp.mp hn
      refine ⟨hx, ?_⟩
      rw [State.upstream, receive_rest]
      exact List.append_ne_nil_of_right_ne_nil _ hne
    | _ => exact (hn trivial).elim
  · cases hc with
    | drain remaining hc hk =>
      obtain ⟨-, hlast⟩ := Classical.not_imp.mp hn
      obtain ⟨rfl, hfound⟩ := Classical.not_imp.mp hlast
      exact ⟨rfl, fun h0 => hfound (List.append_eq_nil_iff.mp h0)⟩
    | take nbDeq hc hk => exact (hn (fun hd => (by rw [hc] at hd; cases hd))).elim
    | _ => exact (hn trivial).elim
  · cases he <;> exact (hn trivial).elim

/-- A step that meets the condition does not start a leak. -/
theorem step_not_leaking (hi : ¬ s.Leaking) (hC : NoLateBatch s a)
    (h : step rule s a = some s') : ¬ s'.Leaking := by
  rintro ⟨hx, hne⟩
  rcases step_cases h with hp | hc | he
  · have hx' : s.consumer = .exited := hp.sameConsumer.consumer ▸ hx
    have h0 : s.upstream = [] := by
      by_contra hne'
      exact hi ⟨hx', hne'⟩
    rcases hp.upstream with heq | ⟨pkts, rfl, heq⟩
    · exact hne (heq.trans h0)
    · have hnil : pkts = [] := hC hx'
      rw [heq, h0, hnil] at hne
      exact hne rfl
  · obtain ⟨rfl, hd, rfl, -⟩ := hc.exited hx
    obtain ⟨hring, hrest⟩ := hC hd rfl
    apply hne
    rw [State.upstream, drainBatch_ring, drainBatch_producer, hring, hrest]
    rfl
  · apply hi
    refine ⟨he.sameThreads.consumer ▸ hx, ?_⟩
    rw [State.upstream, he.sameThreads.ring, he.sameThreads.producer] at hne
    exact hne

/-- With the consumer ended, all is freed when nothing is left upstream. -/
theorem all_freed_of_not_leaking (h : Reachable rule s) (hc : s.consumer = .exited)
    (hl : ¬ s.Leaking) :
    (∀ b ∈ s.dequeued, b ∈ s.freed.map Free.mbuf) ∧ s.ring = [] := by
  have hup : s.upstream = [] := by
    by_contra hne
    exact hl ⟨hc, hne⟩
  obtain ⟨hring, hrest⟩ := List.append_eq_nil_iff.mp hup
  refine ⟨fun b hb => ?_, hring⟩
  have hm := (custody_perm h).mem_iff.mp hb
  rw [hring, hrest, hc] at hm
  simpa [ConsumerPc.held, ConsumerPc.spent, ConsumerPc.undelivered] using hm

/-- **When nothing leaks.** A run that ends with both threads ended has freed
every mbuf it dequeued, and left the ring empty, exactly if no step of it left
the producer a batch that nobody reads. -/
theorem all_freed_iff (rule : BurstRule) (as : List Act) (s : State)
    (hr : Transition.run (step rule) init as = some s) (hp : s.producer = .exited)
    (hc : s.consumer = .exited) :
    ((∀ b ∈ s.dequeued, b ∈ s.freed.map Free.mbuf) ∧ s.ring = []) ↔
      Transition.Meets (step rule) NoLateBatch init as := by
  constructor
  · rintro ⟨-, hring⟩
    -- a leak, once there, stays; this run ends without one, so no step started one
    refine Transition.meets_of_unspoiled (I := fun _ => True) (D := State.Leaking)
      (fun _ _ _ _ _ => trivial) (fun _ _ _ _ h hn => leaking_of_not_noLateBatch h hn)
      (fun _ _ _ _ hl h => step_leaking h hl) trivial hr ?_
    rintro ⟨-, hne⟩
    apply hne
    rw [State.upstream, hring, hp]
    rfl
  · intro hm
    refine all_freed_of_not_leaking ⟨as, hr⟩ hc ?_
    refine Transition.meets_invariant (I := fun s => ¬ s.Leaking)
      (fun _ _ _ hi hC h => step_not_leaking hi hC h) ?_ hm hr
    rintro ⟨hx, -⟩
    cases hx

/-- One packet goes through to the guest and is freed; then both threads end. -/
def cleanRun : List Act :=
  connect 0 ++ receives 0 1 ++
    [.rteRingSpEnqueueBurst 1, .consumerLoadQuit, .consumerLoadReady, .rteRingScDequeueBurst 1,
      .consumerLoadVid, .rteVhostEnqueueBurst 1, .rtePktmbufFree, .stop, .producerLoadQuit,
      .consumerLoadQuit, .rteRingScDequeueBurst 0]

def cleanState : State := (Transition.run (step .allThatFits) init cleanRun).getD init

theorem all_freed_iff_clean :
    cleanState.dequeued = [mbufOf 0] ∧
    Transition.Meets (step .allThatFits) NoLateBatch init cleanRun :=
  ⟨rfl, (all_freed_iff .allThatFits cleanRun cleanState rfl rfl rfl).mp ⟨by decide, rfl⟩⟩

/-- The late batch is pushed after the consumer has ended, and the producer ends. -/
def leakRun : List Act := lateBatchRun ++ [.rteRingSpEnqueueBurst 1, .producerLoadQuit]

def leakState : State := (Transition.run (step .allThatFits) init leakRun).getD init

/-- Not every shutdown frees every mbuf, even with a ring that moves all it can. -/
theorem late_batch_leaks :
    ¬ ∀ s, Reachable .allThatFits s → s.producer = .exited → s.consumer = .exited →
      (∀ b ∈ s.dequeued, b ∈ s.freed.map Free.mbuf) ∧ s.ring = [] := by
  intro hall
  have hleak := hall leakState ⟨leakRun, rfl⟩ rfl rfl
  exact absurd hleak.2 (by decide)

end VirtioBench.Vhost
