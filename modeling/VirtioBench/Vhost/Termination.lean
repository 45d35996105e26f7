import VirtioBench.Vhost.Shutdown

/- How much the controller can hold, and how long it takes to stop
   (vtb/src/vhost_controller.cpp, vtb/inc/vhost_controller.h).

   1. `pool_suffices` — the mbufs that are out of the pool are those of two bursts and one
      ring, about half of `MBUF_POOL_SIZE`, so the pool is never short;
   2. `consumer_stops` — after `stop()` the consumer thread is never blocked and ends within a
      fixed number of its own steps, whatever the producer, the device callbacks and DPDK do
      in between. The argument is a potential (`State.potential`): every step of the consumer
      pays for itself out of the place it is at, the packets still in the ring, and the one
      batch the producer can still add;
   3. `producer_stops` — after that the producer ends too, within five steps: `run()` returns. -/
namespace VirtioBench.Vhost

def mbufPoolSize : Nat := 8191

variable {rule : BurstRule} {s s' : State} {a : Act}

/-! ## The pool -/

theorem step_ring (h : step rule s a = some s') (hi : s.ring.length ≤ ringSize - 1) :
    s'.ring.length ≤ ringSize - 1 := by
  rcases step_cases h with hp | hc | he
  · cases hp with
    | push pkts sent pushed hp hk =>
      have hle := BurstRule.le_of_allows hk
      rw [push_ring, List.length_append, List.length_take]
      omega
    | _ => exact hi
  · cases hc with
    | take nbDeq hc hk =>
      rw [takeBatch_ring, List.length_drop]
      omega
    | drain remaining hc hk =>
      rw [drainBatch_ring, List.length_drop]
      omega
    | deliver vid pkts sent retries nbTx hc hk =>
      rw [deliver_ring]
      exact hi
    | _ => exact hi
  · rw [he.sameThreads.ring]
    exact hi

theorem reachable_ring (h : Reachable rule s) : s.ring.length ≤ ringSize - 1 :=
  h.invariant (Nat.zero_le _) (fun _ _ _ hi hs => step_ring hs hi)

/-- What the consumer has in hand is part of one batch. -/
def ConsumerPc.batch : ConsumerPc → List Mbuf
  | .loadVid pkts _ _ | .enqueueBurst _ pkts _ _ | .freeUndelivered pkts _ _
  | .freeDelivered pkts _ _ | .drainFree pkts _ => pkts
  | .loadQuit | .loadReady | .ringDequeue | .drainDequeue | .exited => []

theorem freeDeliveredFrom_batch (pkts : List Mbuf) (sent : Nat) :
    (freeDeliveredFrom pkts sent).batch.length ≤ pkts.length := by
  rcases freeDeliveredFrom_cases pkts sent with ⟨-, h⟩ | ⟨-, h⟩
  · rw [h]
    exact Nat.le_refl _
  · rw [h]
    exact Nat.zero_le _

theorem ConsumerMove.batch (h : ConsumerMove rule s a s')
    (hi : s.consumer.batch.length ≤ pktBurstSz) : s'.consumer.batch.length ≤ pktBurstSz := by
  cases h with
  | leave | enter | ready | notReady => exact Nat.zero_le _
  | take nbDeq hc hk =>
    rcases takeBatch_consumer s nbDeq with ⟨h0, h⟩ | ⟨-, h⟩
    · rw [h]
      exact (batch_length h0 hk).2
    · rw [h]
      exact Nat.zero_le _
  | drain remaining hc hk =>
    rcases drainBatch_consumer s remaining with ⟨h0, h⟩ | ⟨-, h⟩
    · rw [h]
      exact (batch_length h0 hk).2
    · rw [h]
      exact Nat.zero_le _
  | loadVid pkts sent retries hc =>
    rw [hc] at hi
    exact hi
  | deliver vid pkts sent retries nbTx hc hk =>
    rw [hc] at hi
    rcases deliver_consumer s pkts sent retries nbTx vid with ⟨-, -, h⟩ | ⟨-, -, h⟩ | ⟨-, h⟩
    · rw [h]
      exact hi
    · rw [h]
      exact hi
    · rw [h]
      exact Nat.le_trans (freeDeliveredFrom_batch pkts _) hi
  | freeUndelivered pkts sent i b hc hb =>
    rw [hc] at hi
    rw [free_consumer]
    split
    · exact hi
    · exact Nat.le_trans (freeDeliveredFrom_batch pkts _) hi
  | freeDelivered pkts sent i b hc hb =>
    rw [hc] at hi
    rw [free_consumer]
    split
    · exact hi
    · exact Nat.zero_le _
  | drainFree pkts i b hc hb =>
    rw [hc] at hi
    rw [free_consumer]
    split
    · exact hi
    · exact Nat.zero_le _

theorem reachable_batch (h : Reachable rule s) : s.consumer.batch.length ≤ pktBurstSz := by
  refine h.invariant (I := fun s => s.consumer.batch.length ≤ pktBurstSz) (Nat.zero_le _) ?_
  intro s a s' hi hs
  rcases step_cases hs with hp | hc | he
  · rw [hp.sameConsumer.consumer]
    exact hi
  · exact hc.batch hi
  · rw [he.sameThreads.consumer]
    exact hi

theorem held_length_le {c : ConsumerPc} (h : c.InRange) : c.held.length ≤ c.batch.length := by
  unfold ConsumerPc.held
  rw [List.length_append]
  cases c with
  | loadVid pkts sent retries | enqueueBurst vid pkts sent retries =>
    show (pkts.take sent).length + (pkts.drop sent).length ≤ pkts.length
    rw [List.length_take, List.length_drop]
    omega
  | freeUndelivered pkts sent i =>
    show (pkts.take sent).length + (pkts.drop i).length ≤ pkts.length
    have hle : sent ≤ i := h.1
    rw [List.length_take, List.length_drop]
    omega
  | freeDelivered pkts sent i =>
    show ((pkts.take sent).drop i).length + 0 ≤ pkts.length
    rw [List.length_drop, List.length_take]
    omega
  | drainFree pkts i =>
    show 0 + (pkts.drop i).length ≤ pkts.length
    rw [List.length_drop]
    omega
  | loadQuit | loadReady | ringDequeue | drainDequeue | exited => exact Nat.le_refl _

/-- **The pool is never short.** In every reachable state the mbufs taken and not yet freed are at
most two bursts and a full ring; and when `rte_vhost_dequeue_burst` is called there are in the
pool the mbufs of a whole burst, and almost 4000 more. -/
theorem pool_suffices (rule : BurstRule) (s : State) (h : Reachable rule s) :
    s.dequeued.length ≤ s.freed.length + (pktBurstSz + (ringSize - 1) + pktBurstSz) ∧
    ∀ vid, s.producer = .dequeueBurst vid →
      s.dequeued.length + pktBurstSz + 4000 ≤ s.freed.length + mbufPoolSize := by
  have hperm := (custody_perm h).length_eq
  simp only [List.length_append, List.length_map] at hperm
  have hrest := rest_length_le (reachable_inRange h).1
  have hring := reachable_ring h
  have hheld := held_length_le (reachable_inRange h).2
  have hbatch := reachable_batch h
  refine ⟨by omega, ?_⟩
  intro vid hp
  have hnone : s.producer.rest.length = 0 := by
    rw [hp]
    rfl
  have hsizes : pktBurstSz = 32 ∧ ringSize = 4096 ∧ mbufPoolSize = 8191 := ⟨rfl, rfl, rfl⟩
  omega

theorem pool_suffices_partial :
    partialState.dequeued.length = 3 ∧ partialState.freed.length = 0 ∧
    partialState.dequeued.length ≤
      partialState.freed.length + (pktBurstSz + (ringSize - 1) + pktBurstSz) :=
  ⟨rfl, rfl, (pool_suffices .anyPrefix partialState partialState_reachable).1⟩

/-! ## The consumer after `stop()` -/

/-- The steps of the consumer. -/
def Act.ofConsumer : Act → Bool
  | .consumerLoadQuit | .consumerLoadReady | .rteRingScDequeueBurst _ | .consumerLoadVid
  | .rteVhostEnqueueBurst _ | .rtePktmbufFree => true
  | .producerLoadQuit | .producerLoadReady | .producerLoadVid | .rteVhostDequeueBurst _
  | .rteRingSpEnqueueBurst _ | .newDevice _ | .destroyDevice _ | .callback _ | .stop => false

/-- The most steps the consumer takes from where it is to the end of the drain, if the ring
stays empty; two for each call of the retry loop, one for each mbuf it frees. -/
def ConsumerPc.cost : ConsumerPc → Nat
  | .exited => 0
  | .drainDequeue => 1
  | .drainFree pkts i => (pkts.length - i) + 1
  | .loadQuit => 2
  | .freeDelivered _ sent i => (sent - i) + 2
  | .freeUndelivered pkts sent i => (pkts.length - i) + sent + 2
  | .enqueueBurst _ pkts _ retries => 2 * (maxEnqueueRetries - retries) + pkts.length + 3
  | .loadVid pkts _ retries => 2 * (maxEnqueueRetries - retries) + pkts.length + 4
  | .ringDequeue => 2 * maxEnqueueRetries + 5
  | .loadReady => 2 * maxEnqueueRetries + 6

/-- The packets the producer can still push once `quit_` is set: those of its batch, or of
the one it is about to take. -/
def ProducerPc.pending : ProducerPc → Nat
  | .ringEnqueue pkts sent | .retryLoadQuit pkts sent => pkts.length - sent
  | .loadReady | .loadVid | .dequeueBurst _ => pktBurstSz
  | .loadQuit | .exited => 0

/-- A packet in the ring is one more to take and to free. -/
def State.potential (s : State) : Nat :=
  s.consumer.cost + 2 * (s.ring.length + s.producer.pending)

theorem freeDeliveredFrom_cost (pkts : List Mbuf) (sent : Nat) :
    (freeDeliveredFrom pkts sent).cost ≤ sent + 2 := by
  rcases freeDeliveredFrom_cases pkts sent with ⟨-, h⟩ | ⟨-, h⟩
  · rw [h]
    exact Nat.le_refl _
  · rw [h]
    exact Nat.le_add_left _ _

/-- Every step of the consumer pays for itself. -/
theorem ConsumerMove.pays (h : ConsumerMove rule s a s') (hr : s.consumer.InRange)
    (hq : s.quit = true) : s'.potential + 1 ≤ s.potential := by
  unfold State.potential
  rw [h.sameProducer.producer]
  cases h with
  | leave hc | ready hc | notReady hc =>
    rw [hc]
    simp only [ConsumerPc.cost]
    omega
  | enter hc hq' =>
    rw [hq] at hq'
    cases hq'
  | take nbDeq hc hk =>
    have hle := BurstRule.le_of_allows hk
    rw [hc, takeBatch_ring, List.length_drop]
    rcases takeBatch_consumer s nbDeq with ⟨h0, h⟩ | ⟨rfl, h⟩
    · rw [h]
      simp only [ConsumerPc.cost, List.length_take]
      omega
    · rw [h]
      simp only [ConsumerPc.cost]
      omega
  | drain remaining hc hk =>
    have hle := BurstRule.le_of_allows hk
    rw [hc, drainBatch_ring, List.length_drop]
    rcases drainBatch_consumer s remaining with ⟨h0, h⟩ | ⟨rfl, h⟩
    · rw [h]
      simp only [ConsumerPc.cost, List.length_take]
      omega
    · rw [h]
      simp only [ConsumerPc.cost]
      omega
  | loadVid pkts sent retries hc =>
    rw [hc]
    simp only [ConsumerPc.cost]
    omega
  | deliver vid pkts sent retries nbTx hc hk =>
    rw [hc] at hr ⊢
    obtain ⟨hsent, -, hretries⟩ := hr
    rw [deliver_ring]
    rcases deliver_consumer s pkts sent retries nbTx vid with ⟨-, hmore, h⟩ | ⟨-, -, h⟩ | ⟨-, h⟩
    · rw [h]
      simp only [ConsumerPc.cost]
      omega
    · rw [h]
      simp only [ConsumerPc.cost]
      omega
    · have hcost := freeDeliveredFrom_cost pkts (sent + nbTx)
      have hnow : (ConsumerPc.enqueueBurst vid pkts sent retries).cost =
          2 * (maxEnqueueRetries - retries) + pkts.length + 3 := rfl
      rw [h, hnow]
      omega
  | freeUndelivered pkts sent i b hc hb =>
    rw [hc] at hr ⊢
    have hlt : i < pkts.length := hr.2
    have hcost := freeDeliveredFrom_cost pkts sent
    have hnow : (ConsumerPc.freeUndelivered pkts sent i).cost = (pkts.length - i) + sent + 2 := rfl
    rw [free_consumer, free_ring, hnow]
    split
    · simp only [ConsumerPc.cost]
      omega
    · omega
  | freeDelivered pkts sent i b hc hb =>
    rw [hc] at hr ⊢
    have hlt : i < sent := hr.1
    rw [free_consumer, free_ring]
    split
    · simp only [ConsumerPc.cost]
      omega
    · simp only [ConsumerPc.cost]
      omega
  | drainFree pkts i b hc hb =>
    rw [hc] at hr ⊢
    have hlt : i < pkts.length := hr
    rw [free_consumer, free_ring]
    split
    · simp only [ConsumerPc.cost]
      omega
    · simp only [ConsumerPc.cost]
      omega

/-- The producer adds nothing: it moves packets to the ring that were counted before. -/
theorem ProducerMove.adds_nothing (h : ProducerMove rule s a s') (hq : s.quit = true) :
    s'.potential ≤ s.potential := by
  unfold State.potential
  rw [h.sameConsumer.consumer]
  cases h with
  | exit hp | notReady hp | ready hp | loadVid hp | retry pkts sent hp =>
    rw [hp]
    simp only [ProducerPc.pending]
    omega
  | enter hp hq' =>
    rw [hq] at hq'
    cases hq'
  | receive vid pkts hp hf =>
    have hle : pkts.length ≤ pktBurstSz := hf.1
    rw [hp, receive_ring]
    rcases receive_producer s pkts with ⟨-, h⟩ | ⟨-, h⟩
    · rw [h]
      simp only [ProducerPc.pending]
      omega
    · rw [h]
      simp only [ProducerPc.pending]
      omega
  | push pkts sent pushed hp hk =>
    have hle := BurstRule.le_of_allows hk
    rw [hp, push_ring, List.length_append, List.length_take, List.length_drop]
    rcases push_producer s pkts sent pushed with ⟨-, h⟩ | ⟨-, h⟩
    · rw [h]
      simp only [ProducerPc.pending]
      omega
    · rw [h]
      simp only [ProducerPc.pending]
      omega

theorem ConsumerMove.ofConsumer (h : ConsumerMove rule s a s') : a.ofConsumer = true := by
  cases h <;> rfl

theorem ProducerMove.ofConsumer (h : ProducerMove rule s a s') : a.ofConsumer = false := by
  cases h <;> rfl

theorem EnvMove.ofConsumer (h : EnvMove s a s') : a.ofConsumer = false := by
  cases h <;> rfl

theorem step_potential (hr : s.InRange) (hq : s.quit = true) (h : step rule s a = some s') :
    s'.potential + (if a.ofConsumer then 1 else 0) ≤ s.potential := by
  rcases step_cases h with hp | hc | he
  · rw [hp.ofConsumer]
    exact hp.adds_nothing hq
  · rw [hc.ofConsumer]
    exact hc.pays hr.2 hq
  · rw [he.ofConsumer]
    unfold State.potential
    rw [he.sameThreads.consumer, he.sameThreads.producer, he.sameThreads.ring]
    exact Nat.le_refl _

theorem step_quit (h : step rule s a = some s') (hq : s.quit = true) : s'.quit = true := by
  rcases step_cases h with hp | hc | he
  · rw [hp.sameEnv.quit]
    exact hq
  · rw [hc.sameEnv.quit]
    exact hq
  · exact he.quit_of_quit hq

/-- The steps of the consumer after `stop()`. -/
def stopBound : Nat := (2 * maxEnqueueRetries + pktBurstSz + 4) + 2 * (ringSize - 1 + pktBurstSz)

theorem cost_le {c : ConsumerPc} (hr : c.InRange) (hb : c.batch.length ≤ pktBurstSz) :
    c.cost ≤ 2 * maxEnqueueRetries + pktBurstSz + 4 := by
  have hsizes : pktBurstSz = 32 ∧ maxEnqueueRetries = 1000 := ⟨rfl, rfl⟩
  cases c with
  | loadVid pkts sent retries | enqueueBurst vid pkts sent retries | drainFree pkts i =>
    simp only [ConsumerPc.cost, ConsumerPc.batch] at hb ⊢
    omega
  | freeUndelivered pkts sent i =>
    have hle : sent ≤ i ∧ i < pkts.length := hr
    simp only [ConsumerPc.cost, ConsumerPc.batch] at hb ⊢
    omega
  | freeDelivered pkts sent i =>
    have hle : sent ≤ pkts.length := hr.2
    simp only [ConsumerPc.cost, ConsumerPc.batch] at hb ⊢
    omega
  | loadQuit | loadReady | ringDequeue | drainDequeue | exited =>
    simp only [ConsumerPc.cost]
    omega

theorem pending_le {p : ProducerPc} (h : p.InRange) : p.pending ≤ pktBurstSz := by
  cases p with
  | ringEnqueue pkts sent | retryLoadQuit pkts sent =>
    have hle : pkts.length ≤ pktBurstSz := h.2
    simp only [ProducerPc.pending]
    omega
  | _ => simp [ProducerPc.pending]

theorem potential_le (h : Reachable rule s) : s.potential ≤ stopBound := by
  have hcost := cost_le (reachable_inRange h).2 (reachable_batch h)
  have hpending := pending_le (reachable_inRange h).1
  have hring := reachable_ring h
  unfold State.potential stopBound
  omega

/-- A ring burst call can always be answered. -/
theorem BurstRule.exists_allows (rule : BurstRule) (limit : Nat) :
    ∃ k, rule.allows limit k = true := by
  refine ⟨limit, ?_⟩
  cases rule <;> simp [BurstRule.allows]

/-- The consumer has a step until it has ended. -/
theorem consumer_can_move (hr : s.consumer.InRange) (hc : s.consumer ≠ .exited) :
    ∃ a, a.ofConsumer = true ∧ ∃ s', step rule s a = some s' := by
  obtain ⟨k, hk⟩ := rule.exists_allows (min pktBurstSz s.ring.length)
  cases hpc : s.consumer with
  | loadQuit => exact ⟨.consumerLoadQuit, rfl, by simp [step, consumerLoadQuit, hpc]⟩
  | loadReady => exact ⟨.consumerLoadReady, rfl, by simp [step, consumerLoadReady, hpc]⟩
  | ringDequeue =>
    exact ⟨.rteRingScDequeueBurst k, rfl, by simp [step, rteRingScDequeueBurst, hpc, hk]⟩
  | loadVid pkts sent retries => exact ⟨.consumerLoadVid, rfl, by simp [step, consumerLoadVid, hpc]⟩
  | enqueueBurst vid pkts sent retries =>
    exact ⟨.rteVhostEnqueueBurst 0, rfl, by simp [step, rteVhostEnqueueBurst, hpc]⟩
  | freeUndelivered pkts sent i =>
    rw [hpc] at hr
    have hb := List.getElem?_eq_getElem hr.2
    exact ⟨.rtePktmbufFree, rfl, by simp [step, rtePktmbufFree, hpc, hb]⟩
  | freeDelivered pkts sent i =>
    rw [hpc] at hr
    have hlt : i < pkts.length := Nat.lt_of_lt_of_le hr.1 hr.2
    have hb := List.getElem?_eq_getElem hlt
    exact ⟨.rtePktmbufFree, rfl, by simp [step, rtePktmbufFree, hpc, hb]⟩
  | drainDequeue =>
    exact ⟨.rteRingScDequeueBurst k, rfl, by simp [step, rteRingScDequeueBurst, hpc, hk]⟩
  | drainFree pkts i =>
    rw [hpc] at hr
    have hb := List.getElem?_eq_getElem (l := pkts) hr
    exact ⟨.rtePktmbufFree, rfl, by simp [step, rtePktmbufFree, hpc, hb]⟩
  | exited => exact absurd hpc hc

/-- **The consumer thread stops.** From every reachable state in which `quit_` is set, and in
every interleaving from there: the consumer takes at most `stopBound` more steps, and as
long as it has not ended it can take one, whatever the ring calls return. -/
theorem consumer_stops (rule : BurstRule) (s s' : State) (h : Reachable rule s)
    (hq : s.quit = true) (as : List Act) (hr : Transition.run (step rule) s as = some s') :
    as.countP Act.ofConsumer ≤ stopBound ∧
    (s'.consumer ≠ .exited → ∃ a, a.ofConsumer = true ∧ ∃ s'', step rule s' a = some s'') := by
  have hstart : s.InRange ∧ s.quit = true := ⟨reachable_inRange h, hq⟩
  have hkeep : ∀ t a t', t.InRange ∧ t.quit = true → step rule t a = some t' →
      t'.InRange ∧ t'.quit = true :=
    fun t a t' ht hs => ⟨step_inRange ht.1 hs, step_quit hs ht.2⟩
  refine ⟨?_, ?_⟩
  · have hpaid := Transition.run_potential State.potential Act.ofConsumer hkeep
      (fun t a t' ht hs => step_potential ht.1 ht.2 hs) hstart hr
    have hbound := potential_le h
    omega
  · intro hc
    have hend := Transition.run_invariant hkeep hstart hr
    exact consumer_can_move hend.1.2 hc

/-- The consumer offers a batch to the guest when `stop()` comes. -/
def stoppedRun : List Act := partialRun ++ [.stop]

def stoppedState : State := (Transition.run (step .anyPrefix) init stoppedRun).getD init

/-- The guest takes the second packet; both are freed, and the ring is drained. -/
def drainRun : List Act :=
  [.consumerLoadVid, .rteVhostEnqueueBurst 1, .rtePktmbufFree, .producerLoadQuit,
    .rteRingSpEnqueueBurst 1, .rtePktmbufFree, .consumerLoadQuit, .rteRingScDequeueBurst 1,
    .rtePktmbufFree, .rteRingScDequeueBurst 0]

theorem consumer_stops_drained :
    ∃ s', Transition.run (step .anyPrefix) stoppedState drainRun = some s' ∧
      s'.consumer = .exited ∧ drainRun.countP Act.ofConsumer = 8 ∧
      drainRun.countP Act.ofConsumer ≤ stopBound := by
  obtain ⟨s', hr, hc⟩ : ∃ s', Transition.run (step .anyPrefix) stoppedState drainRun = some s' ∧
      s'.consumer = .exited := ⟨_, rfl, rfl⟩
  exact ⟨s', hr, hc, rfl,
    (consumer_stops .anyPrefix stoppedState s' ⟨stoppedRun, rfl⟩ rfl drainRun hr).1⟩

/-! ## The producer after the consumer -/

/-- The steps of the producer. -/
def Act.ofProducer : Act → Bool
  | .producerLoadQuit | .producerLoadReady | .producerLoadVid | .rteVhostDequeueBurst _
  | .rteRingSpEnqueueBurst _ => true
  | .consumerLoadQuit | .consumerLoadReady | .rteRingScDequeueBurst _ | .consumerLoadVid
  | .rteVhostEnqueueBurst _ | .rtePktmbufFree | .newDevice _ | .destroyDevice _ | .callback _
  | .stop => false

/-- The steps the producer takes from where it is if one push takes its whole batch. -/
def ProducerPc.cost : ProducerPc → Nat
  | .exited => 0
  | .loadQuit => 1
  | .ringEnqueue _ _ => 2
  | .retryLoadQuit _ _ => 3
  | .dequeueBurst _ => 3
  | .loadVid => 4
  | .loadReady => 5

/-- The consumer has ended, and what goes with that. -/
structure Ending (s : State) : Prop where
  inRange : s.InRange
  quiescent : Quiescent s
  distinct : s.Distinct
  consumer : s.consumer = .exited

theorem Ending.quit (h : Ending s) : s.quit = true := h.quiescent.quit (by rw [h.consumer]; trivial)

theorem step_ending (h : Ending s) (hs : step .allThatFits s a = some s') : Ending s' :=
  ⟨step_inRange h.inRange hs, step_quiescent h.inRange h.quiescent hs, step_distinct h.distinct hs,
    consumer_stays_exited hs h.consumer⟩

theorem ProducerMove.ends (h : Ending s) (hm : ProducerMove .allThatFits s a s')
    (hs : step .allThatFits s a = some s') : s'.producer.cost + 1 ≤ s.producer.cost := by
  cases hm with
  | exit hp | ready hp | notReady hp | loadVid hp | retry pkts sent hp =>
    rw [hp]
    simp [ProducerPc.cost]
  | enter hp hq =>
    rw [h.quit] at hq
    cases hq
  | receive vid pkts hp hf =>
    rw [hp]
    rcases receive_producer s pkts with ⟨-, hn⟩ | ⟨-, hn⟩
    · rw [hn]
      simp [ProducerPc.cost]
    · rw [hn]
      simp [ProducerPc.cost]
  | push pkts sent pushed hp hk =>
    -- the ring has room for all that is left
    have hlast := ((last_push h.inRange h.quiescent h.consumer hp).2 pushed _ hs).2
    rw [hlast, hp]
    simp [ProducerPc.cost]

theorem ConsumerMove.ofProducer (h : ConsumerMove rule s a s') : a.ofProducer = false := by
  cases h <;> rfl

theorem ProducerMove.ofProducer (h : ProducerMove rule s a s') : a.ofProducer = true := by
  cases h <;> rfl

theorem EnvMove.ofProducer (h : EnvMove s a s') : a.ofProducer = false := by
  cases h <;> rfl

theorem ending_cost (h : Ending s) (hs : step .allThatFits s a = some s') :
    s'.producer.cost + (if a.ofProducer then 1 else 0) ≤ s.producer.cost := by
  rcases step_cases hs with hp | hc | he
  · rw [hp.ofProducer]
    exact hp.ends h hs
  · rw [hc.ofProducer, hc.sameProducer.producer]
    exact Nat.le_refl _
  · rw [he.ofProducer, he.sameThreads.producer]
    exact Nat.le_refl _

theorem producer_can_move (h : Ending s) (hp : s.producer ≠ .exited) :
    ∃ a, a.ofProducer = true ∧ ∃ s', step .allThatFits s a = some s' := by
  cases hpc : s.producer with
  | loadQuit => exact ⟨.producerLoadQuit, rfl, by simp [step, producerLoadQuit, hpc]⟩
  | loadReady => exact ⟨.producerLoadReady, rfl, by simp [step, producerLoadReady, hpc]⟩
  | loadVid => exact ⟨.producerLoadVid, rfl, by simp [step, producerLoadVid, hpc]⟩
  | dequeueBurst vid =>
    have hfresh : Fresh s vid [] := by
      refine ⟨Nat.zero_le _, ?_, fun m hm => absurd hm List.not_mem_nil⟩
      rw [List.append_nil]
      exact h.distinct
    exact ⟨.rteVhostDequeueBurst [], rfl, by simp [step, rteVhostDequeueBurst, hpc, hfresh]⟩
  | ringEnqueue pkts sent =>
    obtain ⟨k, s', hs⟩ := (last_push h.inRange h.quiescent h.consumer hpc).1
    exact ⟨.rteRingSpEnqueueBurst k, rfl, s', hs⟩
  | retryLoadQuit pkts sent => exact ⟨.producerLoadQuit, rfl, by simp [step, producerLoadQuit, hpc]⟩
  | exited => exact absurd hpc hp

/-- **The producer thread stops.** With a ring that takes all that fits: once the consumer has ended,
in every interleaving the producer takes at most five more steps, and as long as it has not
ended it can take one. -/
theorem producer_stops (s s' : State) (h : Reachable .allThatFits s) (hc : s.consumer = .exited)
    (as : List Act) (hr : Transition.run (step .allThatFits) s as = some s') :
    as.countP Act.ofProducer ≤ 5 ∧
    (s'.producer ≠ .exited →
      ∃ a, a.ofProducer = true ∧ ∃ s'', step .allThatFits s' a = some s'') := by
  have hstart : Ending s :=
    ⟨reachable_inRange h, reachable_quiescent h, reachable_distinct h, hc⟩
  refine ⟨?_, fun hp => producer_can_move
    (Transition.run_invariant (fun _ _ _ hi hs => step_ending hi hs) hstart hr) hp⟩
  have hpaid := Transition.run_potential (fun t => t.producer.cost) Act.ofProducer
    (fun _ _ _ hi hs => step_ending hi hs) (fun _ _ _ hi hs => ending_cost hi hs) hstart hr
  have hbound : s.producer.cost ≤ 5 := by
    cases s.producer <;> simp [ProducerPc.cost]
  omega

/-- The producer still has a packet in hand when the consumer ends. -/
theorem producer_stops_late : ∃ s', Transition.run (step .allThatFits) lateBatchState
      [.rteRingSpEnqueueBurst 1, .producerLoadQuit] = some s' ∧ s'.producer = .exited ∧
    [Act.rteRingSpEnqueueBurst 1, .producerLoadQuit].countP Act.ofProducer ≤ 5 := by
  obtain ⟨s', hr, hp⟩ : ∃ s', Transition.run (step .allThatFits) lateBatchState
      [.rteRingSpEnqueueBurst 1, .producerLoadQuit] = some s' ∧ s'.producer = .exited :=
    ⟨_, rfl, rfl⟩
  exact ⟨s', hr, hp, (producer_stops lateBatchState s' lateBatchState_reachable rfl _ hr).1⟩

end VirtioBench.Vhost
