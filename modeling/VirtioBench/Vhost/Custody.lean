import VirtioBench.Vhost.Flow

/- Delivery and ownership of the mbufs. From the refinement to the lossy channel
   (`reachable_fifo`), from the free loops walking over what was accepted
   (`reachable_released`) and from the mbufs of one run being distinct
   (`reachable_distinct`):

   1. `loopback_in_order` — what the guest accepts is a repetition-free
      subsequence of what was taken from it, and a packet missing from it is in
      flight or was freed undelivered;
   2. `single_owner` — every mbuf is with exactly one of the producer, the ring,
      the consumer's batch and the freed set, and is freed at most once. -/
namespace VirtioBench.Vhost

variable {rule : BurstRule} {s s' : State} {a : Act}

/-! ## The accepted packets are freed in the order they were accepted -/

/-- What was accepted has been freed as accepted, or waits in the batch for it. -/
def State.Released (s : State) : Prop := s.accepted = s.released ++ s.consumer.spent

theorem SameConsumer.released (h : SameConsumer s s') (hi : s.Released) : s'.Released := by
  simpa only [State.Released, State.accepted, State.released, h.consumer, h.delivered, h.freed]
    using hi

/-- The spent part of a batch, one free later. -/
theorem spent_cons {pkts : List Mbuf} {sent i : Nat} {b : Mbuf} (hi : i < sent)
    (hb : pkts[i]? = some b) :
    (pkts.take sent).drop i = b :: (pkts.take sent).drop (i + 1) := by
  obtain ⟨hlt, rfl⟩ := List.getElem?_eq_some_iff.mp hb
  have hlt' : i < (pkts.take sent).length := by rw [List.length_take]; omega
  rw [List.drop_eq_getElem_cons hlt', List.getElem_take]

theorem ConsumerMove.released (h : ConsumerMove rule s a s') (hr : s.consumer.InRange)
    (hi : s.Released) : s'.Released := by
  unfold State.Released at hi ⊢
  cases h with
  | leave hc | enter hc | ready hc | notReady hc | loadVid pkts sent retries hc =>
    rw [hc] at hi
    exact hi
  | take nbDeq hc hk =>
    rw [hc] at hi
    rw [takeBatch_spent]
    exact hi
  | drain remaining hc hk =>
    rw [hc] at hi
    rw [drainBatch_spent]
    exact hi
  | deliver vid pkts sent retries nbTx hc hk =>
    have hs : s.consumer.spent = pkts.take sent := by rw [hc]; rfl
    rw [hs] at hi
    rw [deliver_spent, List.take_add, ← List.append_assoc]
    simp only [State.accepted, State.released, deliver_delivered, deliver_freed, List.map_append,
      copied_mbuf] at hi ⊢
    rw [hi]
  | freeUndelivered pkts sent i b hc hb =>
    rw [hc] at hi
    rw [free_released_undelivered, free_consumer]
    split
    · exact hi
    · rw [freeDeliveredFrom_spent]; exact hi
  | freeDelivered pkts sent i b hc hb =>
    rw [hc] at hi hr
    have hnext : (if i + 1 < sent then ConsumerPc.freeDelivered pkts sent (i + 1)
        else .loadQuit).spent = (pkts.take sent).drop (i + 1) := by
      split
      · rfl
      · -- the last of them: nothing is left to free
        refine (List.drop_eq_nil_of_le ?_).symm
        rw [List.length_take]; omega
    rw [free_released_delivered, free_consumer, hnext, List.append_assoc, List.singleton_append,
      ← spent_cons hr.1 hb]
    exact hi
  | drainFree pkts i b hc hb =>
    rw [hc] at hi
    rw [free_released_drain, free_consumer]
    split <;> exact hi

theorem step_released (hr : s.InRange) (hi : s.Released) (h : step rule s a = some s') :
    s'.Released := by
  rcases step_cases h with hp | hc | he
  · exact hp.sameConsumer.released hi
  · exact hc.released hr.2 hi
  · exact he.sameThreads.toSameConsumer.released hi

theorem reachable_released (h : Reachable rule s) : s.Released :=
  h.invariant_inRange rfl (fun _ _ _ => step_released)

/-! ## The mbufs of a run are distinct -/

def State.Distinct (s : State) : Prop := (s.dequeued.map Mbuf.id).Nodup

theorem step_distinct (hi : s.Distinct) (h : step rule s a = some s') : s'.Distinct := by
  unfold State.Distinct at hi ⊢
  rcases step_cases h with hp | hc | he
  · cases hp with
    | receive vid pkts hp hf => exact hf.2.1
    | push => rw [push_dequeued]; exact hi
    | _ => exact hi
  · rw [hc.sameProducer.dequeued]; exact hi
  · rw [he.sameThreads.dequeued]; exact hi

theorem reachable_distinct (h : Reachable rule s) : s.Distinct :=
  h.invariant List.nodup_nil (fun _ _ _ => step_distinct)

theorem State.Distinct.nodup (h : s.Distinct) : s.dequeued.Nodup := List.Nodup.of_map _ h

/-! ## Delivery -/

/-- **In order, never twice.** In every reachable state the accepted packets are
a subsequence, without repetition, of the dequeued ones; a dequeued packet that
was not accepted is with the producer, in the ring, in the consumer's batch, or
was freed undelivered (by the loop after the last retry, or by the drain). -/
theorem loopback_in_order (rule : BurstRule) (s : State) (h : Reachable rule s) :
    s.accepted.Sublist s.dequeued ∧ (s.accepted.map Mbuf.id).Nodup ∧
    ∀ b ∈ s.dequeued, b ∉ s.accepted →
      b ∈ s.producer.rest ∨ b ∈ s.ring ∨ b ∈ s.consumer.undelivered ∨ b ∈ s.dropped := by
  have hf := reachable_fifo h
  have hsub : s.accepted.Sublist s.dequeued := hf.sublist
  refine ⟨hsub, (reachable_distinct h).sublist (hsub.map _), ?_⟩
  intro b hb hna
  have hm : b ∈ s.accepted ++ s.dropped ++ s.flight := hf.perm.mem_iff.mp hb
  simp only [State.flight, List.mem_append] at hm
  tauto

/-- The callbacks of a guest connecting as `vid`, run alone. -/
def connect (vid : Int) : List Act := [.newDevice vid, .callback 0, .callback 0]

/-- The `i`-th mbuf of session 0, a 64-byte packet. -/
def mbufOf (i : Nat) : Mbuf := ⟨i, 64, some 0⟩

/-- The producer takes `n` packets, numbered from `first`, from the guest. -/
def receives (first n : Nat) : List Act :=
  [.producerLoadQuit, .producerLoadReady, .producerLoadVid,
    .rteVhostDequeueBurst ((List.range' first n).map mbufOf)]

/-- Three packets are taken, two pushed; the consumer takes both and the guest
accepts one of them. -/
def partialRun : List Act :=
  connect 0 ++ receives 0 3 ++
    [.rteRingSpEnqueueBurst 2, .consumerLoadQuit, .consumerLoadReady, .rteRingScDequeueBurst 2,
      .consumerLoadVid, .rteVhostEnqueueBurst 1]

def partialState : State := (Transition.run (step .anyPrefix) init partialRun).getD init

theorem partialState_reachable : Reachable .anyPrefix partialState := ⟨partialRun, rfl⟩

theorem loopback_in_order_partial :
    partialState.accepted = [mbufOf 0] ∧ partialState.accepted.Sublist partialState.dequeued ∧
    (partialState.accepted.map Mbuf.id).Nodup ∧
    ∀ b ∈ partialState.dequeued, b ∉ partialState.accepted →
      b ∈ partialState.producer.rest ∨ b ∈ partialState.ring ∨
        b ∈ partialState.consumer.undelivered ∨ b ∈ partialState.dropped :=
  ⟨rfl, loopback_in_order .anyPrefix partialState partialState_reachable⟩

/-! ## Ownership -/

/-- The freed packets are those freed as accepted and those freed undelivered. -/
theorem freed_perm (s : State) : (s.freed.map Free.mbuf).Perm (s.released ++ s.dropped) := by
  have hp := List.filter_append_perm (fun f : Free => decide (f.site = .delivered)) s.freed
  have hm := (hp.map Free.mbuf).symm
  simpa only [List.map_append, State.released, State.dropped, ne_eq, decide_not] using hm

/-- The four places partition the dequeued packets. -/
theorem custody_perm (h : Reachable rule s) :
    s.dequeued.Perm (s.producer.rest ++ s.ring ++ s.consumer.held ++ s.freed.map Free.mbuf) := by
  have hrel : s.accepted = s.released ++ s.consumer.spent := reachable_released h
  have hfifo : s.dequeued.Perm (s.accepted ++ s.dropped ++ s.flight) := (reachable_fifo h).perm
  rw [hrel] at hfifo
  refine hfifo.trans ?_
  refine List.Perm.trans ?_ ((freed_perm s).symm.append_left _)
  -- the same six lists in another order, so the counts agree
  rw [List.perm_iff_count]
  intro b
  simp only [State.flight, ConsumerPc.held, List.count_append]
  omega

/-- How often the identity `i` stands in `l`. -/
def countId (i : Nat) (l : List Mbuf) : Nat := (l.map Mbuf.id).count i

/-- **Single ownership.** In every reachable state each dequeued mbuf is, once,
in exactly one of the producer's `pkts[sent..nb_rx)`, the ring, the consumer's
batch and the freed set, and `rte_pktmbuf_free` was called on it at most once. -/
theorem single_owner (rule : BurstRule) (s : State) (h : Reachable rule s) :
    ∀ b ∈ s.dequeued,
      countId b.id s.producer.rest + countId b.id s.ring + countId b.id s.consumer.held +
        countId b.id (s.freed.map Free.mbuf) = 1 ∧
      countId b.id (s.freed.map Free.mbuf) ≤ 1 := by
  intro b hb
  have hone : countId b.id s.dequeued = 1 :=
    List.count_eq_one_of_mem (reachable_distinct h) (List.mem_map_of_mem hb)
  have hsplit := ((custody_perm h).map Mbuf.id).count_eq b.id
  simp only [List.map_append, List.count_append] at hsplit
  unfold countId at hone ⊢
  omega

theorem single_owner_partial :
    partialState.dequeued = [mbufOf 0, mbufOf 1, mbufOf 2] ∧
    ∀ b ∈ partialState.dequeued,
      countId b.id partialState.producer.rest + countId b.id partialState.ring +
        countId b.id partialState.consumer.held + countId b.id (partialState.freed.map Free.mbuf) = 1 ∧
      countId b.id (partialState.freed.map Free.mbuf) ≤ 1 :=
  ⟨rfl, single_owner .anyPrefix partialState partialState_reachable⟩

end VirtioBench.Vhost
