import VirtioBench.Vhost.Controller

/- What one step of the controller can do, said once. A step is a move of the
   producer, of the consumer, or of the environment (a callback or `stop()`);
   `step_cases` inverts `step` into these, with the program counter and the
   guard each move needs. Where the threads go is a matter of their program
   counters alone: a move follows an edge of its loop's control flow
   (`ProducerMove.edge`, `ConsumerMove.edge`). Every invariant below is proved by
   cases on the moves or on the edges; nothing later unfolds `step`. -/
namespace VirtioBench.Vhost

theorem BurstRule.le_of_allows {rule : BurstRule} {limit k : Nat}
    (h : rule.allows limit k = true) : k ≤ limit := by
  cases rule <;> simp only [BurstRule.allows, decide_eq_true_eq] at h <;> omega

inductive ProducerMove (rule : BurstRule) (s : State) : Act → State → Prop
  | exit (hp : s.producer = .loadQuit) (hq : s.quit = true) :
      ProducerMove rule s .producerLoadQuit { s with producer := .exited }
  | enter (hp : s.producer = .loadQuit) (hq : s.quit = false) :
      ProducerMove rule s .producerLoadQuit { s with producer := .loadReady }
  | retry (pkts : List Mbuf) (sent : Nat) (hp : s.producer = .retryLoadQuit pkts sent) :
      ProducerMove rule s .producerLoadQuit { s with producer := .ringEnqueue pkts sent }
  | ready (hp : s.producer = .loadReady) (hr : s.ready = true) :
      ProducerMove rule s .producerLoadReady { s with producer := .loadVid }
  | notReady (hp : s.producer = .loadReady) (hr : s.ready = false) :
      ProducerMove rule s .producerLoadReady { s with producer := .loadQuit }
  | loadVid (hp : s.producer = .loadVid) :
      ProducerMove rule s .producerLoadVid { s with producer := .dequeueBurst s.vid }
  | receive (vid : Int) (pkts : List Mbuf) (hp : s.producer = .dequeueBurst vid)
      (hf : Fresh s vid pkts) :
      ProducerMove rule s (.rteVhostDequeueBurst pkts) (s.receive pkts)
  | push (pkts : List Mbuf) (sent pushed : Nat) (hp : s.producer = .ringEnqueue pkts sent)
      (hk : rule.allows (min (pkts.length - sent) (ringSize - 1 - s.ring.length)) pushed = true) :
      ProducerMove rule s (.rteRingSpEnqueueBurst pushed) (s.push pkts sent pushed)

inductive ConsumerMove (rule : BurstRule) (s : State) : Act → State → Prop
  | leave (hc : s.consumer = .loadQuit) (hq : s.quit = true) :
      ConsumerMove rule s .consumerLoadQuit { s with consumer := .drainDequeue }
  | enter (hc : s.consumer = .loadQuit) (hq : s.quit = false) :
      ConsumerMove rule s .consumerLoadQuit { s with consumer := .loadReady }
  | ready (hc : s.consumer = .loadReady) (hr : s.ready = true) :
      ConsumerMove rule s .consumerLoadReady { s with consumer := .ringDequeue }
  | notReady (hc : s.consumer = .loadReady) (hr : s.ready = false) :
      ConsumerMove rule s .consumerLoadReady { s with consumer := .loadQuit }
  | take (nbDeq : Nat) (hc : s.consumer = .ringDequeue)
      (hk : rule.allows (min pktBurstSz s.ring.length) nbDeq = true) :
      ConsumerMove rule s (.rteRingScDequeueBurst nbDeq) (s.takeBatch nbDeq)
  | drain (remaining : Nat) (hc : s.consumer = .drainDequeue)
      (hk : rule.allows (min pktBurstSz s.ring.length) remaining = true) :
      ConsumerMove rule s (.rteRingScDequeueBurst remaining) (s.drainBatch remaining)
  | loadVid (pkts : List Mbuf) (sent retries : Nat)
      (hc : s.consumer = .loadVid pkts sent retries) :
      ConsumerMove rule s .consumerLoadVid
        { s with consumer := .enqueueBurst s.vid pkts sent retries }
  | deliver (vid : Int) (pkts : List Mbuf) (sent retries nbTx : Nat)
      (hc : s.consumer = .enqueueBurst vid pkts sent retries) (hk : nbTx ≤ pkts.length - sent) :
      ConsumerMove rule s (.rteVhostEnqueueBurst nbTx) (s.deliver vid pkts sent retries nbTx)
  | freeUndelivered (pkts : List Mbuf) (sent i : Nat) (b : Mbuf)
      (hc : s.consumer = .freeUndelivered pkts sent i) (hb : pkts[i]? = some b) :
      ConsumerMove rule s .rtePktmbufFree (s.free b .undelivered
        (if i + 1 < pkts.length then .freeUndelivered pkts sent (i + 1)
         else freeDeliveredFrom pkts sent))
  | freeDelivered (pkts : List Mbuf) (sent i : Nat) (b : Mbuf)
      (hc : s.consumer = .freeDelivered pkts sent i) (hb : pkts[i]? = some b) :
      ConsumerMove rule s .rtePktmbufFree (s.free b .delivered
        (if i + 1 < sent then .freeDelivered pkts sent (i + 1) else .loadQuit))
  | drainFree (pkts : List Mbuf) (i : Nat) (b : Mbuf)
      (hc : s.consumer = .drainFree pkts i) (hb : pkts[i]? = some b) :
      ConsumerMove rule s .rtePktmbufFree (s.free b .drain
        (if i + 1 < pkts.length then .drainFree pkts (i + 1) else .drainDequeue))

inductive EnvMove (s : State) : Act → State → Prop
  | newDevice (v : Int) (hv : 0 ≤ v) (hs : s.session v = none) :
      EnvMove s (.newDevice v)
        { s with
          callbacks := s.callbacks ++ [.newStoreVid v]
          session := Function.update s.session v (some s.sessions)
          sessions := s.sessions + 1 }
  | destroyDevice (v : Int) (hs : s.session v ≠ none) (hc : ∀ c ∈ s.callbacks, c.vid ≠ v) :
      EnvMove s (.destroyDevice v) { s with callbacks := s.callbacks ++ [.destroyLoadVid v] }
  | newStoreVid (i : Nat) (v : Int) (hi : s.callbacks[i]? = some (.newStoreVid v)) :
      EnvMove s (.callback i)
        { s with vid := v, callbacks := s.callbacks.set i (.newStoreReady v) }
  | newStoreReady (i : Nat) (v : Int) (hi : s.callbacks[i]? = some (.newStoreReady v)) :
      EnvMove s (.callback i) { s with ready := true, callbacks := s.callbacks.eraseIdx i }
  | destroyMatch (i : Nat) (v : Int) (hi : s.callbacks[i]? = some (.destroyLoadVid v))
      (hv : s.vid = v) :
      EnvMove s (.callback i) { s with callbacks := s.callbacks.set i (.destroyStoreReady v) }
  | destroyOther (i : Nat) (v : Int) (hi : s.callbacks[i]? = some (.destroyLoadVid v))
      (hv : s.vid ≠ v) :
      EnvMove s (.callback i) { s with callbacks := s.callbacks.set i (.destroyReturn v) }
  | destroyStoreReady (i : Nat) (v : Int) (hi : s.callbacks[i]? = some (.destroyStoreReady v)) :
      EnvMove s (.callback i)
        { s with ready := false, callbacks := s.callbacks.set i (.destroyStoreVid v) }
  | destroyStoreVid (i : Nat) (v : Int) (hi : s.callbacks[i]? = some (.destroyStoreVid v)) :
      EnvMove s (.callback i)
        { s with vid := -1, callbacks := s.callbacks.set i (.destroyReturn v) }
  | destroyReturn (i : Nat) (v : Int) (hi : s.callbacks[i]? = some (.destroyReturn v)) :
      EnvMove s (.callback i)
        { s with
          session := Function.update s.session v none
          callbacks := s.callbacks.eraseIdx i }
  | stop : EnvMove s .stop { s with quit := true }

variable {rule : BurstRule} {s s' : State} {a : Act}

/-! ## Inversion, call by call -/

theorem producerLoadQuit_cases (h : producerLoadQuit s = some s') :
    ProducerMove rule s .producerLoadQuit s' := by
  unfold producerLoadQuit at h
  split at h
  · next hp =>
    cases h
    by_cases hq : s.quit = true
    · rw [if_pos hq]; exact .exit hp hq
    · rw [if_neg hq]; exact .enter hp (Bool.not_eq_true _ ▸ hq)
  · next pkts sent hp => cases h; exact .retry pkts sent hp
  · cases h

theorem producerLoadReady_cases (h : producerLoadReady s = some s') :
    ProducerMove rule s .producerLoadReady s' := by
  unfold producerLoadReady at h
  split at h
  · next hp =>
    cases h
    by_cases hr : s.ready = true
    · rw [if_pos hr]; exact .ready hp hr
    · rw [if_neg hr]; exact .notReady hp (Bool.not_eq_true _ ▸ hr)
  · cases h

theorem producerLoadVid_cases (h : producerLoadVid s = some s') :
    ProducerMove rule s .producerLoadVid s' := by
  unfold producerLoadVid at h
  split at h
  · next hp => cases h; exact .loadVid hp
  · cases h

theorem rteVhostDequeueBurst_cases {pkts : List Mbuf}
    (h : rteVhostDequeueBurst s pkts = some s') :
    ProducerMove rule s (.rteVhostDequeueBurst pkts) s' := by
  unfold rteVhostDequeueBurst at h
  split at h
  · next vid hp =>
    split at h
    · next hf => cases h; exact .receive vid pkts hp hf
    · cases h
  · cases h

theorem rteRingSpEnqueueBurst_cases {pushed : Nat}
    (h : rteRingSpEnqueueBurst rule s pushed = some s') :
    ProducerMove rule s (.rteRingSpEnqueueBurst pushed) s' := by
  unfold rteRingSpEnqueueBurst at h
  split at h
  · next pkts sent hp =>
    split at h
    · next hk => cases h; exact .push pkts sent pushed hp hk
    · cases h
  · cases h

theorem consumerLoadQuit_cases (h : consumerLoadQuit s = some s') :
    ConsumerMove rule s .consumerLoadQuit s' := by
  unfold consumerLoadQuit at h
  split at h
  · next hc =>
    cases h
    by_cases hq : s.quit = true
    · rw [if_pos hq]; exact .leave hc hq
    · rw [if_neg hq]; exact .enter hc (Bool.not_eq_true _ ▸ hq)
  · cases h

theorem consumerLoadReady_cases (h : consumerLoadReady s = some s') :
    ConsumerMove rule s .consumerLoadReady s' := by
  unfold consumerLoadReady at h
  split at h
  · next hc =>
    cases h
    by_cases hr : s.ready = true
    · rw [if_pos hr]; exact .ready hc hr
    · rw [if_neg hr]; exact .notReady hc (Bool.not_eq_true _ ▸ hr)
  · cases h

theorem rteRingScDequeueBurst_cases {nbDeq : Nat}
    (h : rteRingScDequeueBurst rule s nbDeq = some s') :
    ConsumerMove rule s (.rteRingScDequeueBurst nbDeq) s' := by
  unfold rteRingScDequeueBurst at h
  split at h
  · next hk =>
    split at h
    · next hc => cases h; exact .take nbDeq hc hk
    · next hc => cases h; exact .drain nbDeq hc hk
    · cases h
  · cases h

theorem consumerLoadVid_cases (h : consumerLoadVid s = some s') :
    ConsumerMove rule s .consumerLoadVid s' := by
  unfold consumerLoadVid at h
  split at h
  · next pkts sent retries hc => cases h; exact .loadVid pkts sent retries hc
  · cases h

theorem rteVhostEnqueueBurst_cases {nbTx : Nat} (h : rteVhostEnqueueBurst s nbTx = some s') :
    ConsumerMove rule s (.rteVhostEnqueueBurst nbTx) s' := by
  unfold rteVhostEnqueueBurst at h
  split at h
  · next vid pkts sent retries hc =>
    split at h
    · next hk => cases h; exact .deliver vid pkts sent retries nbTx hc hk
    · cases h
  · cases h

theorem rtePktmbufFree_cases (h : rtePktmbufFree s = some s') :
    ConsumerMove rule s .rtePktmbufFree s' := by
  unfold rtePktmbufFree at h
  split at h
  · next pkts sent i hc =>
    obtain ⟨b, hb, rfl⟩ := Option.map_eq_some_iff.mp h
    exact .freeUndelivered pkts sent i b hc hb
  · next pkts sent i hc =>
    obtain ⟨b, hb, rfl⟩ := Option.map_eq_some_iff.mp h
    exact .freeDelivered pkts sent i b hc hb
  · next pkts i hc =>
    obtain ⟨b, hb, rfl⟩ := Option.map_eq_some_iff.mp h
    exact .drainFree pkts i b hc hb
  · cases h

theorem newDevice_cases {v : Int} (h : newDevice s v = some s') : EnvMove s (.newDevice v) s' := by
  unfold newDevice at h
  split at h
  · next hv => cases h; exact .newDevice v hv.1 hv.2
  · cases h

theorem destroyDevice_cases {v : Int} (h : destroyDevice s v = some s') :
    EnvMove s (.destroyDevice v) s' := by
  unfold destroyDevice at h
  split at h
  · next hv => cases h; exact .destroyDevice v hv.1 hv.2
  · cases h

theorem callbackStep_cases {i : Nat} (h : callbackStep s i = some s') :
    EnvMove s (.callback i) s' := by
  unfold callbackStep at h
  split at h
  · cases h
  · next v hi => cases h; exact .newStoreVid i v hi
  · next v hi => cases h; exact .newStoreReady i v hi
  · next v hi =>
    by_cases hv : s.vid = v
    · rw [if_pos hv] at h; cases h; exact .destroyMatch i v hi hv
    · rw [if_neg hv] at h; cases h; exact .destroyOther i v hi hv
  · next v hi => cases h; exact .destroyStoreReady i v hi
  · next v hi => cases h; exact .destroyStoreVid i v hi
  · next v hi => cases h; exact .destroyReturn i v hi

/-- Every step is a move of the producer, of the consumer or of the environment. -/
theorem step_cases (h : step rule s a = some s') :
    ProducerMove rule s a s' ∨ ConsumerMove rule s a s' ∨ EnvMove s a s' := by
  cases a with
  | producerLoadQuit => exact .inl (producerLoadQuit_cases h)
  | producerLoadReady => exact .inl (producerLoadReady_cases h)
  | producerLoadVid => exact .inl (producerLoadVid_cases h)
  | rteVhostDequeueBurst pkts => exact .inl (rteVhostDequeueBurst_cases h)
  | rteRingSpEnqueueBurst pushed => exact .inl (rteRingSpEnqueueBurst_cases h)
  | consumerLoadQuit => exact .inr (.inl (consumerLoadQuit_cases h))
  | consumerLoadReady => exact .inr (.inl (consumerLoadReady_cases h))
  | rteRingScDequeueBurst nbDeq => exact .inr (.inl (rteRingScDequeueBurst_cases h))
  | consumerLoadVid => exact .inr (.inl (consumerLoadVid_cases h))
  | rteVhostEnqueueBurst nbTx => exact .inr (.inl (rteVhostEnqueueBurst_cases h))
  | rtePktmbufFree => exact .inr (.inl (rtePktmbufFree_cases h))
  | newDevice v => exact .inr (.inr (newDevice_cases h))
  | destroyDevice v => exact .inr (.inr (destroyDevice_cases h))
  | callback i => exact .inr (.inr (callbackStep_cases h))
  | stop => cases h; exact .inr (.inr .stop)

/-! ## Control flow -/

section Branches
variable (s : State) (pkts : List Mbuf) (sent retries k : Nat) (vid : Int)

theorem receive_producer :
    (0 < pkts.length ∧ (s.receive pkts).producer = .ringEnqueue pkts 0) ∨
    (pkts = [] ∧ (s.receive pkts).producer = .loadQuit) := by
  cases pkts with
  | nil => exact .inr ⟨rfl, rfl⟩
  | cons b pkts => exact .inl ⟨Nat.succ_pos _, rfl⟩

theorem push_producer :
    (sent + k < pkts.length ∧
      (s.push pkts sent k).producer = .retryLoadQuit pkts (sent + k)) ∨
    (pkts.length ≤ sent + k ∧ (s.push pkts sent k).producer = .loadQuit) := by
  by_cases hlt : sent + k < pkts.length
  · exact .inl ⟨hlt, by simp [State.push, hlt]⟩
  · exact .inr ⟨by omega, by simp [State.push, hlt]⟩

theorem takeBatch_consumer :
    (0 < k ∧ (s.takeBatch k).consumer = .loadVid (s.ring.take k) 0 0) ∨
    (k = 0 ∧ (s.takeBatch k).consumer = .loadQuit) := by
  cases k with
  | zero => exact .inr ⟨rfl, rfl⟩
  | succ k => exact .inl ⟨Nat.succ_pos _, rfl⟩

theorem drainBatch_consumer :
    (0 < k ∧ (s.drainBatch k).consumer = .drainFree (s.ring.take k) 0) ∨
    (k = 0 ∧ (s.drainBatch k).consumer = .exited) := by
  cases k with
  | zero => exact .inr ⟨rfl, rfl⟩
  | succ k => exact .inl ⟨Nat.succ_pos _, rfl⟩

theorem freeDeliveredFrom_cases :
    (0 < sent ∧ freeDeliveredFrom pkts sent = .freeDelivered pkts sent 0) ∨
    (sent = 0 ∧ freeDeliveredFrom pkts sent = .loadQuit) := by
  cases sent with
  | zero => exact .inr ⟨rfl, rfl⟩
  | succ n => exact .inl ⟨Nat.succ_pos _, rfl⟩

/-- After a call to `rte_vhost_enqueue_burst`: another try, the loop over what
is given up, or the loop over what was accepted. -/
theorem deliver_consumer :
    (sent + k < pkts.length ∧ retries + 1 < maxEnqueueRetries ∧
      (s.deliver vid pkts sent retries k).consumer = .loadVid pkts (sent + k) (retries + 1)) ∨
    (sent + k < pkts.length ∧ maxEnqueueRetries ≤ retries + 1 ∧
      (s.deliver vid pkts sent retries k).consumer =
        .freeUndelivered pkts (sent + k) (sent + k)) ∨
    (pkts.length ≤ sent + k ∧
      (s.deliver vid pkts sent retries k).consumer = freeDeliveredFrom pkts (sent + k)) := by
  by_cases hlt : sent + k < pkts.length
  · -- a short count uses up a try
    by_cases hr : retries + 1 < maxEnqueueRetries
    · exact .inl ⟨hlt, hr, by simp [State.deliver, bumpRetries, hlt, hr]⟩
    · refine .inr (.inl ⟨hlt, by omega, ?_⟩)
      simp [State.deliver, State.account, bumpRetries, hlt, hr]
  · exact .inr (.inr ⟨by omega, by simp [State.deliver, State.account, hlt]⟩)

end Branches

/-- The edges of `producer_loop`, with what the producer read to take them. -/
inductive ProducerEdge (s : State) : ProducerPc → ProducerPc → Prop
  | exit (hq : s.quit = true) : ProducerEdge s .loadQuit .exited
  | enter (hq : s.quit = false) : ProducerEdge s .loadQuit .loadReady
  | ready (hr : s.ready = true) : ProducerEdge s .loadReady .loadVid
  | notReady : ProducerEdge s .loadReady .loadQuit
  | loadVid : ProducerEdge s .loadVid (.dequeueBurst s.vid)
  | received (vid : Int) (pkts : List Mbuf) (h0 : 0 < pkts.length)
      (hb : pkts.length ≤ pktBurstSz) :
      ProducerEdge s (.dequeueBurst vid) (.ringEnqueue pkts 0)
  | nothing (vid : Int) : ProducerEdge s (.dequeueBurst vid) .loadQuit
  | short (pkts : List Mbuf) (sent pushed : Nat) (hlt : sent + pushed < pkts.length) :
      ProducerEdge s (.ringEnqueue pkts sent) (.retryLoadQuit pkts (sent + pushed))
  | retry (pkts : List Mbuf) (sent : Nat) :
      ProducerEdge s (.retryLoadQuit pkts sent) (.ringEnqueue pkts sent)
  | pushed (pkts : List Mbuf) (sent : Nat) : ProducerEdge s (.ringEnqueue pkts sent) .loadQuit

/-- The edges of `consumer_loop` and of the drain after it. -/
inductive ConsumerEdge (s : State) : ConsumerPc → ConsumerPc → Prop
  | leave (hq : s.quit = true) : ConsumerEdge s .loadQuit .drainDequeue
  | enter : ConsumerEdge s .loadQuit .loadReady
  | ready (hr : s.ready = true) : ConsumerEdge s .loadReady .ringDequeue
  | notReady : ConsumerEdge s .loadReady .loadQuit
  | take (pkts : List Mbuf) (h0 : 0 < pkts.length) (hb : pkts.length ≤ pktBurstSz) :
      ConsumerEdge s .ringDequeue (.loadVid pkts 0 0)
  | nothing : ConsumerEdge s .ringDequeue .loadQuit
  | loadVid (pkts : List Mbuf) (sent retries : Nat) :
      ConsumerEdge s (.loadVid pkts sent retries) (.enqueueBurst s.vid pkts sent retries)
  | retry (vid : Int) (pkts : List Mbuf) (sent retries nbTx : Nat)
      (hlt : sent + nbTx < pkts.length) (hr : retries + 1 < maxEnqueueRetries) :
      ConsumerEdge s (.enqueueBurst vid pkts sent retries)
        (.loadVid pkts (sent + nbTx) (retries + 1))
  | giveUp (vid : Int) (pkts : List Mbuf) (sent retries nbTx : Nat)
      (hlt : sent + nbTx < pkts.length) :
      ConsumerEdge s (.enqueueBurst vid pkts sent retries)
        (.freeUndelivered pkts (sent + nbTx) (sent + nbTx))
  | accepted (vid : Int) (pkts : List Mbuf) (sent retries nbTx : Nat)
      (hk : nbTx ≤ pkts.length - sent) (h0 : 0 < sent + nbTx) :
      ConsumerEdge s (.enqueueBurst vid pkts sent retries) (.freeDelivered pkts (sent + nbTx) 0)
  | emptyBatch (vid : Int) (pkts : List Mbuf) (sent retries : Nat) :
      ConsumerEdge s (.enqueueBurst vid pkts sent retries) .loadQuit
  | freeUndelivered (pkts : List Mbuf) (sent i : Nat) (hi : i + 1 < pkts.length) :
      ConsumerEdge s (.freeUndelivered pkts sent i) (.freeUndelivered pkts sent (i + 1))
  | undeliveredFreed (pkts : List Mbuf) (sent i : Nat) (h0 : 0 < sent) :
      ConsumerEdge s (.freeUndelivered pkts sent i) (.freeDelivered pkts sent 0)
  | noneDelivered (pkts : List Mbuf) (sent i : Nat) :
      ConsumerEdge s (.freeUndelivered pkts sent i) .loadQuit
  | freeDelivered (pkts : List Mbuf) (sent i : Nat) (hi : i + 1 < sent) :
      ConsumerEdge s (.freeDelivered pkts sent i) (.freeDelivered pkts sent (i + 1))
  | batchFreed (pkts : List Mbuf) (sent i : Nat) :
      ConsumerEdge s (.freeDelivered pkts sent i) .loadQuit
  | drain (pkts : List Mbuf) (h0 : 0 < pkts.length) :
      ConsumerEdge s .drainDequeue (.drainFree pkts 0)
  | drained : ConsumerEdge s .drainDequeue .exited
  | drainFree (pkts : List Mbuf) (i : Nat) (hi : i + 1 < pkts.length) :
      ConsumerEdge s (.drainFree pkts i) (.drainFree pkts (i + 1))
  | drainFreed (pkts : List Mbuf) (i : Nat) :
      ConsumerEdge s (.drainFree pkts i) .drainDequeue

theorem ProducerMove.edge (h : ProducerMove rule s a s') :
    ProducerEdge s s.producer s'.producer := by
  cases h with
  | exit hp hq => rw [hp]; exact .exit hq
  | enter hp hq => rw [hp]; exact .enter hq
  | retry pkts sent hp => rw [hp]; exact .retry pkts sent
  | ready hp hr => rw [hp]; exact .ready hr
  | notReady hp hr => rw [hp]; exact .notReady
  | loadVid hp => rw [hp]; exact .loadVid
  | receive vid pkts hp hf =>
    rw [hp]
    rcases receive_producer s pkts with ⟨h0, h⟩ | ⟨-, h⟩
    · rw [h]; exact .received vid pkts h0 hf.1
    · rw [h]; exact .nothing vid
  | push pkts sent pushed hp hk =>
    rw [hp]
    rcases push_producer s pkts sent pushed with ⟨hlt, h⟩ | ⟨-, h⟩
    · rw [h]; exact .short pkts sent pushed hlt
    · rw [h]; exact .pushed pkts sent

/-- What a ring burst call hands out is a batch that fits the consumer's array. -/
theorem batch_length {k : Nat} (h0 : 0 < k)
    (hk : rule.allows (min pktBurstSz s.ring.length) k = true) :
    0 < (s.ring.take k).length ∧ (s.ring.take k).length ≤ pktBurstSz := by
  have hle := BurstRule.le_of_allows hk
  rw [List.length_take]
  omega

theorem ConsumerMove.edge (h : ConsumerMove rule s a s') :
    ConsumerEdge s s.consumer s'.consumer := by
  cases h with
  | leave hc hq => rw [hc]; exact .leave hq
  | enter hc hq => rw [hc]; exact .enter
  | ready hc hr => rw [hc]; exact .ready hr
  | notReady hc hr => rw [hc]; exact .notReady
  | take nbDeq hc hk =>
    rw [hc]
    rcases takeBatch_consumer s nbDeq with ⟨h0, h⟩ | ⟨-, h⟩
    · rw [h]; exact .take _ (batch_length h0 hk).1 (batch_length h0 hk).2
    · rw [h]; exact .nothing
  | drain remaining hc hk =>
    rw [hc]
    rcases drainBatch_consumer s remaining with ⟨h0, h⟩ | ⟨-, h⟩
    · rw [h]; exact .drain _ (batch_length h0 hk).1
    · rw [h]; exact .drained
  | loadVid pkts sent retries hc => rw [hc]; exact .loadVid pkts sent retries
  | deliver vid pkts sent retries nbTx hc hk =>
    rw [hc]
    rcases deliver_consumer s pkts sent retries nbTx vid with
      ⟨hlt, hr, h⟩ | ⟨hlt, -, h⟩ | ⟨-, h⟩
    · rw [h]; exact .retry vid pkts sent retries nbTx hlt hr
    · rw [h]; exact .giveUp vid pkts sent retries nbTx hlt
    · -- all was accepted; only an empty batch, which is never offered, has nothing to free
      rw [h]
      rcases freeDeliveredFrom_cases pkts (sent + nbTx) with ⟨h0, h⟩ | ⟨-, h⟩
      · rw [h]; exact .accepted vid pkts sent retries nbTx hk h0
      · rw [h]; exact .emptyBatch vid pkts sent retries
  | freeUndelivered pkts sent i b hc hb =>
    rw [hc]
    dsimp only [State.free]
    split
    · next hi => exact .freeUndelivered pkts sent i hi
    · rcases freeDeliveredFrom_cases pkts sent with ⟨h0, h⟩ | ⟨-, h⟩
      · rw [h]; exact .undeliveredFreed pkts sent i h0
      · rw [h]; exact .noneDelivered pkts sent i
  | freeDelivered pkts sent i b hc hb =>
    rw [hc]
    dsimp only [State.free]
    split
    · next hi => exact .freeDelivered pkts sent i hi
    · exact .batchFreed pkts sent i
  | drainFree pkts i b hc hb =>
    rw [hc]
    dsimp only [State.free]
    split
    · next hi => exact .drainFree pkts i hi
    · exact .drainFreed pkts i

/-! ## What each party leaves alone -/

structure SameProducer (s s' : State) : Prop where
  producer : s'.producer = s.producer
  dequeued : s'.dequeued = s.dequeued
  rxPkts : s'.rxPkts = s.rxPkts

structure SameConsumer (s s' : State) : Prop where
  consumer : s'.consumer = s.consumer
  delivered : s'.delivered = s.delivered
  freed : s'.freed = s.freed
  txPkts : s'.txPkts = s.txPkts
  txBytes : s'.txBytes = s.txBytes

structure SameThreads (s s' : State) : Prop extends SameProducer s s', SameConsumer s s' where
  ring : s'.ring = s.ring

structure SameEnv (s s' : State) : Prop where
  quit : s'.quit = s.quit
  ready : s'.ready = s.ready
  vid : s'.vid = s.vid
  callbacks : s'.callbacks = s.callbacks
  session : s'.session = s.session
  sessions : s'.sessions = s.sessions

section Frame
variable (s : State) (pkts : List Mbuf) (sent retries k : Nat) (vid : Int)

theorem push_sameConsumer : SameConsumer s (s.push pkts sent k) := by
  unfold State.push
  dsimp only
  split <;> exact ⟨rfl, rfl, rfl, rfl, rfl⟩

theorem push_sameEnv : SameEnv s (s.push pkts sent k) := by
  unfold State.push
  dsimp only
  split <;> exact ⟨rfl, rfl, rfl, rfl, rfl, rfl⟩

theorem deliver_sameProducer : SameProducer s (s.deliver vid pkts sent retries k) := by
  unfold State.deliver
  dsimp only
  split <;> exact ⟨rfl, rfl, rfl⟩

theorem deliver_sameEnv : SameEnv s (s.deliver vid pkts sent retries k) := by
  unfold State.deliver
  dsimp only
  split <;> exact ⟨rfl, rfl, rfl, rfl, rfl, rfl⟩

end Frame

theorem ProducerMove.sameConsumer (h : ProducerMove rule s a s') : SameConsumer s s' := by
  cases h with
  | push pkts sent pushed => exact push_sameConsumer s pkts sent pushed
  | _ => exact ⟨rfl, rfl, rfl, rfl, rfl⟩

theorem ProducerMove.sameEnv (h : ProducerMove rule s a s') : SameEnv s s' := by
  cases h with
  | push pkts sent pushed => exact push_sameEnv s pkts sent pushed
  | _ => exact ⟨rfl, rfl, rfl, rfl, rfl, rfl⟩

theorem ConsumerMove.sameProducer (h : ConsumerMove rule s a s') : SameProducer s s' := by
  cases h with
  | deliver vid pkts sent retries nbTx => exact deliver_sameProducer s pkts sent retries nbTx vid
  | _ => exact ⟨rfl, rfl, rfl⟩

theorem ConsumerMove.sameEnv (h : ConsumerMove rule s a s') : SameEnv s s' := by
  cases h with
  | deliver vid pkts sent retries nbTx => exact deliver_sameEnv s pkts sent retries nbTx vid
  | _ => exact ⟨rfl, rfl, rfl, rfl, rfl, rfl⟩

theorem EnvMove.sameThreads (h : EnvMove s a s') : SameThreads s s' := by
  cases h <;> exact ⟨⟨rfl, rfl, rfl⟩, ⟨rfl, rfl, rfl, rfl, rfl⟩, rfl⟩

/-- What holds initially and is kept by every step holds in every reachable state. -/
theorem Reachable.invariant {I : State → Prop} (h : Reachable rule s) (h0 : I init)
    (hI : ∀ s a s', I s → step rule s a = some s' → I s') : I s := by
  obtain ⟨as, hr⟩ := h
  exact Transition.run_invariant hI h0 hr

end VirtioBench.Vhost
