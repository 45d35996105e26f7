import VirtioBench.Vhost.Shutdown
import Mathlib.Algebra.BigOperators.Group.List.Basic
import Mathlib.Algebra.Order.Ring.Nat

/- Guest RX backpressure. The consumer offers a batch to the guest until it is
   accepted, but at most `MAX_ENQUEUE_RETRIES` times, and the counter is not reset
   on progress; what is left then is freed.

   1. `lossless_iff` — without `stop()`, nothing is lost exactly as long as the
      last try of every batch is not short (`LastTryTakesAll`);
      `starved_batch_dropped` is a guest that accepts nothing for one batch.
   2. `counters_exact` — `rx_pkts_` and `tx_pkts_` are exact at every loop head;
      `tx_bytes_` also counts what was given up after the last try, so it is
      exact exactly when those packets add up to 0 mod 2^64, and in every run in
      which the packets given up are empty. -/
namespace VirtioBench.Vhost

variable {rule : BurstRule} {s s' : State} {a : Act}

/-! ## Losing packets -/

/-- The last try of a batch is not short: the guest takes all that is left. -/
def LastTryTakesAll (s : State) : Act → Prop
  | .rteVhostEnqueueBurst nbTx => ∀ vid pkts sent retries,
    s.consumer = .enqueueBurst vid pkts sent retries → retries + 1 = maxEnqueueRetries →
      sent + nbTx = pkts.length
  | _ => True

/-- The consumer frees packets the guest has not accepted, or is about to. -/
def ConsumerPc.Dropping : ConsumerPc → Prop
  | .freeUndelivered .. | .drainDequeue | .drainFree .. | .exited => True
  | _ => False

/-- What the guest got, followed by what is in flight, is what was dequeued, and
nothing was freed that the guest has not accepted. -/
def State.Lossless (s : State) : Prop :=
  s.accepted ++ s.flight = s.dequeued ∧ ∀ f ∈ s.freed, f.mbuf ∈ s.accepted

/-- Nothing has been dropped and the consumer is not in a loop that drops. -/
structure Patient (s : State) : Prop where
  quit : s.quit = false
  consumer : ¬ s.consumer.Dropping
  dropped : s.dropped = []

/-- A delivery leads to dropping only by a short last try. -/
theorem deliver_dropping {vid : Int} {pkts : List Mbuf} {sent retries k : Nat}
    (hr : retries < maxEnqueueRetries)
    (hd : (s.deliver vid pkts sent retries k).consumer.Dropping) :
    retries + 1 = maxEnqueueRetries ∧ sent + k < pkts.length := by
  rcases deliver_consumer s pkts sent retries k vid with ⟨-, -, h⟩ | ⟨hlt, hlast, -⟩ | ⟨-, h⟩
  · rw [h] at hd; exact hd.elim
  · exact ⟨by omega, hlt⟩
  · rw [h] at hd
    rcases freeDeliveredFrom_cases pkts (sent + k) with ⟨-, h⟩ | ⟨-, h⟩ <;> rw [h] at hd <;>
      exact hd.elim

theorem ConsumerMove.patient (h : ConsumerMove rule s a s') (hr : s.consumer.InRange)
    (hC : LastTryTakesAll s a) (hi : Patient s) : Patient s' := by
  have hq : s'.quit = false := h.sameEnv.quit ▸ hi.quit
  cases h with
  | leave hc hq' => rw [hi.quit] at hq'; cases hq'
  | enter | ready | notReady | loadVid => exact ⟨hq, id, hi.dropped⟩
  | take nbDeq hc hk =>
    refine ⟨hq, fun hd => ?_, hi.dropped⟩
    rcases takeBatch_consumer s nbDeq with ⟨-, h⟩ | ⟨-, h⟩ <;> rw [h] at hd <;> exact hd.elim
  | deliver vid pkts sent retries nbTx hc hk =>
    refine ⟨hq, fun hd => ?_, ?_⟩
    · rw [hc] at hr
      obtain ⟨hlast, hshort⟩ := deliver_dropping hr.2.2 hd
      have hall := hC vid pkts sent retries hc hlast
      omega
    · rw [State.dropped, deliver_freed]
      exact hi.dropped
  | freeDelivered pkts sent i b hc hb =>
    refine ⟨hq, ?_, ?_⟩
    · rw [free_consumer]
      split <;> exact id
    · rw [free_dropped_delivered]
      exact hi.dropped
  | drain _ hc | freeUndelivered _ _ _ _ hc | drainFree _ _ _ hc =>
    exact (hi.consumer (hc ▸ trivial)).elim

theorem step_patient (hr : s.InRange) (hi : Patient s) (hC : LastTryTakesAll s a)
    (hstop : a ≠ .stop) (h : step rule s a = some s') : Patient s' := by
  rcases step_cases h with hp | hc | he
  · refine ⟨hp.sameEnv.quit ▸ hi.quit, hp.sameConsumer.consumer ▸ hi.consumer, ?_⟩
    rw [State.dropped, hp.sameConsumer.freed]
    exact hi.dropped
  · exact hc.patient hr.2 hC hi
  · refine ⟨?_, he.sameThreads.consumer ▸ hi.consumer, ?_⟩
    · cases he with
      | stop => exact (hstop rfl).elim
      | _ => exact hi.quit
    · rw [State.dropped, he.sameThreads.freed]
      exact hi.dropped

theorem lossless_of_patient (h : Reachable rule s) (hi : Patient s) : s.Lossless := by
  refine ⟨(reachable_fifo h).lossless hi.dropped, fun f hf => ?_⟩
  have hm : f.mbuf ∈ s.released ++ s.dropped :=
    (freed_perm s).mem_iff.mp (List.mem_map_of_mem hf)
  rw [hi.dropped, List.append_nil] at hm
  have hrel : s.accepted = s.released ++ s.consumer.spent := reachable_released h
  rw [hrel]
  exact List.mem_append_left _ hm

/-! ## A short last try loses packets -/

/-- A packet is lost, or is in the hands of the loop that frees undelivered ones. -/
def State.Losing (s : State) : Prop :=
  (∃ pkts sent i, s.consumer = .freeUndelivered pkts sent i) ∨ s.dropped ≠ []

theorem losing_of_short (hr : s.InRange) (h : step rule s a = some s')
    (hn : ¬ LastTryTakesAll s a) : s'.Losing := by
  rcases step_cases h with hp | hc | he
  · cases hp <;> exact (hn trivial).elim
  · cases hc with
    | deliver vid pkts sent retries nbTx hc hk =>
      left
      have hr' : sent < pkts.length ∧ _ := hc ▸ hr.2
      simp only [LastTryTakesAll, Classical.not_forall] at hn
      obtain ⟨vid', pkts', sent', retries', hc', hlast, hne⟩ := hn
      rw [hc] at hc'
      cases hc'
      rcases deliver_consumer s pkts sent retries nbTx vid with
        ⟨-, hmore, -⟩ | ⟨-, -, h⟩ | ⟨hle, -⟩
      · omega
      · exact ⟨pkts, sent + nbTx, sent + nbTx, h⟩
      · omega
    | _ => exact (hn trivial).elim
  · cases he <;> exact (hn trivial).elim

theorem step_losing (h : step rule s a = some s') (hl : s.Losing) : s'.Losing := by
  rcases step_cases h with hp | hc | he
  · rw [State.Losing, State.dropped, hp.sameConsumer.consumer, hp.sameConsumer.freed]
    exact hl
  · right
    rcases hl with ⟨pkts, sent, i, hfree⟩ | hl
    · cases hc with
      | freeUndelivered pkts sent i b hc hb =>
        rw [free_dropped_undelivered]
        exact List.append_ne_nil_of_right_ne_nil _ (List.cons_ne_nil _ _)
      | leave hc | enter hc | ready hc | notReady hc | take _ hc | drain _ hc | loadVid _ _ _ hc
      | deliver _ _ _ _ _ hc | freeDelivered _ _ _ _ hc | drainFree _ _ _ hc =>
        rw [hfree] at hc; cases hc
    · have hmono : ∃ xs, s'.dropped = s.dropped ++ xs := by
        cases hc with
        | freeUndelivered pkts sent i b hc hb => exact ⟨[b], free_dropped_undelivered ..⟩
        | drainFree pkts i b hc hb => exact ⟨[b], free_dropped_drain ..⟩
        | freeDelivered pkts sent i b hc hb =>
          exact ⟨[], by rw [free_dropped_delivered, List.append_nil]⟩
        | deliver => exact ⟨[], by rw [State.dropped, deliver_freed, List.append_nil]; rfl⟩
        | _ => exact ⟨[], (List.append_nil _).symm⟩
      obtain ⟨xs, hxs⟩ := hmono
      rw [hxs]
      exact List.append_ne_nil_of_left_ne_nil hl xs
  · rw [State.Losing, State.dropped, he.sameThreads.consumer, he.sameThreads.freed]
    exact hl

theorem not_lossless_of_dropped (h : Reachable rule s) (hd : s.dropped ≠ []) : ¬ s.Lossless := by
  rintro ⟨-, hacc⟩
  obtain ⟨b, hb⟩ := List.exists_mem_of_ne_nil _ hd
  obtain ⟨f, hf, rfl⟩ := List.mem_map.mp hb
  exact (reachable_fifo h).not_received_of_lost (reachable_distinct h).nodup hb
    (hacc f (List.mem_of_mem_filter hf))

/-- **When the paths are lossless.** In a run without `stop()` in which the last
try of every batch takes all that is left, nothing is lost; and if the run ends
at the head of the consumer's loop, nothing was lost only then. -/
theorem lossless_iff (rule : BurstRule) (as : List Act) (s : State)
    (hr : Transition.run (step rule) init as = some s) (hstop : .stop ∉ as) :
    (Transition.Meets (step rule) LastTryTakesAll init as → s.Lossless) ∧
    (s.consumer = .loadQuit → s.Lossless →
      Transition.Meets (step rule) LastTryTakesAll init as) := by
  constructor
  · intro hm
    have hm' := hm.and_actions (P := fun a => a ≠ .stop) (fun a ha h0 => hstop (h0 ▸ ha))
    refine lossless_of_patient ⟨as, hr⟩ ?_
    refine meets_invariant_inRange (I := Patient) ⟨rfl, id, rfl⟩ ?_ hm' hr
    intro s a s' hrange hi hC h
    exact step_patient hrange hi hC.1 hC.2 h
  · intro hhead hl
    -- at the loop head the packets of a short last try have been freed, and stay lost
    refine Transition.meets_of_unspoiled (I := State.InRange) (D := State.Losing)
      (fun _ _ _ => step_inRange) (fun _ _ _ hi h hn => losing_of_short hi h hn)
      (fun _ _ _ _ hl h => step_losing h hl) inRange_init hr ?_
    rintro (⟨pkts, sent, i, hc⟩ | hd)
    · rw [hhead] at hc; cases hc
    · exact not_lossless_of_dropped ⟨as, hr⟩ hd hl

/-- The batch of `cleanRun` is taken in full at the first try, so it meets the
condition: the run is lossless and ends at the consumer's loop head. -/
def acceptedRun : List Act := cleanRun.take 14

def acceptedState : State := (Transition.run (step .allThatFits) init acceptedRun).getD init

theorem lossless_iff_accepted :
    acceptedState.accepted = [mbufOf 0] ∧
    Transition.Meets (step .allThatFits) LastTryTakesAll init acceptedRun :=
  ⟨rfl, (lossless_iff .allThatFits acceptedRun acceptedState rfl (by decide)).2 rfl
    ⟨rfl, by decide⟩⟩

/-! ## A guest that accepts nothing -/

/-- One packet has reached the consumer. -/
def offerRun : List Act :=
  connect 0 ++ receives 0 1 ++
    [.rteRingSpEnqueueBurst 1, .consumerLoadQuit, .consumerLoadReady, .rteRingScDequeueBurst 1]

def offerState : State := (Transition.run (step .allThatFits) init offerRun).getD init

/-- `n` tries that the guest answers with 0. -/
def refusals : Nat → List Act
  | 0 => []
  | n + 1 => [.consumerLoadVid, .rteVhostEnqueueBurst 0] ++ refusals n

theorem step_refusal {pkts : List Mbuf} {sent retries : Nat}
    (hc : s.consumer = .loadVid pkts sent retries) (as : List Act) :
    Transition.run (step rule) s ([.consumerLoadVid, .rteVhostEnqueueBurst 0] ++ as) =
      Transition.run (step rule) (s.deliver s.vid pkts sent retries 0) as := by
  simp only [List.cons_append, List.nil_append, Transition.run_cons, step, consumerLoadVid, hc,
    rteVhostEnqueueBurst, Nat.zero_le, if_true, Option.bind_some]
  simp only [State.deliver, State.account, State.copied]

/-- Refused tries before the last only count. -/
theorem run_refusals (n : Nat) {pkts : List Mbuf} {sent retries : Nat}
    (hc : s.consumer = .loadVid pkts sent retries) (hlt : sent < pkts.length)
    (hn : retries + n < maxEnqueueRetries) :
    Transition.run (step rule) s (refusals n) =
      some { s with consumer := .loadVid pkts sent (retries + n) } := by
  induction n generalizing s retries with
  | zero => rw [Nat.add_zero, ← hc]; rfl
  | succ n ih =>
    have hnext : s.deliver s.vid pkts sent retries 0 =
        { s with consumer := .loadVid pkts sent (retries + 1) } := by
      have hmore : retries + 1 < maxEnqueueRetries := by omega
      simp [State.deliver, State.copied, bumpRetries, hlt, hmore]
    rw [refusals, step_refusal hc, hnext, ih rfl (by omega)]
    simp only [Nat.add_assoc, Nat.add_comm 1 n]

/-- The guest refuses the packet `MAX_ENQUEUE_RETRIES` times; the packet is freed. -/
def starvedRun : List Act :=
  offerRun ++ (refusals 999 ++ [.consumerLoadVid, .rteVhostEnqueueBurst 0, .rtePktmbufFree])

/-- The consumer is back at its loop head, having dropped the packet. -/
def starvedState : State :=
  { offerState with
    consumer := .loadQuit
    txBytes := 64
    freed := [⟨mbufOf 0, .undelivered⟩] }

theorem starved_run : Transition.run (step .allThatFits) init starvedRun = some starvedState := by
  have hoffer : Transition.run (step .allThatFits) init offerRun = some offerState := rfl
  have hrefuse : Transition.run (step .allThatFits) offerState (refusals 999) =
      some { offerState with consumer := .loadVid [mbufOf 0] 0 999 } :=
    run_refusals 999 rfl (by decide) (by decide)
  -- the thousandth try and the free are run
  rw [starvedRun, Transition.run_append, hoffer, Option.bind_some, Transition.run_append, hrefuse,
    Option.bind_some]
  rfl

theorem mem_refusals {n : Nat} (h : a ∈ refusals n) :
    a = .consumerLoadVid ∨ a = .rteVhostEnqueueBurst 0 := by
  induction n with
  | zero => cases h
  | succ n ih =>
    rcases List.mem_append.mp h with h | h
    · simpa using h
    · exact ih h

/-- A guest that accepts nothing for one batch loses it a packet, although
`stop()` was not called and no device was destroyed. -/
theorem starved_batch_dropped :
    ¬ ∀ as s, Transition.run (step .allThatFits) init as = some s → .stop ∉ as →
      (∀ vid, .destroyDevice vid ∉ as) → s.Lossless := by
  intro hall
  have hother : ∀ a, a ∉ offerRun → a ≠ .consumerLoadVid → a ≠ .rteVhostEnqueueBurst 0 →
      a ≠ .rtePktmbufFree → a ∉ starvedRun := by
    intro a ho hv he hf hm
    simp only [starvedRun, List.mem_append, List.mem_cons, List.not_mem_nil, or_false] at hm
    rcases hm with hm | hm | hm | hm | hm
    · exact ho hm
    · exact (mem_refusals hm).elim hv he
    · exact hv hm
    · exact he hm
    · exact hf hm
  have hl := hall starvedRun starvedState starved_run
    (hother _ (by decide) nofun nofun nofun)
    (fun vid => hother _ (by simp [offerRun, connect, receives]) nofun nofun nofun)
  exact absurd hl.1 (by decide)

/-! ## The traffic counters -/

/-- Sum of `pkt_len`. -/
def bytesOf (l : List Mbuf) : Nat := (l.map (fun b => b.pktLen.toNat)).sum

@[simp] theorem bytesOf_nil : bytesOf [] = 0 := rfl

@[simp] theorem bytesOf_append (l m : List Mbuf) : bytesOf (l ++ m) = bytesOf l + bytesOf m := by
  simp [bytesOf]

theorem bytesOf_take_drop (l : List Mbuf) (n : Nat) :
    bytesOf (l.take n) + bytesOf (l.drop n) = bytesOf l := by
  rw [← bytesOf_append, List.take_append_drop]

theorem accountBytes_eq (t : UInt64) (pkts : List Mbuf) :
    accountBytes t pkts = t + UInt64.ofNat (bytesOf pkts) := by
  induction pkts generalizing t with
  | nil => simp [accountBytes]
  | cons b pkts ih =>
    have hcons : accountBytes t (b :: pkts) = accountBytes (t + b.pktLen.toUInt64) pkts := rfl
    have hsum : bytesOf (b :: pkts) = b.pktLen.toNat + bytesOf pkts := by simp [bytesOf]
    rw [hcons, ih, hsum, UInt64.ofNat_add, UInt64.ofNat_uInt32ToNat, UInt64.add_assoc]

/-- Packets of the batch in hand that `rx_pkts_` does not count yet. -/
def ProducerPc.uncounted : ProducerPc → Nat
  | .ringEnqueue pkts _ | .retryLoadQuit pkts _ => pkts.length
  | _ => 0

/-- Accepted packets of the batch in hand that `tx_pkts_` does not count yet. -/
def ConsumerPc.uncounted : ConsumerPc → List Mbuf
  | .loadVid pkts sent _ | .enqueueBurst _ pkts sent _ => pkts.take sent
  | _ => []

/-- Packets of the batch in hand given up after the last try and not freed yet. -/
def ConsumerPc.givenUp : ConsumerPc → List Mbuf
  | .freeUndelivered pkts _ i => pkts.drop i
  | _ => []

/-- Packets given up and freed. -/
def State.freedUndelivered (s : State) : List Mbuf :=
  (s.freed.filter (fun f => f.site = .undelivered)).map Free.mbuf

/-- All packets given up after the last try of their batch. -/
def State.givenUp (s : State) : List Mbuf := s.freedUndelivered ++ s.consumer.givenUp

/-- What the counters hold at every point: `tx_bytes_` also counts what was
given up. -/
structure Counted (s : State) : Prop where
  rx : s.rxPkts + UInt64.ofNat s.producer.uncounted = UInt64.ofNat s.dequeued.length
  tx : s.txPkts + UInt64.ofNat s.consumer.uncounted.length = UInt64.ofNat s.delivered.length
  bytes : s.txBytes + UInt64.ofNat (bytesOf s.consumer.uncounted) =
    UInt64.ofNat (bytesOf s.accepted + bytesOf s.givenUp)

theorem ProducerMove.counted (h : ProducerMove rule s a s') (hi : Counted s) :
    s'.rxPkts + UInt64.ofNat s'.producer.uncounted = UInt64.ofNat s'.dequeued.length := by
  have hrx := hi.rx
  cases h with
  | exit hp | enter hp | ready hp | notReady hp | loadVid hp | retry pkts sent hp =>
    rw [hp] at hrx
    exact hrx
  | receive vid pkts hp hf =>
    rw [hp] at hrx
    have hrx : s.rxPkts + UInt64.ofNat 0 = UInt64.ofNat s.dequeued.length := hrx
    have hun : (s.receive pkts).producer.uncounted = pkts.length := by
      cases pkts <;> rfl
    rw [hun, receive_dequeued, List.length_append, UInt64.ofNat_add, ← hrx]
    simp [State.receive]
  | push pkts sent pushed hp hk =>
    rw [hp] at hrx
    unfold State.push
    dsimp only
    split
    · exact hrx -- `rx_pkts_` waits for the whole batch
    · show s.rxPkts + UInt64.ofNat pkts.length + UInt64.ofNat 0 = UInt64.ofNat s.dequeued.length
      exact (UInt64.add_zero _).trans hrx

theorem freeDeliveredFrom_uncounted (pkts : List Mbuf) (sent : Nat) :
    (freeDeliveredFrom pkts sent).uncounted = [] ∧ (freeDeliveredFrom pkts sent).givenUp = [] := by
  rcases freeDeliveredFrom_cases pkts sent with ⟨-, h⟩ | ⟨-, h⟩ <;> rw [h] <;> exact ⟨rfl, rfl⟩

theorem account_uncounted (s : State) (pkts : List Mbuf) (sent : Nat) :
    (s.account pkts sent).consumer.uncounted = [] := by
  dsimp only [State.account]
  split
  · rfl
  · exact (freeDeliveredFrom_uncounted pkts sent).1

theorem account_givenUp (s : State) (pkts : List Mbuf) (sent : Nat) :
    (s.account pkts sent).consumer.givenUp = pkts.drop sent := by
  dsimp only [State.account]
  split
  · rfl
  · rw [(freeDeliveredFrom_uncounted pkts sent).2, List.drop_eq_nil_of_le (by omega)]

/-- The consumer's part of `Counted`. -/
def TxCounted (s : State) : Prop :=
  s.txPkts + UInt64.ofNat s.consumer.uncounted.length = UInt64.ofNat s.delivered.length ∧
  s.txBytes + UInt64.ofNat (bytesOf s.consumer.uncounted) =
    UInt64.ofNat (bytesOf s.accepted + bytesOf s.givenUp)

/-- One call's packets go from the batch to the guest; the counters lag behind. -/
theorem txCounted_copied {vid : Int} {pkts : List Mbuf} {sent retries k : Nat}
    (hc : s.consumer = .enqueueBurst vid pkts sent retries) (hi : TxCounted s) :
    s.txPkts + UInt64.ofNat (pkts.take (sent + k)).length =
      UInt64.ofNat (s.delivered ++ s.copied vid pkts sent k).length ∧
    s.txBytes + UInt64.ofNat (bytesOf (pkts.take (sent + k))) =
      UInt64.ofNat (bytesOf (s.accepted ++ (pkts.drop sent).take k) + bytesOf s.freedUndelivered) := by
  have hcopied : (s.copied vid pkts sent k).length = ((pkts.drop sent).take k).length := by
    rw [← copied_mbuf s pkts sent k vid, List.length_map]
  obtain ⟨htx, hby⟩ := hi
  simp only [State.givenUp, hc, ConsumerPc.uncounted, ConsumerPc.givenUp, List.append_nil] at htx hby
  constructor
  · rw [List.take_add, List.length_append, List.length_append, UInt64.ofNat_add, UInt64.ofNat_add,
      ← UInt64.add_assoc, htx, hcopied]
  · rw [List.take_add, bytesOf_append, bytesOf_append, UInt64.ofNat_add, ← UInt64.add_assoc, hby,
      ← UInt64.ofNat_add]
    congr 1
    omega

theorem deliver_txCounted {vid : Int} {pkts : List Mbuf} {sent retries k : Nat}
    (hc : s.consumer = .enqueueBurst vid pkts sent retries) (hk : k ≤ pkts.length - sent)
    (hsent : sent < pkts.length) (hi : TxCounted s) :
    TxCounted (s.deliver vid pkts sent retries k) := by
  obtain ⟨htx, hby⟩ := txCounted_copied (k := k) hc hi
  have hacc : (s.deliver vid pkts sent retries k).accepted =
      s.accepted ++ (pkts.drop sent).take k := by
    simp [State.accepted]
  have hfree : (s.deliver vid pkts sent retries k).freedUndelivered = s.freedUndelivered := by
    simp [State.freedUndelivered]
  unfold TxCounted State.givenUp
  rw [hacc, hfree, deliver_delivered]
  unfold State.deliver
  dsimp only
  split
  · refine ⟨htx, ?_⟩
    simpa [ConsumerPc.uncounted, ConsumerPc.givenUp] using hby
  · -- the loop is left: both counters catch up, `tx_bytes_` with the whole batch
    have hlen : (pkts.take (sent + k)).length = sent + k := by rw [List.length_take]; omega
    rw [account_uncounted, account_givenUp]
    constructor
    · show s.txPkts + UInt64.ofNat (sent + k) + 0 = _
      rw [UInt64.add_zero, ← htx, hlen]
    · show accountBytes s.txBytes pkts + 0 = _
      rw [UInt64.add_zero, accountBytes_eq, ← bytesOf_take_drop pkts (sent + k), UInt64.ofNat_add,
        ← UInt64.add_assoc, hby, ← UInt64.ofNat_add, bytesOf_append s.freedUndelivered,
        Nat.add_assoc]

/-- Neither the counters nor what they should hold have changed. -/
structure SameCounts (s s' : State) : Prop where
  txPkts : s'.txPkts = s.txPkts
  txBytes : s'.txBytes = s.txBytes
  delivered : s'.delivered = s.delivered
  uncounted : s'.consumer.uncounted = s.consumer.uncounted
  givenUp : s'.givenUp = s.givenUp

theorem SameConsumer.sameCounts (h : SameConsumer s s') : SameCounts s s' where
  txPkts := h.txPkts
  txBytes := h.txBytes
  delivered := h.delivered
  uncounted := by rw [h.consumer]
  givenUp := by simp only [State.givenUp, State.freedUndelivered, h.consumer, h.freed]

theorem SameCounts.txCounted (h : SameCounts s s') (hi : TxCounted s) : TxCounted s' := by
  simpa only [TxCounted, State.accepted, h.txPkts, h.txBytes, h.delivered, h.uncounted, h.givenUp]
    using hi

/-- Only the call that hands packets to the guest changes the counts. -/
theorem ConsumerMove.sameCounts (h : ConsumerMove rule s a s')
    (hne : ∀ nbTx, a ≠ .rteVhostEnqueueBurst nbTx) : SameCounts s s' := by
  cases h with
  | leave hc | enter hc | ready hc | notReady hc | loadVid pkts sent retries hc =>
    refine ⟨rfl, rfl, rfl, ?_, ?_⟩
    · rw [hc]; rfl
    · simp only [State.givenUp, State.freedUndelivered, hc]; rfl
  | take nbDeq hc hk =>
    refine ⟨rfl, rfl, rfl, ?_, ?_⟩
    · rw [hc]
      rcases takeBatch_consumer s nbDeq with ⟨-, h⟩ | ⟨-, h⟩ <;> rw [h] <;> rfl
    · simp only [State.givenUp, hc]
      rcases takeBatch_consumer s nbDeq with ⟨-, h⟩ | ⟨-, h⟩ <;> rw [h] <;> rfl
  | drain remaining hc hk =>
    refine ⟨rfl, rfl, rfl, ?_, ?_⟩
    · rw [hc]
      rcases drainBatch_consumer s remaining with ⟨-, h⟩ | ⟨-, h⟩ <;> rw [h] <;> rfl
    · simp only [State.givenUp, hc]
      rcases drainBatch_consumer s remaining with ⟨-, h⟩ | ⟨-, h⟩ <;> rw [h] <;> rfl
  | deliver vid pkts sent retries nbTx hc hk => exact (hne nbTx rfl).elim
  | freeUndelivered pkts sent i b hc hb =>
    obtain ⟨hlt, rfl⟩ := List.getElem?_eq_some_iff.mp hb
    refine ⟨rfl, rfl, rfl, ?_, ?_⟩
    · rw [hc, free_consumer]
      split
      · rfl
      · exact (freeDeliveredFrom_uncounted _ _).1
    · -- the freed packet moves from the batch to the freed ones
      have hfreed (c : ConsumerPc) : (s.free pkts[i] .undelivered c).freedUndelivered =
          s.freedUndelivered ++ [pkts[i]] := by
        simp [State.freedUndelivered, State.free]
      have hnow : s.consumer.givenUp = pkts[i] :: pkts.drop (i + 1) := by
        rw [hc]; exact List.drop_eq_getElem_cons hlt
      rw [State.givenUp, State.givenUp, hfreed, hnow, free_consumer, List.append_assoc,
        List.singleton_append]
      split
      · rfl
      · rw [(freeDeliveredFrom_uncounted _ _).2, List.drop_eq_nil_of_le (by omega)]
  | freeDelivered pkts sent i b hc hb | drainFree pkts i b hc hb =>
    refine ⟨rfl, rfl, rfl, ?_, ?_⟩
    · rw [hc, free_consumer]; split <;> rfl
    · simp only [State.givenUp, State.freedUndelivered, State.free, hc]
      split <;> simp [ConsumerPc.givenUp]

theorem ConsumerMove.txCounted (h : ConsumerMove rule s a s') (hr : s.consumer.InRange)
    (hi : TxCounted s) : TxCounted s' := by
  by_cases hne : ∀ nbTx, a ≠ .rteVhostEnqueueBurst nbTx
  · exact (h.sameCounts hne).txCounted hi
  · cases h with
    | deliver vid pkts sent retries nbTx hc hk =>
      have hr' : sent < pkts.length ∧ _ := hc ▸ hr
      exact deliver_txCounted hc hk hr'.1 hi
    | _ => exact (hne nofun).elim

theorem step_counted (hr : s.InRange) (hi : Counted s) (h : step rule s a = some s') :
    Counted s' := by
  rcases step_cases h with hp | hc | he
  · have ht := hp.sameConsumer.sameCounts.txCounted ⟨hi.tx, hi.bytes⟩
    exact ⟨hp.counted hi, ht.1, ht.2⟩
  · have ht := hc.txCounted hr.2 ⟨hi.tx, hi.bytes⟩
    refine ⟨?_, ht.1, ht.2⟩
    rw [hc.sameProducer.rxPkts, hc.sameProducer.producer, hc.sameProducer.dequeued]
    exact hi.rx
  · have ht := he.sameThreads.toSameConsumer.sameCounts.txCounted ⟨hi.tx, hi.bytes⟩
    refine ⟨?_, ht.1, ht.2⟩
    rw [he.sameThreads.rxPkts, he.sameThreads.producer, he.sameThreads.dequeued]
    exact hi.rx

theorem reachable_counted (h : Reachable rule s) : Counted s :=
  h.invariant_inRange ⟨rfl, rfl, rfl⟩ (fun _ _ _ => step_counted)

/-- What is left when the last try of a batch is short carries no bytes. -/
def GivenUpEmpty (s : State) : Act → Prop
  | .rteVhostEnqueueBurst nbTx => ∀ vid pkts sent retries,
    s.consumer = .enqueueBurst vid pkts sent retries → retries + 1 = maxEnqueueRetries →
      bytesOf (pkts.drop (sent + nbTx)) = 0
  | _ => True

theorem deliver_givenUp {vid : Int} {pkts : List Mbuf} {sent retries k : Nat}
    (hr : retries < maxEnqueueRetries) :
    (s.deliver vid pkts sent retries k).consumer.givenUp = [] ∨
    retries + 1 = maxEnqueueRetries ∧
      (s.deliver vid pkts sent retries k).consumer.givenUp = pkts.drop (sent + k) := by
  rcases deliver_consumer s pkts sent retries k vid with ⟨-, -, h⟩ | ⟨-, hlast, h⟩ | ⟨-, h⟩ <;>
    rw [h]
  · exact .inl rfl
  · exact .inr ⟨by omega, rfl⟩
  · exact .inl (freeDeliveredFrom_uncounted pkts (sent + k)).2

theorem step_givenUp (hr : s.InRange) (hi : bytesOf s.givenUp = 0) (hC : GivenUpEmpty s a)
    (h : step rule s a = some s') : bytesOf s'.givenUp = 0 := by
  rcases step_cases h with hp | hc | he
  · rw [hp.sameConsumer.sameCounts.givenUp]; exact hi
  · by_cases hne : ∀ nbTx, a ≠ .rteVhostEnqueueBurst nbTx
    · rw [(hc.sameCounts hne).givenUp]; exact hi
    · cases hc with
      | deliver vid pkts sent retries nbTx hc hk =>
        have hr' : _ ∧ _ ∧ retries < maxEnqueueRetries := hc ▸ hr.2
        have hfreed : bytesOf s.freedUndelivered = 0 := by
          rw [State.givenUp, bytesOf_append] at hi
          omega
        -- a delivery frees nothing; it adds what it gives up, if anything
        rw [State.givenUp, State.freedUndelivered, deliver_freed, bytesOf_append]
        rcases deliver_givenUp hr'.2.2 with h0 | ⟨hlast, hg⟩
        · rw [h0]; exact hfreed
        · rw [hg, hC vid pkts sent retries hc hlast]; exact hfreed
      | _ => exact (hne nofun).elim
  · rw [he.sameThreads.toSameConsumer.sameCounts.givenUp]; exact hi

/-- At the head of a loop or after its end. -/
def ProducerPc.AtHead (p : ProducerPc) : Prop := p = .loadQuit ∨ p = .exited

def ConsumerPc.AtHead (c : ConsumerPc) : Prop := c = .loadQuit ∨ c = .exited

/-- The counters, where they are meant to be exact, equal (mod 2^64) what
crossed the interface. -/
def State.CountersExact (s : State) : Prop :=
  (s.producer.AtHead → s.rxPkts = UInt64.ofNat s.dequeued.length) ∧
  (s.consumer.AtHead → s.txPkts = UInt64.ofNat s.delivered.length ∧
    s.txBytes = UInt64.ofNat (bytesOf s.accepted))

theorem ofNat_add_eq_iff (n k : Nat) : UInt64.ofNat (n + k) = UInt64.ofNat n ↔ 2 ^ 64 ∣ k := by
  rw [← UInt64.toNat_inj, UInt64.toNat_ofNat', UInt64.toNat_ofNat']
  omega

theorem rx_at_head (h : Reachable rule s) (hp : s.producer.AtHead) :
    s.rxPkts = UInt64.ofNat s.dequeued.length := by
  have hrx := (reachable_counted h).rx
  have h0 : s.producer.uncounted = 0 := by rcases hp with hp | hp <;> rw [hp] <;> rfl
  rw [h0] at hrx
  exact (UInt64.add_zero _).symm.trans hrx

/-- At a loop head of the consumer `tx_pkts_` is exact, and `tx_bytes_` counts
what was accepted and what was given up. -/
theorem tx_at_head (h : Reachable rule s) (hc : s.consumer.AtHead) :
    s.txPkts = UInt64.ofNat s.delivered.length ∧
    s.txBytes = UInt64.ofNat (bytesOf s.accepted + bytesOf s.givenUp) := by
  have hi := reachable_counted h
  have h0 : s.consumer.uncounted = [] := by rcases hc with hc | hc <;> rw [hc] <;> rfl
  have htx := hi.tx
  have hby := hi.bytes
  rw [h0] at htx hby
  exact ⟨(UInt64.add_zero _).symm.trans htx, (UInt64.add_zero _).symm.trans hby⟩

/-- **When the counters are exact.** In a run whose batches leave no bytes behind
after their last try, all three counters are exact at every loop head and after
the threads' end. In any run, `tx_bytes_` is exact there exactly if the packets
given up add up to a multiple of 2^64 bytes. -/
theorem counters_exact (rule : BurstRule) (as : List Act) (s : State)
    (hr : Transition.run (step rule) init as = some s) :
    (Transition.Meets (step rule) GivenUpEmpty init as → s.CountersExact) ∧
    (s.consumer.AtHead →
      (s.txBytes = UInt64.ofNat (bytesOf s.accepted) ↔ 2 ^ 64 ∣ bytesOf s.givenUp)) := by
  constructor
  · intro hm
    have hnone : bytesOf s.givenUp = 0 :=
      meets_invariant_inRange (I := fun s => bytesOf s.givenUp = 0) rfl
        (fun _ _ _ => step_givenUp) hm hr
    refine ⟨rx_at_head ⟨as, hr⟩, fun hc => ?_⟩
    obtain ⟨htx, hby⟩ := tx_at_head ⟨as, hr⟩ hc
    rw [hnone, Nat.add_zero] at hby
    exact ⟨htx, hby⟩
  · intro hc
    rw [(tx_at_head ⟨as, hr⟩ hc).2]
    exact ofNat_add_eq_iff _ _

/-- At the consumer's loop head of `acceptedRun`, the 64 bytes are counted. -/
theorem counters_exact_accepted :
    acceptedState.consumer = .loadQuit ∧ 2 ^ 64 ∣ bytesOf acceptedState.givenUp :=
  ⟨rfl, ((counters_exact .allThatFits acceptedRun acceptedState rfl).2 (.inl rfl)).mp rfl⟩

/-- After the starved batch `tx_bytes_` is 64, and nothing was accepted. -/
theorem starved_batch_counted :
    ¬ ∀ s, Reachable .allThatFits s → s.CountersExact := by
  intro hall
  have hexact := (hall starvedState ⟨starvedRun, starved_run⟩).2 (.inl rfl)
  exact absurd hexact.2 (by decide)

end VirtioBench.Vhost
