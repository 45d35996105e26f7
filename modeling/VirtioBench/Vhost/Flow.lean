import VirtioBench.Lib.Channel
import VirtioBench.Vhost.Moves

/- The packets of the controller, as a lossy FIFO channel. What a thread holds
   is read off its program counter: the producer's `pkts[sent..nb_rx)` (`rest`),
   the consumer's packets the guest has not accepted (`undelivered`) and those it
   has accepted and the consumer has not freed (`spent`). The packets in flight
   are, oldest first, the consumer's undelivered ones, the ring, and the
   producer's rest.

   `step_channel` is the refinement: every step of the controller is a move of
   `Lib.Channel`'s channel, or leaves it as it is; `reachable_fifo` follows for
   every reachable state. -/
namespace VirtioBench.Vhost

/-! ## What each thread holds -/

/-- The producer's `pkts[sent..nb_rx)`. -/
def ProducerPc.rest : ProducerPc → List Mbuf
  | .ringEnqueue pkts sent | .retryLoadQuit pkts sent => pkts.drop sent
  | _ => []

/-- The consumer's packets that the guest has not accepted and that are not freed. -/
def ConsumerPc.undelivered : ConsumerPc → List Mbuf
  | .loadVid pkts sent _ | .enqueueBurst _ pkts sent _ => pkts.drop sent
  | .freeUndelivered pkts _ i => pkts.drop i
  | .drainFree pkts i => pkts.drop i
  | _ => []

/-- The consumer's packets that the guest has accepted and that are not freed. -/
def ConsumerPc.spent : ConsumerPc → List Mbuf
  | .loadVid pkts sent _ | .enqueueBurst _ pkts sent _ => pkts.take sent
  | .freeUndelivered pkts sent _ => pkts.take sent
  | .freeDelivered pkts sent i => (pkts.take sent).drop i
  | _ => []

/-- The consumer's current batch, as far as it is not freed. -/
def ConsumerPc.held (c : ConsumerPc) : List Mbuf := c.spent ++ c.undelivered

namespace State

/-- Accepted packets, in the order the guest got them. -/
def accepted (s : State) : List Mbuf := s.delivered.map Delivery.mbuf

/-- Packets freed without having been accepted: by the loop after the retries
are used up, or by the final drain. -/
def dropped (s : State) : List Mbuf :=
  (s.freed.filter (fun f => f.site ≠ .delivered)).map Free.mbuf

/-- Packets freed after having been accepted. -/
def released (s : State) : List Mbuf :=
  (s.freed.filter (fun f => f.site = .delivered)).map Free.mbuf

def flight (s : State) : List Mbuf := s.consumer.undelivered ++ s.ring ++ s.producer.rest

def channel (s : State) : Channel Mbuf where
  sent := s.dequeued
  flight := s.flight
  received := s.accepted
  lost := s.dropped

end State

/-! ## The steps, field by field -/

section Fields
variable (s : State) (pkts : List Mbuf) (sent retries k : Nat) (vid : Int)

@[simp] theorem receive_dequeued : (s.receive pkts).dequeued = s.dequeued ++ pkts := rfl
@[simp] theorem receive_ring : (s.receive pkts).ring = s.ring := rfl
@[simp] theorem receive_consumer : (s.receive pkts).consumer = s.consumer := rfl
@[simp] theorem receive_delivered : (s.receive pkts).delivered = s.delivered := rfl
@[simp] theorem receive_freed : (s.receive pkts).freed = s.freed := rfl

@[simp] theorem receive_rest : (s.receive pkts).producer.rest = pkts := by
  cases pkts with
  | nil => rfl
  | cons b pkts => rfl

@[simp] theorem push_ring :
    (s.push pkts sent k).ring = s.ring ++ (pkts.drop sent).take k := by
  unfold State.push; split <;> rfl
@[simp] theorem push_dequeued : (s.push pkts sent k).dequeued = s.dequeued := by
  unfold State.push; split <;> rfl
@[simp] theorem push_consumer : (s.push pkts sent k).consumer = s.consumer :=
  (push_sameConsumer s pkts sent k).consumer
@[simp] theorem push_delivered : (s.push pkts sent k).delivered = s.delivered :=
  (push_sameConsumer s pkts sent k).delivered
@[simp] theorem push_freed : (s.push pkts sent k).freed = s.freed :=
  (push_sameConsumer s pkts sent k).freed

/-- A push that ends the iteration has nothing left to push. -/
@[simp] theorem push_rest : (s.push pkts sent k).producer.rest = pkts.drop (sent + k) := by
  rcases push_producer s pkts sent k with ⟨-, h⟩ | ⟨hle, h⟩ <;> rw [h]
  · rfl
  · exact (List.drop_eq_nil_of_le hle).symm

@[simp] theorem takeBatch_ring : (s.takeBatch k).ring = s.ring.drop k := rfl
@[simp] theorem takeBatch_producer : (s.takeBatch k).producer = s.producer := rfl
@[simp] theorem drainBatch_ring : (s.drainBatch k).ring = s.ring.drop k := rfl
@[simp] theorem drainBatch_producer : (s.drainBatch k).producer = s.producer := rfl

@[simp] theorem takeBatch_undelivered :
    (s.takeBatch k).consumer.undelivered = s.ring.take k := by
  rcases takeBatch_consumer s k with ⟨-, h⟩ | ⟨rfl, h⟩ <;> rw [h] <;> rfl

@[simp] theorem takeBatch_spent : (s.takeBatch k).consumer.spent = [] := by
  rcases takeBatch_consumer s k with ⟨-, h⟩ | ⟨-, h⟩ <;> rw [h] <;> rfl

@[simp] theorem drainBatch_undelivered :
    (s.drainBatch k).consumer.undelivered = s.ring.take k := by
  rcases drainBatch_consumer s k with ⟨-, h⟩ | ⟨rfl, h⟩ <;> rw [h] <;> rfl

@[simp] theorem drainBatch_spent : (s.drainBatch k).consumer.spent = [] := by
  rcases drainBatch_consumer s k with ⟨-, h⟩ | ⟨-, h⟩ <;> rw [h] <;> rfl

@[simp] theorem freeDeliveredFrom_undelivered :
    (freeDeliveredFrom pkts sent).undelivered = [] := by
  rcases freeDeliveredFrom_cases pkts sent with ⟨-, h⟩ | ⟨-, h⟩ <;> rw [h] <;> rfl

@[simp] theorem freeDeliveredFrom_spent : (freeDeliveredFrom pkts sent).spent = pkts.take sent := by
  rcases freeDeliveredFrom_cases pkts sent with ⟨-, h⟩ | ⟨rfl, h⟩ <;> rw [h] <;> rfl

@[simp] theorem deliver_ring : (s.deliver vid pkts sent retries k).ring = s.ring := by
  unfold State.deliver; dsimp only; split <;> rfl
@[simp] theorem deliver_producer : (s.deliver vid pkts sent retries k).producer = s.producer :=
  (deliver_sameProducer s pkts sent retries k vid).producer
@[simp] theorem deliver_dequeued : (s.deliver vid pkts sent retries k).dequeued = s.dequeued :=
  (deliver_sameProducer s pkts sent retries k vid).dequeued
@[simp] theorem deliver_freed : (s.deliver vid pkts sent retries k).freed = s.freed := by
  unfold State.deliver; dsimp only; split <;> rfl
@[simp] theorem deliver_delivered :
    (s.deliver vid pkts sent retries k).delivered = s.delivered ++ s.copied vid pkts sent k := by
  unfold State.deliver; dsimp only; split <;> rfl

@[simp] theorem deliver_undelivered :
    (s.deliver vid pkts sent retries k).consumer.undelivered = pkts.drop (sent + k) := by
  rcases deliver_consumer s pkts sent retries k vid with ⟨-, -, h⟩ | ⟨-, -, h⟩ | ⟨hle, h⟩ <;> rw [h]
  · rfl
  · rfl
  · rw [freeDeliveredFrom_undelivered, List.drop_eq_nil_of_le hle]

@[simp] theorem deliver_spent :
    (s.deliver vid pkts sent retries k).consumer.spent = pkts.take (sent + k) := by
  rcases deliver_consumer s pkts sent retries k vid with ⟨-, -, h⟩ | ⟨-, -, h⟩ | ⟨-, h⟩ <;> rw [h]
  · rfl
  · rfl
  · rw [freeDeliveredFrom_spent]

@[simp] theorem copied_mbuf :
    (s.copied vid pkts sent k).map Delivery.mbuf = (pkts.drop sent).take k := by
  simp [State.copied, Function.comp_def]

@[simp] theorem free_consumer (b : Mbuf) (site : FreeSite) (c : ConsumerPc) :
    (s.free b site c).consumer = c := rfl
@[simp] theorem free_ring (b : Mbuf) (site : FreeSite) (c : ConsumerPc) :
    (s.free b site c).ring = s.ring := rfl
@[simp] theorem free_producer (b : Mbuf) (site : FreeSite) (c : ConsumerPc) :
    (s.free b site c).producer = s.producer := rfl
@[simp] theorem free_dequeued (b : Mbuf) (site : FreeSite) (c : ConsumerPc) :
    (s.free b site c).dequeued = s.dequeued := rfl
@[simp] theorem free_delivered (b : Mbuf) (site : FreeSite) (c : ConsumerPc) :
    (s.free b site c).delivered = s.delivered := rfl

@[simp] theorem free_dropped_undelivered (b : Mbuf) (c : ConsumerPc) :
    (s.free b .undelivered c).dropped = s.dropped ++ [b] := by
  simp [State.free, State.dropped]
@[simp] theorem free_dropped_drain (b : Mbuf) (c : ConsumerPc) :
    (s.free b .drain c).dropped = s.dropped ++ [b] := by
  simp [State.free, State.dropped]
@[simp] theorem free_dropped_delivered (b : Mbuf) (c : ConsumerPc) :
    (s.free b .delivered c).dropped = s.dropped := by
  simp [State.free, State.dropped]
@[simp] theorem free_released_undelivered (b : Mbuf) (c : ConsumerPc) :
    (s.free b .undelivered c).released = s.released := by
  simp [State.free, State.released]
@[simp] theorem free_released_drain (b : Mbuf) (c : ConsumerPc) :
    (s.free b .drain c).released = s.released := by
  simp [State.free, State.released]
@[simp] theorem free_released_delivered (b : Mbuf) (c : ConsumerPc) :
    (s.free b .delivered c).released = s.released ++ [b] := by
  simp [State.free, State.released]

end Fields

/-! ## In range: every offset a thread uses lies in its batch -/

def ProducerPc.InRange : ProducerPc → Prop
  | .ringEnqueue pkts sent | .retryLoadQuit pkts sent =>
    sent < pkts.length ∧ pkts.length ≤ pktBurstSz
  | _ => True

def ConsumerPc.InRange : ConsumerPc → Prop
  | .loadVid pkts sent retries | .enqueueBurst _ pkts sent retries =>
    sent < pkts.length ∧ pkts.length ≤ pktBurstSz ∧ retries < maxEnqueueRetries
  | .freeUndelivered pkts sent i => sent ≤ i ∧ i < pkts.length
  | .freeDelivered pkts sent i => i < sent ∧ sent ≤ pkts.length
  | .drainFree pkts i => i < pkts.length
  | _ => True

def State.InRange (s : State) : Prop := s.producer.InRange ∧ s.consumer.InRange

variable {rule : BurstRule} {s s' : State} {a : Act}

theorem ProducerEdge.inRange {p p' : ProducerPc} (h : ProducerEdge s p p') (hr : p.InRange) :
    p'.InRange := by
  cases h with
  | exit | enter | ready | notReady | loadVid | nothing | pushed => trivial
  | received vid pkts h0 hb => exact ⟨h0, hb⟩
  | short pkts sent pushed hlt => exact ⟨hlt, hr.2⟩
  | retry pkts sent => exact hr

theorem ConsumerEdge.inRange {c c' : ConsumerPc} (h : ConsumerEdge s c c') (hr : c.InRange) :
    c'.InRange := by
  cases h with
  | leave | enter | ready | notReady | nothing | emptyBatch | noneDelivered | batchFreed | drained
  | drainFreed => trivial
  | take pkts h0 hb => exact ⟨h0, hb, by decide⟩
  | loadVid pkts sent retries => exact hr
  | retry vid pkts sent retries nbTx hlt hr' => exact ⟨hlt, hr.2.1, hr'⟩
  | giveUp vid pkts sent retries nbTx hlt => exact ⟨Nat.le_refl _, hlt⟩
  | accepted vid pkts sent retries nbTx hk h0 =>
    have hlt : sent < pkts.length := hr.1
    exact ⟨h0, by omega⟩
  | freeUndelivered pkts sent i hi => exact ⟨Nat.le_succ_of_le hr.1, hi⟩
  | undeliveredFreed pkts sent i h0 =>
    obtain ⟨hle, hlt⟩ := hr
    exact ⟨h0, by omega⟩
  | freeDelivered pkts sent i hi => exact ⟨hi, hr.2⟩
  | drain pkts h0 => exact h0
  | drainFree pkts i hi => exact hi

theorem step_inRange (hr : s.InRange) (h : step rule s a = some s') : s'.InRange := by
  rcases step_cases h with hp | hc | he
  · exact ⟨hp.edge.inRange hr.1, hp.sameConsumer.consumer ▸ hr.2⟩
  · exact ⟨hc.sameProducer.producer ▸ hr.1, hc.edge.inRange hr.2⟩
  · exact ⟨he.sameThreads.producer ▸ hr.1, he.sameThreads.consumer ▸ hr.2⟩

theorem inRange_init : init.InRange := ⟨trivial, trivial⟩

theorem reachable_inRange (h : Reachable rule s) : s.InRange :=
  h.invariant inRange_init (fun _ _ _ => step_inRange)

/-- The invariant rule for what relies on the offsets being in range. -/
theorem Reachable.invariant_inRange {I : State → Prop} (h : Reachable rule s) (h0 : I init)
    (hI : ∀ s a s', s.InRange → I s → step rule s a = some s' → I s') : I s := by
  have hboth : s.InRange ∧ I s := by
    refine h.invariant (I := fun s => s.InRange ∧ I s) ⟨inRange_init, h0⟩ ?_
    intro s a s' hi hs
    exact ⟨step_inRange hi.1 hs, hI s a s' hi.1 hi.2 hs⟩
  exact hboth.2

/-- The same for runs whose steps meet the condition `C`. -/
theorem meets_invariant_inRange {I : State → Prop} {C : State → Act → Prop} {as : List Act}
    (h0 : I init)
    (hI : ∀ s a s', s.InRange → I s → C s a → step rule s a = some s' → I s')
    (hm : Transition.Meets (step rule) C init as)
    (hr : Transition.run (step rule) init as = some s) : I s := by
  have hboth : s.InRange ∧ I s := by
    refine Transition.meets_invariant (I := fun s => s.InRange ∧ I s) ?_ ⟨inRange_init, h0⟩ hm hr
    intro s a s' hi hC hs
    exact ⟨step_inRange hi.1 hs, hI s a s' hi.1 hi.2 hC hs⟩
  exact hboth.2

/-! ## The controller refines the channel -/

theorem SameThreads.channel_eq (h : SameThreads s s') : s'.channel = s.channel := by
  simp only [State.channel, State.flight, State.accepted, State.dropped, h.producer, h.consumer,
    h.ring, h.dequeued, h.delivered, h.freed]

/-- A step that moves no packet in or out leaves the channel as it is. -/
theorem channel_congr (hd : s'.dequeued = s.dequeued) (hf : s'.flight = s.flight)
    (ha : s'.delivered = s.delivered) (hr : s'.dropped = s.dropped) :
    s.channel.Move s'.channel := by
  apply Channel.Move.of_eq
  simp only [State.channel, State.accepted, hd, hf, ha, hr]

theorem ProducerMove.channel (h : ProducerMove rule s a s') : s.channel.Move s'.channel := by
  cases h with
  | exit hp | enter hp | ready hp | notReady hp | loadVid hp | retry pkts sent hp =>
    refine channel_congr rfl ?_ rfl rfl
    unfold State.flight
    rw [hp]
    rfl
  | receive vid pkts hp hf =>
    have hrest : s.producer.rest = [] := by rw [hp]; rfl
    have hs : (s.receive pkts).channel = s.channel.send pkts := by
      simp [State.channel, Channel.send, State.flight, State.accepted, State.dropped, hrest]
    rw [hs]
    exact .send pkts
  | push pkts sent pushed hp hk =>
    have hrest : s.producer.rest = pkts.drop sent := by rw [hp]; rfl
    -- what leaves the producer's rest is what is appended to the ring
    have hsplit : (pkts.drop sent).take pushed ++ pkts.drop (sent + pushed) = pkts.drop sent := by
      rw [← List.drop_drop, List.take_append_drop]
    refine channel_congr (push_dequeued ..) ?_ (push_delivered ..) ?_
    · simp [State.flight, hrest, hsplit]
    · simp [State.dropped]

/-- Freeing the oldest undelivered packet is the channel giving it up. -/
theorem lose_one {b : Mbuf} {next : ConsumerPc} {site : FreeSite}
    (hu : s.consumer.undelivered = b :: next.undelivered)
    (hd : (s.free b site next).dropped = s.dropped ++ [b]) :
    s.channel.Move (s.free b site next).channel := by
  have hs : (s.free b site next).channel = s.channel.lose 1 := by
    simp [State.channel, Channel.lose, State.flight, State.accepted, hd, hu]
  rw [hs]
  exact .lose 1

theorem ConsumerMove.channel (h : ConsumerMove rule s a s') : s.channel.Move s'.channel := by
  cases h with
  | leave hc | enter hc | ready hc | notReady hc | loadVid pkts sent retries hc =>
    refine channel_congr rfl ?_ rfl rfl
    unfold State.flight
    rw [hc]
    rfl
  | take nbDeq hc hk =>
    -- the batch is a prefix of the ring, so the flight reads the same
    have hu : s.consumer.undelivered = [] := by rw [hc]; rfl
    exact channel_congr rfl (by simp [State.flight, hu]) rfl rfl
  | drain remaining hc hk =>
    have hu : s.consumer.undelivered = [] := by rw [hc]; rfl
    exact channel_congr rfl (by simp [State.flight, hu]) rfl rfl
  | deliver vid pkts sent retries nbTx hc hk =>
    have hu : s.consumer.undelivered = pkts.drop sent := by rw [hc]; rfl
    -- the guest takes a prefix of the oldest packets in flight
    have hlen : nbTx ≤ (pkts.drop sent).length := by rw [List.length_drop]; exact hk
    have hs : (s.deliver vid pkts sent retries nbTx).channel = s.channel.receive nbTx := by
      simp only [State.channel, Channel.receive, State.flight, State.accepted, State.dropped, hu,
        deliver_undelivered, deliver_ring, deliver_producer, deliver_delivered, deliver_dequeued,
        deliver_freed, List.map_append, copied_mbuf, List.append_assoc, List.drop_drop,
        List.drop_append_of_le_length hlen, List.take_append_of_le_length hlen]
    rw [hs]
    exact .receive nbTx
  | freeUndelivered pkts sent i b hc hb =>
    refine lose_one ?_ (free_dropped_undelivered ..)
    obtain ⟨hi, rfl⟩ := List.getElem?_eq_some_iff.mp hb
    rw [hc]
    split
    · exact List.drop_eq_getElem_cons hi
    · show pkts.drop i = _
      rw [freeDeliveredFrom_undelivered, List.drop_eq_getElem_cons hi,
        List.drop_eq_nil_of_le (by omega)]
  | freeDelivered pkts sent i b hc hb =>
    refine channel_congr rfl ?_ rfl (free_dropped_delivered ..)
    have hu : s.consumer.undelivered = [] := by rw [hc]; rfl
    simp only [State.flight, free_consumer, free_ring, free_producer, hu]
    split <;> rfl
  | drainFree pkts i b hc hb =>
    refine lose_one ?_ (free_dropped_drain ..)
    obtain ⟨hi, rfl⟩ := List.getElem?_eq_some_iff.mp hb
    rw [hc]
    split
    · exact List.drop_eq_getElem_cons hi
    · show pkts.drop i = [pkts[i]]
      rw [List.drop_eq_getElem_cons hi, List.drop_eq_nil_of_le (by omega)]

/-- **Refinement.** A step of the controller is a move of the channel. -/
theorem step_channel (h : step rule s a = some s') : s.channel.Move s'.channel := by
  rcases step_cases h with hp | hc | he
  · exact hp.channel
  · exact hc.channel
  · exact .of_eq he.sameThreads.channel_eq

theorem reachable_fifo (h : Reachable rule s) : s.channel.Fifo :=
   h.invariant (I := fun s => s.channel.Fifo) Channel.fifo_empty
    (fun _ _ _ hi hs => Channel.fifo_move hi (step_channel hs))

end VirtioBench.Vhost
