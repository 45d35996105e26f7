import Mathlib.Data.List.Basic
import Mathlib.Data.List.Nodup

/- A lossy first-in first-out channel. Items enter in order (`send`), and the
   oldest items leave it, either delivered (`receive`) or given up (`lose`).
   `Channel.Fifo` is what such a channel keeps: the items that have left are a
   prefix of those sent, the received ones are among them in their order, and
   every one of them was either received or lost. From it follow the two laws
   a user of a channel wants: the received sequence is a subsequence of the
   sent one and accounts, with the lost items and the items in flight, for
   every item exactly once; and a channel that has lost nothing has delivered
   a prefix. -/

/-- What went in, what is inside (oldest first), what came out, what was given up. -/
structure Channel (α : Type) where
  sent : List α
  flight : List α
  received : List α
  lost : List α

namespace Channel

variable {α : Type}

def empty : Channel α := ⟨[], [], [], []⟩

def send (c : Channel α) (xs : List α) : Channel α :=
  { c with sent := c.sent ++ xs, flight := c.flight ++ xs }

/-- Deliver the `k` oldest items. -/
def receive (c : Channel α) (k : Nat) : Channel α :=
  { c with flight := c.flight.drop k, received := c.received ++ c.flight.take k }

/-- Give up the `k` oldest items. -/
def lose (c : Channel α) (k : Nat) : Channel α :=
  { c with flight := c.flight.drop k, lost := c.lost ++ c.flight.take k }

/-- One move of the channel. -/
inductive Move (c : Channel α) : Channel α → Prop
  | idle : Move c c
  | send (xs : List α) : Move c (c.send xs)
  | receive (k : Nat) : Move c (c.receive k)
  | lose (k : Nat) : Move c (c.lose k)

theorem Move.of_eq {c d : Channel α} (h : d = c) : c.Move d := h ▸ .idle

/-- What is in flight after a move was in flight before it, or has just been sent. -/
theorem Move.mem_flight {c d : Channel α} (hm : c.Move d) {x : α} (hx : x ∈ d.flight) :
    x ∈ c.flight ∨ ∃ xs, d.sent = c.sent ++ xs ∧ x ∈ xs := by
  cases hm with
  | idle => exact .inl hx
  | send xs =>
    rcases List.mem_append.mp hx with hx | hx
    · exact .inl hx
    · exact .inr ⟨xs, rfl, hx⟩
  | receive k => exact .inl (List.mem_of_mem_drop hx)
  | lose k => exact .inl (List.mem_of_mem_drop hx)

/-- The items that have left are a prefix of those sent; the received ones are
among them in order; every one of them was received or lost. -/
def Fifo (c : Channel α) : Prop :=
  ∃ gone, c.sent = gone ++ c.flight ∧ c.received.Sublist gone ∧
    gone.Perm (c.received ++ c.lost)

theorem fifo_empty : (empty : Channel α).Fifo := ⟨[], by simp [empty]⟩

theorem fifo_send {c : Channel α} (h : c.Fifo) (xs : List α) : (c.send xs).Fifo := by
  obtain ⟨gone, hs, hr, hp⟩ := h
  exact ⟨gone, by simp [send, hs], hr, hp⟩

theorem fifo_receive {c : Channel α} (h : c.Fifo) (k : Nat) : (c.receive k).Fifo := by
  obtain ⟨gone, hs, hr, hp⟩ := h
  refine ⟨gone ++ c.flight.take k, ?_, ?_, ?_⟩
  · simp [receive, hs]
  · exact hr.append (List.Sublist.refl _)
  · show (gone ++ c.flight.take k).Perm (c.received ++ c.flight.take k ++ c.lost)
    calc (gone ++ c.flight.take k).Perm ((c.received ++ c.lost) ++ c.flight.take k) :=
          hp.append_right _
      _ = c.received ++ (c.lost ++ c.flight.take k) := List.append_assoc _ _ _
      List.Perm _ (c.received ++ (c.flight.take k ++ c.lost)) :=
          List.perm_append_comm.append_left _
      _ = c.received ++ c.flight.take k ++ c.lost := (List.append_assoc _ _ _).symm

theorem fifo_lose {c : Channel α} (h : c.Fifo) (k : Nat) : (c.lose k).Fifo := by
  obtain ⟨gone, hs, hr, hp⟩ := h
  refine ⟨gone ++ c.flight.take k, ?_, ?_, ?_⟩
  · simp [lose, hs]
  · exact hr.trans (List.sublist_append_left _ _)
  · show (gone ++ c.flight.take k).Perm (c.received ++ (c.lost ++ c.flight.take k))
    rw [← List.append_assoc]
    exact hp.append_right _

theorem fifo_move {c d : Channel α} (h : c.Fifo) (hm : c.Move d) : d.Fifo := by
  cases hm with
  | idle => exact h
  | send xs => exact fifo_send h xs
  | receive k => exact fifo_receive h k
  | lose k => exact fifo_lose h k

/-- **Order.** What is received is a subsequence of what was sent. -/
theorem Fifo.sublist {c : Channel α} (h : c.Fifo) : c.received.Sublist c.sent := by
  obtain ⟨gone, hs, hr, _⟩ := h
  rw [hs]
  exact hr.trans (List.sublist_append_left _ _)

/-- **Accounting.** Every item sent is received, lost or in flight, once. -/
theorem Fifo.perm {c : Channel α} (h : c.Fifo) :
    c.sent.Perm (c.received ++ c.lost ++ c.flight) := by
  obtain ⟨gone, hs, _, hp⟩ := h
  rw [hs]
  exact hp.append_right _

/-- **No loss.** A channel that has lost nothing has delivered, in order, all
that is not in flight. -/
theorem Fifo.lossless {c : Channel α} (h : c.Fifo) (hl : c.lost = []) :
    c.received ++ c.flight = c.sent := by
  obtain ⟨gone, hs, hr, hp⟩ := h
  rw [hl, List.append_nil] at hp
  rw [hs, hr.eq_of_length hp.length_eq.symm]

/-- An item given up was not received, in a channel whose items are distinct. -/
theorem Fifo.not_received_of_lost {c : Channel α} (h : c.Fifo) (hd : c.sent.Nodup)
    {x : α} (hx : x ∈ c.lost) : x ∉ c.received := by
  have hn : (c.received ++ c.lost ++ c.flight).Nodup := h.perm.nodup_iff.mp hd
  have hn' := (List.nodup_append.mp hn).1
  intro hr
  exact (List.nodup_append.mp hn').2.2 x hr x hx rfl

end Channel
