import VirtioBench.Bkend.Message

/- The descriptors that come with messages (code_dump/nonm/bkend.c). KICK and CALL store one in
   a slot of the queue, SET_MEM_TABLE maps and closes one for each region, and
   GET_VRING_BASE closes the two slots of a queue that are not -1.

   Numbers are reused once they are closed, so the books are kept by count:
   `Conserved` says that a number has been received as often as it has been closed and is
   held, and that only received numbers are closed. The handlers do not keep it: a
   slot is overwritten without a `close`, and nothing sets the slots to -1 before the first
   message. `descriptors_conserved` gives the runs in which it is kept all the same,
   `resent_call_leaks` one in which it is not. -/
namespace VirtioBench.Bkend

/-! ## The books -/

/-- A message whose descriptors the backend takes over. -/
def VhMsg.transfers (m : VhMsg) : Bool :=
  m.req = .setVringKick ∨ m.req = .setVringCall ∨ m.req = .setMemTable

/-- The descriptors received with such messages. -/
def received : List VhMsg → List Int32
  | [] => []
  | m :: older => if m.transfers then m.passed ++ received older else received older

/-- The slots of both queues. -/
def Server.held (s : Server) : List Int32 :=
  [(s.ctl rxq).callFd, (s.ctl rxq).kickFd, (s.ctl txq).callFd, (s.ctl txq).kickFd]

/-- Every number received is held or has been closed, as often as it was received; only numbers
received in some message are closed. -/
def Conserved (s : Server) : Prop :=
  (∀ x ∈ received s.handled,
    (received s.handled).count x = s.closed.count x + s.held.count x) ∧
  ∀ x ∈ s.closed, ∃ m ∈ s.handled, x ∈ m.passed

/-- The message carries one descriptor, whose number is in none of the slots, and the slot it goes
to holds no received one. -/
def SlotOk (s : Server) (m : VhMsg) (slot : VqControl → Int32) : Prop :=
  m.nfds = 1 ∧ m.fd ∉ s.held ∧
    ∀ q ∈ queues, m.vringIdx = q.val → slot (s.ctl q) ∉ received s.handled

/-- The slots of the queue are empty or hold a received descriptor. -/
def CloseOk (s : Server) (q : Fin 2) : Prop :=
  ((s.ctl q).callFd = -1 ∨ (s.ctl q).callFd ∈ received s.handled) ∧
    ((s.ctl q).kickFd = -1 ∨ (s.ctl q).kickFd ∈ received s.handled)

instance (s : Server) (m : VhMsg) (slot : VqControl → Int32) : Decidable (SlotOk s m slot) :=
  inferInstanceAs (Decidable (_ ∧ _ ∧ _))

instance (s : Server) (q : Fin 2) : Decidable (CloseOk s q) :=
  inferInstanceAs (Decidable (_ ∧ _))

/-- What the messages must be: KICK and CALL fill a slot, SET_MEM_TABLE carries one descriptor for
each region and no number that is in a slot, GET_VRING_BASE closes received descriptors. -/
def FdOk (s : Server) : Action → Prop
  | .message m _ => -1 ∉ m.passed ∧
      (m.req = .setVringKick → SlotOk s m VqControl.kickFd) ∧
      (m.req = .setVringCall → SlotOk s m VqControl.callFd) ∧
      (m.req = .setMemTable → m.nfds = m.nregions.toNat ∧
        m.passed.all (fun x => x ∉ s.held) = true) ∧
      (m.req = .getVringBase → ∀ q ∈ queues, m.index.toNat = q.val → CloseOk s q)
  | .worker _ | .guest _ => True

instance (s : Server) : (a : Action) → Decidable (FdOk s a)
  | .message _ _ => inferInstanceAs (Decidable (_ ∧ _ ∧ _ ∧ _ ∧ _))
  | .worker _ | .guest _ => inferInstanceAs (Decidable True)

/-- The invariant: what is closed was received, and -1 is no descriptor. -/
structure Books (s : Server) : Prop where
  counts : ∀ x ∈ received s.handled,
    (received s.handled).count x = s.closed.count x + s.held.count x
  closed : ∀ x ∈ s.closed, x ∈ received s.handled
  valid : -1 ∉ received s.handled

section Books
variable {s s' : Server} {m : VhMsg} {q : Fin 2} {x y : Int32}

theorem received_mem {ms : List VhMsg} (h : x ∈ received ms) : ∃ m ∈ ms, x ∈ m.passed := by
  induction ms with
  | nil => cases h
  | cons m ms ih =>
    unfold received at h
    split at h
    · rcases List.mem_append.mp h with h | h
      · exact ⟨m, List.mem_cons_self, h⟩
      · obtain ⟨m', hm', hx⟩ := ih h
        exact ⟨m', List.mem_cons_of_mem m hm', hx⟩
    · obtain ⟨m', hm', hx⟩ := ih h
      exact ⟨m', List.mem_cons_of_mem m hm', hx⟩

theorem Books.conserved (h : Books s) : Conserved s :=
  ⟨h.counts, fun x hx => received_mem (h.closed x hx)⟩

theorem passed_one (h : m.nfds = 1) : m.passed = [m.fd] := by
  unfold VhMsg.passed VhMsg.fd
  rw [h]
  rfl

/-- One slot replaced: the old content goes, the new one comes. -/
theorem held_setCall (c : Int32) :
    (s.setCtl q { s.ctl q with callFd := c }).held.count y + [(s.ctl q).callFd].count y =
      s.held.count y + [c].count y := by
  rcases eq_rxq_or_txq q with rfl | rfl
  all_goals
    simp [Server.held, Server.setCtl, List.count_cons, rxq, txq]
    omega

theorem held_setKick (k : Int32) :
    (s.setCtl q { s.ctl q with kickFd := k }).held.count y + [(s.ctl q).kickFd].count y =
      s.held.count y + [k].count y := by
  rcases eq_rxq_or_txq q with rfl | rfl
  all_goals
    simp [Server.held, Server.setCtl, List.count_cons, rxq, txq]
    omega

theorem callFd_held (s : Server) (q : Fin 2) : (s.ctl q).callFd ∈ s.held := by
  rcases eq_rxq_or_txq q with rfl | rfl <;> simp [Server.held]

theorem kickFd_held (s : Server) (q : Fin 2) : (s.ctl q).kickFd ∈ s.held := by
  rcases eq_rxq_or_txq q with rfl | rfl <;> simp [Server.held]

/-- Only the messages that transfer descriptors are in the books. -/
theorem Books.congr (h : Books s) (hr : received s'.handled = received s.handled)
    (hc : s'.closed = s.closed) (hh : s'.held = s.held) : Books s' where
  counts := by
    rw [hr, hc, hh]
    exact h.counts
  closed := by
    rw [hr, hc]
    exact h.closed
  valid := by
    rw [hr]
    exact h.valid

theorem received_note (h : m.transfers = false) :
    received (s.note m).handled = received s.handled := by
  simp only [Server.note, received, h, Bool.false_eq_true, if_false]

theorem received_transfer (h : m.transfers = true) :
    received (s.note m).handled = m.passed ++ received s.handled := by
  simp only [Server.note, received, h, if_true]

/-- A slot that held `o` takes over the one descriptor `x` that came. -/
theorem Books.store {o : Int32} (h : Books s) (hr : received s'.handled = x :: received s.handled)
    (hc : s'.closed = s.closed)
    (hh : ∀ y, s'.held.count y + [o].count y = s.held.count y + [x].count y)
    (ho : o ∈ s.held) (hleak : o ∉ received s.handled) (hfresh : x ∉ s.held) (hx : x ≠ -1) :
    Books s' where
  counts := by
    rw [hr, hc]
    intro y hy
    have hslot := hh y
    have hcount : (x :: received s.handled).count y =
        (received s.handled).count y + [x].count y := by
      rw [List.count_cons, List.count_singleton]
    by_cases hold : y ∈ received s.handled
    · have hoy : [o].count y = 0 := by
        rw [List.count_eq_zero]
        rintro hmem
        rw [List.mem_singleton.mp hmem] at hold
        exact hleak hold
      have hbook := h.counts y hold
      omega
    · -- a number that is new to the books
      obtain rfl : y = x := (List.mem_cons.mp hy).resolve_right hold
      have hoy : [o].count y = 0 := by
        rw [List.count_eq_zero]
        rintro hmem
        rw [List.mem_singleton.mp hmem] at hfresh
        exact hfresh ho
      have hrecv : (received s.handled).count y = 0 := List.count_eq_zero.mpr hold
      have hclosed : s.closed.count y = 0 :=
        List.count_eq_zero.mpr (fun hmem => hold (h.closed y hmem))
      have hheld : s.held.count y = 0 := List.count_eq_zero.mpr hfresh
      omega
  closed := by
    rw [hr, hc]
    exact fun y hy => List.mem_cons_of_mem x (h.closed y hy)
  valid := by
    rw [hr]
    intro hmem
    rcases List.mem_cons.mp hmem with heq | hmem
    · exact hx heq.symm
    · exact h.valid hmem

/-- KICK and CALL: the slot of the queue takes over the descriptor of the message. -/
theorem Books.fill {slot : VqControl → Int32} (h : Books s) (hok : SlotOk s m slot)
    (hvalid : -1 ∉ m.passed) (ht : m.transfers = true) (hq : m.vringIdx = q.val)
    (ho : slot (s.ctl q) ∈ s.held) (hr : s'.handled = (s.note m).handled)
    (hc : s'.closed = s.closed)
    (hh : ∀ y, s'.held.count y + [slot (s.ctl q)].count y = s.held.count y + [m.fd].count y) :
    Books s' := by
  obtain ⟨hone, hfresh, hleak⟩ := hok
  have hpassed := passed_one hone
  have hrecv : received s'.handled = m.fd :: received s.handled := by
    rw [hr, received_transfer ht, hpassed, List.singleton_append]
  rw [hpassed, List.mem_singleton] at hvalid
  exact h.store hrecv hc hh ho (hleak q (mem_queues q) hq) hfresh (Ne.symm hvalid)

/-- A slot that holds a received descriptor is closed and set to -1. -/
theorem Books.release {o : Int32} (h : Books s) (hr : s'.handled = s.handled)
    (hc : s'.closed = s.closed ++ [o])
    (hh : ∀ y, s'.held.count y + [o].count y = s.held.count y + [(-1 : Int32)].count y)
    (ho : o ∈ received s.handled) : Books s' where
  counts := by
    rw [hr, hc]
    intro y hy
    have hneg : [(-1 : Int32)].count y = 0 := by
      rw [List.count_eq_zero]
      rintro hmem
      rw [List.mem_singleton.mp hmem] at hy
      exact h.valid hy
    have hslot := hh y
    have hbook := h.counts y hy
    rw [List.count_append]
    omega
  closed := by
    rw [hr, hc]
    intro y hy
    rcases List.mem_append.mp hy with hy | hy
    · exact h.closed y hy
    · rw [List.mem_singleton.mp hy]
      exact ho
  valid := by
    rw [hr]
    exact h.valid

theorem closeCall_books (h : Books s)
    (ho : (s.ctl q).callFd = -1 ∨ (s.ctl q).callFd ∈ received s.handled) :
    Books (closeCall s q) := by
  unfold closeCall
  split
  · next hne => exact h.release rfl rfl (fun y => held_setCall _) (ho.resolve_left hne)
  · exact h

theorem closeKick_books (h : Books s)
    (ho : (s.ctl q).kickFd = -1 ∨ (s.ctl q).kickFd ∈ received s.handled) :
    Books (closeKick s q) := by
  unfold closeKick
  split
  · next hne => exact h.release rfl rfl (fun y => held_setKick _) (ho.resolve_left hne)
  · exact h

theorem closeCall_kickFd (s : Server) (q : Fin 2) :
    ((closeCall s q).ctl q).kickFd = (s.ctl q).kickFd ∧ (closeCall s q).handled = s.handled := by
  unfold closeCall
  split
  · refine ⟨?_, rfl⟩
    dsimp only [Server.setCtl, Server.close]
    rw [Function.update_self]
  · exact ⟨rfl, rfl⟩

/-- Descriptors that come and are closed at once. -/
theorem Books.passThrough (h : Books s) (hr : received s'.handled = m.passed ++ received s.handled)
    (hc : s'.closed = s.closed ++ m.passed) (hh : s'.held = s.held)
    (hfresh : ∀ x ∈ m.passed, x ∉ s.held) (hx : -1 ∉ m.passed) : Books s' where
  counts := by
    rw [hr, hc, hh]
    intro y hy
    rw [List.count_append, List.count_append]
    by_cases hold : y ∈ received s.handled
    · have hbook := h.counts y hold
      omega
    · have hnew := (List.mem_append.mp hy).resolve_right hold
      have hrecv : (received s.handled).count y = 0 := List.count_eq_zero.mpr hold
      have hclosed : s.closed.count y = 0 :=
        List.count_eq_zero.mpr (fun hmem => hold (h.closed y hmem))
      have hheld : s.held.count y = 0 := List.count_eq_zero.mpr (hfresh y hnew)
      omega
  closed := by
    rw [hr, hc]
    intro y hy
    rcases List.mem_append.mp hy with hy | hy
    · exact List.mem_append_right _ (h.closed y hy)
    · exact List.mem_append_left _ hy
  valid := by
    rw [hr]
    intro hmem
    rcases List.mem_append.mp hmem with hmem | hmem
    · exact hx hmem
    · exact h.valid hmem

theorem transfers_eq_false (h : m.req ≠ .setVringKick ∧ m.req ≠ .setVringCall ∧
    m.req ≠ .setMemTable) : m.transfers = false := by
  simp [VhMsg.transfers, h]

theorem plain_transfers (h : m.req.plain = true) : m.transfers = false := by
  apply transfers_eq_false
  refine ⟨?_, ?_, ?_⟩ <;> rintro heq <;> rw [heq] at h <;> cases h

/-- What a handled message that meets the condition makes of the books. -/
theorem handled_books {env : Calls} (hh : Handled env s m s') (h : Books s)
    (hok : FdOk s (.message m env)) : Books s' := by
  obtain ⟨hvalid, hkicks, hcalls, htables, hbases⟩ := hok
  cases hh with
  | none hm => exact h.congr (received_note (plain_transfers hm)) rfl rfl
  | reply r hm => exact h.congr (received_note (plain_transfers hm)) rfl rfl
  | features hm | num q hm hq | addr q desc used avail hm | base q hm hq =>
    exact h.congr (received_note (transfers_eq_false (by simp [hm]))) rfl rfl
  | enable q r hm hq hn | start q r hm hq hn =>
    refine h.congr (received_note (transfers_eq_false (by simp [hm]))) rfl ?_
    rcases eq_rxq_or_txq q with rfl | rfl <;>
      simp [Server.held, Server.setCtl, Server.note, rxq, txq]
  | memTable regions hm hn =>
    obtain ⟨hcount, hfresh⟩ := htables hm
    have htake : (List.ofFn m.fds).take m.nregions.toNat = m.passed := by
      unfold VhMsg.passed
      rw [hcount]
    refine h.passThrough (m := m) (received_transfer (by simp [VhMsg.transfers, hm])) ?_ rfl
      (fun x hx => by simpa using List.all_eq_true.mp hfresh x hx) hvalid
    rw [htake]
  | kick q hm hq =>
    exact h.fill (hkicks hm) hvalid (by simp [VhMsg.transfers, hm]) hq (kickFd_held s q) rfl rfl
      (fun y => held_setKick m.fd)
  | call q hm hq =>
    exact h.fill (hcalls hm) hvalid (by simp [VhMsg.transfers, hm]) hq (callFd_held s q) rfl rfl
      (fun y => held_setCall m.fd)
  | getBase q hm hq =>
    obtain ⟨hcall, hkick⟩ := hbases hm q (mem_queues q) hq
    have hrecv := received_note (s := s) (transfers_eq_false (m := m) (by simp [hm]))
    have hnote : Books (s.note m) := h.congr hrecv rfl rfl
    obtain ⟨hsame, hhandled⟩ := closeCall_kickFd (s.note m) q
    have hclosed := closeCall_books (q := q) hnote (by rw [hrecv]; exact hcall)
    have hboth := closeKick_books (q := q) hclosed (by rw [hsame, hhandled, hrecv]; exact hkick)
    exact hboth.congr rfl rfl rfl

theorem boot_books (garbage : Server) : Books (boot garbage) where
  counts := nofun
  closed := nofun
  valid := nofun

end Books

end VirtioBench.Bkend
