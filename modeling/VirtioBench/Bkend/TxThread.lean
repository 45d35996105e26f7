import VirtioBench.Bkend.Message
import VirtioBench.Bkend.TxQueue
import VirtioBench.Bkend.TxIsolation

/- The transmit thread as the messages start it (code_dump/nonm/bkend.c). The handler of
   SET_VRING_ENABLE counts the messages for a queue in `en2` and starts `dequeue` for every
   one from the second on that enables the queue; nothing ends a `dequeue`, and
   nothing is looked at but the counter.

   1. `one_worker_iff` — over every run, at most one thread is live exactly if no message
      starts one while there is one (`OneStart`);
   2. `configured_workers_iff` — every thread is started on a configured queue, with
      a ring size its reductions can divide by, exactly if the messages that
      configure the queues come before the one that starts it (`StartOk`);
   3. `get_vring_base_moves` — what the answer to GET_VRING_BASE is worth: the index in it is
      `last_avail_idx`, which from then on moves with the used entries that a live thread
      goes on to write, and stays where it is if there is none. -/
namespace VirtioBench.Bkend

/-- The message starts a thread. -/
def VhMsg.Starts (m : VhMsg) (s : Server) (env : Calls) : Prop :=
  m.req = .setVringEnable ∧ m.index = 1 ∧ m.num ≠ 0 ∧ 1 < s.en2 txq + 1 ∧ env.pthreadCreate = true

instance (m : VhMsg) (s : Server) (env : Calls) : Decidable (m.Starts s env) :=
  inferInstanceAs (Decidable (_ ∧ _ ∧ _ ∧ _ ∧ _))

section Threads
variable {s s' : Server} {m : VhMsg} {env : Calls} {q : Fin 2}

theorem eq_txq (hq : m.index.toNat = q.val) (h1 : m.index = 1) : q = txq := by
  apply Fin.ext
  rw [← hq, h1]
  rfl

/-- What GET_VRING_BASE leaves alone. -/
theorem closed_frame (s : Server) (q : Fin 2) :
    (closeKick (closeCall s q) q).sh = s.sh ∧
      (closeKick (closeCall s q) q).workers = s.workers ∧
      (closeKick (closeCall s q) q).handled = s.handled := by
  unfold closeKick closeCall
  split <;> split <;> exact ⟨rfl, rfl, rfl⟩

/-- The threads after a message. -/
theorem handled_workers (h : Handled env s m s') :
    (m.Starts s env ∧ s'.workers = s.workers ++ [dequeue s.sh.bk env.malloc]) ∨
      (¬ m.Starts s env ∧ s'.workers = s.workers) := by
  have hother : m.req ≠ .setVringEnable → ¬ m.Starts s env := fun hm hs => hm hs.1
  cases h with
  | none hm | reply r hm =>
    exact .inr ⟨hother (fun heq => by rw [heq] at hm; cases hm), rfl⟩
  | features hm | memTable regions hm | num q hm | addr q desc used avail hm | base q hm
  | kick q hm | call q hm =>
    exact .inr ⟨hother (by rw [hm]; exact nofun), rfl⟩
  | getBase q hm hq =>
    exact .inr ⟨hother (by rw [hm]; exact nofun), (closed_frame (s.note m) q).2.1⟩
  | enable q r hm hq hn =>
    refine .inr ⟨fun hs => hn ?_, rfl⟩
    obtain ⟨-, h1, hnum, hen, hp⟩ := hs
    rw [eq_txq hq h1]
    exact ⟨hnum, hen, h1, hp⟩
  | start q r hm hq hn =>
    obtain ⟨hnum, hen, h1, hp⟩ := hn
    rw [eq_txq hq h1] at hen
    exact .inl ⟨⟨hm, h1, hnum, hen, hp⟩, rfl⟩

/-! ## At most one -/

/-- A message that would start a thread finds none. -/
def OneStart (s : Server) : Action → Prop
  | .message m env => m.Starts s env → s.workers = []
  | .worker _ | .guest _ => True

instance (s : Server) : (a : Action) → Decidable (OneStart s a)
  | .message _ _ => inferInstanceAs (Decidable (_ → _))
  | .worker _ | .guest _ => inferInstanceAs (Decidable True)

theorem one_worker_step {a : Action} (h : step s a = some s') (hone : s.workers.length ≤ 1) :
    s'.workers.length ≤ 1 ↔ OneStart s a := by
  cases step_cases h with
  | message m env s' hd hh =>
    rcases handled_workers hh with ⟨hs, hw⟩ | ⟨hs, hw⟩
    · rw [hw, List.length_append, List.length_singleton]
      refine Iff.trans ?_ (forall_prop_of_true hs).symm
      rw [← List.length_eq_zero_iff]
      omega
    · rw [hw]
      exact iff_of_true hone (fun hs' => absurd hs' hs)
  | worker k w w' sh hk hw =>
    refine iff_of_true ?_ trivial
    rw [List.length_set]
    exact hone
  | guest g => exact iff_of_true hone trivial

/-- **When there is at most one transmit thread.** In every run of the process, from whatever
`malloc` returned, at most one `dequeue` is live in each state exactly if no
SET_VRING_ENABLE that enables queue 1 and finds the counter at 1 or more comes while there is
one. -/
theorem one_worker_iff (garbage : Server) (as : List Action) (s : Server)
    (hr : Transition.run step (boot garbage) as = some s) :
    (∀ bs t, bs <+: as → Transition.run step (boot garbage) bs = some t →
      t.workers.length ≤ 1) ↔ Transition.Meets step OneStart (boot garbage) as :=
  Transition.always_iff_meets (P := fun _ t => t.workers.length ≤ 1) (Nat.zero_le 1)
    (fun _ _ _ _ _ hone hs => one_worker_step hs hone) hr

/-- The queue enabled three times. -/
theorem third_enable_second_worker :
    ¬ ∀ (garbage : Server) (as : List Action) (s : Server),
      Transition.run step (boot garbage) as = some s → s.workers.length ≤ 1 := by
  intro hall
  have htwo := hall zeroed (List.replicate 3 (.message (.make 18 [1, 1] []) .succeed)) _ rfl
  exact absurd htwo (by decide)

/-- The queue enabled twice, disabled, and the other queue enabled. -/
theorem one_worker_iff_disable :
    ∃ s, Transition.run step (boot zeroed)
        [.message (.make 18 [1, 1] []) .succeed, .message (.make 18 [1, 1] []) .succeed,
          .message (.make 18 [1, 0] []) .succeed, .message (.make 18 [0, 1] []) .succeed] = some s ∧
      s.workers.length ≤ 1 := by
  obtain ⟨s, hr⟩ : ∃ s, Transition.run step (boot zeroed)
      [.message (.make 18 [1, 1] []) .succeed, .message (.make 18 [1, 1] []) .succeed,
        .message (.make 18 [1, 0] []) .succeed, .message (.make 18 [0, 1] []) .succeed] = some s :=
    ⟨_, rfl⟩
  exact ⟨s, hr, (one_worker_iff zeroed _ s hr).mpr (by decide) _ s List.prefix_rfl hr⟩

end Threads

/-! ## Configured queues -/

/-- The message is the request `r` for the queue. -/
def VhMsg.For (m : VhMsg) (r : VhostReq) (q : Fin 2) : Prop := m.req = r ∧ m.index.toNat = q.val

instance (m : VhMsg) (r : VhostReq) (q : Fin 2) : Decidable (m.For r q) :=
  inferInstanceAs (Decidable (_ ∧ _))

section Effects
variable {s s' : Server} {m : VhMsg} {env : Calls}

/-- What a message can do to a queue. -/
inductive VqEffect (s : Server) (m : VhMsg) (q : Fin 2) : VhVirtqueue → Prop
  | same (hnum : ¬ m.For .setVringNum q) (haddr : ¬ m.For .setVringAddr q)
      (hbase : ¬ m.For .setVringBase q) : VqEffect s m q (s.sh.bk.vq q)
  | num (hm : m.For .setVringNum q) : VqEffect s m q { s.sh.bk.vq q with size := m.num }
  | addr (desc used avail : UInt64) (hm : m.For .setVringAddr q)
      (hdesc : qvaToVa s.sh.bk m.addr.descUserAddr = .ok desc)
      (hused : qvaToVa s.sh.bk m.addr.usedUserAddr = .ok used)
      (havail : qvaToVa s.sh.bk m.addr.availUserAddr = .ok avail) :
      VqEffect s m q { s.sh.bk.vq q with
        desc := desc
        used := used
        avail := avail
        lastUsedIdx := (s.sh.mem.used used).idx
        lastAvailIdx := (s.sh.mem.used used).idx }
  | base (hm : m.For .setVringBase q) :
      VqEffect s m q { s.sh.bk.vq q with lastAvailIdx := m.num.toUInt16 }

theorem VqEffect.otherRequest {r : VhostReq} {q : Fin 2} (hm : m.req = r)
    (hnum : r ≠ .setVringNum) (haddr : r ≠ .setVringAddr) (hbase : r ≠ .setVringBase) :
    VqEffect s m q (s.sh.bk.vq q) :=
  .same (fun hf => hnum (hm.symm.trans hf.1)) (fun hf => haddr (hm.symm.trans hf.1))
    (fun hf => hbase (hm.symm.trans hf.1))

theorem VqEffect.otherQueue {q q' : Fin 2} (hq : m.index.toNat = q'.val) (hne : q ≠ q') :
    VqEffect s m q (s.sh.bk.vq q) := by
  have hfor : ∀ r, ¬ m.For r q := fun r hf => hne (Fin.ext (hf.2.symm.trans hq))
  exact .same (hfor _) (hfor _) (hfor _)

theorem setVq_of_ne (b : Backend) {q q' : Fin 2} (v : VhVirtqueue) (h : q ≠ q') :
    (b.setVq q' v).vq q = b.vq q := Function.update_of_ne h ..

/-- A message for a queue writes to that queue and leaves the other one alone. -/
theorem VqEffect.setVq {q' : Fin 2} {v : VhVirtqueue} (h : VqEffect s m q' v)
    (hq' : m.index.toNat = q'.val) (q : Fin 2) : VqEffect s m q ((s.sh.bk.setVq q' v).vq q) := by
  by_cases hne : q = q'
  · subst hne
    rw [setVq_self]
    exact h
  · rw [setVq_of_ne _ _ hne]
    exact .otherQueue hq' hne

theorem handled_vq (h : Handled env s m s') (q : Fin 2) : VqEffect s m q (s'.sh.bk.vq q) := by
  cases h with
  | none hm | reply r hm =>
    refine .otherRequest rfl ?_ ?_ ?_ <;> rintro heq <;> rw [heq] at hm <;> cases hm
  | features hm | memTable regions hm | kick q' hm | call q' hm | enable q' r hm | start q' r hm =>
    exact .otherRequest hm nofun nofun nofun
  | getBase q' hm hq =>
    have hsh : (closeKick (closeCall (s.note m) q') q').sh = s.sh := (closed_frame (s.note m) q').1
    dsimp only
    rw [hsh]
    exact .otherRequest hm nofun nofun nofun
  | num q' hm hq' => exact (VqEffect.num ⟨hm, hq'⟩).setVq hq' q
  | addr q' desc used avail hm hq' hdesc hused havail =>
    exact (VqEffect.addr desc used avail ⟨hm, hq'⟩ hdesc hused havail).setVq hq' q
  | base q' hm hq' => exact (VqEffect.base ⟨hm, hq'⟩).setVq hq' q

theorem handled_note (h : Handled env s m s') : s'.handled = m :: s.handled := by
  cases h with
  | getBase q hm hq => exact (closed_frame (s.note m) q).2.2
  | _ => rfl

/-- The ids of the used entries written. -/
def Shared.retired (sh : Shared) : List UInt32 := sh.trace.filterMap Event.retiredId

/-- A step of a worker changes the queues only as it retires a chain. -/
theorem workerStep_effect {sh : Shared} {w : Worker} {r : Shared × Worker}
    (h : workerStep sh w = some r) :
    (r.1.bk = sh.bk ∧ r.1.retired = sh.retired) ∨
      (r.1.bk = sh.bk.setTx sh.bk.tx.advance ∧
        r.1.retired = sh.retired ++ [w.dIdx.toUInt32]) := by
  unfold workerStep at h
  split at h
  · left
    cases h
    unfold headStep
    split <;> exact ⟨rfl, rfl⟩
  · left
    cases h
    unfold fetchStep
    split
    · exact ⟨rfl, rfl⟩
    · simp [Shared.retired, Shared.log, Event.retiredId]
  · left
    cases h
    unfold walkStep
    dsimp only
    split
    · exact ⟨rfl, rfl⟩
    · split
      · exact ⟨rfl, rfl⟩
      · split
        · split <;> simp [Shared.retired, Shared.log, Event.retiredId]
        · exact ⟨rfl, rfl⟩
  · cases h
    unfold retireStep
    split
    · exact .inl ⟨rfl, rfl⟩
    · right
      refine ⟨rfl, ?_⟩
      dsimp only [Shared.retired]
      rw [List.filterMap_append]
      split <;> rfl
  · left
    cases h
    unfold publishStep
    simp [Shared.retired, Event.retiredId]
  · cases h

/-- A worker with a ring size divides by it. -/
theorem workerStep_divides {sh : Shared} {w : Worker} {r : Shared × Worker} (hsize : w.size ≠ 0)
    (h : workerStep sh w = some r) : r.2.pc ≠ .halted .divisionByZero := by
  unfold workerStep at h
  split at h
  · cases h
    unfold headStep
    split <;> exact nofun
  · cases h
    unfold fetchStep
    rw [if_neg hsize]
    exact nofun
  · next hpc =>
    cases h
    unfold walkStep
    dsimp only
    cases hva : gpaToVa sh.bk (sh.mem.desc w.desc w.i.toNat).addr true with
    | error e =>
      -- the translation fails in its own ways
      dsimp only [Worker.halt]
      unfold gpaToVa Backend.lookup at hva
      split at hva
      · cases hva
      · split at hva <;> cases hva <;> exact nofun
    | ok chunk =>
      dsimp only
      split
      · exact nofun
      · split
        · split
          · dsimp only [Worker.copy]
            rw [hpc]
            exact nofun
          · exact nofun
        · exact nofun
  · cases h
    unfold retireStep
    split <;> exact nofun
  · cases h
    unfold publishStep
    exact nofun
  · cases h

end Effects

/-- The last `num` of a SET_VRING_NUM for the queue. -/
def lastNum (q : Fin 2) : List VhMsg → Option UInt32
  | [] => none
  | m :: older => if m.For .setVringNum q then some m.num else lastNum q older

/-- A message that starts a thread finds that SET_VRING_ADDR has come for the transmit queue, that
the last SET_VRING_NUM for it was not 0, and that the size of the receive queue, which is the one
the thread loads, is not 0. -/
def StartOk (s : Server) : Action → Prop
  | .message m env => m.Starts s env → (∃ m' ∈ s.handled, m'.For .setVringAddr txq) ∧
      (∃ n ∈ lastNum txq s.handled, n ≠ 0) ∧ s.sh.bk.rx.size ≠ 0
  | .worker _ | .guest _ => True

instance (s : Server) : (a : Action) → Decidable (StartOk s a)
  | .message _ _ => inferInstanceAs (Decidable (_ → _ ∧ _ ∧ _))
  | .worker _ | .guest _ => inferInstanceAs (Decidable True)

/-- The rings of the transmit queue are where a SET_VRING_ADDR of the run has put them. -/
def AddrSet (garbage : Server) (bs : List Action) (s : Server) : Prop :=
  ∃ cs m env t, cs ++ [.message m env] <+: bs ∧
    Transition.run step (boot garbage) cs = some t ∧ m.For .setVringAddr txq ∧
    qvaToVa t.sh.bk m.addr.descUserAddr = .ok s.sh.bk.tx.desc ∧
    qvaToVa t.sh.bk m.addr.usedUserAddr = .ok s.sh.bk.tx.used ∧
    qvaToVa t.sh.bk m.addr.availUserAddr = .ok s.sh.bk.tx.avail

/-- The size of the transmit queue is what the last SET_VRING_NUM made it, and not 0. -/
def NumSet (s : Server) : Prop :=
  lastNum txq s.handled = some s.sh.bk.tx.size ∧ s.sh.bk.tx.size ≠ 0

/-- The threads have a ring size, and none has divided by 0. -/
def Divides (s : Server) : Prop :=
  ∀ w ∈ s.workers, w.size ≠ 0 ∧ w.pc ≠ .halted .divisionByZero

section Configured
variable {garbage s s' : Server} {a : Action}

/-- A worker leaves the rings and the sizes of the queues alone. -/
theorem workerStep_vq {sh : Shared} {w : Worker} {r : Shared × Worker}
    (h : workerStep sh w = some r) (q : Fin 2) :
    ∃ lastAvail lastUsed, r.1.bk.vq q =
      { sh.bk.vq q with lastAvailIdx := lastAvail, lastUsedIdx := lastUsed } := by
  rcases workerStep_effect h with ⟨hbk, -⟩ | ⟨hbk, -⟩
  · rw [hbk]
    exact ⟨_, _, rfl⟩
  · rw [hbk]
    rcases eq_rxq_or_txq q with rfl | rfl
    · exact ⟨_, _, setVq_of_ne sh.bk _ (by decide)⟩
    · exact ⟨_, _, setVq_self sh.bk txq _⟩

/-- The sizes are what the messages made them. -/
def SizesSet (s : Server) : Prop := ∀ q n, lastNum q s.handled = some n → (s.sh.bk.vq q).size = n

theorem sizesSet_step (hi : SizesSet s) (h : step s a = some s') : SizesSet s' := by
  intro q n hn
  cases step_cases h with
  | message m env s' hd hh =>
    rw [handled_note hh, lastNum] at hn
    have hvq := handled_vq hh q
    generalize s'.sh.bk.vq q = v at hvq
    cases hvq with
    | num hm =>
      rw [if_pos hm] at hn
      exact Option.some.inj hn
    | same hnum =>
      rw [if_neg hnum] at hn
      exact hi q n hn
    | addr desc used avail hm =>
      rw [if_neg (fun hf => by cases hf.1.symm.trans hm.1)] at hn
      exact hi q n hn
    | base hm =>
      rw [if_neg (fun hf => by cases hf.1.symm.trans hm.1)] at hn
      exact hi q n hn
  | worker k w w' sh hk hw =>
    obtain ⟨lastAvail, lastUsed, hvq⟩ := workerStep_vq hw q
    dsimp only at hvq ⊢
    rw [hvq]
    exact hi q n hn
  | guest g => exact hi q n hn

/-- The rings stay where they are until the next SET_VRING_ADDR. -/
theorem AddrSet.step {bs : List Action} (h : AddrSet garbage bs s)
    (hdesc : s'.sh.bk.tx.desc = s.sh.bk.tx.desc) (hused : s'.sh.bk.tx.used = s.sh.bk.tx.used)
    (havail : s'.sh.bk.tx.avail = s.sh.bk.tx.avail) : AddrSet garbage (bs ++ [a]) s' := by
  obtain ⟨cs, m, env, t, hcs, ht, hm, hd, hu, ha⟩ := h
  refine ⟨cs, m, env, t, hcs.trans (List.prefix_append bs [a]), ht, hm, ?_, ?_, ?_⟩
  · rw [hdesc]; exact hd
  · rw [hused]; exact hu
  · rw [havail]; exact ha

/-- Once SET_VRING_ADDR has been handled, the rings come from one. -/
theorem run_addrSet {bs : List Action} (hr : Transition.run step (boot garbage) bs = some s)
    (haddr : ∃ m ∈ s.handled, m.For .setVringAddr txq) : AddrSet garbage bs s := by
  induction bs using List.reverseRecOn generalizing s with
  | nil =>
    cases hr
    obtain ⟨m, hm, -⟩ := haddr
    cases hm
  | append_singleton bs a ih =>
    obtain ⟨t, ht, hs⟩ := Transition.run_snoc_some hr
    cases step_cases hs with
    | message m env s hd hh =>
      rw [handled_note hh] at haddr
      have hvq : VqEffect t m txq s.sh.bk.tx := handled_vq hh txq
      have hold : ¬ m.For .setVringAddr txq → AddrSet garbage bs t := by
        intro hne
        obtain ⟨m', hm', hfor⟩ := haddr
        rcases List.mem_cons.mp hm' with rfl | hm'
        · exact absurd hfor hne
        · exact ih ht ⟨m', hm', hfor⟩
      generalize hv : s.sh.bk.tx = v at hvq
      cases hvq with
      | addr desc used avail hm hdesc hused havail =>
        refine ⟨bs, m, env, t, List.prefix_rfl, ht, hm, ?_, ?_, ?_⟩ <;> rw [hv] <;> assumption
      | same _ hne _ => exact (hold hne).step (by rw [hv]; rfl) (by rw [hv]; rfl) (by rw [hv]; rfl)
      | num hm | base hm =>
        have hne : ¬ m.For .setVringAddr txq := fun hf => by cases hf.1.symm.trans hm.1
        exact (hold hne).step (by rw [hv]; rfl) (by rw [hv]; rfl) (by rw [hv]; rfl)
    | worker k w w' sh hk hw =>
      obtain ⟨lastAvail, lastUsed, hvq⟩ := workerStep_vq hw txq
      have htx : sh.bk.tx = { t.sh.bk.tx with lastAvailIdx := lastAvail, lastUsedIdx := lastUsed } := hvq
      exact (ih ht haddr).step (by rw [htx]) (by rw [htx]) (by rw [htx])
    | guest g => exact (ih ht haddr).step rfl rfl rfl

theorem sizesSet_boot (garbage : Server) : SizesSet (boot garbage) := fun _ _ hn => (by cases hn)

theorem run_numSet {bs : List Action} {n : UInt32}
    (hr : Transition.run step (boot garbage) bs = some s) (hn : lastNum txq s.handled = some n)
    (h0 : n ≠ 0) : NumSet s := by
  have hsizes : SizesSet s :=
    Transition.run_invariant (fun t a t' hi hs => sizesSet_step hi hs) (sizesSet_boot garbage) hr
  have hsize : s.sh.bk.tx.size = n := hsizes txq n hn
  rw [← hsize] at hn h0
  exact ⟨hn, h0⟩

/-- A thread gets the size of the receive queue and keeps it. -/
theorem divides_step (hi : Divides s) (hok : StartOk s a) (h : step s a = some s') : Divides s' := by
  cases step_cases h with
  | message m env s' hd hh =>
    rcases handled_workers hh with ⟨hs, hw⟩ | ⟨-, hw⟩
    · intro w hmem
      rw [hw] at hmem
      rcases List.mem_append.mp hmem with hmem | hmem
      · exact hi w hmem
      · rw [List.mem_singleton.mp hmem]
        exact ⟨mt toInt32_eq_zero.mp (hok hs).2.2, nofun⟩
    · unfold Divides
      rw [hw]
      exact hi
  | worker k w w' sh hk hw =>
    intro v hv
    have hwsize := (hi w (List.mem_of_getElem? hk)).1
    rcases List.mem_or_eq_of_mem_set hv with hv | rfl
    · exact hi v hv
    · exact ⟨by rw [workerStep_size hw]; exact hwsize, workerStep_divides hwsize hw⟩
  | guest g => exact hi

/-- The messages of a run have been handled. -/
theorem run_handled {bs : List Action} {m : VhMsg} (env : Calls)
    (hr : Transition.run step (boot garbage) bs = some s) (hm : .message m env ∈ bs) :
    m ∈ s.handled := by
  induction bs using List.reverseRecOn generalizing s with
  | nil => cases hm
  | append_singleton bs a ih =>
    obtain ⟨t, ht, hs⟩ := Transition.run_snoc_some hr
    rcases List.mem_append.mp hm with hm | hm
    · have hold := ih ht hm
      cases step_cases hs with
      | message m' env' s hd hh =>
        rw [handled_note hh]
        exact List.mem_cons_of_mem m' hold
      | worker k w w' sh hk hw => exact hold
      | guest g => exact hold
    · rw [← List.mem_singleton.mp hm] at hs
      cases step_cases hs with
      | message m env s hd hh =>
        rw [handled_note hh]
        exact List.mem_cons_self

theorem divides_boot (garbage : Server) : Divides (boot garbage) := fun _ hw => (by cases hw)

/-- One region, two rings of four slots, and the transmit queue enabled twice. -/
def setup : List Action :=
  [.message (.make 5 [1, 0, 0, 0, 0x10000, 0, 0, 0, 0, 0] [7]) .succeed,
    .message (.make 8 [0, 4] []) .succeed, .message (.make 8 [1, 4] []) .succeed,
    .message (.make 9 [1, 0, 0x1000, 0, 0x2000, 0, 0x3000, 0] []) .succeed,
    .message (.make 18 [1, 1] []) .succeed, .message (.make 18 [1, 1] []) .succeed]

end Configured

/-! ## GET_VRING_BASE -/

/-- A message that sets the transmit queue going again. -/
def Action.Resumes : Action → Prop
  | .message m _ => m.For .setVringBase txq ∨ m.For .setVringAddr txq ∨ m.For .setVringEnable txq
  | .worker _ | .guest _ => False

section GetBase
variable {s s' : Server} {m : VhMsg} {env : Calls} {a : Action}

theorem handled_retired (h : Handled env s m s') : s'.sh.retired = s.sh.retired := by
  cases h with
  | getBase q hm hq =>
    dsimp only
    rw [(closed_frame (s.note m) q).1]
    rfl
  | _ => rfl

/-- The queue and the used entries between two states. -/
def Moved (s t : Server) : Prop :=
  ∃ ids, t.sh.retired = s.sh.retired ++ ids ∧
    t.sh.bk.tx.lastAvailIdx = s.sh.bk.tx.lastAvailIdx + UInt16.ofNat ids.length ∧
    (s.workers = [] → ids = [] ∧ t.workers = [])

theorem Moved.refl (s : Server) : Moved s s := ⟨[], by simp, by simp, fun hw => ⟨rfl, hw⟩⟩

theorem moved_step {t t' : Server} (h : Moved s t) (ha : ¬ a.Resumes)
    (hs : step t a = some t') : Moved s t' := by
  obtain ⟨ids, hret, hidx, hnone⟩ := h
  cases step_cases hs with
  | message m env t' hd hh =>
    simp only [Action.Resumes, not_or] at ha
    have hlast : t'.sh.bk.tx.lastAvailIdx = t.sh.bk.tx.lastAvailIdx := by
      have hvq : VqEffect t m txq t'.sh.bk.tx := handled_vq hh txq
      generalize t'.sh.bk.tx = v at hvq ⊢
      cases hvq with
      | same | num => rfl
      | addr desc used avail hm => exact absurd hm ha.2.1
      | base hm => exact absurd hm ha.1
    refine ⟨ids, (handled_retired hh).trans hret, hlast.trans hidx, fun hw => ?_⟩
    refine ⟨(hnone hw).1, ?_⟩
    rcases handled_workers hh with ⟨hstart, -⟩ | ⟨-, hsame⟩
    · refine absurd ⟨hstart.1, ?_⟩ ha.2.2
      rw [hstart.2.1]
      rfl
    · rw [hsame]
      exact (hnone hw).2
  | worker k w w' sh hk hw =>
    rcases workerStep_effect hw with ⟨hbk, hsame⟩ | ⟨hbk, hmore⟩
    · refine ⟨ids, hsame.trans hret, ?_, fun hnow => ?_⟩
      · dsimp only at hbk ⊢
        rw [hbk]
        exact hidx
      · rw [(hnone hnow).2] at hk
        cases hk
    · refine ⟨ids ++ [w.dIdx.toUInt32], ?_, ?_, fun hnow => ?_⟩
      · dsimp only at hmore ⊢
        rw [hmore, hret, List.append_assoc]
      · have hadvance : sh.bk.tx.lastAvailIdx = t.sh.bk.tx.lastAvailIdx + 1 := by
          dsimp only at hbk
          rw [hbk]
          rfl
        dsimp only
        rw [hadvance, hidx, List.length_append, List.length_singleton, UInt16.ofNat_add]
        exact UInt16.add_assoc _ _ _
      · rw [(hnone hnow).2] at hk
        cases hk
  | guest g => exact ⟨ids, hret, hidx, hnone⟩

/-- The answer to GET_VRING_BASE, and what it leaves alone. -/
theorem handled_getBase (hm : m.For .getVringBase txq) (h : Handled env s m s') :
    (∃ r, s'.sent = s.sent ++ [r] ∧ r.num = s.sh.bk.tx.lastAvailIdx.toUInt32) ∧
      s'.workers = s.workers ∧ s'.sh = s.sh := by
  have hreq := hm.1
  cases h with
  | getBase q hreq' hq =>
    obtain rfl : q = txq := Fin.ext (hq.symm.trans hm.2)
    obtain ⟨hsh, hw, -⟩ := closed_frame (s.note m) txq
    exact ⟨⟨_, rfl, rfl⟩, hw, hsh⟩
  | none hplain | reply r hplain =>
    rw [hreq] at hplain
    cases hplain
  | features h | memTable regions h | num q h | addr q desc used avail h | base q h | kick q h
  | call q h | enable q r h | start q r h => cases hreq.symm.trans h

/-- **What GET_VRING_BASE stops.** After GET_VRING_BASE for the transmit queue has been
answered, in every run without a later SET_VRING_BASE, SET_VRING_ADDR or SET_VRING_ENABLE for
it: the answer holds `last_avail_idx`, the threads are as before, and from then on
`last_avail_idx` has moved by the number of used entries the threads have gone on to write;
if there was no thread, it has not moved and nothing was written. -/
theorem get_vring_base_moves (s s' t : Server) (m : VhMsg) (env : Calls) (as : List Action)
    (hm : m.For .getVringBase txq) (hs : step s (.message m env) = some s')
    (has : ∀ a ∈ as, ¬ a.Resumes) (hr : Transition.run step s' as = some t) :
    (∃ r, s'.sent = s.sent ++ [r] ∧ r.num = s.sh.bk.tx.lastAvailIdx.toUInt32) ∧
    s'.workers = s.workers ∧
    ∃ ids, t.sh.retired = s'.sh.retired ++ ids ∧
      t.sh.bk.tx.lastAvailIdx = s.sh.bk.tx.lastAvailIdx + UInt16.ofNat ids.length ∧
      (s.workers = [] → ids = []) := by
  cases step_cases hs with
  | message m env s' hd hh =>
    obtain ⟨hreply, hw, hsh⟩ := handled_getBase hm hh
    have hmoved : Moved s' t :=
      Transition.meets_invariant (I := Moved s') (C := fun _ a => ¬ a.Resumes)
        (fun u a u' hu ha hstep => moved_step hu ha hstep) (Moved.refl s')
        (Transition.meets_of_actions has) hr
    obtain ⟨ids, hret, hidx, hnone⟩ := hmoved
    rw [hsh] at hidx
    exact ⟨hreply, hw, ids, hret, hidx, fun hs => (hnone (hw.trans hs)).1⟩

/-- GET_VRING_BASE is answered with 0 while the thread is at work on a chain. -/
def stopRun : List Action :=
  setup ++ [.guest (.desc 0x1000 0 ⟨0x4000, 60, 0, 0⟩), .guest (.availIdx 0x3000 1), .worker 0]

/-- The thread goes on: it takes the chain, writes the used entry and moves the index. -/
theorem ring_moves_after_reply :
    ¬ ∀ (garbage s s' t : Server) (bs as : List Action) (m : VhMsg) (env : Calls) (n : UInt16),
      Transition.run step (boot garbage) bs = some s → m.For .getVringBase txq →
      step s (.message m env) = some s' →
      (∃ r, s'.sent = s.sent ++ [r] ∧ r.num = n.toUInt32) →
      (∀ a ∈ as, ¬ a.Resumes) → Transition.run step s' as = some t →
      t.sh.bk.tx.lastAvailIdx = n ∧ t.sh.retired = s'.sh.retired := by
  intro hall
  have hstop := hall zeroed _ _ _ stopRun [.worker 0, .worker 0, .worker 0] (.make 11 [1] []) .succeed
    0 rfl ⟨rfl, rfl⟩ rfl ⟨_, rfl, rfl⟩ (by simp [Action.Resumes]) rfl
  exact absurd hstop.1 (by decide)

/-- The same run: the index has moved by the one entry that was written. -/
theorem get_vring_base_moves_once :
    ∃ s s' t, Transition.run step (boot zeroed) stopRun = some s ∧
      step s (.message (.make 11 [1] []) .succeed) = some s' ∧
      Transition.run step s' [.worker 0, .worker 0, .worker 0] = some t ∧
      t.sh.retired = [0] ∧ t.sh.bk.tx.lastAvailIdx = s.sh.bk.tx.lastAvailIdx + 1 := by
  obtain ⟨s, hs, s', hs', t, ht, hbefore, hafter⟩ : ∃ s,
      Transition.run step (boot zeroed) stopRun = some s ∧ ∃ s',
      step s (.message (.make 11 [1] []) .succeed) = some s' ∧ ∃ t,
      Transition.run step s' [.worker 0, .worker 0, .worker 0] = some t ∧
      s'.sh.retired = [] ∧ t.sh.retired = [0] := ⟨_, rfl, _, rfl, _, rfl, rfl, rfl⟩
  obtain ⟨-, -, ids, hret, hidx, -⟩ := get_vring_base_moves s s' t (.make 11 [1] []) .succeed
    [.worker 0, .worker 0, .worker 0] ⟨rfl, rfl⟩ hs' (by simp [Action.Resumes]) ht
  rw [hbefore, hafter, List.nil_append] at hret
  rw [← hret] at hidx
  exact ⟨s, s', t, hs, hs', ht, hafter, hidx⟩

end GetBase

end VirtioBench.Bkend
