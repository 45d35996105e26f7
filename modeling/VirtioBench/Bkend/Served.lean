import VirtioBench.Bkend.TxThread

/- The process at work (code_dump/nonm/bkend.c): the thread that handles the messages, the one
   `dequeue` it has started, and the guest, in any order. `TxQueue` is about the worker and the
   guest alone; here the worker runs inside the process (`step`), so that messages come
   between any two of its accesses and share the queue with it without a lock.

   1. `queue_simulates` — a move of the process on the queue is a move of `txStep` on the
      part of the process that serves the queue (`Served.queue`);
   2. `handled_same` — every message that neither maps memory, nor moves the transmit
      queue, nor starts a thread (`Undisturbed`), leaves that part as it is up to the size the
      worker has loaded long ago;
   3. `served_in_order` — so, from `main` to the message that starts the worker and on through
      every such run, no thread dies, heads are served in order, none skipped and none twice,
      and GET_VRING_BASE tells the index of the first head not yet retired. -/
namespace VirtioBench.Bkend

/-! ## The process and its guest -/

structure Served where
  srv : Server
  slotWritten : Bool
  posted : List UInt16
  returned : List VringUsedElem

inductive ServedAct where
  | message (m : VhMsg) (env : Calls)
  | queue (a : TxAct)

/-- The transmit queue as the worker `w` and the guest have it. -/
def Served.tx (s : Served) (w : Worker) : Tx where
  sh := s.srv.sh
  w := w
  slotWritten := s.slotWritten
  posted := s.posted
  returned := s.returned

/-- The part of the process that serves the transmit queue: its first worker. -/
def Served.queue (s : Served) : Option Tx := s.srv.workers.head?.map s.tx

/-- What a move on the queue is to the process. -/
def Tx.action (n : Nat) (t : Tx) : TxAct → Action
  | .worker => .worker 0
  | .writeDesc i d => .guest (.desc t.vq.desc i d)
  | .writeByte addr x => .guest (.byte addr x)
  | .writeSlot head => .guest (.availRing t.vq.avail (t.avail.idx.toNat % n) head)
  | .advance => .guest (.availIdx t.vq.avail (t.avail.idx + 1))

/-- The process moves by `step`; the guest keeps to its part of `txStep` and to its own
record of the queue. -/
def servedStep (n : Nat) (s : Served) : ServedAct → Option Served
  | .message m env => (step s.srv (.message m env)).map (fun srv => { s with srv := srv })
  | .queue a =>
    s.queue.bind (fun t => (txStep n t a).bind (fun t' => (step s.srv (t.action n a)).map (fun srv =>
      { srv := srv, slotWritten := t'.slotWritten, posted := t'.posted, returned := t'.returned })))

/-- The heads the workers have read from the avail ring. -/
def Shared.fetched (sh : Shared) : List UInt16 := sh.trace.filterMap Event.fetchedHead

/-- The message leaves the transmit queue to its worker. -/
def Undisturbed (s : Served) : ServedAct → Prop
  | .message m env => m.req ≠ .setMemTable ∧ ¬ m.For .setVringAddr txq ∧
      ¬ m.For .setVringBase txq ∧ ¬ m.Starts s.srv env
  | .queue _ => True

instance Undisturbed.decidable (s : Served) : (a : ServedAct) → Decidable (Undisturbed s a)
  | .message _ _ => inferInstanceAs (Decidable (_ ∧ _ ∧ _ ∧ _))
  | .queue _ => inferInstanceAs (Decidable True)

/-! ## Moves on the queue -/

section Queue
variable {n base : Nat} {s s' : Served} {w : Worker} {t t' : Tx} {a : TxAct}

theorem queue_eq (hw : s.srv.workers = [w]) : s.queue = some (s.tx w) := by
  unfold Served.queue
  rw [hw]
  rfl

/-- A move of the worker inside the process. -/
theorem step_worker {srv srv' : Server} (hw : srv.workers = [w])
    (h : step srv (.worker 0) = some srv') :
    ∃ r, workerStep srv.sh w = some r ∧ srv' = { srv with sh := r.1, workers := [r.2] } := by
  cases step_cases h with
  | worker k v v' sh hk hv =>
    rw [hw] at hk
    cases hk
    refine ⟨(sh, v'), hv, ?_⟩
    rw [hw]
    rfl

theorem txStep_worker {r : Shared × Worker} (hr : workerStep t.sh t.w = some r)
    (h : txStep n t .worker = some t') : t'.sh = r.1 ∧ t'.w = r.2 := by
  dsimp only [txStep] at h
  rw [hr] at h
  cases h
  split
  · next hpc =>
    unfold workerStep at hr
    rw [hpc] at hr
    cases hr
    exact ⟨rfl, rfl⟩
  · exact ⟨rfl, rfl⟩

/-- What the guest does to the queue is the one store it makes in the process. -/
theorem txStep_guest (ha : a ≠ .worker) (h : txStep n t a = some t') :
    ∃ g, t.action n a = .guest g ∧ t'.sh = { t.sh with mem := g.apply t.sh.mem } ∧ t'.w = t.w := by
  cases txStep_cases h with
  | head | fetch | walk | retire | publish => exact absurd rfl ha
  | writeDesc i d hfree => exact ⟨_, rfl, rfl, rfl⟩
  | writeByte addr x => exact ⟨_, rfl, rfl, rfl⟩
  | writeSlot head hroom => exact ⟨_, rfl, rfl, rfl⟩
  | advance hroom hwf => exact ⟨_, rfl, rfl, rfl⟩

/-- **The process simulates the queue.** -/
theorem queue_simulates (hw : s.srv.workers = [w]) (h : servedStep n s (.queue a) = some s') :
    ∃ w', s'.srv.workers = [w'] ∧ txStep n (s.tx w) a = some (s'.tx w') := by
  dsimp only [servedStep] at h
  rw [queue_eq hw, Option.bind_some] at h
  obtain ⟨t', ht', h⟩ := Option.bind_eq_some_iff.mp h
  obtain ⟨srv, hsrv, rfl⟩ := Option.map_eq_some_iff.mp h
  by_cases ha : a = .worker
  · subst ha
    obtain ⟨r, hr, rfl⟩ := step_worker hw hsrv
    obtain ⟨hsh, hwk⟩ := txStep_worker hr ht'
    refine ⟨r.2, rfl, ?_⟩
    rw [ht', ← hsh, ← hwk]
    rfl
  · obtain ⟨g, hg, hsh, hwk⟩ := txStep_guest ha ht'
    rw [hg] at hsrv
    cases hsrv
    refine ⟨w, hw, ?_⟩
    have hw' : t'.w = w := hwk
    have hsh' : t'.sh = { s.srv.sh with mem := g.apply s.srv.sh.mem } := hsh
    rw [ht', ← hw', ← hsh']
    rfl

end Queue

/-! ## Messages -/

/-- The same queue, up to its size, in the same memory. -/
structure SameQueue (sh sh' : Shared) : Prop where
  mem : sh'.mem = sh.mem
  trace : sh'.trace = sh.trace
  nregions : sh'.bk.nregions = sh.bk.nregions
  regions : sh'.bk.regions = sh.bk.regions
  tx : ∃ size, sh'.bk.tx = { sh.bk.tx with size := size }

section Messages
variable {n base : Nat} {s s' : Server} {m : VhMsg} {env : Calls}

/-- Memory, trace and regions after a message that does not map memory. -/
theorem handled_frame (h : Handled env s m s') (hm : m.req ≠ .setMemTable) :
    s'.sh.mem = s.sh.mem ∧ s'.sh.trace = s.sh.trace ∧
      s'.sh.bk.nregions = s.sh.bk.nregions ∧ s'.sh.bk.regions = s.sh.bk.regions := by
  cases h with
  | memTable regions hreq => exact absurd hreq hm
  | getBase q hreq hq =>
    dsimp only
    rw [(closed_frame (s.note m) q).1]
    exact ⟨rfl, rfl, rfl, rfl⟩
  | _ => exact ⟨rfl, rfl, rfl, rfl⟩

theorem handled_same (h : Handled env s m s') (hm : m.req ≠ .setMemTable)
    (haddr : ¬ m.For .setVringAddr txq) (hbase : ¬ m.For .setVringBase txq) :
    SameQueue s.sh s'.sh := by
  obtain ⟨hmem, htrace, hn, hregions⟩ := handled_frame h hm
  refine ⟨hmem, htrace, hn, hregions, ?_⟩
  have hvq : VqEffect s m txq s'.sh.bk.tx := handled_vq h txq
  generalize s'.sh.bk.tx = v at hvq ⊢
  cases hvq with
  | same => exact ⟨s.sh.bk.tx.size, rfl⟩
  | num => exact ⟨m.num, rfl⟩
  | addr desc used avail hfor => exact absurd hfor haddr
  | base hfor => exact absurd hfor hbase

end Messages

/-! ## The invariant under messages -/

section Frame
variable {n base : Nat} {t : Tx} {sh' : Shared}

theorem chain_regions {b b' : Backend} (hn : b'.nregions = b.nregions)
    (hregions : b'.regions = b.regions) (table : Nat → VringDesc) (fuel i : Nat) :
    chain b' table fuel i = chain b table fuel i := by
  have hread : ∀ d, b'.readable d = b.readable d := by
    intro d
    unfold Backend.readable gpaToVa Backend.lookup
    rw [hn, hregions]
  induction fuel generalizing i with
  | zero => rfl
  | succ fuel ih =>
    unfold chain
    rw [hread, ih]

/-- The queue of `t`, in what the threads share after a message. -/
def Tx.after (t : Tx) (sh' : Shared) : Tx := { t with sh := sh' }

theorem SameQueue.views (h : SameQueue t.sh sh') :
    (t.after sh').vq.avail = t.vq.avail ∧ (t.after sh').vq.used = t.vq.used ∧
      (t.after sh').vq.desc = t.vq.desc ∧ (t.after sh').table = t.table ∧
      (t.after sh').fetched = t.fetched ∧ (t.after sh').ledger = t.ledger := by
  obtain ⟨size, htx⟩ := h.tx
  have hvq : (t.after sh').vq = { t.vq with size := size } := htx
  refine ⟨by rw [hvq], by rw [hvq], by rw [hvq], ?_, ?_, ?_⟩
  · show sh'.mem.desc (t.after sh').vq.desc = _
    rw [hvq, h.mem]
    rfl
  · exact congrArg (List.filterMap Event.fetchedHead) h.trace
  · have hretired : (t.after sh').retired = t.retired :=
      congrArg (List.filterMap Event.retiredId) h.trace
    unfold Tx.ledger Tx.avail Tx.used
    rw [hvq, hretired]
    dsimp only [Tx.after]
    rw [h.mem]

theorem SameQueue.serving (h : SameQueue t.sh sh') (hs : t.Serving n base) :
    (t.after sh').Serving n base := by
  obtain ⟨-, -, -, -, hfetched, hledger⟩ := h.views
  have hretired : (t.after sh').retired = t.retired := congrArg Ledger.retired hledger
  refine ⟨?_, ?_, ?_⟩
  · rw [hretired]
    exact hs.head
  · rw [hretired]
    exact hs.slot
  · rw [hretired, hfetched]
    exact hs.fetched

theorem SameQueue.walking (h : SameQueue t.sh sh') (hw : t.Walking) : (t.after sh').Walking := by
  obtain ⟨-, -, -, htable, -, -⟩ := h.views
  unfold Tx.Walking
  simp only [htable]
  have hchain : ∀ fuel i, chain (t.after sh').sh.bk t.table fuel i = chain t.sh.bk t.table fuel i :=
    chain_regions h.nregions h.regions t.table
  simp only [hchain]
  exact hw

theorem SameQueue.atPc (h : SameQueue t.sh sh') {pc : WorkerPc} (hat : t.AtPc n base pc) :
    (t.after sh').AtPc n base pc := by
  obtain ⟨-, -, -, -, hfetched, hledger⟩ := h.views
  have hretired : (t.after sh').retired = t.retired := congrArg Ledger.retired hledger
  cases pc with
  | head | publish =>
    show (t.after sh').fetched = t.posted.take (t.after sh').retired.length
    rw [hfetched, hretired]
    exact hat
  | fetch =>
    show (t.after sh').fetched = t.posted.take (t.after sh').retired.length ∧
      (t.after sh').retired.length < t.posted.length
    rw [hfetched, hretired]
    exact hat
  | walk => exact ⟨h.serving hat.1, h.walking hat.2⟩
  | retire => exact ⟨h.serving hat.1, hat.2⟩
  | halted => exact hat

/-- A message that leaves the queue alone keeps the invariant. -/
theorem SameQueue.inv (h : SameQueue t.sh sh') (hi : t.Inv n base) : (t.after sh').Inv n base := by
  obtain ⟨havail, hused, hdesc, htable, -, hledger⟩ := h.views
  refine ⟨?_, ?_, ?_, hi.size, ?_, ?_, h.atPc hi.pc⟩
  · rw [havail]
    exact hi.avail
  · rw [hused]
    exact hi.used
  · rw [hdesc]
    exact hi.desc
  · rw [hledger]
    exact hi.ledger
  · intro head hhead
    obtain ⟨is, his, hpos, hmax⟩ := hi.chains head hhead
    refine ⟨is, ?_, ?_, ?_⟩
    · rw [htable]
      exact (chain_regions h.nregions h.regions t.table _ _).trans his
    · rw [htable]
      exact hpos
    · rw [htable]
      exact hmax

end Frame

/-! ## Every run -/

/-- There is one worker, and it serves the queue. -/
def Served.Ok (n base : Nat) (s : Served) : Prop :=
  ∃ w, s.srv.workers = [w] ∧ (s.tx w).Inv n base

section Runs
variable {n base : Nat} {s s' : Served}

theorem servedStep_ok (hn : n ∣ 2 ^ 16) (hlt : n < 2 ^ 16) {a : ServedAct} (hi : s.Ok n base)
    (ha : Undisturbed s a) (h : servedStep n s a = some s') : s'.Ok n base := by
  obtain ⟨w, hw, hinv⟩ := hi
  cases a with
  | message m env =>
    obtain ⟨srv, hsrv, rfl⟩ := Option.map_eq_some_iff.mp h
    obtain ⟨hmem, haddr, hbase, hstart⟩ := ha
    cases step_cases hsrv with
    | message m env srv hd hh =>
      rcases handled_workers hh with ⟨hs, -⟩ | ⟨-, hsame⟩
      · exact absurd hs hstart
      · exact ⟨w, hsame.trans hw, (handled_same hh hmem haddr hbase).inv hinv⟩
  | queue a =>
    obtain ⟨w', hw', ht⟩ := queue_simulates hw h
    exact ⟨w', hw', txStep_inv hn hlt hinv ht⟩

/-- Only a worker writes the trace, and workers stay. -/
theorem untraced_step {t t' : Server} {a : Action} (h : step t a = some t')
    (hi : t.workers = [] → t.sh.trace = []) : t'.workers = [] → t'.sh.trace = [] := by
  intro hnone
  cases step_cases h with
  | message m env t' hd hh =>
    rcases handled_workers hh with ⟨-, hw⟩ | ⟨-, hw⟩
    · rw [hw] at hnone
      exact absurd hnone (List.append_ne_nil_of_right_ne_nil _ nofun)
    · have hbefore := hi (hw.symm.trans hnone)
      cases hh with
      | getBase q hreq hq =>
        dsimp only
        rw [(closed_frame (t.note m) q).1]
        exact hbefore
      | _ => exact hbefore
  | worker k w w' sh hk hw =>
    have hempty : t.workers = [] := by
      rw [← List.length_eq_zero_iff] at hnone ⊢
      rw [← hnone, List.length_set]
    rw [hempty] at hk
    cases hk
  | guest g => exact hi hnone

/-- The message that starts the first worker leaves the queue as `txStart` has it. -/
theorem start_ok {srv srv' : Server} {m : VhMsg} {env : Calls} {size : UInt32}
    {posted : List UInt16} (hnone : srv.workers = []) (htrace : srv.sh.trace = [])
    (hm : m.Starts srv env) (hs : step srv (.message m env) = some srv')
    (hn : size.toNat ∣ 2 ^ 16) (hlt : size.toNat < 2 ^ 16) (hsize : srv.sh.bk.rx.size = size)
    (hidx : srv.sh.bk.tx.lastAvailIdx = (srv.sh.mem.used srv.sh.bk.tx.used).idx ∧
      srv.sh.bk.tx.lastUsedIdx = (srv.sh.mem.used srv.sh.bk.tx.used).idx)
    (hp : Posted size.toNat srv.sh.bk srv.sh.mem posted) :
    Served.Ok size.toNat (srv.sh.mem.used srv.sh.bk.tx.used).idx.toNat
      ⟨srv', false, posted, []⟩ := by
  cases step_cases hs with
  | message m env srv' hd hh =>
    rcases handled_workers hh with ⟨-, hw⟩ | ⟨hno, -⟩
    · rw [hnone, List.nil_append] at hw
      refine ⟨_, hw, ?_⟩
      have hsame : SameQueue srv.sh srv'.sh := by
        apply handled_same hh
        · rw [hm.1]
          exact nofun
        · exact fun hf => by cases hm.1.symm.trans hf.1
        · exact fun hf => by cases hm.1.symm.trans hf.1
      have hstart : SameQueue (txStart srv.sh.bk srv.sh.mem env.malloc posted).sh srv'.sh :=
        ⟨hsame.mem, hsame.trace.trans htrace, hsame.nregions, hsame.regions, hsame.tx⟩
      exact hstart.inv (txStart_inv env.malloc hn hlt hsize hidx hp)
    · exact absurd hm hno

/-- The process from `main` to the message that starts the first worker: the queue has
been set up with `2 ^ k` slots, its indices are where `used.idx` is, and `posted` is in it. -/
structure Startup (garbage srv srv' : Server) (k : Nat) (posted : List UInt16) : Prop where
  reached : ∃ as, Transition.run step (boot garbage) as = some srv
  none : srv.workers = []
  start : ∃ m env, m.Starts srv env ∧ step srv (.message m env) = some srv'
  small : k ≤ 15
  size : srv.sh.bk.rx.size.toNat = 2 ^ k
  lastAvail : srv.sh.bk.tx.lastAvailIdx = (srv.sh.mem.used srv.sh.bk.tx.used).idx
  lastUsed : srv.sh.bk.tx.lastUsedIdx = (srv.sh.mem.used srv.sh.bk.tx.used).idx
  posted : Posted (2 ^ k) srv.sh.bk srv.sh.mem posted

/-- `used.idx` at the start. -/
def Server.usedIdx (srv : Server) : Nat := (srv.sh.mem.used srv.sh.bk.tx.used).idx.toNat

section Startup
variable {garbage srv srv' : Server} {k : Nat} {posted : List UInt16}

theorem Startup.divides (h : Startup garbage srv srv' k posted) : 2 ^ k ∣ 2 ^ 16 :=
  Nat.pow_dvd_pow 2 (by have := h.small; omega)

theorem Startup.bounded (h : Startup garbage srv srv' k posted) : 2 ^ k < 2 ^ 16 :=
  Nat.pow_lt_pow_right (by decide) (by have := h.small; omega)

theorem Startup.run_ok (h : Startup garbage srv srv' k posted) {bs : List ServedAct} {t : Served}
    (hbs : Transition.Meets (servedStep (2 ^ k)) Undisturbed ⟨srv', false, posted, []⟩ bs)
    (hrun : Transition.run (servedStep (2 ^ k)) ⟨srv', false, posted, []⟩ bs = some t) :
    t.Ok (2 ^ k) srv.usedIdx := by
  have hn := h.divides
  have hlt := h.bounded
  have hp := h.posted
  obtain ⟨as, hr⟩ := h.reached
  obtain ⟨m, env, hm, hs⟩ := h.start
  rw [← h.size] at hp hbs hrun hn hlt ⊢
  have htrace : srv.sh.trace = [] :=
    Transition.run_invariant (I := fun t => t.workers = [] → t.sh.trace = [])
      (fun _ _ _ hi hstep => untraced_step hstep hi) (fun _ => rfl) hr h.none
  exact Transition.meets_invariant (fun _ _ _ => servedStep_ok hn hlt)
    (start_ok h.none htrace hm hs hn hlt rfl ⟨h.lastAvail, h.lastUsed⟩ hp) hbs hrun

end Startup

theorem Served.Ok.alive (h : s.Ok n base) : s.srv.dead = false := by
  obtain ⟨w, hw, hi⟩ := h
  have hat : (s.tx w).AtPc n base w.pc := hi.pc
  unfold Server.dead
  rw [hw, List.any_cons, List.any_nil, Bool.or_false]
  cases hpc : w.pc with
  | halted e =>
    rw [hpc] at hat
    exact hat.elim
  | head | fetch | walk | retire | publish => rfl

/-- GET_VRING_BASE tells the position of the first head that is not retired. -/
theorem Served.Ok.base_reply (h : s.Ok n base) {m : VhMsg} {env : Calls}
    (hm : m.For .getVringBase txq) (hs : servedStep n s (.message m env) = some s') :
    ∃ r, s'.srv.sent = s.srv.sent ++ [r] ∧
      r.num.toNat = (base + s.srv.sh.retired.length) % 2 ^ 16 := by
  obtain ⟨w, hw, hi⟩ := h
  obtain ⟨srv, hsrv, rfl⟩ := Option.map_eq_some_iff.mp hs
  cases step_cases hsrv with
  | message m env srv hd hh =>
    obtain ⟨⟨r, hsent, hnum⟩, -, -⟩ := handled_getBase hm hh
    refine ⟨r, hsent, ?_⟩
    rw [hnum, UInt16.toNat_toUInt32]
    exact hi.ledger.lastAvail

/-- The guest writes a descriptor before the messages of `setup`. -/
def described : List Action := .guest (.desc 0x1000 0 ⟨0x4000, 60, 0, 0⟩) :: setup

/-- The process before and after the second SET_VRING_ENABLE. -/
def readySrv : Server := (Transition.run step (boot zeroed) described.dropLast).getD zeroed

def startedSrv : Server := (Transition.run step (boot zeroed) described).getD zeroed

theorem setup_startup : Startup zeroed readySrv startedSrv 2 [] where
  reached := ⟨described.dropLast, rfl⟩
  none := rfl
  start := ⟨.make 18 [1, 1] [], .succeed, by decide, rfl⟩
  small := by decide
  size := rfl
  lastAvail := rfl
  lastUsed := rfl
  posted := ⟨Nat.zero_le _, by decide, fun _ _ hk => (by cases hk), fun _ hh => (by cases hh)⟩

/-- The guest posts the descriptor, the receive queue is set up while the worker is inside it, and
GET_VRING_BASE comes before it is returned. -/
def busyRun : List ServedAct :=
  [.queue (.writeSlot 0), .queue .advance, .queue .worker,
    .message (.make 9 [0, 0, 0x5000, 0, 0x6000, 0, 0x7000, 0] []) .succeed,
    .queue .worker, .message (.make 8 [1, 256] []) .succeed, .queue .worker, .queue .worker,
    .message (.make 11 [1] []) .succeed]

end Runs

end VirtioBench.Bkend
