import VirtioBench.Lib.Ownership
import Mathlib.Data.Finset.Card

/- `RobustBackend` (code_dump/dpdkVirtioDevice/backend.cpp): the worker loop, the vhost
   callbacks and the signal handler, one call or one access of a shared variable at a time.

   `rte_vhost_dequeue_burst` takes at most `BURST_SIZE` mbufs that are in the pool,
   `rte_vhost_enqueue_burst` copies some first packets to the guest and leaves the mbufs
   with the caller, `rte_pktmbuf_free` puts one back. Which, and how many, is part of the
   action. `inUse` is what has been taken from the pool; `events` and `accepted` record the
   calls and no branch reads them.

   Correspondence (C++ ↔ Lean):
     `BURST_SIZE`, `MEMPOOL_SIZE`        ↔ `burstSize`, `mempoolSize`
     `worker_loop`                       ↔ `WorkerPc`, `workerStep`
     `new_device`, `destroy_device`,
     `vring_state_changed`               ↔ `callbackStep`
     `signal_handler`                    ↔ `Act.signal`

   `worker_releases_iff` — at a loop head every mbuf has been freed exactly once, and the
   pool is full, exactly if the guest has accepted no packet: the loop after
   `rte_vhost_enqueue_burst` frees the packets that were not accepted. Every accepted one
   is lost to the pool (`available_add_accepted`). -/
namespace VirtioBench.Device

open Ownership Transition

def burstSize : Nat := 32

def mempoolSize : Nat := 16383

/-- The call or the access the worker is about to make. -/
inductive WorkerPc where
  | loadQuit
  | loadVid
  | loadReady (vid : Int32)
  | dequeueBurst (vid : Int32)
  | enqueueBurst (vid : Int32) (pkts : List Nat)
  | free (pkts : List Nat)
  | timer
  | exited
  deriving DecidableEq, Repr

structure State where
  activeVid : Int32
  vringReady : Bool
  forceQuit : Bool
  /-- `destroy_device` between its two stores. -/
  destroying : Bool
  pc : WorkerPc
  totalPkts : UInt64
  lastPrint : UInt64
  hz : UInt64
  inUse : Finset Nat
  events : List (Event Nat)
  accepted : List Nat
  deriving DecidableEq

/-- The worker's next access, with the answer where it is a call, or a callback's store. -/
inductive Act where
  | worker
  | dequeued (pkts : List Nat)
  | enqueued (nTx : Nat)
  | now (cycles : UInt64)
  | newDevice (vid : Int32)
  | destroyDevice
  | destroyDeviceReady
  | vringStateChanged (queueId : UInt16) (enable : Int32)
  | signal
  deriving DecidableEq, Repr

/-- `worker_loop` before its first test. -/
def State.start (lastPrint hz : UInt64) : State :=
  { activeVid := -1, vringReady := false, forceQuit := false, destroying := false,
    pc := .loadQuit, totalPkts := 0, lastPrint := lastPrint, hz := hz, inUse := ∅,
    events := [], accepted := [] }

/-- The mbufs that are in the pool. -/
def State.available (s : State) : Nat := mempoolSize - s.inUse.card

def dequeue (s : State) (vid : Int32) (pkts : List Nat) : Option State :=
  if pkts.length ≤ burstSize ∧ pkts.Nodup ∧ ∀ m ∈ pkts, m < mempoolSize ∧ m ∉ s.inUse then
    some { s with
      inUse := s.inUse ∪ pkts.toFinset
      events := s.events ++ pkts.map .acquire
      pc := if pkts = [] then .timer else .enqueueBurst vid pkts }
  else none

def enqueue (s : State) (pkts : List Nat) (nTx : Nat) : Option State :=
  if nTx ≤ pkts.length then
    some { s with
      totalPkts := s.totalPkts + UInt64.ofNat nTx
      accepted := s.accepted ++ pkts.take nTx
      events := s.events ++ (pkts.take nTx).map .use
      pc := if nTx < pkts.length then .free (pkts.drop nTx) else .timer }
  else none

/-- Throughput once a second. -/
def printStats (s : State) (now : UInt64) : State :=
  if now - s.lastPrint > s.hz then
    { s with totalPkts := if s.totalPkts > 0 then 0 else s.totalPkts, lastPrint := now,
             pc := .loadQuit }
  else { s with pc := .loadQuit }

def workerStep (s : State) : Act → Option State
  | .worker =>
    match s.pc with
    | .loadQuit => some { s with pc := if s.forceQuit then .exited else .loadVid }
    | .loadVid =>
      some { s with pc := if s.activeVid < 0 then .loadQuit else .loadReady s.activeVid }
    | .loadReady vid =>
      some { s with pc := if s.vringReady then .dequeueBurst vid else .loadQuit }
    | .free [] => some { s with pc := .timer }
    | .free (m :: pkts) =>
      some { s with
        inUse := s.inUse.erase m
        events := s.events ++ [.release m]
        pc := if pkts = [] then .timer else .free pkts }
    | _ => none
  | .dequeued pkts =>
    match s.pc with
    | .dequeueBurst vid => dequeue s vid pkts
    | _ => none
  | .enqueued nTx =>
    match s.pc with
    | .enqueueBurst _ pkts => enqueue s pkts nTx
    | _ => none
  | .now cycles =>
    match s.pc with
    | .timer => some (printStats s cycles)
    | _ => none
  | _ => none

def callbackStep (s : State) : Act → Option State
  | .newDevice vid => some { s with activeVid := vid }
  | .destroyDevice => some { s with activeVid := -1, destroying := true }
  | .destroyDeviceReady =>
    if s.destroying then some { s with vringReady := false, destroying := false } else none
  | .vringStateChanged queueId enable =>
    some (if queueId = 0 then { s with vringReady := enable = 1 } else s)
  | .signal => some { s with forceQuit := true }
  | _ => none

def step (s : State) (a : Act) : Option State :=
  match a with
  | .worker | .dequeued _ | .enqueued _ | .now _ => workerStep s a
  | _ => callbackStep s a

/-- The packets of the burst that the worker still has to deal with. -/
def WorkerPc.pkts : WorkerPc → List Nat
  | .enqueueBurst _ pkts | .free pkts => pkts
  | .loadQuit | .loadVid | .loadReady _ | .dequeueBurst _ | .timer | .exited => []

/-- What a step does to the mbufs. -/
inductive Effect (s : State) : Act → State → Prop where
  | none {a : Act} {s' : State} (hact : ∀ nTx, a ≠ .enqueued nTx) (hinUse : s'.inUse = s.inUse)
      (hevents : s'.events = s.events) (haccepted : s'.accepted = s.accepted)
      (hpkts : s'.pc.pkts = s.pc.pkts) : Effect s a s'
  | dequeued {pkts : List Nat} {s' : State} (hpc : s.pc.pkts = []) (hnodup : pkts.Nodup)
      (hnew : ∀ m ∈ pkts, m < mempoolSize ∧ m ∉ s.inUse)
      (hinUse : s'.inUse = s.inUse ∪ pkts.toFinset)
      (hevents : s'.events = s.events ++ pkts.map .acquire) (haccepted : s'.accepted = s.accepted)
      (hpkts : s'.pc.pkts = pkts) : Effect s (.dequeued pkts) s'
  | enqueued {nTx : Nat} {s' : State} (hn : nTx ≤ s.pc.pkts.length) (hinUse : s'.inUse = s.inUse)
      (hevents : s'.events = s.events ++ (s.pc.pkts.take nTx).map .use)
      (haccepted : s'.accepted = s.accepted ++ s.pc.pkts.take nTx)
      (hpkts : s'.pc.pkts = s.pc.pkts.drop nTx) : Effect s (.enqueued nTx) s'
  | freed {m : Nat} {pkts : List Nat} {s' : State} (hpc : s.pc.pkts = m :: pkts)
      (hinUse : s'.inUse = s.inUse.erase m) (hevents : s'.events = s.events ++ [.release m])
      (haccepted : s'.accepted = s.accepted) (hpkts : s'.pc.pkts = pkts) : Effect s .worker s'

section Steps

variable {s s' : State} {a : Act}

theorem pkts_ite {c : Prop} [Decidable c] (pc pc' : WorkerPc) :
    (if c then pc else pc').pkts = if c then pc.pkts else pc'.pkts :=
  apply_ite WorkerPc.pkts c pc pc'

theorem effect_of_workerStep (h : workerStep s a = some s') : Effect s a s' := by
  cases a with
  | worker =>
    cases hpc : s.pc with
    | loadQuit =>
      simp only [workerStep, hpc, Option.some_inj] at h
      subst h
      exact .none (by simp) rfl rfl rfl (by simp only [hpc, pkts_ite]; simp [WorkerPc.pkts])
    | loadVid =>
      simp only [workerStep, hpc, Option.some_inj] at h
      subst h
      exact .none (by simp) rfl rfl rfl (by simp only [hpc, pkts_ite]; simp [WorkerPc.pkts])
    | loadReady vid =>
      simp only [workerStep, hpc, Option.some_inj] at h
      subst h
      exact .none (by simp) rfl rfl rfl (by simp only [hpc, pkts_ite]; simp [WorkerPc.pkts])
    | free pkts =>
      cases pkts with
      | nil =>
        simp only [workerStep, hpc, Option.some_inj] at h
        subst h
        exact .none (by simp) rfl rfl rfl (by simp [hpc, WorkerPc.pkts])
      | cons m pkts =>
        simp only [workerStep, hpc, Option.some_inj] at h
        subst h
        have hpkts : s.pc.pkts = m :: pkts := by simp [hpc, WorkerPc.pkts]
        refine .freed hpkts rfl rfl rfl ?_
        cases pkts <;> rfl
    | _ => simp [workerStep, hpc] at h
  | dequeued pkts =>
    cases hpc : s.pc with
    | dequeueBurst vid =>
      simp only [workerStep, hpc, dequeue, Option.ite_none_right_eq_some, Option.some_inj] at h
      obtain ⟨⟨-, hnodup, hnew⟩, rfl⟩ := h
      refine .dequeued (by simp [hpc, WorkerPc.pkts]) hnodup hnew rfl rfl rfl ?_
      cases pkts <;> rfl
    | _ => simp [workerStep, hpc] at h
  | enqueued nTx =>
    cases hpc : s.pc with
    | enqueueBurst vid pkts =>
      have hpkts : s.pc.pkts = pkts := by simp [hpc, WorkerPc.pkts]
      simp only [workerStep, hpc, enqueue, Option.ite_none_right_eq_some, Option.some_inj] at h
      obtain ⟨hn, rfl⟩ := h
      subst hpkts
      refine .enqueued hn rfl rfl rfl ?_
      by_cases hlt : nTx < s.pc.pkts.length
      · rw [if_pos hlt]
        rfl
      · rw [if_neg hlt, List.drop_eq_nil_of_le (Nat.le_of_not_lt hlt)]
        rfl
    | _ => simp [workerStep, hpc] at h
  | now cycles =>
    cases hpc : s.pc with
    | timer =>
      simp only [workerStep, hpc, Option.some_inj, printStats] at h
      subst h
      split
      · exact .none (by simp) rfl rfl rfl (by simp [hpc, WorkerPc.pkts])
      · exact .none (by simp) rfl rfl rfl (by simp [hpc, WorkerPc.pkts])
    | _ => simp [workerStep, hpc] at h
  | _ => simp [workerStep] at h

/-- The callbacks leave the mbufs alone. -/
theorem effect_of_callbackStep (h : callbackStep s a = some s') : Effect s a s' := by
  cases a with
  | newDevice vid =>
    cases h
    exact .none (by simp) rfl rfl rfl rfl
  | destroyDevice =>
    cases h
    exact .none (by simp) rfl rfl rfl rfl
  | destroyDeviceReady =>
    dsimp only [callbackStep] at h
    split at h
    · cases h
      exact .none (by simp) rfl rfl rfl rfl
    · cases h
  | vringStateChanged queueId enable =>
    cases h
    split
    · exact .none (by simp) rfl rfl rfl rfl
    · exact .none (by simp) rfl rfl rfl rfl
  | signal =>
    cases h
    exact .none (by simp) rfl rfl rfl rfl
  | _ => cases h

theorem step_effect (h : step s a = some s') : Effect s a s' := by
  cases a with
  | worker => exact effect_of_workerStep h
  | dequeued pkts => exact effect_of_workerStep h
  | enqueued nTx => exact effect_of_workerStep h
  | now cycles => exact effect_of_workerStep h
  | _ => exact effect_of_callbackStep h

/-- In use is what the guest has accepted and what is left of the burst. -/
structure Inv (s : State) : Prop where
  held : hold s.events = some s.inUse
  inUse : s.inUse = (s.accepted ++ s.pc.pkts).toFinset
  nodup : (s.accepted ++ s.pc.pkts).Nodup
  pool : ∀ m ∈ s.inUse, m < mempoolSize

theorem start_inv (lastPrint hz : UInt64) : Inv (.start lastPrint hz) where
  held := rfl
  inUse := rfl
  nodup := List.nodup_nil
  pool := by simp [State.start]

theorem mem_inUse (hs : Inv s) {m : Nat} : m ∈ s.inUse ↔ m ∈ s.accepted ∨ m ∈ s.pc.pkts := by
  rw [hs.inUse, List.mem_toFinset, List.mem_append]

theorem Inv.dequeued (hs : Inv s) {pkts : List Nat} (hpc : s.pc.pkts = []) (hnodup : pkts.Nodup)
    (hnew : ∀ m ∈ pkts, m < mempoolSize ∧ m ∉ s.inUse)
    (hinUse : s'.inUse = s.inUse ∪ pkts.toFinset)
    (hevents : s'.events = s.events ++ pkts.map .acquire) (haccepted : s'.accepted = s.accepted)
    (hpkts : s'.pc.pkts = pkts) : Inv s' := by
  have hused := hs.inUse
  have haccNodup := hs.nodup
  rw [hpc, List.append_nil] at hused haccNodup
  constructor
  · rw [hevents, hinUse]
    exact hold_acquires hs.held (fun m hm => (hnew m hm).2) hnodup
  · rw [hinUse, haccepted, hpkts, hused, List.toFinset_append]
  · rw [haccepted, hpkts]
    refine List.nodup_append'.mpr ⟨haccNodup, hnodup, ?_⟩
    intro m hm hm'
    exact (hnew m hm').2 ((mem_inUse hs).mpr (.inl hm))
  · intro m hm
    rw [hinUse, Finset.mem_union, List.mem_toFinset] at hm
    exact hm.elim (hs.pool m) (fun hm => (hnew m hm).1)

theorem Inv.freed (hs : Inv s) {m : Nat} {pkts : List Nat} (hpc : s.pc.pkts = m :: pkts)
    (hinUse : s'.inUse = s.inUse.erase m) (hevents : s'.events = s.events ++ [.release m])
    (haccepted : s'.accepted = s.accepted) (hpkts : s'.pc.pkts = pkts) : Inv s' := by
  have hused := hs.inUse
  have hnodup := hs.nodup
  rw [hpc] at hused hnodup
  have hperm : (s.accepted ++ m :: pkts).Perm (m :: (s.accepted ++ pkts)) := List.perm_middle
  obtain ⟨hm, hrest⟩ := List.nodup_cons.mp (hperm.nodup_iff.mp hnodup)
  constructor
  · rw [hevents, hinUse]
    exact hold_release hs.held ((mem_inUse hs).mpr (.inr (by rw [hpc]; exact List.mem_cons_self)))
  · rw [hinUse, haccepted, hpkts, hused, List.toFinset_eq_of_perm _ _ hperm, List.toFinset_cons,
      Finset.erase_insert (by rwa [List.mem_toFinset])]
  · rw [haccepted, hpkts]
    exact hrest
  · intro x hx
    rw [hinUse] at hx
    exact hs.pool x (Finset.mem_of_mem_erase hx)

theorem step_inv (hs : Inv s) (h : step s a = some s') : Inv s' := by
  cases step_effect h with
  | none _ hinUse hevents haccepted hpkts =>
    constructor
    · rw [hevents, hinUse, hs.held]
    · rw [hinUse, haccepted, hpkts, hs.inUse]
    · rw [haccepted, hpkts]
      exact hs.nodup
    · rw [hinUse]
      exact hs.pool
  | dequeued hpc hnodup hnew hinUse hevents haccepted hpkts =>
    exact hs.dequeued hpc hnodup hnew hinUse hevents haccepted hpkts
  | enqueued hn hinUse hevents haccepted hpkts =>
    constructor
    · rw [hevents, hinUse]
      exact hold_uses hs.held (fun m hm => (mem_inUse hs).mpr (.inr (List.mem_of_mem_take hm)))
    · rw [hinUse, haccepted, hpkts, List.append_assoc, List.take_append_drop, hs.inUse]
    · rw [haccepted, hpkts, List.append_assoc, List.take_append_drop]
      exact hs.nodup
    · rw [hinUse]
      exact hs.pool
  | freed hpc hinUse hevents haccepted hpkts => exact hs.freed hpc hinUse hevents haccepted hpkts

end Steps

/-- Every mbuf taken from the pool has been freed, once, and the pool is full. -/
structure Released (s : State) : Prop where
  freed : hold s.events = some ∅
  full : s.available = mempoolSize

/-- The guest accepts none of the packets. -/
def NoneAccepted (_ : State) (a : Act) : Prop := ∀ nTx, a = .enqueued nTx → nTx = 0

section Runs

variable {s s' : State} {a : Act} {as : List Act} {lastPrint hz : UInt64}

theorem run_inv (hr : run step (.start lastPrint hz) as = some s) : Inv s :=
  run_invariant (fun _ _ _ hs h => step_inv hs h) (start_inv lastPrint hz) hr

/-- One mbuf is lost for each packet the guest has accepted. -/
theorem available_add_accepted (hr : run step (.start lastPrint hz) as = some s)
    (hpc : s.pc = .loadQuit) : s.available + s.accepted.length = mempoolSize := by
  have hs := run_inv hr
  have hused := hs.inUse
  have hnodup := hs.nodup
  simp only [hpc, WorkerPc.pkts, List.append_nil] at hused hnodup
  have hcard : s.inUse.card = s.accepted.length := by
    rw [hused, List.toFinset_card_of_nodup hnodup]
  have hsub : s.inUse ⊆ Finset.range mempoolSize := by
    intro m hm
    exact Finset.mem_range.mpr (hs.pool m hm)
  have hle := Finset.card_le_card hsub
  rw [Finset.card_range] at hle
  rw [State.available]
  omega

theorem released_iff (hr : run step (.start lastPrint hz) as = some s) (hpc : s.pc = .loadQuit) :
    Released s ↔ s.accepted = [] := by
  have hs := run_inv hr
  have hsum := available_add_accepted hr hpc
  constructor
  · intro hreleased
    have hfull := hreleased.full
    exact List.length_eq_zero_iff.mp (by omega)
  · intro hacc
    refine ⟨?_, ?_⟩
    · rw [hs.held, hs.inUse, hacc, hpc]
      rfl
    · rw [hacc] at hsum
      exact hsum

theorem step_accepts (h : step s a = some s') (ha : ¬ NoneAccepted s a) : s'.accepted ≠ [] := by
  rw [NoneAccepted, not_forall] at ha
  obtain ⟨nTx, ha⟩ := ha
  rw [Classical.not_imp] at ha
  obtain ⟨rfl, hpos⟩ := ha
  cases step_effect h with
  | none hact => exact absurd rfl (hact nTx)
  | enqueued hn _ _ haccepted _ =>
    intro hnil
    rw [haccepted, List.append_eq_nil_iff, List.take_eq_nil_iff] at hnil
    obtain ⟨-, hzero | hnil⟩ := hnil
    · exact hpos hzero
    · rw [hnil] at hn
      exact hpos (Nat.le_zero.mp hn)

theorem step_accepted_nil (h : step s a = some s') (ha : NoneAccepted s a)
    (hs : s.accepted = []) : s'.accepted = [] := by
  cases step_effect h with
  | none _ _ _ haccepted _ => rw [haccepted, hs]
  | dequeued _ _ _ _ _ haccepted _ => rw [haccepted, hs]
  | enqueued _ _ _ haccepted _ => rw [haccepted, hs, ha _ rfl, List.take_zero, List.append_nil]
  | freed _ _ _ haccepted _ => rw [haccepted, hs]

theorem step_accepted_mono (h : step s a = some s') (hs : s.accepted ≠ []) :
    s'.accepted ≠ [] := by
  cases step_effect h with
  | none _ _ _ haccepted _ => rwa [haccepted]
  | dequeued _ _ _ _ _ haccepted _ => rwa [haccepted]
  | enqueued _ _ _ haccepted _ =>
    rw [haccepted]
    exact List.append_ne_nil_of_left_ne_nil hs _
  | freed _ _ _ haccepted _ => rwa [haccepted]

/-- The worker gives every mbuf back exactly if the guest accepts no packet. -/
theorem worker_releases_iff (lastPrint hz : UInt64) (as : List Act) (s : State)
    (hr : run step (.start lastPrint hz) as = some s) (hpc : s.pc = .loadQuit) :
    Released s ↔ Meets step NoneAccepted (.start lastPrint hz) as := by
  rw [released_iff hr hpc]
  constructor
  · intro hacc
    exact meets_of_unspoiled (I := fun _ => True) (D := fun s => s.accepted ≠ [])
      (fun _ _ _ _ _ => trivial) (fun _ _ _ _ h ha => step_accepts h ha)
      (fun _ _ _ _ hd h => step_accepted_mono h hd) trivial hr (not_not.mpr hacc)
  · intro hmeets
    exact meets_invariant (I := fun s => s.accepted = [])
      (fun _ _ _ hs ha h => step_accepted_nil h ha hs) rfl hmeets hr

/-- A device comes up, and one burst of it goes through the loop. -/
def burst (pkts : List Nat) (nTx : Nat) : List Act :=
  [.newDevice 0, .vringStateChanged 0 1, .worker, .worker, .worker, .dequeued pkts,
    .enqueued nTx] ++ List.replicate (pkts.length - nTx) .worker ++ [.now 0]

/-- One packet, which the guest accepts. -/
theorem worker_loses_accepted :
    ¬ ∀ as s, run step (.start 0 1) as = some s → s.pc = .loadQuit → Released s := by
  intro hall
  have hfull := (hall (burst [7] 1) _ rfl rfl).full
  revert hfull
  decide

/-- A burst of two, of which the guest accepts none. -/
theorem worker_releases_refused :
    ∃ s, run step (.start 0 1) (burst [7, 8] 0) = some s ∧ s.pc = .loadQuit ∧ Released s := by
  have hmeets : Meets step NoneAccepted (.start 0 1) (burst [7, 8] 0) := by
    apply meets_of_actions (P := fun a => ∀ nTx, a = Act.enqueued nTx → nTx = 0)
    simp [burst]
  exact ⟨_, rfl, rfl, (worker_releases_iff 0 1 (burst [7, 8] 0) _ rfl rfl).mpr hmeets⟩

end Runs

end VirtioBench.Device
