import VirtioBench.Lib.Run
import Mathlib.Logic.Function.Basic

/- The port map of `ConfigManager` (vtb/src/config_manager.cpp, vtb/inc/common.h):
   which queue pairs a port has, whether their queues are enabled, and the
   descriptors of the sockets behind them.

   `pmap` is a `std::map<int, portmap>`: a port that is not there is `none`, and
   `operator[]` inserts one whose fields are all zero. The calls return an error,
   the index, when they would go outside one of the arrays of `MAX_QUEUE_PAIRS`
   entries; loops run from index `i` with `k` iterations left.

   Correspondence (C++ ↔ Lean):
     `vhost_queue_pair`, `vhost_device`      ↔ `VhostQueuePair`, `VhostDevice`
     `port_queue_pair`, `port_device`        ↔ `PortQueuePair`, `PortDevice`
     `portmap`                               ↔ `Portmap`
     `init_vhost_device` and its loop        ↔ `initVhostDevice`, `Portmap.initPairs`
     `set_queue_state` and its loop          ↔ `setQueueState`, `VhostDevice.scan`
     `assign_port_socket`                    ↔ `assignPortSocket`
     `assign_control_path`                   ↔ `assignControlPath`

   `indices_in_range_iff` says which sequences of calls stay inside the arrays:
   exactly those whose `nof_pairs` and `qp_idx` respect the bound that only one of
   the two is tested against, and only from above. -/
namespace VirtioBench.Vtb

def maxQueuePairs : Nat := 8

structure VhostQueuePair where
  rxqId : UInt16
  txqId : UInt16
  rxqEnabled : Bool
  txqEnabled : Bool
  deriving DecidableEq, Repr

structure VhostDevice where
  vid : Int32
  nofQueuePairs : Int32
  qp : Fin maxQueuePairs → VhostQueuePair
  ready : Bool
  ctlqId : UInt16

@[ext] structure PortQueuePair where
  rxqId : Int32
  txqId : Int32
  deriving DecidableEq, Repr

structure PortDevice where
  qp : Fin maxQueuePairs → PortQueuePair
  ctlqId : Int32

structure Portmap where
  vd : VhostDevice
  pd : PortDevice

/-- What `operator[]` inserts. -/
def Portmap.zero : Portmap where
  vd := ⟨0, 0, fun _ => ⟨0, 0, false, false⟩, false, 0⟩
  pd := ⟨fun _ => ⟨0, 0⟩, 0⟩

/-- `std::map<int, portmap>`. -/
structure Pmap where
  find : Int32 → Option Portmap

def Pmap.empty : Pmap := ⟨fun _ => none⟩

def Pmap.insert (m : Pmap) (portId : Int32) (pm : Portmap) : Pmap :=
  ⟨Function.update m.find portId (some pm)⟩

/-! ## The calls -/

/-- The body of the loop in `init_vhost_device`. -/
def Portmap.initPair (pm : Portmap) (i : Fin maxQueuePairs) : Portmap where
  vd := { pm.vd with
    qp := Function.update pm.vd.qp i
      ⟨UInt16.ofNat (i.val * 2), UInt16.ofNat (i.val * 2 + 1), false, false⟩ }
  pd := { pm.pd with qp := Function.update pm.pd.qp i ⟨-1, -1⟩ }

def Portmap.initPairs : Portmap → Nat → Nat → Except Int Portmap
  | pm, _, 0 => .ok pm
  | pm, i, k + 1 =>
    if h : i < maxQueuePairs then (pm.initPair ⟨i, h⟩).initPairs (i + 1) k else .error i

def initVhostDevice (m : Pmap) (portId vid nofPairs : Int32) : Except Int Pmap :=
  -- `pmap[port_id]` creates the entry if there is none
  let pm := (m.find portId).getD Portmap.zero
  let vd := { pm.vd with vid := vid, nofQueuePairs := nofPairs, ready := true }
  (Portmap.initPairs { pm with vd := vd } 0 nofPairs.toInt.toNat).map (m.insert portId)

/-- The loop of `set_queue_state`: the first queue with the id gets the flag. -/
def VhostDevice.scan (vd : VhostDevice) (vringId : UInt16) (enable : Bool) :
    Nat → Nat → Except Int VhostDevice
  | _, 0 => .ok vd
  | i, k + 1 =>
    if h : i < maxQueuePairs then
      let pair := vd.qp ⟨i, h⟩
      if pair.rxqId = vringId then
        .ok { vd with qp := Function.update vd.qp ⟨i, h⟩ { pair with rxqEnabled := enable } }
      else if pair.txqId = vringId then
        .ok { vd with qp := Function.update vd.qp ⟨i, h⟩ { pair with txqEnabled := enable } }
      else vd.scan vringId enable (i + 1) k
    else .error i

def setQueueState (m : Pmap) (portId : Int32) (vringId : UInt16) (enable : Bool) :
    Except Int Pmap :=
  match m.find portId with
  | none => .ok m
  | some pm => (pm.vd.scan vringId enable 0 pm.vd.nofQueuePairs.toInt.toNat).map
      (fun vd => m.insert portId { pm with vd := vd })

/-- The same descriptor for both directions; queue pair 0 marks the device ready. -/
def Portmap.connect (pm : Portmap) (i : Fin maxQueuePairs) (socketFd : Int32) : Portmap where
  vd := if i.val = 0 then { pm.vd with ready := true } else pm.vd
  pd := { pm.pd with qp := Function.update pm.pd.qp i ⟨socketFd, socketFd⟩ }

def assignPortSocket (m : Pmap) (portId qpIdx socketFd : Int32) : Except Int Pmap :=
  match m.find portId with
  | none => .ok m
  | some pm =>
    if qpIdx.toInt < maxQueuePairs then
      -- there is no test against 0
      if h : 0 ≤ qpIdx.toInt ∧ qpIdx.toInt.toNat < maxQueuePairs then
        .ok (m.insert portId (pm.connect ⟨qpIdx.toInt.toNat, h.2⟩ socketFd))
      else .error qpIdx.toInt
    else .ok m

def assignControlPath (m : Pmap) (portId ctlFd : Int32) : Pmap :=
  match m.find portId with
  | none => m
  | some pm => m.insert portId
      { vd := { pm.vd with ctlqId := ctlFd.toUInt32.toUInt16 }
        pd := { pm.pd with ctlqId := ctlFd } }

inductive Call where
  | initVhostDevice (portId vid nofPairs : Int32)
  | setQueueState (portId : Int32) (vringId : UInt16) (enable : Bool)
  | assignPortSocket (portId qpIdx socketFd : Int32)
  | assignControlPath (portId ctlFd : Int32)
  deriving DecidableEq, Repr

def Call.portId : Call → Int32
  | .initVhostDevice p _ _ | .setQueueState p _ _ | .assignPortSocket p _ _
  | .assignControlPath p _ => p

def call (m : Pmap) : Call → Except Int Pmap
  | .initVhostDevice p vid n => initVhostDevice m p vid n
  | .setQueueState p v e => setQueueState m p v e
  | .assignPortSocket p i fd => assignPortSocket m p i fd
  | .assignControlPath p fd => .ok (assignControlPath m p fd)

/-- A call that returns. -/
def step (m : Pmap) (c : Call) : Option Pmap := (call m c).toOption

/-! ## What the calls do -/

section Specs
variable {m m' : Pmap} {pm : Portmap} {vd : VhostDevice} {p q : Int32}

@[simp] theorem insert_self (m : Pmap) (p : Int32) (pm : Portmap) : (m.insert p pm).find p = some pm :=
  Function.update_self ..

theorem insert_of_ne (m : Pmap) (pm : Portmap) (h : q ≠ p) : (m.insert p pm).find q = m.find q :=
  Function.update_of_ne h ..

/-- The pairs `[i, i + k)` initialised. -/
def Portmap.paired (pm : Portmap) (i k : Nat) : Portmap where
  vd := { pm.vd with
    qp := fun j => if i ≤ j.val ∧ j.val < i + k then
        ⟨UInt16.ofNat (j.val * 2), UInt16.ofNat (j.val * 2 + 1), false, false⟩
      else pm.vd.qp j }
  pd := { pm.pd with
    qp := fun j => if i ≤ j.val ∧ j.val < i + k then ⟨-1, -1⟩ else pm.pd.qp j }

theorem paired_zero (pm : Portmap) (i : Nat) : pm.paired i 0 = pm := by
  have hnone : ∀ j : Nat, ¬ (i ≤ j ∧ j < i + 0) := fun j => by omega
  simp only [Portmap.paired, hnone, if_false]

/-- One entry of the interval, and the rest of it. -/
theorem update_interval {β : Type} (f g : Fin maxQueuePairs → β) {i k : Nat}
    (h : i < maxQueuePairs) :
    (fun j => if i + 1 ≤ j.val ∧ j.val < i + 1 + k then g j
      else Function.update f ⟨i, h⟩ (g ⟨i, h⟩) j) =
    fun j => if i ≤ j.val ∧ j.val < i + (k + 1) then g j else f j := by
  funext j
  by_cases hj : j = ⟨i, h⟩
  · subst hj
    rw [if_neg (by dsimp only; omega), if_pos (by dsimp only; omega), Function.update_self]
  · have hne : j.val ≠ i := fun heq => hj (Fin.ext heq)
    rw [Function.update_of_ne hj]
    apply if_congr _ rfl rfl
    omega

theorem paired_succ (pm : Portmap) {i : Nat} (k : Nat) (h : i < maxQueuePairs) :
    (pm.initPair ⟨i, h⟩).paired (i + 1) k = pm.paired i (k + 1) := by
  unfold Portmap.paired Portmap.initPair
  dsimp only
  congr 2
  · exact update_interval pm.vd.qp
      (fun j => ⟨UInt16.ofNat (j.val * 2), UInt16.ofNat (j.val * 2 + 1), false, false⟩) h
  · exact update_interval pm.pd.qp (fun _ => ⟨-1, -1⟩) h

theorem initPairs_ok {i k : Nat} (h : i + k ≤ maxQueuePairs) :
    pm.initPairs i k = .ok (pm.paired i k) := by
  induction k generalizing pm i with
  | zero => rw [Portmap.initPairs, paired_zero]
  | succ k ih =>
    have hi : i < maxQueuePairs := by omega
    rw [Portmap.initPairs, dif_pos hi, ih (by omega), paired_succ pm k hi]

theorem initPairs_error {i k : Nat} (hi : i ≤ maxQueuePairs) (h : maxQueuePairs < i + k) :
    pm.initPairs i k = .error (maxQueuePairs : Int) := by
  induction k generalizing pm i with
  | zero => omega
  | succ k ih =>
    rw [Portmap.initPairs]
    by_cases hlt : i < maxQueuePairs
    · rw [dif_pos hlt, ih (by omega) (by omega)]
    · obtain rfl : i = maxQueuePairs := by omega
      rw [dif_neg hlt]

/-- What `init_vhost_device` leaves of the port `pm`. -/
def Portmap.initialised (pm : Portmap) (vid nofPairs : Int32) : Portmap :=
  Portmap.paired
    { pm with vd := { pm.vd with vid := vid, nofQueuePairs := nofPairs, ready := true } }
    0 nofPairs.toInt.toNat

theorem initVhostDevice_ok {vid n : Int32} (h : n.toInt ≤ maxQueuePairs) :
    initVhostDevice m p vid n =
      .ok (m.insert p (((m.find p).getD Portmap.zero).initialised vid n)) := by
  unfold initVhostDevice
  dsimp only
  rw [initPairs_ok (by omega)]
  rfl

theorem initVhostDevice_error {vid n : Int32} (h : maxQueuePairs < n.toInt) :
    initVhostDevice m p vid n = .error (maxQueuePairs : Int) := by
  unfold initVhostDevice
  dsimp only
  rw [initPairs_error (Nat.zero_le _) (by omega)]
  rfl

/-- The scan stays inside the array if its bound does, and changes flags only. -/
theorem scan_ok (vd : VhostDevice) (v : UInt16) (e : Bool) {i k : Nat} (h : i + k ≤ maxQueuePairs) :
    ∃ qp, vd.scan v e i k = .ok { vd with qp := qp } := by
  induction k generalizing i with
  | zero => exact ⟨vd.qp, rfl⟩
  | succ k ih =>
    have hi : i < maxQueuePairs := by omega
    rw [VhostDevice.scan, dif_pos hi]
    dsimp only
    split
    · exact ⟨_, rfl⟩
    · split
      · exact ⟨_, rfl⟩
      · exact ih (by omega)

theorem setQueueState_none {v : UInt16} {e : Bool} (h : m.find p = none) :
    setQueueState m p v e = .ok m := by
  unfold setQueueState
  rw [h]

theorem setQueueState_some {v : UInt16} {e : Bool} (h : m.find p = some pm) :
    setQueueState m p v e = (pm.vd.scan v e 0 pm.vd.nofQueuePairs.toInt.toNat).map
      (fun vd => m.insert p { pm with vd := vd }) := by
  unfold setQueueState
  rw [h]

/-- `assign_port_socket` on a port that is there. -/
theorem assignPortSocket_some {i : Int32} (fd : Int32) (h : m.find p = some pm)
    (hi : 0 ≤ i.toInt) :
    (∃ j : Fin maxQueuePairs, i.toInt = j.val ∧
      assignPortSocket m p i fd = .ok (m.insert p (pm.connect j fd))) ∨
    (maxQueuePairs ≤ i.toInt ∧ assignPortSocket m p i fd = .ok m) := by
  unfold assignPortSocket
  rw [h]
  dsimp only
  by_cases hlt : i.toInt < maxQueuePairs
  · left
    have hnat : i.toInt.toNat < maxQueuePairs := by omega
    refine ⟨⟨i.toInt.toNat, hnat⟩, ?_, ?_⟩
    · exact (Int.toNat_of_nonneg hi).symm
    · rw [if_pos hlt, dif_pos ⟨hi, hnat⟩]
  · right
    exact ⟨by omega, by rw [if_neg hlt]⟩

theorem assignPortSocket_error {i fd : Int32} (h : m.find p = some pm) (hi : i.toInt < 0) :
    assignPortSocket m p i fd = .error i.toInt := by
  unfold assignPortSocket
  rw [h]
  dsimp only
  rw [if_pos (by omega), dif_neg (by omega)]

/-- What a call that returns can do. -/
inductive CallMove (m : Pmap) : Call → Pmap → Prop
  | init (p vid n : Int32) (hn : n.toInt ≤ maxQueuePairs) :
      CallMove m (.initVhostDevice p vid n)
        (m.insert p (((m.find p).getD Portmap.zero).initialised vid n))
  | unknownQueue (p : Int32) (v : UInt16) (e : Bool) (hp : m.find p = none) :
      CallMove m (.setQueueState p v e) m
  | setQueue (p : Int32) (v : UInt16) (e : Bool) (pm : Portmap) (vd : VhostDevice)
      (hp : m.find p = some pm)
      (hs : pm.vd.scan v e 0 pm.vd.nofQueuePairs.toInt.toNat = .ok vd) :
      CallMove m (.setQueueState p v e) (m.insert p { pm with vd := vd })
  | noSocket (p i fd : Int32) (hp : m.find p = none ∨ maxQueuePairs ≤ i.toInt) :
      CallMove m (.assignPortSocket p i fd) m
  | socket (p i fd : Int32) (pm : Portmap) (j : Fin maxQueuePairs) (hp : m.find p = some pm)
      (hj : i.toInt = j.val) : CallMove m (.assignPortSocket p i fd) (m.insert p (pm.connect j fd))
  | noControl (p fd : Int32) (hp : m.find p = none) : CallMove m (.assignControlPath p fd) m
  | control (p fd : Int32) (pm : Portmap) (hp : m.find p = some pm) :
      CallMove m (.assignControlPath p fd) (m.insert p
        { vd := { pm.vd with ctlqId := fd.toUInt32.toUInt16 }
          pd := { pm.pd with ctlqId := fd } })

theorem call_cases {c : Call} (h : call m c = .ok m') : CallMove m c m' := by
  cases c with
  | initVhostDevice p vid n =>
    dsimp only [call] at h
    by_cases hn : n.toInt ≤ maxQueuePairs
    · rw [initVhostDevice_ok hn] at h
      cases h
      exact .init p vid n hn
    · rw [initVhostDevice_error (by omega)] at h
      cases h
  | setQueueState p v e =>
    dsimp only [call] at h
    cases hp : m.find p with
    | none =>
      rw [setQueueState_none hp] at h
      cases h
      exact .unknownQueue p v e hp
    | some pm =>
      rw [setQueueState_some hp] at h
      cases hs : pm.vd.scan v e 0 pm.vd.nofQueuePairs.toInt.toNat with
      | error i => rw [hs] at h; cases h
      | ok vd =>
        rw [hs] at h
        cases h
        exact .setQueue p v e pm vd hp hs
  | assignPortSocket p i fd =>
    dsimp only [call] at h
    cases hp : m.find p with
    | none =>
      unfold assignPortSocket at h
      rw [hp] at h
      cases h
      exact .noSocket p i fd (.inl hp)
    | some pm =>
      by_cases hi : 0 ≤ i.toInt
      · rcases assignPortSocket_some fd hp hi with ⟨j, hj, heq⟩ | ⟨hge, heq⟩
        · rw [heq] at h
          cases h
          exact .socket p i fd pm j hp hj
        · rw [heq] at h
          cases h
          exact .noSocket p i fd (.inr hge)
      · rw [assignPortSocket_error hp (by omega)] at h
        cases h
  | assignControlPath p fd =>
    dsimp only [call, assignControlPath] at h
    cases hp : m.find p with
    | none =>
      rw [hp] at h
      cases h
      exact .noControl p fd hp
    | some pm =>
      rw [hp] at h
      cases h
      exact .control p fd pm hp

theorem step_eq_some {c : Call} : step m c = some m' ↔ call m c = .ok m' := by
  unfold step
  cases call m c with
  | error i => simp [Except.toOption]
  | ok m'' => simp [Except.toOption]

/-- No call touches another port. -/
theorem CallMove.other {c : Call} (h : CallMove m c m') (hq : q ≠ c.portId) :
    m'.find q = m.find q := by
  cases h with
  | init | setQueue | socket | control => exact insert_of_ne _ _ hq
  | unknownQueue | noSocket | noControl => rfl

end Specs

/-! ## Indices -/

/-- Every port has at most `MAX_QUEUE_PAIRS` pairs. -/
def Pmap.Bounded (m : Pmap) : Prop :=
  ∀ p pm, m.find p = some pm → pm.vd.nofQueuePairs.toInt ≤ maxQueuePairs

/-- The call goes outside no array. -/
def InRange (m : Pmap) (c : Call) : Prop := ∀ i, call m c ≠ .error i

/-- `nof_pairs` is not above the maximum, and a `qp_idx` for a port that is there
not below 0. -/
def InBounds (m : Pmap) : Call → Prop
  | .initVhostDevice _ _ n => n.toInt ≤ maxQueuePairs
  | .assignPortSocket p i _ => m.find p ≠ none → 0 ≤ i.toInt
  | .setQueueState .. | .assignControlPath .. => True

section Indices
variable {m m' : Pmap} {c : Call}

theorem bounded_insert {p : Int32} {pm : Portmap} (hb : m.Bounded)
    (h : pm.vd.nofQueuePairs.toInt ≤ maxQueuePairs) : (m.insert p pm).Bounded := by
  intro q qm hq
  by_cases hqp : q = p
  · subst hqp
    rw [insert_self] at hq
    cases hq
    exact h
  · rw [insert_of_ne m pm hqp] at hq
    exact hb q qm hq

theorem scan_nofQueuePairs {vd vd' : VhostDevice} {v : UInt16} {e : Bool} {i k : Nat}
    (hk : i + k ≤ maxQueuePairs) (h : vd.scan v e i k = .ok vd') :
    vd'.nofQueuePairs = vd.nofQueuePairs := by
  obtain ⟨qp, hqp⟩ := scan_ok vd v e hk
  rw [hqp] at h
  cases h
  rfl

theorem step_bounded (hb : m.Bounded) (h : step m c = some m') : m'.Bounded := by
  cases call_cases (step_eq_some.mp h) with
  | init p vid n hn => exact bounded_insert hb hn
  | setQueue p v e pm vd hp hs =>
    have hpm := hb p pm hp
    apply bounded_insert hb
    dsimp only
    rw [scan_nofQueuePairs (by omega) hs]
    exact hpm
  | socket p i fd pm j hp hj =>
    apply bounded_insert hb
    have hpm := hb p pm hp
    unfold Portmap.connect
    dsimp only
    split <;> exact hpm
  | control p fd pm hp => exact bounded_insert hb (hb p pm hp)
  | unknownQueue | noSocket | noControl => exact hb

theorem inRange_iff (hb : m.Bounded) : InRange m c ↔ InBounds m c := by
  cases c with
  | initVhostDevice p vid n =>
    by_cases hn : n.toInt ≤ maxQueuePairs
    · refine iff_of_true (fun i => ?_) hn
      rw [call, initVhostDevice_ok hn]
      exact nofun
    · refine iff_of_false (fun hr => ?_) hn
      exact hr _ (initVhostDevice_error (by omega))
  | setQueueState p v e =>
    refine iff_of_true (fun i => ?_) trivial
    rw [call]
    cases hp : m.find p with
    | none => rw [setQueueState_none hp]; exact nofun
    | some pm =>
      -- the bound of the scan was stored by an `init_vhost_device` that returned
      have hpm := hb p pm hp
      obtain ⟨qp, hs⟩ := scan_ok pm.vd v e (i := 0)
        (k := pm.vd.nofQueuePairs.toInt.toNat) (by omega)
      rw [setQueueState_some hp, hs]
      exact nofun
  | assignPortSocket p i fd =>
    cases hp : m.find p with
    | none =>
      refine iff_of_true (fun j => ?_) (fun h => (h hp).elim)
      rw [call, assignPortSocket, hp]
      exact nofun
    | some pm =>
      have hne : m.find p ≠ none := by rw [hp]; exact nofun
      by_cases hi : 0 ≤ i.toInt
      · refine iff_of_true (fun j => ?_) (fun _ => hi)
        rw [call]
        rcases assignPortSocket_some fd hp hi with ⟨j, -, h⟩ | ⟨-, h⟩ <;> rw [h] <;>
          exact nofun
      · refine iff_of_false (fun hr => ?_) (fun h => hi (h hne))
        exact hr _ (assignPortSocket_error hp (by omega))
  | assignControlPath p fd => exact iff_of_true (fun i => nofun) trivial

/-- **When the indices are in range.** Whatever the arguments, a sequence of calls
goes outside no array and leaves no port with more than `MAX_QUEUE_PAIRS` pairs
exactly if every `nof_pairs` is at most that, and every `qp_idx` for a port that is
there at least 0. -/
theorem indices_in_range_iff (cs : List Call) :
    ((∀ bs c m, bs ++ [c] <+: cs → Transition.run step Pmap.empty bs = some m → InRange m c) ∧
      ∀ bs m, bs <+: cs → Transition.run step Pmap.empty bs = some m → m.Bounded) ↔
    Transition.Meets step InBounds Pmap.empty cs := by
  have hempty : Pmap.empty.Bounded := fun p pm hp => (by cases hp)
  have hkeep : ∀ m c m', Pmap.Bounded m → step m c = some m' → m'.Bounded :=
    fun m c m' => step_bounded
  have hbounded : ∀ bs m, bs <+: cs → Transition.run step Pmap.empty bs = some m → m.Bounded :=
    fun bs m _ hr => Transition.run_invariant hkeep hempty hr
  rw [and_iff_left hbounded, ← Transition.meets_iff]
  exact Transition.meets_congr hkeep (fun m c hb => inRange_iff hb) hempty

/-- An `init_vhost_device` with nine pairs writes a ninth entry. -/
theorem ninth_pair_out_of_range :
    ¬ ∀ (bs : List Call) (c : Call) (m : Pmap),
      Transition.run step Pmap.empty bs = some m → InRange m c := by
  intro hall
  have hrange := hall [] (.initVhostDevice 0 0 9) Pmap.empty rfl
  exact hrange 8 rfl

end Indices

end VirtioBench.Vtb
