import VirtioBench.Bkend.Backend

/- Whether the transmit worker depends on the receive queue. `dequeue` works on
   `b->vq[1]` but loads its ring size from `b->vq`, which is `b->vq[0]`; `enqueue`
   loads it from its own queue. Two runs with any guest, from backends that
   differ in `vq[0]` only, are compared by their traces: the avail slots read, the
   frames copied and printed, the used entries written.

   1. `workerStep_withRx` — the worker commutes with any change of `vq[0]` and of its
      size that no 16-bit index can tell (`SameSlots`), so such a change does not
      show in a run (`run_withRx`);
   2. `tx_independent_iff` — hence the runs agree, and use the slots of the transmit
      ring, exactly if both receive rings have the size of the transmit ring, as
      far as 16-bit indices go. `rx_size_picks_slot` is a pair of runs that differ. -/
namespace VirtioBench.Bkend

/-! ## dequeue with any guest -/

structure Sys where
  sh : Shared
  w : Worker

inductive SysAct where
  | worker
  | guest (g : GuestWrite)

def sysStep (s : Sys) : SysAct → Option Sys
  | .worker => (workerStep s.sh s.w).map (fun r => ⟨r.1, r.2⟩)
  | .guest g => some { s with sh := { s.sh with mem := g.apply s.sh.mem } }

def sysStart (b : Backend) (mem : GuestMemory) (buf : Nat → UInt8) : Sys :=
  ⟨⟨b, mem, false, []⟩, dequeue b buf⟩

/-! ## Changing the receive queue -/

def Shared.withRx (sh : Shared) (v : VhVirtqueue) : Shared := { sh with bk := sh.bk.setRx v }

def Worker.resize (w : Worker) (size : Int32) : Worker := { w with size := size }

/-- No 16-bit index tells the two sizes apart. -/
def SameSlots (size size' : Int32) : Prop :=
  (size = 0 ↔ size' = 0) ∧ ∀ idx, modSize idx size' = modSize idx size

section WithRx
variable {sh : Shared} {w : Worker} {v : VhVirtqueue} {size : Int32}

@[simp] theorem withRx_vq : (sh.withRx v).bk.vq 1 = sh.bk.vq 1 := by
  have hne : (1 : Fin 2) ≠ 0 := by decide
  exact Function.update_of_ne hne v sh.bk.vq

theorem withRx_gpaToVa (addr : UInt64) (mode : Bool) :
    gpaToVa (sh.withRx v).bk addr mode = gpaToVa sh.bk addr mode := rfl

theorem setVq_comm (b : Backend) (v v' : VhVirtqueue) :
    (b.setVq 0 v).setVq 1 v' = (b.setVq 1 v').setVq 0 v := by
  unfold Backend.setVq
  dsimp only
  rw [Function.update_comm (by decide)]

theorem headStep_withRx : headStep (sh.withRx v) (w.resize size) =
    ((headStep sh w).1.withRx v, (headStep sh w).2.resize size) := by
  unfold headStep
  rw [withRx_vq]
  show (if (sh.bk.vq 1).lastAvailIdx = (sh.mem.avail w.avail).idx then _ else _) = _
  split <;> rfl

theorem fetchStep_withRx (hs : SameSlots w.size size) : fetchStep (sh.withRx v) (w.resize size) =
    ((fetchStep sh w).1.withRx v, (fetchStep sh w).2.resize size) := by
  unfold fetchStep
  by_cases h0 : w.size = 0
  · have h0' : (w.resize size).size = 0 := hs.1.mp h0
    rw [if_pos h0, if_pos h0']
    rfl
  · have h0' : (w.resize size).size ≠ 0 := hs.1.not.mp h0
    have hsize : (w.resize size).size = size := rfl
    rw [if_neg h0, if_neg h0']
    simp only [withRx_vq, hsize, hs.2]
    rfl

theorem walkStep_withRx : walkStep (sh.withRx v) (w.resize size) =
    ((walkStep sh w).1.withRx v, (walkStep sh w).2.resize size) := by
  unfold walkStep
  dsimp only
  rw [withRx_gpaToVa]
  have hdesc : (sh.withRx v).mem.desc (w.resize size).desc (w.resize size).i.toNat =
      sh.mem.desc w.desc w.i.toNat := rfl
  rw [hdesc]
  cases gpaToVa sh.bk (sh.mem.desc w.desc w.i.toNat).addr true with
  | error h => rfl
  | ok chunk =>
    dsimp only
    show (if (sh.mem.desc w.desc w.i.toNat).flags &&& vringDescFWrite ≠ 0 then _ else
      if w.len + (sh.mem.desc w.desc w.i.toNat).len < maxLen then
        if (sh.mem.desc w.desc w.i.toNat).flags &&& vringDescFNext ≠ 0 then _ else _
      else _) = _
    split
    · rfl
    · split
      · split <;> rfl
      · rfl

theorem retireStep_withRx : retireStep (sh.withRx v) (w.resize size) =
    ((retireStep sh w).1.withRx v, (retireStep sh w).2.resize size) := by
  unfold retireStep
  show (if w.len = 0 then _ else _) = _
  split
  · rfl
  · rw [withRx_vq]
    show (Shared.mk ((sh.bk.setVq 0 v).setVq 1 _) _ _ _, _) = _
    rw [setVq_comm]
    rfl

theorem publishStep_withRx : publishStep (sh.withRx v) (w.resize size) =
    ((publishStep sh w).1.withRx v, (publishStep sh w).2.resize size) := by
  unfold publishStep
  rw [withRx_vq]
  rfl

theorem workerStep_withRx (hs : SameSlots w.size size) :
    workerStep (sh.withRx v) (w.resize size) =
      (workerStep sh w).map (fun r => (r.1.withRx v, r.2.resize size)) := by
  have hpc : (w.resize size).pc = w.pc := rfl
  unfold workerStep
  rw [hpc]
  split
  · rw [headStep_withRx]; rfl
  · rw [fetchStep_withRx hs]; rfl
  · rw [walkStep_withRx]; rfl
  · rw [retireStep_withRx]; rfl
  · rw [publishStep_withRx]; rfl
  · rfl

/-- The worker does not load its ring size again. -/
theorem workerStep_size {r : Shared × Worker} (h : workerStep sh w = some r) :
    r.2.size = w.size := by
  unfold workerStep at h
  split at h
  · cases h
    unfold headStep
    split <;> rfl
  · cases h
    unfold fetchStep
    split <;> rfl
  · cases h
    unfold walkStep
    dsimp only
    split
    · rfl
    · split
      · rfl
      · split
        · split <;> rfl
        · rfl
  · cases h
    unfold retireStep
    split <;> rfl
  · cases h
    rfl
  · cases h

end WithRx

/-! ## Runs -/

def Sys.withRx (s : Sys) (v : VhVirtqueue) (size : Int32) : Sys :=
  ⟨s.sh.withRx v, s.w.resize size⟩

theorem sysStep_size {s s' : Sys} {a : SysAct} (h : sysStep s a = some s') :
    s'.w.size = s.w.size := by
  cases a with
  | worker =>
    obtain ⟨r, hr, rfl⟩ := Option.map_eq_some_iff.mp h
    exact workerStep_size hr
  | guest g => cases h; rfl

theorem sysStep_withRx {s : Sys} {v : VhVirtqueue} {size : Int32} (hs : SameSlots s.w.size size)
    (a : SysAct) : sysStep (s.withRx v size) a = (sysStep s a).map (·.withRx v size) := by
  cases a with
  | worker =>
    show Option.map _ (workerStep (s.sh.withRx v) (s.w.resize size)) = _
    rw [workerStep_withRx hs]
    show _ = Option.map _ (Option.map _ (workerStep s.sh s.w))
    rw [Option.map_map, Option.map_map]
    rfl
  | guest g => rfl

/-- A change of the receive queue that the slots do not show does not show in a run. -/
theorem run_withRx {s : Sys} {v : VhVirtqueue} {size : Int32} (hs : SameSlots s.w.size size)
    (as : List SysAct) :
    Transition.run sysStep (s.withRx v size) as =
      (Transition.run sysStep s as).map (·.withRx v size) := by
  induction as generalizing s with
  | nil => rfl
  | cons a as ih =>
    rw [Transition.run_cons, Transition.run_cons, sysStep_withRx hs]
    cases hstep : sysStep s a with
    | none => rfl
    | some s' =>
      simp only [Option.map_some, Option.bind_some]
      -- the worker keeps its size, so the rest of the run commutes as well
      refine ih ?_
      rw [sysStep_size hstep]
      exact hs

theorem run_size {s s' : Sys} {as : List SysAct} (h : Transition.run sysStep s as = some s') :
    s'.w.size = s.w.size :=
  Transition.run_invariant (I := fun x => x.w.size = s.w.size)
    (fun _ _ _ hi hstep => (sysStep_size hstep).trans hi) rfl h

/-! ## Sizes -/

/-- The size of a ring as a 16-bit index sees it. -/
def slots (size : UInt32) : Nat := min size.toNat (2 ^ 16)

theorem mod_slots (idx : UInt16) {size : UInt32} : idx.toNat % size.toNat = idx.toNat % slots size := by
  have hidx := idx.toNat_lt
  unfold slots
  rcases Nat.le_total size.toNat (2 ^ 16) with hle | hge
  · rw [Nat.min_eq_left hle]
  · rw [Nat.min_eq_right hge, Nat.mod_eq_of_lt (by omega), Nat.mod_eq_of_lt (by omega)]

theorem mod_eq_of_slots {n n' : UInt32} (h : slots n = slots n') (idx : UInt16) :
    idx.toNat % n.toNat = idx.toNat % n'.toNat := by
  rw [mod_slots idx, h]
  exact (mod_slots idx).symm

/-- `%` with an `int` made from a power of two, the sign bit included. -/
theorem modSize_pow {size : UInt32} {k : Nat} (hk : size.toNat = 2 ^ k) (idx : UInt16) :
    (modSize idx size.toInt32).toNat = idx.toNat % size.toNat := by
  rcases Nat.lt_or_ge size.toNat (2 ^ 31) with hlt | hge
  · exact modSize_toNat (toInt_toInt32 hlt)
  · -- only 2^31 is left, which as an `int` is its own negative
    have hk31 : k = 31 := by
      have hlow : 31 ≤ k := (Nat.pow_le_pow_iff_right (by decide)).mp (hk ▸ hge)
      have hhigh : k < 32 := (Nat.pow_lt_pow_iff_right (by decide)).mp (hk ▸ size.toNat_lt)
      omega
    have hsize : size = 2147483648 := by
      apply UInt32.toNat_inj.mp
      rw [hk, hk31]
      rfl
    have hint : (2147483648 : UInt32).toInt32.toInt = -(2147483648 : Nat) := by decide
    rw [hsize]
    unfold modSize
    rw [hint, Int.tmod_neg, ← Int.ofNat_tmod, Int.toNat_natCast, UInt16.toNat_ofNat']
    exact Nat.mod_eq_of_lt (Nat.lt_of_le_of_lt (Nat.mod_le _ _) idx.toNat_lt)

theorem toInt32_ne_zero {size : UInt32} {k : Nat} (hk : size.toNat = 2 ^ k) :
    size.toInt32 ≠ 0 := by
  intro h0
  rw [toInt32_eq_zero.mp h0] at hk
  exact absurd hk.symm (Nat.ne_of_gt (Nat.two_pow_pos k))

/-- Sizes that are equal to 16-bit indices pick the same slots. -/
theorem sameSlots_of_slots {n n' : UInt32} {k k' : Nat} (hk : n.toNat = 2 ^ k)
    (hk' : n'.toNat = 2 ^ k') (h : slots n = slots n') : SameSlots n.toInt32 n'.toInt32 := by
  refine ⟨iff_of_false (toInt32_ne_zero hk) (toInt32_ne_zero hk'), fun idx => ?_⟩
  apply UInt16.toNat_inj.mp
  rw [modSize_pow hk, modSize_pow hk']
  exact mod_eq_of_slots h.symm idx

/-- Sizes that are not differ on the smaller of them. -/
theorem mod_ne_of_slots_ne {n n' : UInt32} {k k' : Nat} (hk : n.toNat = 2 ^ k)
    (hk' : n'.toNat = 2 ^ k') (h : slots n ≠ slots n') :
    ∃ idx : UInt16, idx.toNat % n.toNat ≠ idx.toNat % n'.toNat := by
  have hpos : 0 < n.toNat := hk ▸ Nat.two_pow_pos k
  have hpos' : 0 < n'.toNat := hk' ▸ Nat.two_pow_pos k'
  unfold slots at h
  have hsmall : min n.toNat n'.toNat < 2 ^ 16 := by omega
  have hidx : (UInt16.ofNat (min n.toNat n'.toNat)).toNat = min n.toNat n'.toNat := by
    rw [UInt16.toNat_ofNat']
    exact Nat.mod_eq_of_lt hsmall
  refine ⟨UInt16.ofNat (min n.toNat n'.toNat), ?_⟩
  rw [hidx]
  rcases Nat.lt_or_ge n.toNat n'.toNat with hlt | hge
  · rw [Nat.min_eq_left (Nat.le_of_lt hlt), Nat.mod_self, Nat.mod_eq_of_lt hlt]
    omega
  · have hlt : n'.toNat < n.toNat := by omega
    rw [Nat.min_eq_right hge, Nat.mod_self, Nat.mod_eq_of_lt hlt]
    omega

/-! ## Independence -/

/-- The two backends differ in the receive queue only. -/
structure AgreeOffRx (b b' : Backend) : Prop where
  nregions : b'.nregions = b.nregions
  regions : b'.regions = b.regions
  tx : b'.tx = b.tx

/-- The worker, about to take a head, uses the slots of a ring of size `n`. -/
def Sys.SlotsOf (n : UInt32) (s : Sys) : Prop :=
  s.w.pc = .fetch → ∀ s', sysStep s .worker = some s' →
    s'.w.aIdx.toNat = s.sh.bk.tx.lastAvailIdx.toNat % n.toNat ∧
    s'.w.uIdx.toNat = s.sh.bk.tx.lastUsedIdx.toNat % n.toNat

/-- Receive rings of the sizes `n0` and `n0'` make no difference to the worker on a
transmit ring of size `n1`, whose slots it uses. -/
def TxIndependent (n0 n0' n1 : UInt32) : Prop :=
  ∀ (b b' : Backend) (mem : GuestMemory) (buf : Nat → UInt8) (as : List SysAct),
    AgreeOffRx b b' → b.rx.size = n0 → b'.rx.size = n0' → b.tx.size = n1 →
    (Transition.run sysStep (sysStart b mem buf) as).map (·.sh.trace) =
      (Transition.run sysStep (sysStart b' mem buf) as).map (·.sh.trace) ∧
    (∀ s, Transition.run sysStep (sysStart b mem buf) as = some s → s.SlotsOf n1) ∧
    ∀ s, Transition.run sysStep (sysStart b' mem buf) as = some s → s.SlotsOf n1

theorem AgreeOffRx.sysStart_eq {b b' : Backend} (h : AgreeOffRx b b') (mem : GuestMemory)
    (buf : Nat → UInt8) :
    sysStart b' mem buf = (sysStart b mem buf).withRx b'.rx b'.rx.size.toInt32 := by
  have hb : b' = b.setRx b'.rx := by
    obtain ⟨nregions, regions, vq⟩ := b
    obtain ⟨nregions', regions', vq'⟩ := b'
    obtain ⟨rfl, rfl, htx⟩ := h
    unfold Backend.setRx Backend.setVq
    congr 1
    have hrx : vq' 0 = Function.update vq 0 (vq' 0) 0 := by rw [Function.update_self]
    have htx' : vq' 1 = Function.update vq 0 (vq' 0) 1 := by
      rw [Function.update_of_ne (by decide)]
      exact htx
    exact funext (Fin.forall_fin_two.mpr ⟨hrx, htx'⟩)
  have hw : dequeue b' buf = (dequeue b buf).resize b'.rx.size.toInt32 := by
    have htx : b'.vq 1 = b.vq 1 := h.tx
    unfold dequeue Worker.resize
    rw [htx]
    rfl
  unfold sysStart Sys.withRx Shared.withRx
  rw [hw]
  dsimp only
  rw [← hb]

/-- Taking a head, the worker reduces both indices by its own size. -/
theorem fetch_slots {s s' : Sys} {n : UInt32} {k : Nat} (hk : n.toNat = 2 ^ k)
    (hsize : s.w.size = n.toInt32) (hpc : s.w.pc = .fetch) (h : sysStep s .worker = some s') :
    s'.w.aIdx.toNat = s.sh.bk.tx.lastAvailIdx.toNat % n.toNat ∧
    s'.w.uIdx.toNat = s.sh.bk.tx.lastUsedIdx.toNat % n.toNat := by
  obtain ⟨r, hr, rfl⟩ := Option.map_eq_some_iff.mp h
  simp only [workerStep, hpc, Option.some.injEq] at hr
  subst hr
  unfold fetchStep
  rw [if_neg (hsize ▸ toInt32_ne_zero hk)]
  refine ⟨?_, ?_⟩
  · show (modSize s.sh.bk.tx.lastAvailIdx s.w.size).toNat = _
    rw [hsize, modSize_pow hk]
  · show (modSize s.sh.bk.tx.lastUsedIdx s.w.size).toNat = _
    rw [hsize, modSize_pow hk]

/-- The slots of a run are those of the receive ring. -/
theorem run_slotsOf {b : Backend} {mem : GuestMemory} {buf : Nat → UInt8} {as : List SysAct}
    {s : Sys} {n1 : UInt32} {k : Nat} (hk : b.rx.size.toNat = 2 ^ k)
    (hslots : slots b.rx.size = slots n1)
    (hr : Transition.run sysStep (sysStart b mem buf) as = some s) : s.SlotsOf n1 := by
  intro hpc s' hs'
  obtain ⟨ha, hu⟩ := fetch_slots hk (run_size hr) hpc hs'
  rw [ha, hu]
  exact ⟨mod_eq_of_slots hslots _, mod_eq_of_slots hslots _⟩

/-- A receive ring of size `n`, and a transmit ring of size `n1` at index `idx`. -/
def probe (n n1 : UInt32) (idx : UInt16) : Backend :=
  ((default : Backend).setRx { (default : VhVirtqueue) with size := n }).setTx
    { (default : VhVirtqueue) with size := n1, lastAvailIdx := idx }

/-- One more head is available. -/
def probeMemory (idx : UInt16) : GuestMemory :=
  { (default : GuestMemory) with avail := fun _ => ⟨idx + 1, fun _ => 0⟩ }

theorem ne_succ (idx : UInt16) : idx ≠ idx + 1 := by
  intro h
  have hnat := congrArg UInt16.toNat h
  have hlt := idx.toNat_lt
  rw [UInt16.toNat_add, UInt16.toNat_one] at hnat
  omega

def probeStart (n n1 : UInt32) (idx : UInt16) : Sys :=
  sysStart (probe n n1 idx) (probeMemory idx) (fun _ => 0)

/-- The probe tells by which size the worker reduces its index. -/
theorem probe_slot {n n1 : UInt32} {k : Nat} (hk : n.toNat = 2 ^ k) (idx : UInt16)
    (hok : ∀ s, Transition.run sysStep (probeStart n n1 idx) [.worker] = some s → s.SlotsOf n1) :
    idx.toNat % n.toNat = idx.toNat % n1.toNat := by
  let s : Sys := ⟨(probeStart n n1 idx).sh, { (probeStart n n1 idx).w with pc := .fetch }⟩
  have hhead : headStep (probeStart n n1 idx).sh (probeStart n n1 idx).w = (s.sh, s.w) :=
    if_neg (ne_succ idx)
  have hfirst : sysStep (probeStart n n1 idx) .worker = some s := by
    show some (Sys.mk (headStep (probeStart n n1 idx).sh (probeStart n n1 idx).w).1 _) = _
    rw [hhead]
  have hrun : Transition.run sysStep (probeStart n n1 idx) [.worker] = some s := by
    rw [Transition.run_cons, hfirst]
    rfl
  have hstep : sysStep s .worker = some ⟨(fetchStep s.sh s.w).1, (fetchStep s.sh s.w).2⟩ := rfl
  have hown := fetch_slots hk rfl rfl hstep
  have htx := hok s hrun rfl _ hstep
  exact hown.1.symm.trans htx.1

/-- **When the worker is independent of the receive queue.** For power-of-two sizes:
the runs from any two backends that agree off `vq[0]` read the same slots, copy the
same frames and write the same entries, at the slots of the transmit ring,
exactly if both receive rings have its size (from 2^16 on, 16-bit indices do not
tell sizes apart). -/
theorem tx_independent_iff (n0 n0' n1 : UInt32) (k0 k0' k1 : Nat) (h0 : n0.toNat = 2 ^ k0)
    (h0' : n0'.toNat = 2 ^ k0') (h1 : n1.toNat = 2 ^ k1) :
    TxIndependent n0 n0' n1 ↔ slots n0 = slots n1 ∧ slots n0' = slots n1 := by
  constructor
  · intro hind
    have hagree : ∀ idx, AgreeOffRx (probe n0 n1 idx) (probe n0' n1 idx) :=
      fun idx => ⟨rfl, rfl, rfl⟩
    -- sizes that differ do so at some index; the probe starts the worker there
    constructor
    · by_contra hne
      obtain ⟨idx, hidx⟩ := mod_ne_of_slots_ne h0 h1 hne
      have hrun := hind _ _ (probeMemory idx) (fun _ => 0) [.worker] (hagree idx) rfl rfl rfl
      exact hidx (probe_slot h0 idx hrun.2.1)
    · by_contra hne
      obtain ⟨idx, hidx⟩ := mod_ne_of_slots_ne h0' h1 hne
      have hrun := hind _ _ (probeMemory idx) (fun _ => 0) [.worker] (hagree idx) rfl rfl rfl
      exact hidx (probe_slot h0' idx hrun.2.2)
  · rintro ⟨hs, hs'⟩ b b' mem buf as hagree rfl rfl rfl
    refine ⟨?_, fun s hr => run_slotsOf h0 hs hr, fun s hr => run_slotsOf h0' hs' hr⟩
    have hsame : SameSlots (sysStart b mem buf).w.size b'.rx.size.toInt32 :=
      sameSlots_of_slots h0 h0' (hs.trans hs'.symm)
    rw [hagree.sysStart_eq mem buf, run_withRx hsame, Option.map_map]
    rfl

theorem tx_independent_iff_sizes : TxIndependent 256 256 256 ∧ ¬ TxIndependent 256 1024 1024 :=
  ⟨(tx_independent_iff 256 256 256 8 8 8 rfl rfl rfl).mpr ⟨rfl, rfl⟩,
    fun hind => absurd ((tx_independent_iff 256 1024 1024 8 10 10 rfl rfl rfl).mp hind).1 (by decide)⟩

/-- With a transmit ring of 1024 at index 256, a receive ring of 256 makes the worker
read avail slot 0, one of 1024 slot 256. -/
theorem rx_size_picks_slot :
    ¬ ∀ (n0 n0' n1 : UInt32) (k0 k0' k1 : Nat), n0.toNat = 2 ^ k0 → n0'.toNat = 2 ^ k0' →
      n1.toNat = 2 ^ k1 → TxIndependent n0 n0' n1 := by
  intro hall
  have hind := hall 256 1024 1024 8 10 10 rfl rfl rfl (probe 256 1024 256) (probe 1024 1024 256)
    (probeMemory 256) (fun _ => 0) [.worker, .worker] ⟨rfl, rfl, rfl⟩ rfl rfl rfl
  exact absurd hind.1 (by decide)

end VirtioBench.Bkend
