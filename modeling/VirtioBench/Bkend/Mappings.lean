import VirtioBench.Bkend.TxQueue
import VirtioBench.Bkend.Regions
import VirtioBench.Bkend.Enqueue

/- Whether what `dequeue` and `enqueue` copy lies in what was mapped (code_dump/nonm/bkend.c).
   `gpa_to_va` translates the first byte of a buffer; how much is copied comes from the
   descriptor's length. SET_MEM_TABLE maps `size + mmap_offset` bytes for a region, a
   64-bit sum.

   `Fits` is the condition on the buffer: it ends before the mapping of the region its first
   byte lies in. `inMapping_of_fits` and `fits_of_inMapping` are about any translated
   address, `copies_mapped_iff` about the copies of the two workers after a SET_MEM_TABLE. -/
namespace VirtioBench.Bkend

/-- The length of the mapping. -/
def DeviceRegion.mapLen (r : DeviceRegion) : Nat := (r.size + r.mmapOffset).toNat

def DeviceRegion.Maps (r : DeviceRegion) (x : Nat) : Prop :=
  r.mmapAddr.toNat ≤ x ∧ x < r.mmapAddr.toNat + r.mapLen

/-- `n` bytes from `va` lie in the mapping of one region. -/
def InMapping (rs : List DeviceRegion) (va : UInt64) (n : Nat) : Prop :=
  n = 0 ∨ ∃ r ∈ rs, r.mmapAddr.toNat ≤ va.toNat ∧ va.toNat + n ≤ r.mmapAddr.toNat + r.mapLen

instance (rs : List DeviceRegion) (va : UInt64) (n : Nat) : Decidable (InMapping rs va n) :=
  inferInstanceAs (Decidable (_ ∨ ∃ r ∈ rs, _))

/-- What `mmap` promises of its results: the mappings do not wrap and do not overlap. -/
structure Mmapped (rs : List DeviceRegion) : Prop where
  fits : ∀ r ∈ rs, r.mmapAddr.toNat + r.mapLen ≤ UInt64.size
  apart : rs.Pairwise (fun r r' => ∀ x, ¬ (r.Maps x ∧ r'.Maps x))

/-- The region `gpa_to_va` takes for `addr`. -/
def regionOf (rs : List DeviceRegion) (addr : UInt64) : Option DeviceRegion :=
  rs.find? (fun r => (r.translate r.gpa addr).isSome)

/-- `n` bytes from `addr` end before the mapping of the region that `addr` lies in, if there is one. -/
def Fits (rs : List DeviceRegion) (addr : UInt64) (n : Nat) : Prop :=
  n = 0 ∨ ∀ r ∈ regionOf rs addr, (addr - r.gpa + r.mmapOffset).toNat + n ≤ r.mapLen

instance (rs : List DeviceRegion) (addr : UInt64) (n : Nat) : Decidable (Fits rs addr n) :=
  inferInstanceAs (Decidable (_ ∨ ∀ r ∈ regionOf rs addr, _))

/-- The length of the mapping of some region wraps. -/
def MapLenWraps (rs : List DeviceRegion) : Prop :=
  ∃ r ∈ rs, UInt64.size ≤ r.size.toNat + r.mmapOffset.toNat

/-! ## Translated addresses -/

section Mapping
variable {b : Backend} {addr va : UInt64} {mode : Bool} {n : Nat} {r : DeviceRegion}

/-- The address in the region that was found. -/
theorem gpaToVa_regionOf (h : gpaToVa b addr mode = .ok va) :
    ∃ r, regionOf b.table addr = some r ∧ r ∈ b.table ∧ Within r.gpa r.size addr.toNat ∧
      va = r.mmapAddr + (addr - r.gpa + r.mmapOffset) := by
  unfold gpaToVa at h
  rw [lookup_eq] at h
  cases hfind : b.table.findSome? (fun r => r.translate r.gpa addr) with
  | none =>
    rw [hfind] at h
    dsimp only at h
    split at h <;> cases h
  | some va' =>
    rw [hfind] at h
    cases h
    obtain ⟨before, r, after, htable, hr, hbefore⟩ := List.findSome?_eq_some_iff.mp hfind
    obtain ⟨hin, hva⟩ := translate_eq_some hr
    refine ⟨r, ?_, ?_, hin, ?_⟩
    · unfold regionOf
      rw [List.find?_eq_some_iff_append]
      refine ⟨?_, before, after, htable, ?_⟩
      · rw [hr]
        rfl
      · intro r' hr'
        rw [hbefore r' hr']
        rfl
    · rw [htable]
      exact List.mem_append_right _ List.mem_cons_self
    · rw [hva]
      unfold DeviceRegion.host
      ac_rfl

theorem gpaToVa_of_regionOf (h : regionOf b.table addr = some r) (mode : Bool) :
    ∃ va, gpaToVa b addr mode = .ok va := by
  unfold gpaToVa
  rw [lookup_eq]
  cases hfind : b.table.findSome? (fun r => r.translate r.gpa addr) with
  | none =>
    have hnone := List.findSome?_eq_none_iff.mp hfind r (List.mem_of_find?_eq_some h)
    have hsome := List.find?_some h
    rw [hnone] at hsome
    cases hsome
  | some va => exact ⟨va, rfl⟩

theorem va_toNat {offset : UInt64} (hmap : r.mmapAddr.toNat + r.mapLen ≤ UInt64.size)
    (hlt : offset.toNat < r.mapLen) :
    (r.mmapAddr + offset).toNat = r.mmapAddr.toNat + offset.toNat := by
  rw [UInt64.toNat_add]
  apply Nat.mod_eq_of_lt
  show _ < UInt64.size
  omega

/-- A buffer that fits is copied within one mapping. -/
theorem inMapping_of_fits (hmmap : Mmapped b.table) (h : gpaToVa b addr mode = .ok va)
    (hfits : Fits b.table addr n) : InMapping b.table va n := by
  obtain ⟨r, hregion, hr, -, rfl⟩ := gpaToVa_regionOf h
  by_cases h0 : n = 0
  · exact .inl h0
  have hend := hfits.resolve_left h0 r hregion
  have hva := va_toNat (hmmap.fits r hr) (show (addr - r.gpa + r.mmapOffset).toNat < r.mapLen by omega)
  exact .inr ⟨r, hr, by omega, by omega⟩

/-- Without a sum that wraps, the first byte lies in the mapping of its region. -/
theorem offset_lt_mapLen (hr : r.size.toNat + r.mmapOffset.toNat < UInt64.size)
    (hin : Within r.gpa r.size addr.toNat) : (addr - r.gpa + r.mmapOffset).toNat < r.mapLen := by
  obtain ⟨hle, hlt⟩ := hin
  have hsub : (addr - r.gpa).toNat = addr.toNat - r.gpa.toNat :=
    UInt64.toNat_sub_of_le _ _ (UInt64.le_iff_toNat_le.mpr hle)
  have hsize : UInt64.size = 2 ^ 64 := rfl
  unfold DeviceRegion.mapLen
  rw [UInt64.toNat_add, UInt64.toNat_add, hsub, Nat.mod_eq_of_lt (by omega), Nat.mod_eq_of_lt (by omega)]
  omega

/-- And a buffer that is copied within one mapping fits. -/
theorem fits_of_inMapping (hmmap : Mmapped b.table) (hwraps : ¬ MapLenWraps b.table)
    (h : gpaToVa b addr mode = .ok va) (hin : InMapping b.table va n) : Fits b.table addr n := by
  obtain ⟨r, hregion, hr, hwithin, rfl⟩ := gpaToVa_regionOf h
  by_cases h0 : n = 0
  · exact .inl h0
  obtain ⟨r', hr', hle, hend⟩ := hin.resolve_left h0
  have hsum : r.size.toNat + r.mmapOffset.toNat < UInt64.size := by
    by_contra hge
    exact hwraps ⟨r, hr, by omega⟩
  have hoffset := offset_lt_mapLen hsum hwithin
  have hva := va_toNat (hmmap.fits r hr) hoffset
  -- the mapping the bytes are in has the first byte in common with the region's own
  have hsame : r' = r := by
    by_contra hne
    have hsymm : Std.Symm (fun r r' : DeviceRegion => ∀ x, ¬ (r.Maps x ∧ r'.Maps x)) :=
      ⟨fun _ _ hapart x hx => hapart x hx.symm⟩
    refine hmmap.apart.forall hr' hr hne _ ⟨⟨hle, ?_⟩, ?_, ?_⟩
    all_goals omega
  subst hsame
  refine .inr (fun r hr => ?_)
  cases hregion.symm.trans hr
  omega

/-- The bytes from a guest address that are copied lie in one mapping if they fit, and only then
if no length of a mapping wraps. -/
theorem mapped_iff (hmmap : Mmapped b.table) (addr : UInt64) (mode : Bool) (n : Nat) :
    (Fits b.table addr n → ∀ va, gpaToVa b addr mode = .ok va → InMapping b.table va n) ∧
    (¬ MapLenWraps b.table → (∀ va, gpaToVa b addr mode = .ok va → InMapping b.table va n) →
      Fits b.table addr n) := by
  constructor
  · intro hfits va hva
    exact inMapping_of_fits hmmap hva hfits
  · intro hwraps hall
    cases hregion : regionOf b.table addr with
    | none =>
      refine .inr (fun r hr => ?_)
      rw [hregion] at hr
      cases hr
    | some r =>
      obtain ⟨va, hva⟩ := gpaToVa_of_regionOf hregion mode
      exact fits_of_inMapping hmmap hwraps hva (hall va hva)

end Mapping

/-! ## The copies -/

/-- The bytes a copy of `dequeue` takes. -/
def Event.copied : Event → Nat
  | .memcpy _ _ len => len.toNat
  | .availRead .. | .packet _ | .fileHeader | .usedWrite .. | .publish _ => 0

/-- What the next step of `dequeue` copies lies in one mapping. -/
def DequeueMapped (sh : Shared) (w : Worker) : Prop :=
  ∃ r es, workerStep sh w = some r ∧ r.1.trace = sh.trace ++ es ∧
    ∀ va, gpaToVa sh.bk (sh.mem.desc w.desc w.i.toNat).addr true = .ok va →
      InMapping sh.bk.table va (es.map Event.copied).sum

/-- What the next step of `enqueue` copies lies in one mapping. -/
def EnqueueMapped (sh : RxShared) (w : RxWorker) : Prop :=
  ∃ r es, rxStep sh w = some r ∧ r.1.trace = sh.trace ++ es ∧
    ∀ va, gpaToVa sh.bk (w.vec w.cnt).bufAddr false = .ok va →
      InMapping sh.bk.table va (es.flatMap RxEvent.bytes).length

/-- The bytes of the buffer of `d` that `dequeue` copies after `len` others. -/
def Backend.taken (b : Backend) (len : UInt32) (d : VringDesc) : Nat :=
  if b.readable d = true ∧ len + d.len < maxLen then d.len.toNat else 0

/-- The bytes `enqueue` puts into the next buffer. -/
def RxWorker.put (w : RxWorker) : Nat :=
  if w.cnt = 0 then
    metaLen.toNat + min w.remainingLen.toNat ((w.vec w.cnt).bufLen - metaLen).toNat
  else min w.remainingLen.toNat (w.vec w.cnt).bufLen.toNat

theorem walkStep_copied (sh : Shared) (w : Worker) :
    ∃ es, (walkStep sh w).1.trace = sh.trace ++ es ∧
      (es.map Event.copied).sum = sh.bk.taken w.len (sh.mem.desc w.desc w.i.toNat) := by
  unfold Backend.taken
  by_cases hr : sh.bk.readable (sh.mem.desc w.desc w.i.toNat) = true
  · obtain ⟨chunk, -, hwalk⟩ := walkStep_readable rfl hr
    rw [hwalk]
    by_cases hfits : w.len + (sh.mem.desc w.desc w.i.toNat).len < maxLen
    · have hboth : sh.bk.readable (sh.mem.desc w.desc w.i.toNat) = true ∧
          w.len + (sh.mem.desc w.desc w.i.toNat).len < maxLen := ⟨hr, hfits⟩
      rw [if_pos hfits, if_pos hboth]
      exact ⟨_, rfl, Nat.add_zero _⟩
    · rw [if_neg hfits, if_neg (fun hall => hfits hall.2)]
      exact ⟨[], (List.append_nil _).symm, rfl⟩
  · obtain ⟨e, hend⟩ := walkStep_unreadable hr
    rw [hend, if_neg (fun hall => hr hall.1)]
    exact ⟨[], (List.append_nil _).symm, rfl⟩

theorem dequeueMapped_iff {sh : Shared} {w : Worker} (hpc : w.pc = .walk) : DequeueMapped sh w ↔
    ∀ va, gpaToVa sh.bk (sh.mem.desc w.desc w.i.toNat).addr true = .ok va →
      InMapping sh.bk.table va (sh.bk.taken w.len (sh.mem.desc w.desc w.i.toNat)) := by
  have hstep := workerStep_walk sh hpc
  obtain ⟨es, hes, hsum⟩ := walkStep_copied sh w
  rw [← hsum]
  constructor
  · rintro ⟨r, es', hr, hes', hall⟩
    cases hstep.symm.trans hr
    cases List.append_cancel_left (hes.symm.trans hes')
    exact hall
  · intro hall
    exact ⟨_, es, hstep, hes, hall⟩

theorem piece_length (w : RxWorker) : w.piece.length = w.put := by
  unfold RxWorker.piece RxWorker.put RxWorker.chunk
  split
  · rw [List.length_append, bytes_length, Vector.length_toList, minU32_toNat]
    rfl
  · rw [bytes_length, minU32_toNat]

theorem enqueueMapped_iff {sh : RxShared} {w : RxWorker} (hpc : w.pc = .scatter) : EnqueueMapped sh w ↔
    ∀ va, gpaToVa sh.bk (w.vec w.cnt).bufAddr false = .ok va → InMapping sh.bk.table va w.put := by
  cases hva : gpaToVa sh.bk (w.vec w.cnt).bufAddr false with
  | error e =>
    -- the worker ends without a copy
    refine iff_of_true ?_ (fun va h => by cases h)
    have hstep : rxStep sh w = some (sh, { w with pc := .halted e }) := by
      unfold rxStep rxScatterStep
      rw [hpc]
      dsimp only
      rw [hva]
    refine ⟨_, [], hstep, (List.append_nil _).symm, fun va h => ?_⟩
    rw [hva] at h
    cases h
  | ok va =>
    obtain ⟨sh', slot, elem, hstep, htrace, -⟩ := rxStep_scatter hpc hva
    have hlen : ((w.copies va ++ [RxEvent.usedWrite w.uIdx elem,
        .publish (sh.bk.rx.lastUsedIdx + 1)]).flatMap RxEvent.bytes).length = w.put := by
      rw [List.flatMap_append, copies_bytes, List.length_append, piece_length]
      rfl
    unfold EnqueueMapped
    rw [← hlen]
    constructor
    · rintro ⟨r, es, hr, hes, hall⟩
      cases hstep.symm.trans hr
      cases List.append_cancel_left (htrace.symm.trans hes)
      rw [hva] at hall
      exact hall
    · intro hall
      refine ⟨_, _, hstep, htrace, ?_⟩
      rw [hva]
      exact hall

/-! ## After SET_MEM_TABLE -/

/-- The loop over the regions only returns if every `mmap` succeeds. -/
theorem mapRegions_mapped {env : Calls} {m : VhMsg} {i k : Nat} {s s' : Server}
    (h : mapRegions env m i k s = .ok s') {j : Nat} (hj : i ≤ j) (hjk : j < i + k) :
    env.mmap j ≠ none := by
  induction k generalizing i s with
  | zero => omega
  | succ k ih =>
    rw [mapRegions] at h
    split at h
    · cases hmap : env.mmap i with
      | none =>
        rw [hmap] at h
        cases h
      | some addr =>
        rw [hmap] at h
        by_cases hji : j = i
        · rw [hji, hmap]
          exact Option.some_ne_none addr
        · exact ih h (by omega) (by omega)
    · cases h

/-- The table a SET_MEM_TABLE leaves. -/
theorem setMemTable_table {env : Calls} {m : VhMsg} {s s' : Server} (hm : m.req = .setMemTable)
    (h : dispatch env s m = .ok s') : s'.sh.bk.table = memTable env m := by
  have hloop : mapRegions env m 0 m.nregions.toNat
      ((s.note m).setBk { (s.note m).sh.bk with nregions := m.nregions }) = .ok s' := by
    rw [dispatch_known (request_of_setMemTable hm), switch, hm] at h
    exact h
  obtain ⟨hle, -⟩ := mapRegions_ok hloop (Nat.zero_le _)
  obtain ⟨s'', hs'', -, htable⟩ := setMemTable_returns s hm (by omega)
    (fun i hi => mapRegions_mapped hloop (Nat.zero_le i) (by omega))
  cases h.symm.trans hs''
  exact htable

/-- The worker of `dequeue` at a descriptor, with the table of `twoRegions`. -/
def pageShared (d : VringDesc) : Shared where
  bk := { (default : Backend) with
    nregions := 2
    regions := Vector.ofFn (storedRegion twoMappings twoRegions) }
  mem := { (default : GuestMemory) with desc := fun _ _ => d }
  fhdone := false
  trace := []

def atDescriptor : Worker := { dequeue (pageShared default).bk (fun _ => 0) with pc := .walk }

theorem twoRegions_mmapped : Mmapped (memTable twoMappings twoRegions) := by
  rw [twoRegions_table]
  constructor
  · decide
  · simp [DeviceRegion.Maps, DeviceRegion.mapLen]
    omega

/-- It is the table SET_MEM_TABLE leaves. -/
theorem twoRegions_stored (d : VringDesc) : ∃ s', dispatch twoMappings zeroed twoRegions = .ok s' ∧
    (pageShared d).bk.table = s'.sh.bk.table := by
  have hreq : twoRegions.req = .setMemTable := by decide
  have hmap : ∀ i < twoRegions.nregions.toNat, twoMappings.mmap i ≠ none := by
    intro i _
    simp [twoMappings]
  obtain ⟨s', hs', -, htable⟩ := setMemTable_returns zeroed hreq (by decide) hmap
  refine ⟨s', hs', ?_⟩
  rw [htable, twoRegions_table]
  show (Vector.ofFn (storedRegion twoMappings twoRegions)).toList.take 2 = _
  decide

end VirtioBench.Bkend
