import VirtioBench.Bkend.Message
import VirtioBench.Lib.FirstMatch
import Mathlib.Data.List.Pairwise

/- The region table (code_dump/nonm/bkend.c). SET_MEM_TABLE stores for each region where it is
   for the guest, for the other process and here; `gpa_to_va` and `qva_to_va` look for
   the first region an address lies in and take the distance to its start along.

   `Backend.table` is the part of the array the loops go over, `memTable` what a message
   makes it. `translations_agree` is about tables whose regions are apart (`MemTableOk`): the
   two translations agree, miss exactly the addresses outside the regions, and no two guest
   addresses get the same host address. -/
namespace VirtioBench.Bkend

/-! ## Translation -/

/-- `[start, start + size)`, without wrapping. -/
def Within (start size : UInt64) (x : Nat) : Prop :=
  start.toNat ≤ x ∧ x < start.toNat + size.toNat

instance (start size : UInt64) (x : Nat) : Decidable (Within start size x) :=
  inferInstanceAs (Decidable (_ ∧ _))

/-- The host address at the distance of `addr` from `start`. -/
def DeviceRegion.host (r : DeviceRegion) (start addr : UInt64) : UInt64 :=
  addr - start + r.mmapAddr + r.mmapOffset

/-- The regions the loops go over. -/
def Backend.table (b : Backend) : List DeviceRegion := b.regions.toList.take b.nregions.toNat

section Translation
variable {b : Backend} {r : DeviceRegion} {start addr va : UInt64} {origin : DeviceRegion → UInt64}
  {notFound : Halt}

/-- An end that wraps lies before the start, so nothing is found in such a region. -/
theorem translate_eq_some (h : r.translate start addr = some va) :
    Within start r.size addr.toNat ∧ va = r.host start addr := by
  unfold DeviceRegion.translate at h
  split at h
  · next hin =>
    obtain ⟨hle, hlt⟩ := hin
    rw [UInt64.le_iff_toNat_le] at hle
    rw [UInt64.lt_iff_toNat_lt, UInt64.toNat_add] at hlt
    refine ⟨⟨hle, ?_⟩, (Option.some.inj h).symm⟩
    have hmod := Nat.mod_le (start.toNat + r.size.toNat) (2 ^ 64)
    omega
  · cases h

theorem translate_of_within (hfits : start.toNat + r.size.toNat < UInt64.size)
    (h : Within start r.size addr.toNat) : r.translate start addr = some (r.host start addr) := by
  unfold DeviceRegion.translate
  refine if_pos ⟨UInt64.le_iff_toNat_le.mpr h.1, ?_⟩
  rw [UInt64.lt_iff_toNat_lt, UInt64.toNat_add, Nat.mod_eq_of_lt hfits]
  exact h.2

theorem lookup_eq (b : Backend) (origin : DeviceRegion → UInt64) (addr : UInt64) (notFound : Halt) :
    b.lookup origin addr notFound =
      match b.table.findSome? (fun r => r.translate (origin r) addr) with
      | some va => .ok va
      | none => if vhostMemoryMaxNregions < b.nregions.toNat then .error .indexOutOfRange
        else .error notFound := rfl

/-- What is found is the host address in one of the regions. -/
theorem lookup_eq_ok (h : b.lookup origin addr notFound = .ok va) :
    ∃ r ∈ b.table, r.translate (origin r) addr = some va := by
  rw [lookup_eq] at h
  cases hfind : b.table.findSome? (fun r => r.translate (origin r) addr) with
  | none =>
    rw [hfind] at h
    dsimp only at h
    split at h <;> cases h
  | some va' =>
    rw [hfind] at h
    cases h
    exact List.exists_of_findSome?_eq_some hfind

/-- The region an address lies in is found, wherever it is in the table. -/
theorem lookup_of_within (hfits : ∀ r ∈ b.table, (origin r).toNat + r.size.toNat < UInt64.size)
    (hapart : b.table.Pairwise (fun r r' => ∀ x, ¬ (Within (origin r) r.size x ∧
      Within (origin r') r'.size x)))
    (hr : r ∈ b.table) (h : Within (origin r) r.size addr.toNat) :
    b.lookup origin addr notFound = .ok (r.host (origin r) addr) := by
  have hpair : b.table.Pairwise (fun r r' => r.translate (origin r) addr = none ∨
      r'.translate (origin r') addr = none) := by
    refine hapart.imp ?_
    intro r r' hapart
    cases ht : r.translate (origin r) addr with
    | none => exact .inl rfl
    | some va =>
      cases ht' : r'.translate (origin r') addr with
      | none => exact .inr rfl
      | some va' =>
        exact (hapart addr.toNat ⟨(translate_eq_some ht).1, (translate_eq_some ht').1⟩).elim
  have hfind : b.table.findSome? (fun r => r.translate (origin r) addr) =
      some (r.host (origin r) addr) :=
    FirstMatch.findSome?_of_mem hpair hr (translate_of_within (hfits r hr) h)
  rw [lookup_eq, hfind]

theorem lookup_eq_error (hn : b.nregions.toNat ≤ vhostMemoryMaxNregions)
    (hfits : ∀ r ∈ b.table, (origin r).toNat + r.size.toNat < UInt64.size) :
    b.lookup origin addr notFound = .error notFound ↔
      ∀ r ∈ b.table, ¬ Within (origin r) r.size addr.toNat := by
  rw [lookup_eq, if_neg (by omega)]
  cases hfind : b.table.findSome? (fun r => r.translate (origin r) addr) with
  | none =>
    refine iff_of_true rfl (fun r hr hin => ?_)
    have hnone := List.findSome?_eq_none_iff.mp hfind r hr
    rw [translate_of_within (hfits r hr) hin] at hnone
    cases hnone
  | some va =>
    obtain ⟨r, hr, ht⟩ := List.exists_of_findSome?_eq_some hfind
    exact iff_of_false (by simp) (fun hall => hall r hr (translate_eq_some ht).1)

end Translation

/-! ## The table of a message -/

/-- What SET_MEM_TABLE stores in the entry `i`. -/
def storedRegion (env : Calls) (m : VhMsg) (i : Fin vhostMemoryMaxNregions) : DeviceRegion where
  gpa := (m.region i).guestPhysAddr
  size := (m.region i).memorySize
  qva := (m.region i).userspaceAddr
  mmapOffset := (m.region i).mmapOffset
  mmapAddr := (env.mmap i.val).getD 0

/-- The table after it. -/
def memTable (env : Calls) (m : VhMsg) : List DeviceRegion :=
  (List.ofFn (storedRegion env m)).take m.nregions.toNat

/-- The addresses `mmap` was asked to map for the region. -/
def DeviceRegion.Mapped (r : DeviceRegion) (x : Nat) : Prop :=
  r.mmapAddr.toNat ≤ x ∧ x < r.mmapAddr.toNat + (r.mmapOffset.toNat + r.size.toNat)

/-- The regions do not wrap, and no two of them overlap for the guest, for the other
process or here. -/
structure MemTableOk (rs : List DeviceRegion) : Prop where
  gpaFits : ∀ r ∈ rs, r.gpa.toNat + r.size.toNat < UInt64.size
  qvaFits : ∀ r ∈ rs, r.qva.toNat + r.size.toNat < UInt64.size
  mapFits : ∀ r ∈ rs,
    r.mmapAddr.toNat + (r.mmapOffset.toNat + r.size.toNat) ≤ UInt64.size
  gpaApart : rs.Pairwise (fun r r' => ∀ x, ¬ (Within r.gpa r.size x ∧ Within r'.gpa r'.size x))
  qvaApart : rs.Pairwise (fun r r' => ∀ x, ¬ (Within r.qva r.size x ∧ Within r'.qva r'.size x))
  mapApart : rs.Pairwise (fun r r' => ∀ x, ¬ (r.Mapped x ∧ r'.Mapped x))

section MemTable
variable {env : Calls} {s s' : Server} {m : VhMsg}

/-- The loop returns if every `mmap` does, with the entries it went over stored. -/
theorem mapRegions_returns {i k : Nat} (hk : i + k ≤ vhostMemoryMaxNregions)
    (hmap : ∀ j, i ≤ j → j < i + k → env.mmap j ≠ none) :
    ∃ s', mapRegions env m i k s = .ok s' ∧ s'.sh.bk.nregions = s.sh.bk.nregions ∧
      ∀ j : Fin vhostMemoryMaxNregions, s'.sh.bk.regions.get j =
        if i ≤ j.val ∧ j.val < i + k then storedRegion env m j else s.sh.bk.regions.get j := by
  induction k generalizing i s with
  | zero =>
    refine ⟨s, rfl, rfl, fun j => ?_⟩
    rw [if_neg (by omega)]
  | succ k ih =>
    have hi : i < vhostMemoryMaxNregions := by omega
    obtain ⟨addr, haddr⟩ := Option.ne_none_iff_exists'.mp (hmap i (Nat.le_refl i) (by omega))
    obtain ⟨s', hs', hn, hregions⟩ := ih (i := i + 1) (s := mapRegion s m ⟨i, hi⟩ addr) (by omega)
      (fun j hj hj' => hmap j (by omega) (by omega))
    refine ⟨s', ?_, hn, fun j => ?_⟩
    · rw [mapRegions, dif_pos hi, haddr]
      exact hs'
    · rw [hregions j]
      by_cases hj : j = ⟨i, hi⟩
      · subst hj
        rw [if_neg (by dsimp only; omega), if_pos (by dsimp only; omega)]
        show (s.sh.bk.regions.set i _ hi)[i] = _
        rw [Vector.getElem_set_self, storedRegion, haddr]
        rfl
      · have hne : j.val ≠ i := fun heq => hj (Fin.ext heq)
        have hsame : (mapRegion s m ⟨i, hi⟩ addr).sh.bk.regions.get j = s.sh.bk.regions.get j := by
          show (s.sh.bk.regions.set i _ hi)[j.val] = s.sh.bk.regions[j.val]
          exact Vector.getElem_set_ne _ _ hne.symm
        rw [hsame]
        apply if_congr _ rfl rfl
        omega

theorem request_of_setMemTable (hm : m.req = .setMemTable) :
    m.request.toNat < vhostReqStr.length := by
  by_contra hge
  have hlen : vhostReqStr.length = 21 := rfl
  unfold VhMsg.req VhostReq.decode at hm
  split at hm
  all_goals first | omega | cases hm

/-- SET_MEM_TABLE with at most eight regions that are all mapped. -/
theorem setMemTable_returns (s : Server) (hm : m.req = .setMemTable)
    (hn : m.nregions.toNat ≤ vhostMemoryMaxNregions)
    (hmap : ∀ i < m.nregions.toNat, env.mmap i ≠ none) :
    ∃ s', dispatch env s m = .ok s' ∧ s'.sh.bk.nregions = m.nregions ∧
      s'.sh.bk.table = memTable env m := by
  obtain ⟨s', hs', hcount, hregions⟩ := mapRegions_returns (m := m) (i := 0)
    (k := m.nregions.toNat)
    (s := (s.note m).setBk { (s.note m).sh.bk with nregions := m.nregions }) (by omega)
    (fun j _ hj => hmap j (by omega))
  refine ⟨s', ?_, hcount, ?_⟩
  · rw [dispatch_known (request_of_setMemTable hm), switch, hm]
    exact hs'
  · have hstored : s'.sh.bk.nregions = m.nregions := hcount
    unfold Backend.table memTable
    rw [hstored]
    apply List.ext_getElem
    · simp
    · intro j hj _
      have hj' : j < m.nregions.toNat ∧ j < vhostMemoryMaxNregions := by simpa using hj
      rw [List.getElem_take, List.getElem_take, List.getElem_ofFn, Vector.getElem_toList]
      have hstored := hregions ⟨j, hj'.2⟩
      rw [if_pos (by dsimp only; omega)] at hstored
      exact hstored

/-- The host address at the distance `k` from the start of a region. -/
theorem host_add (r : DeviceRegion) (start k : UInt64) :
    r.host start (start + k) = r.mmapAddr + r.mmapOffset + k := by
  unfold DeviceRegion.host
  rw [UInt64.add_comm start k, UInt64.add_sub_cancel, UInt64.add_assoc, UInt64.add_comm k]

theorem within_add {start size k : UInt64} (hfits : start.toNat + size.toNat < UInt64.size)
    (hk : k < size) : Within start size (start + k).toNat := by
  have hlt := UInt64.lt_iff_toNat_lt.mp hk
  have hadd : (start + k).toNat = start.toNat + k.toNat := by
    rw [UInt64.toNat_add]
    exact Nat.mod_eq_of_lt (Nat.lt_trans (by omega) hfits)
  unfold Within
  omega

/-- The host address of a guest address, as a number. -/
theorem host_toNat {rs : List DeviceRegion} (hok : MemTableOk rs) {r : DeviceRegion} (hr : r ∈ rs)
    {addr : UInt64} (h : Within r.gpa r.size addr.toNat) :
    (r.host r.gpa addr).toNat =
      r.mmapAddr.toNat + (r.mmapOffset.toNat + (addr.toNat - r.gpa.toNat)) := by
  have hmap := hok.mapFits r hr
  have hsize : UInt64.size = 2 ^ 64 := rfl
  obtain ⟨hle, hlt⟩ := h
  unfold DeviceRegion.host
  rw [UInt64.toNat_add, UInt64.toNat_add,
    UInt64.toNat_sub_of_le _ _ (UInt64.le_iff_toNat_le.mpr hle)]
  rw [Nat.mod_add_mod, Nat.mod_eq_of_lt (by omega)]
  omega

/-- Host addresses of different regions are different, and within a region they are as far
apart as the guest's. -/
theorem host_injective {rs : List DeviceRegion} (hok : MemTableOk rs) {r r' : DeviceRegion}
    {a a' : UInt64} (hr : r ∈ rs) (hr' : r' ∈ rs) (h : Within r.gpa r.size a.toNat)
    (h' : Within r'.gpa r'.size a'.toNat) (heq : r.host r.gpa a = r'.host r'.gpa a') : a = a' := by
  have hnat := congrArg UInt64.toNat heq
  rw [host_toNat hok hr h, host_toNat hok hr' h'] at hnat
  obtain ⟨hle, hlt⟩ := h
  obtain ⟨hle', hlt'⟩ := h'
  by_cases hsame : r = r'
  · subst hsame
    exact UInt64.toNat_inj.mp (by omega)
  · have hsymm : Std.Symm (fun r r' : DeviceRegion => ∀ x, ¬ (r.Mapped x ∧ r'.Mapped x)) :=
      ⟨fun _ _ hapart x hx => hapart x hx.symm⟩
    have hapart := hok.mapApart.forall hr hr' hsame
    refine absurd ⟨⟨?_, ?_⟩, ?_, ?_⟩
      (hapart (r.mmapAddr.toNat + (r.mmapOffset.toNat + (a.toNat - r.gpa.toNat))))
    all_goals omega

/-- **The translations agree.** After every SET_MEM_TABLE with at most eight regions that `mmap`
maps, if the regions do not wrap and are apart: a guest address and an address of the other
process at the same place of a region get the same host address, that place of the mapping;
an address is not found exactly if it is outside all of the regions; and different guest
addresses get different host addresses. -/
theorem translations_agree (env : Calls) (s : Server) (m : VhMsg) (hm : m.req = .setMemTable)
    (hn : m.nregions.toNat ≤ vhostMemoryMaxNregions)
    (hmap : ∀ i < m.nregions.toNat, env.mmap i ≠ none) (hok : MemTableOk (memTable env m)) :
    ∃ s', dispatch env s m = .ok s' ∧
      (∀ r ∈ memTable env m, ∀ k < r.size,
        (∀ mode, gpaToVa s'.sh.bk (r.gpa + k) mode = .ok (r.mmapAddr + r.mmapOffset + k)) ∧
        qvaToVa s'.sh.bk (r.qva + k) = .ok (r.mmapAddr + r.mmapOffset + k)) ∧
      (∀ addr mode, gpaToVa s'.sh.bk addr mode =
          .error (if mode then .transmitAddressNotFound else .receiveAddressNotFound) ↔
        ∀ r ∈ memTable env m, ¬ Within r.gpa r.size addr.toNat) ∧
      (∀ addr, qvaToVa s'.sh.bk addr = .error .addressNotFound ↔
        ∀ r ∈ memTable env m, ¬ Within r.qva r.size addr.toNat) ∧
      ∀ a a' mode mode' va, gpaToVa s'.sh.bk a mode = .ok va → gpaToVa s'.sh.bk a' mode' = .ok va →
        a = a' := by
  obtain ⟨s', hs', hcount, htable⟩ := setMemTable_returns s hm hn hmap
  rw [← hcount] at hn
  rw [← htable] at hok ⊢
  refine ⟨s', hs', ?_, ?_, ?_, ?_⟩
  · intro r hr k hk
    constructor
    · intro mode
      rw [← host_add r r.gpa k]
      exact lookup_of_within hok.gpaFits hok.gpaApart hr (within_add (hok.gpaFits r hr) hk)
    · rw [← host_add r r.qva k]
      exact lookup_of_within hok.qvaFits hok.qvaApart hr (within_add (hok.qvaFits r hr) hk)
  · exact fun addr mode => lookup_eq_error hn hok.gpaFits
  · exact fun addr => lookup_eq_error hn hok.qvaFits
  · intro a a' mode mode' va ha ha'
    obtain ⟨r, hr, ht⟩ := lookup_eq_ok ha
    obtain ⟨r', hr', ht'⟩ := lookup_eq_ok ha'
    obtain ⟨hin, hva⟩ := translate_eq_some ht
    obtain ⟨hin', hva'⟩ := translate_eq_some ht'
    exact host_injective hok hr hr' hin hin' (hva.symm.trans hva')

/-- Two regions of a page, the second further into its file. -/
def twoRegions : VhMsg :=
  .make 5 [2, 0, 0, 0, 0x1000, 0, 0x10000, 0, 0, 0, 0x1000, 0, 0x1000, 0, 0x20000, 0, 0x1000, 0] [7, 8]

/-- A `mmap` that maps them a megabyte apart. -/
def twoMappings : Calls :=
  { Calls.succeed with mmap := fun i => some (0x7f0000000000 + 0x100000 * UInt64.ofNat i) }

theorem twoRegions_table : memTable twoMappings twoRegions =
    [⟨0, 0x1000, 0x10000, 0, 0x7f0000000000⟩, ⟨0x1000, 0x1000, 0x20000, 0x1000, 0x7f0000100000⟩] := by
  decide

/-- The byte 0x10 of the second region. -/
theorem translations_agree_two_regions :
    ∃ s', dispatch twoMappings zeroed twoRegions = .ok s' ∧
      gpaToVa s'.sh.bk 0x1010 true = .ok 0x7f0000101010 ∧
      qvaToVa s'.sh.bk 0x20010 = .ok 0x7f0000101010 := by
  have hok : MemTableOk (memTable twoMappings twoRegions) := by
    rw [twoRegions_table]
    constructor
    all_goals simp [Within, DeviceRegion.Mapped, UInt64.size]
    all_goals omega
  obtain ⟨s', hs', hagree, -⟩ := translations_agree twoMappings zeroed twoRegions (by decide) (by decide)
    (by intro i _; simp [twoMappings]) hok
  obtain ⟨hgpa, hqva⟩ := hagree ⟨0x1000, 0x1000, 0x20000, 0x1000, 0x7f0000100000⟩
    (by rw [twoRegions_table]; decide) 0x10 (by decide)
  exact ⟨s', hs', hgpa true, hqva⟩

end MemTable

end VirtioBench.Bkend
