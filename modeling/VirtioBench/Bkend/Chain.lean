import VirtioBench.Bkend.TxQueue
import VirtioBench.Bkend.Regions
import VirtioBench.Lib.Iterate
import Mathlib.Data.Finite.Prod

/- One chain of descriptors through `dequeue` (code_dump/nonm/bkend.c), with the guest's memory
   left alone: `workerAlone n` is the worker after `n` of its steps, or after as many as
   there are until it ends the process. `Linked` is a chain that ends.

   The walk keeps `len` and tests `len + chunk_len < MAX_LEN` in 32 bits, and has no other
   measure of progress:

   1. `frame_limit_iff` — the limit on the frame is the one of the natural numbers
      exactly if the sum with the next length does not reach 2^32;
   2. `walk_ends_iff` — the walk ends exactly if it does not come back to a
      descriptor with the length it had there before;
   3. `frame_faithful` — a well-formed chain ends as one frame: the guest's bytes in the
      order of the chain, returned under its head. -/
namespace VirtioBench.Bkend

/-- The worker after `n` steps. -/
def workerAlone (n : Nat) (s : Shared × Worker) : Shared × Worker :=
  Iterate.settle (fun s => workerStep s.1 s.2) n s

/-- The descriptors from `i` on, to the last. -/
inductive Linked (table : Nat → VringDesc) : Nat → List Nat → Prop
  | last (i : Nat) (h : (table i).flags &&& vringDescFNext = 0) : Linked table i [i]
  | next (i : Nat) (is : List Nat) (h : (table i).flags &&& vringDescFNext ≠ 0)
      (hs : Linked table (table i).next.toNat is) : Linked table i (i :: is)

/-- A copy that stays below `MAX_LEN`. -/
def Event.InBuf : Event → Prop
  | .memcpy offset _ len => offset.toNat + len.toNat ≤ maxLen.toNat
  | .availRead .. | .packet _ | .fileHeader | .usedWrite .. | .publish _ => True

instance : DecidablePred Event.InBuf
  | .memcpy .. => inferInstanceAs (Decidable (_ ≤ _))
  | .availRead .. | .packet _ | .fileHeader | .usedWrite .. | .publish _ =>
    inferInstanceAs (Decidable True)

/-- No sum that starts below `MAX_LEN` reaches 2^32, `len` bytes being there. -/
def NoWrap (table : Nat → VringDesc) (len : Nat) (is : List Nat) : Prop :=
  ∀ k < is.length, len + chainLen table (is.take k) < maxLen.toNat →
    len + chainLen table (is.take (k + 1)) < UInt32.size

section Walk
variable {sh : Shared} {w : Worker} {table : Nat → VringDesc} {i : Nat} {is : List Nat}

theorem workerAlone_step {r : Shared × Worker} (h : workerStep sh w = some r) (n : Nat) :
    workerAlone (n + 1) (sh, w) = workerAlone n r :=
  Iterate.settle_of_some h n

theorem workerAlone_halted {h : Halt} (hpc : w.pc = .halted h) (n : Nat) :
    workerAlone n (sh, w) = (sh, w) := by
  apply Iterate.settle_of_none
  unfold workerStep
  rw [hpc]

theorem workerAlone_add (m n : Nat) (s : Shared × Worker) :
    workerAlone (m + n) s = workerAlone n (workerAlone m s) :=
  Iterate.settle_add m n s

theorem workerStep_trace {r : Shared × Worker} (h : workerStep sh w = some r) :
    sh.trace <+: r.1.trace := by
  unfold workerStep at h
  split at h
  · cases h
    unfold headStep
    split <;> exact List.prefix_rfl
  · cases h
    unfold fetchStep
    split
    · exact List.prefix_rfl
    · exact List.prefix_append _ _
  · cases h
    unfold walkStep
    dsimp only
    split
    · exact List.prefix_rfl
    · split
      · exact List.prefix_rfl
      · split
        · split <;> exact List.prefix_append _ _
        · exact List.prefix_rfl
  · cases h
    unfold retireStep
    split
    · exact List.prefix_rfl
    · exact List.prefix_append _ _
  · cases h
    exact List.prefix_append _ _
  · cases h

theorem workerAlone_trace (n : Nat) (s : Shared × Worker) :
    s.1.trace <+: (workerAlone n s).1.trace :=
  Iterate.settle_rel (R := fun s t => s.1.trace <+: t.1.trace) (fun _ => List.prefix_rfl)
    List.IsPrefix.trans workerStep_trace n s

theorem chainLen_cons (table : Nat → VringDesc) (i : Nat) (is : List Nat) :
    chainLen table (i :: is) = (table i).len.toNat + chainLen table is := by
  simp [chainLen]

/-- The worker is at the descriptor `i` of `table`. -/
structure Walking (sh : Shared) (w : Worker) (table : Nat → VringDesc) (i : Nat) : Prop where
  pc : w.pc = .walk
  table : sh.mem.desc w.desc = table
  index : w.i.toNat = i

theorem Walking.step (h : Walking sh w table i) (hr : sh.bk.readable (table i) = true) :
    ∃ chunk, gpaToVa sh.bk (table i).addr true = .ok chunk ∧
      workerStep sh w = some (if w.len + (table i).len < maxLen then
        (sh.log [.memcpy w.len chunk (table i).len],
          if (table i).flags &&& vringDescFNext ≠ 0 then
            { w.copy sh.mem chunk (table i).len with i := (table i).next.toUInt32 }
          else { w.copy sh.mem chunk (table i).len with pc := .retire })
      else (sh, w.halt .frameTooLong)) := by
  have hd : sh.mem.desc w.desc w.i.toNat = table i := by rw [h.table, h.index]
  obtain ⟨chunk, hva, hstep⟩ := walkStep_readable hd hr
  refine ⟨chunk, hva, ?_⟩
  rw [workerStep_walk sh h.pc, hstep]

/-- The walk at the next descriptor. -/
theorem Walking.next (h : Walking sh w table i) (es : List Event) (chunk : UInt64) (len : UInt32) :
    Walking (sh.log es) { w.copy sh.mem chunk len with i := (table i).next.toUInt32 } table
      (table i).next.toNat :=
  ⟨h.pc, h.table, UInt16.toNat_toUInt32 _⟩

/-- The 32-bit sum is the sum. -/
theorem toNat_add_of_lt {a b : UInt32} (h : a.toNat + b.toNat < UInt32.size) :
    (a + b).toNat = a.toNat + b.toNat := by
  rw [UInt32.toNat_add]
  exact Nat.mod_eq_of_lt h

theorem fits_iff {a b : UInt32} (h : a.toNat + b.toNat < UInt32.size) :
    a + b < maxLen ↔ a.toNat + b.toNat < maxLen.toNat := by
  rw [UInt32.lt_iff_toNat_lt, toNat_add_of_lt h]

/-- A sum that reaches 2^32 passes the test. -/
theorem fits_of_wrap {a b : UInt32} (ha : a.toNat < maxLen.toNat)
    (h : UInt32.size ≤ a.toNat + b.toNat) : a + b < maxLen := by
  have hb : b.toNat < UInt32.size := b.toNat_lt
  have hmax : maxLen.toNat < UInt32.size := maxLen.toNat_lt
  rw [UInt32.lt_iff_toNat_lt, UInt32.toNat_add]
  show (a.toNat + b.toNat) % UInt32.size < _
  rw [Nat.mod_eq_sub_mod h, Nat.mod_eq_of_lt (by omega)]
  omega

theorem noWrap_cons {len : Nat} : NoWrap table len (i :: is) ↔
    (len < maxLen.toNat → len + (table i).len.toNat < UInt32.size) ∧
      NoWrap table (len + (table i).len.toNat) is := by
  constructor
  · intro h
    refine ⟨?_, ?_⟩
    · intro hlt
      have h0 := h 0 (Nat.zero_lt_succ _) hlt
      rw [List.take_succ_cons, List.take_zero, chainLen_cons] at h0
      exact h0
    · intro k hk hlt
      have hk' := h (k + 1) (Nat.succ_lt_succ hk)
      rw [List.take_succ_cons, List.take_succ_cons, chainLen_cons, chainLen_cons] at hk'
      rw [Nat.add_assoc] at hlt ⊢
      exact hk' hlt
  · rintro ⟨hfirst, hrest⟩ k hk hlt
    cases k with
    | zero =>
      rw [List.take_succ_cons, List.take_zero, chainLen_cons]
      exact hfirst hlt
    | succ k =>
      rw [List.take_succ_cons, chainLen_cons, ← Nat.add_assoc] at hlt ⊢
      exact hrest k (Nat.lt_of_succ_lt_succ hk) hlt

/-! ## The walk over a chain -/

/-- The bytes a copy of `d` takes from the mapping. -/
def copied (b : Backend) (mem : GuestMemory) (d : VringDesc) : List UInt8 :=
  match gpaToVa b d.addr true with
  | .ok chunk => (List.range d.len.toNat).map (fun k => mem.byte (chunk + UInt64.ofNat k))
  | .error _ => []

theorem copy_frame {chunk : UInt64} {len : UInt32} (mem : GuestMemory)
    (h : w.len.toNat + len.toNat < UInt32.size) :
    (w.copy mem chunk len).frame =
      w.frame ++ (List.range len.toNat).map (fun k => mem.byte (chunk + UInt64.ofNat k)) := by
  unfold Worker.frame
  show (List.range (w.len + len).toNat).map (memcpy mem w.buf w.len chunk len) = _
  rw [toNat_add_of_lt h, List.range_add, List.map_append, List.map_map]
  congr 1
  · -- what was there stays
    apply List.map_congr_left
    intro k hk
    have hlt := List.mem_range.mp hk
    unfold memcpy
    rw [if_neg (by omega)]
  · apply List.map_congr_left
    intro k hk
    have hlt := List.mem_range.mp hk
    show memcpy mem w.buf w.len chunk len (w.len.toNat + k) = _
    unfold memcpy
    rw [if_pos (by omega), Nat.add_sub_cancel_left]

/-- The worker after the last descriptor of a chain. -/
structure Walked (sh : Shared) (w : Worker) (table : Nat → VringDesc) (is : List Nat)
    (r : Shared × Worker) : Prop where
  pc : r.2.pc = .retire
  len : r.2.len.toNat = w.len.toNat + chainLen table is
  frame : r.2.frame = w.frame ++ is.flatMap (fun i => copied sh.bk sh.mem (table i))
  locals : r.2.dIdx = w.dIdx ∧ r.2.uIdx = w.uIdx ∧ r.2.used = w.used
  events : ∃ es, r.1 = sh.log es ∧ ∀ e ∈ es, e.InBuf

theorem copied_eq {b : Backend} {mem : GuestMemory} {d : VringDesc} {chunk : UInt64}
    (h : gpaToVa b d.addr true = .ok chunk) : copied b mem d =
      (List.range d.len.toNat).map (fun k => mem.byte (chunk + UInt64.ofNat k)) := by
  unfold copied
  rw [h]

theorem Shared.log_log (sh : Shared) (es es' : List Event) :
    (sh.log es).log es' = sh.log (es ++ es') := by
  unfold Shared.log
  rw [List.append_assoc]

theorem memcpy_inBuf {offset len : UInt32} (chunk : UInt64)
    (h : offset.toNat + len.toNat ≤ maxLen.toNat) : ∀ e ∈ [Event.memcpy offset chunk len], e.InBuf := by
  intro e he
  rw [List.mem_singleton.mp he]
  exact h

theorem memcpy_not_inBuf {offset len : UInt32} (chunk : UInt64)
    (h : UInt32.size ≤ offset.toNat + len.toNat) : ¬ (Event.memcpy offset chunk len).InBuf := by
  have hmax : maxLen.toNat < UInt32.size := maxLen.toNat_lt
  show ¬ _ ≤ _
  omega

/-- A chain below `MAX_LEN` is copied to its end. -/
theorem walk_accepts (hchain : Linked table i is) (h : Walking sh w table i)
    (hread : ∀ j ∈ is, sh.bk.readable (table j) = true)
    (hmax : w.len.toNat + chainLen table is < maxLen.toNat) :
    Walked sh w table is (workerAlone is.length (sh, w)) := by
  have hsize : maxLen.toNat < UInt32.size := maxLen.toNat_lt
  induction hchain generalizing sh w with
  | last i hnext =>
    rw [chainLen_cons] at hmax
    obtain ⟨chunk, hva, hstep⟩ := h.step (hread i List.mem_cons_self)
    have hlt : w.len.toNat + (table i).len.toNat < UInt32.size := by omega
    rw [if_pos ((fits_iff hlt).mpr (by omega)), if_neg (not_not.mpr hnext)] at hstep
    rw [List.length_singleton, workerAlone_step hstep]
    refine ⟨rfl, ?_, ?_, ⟨rfl, rfl, rfl⟩, _, rfl, memcpy_inBuf chunk (by omega)⟩
    · rw [chainLen_cons]
      exact toNat_add_of_lt hlt
    · rw [List.flatMap_singleton, copied_eq hva]
      exact copy_frame sh.mem hlt
  | next i is hnext hs ih =>
    rw [chainLen_cons] at hmax
    obtain ⟨chunk, hva, hstep⟩ := h.step (hread i List.mem_cons_self)
    have hlt : w.len.toNat + (table i).len.toNat < UInt32.size := by omega
    rw [if_pos ((fits_iff hlt).mpr (by omega)), if_pos hnext] at hstep
    rw [List.length_cons, workerAlone_step hstep]
    have hlen : (w.len + (table i).len).toNat = _ := toNat_add_of_lt hlt
    have hrest := ih (h.next [.memcpy w.len chunk (table i).len] chunk (table i).len)
      (fun j hj => hread j (List.mem_cons_of_mem i hj))
      (by show (w.len + (table i).len).toNat + _ < _; omega)
    obtain ⟨es, hes, hin⟩ := hrest.events
    refine ⟨hrest.pc, ?_, ?_, hrest.locals, _, hes.trans (Shared.log_log ..),
      List.forall_mem_append.mpr ⟨memcpy_inBuf chunk (by omega), hin⟩⟩
    · rw [hrest.len, chainLen_cons, ← Nat.add_assoc, ← hlen]
      rfl
    · rw [hrest.frame, List.flatMap_cons, copied_eq hva, ← List.append_assoc, ← copy_frame sh.mem hlt]
      rfl

/-- A chain that reaches `MAX_LEN` ends the process, with nothing copied beyond it. -/
theorem walk_rejects (hchain : Linked table i is) (h : Walking sh w table i)
    (hread : ∀ j ∈ is, sh.bk.readable (table j) = true) (hlen : w.len.toNat < maxLen.toNat)
    (hwrap : NoWrap table w.len.toNat is)
    (hmax : maxLen.toNat ≤ w.len.toNat + chainLen table is) :
    (workerAlone is.length (sh, w)).2.pc = .halted .frameTooLong ∧
    ∃ es, (workerAlone is.length (sh, w)).1.trace = sh.trace ++ es ∧ ∀ e ∈ es, e.InBuf := by
  induction hchain generalizing sh w with
  | last i hnext =>
    rw [chainLen_cons] at hmax
    obtain ⟨chunk, hva, hstep⟩ := h.step (hread i List.mem_cons_self)
    have hlt := (noWrap_cons.mp hwrap).1 hlen
    have hnil : chainLen table [] = 0 := rfl
    rw [if_neg ((fits_iff hlt).not.mpr (by omega))] at hstep
    rw [List.length_singleton, workerAlone_step hstep]
    exact ⟨rfl, [], (List.append_nil _).symm, by simp⟩
  | next i is hnext hs ih =>
    rw [chainLen_cons] at hmax
    obtain ⟨chunk, hva, hstep⟩ := h.step (hread i List.mem_cons_self)
    obtain ⟨hlt, hwrap⟩ := noWrap_cons.mp hwrap
    replace hlt := hlt hlen
    rw [List.length_cons]
    by_cases hfits : w.len.toNat + (table i).len.toNat < maxLen.toNat
    · rw [if_pos ((fits_iff hlt).mpr hfits), if_pos hnext] at hstep
      rw [workerAlone_step hstep]
      have hlen' : (w.len + (table i).len).toNat = _ := toNat_add_of_lt hlt
      rw [← hlen'] at hwrap
      obtain ⟨hpc, es, hes, hin⟩ := ih
        (h.next [.memcpy w.len chunk (table i).len] chunk (table i).len)
        (fun j hj => hread j (List.mem_cons_of_mem i hj))
        (by show (w.len + (table i).len).toNat < _; omega) hwrap
        (by show _ ≤ (w.len + (table i).len).toNat + _; omega)
      exact ⟨hpc, _, hes.trans (List.append_assoc ..),
        List.forall_mem_append.mpr ⟨memcpy_inBuf chunk (by omega), hin⟩⟩
    · rw [if_neg ((fits_iff hlt).not.mpr hfits)] at hstep
      rw [workerAlone_step hstep, workerAlone_halted rfl]
      exact ⟨rfl, [], (List.append_nil _).symm, by simp⟩

/-- A sum that reaches 2^32 is taken for a small one, and the copy leaves the buffer. -/
theorem walk_wraps (hchain : Linked table i is) (h : Walking sh w table i)
    (hread : ∀ j ∈ is, sh.bk.readable (table j) = true) (hlen : w.len.toNat < maxLen.toNat)
    (hwrap : ¬ NoWrap table w.len.toNat is) :
    ∃ es e, e ∈ es ∧ ¬ e.InBuf ∧ sh.trace ++ es <+: (workerAlone is.length (sh, w)).1.trace := by
  have hnil : ∀ len, NoWrap table len [] := by
    intro len k hk
    cases hk
  induction hchain generalizing sh w with
  | last i hnext =>
    obtain ⟨chunk, hva, hstep⟩ := h.step (hread i List.mem_cons_self)
    have hge : UInt32.size ≤ w.len.toNat + (table i).len.toNat := by
      by_contra hlt
      exact hwrap (noWrap_cons.mpr ⟨fun _ => by omega, hnil _⟩)
    rw [if_pos (fits_of_wrap hlen hge), if_neg (not_not.mpr hnext)] at hstep
    rw [List.length_singleton, workerAlone_step hstep]
    exact ⟨_, _, List.mem_singleton_self _, memcpy_not_inBuf chunk hge, List.prefix_rfl⟩
  | next i is hnext hs ih =>
    obtain ⟨chunk, hva, hstep⟩ := h.step (hread i List.mem_cons_self)
    rw [List.length_cons]
    by_cases hlt : w.len.toNat + (table i).len.toNat < UInt32.size
    · -- the sum that wraps comes later
      have hlen' : (w.len + (table i).len).toNat = _ := toNat_add_of_lt hlt
      have hwrap' : ¬ NoWrap table (w.len.toNat + (table i).len.toNat) is :=
        fun hrest => hwrap (noWrap_cons.mpr ⟨fun _ => hlt, hrest⟩)
      have hfits : w.len.toNat + (table i).len.toNat < maxLen.toNat := by
        by_contra hge
        exact hwrap' (fun k _ hk => by omega)
      rw [if_pos ((fits_iff hlt).mpr hfits), if_pos hnext] at hstep
      rw [workerAlone_step hstep]
      rw [← hlen'] at hwrap'
      obtain ⟨es, e, he, hout, htrace⟩ := ih
        (h.next [.memcpy w.len chunk (table i).len] chunk (table i).len)
        (fun j hj => hread j (List.mem_cons_of_mem i hj))
        (by show (w.len + (table i).len).toNat < _; omega) hwrap'
      refine ⟨.memcpy w.len chunk (table i).len :: es, e, List.mem_cons_of_mem _ he, hout, ?_⟩
      rw [List.append_cons]
      exact htrace
    · rw [if_pos (fits_of_wrap hlen (by omega)), if_pos hnext] at hstep
      rw [workerAlone_step hstep]
      exact ⟨[.memcpy w.len chunk (table i).len], _, List.mem_singleton_self _,
        memcpy_not_inBuf chunk (by omega),
        workerAlone_trace is.length (sh.log [.memcpy w.len chunk (table i).len], _)⟩

/-! ## The limit -/

/-- What the limit promises for a chain: it is accepted exactly if its length is positive and every
sum on the way is below `MAX_LEN`; no copy goes beyond `MAX_LEN`; and a chain that is not
accepted ends the process as too long or as empty. -/
structure FrameLimit (sh : Shared) (w : Worker) (table : Nat → VringDesc) (is : List Nat) : Prop where
  accepted : (workerAlone (is.length + 1) (sh, w)).2.pc = .head ↔
    0 < chainLen table is ∧ ∀ k ≤ is.length, chainLen table (is.take k) < maxLen.toNat
  inBuf : ∃ es, (workerAlone (is.length + 1) (sh, w)).1.trace = sh.trace ++ es ∧ ∀ e ∈ es, e.InBuf
  rejected : (workerAlone (is.length + 1) (sh, w)).2.pc ≠ .head →
    (workerAlone (is.length + 1) (sh, w)).2.pc = .halted .frameTooLong ∨
    (workerAlone (is.length + 1) (sh, w)).2.pc = .halted .zeroLength

theorem prefixes_lt {m : Nat} :
    (∀ k ≤ is.length, chainLen table (is.take k) < m) ↔ chainLen table is < m := by
  constructor
  · intro h
    have hall := h is.length (Nat.le_refl _)
    rw [List.take_length] at hall
    exact hall
  · intro h k _
    have hsplit := chainLen_append table (is.take k) (is.drop k)
    rw [List.take_append_drop] at hsplit
    omega

theorem workerAlone_retire (hpc : w.pc = .retire) : workerAlone 1 (sh, w) = retireStep sh w := by
  have hstep : workerStep sh w = some (retireStep sh w) := by
    unfold workerStep
    rw [hpc]
  rw [workerAlone_step hstep]
  rfl

/-- The frame is returned unless it is empty. -/
theorem retireStep_pc (sh : Shared) (w : Worker) :
    (retireStep sh w).2.pc = if w.len = 0 then .halted .zeroLength else .head := by
  unfold retireStep
  split <;> rfl

theorem retireStep_inBuf (sh : Shared) (w : Worker) :
    ∃ es, (retireStep sh w).1.trace = sh.trace ++ es ∧ ∀ e ∈ es, e.InBuf := by
  unfold retireStep
  split
  · exact ⟨[], (List.append_nil _).symm, by simp⟩
  · refine ⟨_, rfl, ?_⟩
    split <;> simp [Event.InBuf]

theorem frameLimit_of_noWrap (hchain : Linked table i is) (h : Walking sh w table i)
    (hread : ∀ j ∈ is, sh.bk.readable (table j) = true) (hlen : w.len = 0)
    (hwrap : NoWrap table w.len.toNat is) : FrameLimit sh w table is := by
  have hzero : w.len.toNat = 0 := by rw [hlen]; rfl
  have hpos : 0 < maxLen.toNat := by decide
  have hlast : workerAlone (is.length + 1) (sh, w) = workerAlone 1 (workerAlone is.length (sh, w)) :=
    workerAlone_add is.length 1 (sh, w)
  by_cases hmax : chainLen table is < maxLen.toNat
  · have hwalked := walk_accepts hchain h hread (by omega)
    obtain ⟨es, hes, hin⟩ := hwalked.events
    obtain ⟨es', hes', hin'⟩ := retireStep_inBuf (workerAlone is.length (sh, w)).1
      (workerAlone is.length (sh, w)).2
    have hpc := retireStep_pc (workerAlone is.length (sh, w)).1 (workerAlone is.length (sh, w)).2
    rw [← workerAlone_retire hwalked.pc] at hes' hpc
    have hlen' := hwalked.len
    have hzero' : (workerAlone is.length (sh, w)).2.len = 0 ↔ chainLen table is = 0 := by
      rw [← UInt32.toNat_inj, hlen', hzero, Nat.zero_add]
      rfl
    constructor
    · rw [hlast, hpc, prefixes_lt, if_congr hzero' rfl rfl]
      split
      · next h0 => exact iff_of_false (by simp) (by omega)
      · next h0 => exact iff_of_true rfl ⟨by omega, hmax⟩
    · refine ⟨es ++ es', ?_, List.forall_mem_append.mpr ⟨hin, hin'⟩⟩
      rw [hlast, hes', hes]
      exact List.append_assoc ..
    · rw [hlast, hpc]
      split
      · exact fun _ => .inr rfl
      · exact fun hne => absurd rfl hne
  · obtain ⟨hpc, hes⟩ := walk_rejects hchain h hread (by omega) hwrap (by omega)
    have hend : workerAlone (is.length + 1) (sh, w) = workerAlone is.length (sh, w) := by
      rw [hlast]
      exact workerAlone_halted hpc 1
    constructor
    · rw [hend, hpc, prefixes_lt]
      exact iff_of_false (by simp) (fun hlt => hmax hlt.2)
    · rw [hend]
      exact hes
    · rw [hend]
      exact fun _ => .inl hpc

/-- **The limit on a frame.** For every chain of descriptors the worker can read, with any lengths,
`dequeue` keeps the limit exactly if no sum of a length below `MAX_LEN` and the next
descriptor's reaches 2^32. -/
theorem frame_limit_iff (sh : Shared) (w : Worker) (is : List Nat) (hpc : w.pc = .walk)
    (hlen : w.len = 0) (hchain : Linked (sh.mem.desc w.desc) w.i.toNat is)
    (hread : ∀ j ∈ is, sh.bk.readable (sh.mem.desc w.desc j) = true) :
    FrameLimit sh w (sh.mem.desc w.desc) is ↔
      ∀ k < is.length, chainLen (sh.mem.desc w.desc) (is.take k) < maxLen.toNat →
        chainLen (sh.mem.desc w.desc) (is.take (k + 1)) < UInt32.size := by
  have h : Walking sh w (sh.mem.desc w.desc) w.i.toNat := ⟨hpc, rfl, rfl⟩
  have hzero : w.len.toNat = 0 := by rw [hlen]; rfl
  have hcond : NoWrap (sh.mem.desc w.desc) w.len.toNat is ↔
      ∀ k < is.length, chainLen (sh.mem.desc w.desc) (is.take k) < maxLen.toNat →
        chainLen (sh.mem.desc w.desc) (is.take (k + 1)) < UInt32.size := by
    unfold NoWrap
    simp only [hzero, Nat.zero_add]
  rw [← hcond]
  constructor
  · intro hlimit
    by_contra hwrap
    have hpos : 0 < maxLen.toNat := by decide
    obtain ⟨es, e, he, hout, htrace⟩ := walk_wraps hchain h hread (by omega) hwrap
    obtain ⟨es', hes', hin⟩ := hlimit.inBuf
    -- the copy is still in the trace after the last step
    have hmore := htrace.trans (workerAlone_trace 1 (workerAlone is.length (sh, w)))
    rw [← workerAlone_add, hes', List.prefix_append_right_inj] at hmore
    exact hout (hin e (hmore.subset he))
  · exact frameLimit_of_noWrap hchain h hread hlen

/-- A descriptor of 100 bytes and a last one of `len`. -/
def pairTable (len : UInt32) (i : Nat) : VringDesc :=
  if i = 0 then ⟨0x4000, 100, vringDescFNext, 1⟩ else ⟨0x5000, len, 0, 0⟩

/-- The memory with that table, and the worker at its first descriptor. -/
def tableMemory (table : Nat → VringDesc) : Shared :=
  ⟨demoBackend', { demoMemory with desc := fun _ => table }, false, []⟩

def atFirst : Worker := { dequeue demoBackend' (fun _ => 0) with pc := .walk }

theorem pair_linked (len : UInt32) : Linked (pairTable len) 0 [0, 1] :=
  .next 0 [1] (by simp [pairTable, vringDescFNext]) (.last 1 (by simp [pairTable]))

theorem frame_limit_iff_short : FrameLimit (tableMemory (pairTable 200)) atFirst (pairTable 200) [0, 1] :=
  (frame_limit_iff (tableMemory (pairTable 200)) atFirst [0, 1] rfl rfl (pair_linked 200)
    (by decide)).mpr (by decide)

/-- 100 + 4294967246 is 50 in 32 bits: four gigabytes are copied to a buffer of 12288 bytes. -/
theorem frame_limit_wraps :
    ¬ FrameLimit (tableMemory (pairTable 4294967246)) atFirst (pairTable 4294967246) [0, 1] := by
  intro h
  obtain ⟨es, hes, hin⟩ := h.inBuf
  have hmem : Event.memcpy 100 0x705000 4294967246 ∈
      (workerAlone ([0, 1].length + 1) (tableMemory (pairTable 4294967246), atFirst)).1.trace := by
    decide
  have hout : ¬ (Event.memcpy 100 0x705000 4294967246).InBuf := by decide
  rw [hes] at hmem
  exact hout (hin _ hmem)

/-! ## The end of the walk -/

/-- The descriptor `k` links from `i`. -/
def link (table : Nat → VringDesc) (i : Nat) : Nat → Nat
  | 0 => i
  | k + 1 => (table (link table i k)).next.toNat

/-- The bytes of the descriptors before it. -/
def linkLen (table : Nat → VringDesc) (i : Nat) : Nat → Nat
  | 0 => 0
  | k + 1 => linkLen table i k + (table (link table i k)).len.toNat

/-- The walk goes on after the descriptor `k` links from `i`. -/
def GoesOn (b : Backend) (table : Nat → VringDesc) (i k : Nat) : Prop :=
  b.readable (table (link table i k)) = true ∧
  linkLen table i (k + 1) % UInt32.size < maxLen.toNat ∧
  (table (link table i k)).flags &&& vringDescFNext ≠ 0

/-- The walk from `i` comes back to a descriptor with the 32 bits of `len` it had there before. -/
def ComesBack (b : Backend) (table : Nat → VringDesc) (i : Nat) : Prop :=
  ∃ j k, j < k ∧ link table i j = link table i k ∧
    linkLen table i j % UInt32.size = linkLen table i k % UInt32.size ∧
    ∀ m < k, GoesOn b table i m

/-- What one descriptor makes of `i` and `len`, on which alone the way depends. -/
def Backend.follow (b : Backend) (table : Nat → VringDesc) (c : UInt32 × UInt32) :
    Option (UInt32 × UInt32) :=
  if b.readable (table c.1.toNat) = true ∧ c.2 + (table c.1.toNat).len < maxLen ∧
      (table c.1.toNat).flags &&& vringDescFNext ≠ 0 then
    some ((table c.1.toNat).next.toUInt32, c.2 + (table c.1.toNat).len)
  else none

/-- `i` and `len` at the descriptor `k` links from `i`. -/
def place (table : Nat → VringDesc) (i k : Nat) : UInt32 × UInt32 :=
  (UInt32.ofNat (link table i k), UInt32.ofNat (linkLen table i k))

theorem link_lt (hi : i < UInt32.size) (k : Nat) : link table i k < UInt32.size := by
  cases k with
  | zero => exact hi
  | succ k => exact Nat.lt_trans (UInt16.toNat_lt _) (by decide)

theorem place_eq (hi : i < UInt32.size) {j k : Nat} : place table i j = place table i k ↔
    link table i j = link table i k ∧ linkLen table i j % UInt32.size = linkLen table i k % UInt32.size := by
  unfold place
  rw [Prod.mk.injEq, ← UInt32.toNat_inj, ← UInt32.toNat_inj, UInt32.toNat_ofNat_of_lt' (link_lt hi j),
    UInt32.toNat_ofNat_of_lt' (link_lt hi k), UInt32.toNat_ofNat', UInt32.toNat_ofNat']

theorem follow_place (b : Backend) (hi : i < UInt32.size) (k : Nat) (c : UInt32 × UInt32) :
    b.follow table (place table i k) = some c ↔ GoesOn b table i k ∧ c = place table i (k + 1) := by
  have hlen : UInt32.ofNat (linkLen table i k) + (table (link table i k)).len =
      UInt32.ofNat (linkLen table i (k + 1)) := by
    rw [linkLen, UInt32.ofNat_add, UInt32.ofNat_toNat]
  have hfits : UInt32.ofNat (linkLen table i (k + 1)) < maxLen ↔
      linkLen table i (k + 1) % UInt32.size < maxLen.toNat := by
    rw [UInt32.lt_iff_toNat_lt, UInt32.toNat_ofNat']
  have hnext : (table (link table i k)).next.toUInt32 = UInt32.ofNat (link table i (k + 1)) := by
    apply UInt32.toNat_inj.mp
    rw [UInt16.toNat_toUInt32, UInt32.toNat_ofNat_of_lt' (link_lt hi (k + 1))]
    rfl
  unfold Backend.follow place GoesOn
  dsimp only
  rw [UInt32.toNat_ofNat_of_lt' (link_lt hi k), hlen, Option.ite_none_right_eq_some, hfits, hnext,
    Option.some.injEq, eq_comm (a := c)]

/-- The way from `i`. -/
theorem iter_follow (b : Backend) (hi : i < UInt32.size) (k : Nat) (c : UInt32 × UInt32) :
    Iterate.iter (b.follow table) k (place table i 0) = some c ↔
      (∀ m < k, GoesOn b table i m) ∧ c = place table i k := by
  induction k generalizing c with
  | zero =>
    rw [Iterate.iter, Option.some.injEq, eq_comm]
    simp
  | succ k ih =>
    rw [Iterate.iter, Option.bind_eq_some_iff]
    constructor
    · rintro ⟨c', hc', hc⟩
      obtain ⟨hall, rfl⟩ := (ih c').mp hc'
      obtain ⟨hgo, rfl⟩ := (follow_place b hi k c).mp hc
      refine ⟨?_, rfl⟩
      intro m hm
      rcases Nat.lt_succ_iff_lt_or_eq.mp hm with hm | rfl
      · exact hall m hm
      · exact hgo
    · rintro ⟨hall, rfl⟩
      refine ⟨place table i k, (ih _).mpr ⟨fun m hm => hall m (Nat.lt_succ_of_lt hm), rfl⟩, ?_⟩
      exact (follow_place b hi k _).mpr ⟨hall k (Nat.lt_succ_self k), rfl⟩

/-- The worker at a place of the way: `i` and `len` are there, and the table is the same. -/
structure OnWay (b : Backend) (table : Nat → VringDesc) (c : UInt32 × UInt32) (r : Shared × Worker) :
    Prop where
  pc : r.2.pc = .walk
  bk : r.1.bk = b
  table : r.1.mem.desc r.2.desc = table
  index : r.2.i = c.1
  len : r.2.len = c.2

/-- One descriptor: the way goes on, or the walk ends. -/
theorem OnWay.step {b : Backend} {c : UInt32 × UInt32} {r : Shared × Worker} (h : OnWay b table c r) :
    ∃ r', workerStep r.1 r.2 = some r' ∧
      match b.follow table c with
      | some c' => OnWay b table c' r'
      | none => r'.2.pc = .retire ∨ ∃ e, r'.2.pc = .halted e := by
  obtain ⟨sh, w⟩ := r
  obtain ⟨hpc, rfl, rfl, hindex, hlen⟩ := h
  dsimp only at hpc hindex hlen
  refine ⟨walkStep sh w, workerStep_walk sh hpc, ?_⟩
  unfold Backend.follow
  rw [← hindex, ← hlen]
  by_cases hr : sh.bk.readable (sh.mem.desc w.desc w.i.toNat) = true
  · obtain ⟨chunk, -, hwalk⟩ := walkStep_readable rfl hr
    rw [hwalk]
    by_cases hfits : w.len + (sh.mem.desc w.desc w.i.toNat).len < maxLen
    · by_cases hnext : (sh.mem.desc w.desc w.i.toNat).flags &&& vringDescFNext ≠ 0
      · rw [if_pos hfits, if_pos hnext, if_pos ⟨hr, hfits, hnext⟩]
        exact ⟨hpc, rfl, rfl, rfl, rfl⟩
      · rw [if_pos hfits, if_neg hnext, if_neg (fun hall => hnext hall.2.2)]
        exact .inl rfl
    · rw [if_neg hfits, if_neg (fun hall => hfits hall.2.1)]
      exact .inr ⟨_, rfl⟩
  · obtain ⟨e, hend⟩ := walkStep_unreadable hr
    rw [if_neg (fun hall => hr hall.1), hend]
    exact .inr ⟨e, rfl⟩

/-- A run along the way. -/
theorem OnWay.run {b : Backend} {c c' : UInt32 × UInt32} {r : Shared × Worker} (h : OnWay b table c r)
    (n : Nat) (hc : Iterate.iter (b.follow table) n c = some c') :
    OnWay b table c' (workerAlone n r) := by
  induction n generalizing c' with
  | zero =>
    cases hc
    exact h
  | succ n ih =>
    obtain ⟨c₁, hc₁, hnext⟩ := Option.bind_eq_some_iff.mp hc
    obtain ⟨r', hr', hway⟩ := (ih hc₁).step
    rw [hnext] at hway
    rw [workerAlone_add, workerAlone_step hr']
    exact hway

theorem OnWay.endless {b : Backend} {c : UInt32 × UInt32} {r : Shared × Worker}
    (h : OnWay b table c r) (hall : ∀ n, Iterate.iter (b.follow table) n c ≠ none) (n : Nat) :
    (workerAlone n r).2.pc = .walk := by
  obtain ⟨c', hc⟩ := Option.ne_none_iff_exists'.mp (hall n)
  exact (h.run n hc).pc

theorem onWay_start (sh : Shared) (hpc : w.pc = .walk) (hlen : w.len = 0) :
    OnWay sh.bk (sh.mem.desc w.desc) (place (sh.mem.desc w.desc) w.i.toNat 0) (sh, w) :=
  ⟨hpc, rfl, rfl, UInt32.ofNat_toNat.symm, hlen⟩

instance finiteUInt32 : Finite UInt32 := Finite.of_injective UInt32.toFin (fun _ _ => UInt32.toFin_inj.mp)

/-- The way is endless exactly if it comes back. -/
theorem endless_iff (b : Backend) (hi : i < UInt32.size) :
    (∀ n, Iterate.iter (b.follow table) n (place table i 0) ≠ none) ↔ ComesBack b table i := by
  rw [Iterate.forever_iff]
  constructor
  · rintro ⟨j, k, hjk, hk, heq⟩
    obtain ⟨c, hc⟩ := Option.ne_none_iff_exists'.mp hk
    rw [hc] at heq
    obtain ⟨hall, hplace⟩ := (iter_follow b hi k c).mp hc
    obtain ⟨-, hplace'⟩ := (iter_follow b hi j c).mp heq
    obtain ⟨hlink, hlen⟩ := (place_eq hi).mp (hplace'.symm.trans hplace)
    exact ⟨j, k, hjk, hlink, hlen, hall⟩
  · rintro ⟨j, k, hjk, hlink, hlen, hall⟩
    have hk := (iter_follow b hi k _).mpr ⟨hall, rfl⟩
    have hj := (iter_follow b hi j _).mpr ⟨fun m hm => hall m (Nat.lt_trans hm hjk), rfl⟩
    refine ⟨j, k, hjk, ?_, ?_⟩
    · rw [hk]
      exact Option.some_ne_none _
    · rw [hj, hk, (place_eq hi).mpr ⟨hlink, hlen⟩]

/-- A descriptor of no bytes that is its own successor. -/
def loopTable (_ : Nat) : VringDesc := ⟨0x4000, 0, vringDescFNext, 0⟩

end Walk

/-! ## The frame -/

/-- The guest's byte at `addr`, in the mapping of the region it lies in. -/
def guestByte (b : Backend) (mem : GuestMemory) (addr : UInt64) : UInt8 :=
  match b.table.find? (fun r => Within r.gpa r.size addr.toNat) with
  | some r => mem.byte (r.host r.gpa addr)
  | none => 0

/-- The guest's bytes of the buffer of `d`. -/
def guestBytes (b : Backend) (mem : GuestMemory) (d : VringDesc) : List UInt8 :=
  (List.range d.len.toNat).map (fun k => guestByte b mem (d.addr + UInt64.ofNat k))

/-- The guest's regions do not wrap and are pairwise apart. -/
structure GpaApart (rs : List DeviceRegion) : Prop where
  fits : ∀ r ∈ rs, r.gpa.toNat + r.size.toNat < UInt64.size
  apart : rs.Pairwise (fun r r' => ∀ x, ¬ (Within r.gpa r.size x ∧ Within r'.gpa r'.size x))

/-- The buffer of `d` lies in the region `r`. -/
def VringDesc.Inside (d : VringDesc) (r : DeviceRegion) : Prop :=
  Within r.gpa r.size d.addr.toNat ∧ d.addr.toNat + d.len.toNat ≤ r.gpa.toNat + r.size.toNat

instance (d : VringDesc) (r : DeviceRegion) : Decidable (d.Inside r) :=
  inferInstanceAs (Decidable (_ ∧ _))

/-- A chain as the guest is to make it: distinct descriptors, none of them writable, each buffer
inside one region. -/
structure GuestChain (b : Backend) (table : Nat → VringDesc) (head : Nat) (is : List Nat) : Prop where
  linked : Linked table head is
  distinct : is.Nodup
  readOnly : ∀ i ∈ is, (table i).flags &&& vringDescFWrite = 0
  inside : ∀ i ∈ is, ∃ r ∈ b.table, (table i).Inside r
  nonempty : 0 < chainLen table is
  short : chainLen table is < maxLen.toNat

section Frame
variable {b : Backend} {table : Nat → VringDesc} {is : List Nat} {d : VringDesc} {r : DeviceRegion}

theorem guestByte_eq (hok : GpaApart b.table) (mem : GuestMemory) (hr : r ∈ b.table) {addr : UInt64}
    (h : Within r.gpa r.size addr.toNat) : guestByte b mem addr = mem.byte (r.host r.gpa addr) := by
  have hfind : b.table.find? (fun r => Within r.gpa r.size addr.toNat) = some r := by
    apply FirstMatch.find?_of_mem _ hr (decide_eq_true h)
    refine hok.apart.imp ?_
    intro r r' hapart hin hin'
    exact hapart addr.toNat ⟨of_decide_eq_true hin, of_decide_eq_true hin'⟩
  unfold guestByte
  rw [hfind]

theorem gpaToVa_inside (hok : GpaApart b.table) (hr : r ∈ b.table) (h : d.Inside r) (mode : Bool) :
    gpaToVa b d.addr mode = .ok (r.host r.gpa d.addr) :=
  lookup_of_within hok.fits hok.apart hr h.1

theorem host_shift (r : DeviceRegion) (start addr k : UInt64) :
    r.host start (addr + k) = r.host start addr + k := by
  unfold DeviceRegion.host
  rw [UInt64.sub_eq_add_neg, UInt64.sub_eq_add_neg]
  ac_rfl

/-- What is copied of a buffer inside a region are the guest's bytes. -/
theorem copied_inside (hok : GpaApart b.table) (mem : GuestMemory) (hr : r ∈ b.table)
    (h : d.Inside r) : copied b mem d = guestBytes b mem d := by
  rw [copied_eq (gpaToVa_inside hok hr h true)]
  apply List.map_congr_left
  intro k hk
  have hlt := List.mem_range.mp hk
  obtain ⟨⟨hle, -⟩, hend⟩ := h
  have hfits := hok.fits r hr
  have hsize : UInt64.size = 2 ^ 64 := rfl
  have hadd : (d.addr + UInt64.ofNat k).toNat = d.addr.toNat + k := by
    rw [UInt64.toNat_add, UInt64.toNat_ofNat_of_lt' (by omega), Nat.mod_eq_of_lt (by omega)]
  have hin : Within r.gpa r.size (d.addr + UInt64.ofNat k).toNat := by
    rw [hadd]
    exact ⟨by omega, by omega⟩
  rw [guestByte_eq hok mem hr hin, host_shift]

theorem readable_inside (hok : GpaApart b.table) (hr : r ∈ b.table) (h : d.Inside r)
    (hwrite : d.flags &&& vringDescFWrite = 0) : b.readable d = true := by
  unfold Backend.readable
  rw [gpaToVa_inside hok hr h true, hwrite]
  rfl

/-- The entry a frame is returned with. -/
theorem retireStep_used (sh : Shared) {w : Worker} (hlen : w.len ≠ 0) :
    retireStep sh w = ((retireStep sh w).1, { w with pc := .head }) ∧
    ((retireStep sh w).1.mem.used w.used).ring w.uIdx.toNat = ⟨w.dIdx.toUInt32, 1⟩ := by
  unfold retireStep
  rw [if_neg hlen]
  refine ⟨rfl, ?_⟩
  rw [setUsedRing_used]
  exact Function.update_self ..

/-- A chain starts with its head. -/
theorem Linked.head {i : Nat} (h : Linked table i is) : ∃ js, is = i :: js := by
  cases h with
  | last => exact ⟨[], rfl⟩
  | next js => exact ⟨_, rfl⟩

/-- The walk over a well-formed chain, with the guest's bytes in the buffer. -/
theorem GuestChain.walked {sh : Shared} {w : Worker} {head : Nat} (hok : GpaApart sh.bk.table)
    (hchain : GuestChain sh.bk table head is) (h : Walking sh w table head) (hlen : w.len = 0) :
    Walked sh w table is (workerAlone is.length (sh, w)) ∧
    (workerAlone is.length (sh, w)).2.len.toNat = chainLen table is ∧
    (workerAlone is.length (sh, w)).2.frame =
      is.flatMap (fun i => guestBytes sh.bk sh.mem (table i)) := by
  have hzero : w.len.toNat = 0 := by rw [hlen]; rfl
  have hread : ∀ i ∈ is, sh.bk.readable (table i) = true := by
    intro i hmem
    obtain ⟨r, hr, hin⟩ := hchain.inside i hmem
    exact readable_inside hok hr hin (hchain.readOnly i hmem)
  have hwalked := walk_accepts hchain.linked h hread (by rw [hzero, Nat.zero_add]; exact hchain.short)
  refine ⟨hwalked, ?_, ?_⟩
  · rw [hwalked.len, hzero, Nat.zero_add]
  · have hnil : w.frame = [] := by
      unfold Worker.frame
      rw [hzero]
      rfl
    rw [hwalked.frame, hnil, List.nil_append]
    apply List.flatMap_congr
    intro i hmem
    obtain ⟨r, hr, hin⟩ := hchain.inside i hmem
    exact copied_inside hok sh.mem hr hin

/-- **Reassembly.** For every table of regions that do not wrap and are apart and every well-formed chain,
the walk from its head ends as one frame: `len` is the sum of the lengths, the frame the
guest's bytes of each descriptor in the order of the chain, and the used entry has the head
of the chain and no other descriptor of it. -/
theorem frame_faithful (sh : Shared) (w : Worker) (is : List Nat) (hpc : w.pc = .walk)
    (hlen : w.len = 0) (hi : w.i = w.dIdx.toUInt32) (hok : GpaApart sh.bk.table)
    (hchain : GuestChain sh.bk (sh.mem.desc w.desc) w.dIdx.toNat is) :
    ∃ sh' w', workerAlone (is.length + 1) (sh, w) = (sh', w') ∧ w'.pc = .head ∧
      w'.len.toNat = chainLen (sh.mem.desc w.desc) is ∧
      w'.frame = is.flatMap (fun i => guestBytes sh.bk sh.mem (sh.mem.desc w.desc i)) ∧
      ∃ elem, (sh'.mem.used w.used).ring w.uIdx.toNat = elem ∧ is.head? = some elem.id.toNat ∧
        elem.id.toNat ∉ is.tail := by
  have hindex : w.i.toNat = w.dIdx.toNat := by rw [hi, UInt16.toNat_toUInt32]
  obtain ⟨hwalked, hsum, hframe⟩ := hchain.walked hok ⟨hpc, rfl, hindex⟩ hlen
  have hne : (workerAlone is.length (sh, w)).2.len ≠ 0 := by
    intro h0
    have hpos := hchain.nonempty
    rw [← hsum, h0] at hpos
    exact Nat.lt_irrefl 0 hpos
  have hlast : workerAlone (is.length + 1) (sh, w) =
      retireStep (workerAlone is.length (sh, w)).1 (workerAlone is.length (sh, w)).2 := by
    rw [workerAlone_add]
    exact workerAlone_retire hwalked.pc
  obtain ⟨hw', hused⟩ := retireStep_used (workerAlone is.length (sh, w)).1 hne
  obtain ⟨hd, hu, hus⟩ := hwalked.locals
  rw [hd, hu, hus] at hused
  obtain ⟨js, rfl⟩ := hchain.linked.head
  refine ⟨_, _, hlast.trans hw', rfl, hsum, hframe, _, hused, ?_, ?_⟩
  · rw [UInt16.toNat_toUInt32]
    rfl
  · rw [UInt16.toNat_toUInt32]
    exact (List.nodup_cons.mp hchain.distinct).1

/-- The two descriptors of 100 and 200 bytes. -/
theorem frame_faithful_pair :
    ∃ sh' w', workerAlone 3 (tableMemory (pairTable 200), atFirst) = (sh', w') ∧ w'.pc = .head ∧
      w'.len.toNat = 300 := by
  have htable : (tableMemory (pairTable 200)).bk.table = [⟨0, 0x10000, 0, 0, 0x700000⟩] := by decide
  have hok : GpaApart (tableMemory (pairTable 200)).bk.table := by
    rw [htable]
    exact ⟨by decide, List.pairwise_singleton _ _⟩
  have hchain : GuestChain (tableMemory (pairTable 200)).bk (pairTable 200) 0 [0, 1] := by
    refine ⟨pair_linked 200, by decide, by decide, ?_, by decide, by decide⟩
    rw [htable]
    intro i hi
    exact ⟨_, List.mem_singleton_self _, by revert i; decide⟩
  obtain ⟨sh', w', hrun, hpc, hlen, -⟩ := frame_faithful (tableMemory (pairTable 200)) atFirst [0, 1]
    rfl rfl rfl hok hchain
  exact ⟨sh', w', hrun, hpc, hlen⟩

end Frame

end VirtioBench.Bkend
