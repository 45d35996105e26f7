import VirtioBench.Bkend.Backend
import VirtioBench.Lib.Window

/- The two rings of a virtqueue against its history. All four indices are 16-bit
   counters; behind them are three lists without wrap-around: the heads `posted`
   by the guest, the ids `retired` by the backend and the used entries `returned` to
   the guest. `Ledger.Ok` says that each is a prefix of the one before, that the
   counters are their lengths modulo 2^16, and that the rings are windows on them
   (`Lib.Window`): the avail ring on the posted heads that are not returned, the
   used ring on the retired ids that are not.

   The four moves of a queue keep it: the backend retires the next head
   (`Ok.retire`) and publishes (`Ok.publish`), the guest writes a slot
   (`Ok.writeSlot`) and posts it (`Ok.advance`). The ring size `n` divides 2^16, and at
   most `n` heads are not returned. -/
namespace VirtioBench.Bkend

/-- The used entry of a head: the length is not reported. -/
def entry (id : UInt32) : VringUsedElem := ⟨id, 1⟩

/-- The entries of a used ring from the index `old` up to the index `new`. -/
def usedBetween (n : Nat) (used : VringUsed) (old new : UInt16) : List VringUsedElem :=
  (List.range (new - old).toNat).map (fun j => used.ring ((old + UInt16.ofNat j).toNat % n))

/-- What the two sides see of the queue, and its history. -/
structure Ledger where
  avail : VringAvail
  used : VringUsed
  lastAvailIdx : UInt16
  lastUsedIdx : UInt16
  posted : List UInt16
  retired : List UInt32
  returned : List VringUsedElem

namespace Ledger

/-- The worker writes the entry of `head` and takes both its indices on. -/
def retire (l : Ledger) (slot : Nat) (head : UInt16) : Ledger :=
  { l with
    used := { l.used with ring := Function.update l.used.ring slot (entry head.toUInt32) }
    lastAvailIdx := l.lastAvailIdx + 1
    lastUsedIdx := l.lastUsedIdx + 1
    retired := l.retired ++ [head.toUInt32] }

/-- The worker stores `used.idx`. -/
def publish (n : Nat) (l : Ledger) : Ledger :=
  { l with
    used := { l.used with idx := l.lastUsedIdx }
    returned := l.returned ++ usedBetween n l.used l.used.idx l.lastUsedIdx }

/-- The guest writes the slot it posts next. -/
def writeSlot (n : Nat) (l : Ledger) (head : UInt16) : Ledger :=
  { l with
    avail := { l.avail with ring := Function.update l.avail.ring (l.avail.idx.toNat % n) head } }

/-- The guest posts the head in that slot. -/
def advance (n : Nat) (l : Ledger) : Ledger :=
  { l with
    avail := { l.avail with idx := l.avail.idx + 1 }
    posted := l.posted ++ [l.avail.ring (l.avail.idx.toNat % n)] }

end Ledger

/-- The counters are the lengths of the histories from `base` on, modulo 2^16; the
rings are windows on the heads and entries that are not returned. -/
structure Ledger.Ok (n base : Nat) (l : Ledger) : Prop where
  published : l.returned.length ≤ l.retired.length
  processed : l.retired.length ≤ l.posted.length
  bounded : l.posted.length ≤ l.returned.length + n
  availIdx : l.avail.idx.toNat = (base + l.posted.length) % 2 ^ 16
  lastAvail : l.lastAvailIdx.toNat = (base + l.retired.length) % 2 ^ 16
  lastUsed : l.lastUsedIdx = l.lastAvailIdx
  usedIdx : l.used.idx.toNat = (base + l.returned.length) % 2 ^ 16
  heads : Window.Shows n l.avail.ring (base + l.returned.length)
    (l.posted.drop l.returned.length)
  entries : Window.Shows n l.used.ring (base + l.returned.length)
    ((l.retired.drop l.returned.length).map entry)
  retiredPosted : l.retired <+: l.posted.map UInt16.toUInt32
  returnedRetired : l.returned <+: l.retired.map entry

section Ledger
variable {n base : Nat} {l : Ledger}

theorem toNat_add_ofNat (x : UInt16) (k : Nat) :
    (x + UInt16.ofNat k).toNat = (x.toNat + k) % 2 ^ 16 := by
  rw [UInt16.toNat_add, UInt16.toNat_ofNat', Nat.add_mod_mod]

theorem toNat_succ {x : UInt16} {k : Nat} (h : x.toNat = k % 2 ^ 16) :
    (x + 1).toNat = (k + 1) % 2 ^ 16 := by
  rw [UInt16.toNat_add, h, UInt16.toNat_one, Nat.mod_add_mod]

/-- The slot of a 16-bit counter is the slot of the position it stands for. -/
theorem slot_of_idx (hn : n ∣ 2 ^ 16) {x : UInt16} {k : Nat} (h : x.toNat = k % 2 ^ 16) :
    x.toNat % n = k % n := by
  rw [h, Nat.mod_mod_of_dvd k hn]

/-- The emptiness test is exact. -/
theorem Ledger.Ok.empty_iff (hl : l.Ok n base) (hlt : n < 2 ^ 16) :
    l.lastAvailIdx = l.avail.idx ↔ l.retired.length = l.posted.length := by
  have hp := hl.published
  have hb := hl.bounded
  rw [← UInt16.toNat_inj, hl.lastAvail, hl.availIdx,
    Window.mod_eq_iff (by have := hl.processed; omega) (by omega)]
  omega

/-- The distance of two counters is that of the positions. -/
theorem toNat_sub_idx {x y : UInt16} {i j : Nat} (hx : x.toNat = i % 2 ^ 16)
    (hy : y.toNat = j % 2 ^ 16) (hij : i ≤ j) (hj : j < i + 2 ^ 16) : (y - x).toNat = j - i := by
  rw [UInt16.toNat_sub, hx, hy]
  exact Window.sub_mod_eq hij hj

theorem Ledger.Ok.room (hl : l.Ok n base) (hlt : n < 2 ^ 16) :
    (l.avail.idx - l.used.idx).toNat = l.posted.length - l.returned.length := by
  have h1 := hl.published
  have h2 := hl.processed
  have h3 := hl.bounded
  rw [toNat_sub_idx hl.usedIdx hl.availIdx (by omega) (by omega)]
  omega

/-- The head in the slot of `last_avail_idx` is the next one posted. -/
theorem Ledger.Ok.next_head (hl : l.Ok n base) (hn : n ∣ 2 ^ 16)
    (hlt : l.retired.length < l.posted.length) :
    l.posted[l.retired.length]? = some (l.avail.ring (l.lastAvailIdx.toNat % n)) := by
  have hp := hl.published
  have hk : (l.posted.drop l.returned.length)[l.retired.length - l.returned.length]? =
      some l.posted[l.retired.length] := by
    rw [List.getElem?_drop, Nat.add_sub_cancel' hp, List.getElem?_eq_getElem hlt]
  have hshow := hl.heads _ _ hk
  rw [Nat.add_assoc, Nat.add_sub_cancel' hp] at hshow
  rw [slot_of_idx hn hl.lastAvail, hshow, List.getElem?_eq_getElem hlt]

theorem prefix_snoc {α : Type} {xs ys : List α} {x : α} (h : xs <+: ys)
    (hx : ys[xs.length]? = some x) : xs ++ [x] <+: ys := by
  obtain ⟨zs, rfl⟩ := h
  rw [List.getElem?_append_right (Nat.le_refl _), Nat.sub_self] at hx
  cases zs with
  | nil => cases hx
  | cons z zs =>
    cases hx
    exact ⟨zs, by rw [List.append_assoc, List.singleton_append]⟩

theorem Ledger.Ok.retire (hl : l.Ok n base) {head : UInt16} {slot : Nat}
    (hhead : l.posted[l.retired.length]? = some head)
    (hslot : slot = (base + l.retired.length) % n) : (l.retire slot head).Ok n base := by
  have hlt : l.retired.length < l.posted.length := (List.getElem?_eq_some_iff.mp hhead).1
  have hp := hl.published
  have hb := hl.bounded
  have hlen : ((l.retired.drop l.returned.length).map entry).length =
      l.retired.length - l.returned.length := by
    rw [List.length_map, List.length_drop]
  refine ⟨?_, ?_, hb, hl.availIdx, ?_, ?_, hl.usedIdx, hl.heads, ?_, ?_, ?_⟩
  · show l.returned.length ≤ (l.retired ++ [_]).length
    rw [List.length_append]; omega
  · show (l.retired ++ [_]).length ≤ l.posted.length
    rw [List.length_append, List.length_singleton]; exact hlt
  · show (l.lastAvailIdx + 1).toNat = (base + (l.retired ++ [_]).length) % 2 ^ 16
    rw [List.length_append, List.length_singleton, ← Nat.add_assoc]
    exact toNat_succ hl.lastAvail
  · show l.lastUsedIdx + 1 = l.lastAvailIdx + 1
    rw [hl.lastUsed]
  · -- the entry goes to the slot after the last one, which is free as the window is not full
    show Window.Shows n _ _ (((l.retired ++ [_]).drop l.returned.length).map entry)
    rw [List.drop_append_of_le_length hp, List.map_append]
    have hpush := hl.entries.push (by rw [hlen]; omega) (entry head.toUInt32)
    rw [hlen, Nat.add_assoc, Nat.add_sub_cancel' hp, ← hslot] at hpush
    exact hpush
  · refine prefix_snoc hl.retiredPosted ?_
    show (l.posted.map _)[l.retired.length]? = _
    rw [List.getElem?_map, hhead, Option.map_some]
  · refine hl.returnedRetired.trans ?_
    show l.retired.map _ <+: (l.retired ++ [_]).map _
    rw [List.map_append]
    exact List.prefix_append _ _

/-- The entries from `used.idx` up to `last_used_idx` are those retired since the
last publication. -/
theorem Ledger.Ok.usedBetween_eq (hl : l.Ok n base) (hn : n ∣ 2 ^ 16) (hlt : n < 2 ^ 16) :
    usedBetween n l.used l.used.idx l.lastUsedIdx =
      (l.retired.drop l.returned.length).map entry := by
  have h1 := hl.published
  have h2 := hl.processed
  have h3 := hl.bounded
  have hcount : (l.lastUsedIdx - l.used.idx).toNat =
      ((l.retired.drop l.returned.length).map entry).length := by
    rw [hl.lastUsed, toNat_sub_idx hl.usedIdx hl.lastAvail (by omega) (by omega), List.length_map,
      List.length_drop]
    omega
  unfold usedBetween
  rw [hcount]
  refine Eq.trans ?_ hl.entries.read
  apply List.map_congr_left
  intro j _
  have hidx : (l.used.idx + UInt16.ofNat j).toNat = (base + l.returned.length + j) % 2 ^ 16 := by
    rw [toNat_add_ofNat, hl.usedIdx, Nat.mod_add_mod]
  rw [slot_of_idx hn hidx]

/-- A publication returns all that is retired. -/
theorem Ledger.Ok.publish (hl : l.Ok n base) (hn : n ∣ 2 ^ 16) (hlt : n < 2 ^ 16) :
    (l.publish n).Ok n base ∧ (l.publish n).returned = l.retired.map entry := by
  have hall : (l.publish n).returned = l.retired.map entry := by
    show l.returned ++ usedBetween n l.used l.used.idx l.lastUsedIdx = _
    rw [hl.usedBetween_eq hn hlt, List.map_drop]
    conv_lhs => lhs; rw [List.prefix_iff_eq_take.mp hl.returnedRetired]
    exact List.take_append_drop _ _
  have hlen : (l.publish n).returned.length = l.retired.length := by rw [hall, List.length_map]
  have h1 := hl.published
  have h2 := hl.processed
  have h3 := hl.bounded
  refine ⟨⟨?_, h2, ?_, hl.availIdx, hl.lastAvail, hl.lastUsed, ?_, ?_, ?_, hl.retiredPosted, ?_⟩, hall⟩
  · exact Nat.le_of_eq hlen
  · show l.posted.length ≤ _
    rw [hlen]; omega
  · rw [hlen, ← hl.lastAvail, ← hl.lastUsed]
    rfl
  · -- the window on the heads moves on by what is returned
    rw [hlen]
    have hdrop := hl.heads.drop (l.retired.length - l.returned.length)
    rw [List.drop_drop, Nat.add_assoc, Nat.add_sub_cancel' h1] at hdrop
    exact hdrop
  · show Window.Shows n _ _ ((l.retired.drop _).map entry)
    rw [hlen, List.drop_length]
    exact Window.Shows.nil
  · rw [hall]
    exact List.prefix_rfl

theorem Ledger.Ok.writeSlot (hl : l.Ok n base) (hn : n ∣ 2 ^ 16) (hlt : n < 2 ^ 16)
    (hroom : (l.avail.idx - l.used.idx).toNat < n) (head : UInt16) :
    (l.writeSlot n head).Ok n base := by
  rw [hl.room hlt] at hroom
  have h1 := hl.published
  have h2 := hl.processed
  refine ⟨h1, h2, hl.bounded, hl.availIdx, hl.lastAvail, hl.lastUsed, hl.usedIdx, ?_, hl.entries,
    hl.retiredPosted, hl.returnedRetired⟩
  have hwrite := hl.heads.write_next (by rw [List.length_drop]; exact hroom) head
  rw [List.length_drop, Nat.add_assoc, Nat.add_sub_cancel' (Nat.le_trans h1 h2),
    ← slot_of_idx hn hl.availIdx] at hwrite
  exact hwrite

theorem Ledger.Ok.advance (hl : l.Ok n base) (hn : n ∣ 2 ^ 16) (hlt : n < 2 ^ 16)
    (hroom : (l.avail.idx - l.used.idx).toNat < n) : (l.advance n).Ok n base := by
  rw [hl.room hlt] at hroom
  have h1 := hl.published
  have h2 := hl.processed
  refine ⟨h1, ?_, ?_, ?_, hl.lastAvail, hl.lastUsed, hl.usedIdx, ?_, hl.entries, ?_,
    hl.returnedRetired⟩
  · show l.retired.length ≤ (l.posted ++ [_]).length
    rw [List.length_append]; omega
  · show (l.posted ++ [_]).length ≤ l.returned.length + n
    rw [List.length_append, List.length_singleton]; omega
  · show (l.avail.idx + 1).toNat = (base + (l.posted ++ [_]).length) % 2 ^ 16
    rw [List.length_append, List.length_singleton, ← Nat.add_assoc]
    exact toNat_succ hl.availIdx
  · show Window.Shows n _ _ ((l.posted ++ [_]).drop l.returned.length)
    rw [List.drop_append_of_le_length (Nat.le_trans h1 h2)]
    refine hl.heads.append ?_
    rw [List.length_drop, Nat.add_assoc, Nat.add_sub_cancel' (Nat.le_trans h1 h2),
      ← slot_of_idx hn hl.availIdx]
  · refine hl.retiredPosted.trans ?_
    show l.posted.map _ <+: (l.posted ++ [_]).map _
    rw [List.map_append]
    exact List.prefix_append _ _

end Ledger

end VirtioBench.Bkend
