import Mathlib.Data.List.Basic
import Mathlib.Logic.Function.Basic

/- A ring of `n` slots behind free-running counters. Position `p` of an unbounded
   sequence lives in slot `p % n`; a counter that is kept modulo `m` still finds
   it when `n` divides `m` (`Nat.mod_mod_of_dvd`), and two counters kept modulo
   `m` are equal only if the positions are, as long as these are less than `m`
   apart (`mod_eq_iff`).

   `Shows n ring base items` says that the ring holds `items` at the positions
   from `base` on. At most `n` items can be shown; within that bound the write of
   the next position disturbs none of them (`Shows.write_next`) and appends to
   them (`Shows.push`), and giving up the oldest ones is moving `base`
   (`Shows.drop`). -/
namespace Window

variable {α : Type} {n m : Nat}

/-- Positions less than `n` apart live in different slots. -/
theorem slot_ne {i j : Nat} (hij : i < j) (hj : j < i + n) : i % n ≠ j % n := by
  intro heq
  have hd : n ∣ j - i := Nat.dvd_of_mod_eq_zero (Nat.sub_mod_eq_zero_of_mod_eq heq.symm)
  have hle : n ≤ j - i := Nat.le_of_dvd (by omega) hd
  omega

/-- Counters kept modulo `m` tell apart positions less than `m` apart. -/
theorem mod_eq_iff {i j : Nat} (hij : i ≤ j) (hj : j < i + m) : i % m = j % m ↔ i = j := by
  refine ⟨fun heq => ?_, fun heq => by rw [heq]⟩
  by_contra hne
  exact slot_ne (by omega) hj heq

/-- The distance of two positions, from their counters. -/
theorem sub_mod_eq {i j : Nat} (hij : i ≤ j) (hj : j < i + m) :
    (m - i % m + j % m) % m = j - i := by
  have hm : 0 < m := by omega
  have hi : i % m < m := Nat.mod_lt i hm
  have hsum : (m - i % m + j % m + i) % m = j % m := by
    calc (m - i % m + j % m + i) % m = (m - i % m + j % m + i % m) % m := (Nat.add_mod_mod _ _ _).symm
      _ = (j % m + m) % m := by congr 1; omega
      _ = j % m := by rw [Nat.add_mod_right, Nat.mod_mod]
  have hlt : (m - i % m + j % m) % m < m := Nat.mod_lt _ hm
  have hpos : (i + (m - i % m + j % m) % m) % m = j % m := by
    rw [Nat.add_mod_mod, Nat.add_comm]
    exact hsum
  by_contra hne
  rcases Nat.lt_or_ge ((m - i % m + j % m) % m) (j - i) with hlt' | hge
  · exact slot_ne (by omega) (by omega) hpos
  · exact slot_ne (by omega) (by omega) hpos.symm

/-- The ring holds `items` at the positions from `base` on. -/
def Shows (n : Nat) (ring : Nat → α) (base : Nat) (items : List α) : Prop :=
  ∀ k x, items[k]? = some x → ring ((base + k) % n) = x

variable {ring : Nat → α} {base : Nat} {items : List α}

theorem Shows.nil : Shows n ring base ([] : List α) := by
  intro k x hk
  cases hk

/-- The slot of the next position is none of those shown. -/
theorem Shows.write_next (h : Shows n ring base items) (hlen : items.length < n) (x : α) :
    Shows n (Function.update ring ((base + items.length) % n) x) base items := by
  intro k y hk
  have hklt : k < items.length := (List.getElem?_eq_some_iff.mp hk).1
  rw [Function.update_of_ne (slot_ne (by omega) (by omega))]
  exact h k y hk

/-- An item at the next position is shown after the others. -/
theorem Shows.append (h : Shows n ring base items) {x : α}
    (hx : ring ((base + items.length) % n) = x) : Shows n ring base (items ++ [x]) := by
  intro k y hk
  rcases Nat.lt_trichotomy k items.length with hlt | heq | hgt
  · rw [List.getElem?_append_left hlt] at hk
    exact h k y hk
  · subst heq
    rw [List.getElem?_concat_length] at hk
    cases hk
    exact hx
  · rw [List.getElem?_eq_none (by rw [List.length_append, List.length_singleton]; omega)] at hk
    cases hk

theorem Shows.push (h : Shows n ring base items) (hlen : items.length < n) (x : α) :
    Shows n (Function.update ring ((base + items.length) % n) x) base (items ++ [x]) :=
  (h.write_next hlen x).append (Function.update_self ..)

/-- The oldest items are given up. -/
theorem Shows.drop (h : Shows n ring base items) (k : Nat) :
    Shows n ring (base + k) (items.drop k) := by
  intro j x hj
  rw [List.getElem?_drop] at hj
  rw [Nat.add_assoc]
  exact h (k + j) x hj

/-- Reading the shown positions one after the other. -/
theorem Shows.read (h : Shows n ring base items) :
    (List.range items.length).map (fun k => ring ((base + k) % n)) = items := by
  apply List.ext_getElem
  · rw [List.length_map, List.length_range]
  · intro k hk hk'
    rw [List.getElem_map, List.getElem_range]
    exact h k items[k] (List.getElem?_eq_getElem hk')

end Window
