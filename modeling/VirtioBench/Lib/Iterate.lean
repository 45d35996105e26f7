import Mathlib.Data.Fintype.Pigeonhole
import Mathlib.Data.Fintype.Option

/- A partial function applied again and again. `iter f n s` is the result of `n`
   applications if they are all defined, `settle f n s` the state after `n` of them or
   after as many as there are.

   Where the states are finitely many, `f` goes on for ever from `s` exactly if it comes
   back to a state it was in (`forever_iff`). -/
namespace Iterate

variable {σ : Type} {f : σ → Option σ} {s t : σ} {m n : Nat}

def iter (f : σ → Option σ) : Nat → σ → Option σ
  | 0, s => some s
  | n + 1, s => (iter f n s).bind f

def settle (f : σ → Option σ) : Nat → σ → σ
  | 0, s => s
  | n + 1, s =>
    match f s with
    | none => s
    | some t => settle f n t

theorem settle_of_some (h : f s = some t) (n : Nat) : settle f (n + 1) s = settle f n t := by
  rw [settle, h]

theorem settle_of_none (h : f s = none) (n : Nat) : settle f n s = s := by
  cases n with
  | zero => rfl
  | succ n => rw [settle, h]

theorem settle_add (m n : Nat) (s : σ) : settle f (m + n) s = settle f n (settle f m s) := by
  induction m generalizing s with
  | zero => rw [Nat.zero_add, settle]
  | succ m ih =>
    rw [Nat.succ_add, Nat.succ_eq_add_one]
    cases h : f s with
    | none => rw [settle_of_none h, settle_of_none h, settle_of_none h]
    | some t => rw [settle_of_some h, settle_of_some h, ih]

/-- What every application keeps holds between the first state and the last. -/
theorem settle_rel {R : σ → σ → Prop} (hrefl : ∀ s, R s s)
    (htrans : ∀ {s t u}, R s t → R t u → R s u) (hstep : ∀ {s t}, f s = some t → R s t) (n : Nat)
    (s : σ) : R s (settle f n s) := by
  induction n generalizing s with
  | zero => exact hrefl s
  | succ n ih =>
    cases h : f s with
    | none =>
      rw [settle_of_none h]
      exact hrefl s
    | some t =>
      rw [settle_of_some h]
      exact htrans (hstep h) (ih t)

theorem iter_add (m n : Nat) (s : σ) : iter f (m + n) s = (iter f m s).bind (iter f n) := by
  induction n with
  | zero =>
    rw [Nat.add_zero]
    cases iter f m s <;> rfl
  | succ n ih =>
    rw [← Nat.add_assoc, iter, ih, Option.bind_assoc]
    rfl

theorem iter_ne_none_of_le (hmn : m ≤ n) (h : iter f n s ≠ none) : iter f m s ≠ none := by
  intro hnone
  apply h
  rw [← Nat.add_sub_cancel' hmn, iter_add, hnone]
  rfl

/-- The last state, if the applications come to an end. -/
theorem exists_last (h : iter f n s = none) : ∃ m t, iter f m s = some t ∧ f t = none := by
  induction n with
  | zero => cases h
  | succ n ih =>
    cases ht : iter f n s with
    | none => exact ih ht
    | some t =>
      rw [iter, ht] at h
      exact ⟨n, t, ht, h⟩

/-- Two equal states are followed by equal states. -/
theorem iter_shift {j k : Nat} (h : iter f j s = iter f k s) (n : Nat) :
    iter f (j + n) s = iter f (k + n) s := by
  rw [iter_add, iter_add, h]

/-- A state that comes back comes back for ever. -/
theorem forever_of_repeat {j k : Nat} (hjk : j < k) (hk : iter f k s ≠ none)
    (h : iter f j s = iter f k s) (n : Nat) : iter f n s ≠ none := by
  induction n using Nat.strongRecOn with
  | ind n ih =>
    rcases Nat.lt_or_ge k n with hkn | hnk
    · -- one turn of the loop less
      have hshift := iter_shift h (n - k)
      rw [Nat.add_sub_cancel' (Nat.le_of_lt hkn)] at hshift
      rw [← hshift]
      exact ih (j + (n - k)) (by omega)
    · exact iter_ne_none_of_le hnk hk

theorem forever_iff [Finite σ] :
    (∀ n, iter f n s ≠ none) ↔ ∃ j k, j < k ∧ iter f k s ≠ none ∧ iter f j s = iter f k s := by
  constructor
  · intro hall
    obtain ⟨x, y, hne, heq⟩ := Finite.exists_ne_map_eq_of_infinite (fun n => iter f n s)
    rcases Nat.lt_or_gt_of_ne hne with hlt | hgt
    · exact ⟨x, y, hlt, hall y, heq⟩
    · exact ⟨y, x, hgt, hall x, heq.symm⟩
  · rintro ⟨j, k, hjk, hk, heq⟩ n
    exact forever_of_repeat hjk hk heq n

end Iterate
