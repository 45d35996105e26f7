import Mathlib.Algebra.Order.Ring.Nat

/- Sums of 16-bit words with the carries added back in. Adding a carry back changes a number by a
   multiple of 65535, and never makes 0 of anything else; so a sum that is filled up with
   the complement of what it folds to is all ones after that. -/
namespace OnesComplement

/-- The carries of a sum, added to its lower 16 bits. -/
def fold (n : Nat) : Nat := n / 65536 + n % 65536

theorem fold_mod (n : Nat) : fold n % 65535 = n % 65535 := by
  rw [fold]
  omega

theorem fold_pos {n : Nat} (h : 0 < n) : 0 < fold n := by
  rw [fold]
  omega

theorem fold_fold_le {n : Nat} (h : n < 2 ^ 32) : fold (fold n) ≤ 65535 := by
  have hone : fold n ≤ 65535 + 65535 := by
    rw [fold]
    omega
  rw [fold]
  omega

theorem fold_fold_complement {n : Nat} (h : n + 65535 < 2 ^ 32) :
    fold (fold (n + (65535 - fold (fold n)))) = 65535 := by
  have hle := fold_fold_le (show n < 2 ^ 32 by omega)
  have hfilled : (n + (65535 - fold (fold n))) % 65535 = 0 := by
    have hmod : fold (fold n) % 65535 = n % 65535 := by rw [fold_mod, fold_mod]
    omega
  have hpos : 0 < n + (65535 - fold (fold n)) := by
    rcases Nat.eq_zero_or_pos n with rfl | hn
    · decide
    · omega
  have hmod : fold (fold (n + (65535 - fold (fold n)))) % 65535 = 0 := by
    rw [fold_mod, fold_mod, hfilled]
  have hle' := fold_fold_le (show n + (65535 - fold (fold n)) < 2 ^ 32 by omega)
  have hpos' := fold_pos (fold_pos hpos)
  omega

end OnesComplement
