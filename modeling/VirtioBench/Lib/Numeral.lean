import VirtioBench.Lib.Hexdump

/- Numerals as the C library reads and writes them: `sign` and `digits` are the parts of
   `strtol` and `strtoull` after the blanks, `based` finds the base of a numeral that says it
   itself, `decimal` is what `printf` writes; what is written in a base reads back (`digits_toDigits`). -/
namespace Numeral

open Hexdump

/-- `isspace` in the C locale. -/
def isspace (c : Char) : Bool := c = ' ' || (9 ≤ c.toNat && c.toNat ≤ 13)

/-- The value of a digit of the base, for a base up to 16. -/
def digit (base : Nat) (c : Char) : Option Nat := (hexVal c).filter (fun d => d < base)

/-- The number the digits in front make, and what follows them. -/
def digits (base acc : Nat) : List Char → Nat × List Char
  | [] => (acc, [])
  | c :: cs =>
    match digit base c with
    | some d => digits base (base * acc + d) cs
    | none => (acc, c :: cs)

/-- An optional sign; true for a minus. -/
def sign : List Char → Bool × List Char
  | '-' :: cs => (true, cs)
  | '+' :: cs => (false, cs)
  | cs => (false, cs)

/-- The base of a numeral, by its first characters, and its digits. -/
def based : List Char → Nat × List Char
  | '0' :: x :: c :: cs =>
    if (x = 'x' ∨ x = 'X') ∧ (hexVal c).isSome then (16, c :: cs) else (8, '0' :: x :: c :: cs)
  | '0' :: cs => (8, '0' :: cs)
  | cs => (10, cs)

/-- A number in decimal, `%d`. -/
def decimal (n : Int) : List Char :=
  if n < 0 then '-' :: Nat.toDigits 10 n.natAbs else Nat.toDigits 10 n.natAbs

variable {base n : Nat}

theorem digit_digitChar {d : Nat} (hd : d < base) (hbase : base ≤ 16) :
    digit base (Nat.digitChar d) = some d := by
  have hval : hexVal (Nat.digitChar d) = some d := lowerDigits d (by omega)
  simp [digit, hval, hd]

/-- What is written in a base is read as it was meant, whatever number stands before it. -/
theorem digits_append_toDigits (h1 : 1 < base) (hbase : base ≤ 16) (n acc : Nat) (cs : List Char) :
    digits base acc (Nat.toDigits base n ++ cs) =
      digits base (base ^ (Nat.toDigits base n).length * acc + n) cs := by
  induction n using Nat.strongRecOn generalizing acc cs with
  | ind n ih =>
    rw [Nat.toDigits_eq_if h1]
    by_cases hn : n < base
    · simp [if_pos hn, digits, digit_digitChar hn hbase]
    · have hdiv : n / base < n := Nat.div_lt_self (by omega) h1
      have hlast : n % base < base := Nat.mod_lt n (by omega)
      have hsum : base * (n / base) + n % base = n := Nat.div_add_mod n base
      rw [if_neg hn, List.append_assoc, ih (n / base) hdiv, List.singleton_append, digits,
        digit_digitChar hlast hbase]
      simp only [List.length_append, List.length_singleton, Nat.pow_succ]
      congr 1
      rw [Nat.mul_add, Nat.add_assoc, hsum, ← Nat.mul_assoc, Nat.mul_comm base]

theorem digits_toDigits (h1 : 1 < base) (hbase : base ≤ 16) (n : Nat) :
    digits base 0 (Nat.toDigits base n) = (n, []) := by
  have h := digits_append_toDigits h1 hbase n 0 []
  simpa [digits] using h

/-- A numeral starts with a digit. -/
theorem toDigits_cons (h1 : 1 < base) (n : Nat) :
    ∃ c cs d, Nat.toDigits base n = c :: cs ∧ d < base ∧ c = Nat.digitChar d := by
  induction n using Nat.strongRecOn with
  | ind n ih =>
    rw [Nat.toDigits_eq_if h1]
    by_cases hn : n < base
    · exact ⟨_, [], n, if_pos hn, hn, rfl⟩
    · obtain ⟨c, cs, d, hcs, hd, hc⟩ := ih (n / base) (Nat.div_lt_self (by omega) h1)
      exact ⟨c, cs ++ [Nat.digitChar (n % base)], d, by rw [if_neg hn, hcs]; rfl, hd, hc⟩

end Numeral
