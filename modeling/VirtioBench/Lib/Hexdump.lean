import VirtioBench.Lib.Bytes
import Mathlib.Tactic.IntervalCases

/- Hexadecimal dumps as text, and how to read one back. A printer writes a byte as two digits
   (`hexByte`), a number in decimal (`decPad`) and a row as a text that ends in a newline; the
   reader cuts the text into rows (`rows`), reads every pair of digits of a piece of text
   (`readHex`) and the number in front of it (`readNat`).

   A printer is a loop over the bytes: `readHex_flatMap` reads back what it printed,
   `flatMap_chunks` cuts the loop at every `w`-th byte, and `flatMap_close` is the loop that
   closes a row when the next one begins. -/
namespace Hexdump

open Bytes

/-- The two digits of a byte; `digit` chooses between `%02x` and `%02X`. -/
def hexByte (digit : Nat → Char) (b : UInt8) : List Char :=
  [digit (b.toNat / 16), digit (b.toNat % 16)]

def lowerDigit (d : Nat) : Char := Nat.digitChar d

def upperDigit (d : Nat) : Char := (Nat.digitChar d).toUpper

/-- `%0*d` of a number that is not negative. -/
def decPad (width n : Nat) : List Char :=
  List.replicate (width - (Nat.toDigits 10 n).length) '0' ++ Nat.toDigits 10 n

def blanks (n : Nat) : List Char := List.replicate n ' '

def hexVal (c : Char) : Option Nat :=
  if '0' ≤ c ∧ c ≤ '9' then some (c.toNat - '0'.toNat)
  else if 'a' ≤ c ∧ c ≤ 'f' then some (c.toNat - 'a'.toNat + 10)
  else if 'A' ≤ c ∧ c ≤ 'F' then some (c.toNat - 'A'.toNat + 10)
  else none

/-- The bytes written in a piece of text: every pair of digits, whatever stands between them. -/
def readHex : List Char → List UInt8
  | [] => []
  | [_] => []
  | c :: d :: text =>
    match hexVal c, hexVal d with
    | some high, some low => UInt8.ofNat (16 * high + low) :: readHex text
    | _, _ => readHex (d :: text)

/-- The number a text starts with. -/
def readNat (text : List Char) : Nat := Nat.ofDigitChars 10 (text.takeWhile Char.isDigit) 0

/-- The rows of a text that ends in a newline. -/
def rows (text : List Char) : List (List Char) := (text.splitOn '\n').dropLast

/-! ## Bytes -/

/-- Every digit reads back as its value. -/
def Digits (digit : Nat → Char) : Prop := ∀ d, d < 16 → hexVal (digit d) = some d

theorem lowerDigits : Digits lowerDigit := by
  intro d hd
  interval_cases d <;> rfl

theorem upperDigits : Digits upperDigit := by
  intro d hd
  interval_cases d <;> rfl

variable {digit : Nat → Char} {text : List Char}

theorem readHex_skip {c : Char} (h : hexVal c = none) : readHex (c :: text) = readHex text := by
  cases text with
  | nil => simp [readHex]
  | cons d text => simp [readHex, h]

theorem readHex_byte (hd : Digits digit) (b : UInt8) :
    readHex (hexByte digit b ++ text) = b :: readHex text := by
  have hb : b.toNat < 256 := b.toNat_lt
  have hhigh : hexVal (digit (b.toNat / 16)) = some (b.toNat / 16) := hd _ (by omega)
  have hlow : hexVal (digit (b.toNat % 16)) = some (b.toNat % 16) := hd _ (by omega)
  have hval : 16 * (b.toNat / 16) + b.toNat % 16 = b.toNat := by omega
  simp [hexByte, readHex, hhigh, hlow, hval]

/-- What a loop prints reads back as the bytes its iterations printed. -/
theorem readHex_flatMap {α : Type} {f : α → List Char} {byte : α → UInt8}
    (h : ∀ x text, readHex (f x ++ text) = byte x :: readHex text) (xs : List α) :
    readHex (xs.flatMap f ++ text) = xs.map byte ++ readHex text := by
  induction xs with
  | nil => rfl
  | cons x xs ih =>
    rw [List.flatMap_cons, List.append_assoc, h, ih, List.map_cons, List.cons_append]

/-- Text without a digit, which the reader passes over. -/
def Skipped (sep : List Char) : Prop := ∀ c ∈ sep, hexVal c = none

theorem Skipped.readHex {sep : List Char} (h : Skipped sep) :
    readHex (sep ++ text) = Hexdump.readHex text := by
  induction sep with
  | nil => rfl
  | cons c sep ih =>
    have hc : hexVal c = none := h c (by simp)
    have hsep : Skipped sep := fun d hd => h d (by simp [hd])
    rw [List.cons_append, readHex_skip hc, ih hsep]

theorem Skipped.readHex_nil {sep : List Char} (h : Skipped sep) : Hexdump.readHex sep = [] :=
  calc Hexdump.readHex sep = Hexdump.readHex (sep ++ []) := by rw [List.append_nil]
    _ = [] := h.readHex

theorem skipped_of_blank {sep : List Char} (h : ∀ c ∈ sep, c = ' ') : Skipped sep := by
  intro c hc
  rw [h c hc]
  rfl

@[simp] theorem length_blanks (n : Nat) : (blanks n).length = n := List.length_replicate

theorem eq_of_mem_blanks {n : Nat} {c : Char} (h : c ∈ blanks n) : c = ' ' :=
  List.eq_of_mem_replicate h

/-! ## Numbers -/

theorem isDigit_decPad {width n : Nat} {c : Char} (hc : c ∈ decPad width n) : c.isDigit := by
  rcases List.mem_append.mp hc with hz | hn
  · rw [List.eq_of_mem_replicate hz]
    rfl
  · exact Nat.isDigit_of_mem_toDigits (by decide) (by decide) hn

theorem readNat_decPad (width n : Nat) (htext : text.head?.all (fun c => !c.isDigit)) :
    readNat (decPad width n ++ text) = n := by
  have htake : (decPad width n ++ text).takeWhile Char.isDigit = decPad width n := by
    rw [List.takeWhile_append_of_pos (fun c hc => isDigit_decPad hc)]
    cases text with
    | nil => simp
    | cons c text =>
      have hc : c.isDigit = false := by simpa using htext
      simp [hc]
  rw [readNat, htake, decPad, Nat.ofDigitChars_append, Nat.ofDigitChars_replicate_zero, Nat.mul_zero]
  exact Nat.ofDigitChars_ten_toDigits

theorem dropWhile_decPad (width n : Nat) (htext : text.head?.all (fun c => !c.isDigit)) :
    (decPad width n ++ text).dropWhile Char.isDigit = text := by
  rw [List.dropWhile_append_of_pos (fun c hc => isDigit_decPad hc)]
  cases text with
  | nil => simp
  | cons c text =>
    have hc : c.isDigit = false := by simpa using htext
    simp [hc]

/-! ## Rows -/

theorem rows_cons {row : List Char} (h : '\n' ∉ row) :
    rows (row ++ '\n' :: text) = row :: rows text := by
  have hs : (row ++ '\n' :: text).splitOn '\n' = row :: text.splitOn '\n' :=
    List.splitOn_append_cons_self_of_not_mem h _
  rw [rows, hs, List.dropLast_cons_of_ne_nil (List.splitOn_ne_nil _ _)]
  rfl

theorem newline_not_mem_hexByte (hd : Digits digit) (b : UInt8) : '\n' ∉ hexByte digit b := by
  have hb : b.toNat < 256 := b.toNat_lt
  have hdigit : ∀ d, d < 16 → digit d ≠ '\n' := by
    intro d hlt heq
    have hval := hd d hlt
    rw [heq] at hval
    cases hval
  have hhigh : '\n' ≠ digit (b.toNat / 16) := (hdigit _ (by omega)).symm
  have hlow : '\n' ≠ digit (b.toNat % 16) := (hdigit _ (by omega)).symm
  simp [hexByte, hhigh, hlow]

theorem newline_not_mem_decPad (width n : Nat) : '\n' ∉ decPad width n := by
  intro h
  have hdigit := isDigit_decPad h
  cases hdigit

theorem newline_not_mem_blanks (n : Nat) : '\n' ∉ blanks n := by
  intro h
  have hblank := eq_of_mem_blanks h
  cases hblank

theorem char_ne_newline {b : UInt8} (h : 32 ≤ b) : Char.ofNat b.toNat ≠ '\n' := by
  have hb : b.toNat < 256 := b.toNat_lt
  have h32 : 32 ≤ b.toNat := UInt8.le_iff_toNat_le.mp h
  intro heq
  have hvalid : b.toNat.isValidChar := .inl (by omega)
  have hval : (Char.ofNat b.toNat).toNat = b.toNat := by
    rw [Char.ofNat, dif_pos hvalid]
    exact UInt32.toNat_ofNatLT
  rw [heq] at hval
  simp at hval
  omega

/-- The rows of a text that is written row by row. -/
theorem rows_flatMap {α : Type} {row : α → List Char} (xs : List α) (h : ∀ x ∈ xs, '\n' ∉ row x) :
    rows (xs.flatMap (fun x => row x ++ ['\n'])) = xs.map row := by
  induction xs with
  | nil => rfl
  | cons x xs ih =>
    have hx : '\n' ∉ row x := h x (by simp)
    have hxs : ∀ y ∈ xs, '\n' ∉ row y := fun y hy => h y (by simp [hy])
    rw [List.flatMap_cons, List.append_assoc, List.singleton_append, rows_cons hx, ih hxs,
      List.map_cons]

/-! ## Loops over the bytes -/

variable {β : Type}

/-- A loop over `n` places, cut after every `w` of them. -/
theorem flatMap_chunks {w : Nat} (hw : 0 < w) (f : Nat → List β) (n : Nat) :
    (List.range n).flatMap f = (List.range ((n + w - 1) / w)).flatMap
      (fun k => (List.range (min w (n - w * k))).flatMap (fun i => f (w * k + i))) := by
  induction n using Nat.strongRecOn generalizing f with
  | ind n ih =>
    rcases Nat.lt_or_ge w n with hn | hn
    · have hn' : n = w + (n - w) := by omega
      have hcount : (n + w - 1) / w = (n - w + w - 1) / w + 1 := by
        rw [show n + w - 1 = (n - w + w - 1) + w by omega, Nat.add_div_right _ hw]
      have hfirst : min w (n - w * 0) = w := by
        rw [Nat.mul_zero]
        omega
      have hrest : ∀ k, n - w * (k + 1) = n - w - w * k := by
        intro k
        rw [Nat.mul_succ]
        omega
      have hshift : ∀ k i, f (w * (k + 1) + i) = f (w + (w * k + i)) := by
        intro k i
        rw [Nat.mul_succ, Nat.add_comm (w * k) w, Nat.add_assoc]
      calc (List.range n).flatMap f
          = (List.range (w + (n - w))).flatMap f := by rw [← hn']
        _ = (List.range w).flatMap f ++ (List.range (n - w)).flatMap (fun i => f (w + i)) := by
          rw [List.range_add, List.flatMap_append, List.flatMap_map]
        _ = _ := by
          rw [ih (n - w) (by omega), hcount, List.range_succ_eq_map, List.flatMap_cons,
            List.flatMap_map, hfirst]
          simp only [hrest, hshift, Nat.mul_zero, Nat.zero_add]
    · rcases Nat.eq_zero_or_pos n with rfl | hpos
      · simp [Nat.div_eq_of_lt (by omega : w - 1 < w)]
      · have hcount : (n + w - 1) / w = 1 := by
          rw [show n + w - 1 = (n - 1) + w by omega, Nat.add_div_right _ hw,
            Nat.div_eq_of_lt (by omega)]
        simp [hcount, Nat.min_eq_right hn]

/-- Rows that are closed when the next one begins, the last one where the loop ends. -/
theorem flatMap_close {m : Nat} (body close : Nat → List β) :
    (List.range m).flatMap (fun k => (if k = 0 then [] else close (k - 1)) ++ body k ++
      (if k + 1 = m then close k else [])) = (List.range m).flatMap (fun k => body k ++ close k) := by
  -- before row `j` is closed, the rows below it have been printed whole
  have hopen : ∀ j, j < m → (List.range j).flatMap (fun k => (if k = 0 then [] else close (k - 1)) ++
      body k ++ (if k + 1 = m then close k else [])) ++ (if j = 0 then [] else close (j - 1)) =
        (List.range j).flatMap (fun k => body k ++ close k) := by
    intro j
    induction j with
    | zero => simp
    | succ j ih =>
      intro hj
      have hne : ¬ j + 1 = m := by omega
      rw [List.range_succ, List.flatMap_append, List.flatMap_append, ← ih (by omega)]
      simp [hne]
  cases m with
  | zero => rfl
  | succ m =>
    rw [List.range_succ, List.flatMap_append, List.flatMap_append, ← hopen m (by omega)]
    simp

end Hexdump
