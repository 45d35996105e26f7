import Mathlib.Data.List.Basic

/- The bytes of a buffer, by their offset. `read` and `write` are the accesses to a field of
   it, `swap` exchanges two fields of the same size through a temporary. Fields that do not
   overlap do not see each other's writes; the lemmas ask for that as a disjunction of two
   inequalities, which omega proves. -/
namespace Bytes

abbrev Buffer : Type := Nat → UInt8

def read (b : Buffer) (off n : Nat) : List UInt8 := (List.range n).map (fun k => b (off + k))

def write (b : Buffer) (off : Nat) (bytes : List UInt8) : Buffer :=
  fun k => if off ≤ k then bytes[k - off]?.getD (b k) else b k

def swap (b : Buffer) (x y n : Nat) : Buffer := write (write b x (read b y n)) y (read b x n)

variable {b : Buffer} {off off' m n x y : Nat} {bytes : List UInt8}

@[simp] theorem length_read : (read b off n).length = n := by simp [read]

theorem write_outside {k : Nat} (h : k < off ∨ off + bytes.length ≤ k) :
    write b off bytes k = b k := by
  rw [write]
  split
  · rw [List.getElem?_eq_none (by omega), Option.getD_none]
  · rfl

theorem read_write_disjoint (h : off' + n ≤ off ∨ off + bytes.length ≤ off') :
    read (write b off bytes) off' n = read b off' n := by
  apply List.map_congr_left
  intro k hk
  rw [List.mem_range] at hk
  exact write_outside (by omega)

theorem read_write_self : read (write b off bytes) off bytes.length = bytes := by
  apply List.ext_getElem
  · simp
  · intro k hk hk'
    simp [read, write, List.getElem?_eq_getElem hk']

theorem read_swap_left (h : x + n ≤ y ∨ y + n ≤ x) : read (swap b x y n) x n = read b y n := by
  rw [swap, read_write_disjoint (by simp; omega)]
  calc read (write b x (read b y n)) x n
      = read (write b x (read b y n)) x (read b y n).length := by rw [length_read]
    _ = read b y n := read_write_self

theorem read_swap_right : read (swap b x y n) y n = read b x n := by
  calc read (swap b x y n) y n
      = read (swap b x y n) y (read b x n).length := by rw [length_read]
    _ = read b x n := read_write_self

theorem read_swap_disjoint (hx : off + n ≤ x ∨ x + m ≤ off) (hy : off + n ≤ y ∨ y + m ≤ off) :
    read (swap b x y m) off n = read b off n := by
  rw [swap, read_write_disjoint (by simpa using hy), read_write_disjoint (by simpa using hx)]

/-- The bytes stand in the buffer, from `off` on. -/
def Holds (b : Buffer) (off : Nat) (bytes : List UInt8) : Prop := read b off bytes.length = bytes

theorem read_add (b : Buffer) (off m n : Nat) :
    read b off (m + n) = read b off m ++ read b (off + m) n := by
  simp [read, List.range_add, Nat.add_assoc]

@[simp] theorem holds_nil : Holds b off [] := rfl

@[simp] theorem holds_cons {c : UInt8} : Holds b off (c :: bytes) ↔ b off = c ∧ Holds b (off + 1) bytes := by
  have hcons : read b off (bytes.length + 1) = b off :: read b (off + 1) bytes.length := by
    rw [Nat.add_comm, read_add]
    simp [read, List.range_succ]
  simp [Holds, hcons]

@[simp] theorem holds_append {bytes' : List UInt8} :
    Holds b off (bytes ++ bytes') ↔ Holds b off bytes ∧ Holds b (off + bytes.length) bytes' := by
  rw [Holds, List.length_append, read_add]
  constructor
  · intro h
    exact List.append_inj h (by simp)
  · rintro ⟨h, h'⟩
    rw [h, h']

theorem Holds.of_prefix {bytes' : List UInt8} (h : Holds b off bytes) (hp : bytes' <+: bytes) :
    Holds b off bytes' := by
  obtain ⟨rest, rfl⟩ := hp
  exact (holds_append.mp h).1

theorem holds_write : Holds (write b off bytes) off bytes := read_write_self

theorem Holds.write {bytes' : List UInt8} (h : Holds b off bytes)
    (hd : off + bytes.length ≤ off' ∨ off' + bytes'.length ≤ off) :
    Holds (Bytes.write b off' bytes') off bytes := by
  rw [Holds, read_write_disjoint hd]
  exact h

theorem Holds.drop (h : Holds b off bytes) (hm : m ≤ bytes.length) :
    Holds b (off + m) (bytes.drop m) := by
  rw [← List.take_append_drop m bytes, holds_append, List.length_take, Nat.min_eq_left hm] at h
  exact h.2

/-- A field within bytes that are known. -/
theorem Holds.read_field (h : Holds b off bytes) (hm : m + n ≤ bytes.length) :
    read b (off + m) n = (bytes.drop m).take n := by
  have hpart : Holds b (off + m) ((bytes.drop m).take n) :=
    Holds.of_prefix (h.drop (by omega)) (List.take_prefix n _)
  rwa [Holds, List.length_take, List.length_drop, Nat.min_eq_left (by omega)] at hpart

end Bytes
