import VirtioBench.Lib.Numeral
import VirtioBench.Vtb.ConfigInit

/- Numbers on the command line and in the log (vtb/src/cmdline_parser.cpp,
   vtb/src/config_manager.cpp): `get<uint64_t>` and `get<int>` read the value of an argument with
   `stoull` (of the base the text says) and `stoi`; `dumpConfig` prints an `int` in decimal and
   a `uint64_t` in hexadecimal after `0x`.

   `dumped_values_read_back`: a number that was dumped can be given on the command line of the next
   run, where it is read as the same number; except that a negative one is taken for a flag. -/
namespace VirtioBench.Vtb

open Numeral

/-! ## Reading -/

inductive Thrown where
  | invalidArgument
  | outOfRange
  deriving DecidableEq, Repr

/-- Sign and magnitude, as `strtol` with base 10 and `strtoull` with base 0 read them; none if there
is no digit. -/
def numeral (self : Bool) (text : List Char) : Option (Bool × Nat) :=
  let (neg, rest) := sign (text.dropWhile isspace)
  let (base, ds) := if self then based rest else (10, rest)
  if (ds.head?.bind (digit base)).isSome then some (neg, (digits base 0 ds).1) else none

/-- `std::stoull(s, nullptr, 0)`. -/
def stoull (s : String) : Except Thrown Nat :=
  match numeral true s.toList with
  | none => .error .invalidArgument
  | some (neg, n) =>
    if n < 2 ^ 64 then .ok (if neg then (2 ^ 64 - n) % 2 ^ 64 else n) else .error .outOfRange

/-- `std::stoi(s)`. -/
def stoi (s : String) : Except Thrown Int :=
  match numeral false s.toList with
  | none => .error .invalidArgument
  | some (neg, n) =>
    let v : Int := if neg then -n else n
    if -2 ^ 31 ≤ v ∧ v < 2 ^ 31 then .ok v else .error .outOfRange

namespace CmdlineParser

def getUint64 (p : CmdlineParser) (name : String) : Except Thrown Nat :=
  if p.getString name = "" then .ok 0 else stoull (p.getString name)

def getInt (p : CmdlineParser) (name : String) : Except Thrown Int :=
  if p.getString name = "" then .ok 0 else stoi (p.getString name)

end CmdlineParser

/-! ## Printing -/

/-- The `std::any` of the database; `object` stands for every other type. -/
inductive Value where
  | int (n : Int32)
  | bool (b : Bool)
  | string (s : String)
  | uint64 (m : UInt64)
  | object

/-- What `dumpConfig` prints of a value. -/
def Value.text : Value → String
  | .int n => String.ofList (decimal n.toInt)
  | .bool b => if b then "true" else "false"
  | .string s => s
  | .uint64 m => String.ofList ('0' :: 'x' :: Nat.toDigits 16 m.toNat)
  | .object => "[Object]"

theorem digitChar_not_space {d : Nat} (hd : d < 10) : isspace (Nat.digitChar d) = false := by
  interval_cases d <;> rfl

theorem sign_digitChar {d : Nat} (hd : d < 10) (cs : List Char) :
    sign (Nat.digitChar d :: cs) = (false, Nat.digitChar d :: cs) := by
  interval_cases d <;> rfl

theorem stoull_text (m : UInt64) : stoull (Value.text (.uint64 m)) = .ok m.toNat := by
  have hm : m.toNat < 2 ^ 64 := m.toNat_lt
  obtain ⟨c, cs, d, hcs, hd, rfl⟩ := toDigits_cons (by decide : 1 < 16) m.toNat
  have hdigit : Hexdump.hexVal (Nat.digitChar d) = some d := Hexdump.lowerDigits d hd
  have hbased : based ('0' :: 'x' :: Nat.toDigits 16 m.toNat) = (16, Nat.toDigits 16 m.toNat) := by
    rw [hcs]
    simp [based, hdigit]
  have hhead : ((Nat.toDigits 16 m.toNat).head?.bind (digit 16)).isSome = true := by
    rw [hcs]
    simp [digit_digitChar hd]
  have hnum : numeral true ('0' :: 'x' :: Nat.toDigits 16 m.toNat) = some (false, m.toNat) := by
    have hsign : sign (('0' :: 'x' :: Nat.toDigits 16 m.toNat).dropWhile isspace) =
        (false, '0' :: 'x' :: Nat.toDigits 16 m.toNat) := rfl
    simp only [numeral, hsign, if_true, hbased, hhead, digits_toDigits (by decide : 1 < 16) (by decide)]
  simp only [stoull, Value.text, String.toList_ofList, hnum]
  rw [if_pos hm]
  rfl

theorem stoi_text {n : Int32} (hn : 0 ≤ n.toInt) : stoi (Value.text (.int n)) = .ok n.toInt := by
  have hlt : n.toInt < 2 ^ 31 := n.toInt_lt
  obtain ⟨c, cs, d, hcs, hd, rfl⟩ := toDigits_cons (by decide : 1 < 10) n.toInt.natAbs
  have hdrop : (Nat.toDigits 10 n.toInt.natAbs).dropWhile isspace =
      Nat.toDigits 10 n.toInt.natAbs := by
    rw [hcs]
    simp [digitChar_not_space hd]
  have hsign : sign (Nat.toDigits 10 n.toInt.natAbs) =
      (false, Nat.toDigits 10 n.toInt.natAbs) := by
    rw [hcs]
    exact sign_digitChar hd cs
  have hhead : ((Nat.toDigits 10 n.toInt.natAbs).head?.bind (digit 10)).isSome = true := by
    rw [hcs]
    simp [digit_digitChar hd]
  have hnum : numeral false (Nat.toDigits 10 n.toInt.natAbs) = some (false, n.toInt.natAbs) := by
    simp [numeral, hdrop, hsign, hhead, digits_toDigits (by decide : 1 < 10) (by decide)]
  have habs : (n.toInt.natAbs : Int) = n.toInt := Int.natAbs_of_nonneg hn
  have hneg : ¬ n.toInt < 0 := by omega
  simp only [stoi, Value.text, decimal, hneg, if_false, String.toList_ofList, hnum, habs]
  rw [if_pos (by omega)]
  rfl

theorem uint64_ne_empty (m : UInt64) : Value.text (.uint64 m) ≠ "" := by
  simp [Value.text, ← String.toList_inj]

theorem int_ne_empty (n : Int32) : Value.text (.int n) ≠ "" := by
  simp only [Value.text, decimal, ne_eq, ← String.toList_inj, String.toList_ofList]
  split <;> simp

/-! ## The command line -/

theorem dashed_uint64 (m : UInt64) : dashed (Value.text (.uint64 m)) = false := by
  simp [dashed, firstChar, Value.text]

/-- A negative number looks like a flag, the others do not. -/
theorem dashed_int (n : Int32) : dashed (Value.text (.int n)) = true ↔ n.toInt < 0 := by
  obtain ⟨c, cs, d, hcs, hd, rfl⟩ := toDigits_cons (by decide : 1 < 10) n.toInt.natAbs
  have hne : Nat.digitChar d ≠ '-' := by
    interval_cases d <;> decide
  by_cases hn : n.toInt < 0
  · simp [dashed, firstChar, Value.text, decimal, hn]
  · simp [dashed, firstChar, Value.text, decimal, hn, hcs, hne]

namespace ConfigManager

def portmaskArgument : Argument := ⟨"--portmask", "-p", "Hex bitmask of ports", true, false, "0x0"⟩

def burstArgument : Argument := ⟨"--burst", "-b", "Packet burst size", false, false, "32"⟩

/-- A registered argument, as the singleton has it after some calls. -/
theorem exists_after (earlier : List (List String)) {a : Argument} (ha : a ∈ registry.arguments) :
    ∃ fs, a.after fs ∈ (inits earlier).parser.arguments := by
  obtain ⟨fs, hfs⟩ := inits_arguments earlier
  refine ⟨fs, ?_⟩
  rw [hfs, applyFlags_eq_map registry.distinct_names]
  exact List.mem_map_of_mem ha

/-- The names of the singleton's arguments are the registered ones. -/
theorem inits_names (earlier : List (List String)) {a : Argument}
    (ha : a ∈ (inits earlier).parser.arguments) {t : String} (hn : a.named t) :
    ∃ b ∈ registry.arguments, b.named t := by
  obtain ⟨fs, hfs⟩ := inits_arguments earlier
  rw [hfs, applyFlags_eq_map registry.distinct_names] at ha
  obtain ⟨b, hb, rfl⟩ := List.mem_map.mp ha
  exact ⟨b, hb, by rwa [after_named] at hn⟩

theorem getString_given (earlier : List (List String)) {argv : List String} {a : Argument}
    {n v : String} (ha : a ∈ registry.arguments) (hn : a.named n)
    (hok : ((inits earlier).parser.parse argv).2 = none)
    (hv : (a.given (tailOf argv)).getLast? = some v) :
    ((inits earlier).parser.parse argv).1.getString n = v := by
  obtain ⟨fs, hmem⟩ := exists_after earlier ha
  have hname : (a.after fs).named n := by rwa [after_named]
  rw [getString_parse (inits_named earlier) hok hmem hname, given_after, hv]
  rfl

/-- A negative number is no name of an argument. -/
theorem not_named_negative {n : Int32} (hn : n.toInt < 0) {a : Argument}
    (ha : a ∈ registry.arguments) : a.named (Value.text (.int n)) = false := by
  have htext : (Value.text (.int n)).toList = '-' :: Nat.toDigits 10 n.toInt.natAbs := by
    simp [Value.text, decimal, hn]
  have hdigits : ∀ c ∈ (Value.text (.int n)).toList.drop 1, c.isDigit = true := by
    rw [htext]
    intro c hc
    exact Nat.isDigit_of_mem_toDigits (by decide) (by decide) hc
  have hnames : ∀ b ∈ registry.arguments, ∀ t ∈ [b.longName, b.shortName],
      (t.toList.drop 1).all Char.isDigit = false := by decide
  by_contra hnamed
  have hnamed' : a.named (Value.text (.int n)) = true := by simpa using hnamed
  simp only [Argument.named, Bool.or_eq_true, decide_eq_true_eq] at hnamed'
  have hno := hnames a ha (Value.text (.int n)) (by simpa using hnamed')
  rw [List.all_eq_true.mpr hdigits] at hno
  cases hno

theorem given_registered (tokens : List String) {a : Argument} (ha : a ∈ registry.arguments) :
    a.given tokens = ((readFlags tokens).filter (fun f => a.named f.name)).filterMap Flag.value :=
  given_eq (fun _ ht => registry.dashed_names ha ht) tokens

theorem tailOf_eal {prog : String} {eal tail : List String} (heal : "--" ∉ eal) :
    tailOf (prog :: eal ++ "--" :: tail) = tail := by
  have hdrop : (eal ++ "--" :: tail).dropWhile (fun t => t ≠ "--") = "--" :: tail := by
    rw [List.dropWhile_append_of_pos]
    · simp
    · intro t ht
      simpa using fun heq : t = "--" => heal (heq ▸ ht)
  simp only [tailOf, List.cons_append, List.drop_succ_cons, List.drop_zero, hdrop]

/-- The application's part of a command line that sets the mask and the burst. -/
def settings (m : UInt64) (n : Int32) : List String :=
  ["-p", Value.text (.uint64 m), "-b", Value.text (.int n)]

theorem readFlags_settings (m : UInt64) {n : Int32} (hn : 0 ≤ n.toInt) : readFlags (settings m n) =
    [⟨"-p", some (Value.text (.uint64 m))⟩, ⟨"-b", some (Value.text (.int n))⟩] := by
  have hp : dashed (Value.text (.uint64 m)) = false := dashed_uint64 m
  have hb : dashed (Value.text (.int n)) = false := by
    rw [Bool.eq_false_iff, ne_eq, dashed_int]
    omega
  simp [settings, readFlags, hp, hb]

/-- Flags of the registered names that all have a value are taken, if the mask is among them. -/
theorem parse_valued (earlier : List (List String)) {argv : List String}
    (hnames : ∀ f ∈ readFlags (tailOf argv), ∃ a ∈ registry.arguments, a.named f.name)
    (hvalues : ∀ f ∈ readFlags (tailOf argv), f.value ≠ none)
    (hmask : "-p" ∈ tailOf argv) : ((inits earlier).parser.parse argv).2 = none := by
  have hn := inits_named earlier
  apply parse_returns_iff.mpr
  constructor
  · apply (parseFlags_eq_none _ _).mpr
    intro before f after hsplit
    have hf : f ∈ readFlags (tailOf argv) := by
      rw [hsplit]
      simp
    obtain ⟨a, ha, hname⟩ := hnames f hf
    obtain ⟨fs, hmem⟩ := exists_after earlier ha
    exact (flagError_eq_none hn.distinct before f).mpr ⟨⟨_, hmem, by rwa [after_named]⟩,
      fun _ _ _ _ hnone => absurd hnone (hvalues f hf)⟩
  · obtain ⟨fs, hfs⟩ := inits_arguments earlier
    rw [applyFlags_eq_map hn.distinct, checkRequired_eq_none, List.forall_mem_map]
    intro a ha hreq
    apply (after_found (hn.dashed a ha)).mpr
    right
    refine ⟨"-p", hmask, ?_⟩
    rw [hfs, applyFlags_eq_map registry.distinct_names] at ha
    obtain ⟨b, hb, rfl⟩ := List.mem_map.mp ha
    have honly : ∀ c ∈ registry.arguments, c.required = true → c.named "-p" = true := by decide
    exact honly b hb hreq

/-- A parse of such a command line, after other calls of `init`. -/
def reparse (earlier : List (List String)) (prog : String) (eal : List String) (m : UInt64)
    (n : Int32) : CmdlineParser × Option ParseError :=
  (inits earlier).parser.parse (prog :: eal ++ "--" :: settings m n)

/-- After any calls of `init`, with any options for the EAL: a mask and a burst given as
`dumpConfig` prints them are accepted if and only if the burst is not negative, and then
`getArg` returns the same numbers. -/
theorem dumped_values_read_back (earlier : List (List String)) (prog : String) (eal : List String)
    (heal : "--" ∉ eal) (m : UInt64) (n : Int32) :
    ((reparse earlier prog eal m n).2 = none ↔ 0 ≤ n.toInt) ∧
    (0 ≤ n.toInt → (reparse earlier prog eal m n).1.getUint64 "--portmask" = .ok m.toNat ∧
      (reparse earlier prog eal m n).1.getInt "--burst" = .ok n.toInt) := by
  have htail : tailOf (prog :: eal ++ "--" :: settings m n) = settings m n := tailOf_eal heal
  have haccepted : 0 ≤ n.toInt → (reparse earlier prog eal m n).2 = none := by
    intro hn
    apply parse_valued
    · rw [htail, readFlags_settings m hn]
      simp only [List.forall_mem_cons, List.not_mem_nil, false_imp_iff, implies_true, and_true]
      exact ⟨⟨portmaskArgument, by decide, by decide⟩, ⟨burstArgument, by decide, by decide⟩⟩
    · rw [htail, readFlags_settings m hn]
      simp
    · rw [htail]
      simp [settings]
  refine ⟨⟨?_, haccepted⟩, ?_⟩
  · intro hok
    by_contra hneg
    have hn : n.toInt < 0 := by omega
    have hknown := ((parse_eq_none (inits_named earlier) _).mp hok).1.known
    rw [htail] at hknown
    obtain ⟨a, ha, hname⟩ := hknown (Value.text (.int n)) (by simp [settings])
      ((dashed_int n).mpr hn)
    obtain ⟨b, hb, hname⟩ := inits_names earlier ha hname
    rw [not_named_negative hn hb] at hname
    cases hname
  · intro hn
    have hok : (reparse earlier prog eal m n).2 = none := haccepted hn
    have hmask : (reparse earlier prog eal m n).1.getString "--portmask" =
        Value.text (.uint64 m) := by
      apply getString_given earlier (by decide : portmaskArgument ∈ _) (by decide) hok
      rw [htail, given_registered _ (by decide), readFlags_settings m hn]
      rfl
    have hburst : (reparse earlier prog eal m n).1.getString "--burst" =
        Value.text (.int n) := by
      apply getString_given earlier (by decide : burstArgument ∈ _) (by decide) hok
      rw [htail, given_registered _ (by decide), readFlags_settings m hn]
      rfl
    refine ⟨?_, ?_⟩
    · rw [CmdlineParser.getUint64, hmask, if_neg (uint64_ne_empty m), stoull_text]
    · rw [CmdlineParser.getInt, hburst, if_neg (int_ne_empty n), stoi_text hn]

theorem dumped_values_read_back_mask :
    (reparse [] "vtb" ["-l", "0-3"] 0xff 64).1.getUint64 "--portmask" = .ok 255 ∧
      (reparse [] "vtb" ["-l", "0-3"] 0xff 64).1.getInt "--burst" = .ok 64 :=
  (dumped_values_read_back [] "vtb" ["-l", "0-3"] (by decide) 0xff 64).2 (by decide)

end ConfigManager

end VirtioBench.Vtb
