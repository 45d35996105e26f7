import VirtioBench.Lib.Numeral
import VirtioBench.Lm.StartVm

/- The list of `-ports_lm_index` (code_dump/dpdk/lm/startvm.cpp): `assign_port_indexing` cuts the
   text at the commas and reads each piece with `atoi`.

   `port_list_reads_back`: any list of numbers, written in decimal with commas between them, is
   the list the modules are started with, or what `main` reports if it is not as long as
   `num_lm` says; it takes the place of `-ports_per_lm`. -/
namespace VirtioBench.Lm

open Numeral

/-- Numbers with commas between them. -/
def portList (ns : List Int32) : String :=
  String.ofList ([','].intercalate (ns.map (fun n => decimal n.toInt)))

/-! ## One number -/

theorem digits_eq_ofDigitChars {cs : List Char} (h : ∀ c ∈ cs, c.isDigit = true) (acc : Nat) :
    digits acc cs = Nat.ofDigitChars 10 cs acc := by
  induction cs generalizing acc with
  | nil => simp [digits]
  | cons c cs ih =>
    have hc : c.isDigit = true := h c (by simp)
    have hcs : ∀ d ∈ cs, d.isDigit = true := fun d hd => h d (by simp [hd])
    rw [digits, if_pos hc, ih hcs, Nat.ofDigitChars_cons, Nat.mul_comm]
    rfl

theorem digits_numeral (n : Nat) : digits 0 (Nat.toDigits 10 n) = n := by
  rw [digits_eq_ofDigitChars (fun c hc => Nat.isDigit_of_mem_toDigits (by decide) (by decide) hc)]
  exact Nat.ofDigitChars_ten_toDigits

theorem strtol_decimal (n : Int32) : strtol (String.ofList (decimal n.toInt)) = n.toInt := by
  have hlow : -2 ^ 31 ≤ n.toInt := n.le_toInt
  have hhigh : n.toInt < 2 ^ 31 := n.toInt_lt
  have hmin : Int64.minValue.toInt = -2 ^ 63 := by decide
  have hmax : Int64.maxValue.toInt = 2 ^ 63 - 1 := by decide
  by_cases hn : n.toInt < 0
  · have hdrop : ('-' :: Nat.toDigits 10 n.toInt.natAbs).dropWhile isspace =
        '-' :: Nat.toDigits 10 n.toInt.natAbs := rfl
    simp only [strtol, decimal, hn, if_true, String.toList_ofList, hdrop, digits_numeral, hmin, hmax]
    omega
  · obtain ⟨c, cs, d, hcs, hd, rfl⟩ := toDigits_cons (by decide : 1 < 10) n.toInt.natAbs
    have hdigits : digits 0 (Nat.digitChar d :: cs) = n.toInt.natAbs := by
      rw [← hcs]
      exact digits_numeral _
    -- a digit is neither a blank nor a sign
    have hread : strtol (String.ofList (Nat.digitChar d :: cs)) = max Int64.minValue.toInt
        (min (digits 0 (Nat.digitChar d :: cs) : Int) Int64.maxValue.toInt) := by
      rw [strtol, String.toList_ofList]
      interval_cases d <;> rfl
    rw [decimal, if_neg hn, hcs, hread, hdigits, hmin, hmax]
    omega

theorem atoi_decimal (n : Int32) : atoi (String.ofList (decimal n.toInt)) = n := by
  rw [atoi, strtol_decimal, Int32.ofInt_toInt]

/-! ## The list -/

theorem comma_not_mem_decimal (n : Int) : ',' ∉ decimal n := by
  have hdigits : ',' ∉ Nat.toDigits 10 n.natAbs := by
    intro h
    have hc := Nat.isDigit_of_mem_toDigits (by decide : 0 < 10) (by decide) h
    cases hc
  rw [decimal]
  split
  · simpa using hdigits
  · exact hdigits

theorem decimal_ne_nil (n : Int) : decimal n ≠ [] := by
  rw [decimal]
  split <;> simp

theorem getlines_piece {xs : List Char} (h : ',' ∉ xs) (line rest : List Char) :
    getlines line (xs ++ ',' :: rest) = String.ofList (line ++ xs) :: getlines [] rest := by
  induction xs generalizing line with
  | nil => simp [getlines]
  | cons c xs ih =>
    have hc : c ≠ ',' := fun heq => h (by simp [heq])
    have hxs : ',' ∉ xs := fun hmem => h (by simp [hmem])
    rw [List.cons_append, getlines, if_neg hc, ih hxs]
    simp

theorem getlines_last {xs : List Char} (h : ',' ∉ xs) (line : List Char) (hne : line ++ xs ≠ []) :
    getlines line xs = [String.ofList (line ++ xs)] := by
  induction xs generalizing line with
  | nil => simpa [getlines] using hne
  | cons c xs ih =>
    have hc : c ≠ ',' := fun heq => h (by simp [heq])
    have hxs : ',' ∉ xs := fun hmem => h (by simp [hmem])
    rw [getlines, if_neg hc, ih hxs (line ++ [c]) (by simp)]
    simp

theorem getlines_portList (ns : List Int32) :
    getlines [] (portList ns).toList = ns.map (fun n => String.ofList (decimal n.toInt)) := by
  rw [portList, String.toList_ofList]
  induction ns with
  | nil => rfl
  | cons n ns ih =>
    cases ns with
    | nil =>
      simpa using getlines_last (comma_not_mem_decimal n.toInt) [] (by simpa using decimal_ne_nil _)
    | cons m ns =>
      have hcons : [','].intercalate ((n :: m :: ns).map (fun n => decimal n.toInt)) =
          decimal n.toInt ++ ',' :: [','].intercalate ((m :: ns).map (fun n => decimal n.toInt)) := by
        simp [List.intercalate]
      rw [hcons, getlines_piece (comma_not_mem_decimal n.toInt), ih]
      simp

theorem portList_eq_empty {ns : List Int32} : portList ns = "" ↔ ns = [] := by
  constructor
  · intro h
    have hlines := getlines_portList ns
    rw [h] at hlines
    exact List.map_eq_nil_iff.mp hlines.symm
  · rintro rfl
    rfl

theorem assignPortIndexing_portList (numLm portsPerLm : Int32) {ns : List Int32} (hns : ns ≠ []) :
    assignPortIndexing numLm portsPerLm (portList ns) (portList ns ≠ "") = ns := by
  have hpriority : portList ns ≠ "" := fun h => hns (portList_eq_empty.mp h)
  simp only [assignPortIndexing, hpriority, ne_eq, not_false_eq_true, decide_true, if_true,
    getlines_portList, List.map_map]
  calc ns.map (atoi ∘ fun n => String.ofList (decimal n.toInt))
      = ns.map id := List.map_congr_left (fun n _ => atoi_decimal n)
    _ = ns := List.map_id ns

/-- With a list of numbers for `-ports_lm_index`, and options that pass the checks before it is
read, `main` starts modules with these numbers of ports if there are as many as `num_lm` says, and
reports the two numbers if not. -/
theorem port_list_reads_back (argc : Nat) (opts : List Opt) (geteuid : UInt32) (o : Options)
    (ns : List Int32) (hns : ns ≠ []) (hlist : o.portsLmIndex = portList ns)
    (hargc : argc ≠ 1) (hopts : parseOptions opts = some o)
    (hbridge : o.bridge = 1 → o.bplane ≠ "" ∧ o.qhelper ≠ "")
    (hroot : o.dry = true ∨ geteuid = 0) (hpin : o.vcpuPinStart = -1 ∨ o.lmVcpu ≠ "") :
    main argc opts geteuid =
      if UInt64.ofNat ns.length = o.numLm.toInt64.toUInt64 then
        .ok ((commands o ns).map (fun cmds => cmds.map (command o)))
      else .error (.portIndex ns.length o.numLm) := by
  have hindex := assignPortIndexing_portList o.numLm o.portsPerLm hns
  rw [← hlist] at hindex
  have h1 : (o.bridge = 1 && (o.bplane = "" || o.qhelper = "")) = false := by grind
  have h2 : (!o.dry && geteuid ≠ 0) = false := by grind
  have h3 : (o.vcpuPinStart ≠ -1 && o.lmVcpu = "") = false := by grind
  simp only [main, hargc, if_false, hopts, h1, h2, h3, hindex]
  by_cases hlen : UInt64.ofNat ns.length = o.numLm.toInt64.toUInt64
  · simp [hlen]
  · simp [hlen]

/-- `startvm -dry -num_lm 2 -ports_lm_index 4,1` -/
def twoModules : List Opt := [.dry, .numLm "2", .portsLmIndex "4,1"]

theorem port_list_reads_back_two : ∃ o, parseOptions twoModules = some o ∧
    main 6 twoModules 1000 = .ok ((commands o [4, 1]).map (fun cmds => cmds.map (command o))) := by
  obtain ⟨o, ho, hlist, hbridge, hdry, hpin, hnum⟩ : ∃ o, parseOptions twoModules = some o ∧
      o.portsLmIndex = portList [4, 1] ∧ o.bridge = -1 ∧ o.dry = true ∧ o.vcpuPinStart = -1 ∧
        o.numLm = 2 := ⟨_, rfl, by decide, rfl, rfl, rfl, by decide⟩
  refine ⟨o, ho, ?_⟩
  rw [port_list_reads_back 6 twoModules 1000 o [4, 1] (by decide) hlist (by decide) ho
    (fun h => by rw [hbridge] at h; cases h) (.inl hdry) (.inl hpin)]
  rw [hnum]
  rfl

end VirtioBench.Lm
