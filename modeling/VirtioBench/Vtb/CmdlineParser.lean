import VirtioBench.Lib.FirstMatch
import Mathlib.Data.List.Induction
import Mathlib.Data.List.Nodup

/- The command line parser (vtb/src/cmdline_parser.cpp, vtb/inc/cmdline_parser.h).

   `parse` skips to the first `--` and reads flags, each with the token after it as
   its value unless that one starts with `-`. How the tokens fall into flags and
   values does not depend on what is registered (`readFlags`), so a call is a loop over
   flags; each is looked up among the arguments, the first of that name is marked
   found and takes the value. An exception leaves the arguments as the flags before it
   have made them, so the parser after a call is a result besides the exception.

   Correspondence (C++ ↔ Lean):
     `Argument`, `CmdlineParser`        ↔ `Argument`, `CmdlineParser`
     `add_argument`                     ↔ `addArgument`
     the loop over `m_arguments`        ↔ `scan`
     the loop over `argv`               ↔ `parseTokens`
     the loop after it                  ↔ `checkRequired`
     `parse`                            ↔ `parse`
     the exceptions                     ↔ `ParseError`, `ParseError.what`
     `get<std::string>`, `get<bool>`    ↔ `getString`, `getBool`

   1. `parse_accepts_grammar` — `parse` returns exactly on the tokens of `Grammar`, and
      `get` is then the value after the last occurrence that has one;
   2. `required_value_iff` — a required argument cannot be given without a value exactly
      if none of them has a default: the test looks at the stored value. -/
namespace VirtioBench.Vtb

structure Argument where
  longName : String
  shortName : String
  description : String
  required : Bool
  found : Bool
  value : String
  deriving DecidableEq, Repr

structure CmdlineParser where
  arguments : List Argument
  deriving DecidableEq, Repr

inductive ParseError where
  | requiresValue (token : String)
  | unknown (token : String)
  | missing (longName : String)
  deriving DecidableEq, Repr

def ParseError.what : ParseError → String
  | .requiresValue token => "Argument " ++ token ++ " requires a value."
  | .unknown token => "Unknown argument '" ++ token ++ "'"
  | .missing longName => "Required argument missing: " ++ longName

namespace CmdlineParser

def addArgument (p : CmdlineParser) (longN shortN desc : String) (req : Bool)
    (defaultV : String) : CmdlineParser :=
  ⟨p.arguments ++ [⟨longN, shortN, desc, req, false, defaultV⟩]⟩

end CmdlineParser

/-- `argv[i][0]`, the terminating NUL if the token is empty. -/
def firstChar (token : String) : Char := token.toList.headD '\x00'

def Argument.named (a : Argument) (token : String) : Bool :=
  token = a.longName || token = a.shortName

/-- `found`, and the value if there is one. -/
def Argument.take (a : Argument) (value : Option String) : Argument :=
  { a with found := true, value := value.getD a.value }

/-- The loop over the arguments: the first of the name, as it was, and the arguments after it
has taken the flag. -/
def scan (token : String) (value : Option String) :
    List Argument → Option (Argument × List Argument)
  | [] => none
  | a :: as =>
    if a.named token then some (a, a.take value :: as)
    else (scan token value as).map (fun r => (r.1, a :: r.2))

/-- The loop over the tokens. -/
def parseTokens : List Argument → List String → List Argument × Option ParseError
  | args, [] => (args, none)
  | args, [token] =>
    match scan token none args with
    | none => (args, some (.unknown token))
    | some (a, args') =>
      if a.required && a.value.isEmpty then (args', some (.requiresValue token)) else (args', none)
  | args, token :: next :: rest =>
    if firstChar next ≠ '-' then
      match scan token (some next) args with
      | none => (args, some (.unknown token))
      | some (_, args') => parseTokens args' rest
    else
      match scan token none args with
      | none => (args, some (.unknown token))
      | some (a, args') =>
        if a.required && a.value.isEmpty then (args', some (.requiresValue token))
        else parseTokens args' (next :: rest)

def checkRequired (args : List Argument) : Option ParseError :=
  (args.find? (fun a => a.required && !a.found)).map (fun a => .missing a.longName)

/-- `argv + start_index`. -/
def fromStart : List String → List String
  | [] => []
  | token :: rest => if token = "--" then rest else fromStart rest

namespace CmdlineParser

def parse (p : CmdlineParser) (argv : List String) : CmdlineParser × Option ParseError :=
  match parseTokens p.arguments (fromStart (argv.drop 1)) with
  | (args, some e) => (⟨args⟩, some e)
  | (args, none) => (⟨args⟩, checkRequired args)

def getString (p : CmdlineParser) (name : String) : String :=
  match p.arguments.find? (fun a => a.named name) with
  | some a => a.value
  | none => ""

end CmdlineParser

/-- The strings `get<bool>` takes for true. -/
def isTrue (s : String) : Bool :=
  s = "true" || s = "1" || s = "yes" || s = "-h" || s = "--help"

def CmdlineParser.getBool (p : CmdlineParser) (name : String) : Bool := isTrue (p.getString name)

/-! ## Flags -/

/-- A flag and the value that follows it. -/
structure Flag where
  name : String
  value : Option String
  deriving DecidableEq, Repr

/-- The token is read as a flag wherever it stands. -/
def dashed (token : String) : Bool := firstChar token = '-'

/-- The value at the head of the tokens after a flag. -/
def valueOf : List String → Option String
  | [] => none
  | next :: _ => if dashed next then none else some next

/-- The tokens as flags and their values. -/
def readFlags : List String → List Flag
  | [] => []
  | [token] => [⟨token, none⟩]
  | token :: next :: rest =>
    if dashed next then ⟨token, none⟩ :: readFlags (next :: rest)
    else ⟨token, some next⟩ :: readFlags rest

/-- The first argument of the name takes the flag. -/
def applyFlag (f : Flag) : List Argument → List Argument
  | [] => []
  | a :: as => if a.named f.name then a.take f.value :: as else a :: applyFlag f as

def applyFlags (args : List Argument) (fs : List Flag) : List Argument :=
  fs.foldl (fun args f => applyFlag f args) args

/-- What is wrong with the flag, if anything. -/
def flagError (args : List Argument) (f : Flag) : Option ParseError :=
  match args.find? (fun a => a.named f.name) with
  | none => some (.unknown f.name)
  | some a =>
    if f.value = none ∧ a.required = true ∧ a.value = "" then some (.requiresValue f.name)
    else none

/-- The loop over the flags. -/
def parseFlags : List Argument → List Flag → List Argument × Option ParseError
  | args, [] => (args, none)
  | args, f :: fs =>
    match flagError args f with
    | some e => (applyFlag f args, some e)
    | none => parseFlags (applyFlag f args) fs

section Flags
variable {args : List Argument} {f : Flag} {fs gs : List Flag}

theorem scan_eq (token : String) (value : Option String) (args : List Argument) :
    scan token value args =
      (args.find? (fun a => a.named token)).map (fun a => (a, applyFlag ⟨token, value⟩ args)) := by
  induction args with
  | nil => rfl
  | cons a as ih =>
    unfold scan applyFlag
    by_cases h : a.named token
    · simp [h]
    · simp [h, ih, Function.comp_def]

/-- An unknown flag changes nothing. -/
theorem applyFlag_unknown (h : args.find? (fun a => a.named f.name) = none) :
    applyFlag f args = args := by
  induction args with
  | nil => rfl
  | cons a as ih =>
    rw [List.find?_cons] at h
    unfold applyFlag
    cases hn : a.named f.name with
    | true => simp [hn] at h
    | false =>
      simp only [hn] at h
      simp [ih h]

theorem parseFlags_unknown (h : args.find? (fun a => a.named f.name) = none) :
    parseFlags args (f :: fs) = (args, some (.unknown f.name)) := by
  simp [parseFlags, flagError, h, applyFlag_unknown h]

theorem parseFlags_known {a : Argument} (h : args.find? (fun a => a.named f.name) = some a) :
    parseFlags args (f :: fs) =
      if f.value = none ∧ a.required = true ∧ a.value = "" then
        (applyFlag f args, some (.requiresValue f.name))
      else parseFlags (applyFlag f args) fs := by
  have herror : flagError args f =
      if f.value = none ∧ a.required = true ∧ a.value = "" then some (.requiresValue f.name)
      else none := by
    rw [flagError, h]
  rw [parseFlags, herror]
  by_cases hbad : f.value = none ∧ a.required = true ∧ a.value = ""
  · rw [if_pos hbad, if_pos hbad]
  · rw [if_neg hbad, if_neg hbad]

/-- The loop over the tokens is the loop over the flags they make. -/
theorem parseTokens_eq (args : List Argument) (tokens : List String) :
    parseTokens args tokens = parseFlags args (readFlags tokens) := by
  fun_induction readFlags tokens generalizing args with
  | case1 => simp [parseTokens, parseFlags]
  | case2 token =>
    rw [parseTokens, scan_eq]
    cases h : args.find? (fun a => a.named token) with
    | none => exact (parseFlags_unknown (f := ⟨token, none⟩) h).symm
    | some a =>
      rw [parseFlags_known (f := ⟨token, none⟩) h]
      simp [parseFlags, String.isEmpty_iff]
  | case3 token next rest hdash ih =>
    have hfirst : ¬ firstChar next ≠ '-' := by simpa [dashed] using hdash
    rw [parseTokens, if_neg hfirst, scan_eq]
    cases h : args.find? (fun a => a.named token) with
    | none => exact (parseFlags_unknown (f := ⟨token, none⟩) h).symm
    | some a => simp [parseFlags_known (f := ⟨token, none⟩) h, ih, String.isEmpty_iff]
  | case4 token next rest hdash ih =>
    have hfirst : firstChar next ≠ '-' := by simpa [dashed] using hdash
    rw [parseTokens, if_pos hfirst, scan_eq]
    cases h : args.find? (fun a => a.named token) with
    | none => exact (parseFlags_unknown (f := ⟨token, some next⟩) h).symm
    | some a => simp [parseFlags_known (f := ⟨token, some next⟩) h, ih]

theorem applyFlags_append (args : List Argument) (fs gs : List Flag) :
    applyFlags args (fs ++ gs) = applyFlags (applyFlags args fs) gs := by
  simp [applyFlags]

/-- A quantifier over the places of a list, at its head. -/
theorem forall_split_cons {α : Type} {x : α} {l : List α} {P : List α → α → List α → Prop} :
    (∀ before y after, x :: l = before ++ y :: after → P before y after) ↔
      P [] x l ∧ ∀ before y after, l = before ++ y :: after → P (x :: before) y after := by
  constructor
  · intro h
    exact ⟨h [] x l rfl, fun before y after hl => h (x :: before) y after (by rw [hl]; rfl)⟩
  · rintro ⟨hx, hl⟩ before y after heq
    cases before with
    | nil =>
      cases heq
      exact hx
    | cons z before =>
      cases heq
      exact hl before y after rfl

/-- No exception exactly if no flag is wrong where it is read; then all of them are taken. -/
theorem parseFlags_eq_none (args : List Argument) (fs : List Flag) :
    (parseFlags args fs).2 = none ↔
      ∀ before f after, fs = before ++ f :: after → flagError (applyFlags args before) f = none := by
  induction fs generalizing args with
  | nil => simp [parseFlags]
  | cons f fs ih =>
    rw [forall_split_cons, parseFlags]
    cases h : flagError args f with
    | some e => simp [applyFlags, h]
    | none => simp [ih, applyFlags, h]

theorem parseFlags_returns (h : (parseFlags args fs).2 = none) :
    (parseFlags args fs).1 = applyFlags args fs := by
  induction fs generalizing args with
  | nil => rfl
  | cons f fs ih =>
    rw [parseFlags] at h ⊢
    cases he : flagError args f with
    | some e => simp [he] at h
    | none =>
      simp only [he] at h ⊢
      exact ih h

/-- An exception comes from the first wrong flag. -/
theorem parseFlags_throws {e : ParseError} (h : (parseFlags args fs).2 = some e) :
    ∃ before f after, fs = before ++ f :: after ∧ flagError (applyFlags args before) f = some e ∧
      (parseFlags args before).2 = none ∧
      (parseFlags args fs).1 = applyFlags args (before ++ [f]) := by
  induction fs generalizing args with
  | nil => cases h
  | cons f fs ih =>
    rw [parseFlags] at h
    cases he : flagError args f with
    | some e' =>
      simp only [he, Option.some.injEq] at h
      subst h
      exact ⟨[], f, fs, rfl, he, rfl, by simp [parseFlags, he, applyFlags]⟩
    | none =>
      simp only [he] at h
      obtain ⟨before, g, after, rfl, hg, hok, hargs⟩ := ih h
      refine ⟨f :: before, g, after, rfl, hg, by simp [parseFlags, he, hok], ?_⟩
      rw [parseFlags, he]
      exact hargs

end Flags

/-! ## Names -/

/-- The value given last. -/
def Argument.lastValue (a : Argument) (fs : List Flag) : Option String :=
  ((fs.filter (fun f => a.named f.name)).filterMap Flag.value).getLast?

/-- The argument after the flags. -/
def Argument.after (a : Argument) (fs : List Flag) : Argument :=
  { a with
    found := a.found || fs.any (fun f => a.named f.name)
    value := (a.lastValue fs).getD a.value }

/-- No two arguments have a name in common. -/
def Distinct (args : List Argument) : Prop :=
  args.Pairwise (fun a b => ∀ n, a.named n → ¬ b.named n)

section Names
variable {args : List Argument} {a b : Argument} {f : Flag} {fs : List Flag} {n : String}

@[simp] theorem after_named (a : Argument) (fs : List Flag) : (a.after fs).named = a.named := rfl

@[simp] theorem after_nil (a : Argument) : a.after [] = a := by
  simp [Argument.after, Argument.lastValue]

theorem after_snoc (a : Argument) (fs : List Flag) (f : Flag) :
    a.after (fs ++ [f]) = if a.named f.name then (a.after fs).take f.value else a.after fs := by
  cases h : a.named f.name with
  | false => simp [Argument.after, Argument.lastValue, h]
  | true =>
    cases hv : f.value with
    | none => simp [Argument.after, Argument.take, Argument.lastValue, h, hv]
    | some v => simp [Argument.after, Argument.take, Argument.lastValue, h, hv]

theorem Distinct.map_after (h : Distinct args) (fs : List Flag) :
    Distinct (args.map (fun a => a.after fs)) := by
  unfold Distinct
  rw [List.pairwise_map]
  exact h

/-- With distinct names the first argument of a name is the only one. -/
theorem applyFlag_eq_map (h : Distinct args) (f : Flag) :
    applyFlag f args = args.map (fun a => if a.named f.name then a.take f.value else a) := by
  induction args with
  | nil => rfl
  | cons a as ih =>
    obtain ⟨hother, has⟩ := List.pairwise_cons.mp h
    unfold applyFlag
    cases hn : a.named f.name with
    | false => simp [hn, ih has]
    | true =>
      have hsame : as.map (fun b => if b.named f.name then b.take f.value else b) = as := by
        calc as.map (fun b => if b.named f.name then b.take f.value else b)
            = as.map id := List.map_congr_left (fun b hb => if_neg (hother b hb f.name hn))
          _ = as := List.map_id as
      simp [hn, hsame]

theorem applyFlags_eq_map (h : Distinct args) (fs : List Flag) :
    applyFlags args fs = args.map (fun a => a.after fs) := by
  induction fs using List.reverseRecOn with
  | nil => simp [applyFlags]
  | append_singleton fs f ih =>
    rw [applyFlags_append, ih]
    show applyFlag f _ = _
    rw [applyFlag_eq_map (h.map_after fs), List.map_map]
    apply List.map_congr_left
    intro a _
    rw [after_snoc]
    rfl

theorem find_after (args : List Argument) (fs : List Flag) (n : String) :
    (args.map (fun a => a.after fs)).find? (fun a => a.named n) =
      (args.find? (fun a => a.named n)).map (fun a => a.after fs) := by
  rw [List.find?_map]
  rfl

theorem find_named (h : Distinct args) (ha : a ∈ args) (hn : a.named n) :
    args.find? (fun b => b.named n) = some a :=
  FirstMatch.find?_of_mem (h.imp (fun hab => hab n)) ha hn

end Names

/-! ## Tokens -/

/-- The values that follow the occurrences of the names of the argument. -/
def Argument.given (a : Argument) : List String → List String
  | [] => []
  | token :: rest =>
    if a.named token then (valueOf rest).toList ++ a.given rest else a.given rest

/-- Every token that is not dashed comes right after one that is; `prev` says whether there is
one right before the first. -/
def Paired : Bool → List String → Prop
  | _, [] => True
  | prev, token :: rest => (dashed token ∨ prev) ∧ Paired (dashed token) rest

section Tokens
variable {a : Argument} {tokens : List String}

theorem paired_iff (prev : Bool) (tokens : List String) :
    Paired prev tokens ↔ ∀ before token after, tokens = before ++ token :: after →
      dashed token = false → (before.getLast?.map dashed).getD prev = true := by
  induction tokens generalizing prev with
  | nil => simp [Paired]
  | cons t ts ih =>
    rw [forall_split_cons, Paired, ih]
    apply and_congr
    · cases dashed t <;> simp
    · have hlast : ∀ before : List String, (((t :: before).getLast?).map dashed).getD prev =
          (before.getLast?.map dashed).getD (dashed t) := by
        intro before
        cases before <;> simp [List.getLast?_cons]
      simp only [hlast]

/-- The flags are dashed exactly if the other tokens follow one. -/
theorem readFlags_dashed (tokens : List String) :
    (∀ f ∈ readFlags tokens, dashed f.name) ↔ Paired false tokens := by
  fun_induction readFlags tokens with
  | case1 => simp [Paired]
  | case2 token => simp [Paired]
  | case3 token next rest hdash ih =>
    rw [List.forall_mem_cons, ih]
    simp [Paired, hdash]
  | case4 token next rest hdash ih =>
    rw [List.forall_mem_cons, ih]
    simp [Paired, hdash]

/-- A dashed token starts a new flag wherever it stands. -/
theorem readFlags_append {t : String} (before after : List String) (ht : dashed t) :
    readFlags (before ++ t :: after) = readFlags before ++ readFlags (t :: after) := by
  fun_induction readFlags before with
  | case1 => rfl
  | case2 token => simp [readFlags, ht]
  | case3 token next rest hdash ih =>
    simp only [List.cons_append, readFlags, hdash, if_true]
    rw [← ih]
    rfl
  | case4 token next rest hdash ih =>
    simp only [List.cons_append, readFlags, hdash]
    rw [ih]
    simp

/-- The values of an argument with dashed names are those of its flags. -/
theorem given_eq (ha : ∀ n, a.named n → dashed n) (tokens : List String) :
    a.given tokens =
      ((readFlags tokens).filter (fun f => a.named f.name)).filterMap Flag.value := by
  fun_induction readFlags tokens with
  | case1 => rfl
  | case2 token => cases h : a.named token <;> simp [Argument.given, valueOf, h]
  | case3 token next rest hdash ih =>
    rw [Argument.given, ih]
    cases h : a.named token <;> simp [valueOf, hdash, h]
  | case4 token next rest hdash ih =>
    -- the value is not a name
    have hnext : a.named next = false := by
      cases hn : a.named next with
      | false => rfl
      | true => exact absurd (ha next hn) hdash
    rw [Argument.given, Argument.given, hnext]
    cases h : a.named token <;> simp [valueOf, hdash, h, ih]

theorem readFlags_cons (token : String) (rest : List String) :
    ∃ fs, readFlags (token :: rest) = ⟨token, valueOf rest⟩ :: fs := by
  cases rest with
  | nil => exact ⟨[], rfl⟩
  | cons next rest =>
    cases h : dashed next <;> simp [readFlags, valueOf, h]

/-- The tokens before a flag, and the value after it. -/
theorem readFlags_split {before after : List Flag} {f : Flag}
    (h : readFlags tokens = before ++ f :: after) :
    ∃ b c, tokens = b ++ f.name :: c ∧ readFlags b = before ∧ valueOf c = f.value := by
  fun_induction readFlags tokens generalizing before with
  | case1 => simp at h
  | case2 token =>
    cases before with
    | nil =>
      cases h
      exact ⟨[], [], rfl, rfl, rfl⟩
    | cons g before => simp at h
  | case3 token next rest hdash ih =>
    cases before with
    | nil =>
      cases h
      exact ⟨[], next :: rest, rfl, rfl, by simp [valueOf, hdash]⟩
    | cons g before =>
      simp only [List.cons_append, List.cons.injEq] at h
      obtain ⟨rfl, h⟩ := h
      obtain ⟨b, c, hbc, rfl, hv⟩ := ih h
      refine ⟨token :: b, c, by rw [hbc]; rfl, ?_, hv⟩
      -- the first of the tokens before the flag is `next`, unless it is the flag itself
      cases b with
      | nil => rfl
      | cons t b =>
        simp only [List.cons_append, List.cons.injEq] at hbc
        rw [← hbc.1]
        simp [readFlags, hdash]
  | case4 token next rest hdash ih =>
    cases before with
    | nil =>
      cases h
      exact ⟨[], next :: rest, rfl, rfl, by simp [valueOf, hdash]⟩
    | cons g before =>
      simp only [List.cons_append, List.cons.injEq] at h
      obtain ⟨rfl, h⟩ := h
      obtain ⟨b, c, rfl, rfl, hv⟩ := ih h
      exact ⟨token :: next :: b, c, rfl, by simp [readFlags, hdash], hv⟩

theorem dashed_mem_readFlags {t : String} (ht : dashed t) (hmem : t ∈ tokens) :
    ∃ f ∈ readFlags tokens, f.name = t := by
  obtain ⟨b, c, rfl⟩ := List.append_of_mem hmem
  obtain ⟨fs, hfs⟩ := readFlags_cons t c
  rw [readFlags_append b c ht, hfs]
  exact ⟨⟨t, valueOf c⟩, by simp, rfl⟩

end Tokens

/-! ## The grammar -/

/-- The tokens after the first `--` that is not the name of the program. -/
def tailOf (argv : List String) : List String := ((argv.drop 1).dropWhile (fun t => t ≠ "--")).drop 1

/-- The tokens can be read: dashed ones are names, the others follow a dashed one, and a required
argument without a value has one from before. -/
structure Readable (args : List Argument) (tail : List String) : Prop where
  known : ∀ t ∈ tail, dashed t → ∃ a ∈ args, a.named t
  follows : ∀ before t after, tail = before ++ t :: after → dashed t = false →
    ∃ f, before.getLast? = some f ∧ dashed f = true
  valued : ∀ before t after, tail = before ++ t :: after → ∀ a ∈ args, a.required →
    a.named t → valueOf after = none → (a.given before).getLast?.getD a.value ≠ ""

/-- They can be read, and every required argument is among them. -/
structure Grammar (args : List Argument) (tail : List String) : Prop extends
    Readable args tail where
  required : ∀ a ∈ args, a.required → ∃ t ∈ tail, a.named t

/-- Arguments to register, whose names differ and are dashed. -/
structure Registry where
  arguments : List Argument
  fresh : ∀ a ∈ arguments, a.found = false
  distinct : (arguments.flatMap (fun a => [a.longName, a.shortName])).Nodup
  dashed : ∀ a ∈ arguments, dashed a.longName = true ∧ dashed a.shortName = true

/-- A fresh parser with the arguments. -/
def registered (args : List Argument) : CmdlineParser :=
  args.foldl (fun p a => p.addArgument a.longName a.shortName a.description a.required a.value) ⟨[]⟩

section Grammar
variable {args : List Argument} {a : Argument} {tail : List String}

theorem fromStart_eq (argv : List String) : fromStart (argv.drop 1) = tailOf argv := by
  unfold tailOf
  induction argv.drop 1 with
  | nil => rfl
  | cons t ts ih =>
    unfold fromStart
    by_cases h : t = "--"
    · simp [h]
    · simp [h, ih]

theorem registered_arguments (args : List Argument) :
    (registered args).arguments = args.map (fun a => { a with found := false }) := by
  unfold registered
  induction args using List.reverseRecOn with
  | nil => rfl
  | append_singleton as a ih =>
    rw [List.foldl_append, List.map_append, ← ih]
    rfl

theorem registered_eq (h : ∀ a ∈ args, a.found = false) : registered args = ⟨args⟩ := by
  have hsame : args.map (fun a => { a with found := false }) = args := by
    calc args.map (fun a => { a with found := false })
        = args.map id := List.map_congr_left (fun a ha => by rw [← h a ha]; rfl)
      _ = args := List.map_id args
  calc registered args = ⟨(registered args).arguments⟩ := rfl
    _ = ⟨args⟩ := by rw [registered_arguments, hsame]

theorem Registry.distinct_names (R : Registry) : Distinct R.arguments := by
  refine (List.nodup_flatMap.mp R.distinct).2.imp ?_
  intro a b hab n ha hb
  simp only [Argument.named, Bool.or_eq_true, decide_eq_true_eq] at ha hb
  have hmem : ∀ c : Argument, n = c.longName ∨ n = c.shortName →
      n ∈ [c.longName, c.shortName] := by
    intro c hc
    simpa using hc
  exact hab (hmem a ha) (hmem b hb)

theorem Registry.dashed_names (R : Registry) (ha : a ∈ R.arguments) {n : String} (hn : a.named n) :
    Vtb.dashed n = true := by
  simp only [Argument.named, Bool.or_eq_true, decide_eq_true_eq] at hn
  rcases hn with rfl | rfl
  · exact (R.dashed a ha).1
  · exact (R.dashed a ha).2

/-- Names that differ and are dashed, whatever has been found. -/
structure Named (args : List Argument) : Prop where
  distinct : Distinct args
  dashed : ∀ a ∈ args, ∀ n, a.named n → dashed n

theorem Named.map_after (h : Named args) (fs : List Flag) :
    Named (args.map (fun a => a.after fs)) := by
  refine ⟨h.distinct.map_after fs, ?_⟩
  intro b hb n hn
  obtain ⟨a, ha, rfl⟩ := List.mem_map.mp hb
  exact h.dashed a ha n hn

theorem Registry.named (R : Registry) : Named R.arguments :=
  ⟨R.distinct_names, fun _ ha _ hn => R.dashed_names ha hn⟩

/-- A flag is fine if some argument has the name, and a required one without a value has one from
before. -/
theorem flagError_eq_none (h : Distinct args) (before : List Flag) (f : Flag) :
    flagError (applyFlags args before) f = none ↔
      (∃ a ∈ args, a.named f.name) ∧ ∀ a ∈ args, a.named f.name → a.required → f.value = none →
        (a.lastValue before).getD a.value ≠ "" := by
  rw [applyFlags_eq_map h, flagError, find_after]
  cases hfind : args.find? (fun a => a.named f.name) with
  | none =>
    have hnone := List.find?_eq_none.mp hfind
    refine iff_of_false (by simp) ?_
    rintro ⟨⟨a, ha, hn⟩, -⟩
    exact hnone a ha hn
  | some b =>
    have hb := List.mem_of_find?_eq_some hfind
    have hbn := List.find?_some hfind
    have honly : ∀ a ∈ args, a.named f.name → a = b := by
      intro a ha hn
      rw [find_named h ha hn] at hfind
      exact Option.some.inj hfind
    simp only [Option.map_some]
    constructor
    · intro hnone
      refine ⟨⟨b, hb, hbn⟩, ?_⟩
      intro a ha hn hreq hv hempty
      obtain rfl := honly a ha hn
      rw [if_pos ⟨hv, hreq, hempty⟩] at hnone
      cases hnone
    · rintro ⟨-, hall⟩
      exact if_neg (fun hbad => hall b hb hbn hbad.2.1 hbad.1 hbad.2.2)

/-- The flags are names exactly if the dashed tokens are and the others follow one. -/
theorem known_iff (h : Named args) : (∀ f ∈ readFlags tail, ∃ a ∈ args, a.named f.name) ↔
    (∀ t ∈ tail, dashed t → ∃ a ∈ args, a.named t) ∧ Paired false tail := by
  rw [← readFlags_dashed]
  constructor
  · intro hall
    constructor
    · intro t ht hdash
      obtain ⟨f, hf, rfl⟩ := dashed_mem_readFlags hdash ht
      exact hall f hf
    · intro f hf
      obtain ⟨a, ha, hn⟩ := hall f hf
      exact h.dashed a ha _ hn
  · rintro ⟨hknown, hdash⟩ f hf
    obtain ⟨before, after, hsplit⟩ := List.append_of_mem hf
    obtain ⟨b, c, rfl, -, -⟩ := readFlags_split hsplit
    exact hknown f.name (by simp) (hdash f hf)

theorem follows_iff : Paired false tail ↔ ∀ before t after, tail = before ++ t :: after →
    dashed t = false → ∃ f, before.getLast? = some f ∧ dashed f = true := by
  rw [paired_iff]
  have hlast : ∀ before : List String, (before.getLast?.map dashed).getD false = true ↔
      ∃ f, before.getLast? = some f ∧ dashed f = true := by
    intro before
    cases before.getLast? <;> simp
  simp only [hlast]

/-- The tokens are read without an exception exactly if they can be read. -/
theorem parseFlags_readable (h : Named args) :
    (parseFlags args (readFlags tail)).2 = none ↔ Readable args tail := by
  rw [parseFlags_eq_none]
  simp only [flagError_eq_none h.distinct]
  constructor
  · intro hall
    have hnames : ∀ f ∈ readFlags tail, ∃ a ∈ args, a.named f.name := by
      intro f hf
      obtain ⟨before, after, hsplit⟩ := List.append_of_mem hf
      exact (hall before f after hsplit).1
    obtain ⟨hknown, hpaired⟩ := (known_iff h).mp hnames
    refine ⟨hknown, follows_iff.mp hpaired, ?_⟩
    rintro before t after rfl a ha hreq hn hv
    obtain ⟨fs, hfs⟩ := readFlags_cons t after
    have hsplit := readFlags_append before after (h.dashed a ha t hn)
    rw [hfs] at hsplit
    rw [given_eq (h.dashed a ha)]
    exact (hall _ _ _ hsplit).2 a ha hn hreq hv
  · intro hread before f after hsplit
    refine ⟨(known_iff h).mpr ⟨hread.known, follows_iff.mpr hread.follows⟩ f ?_, ?_⟩
    · rw [hsplit]
      simp
    · intro a ha hn hreq hv
      obtain ⟨b, c, hbc, rfl, hvc⟩ := readFlags_split hsplit
      have hvalued := hread.valued b f.name c hbc a ha hreq hn (hvc.trans hv)
      rw [given_eq (h.dashed a ha)] at hvalued
      exact hvalued

theorem checkRequired_eq_none : checkRequired args = none ↔ ∀ a ∈ args, a.required → a.found := by
  simp [checkRequired]

/-- A call returns if the loop over the flags does and the required arguments have been found;
it has then taken all of the flags. -/
theorem parse_cases (p : CmdlineParser) (argv : List String) :
    (∃ e, (parseFlags p.arguments (readFlags (tailOf argv))).2 = some e ∧
      p.parse argv = (⟨(parseFlags p.arguments (readFlags (tailOf argv))).1⟩, some e)) ∨
    ((parseFlags p.arguments (readFlags (tailOf argv))).2 = none ∧
      p.parse argv = (⟨applyFlags p.arguments (readFlags (tailOf argv))⟩,
        checkRequired (applyFlags p.arguments (readFlags (tailOf argv))))) := by
  unfold CmdlineParser.parse
  rw [fromStart_eq, parseTokens_eq]
  cases hfs : parseFlags p.arguments (readFlags (tailOf argv)) with
  | mk as e =>
    cases e with
    | some e => exact .inl ⟨e, rfl, rfl⟩
    | none =>
      have hreturns : (parseFlags p.arguments (readFlags (tailOf argv))).1 =
          applyFlags p.arguments (readFlags (tailOf argv)) := parseFlags_returns (by rw [hfs])
      rw [hfs] at hreturns
      exact .inr ⟨rfl, by rw [← hreturns]⟩

theorem parse_returns_iff {p : CmdlineParser} {argv : List String} :
    (p.parse argv).2 = none ↔ (parseFlags p.arguments (readFlags (tailOf argv))).2 = none ∧
      checkRequired (applyFlags p.arguments (readFlags (tailOf argv))) = none := by
  rcases parse_cases p argv with ⟨e, he, hp⟩ | ⟨hnone, hp⟩
  · simp [hp, he]
  · simp [hp, hnone]

theorem parse_returns {p : CmdlineParser} {argv : List String} (h : (p.parse argv).2 = none) :
    (p.parse argv).1.arguments = applyFlags p.arguments (readFlags (tailOf argv)) := by
  rcases parse_cases p argv with ⟨e, -, hp⟩ | ⟨-, hp⟩
  · simp [hp] at h
  · rw [hp]

/-- An argument has been found if it was before or one of its names is among the tokens. -/
theorem after_found (ha : ∀ n, a.named n → dashed n) :
    (a.after (readFlags tail)).found = true ↔ a.found = true ∨ ∃ t ∈ tail, a.named t := by
  simp only [Argument.after, Bool.or_eq_true, List.any_eq_true]
  apply or_congr Iff.rfl
  constructor
  · rintro ⟨f, hf, hn⟩
    obtain ⟨before, after, hsplit⟩ := List.append_of_mem hf
    obtain ⟨b, c, rfl, -, -⟩ := readFlags_split hsplit
    exact ⟨f.name, by simp, hn⟩
  · rintro ⟨t, ht, hn⟩
    obtain ⟨f, hf, rfl⟩ := dashed_mem_readFlags (ha t hn) ht
    exact ⟨f, hf, hn⟩

theorem parse_eq_none {p : CmdlineParser} (h : Named p.arguments) (argv : List String) :
    (p.parse argv).2 = none ↔ Readable p.arguments (tailOf argv) ∧
      ∀ a ∈ p.arguments, a.required → a.found = true ∨ ∃ t ∈ tailOf argv, a.named t := by
  have hfound : checkRequired (applyFlags p.arguments (readFlags (tailOf argv))) = none ↔
      ∀ a ∈ p.arguments, a.required → a.found = true ∨ ∃ t ∈ tailOf argv, a.named t := by
    rw [checkRequired_eq_none, applyFlags_eq_map h.distinct, List.forall_mem_map]
    exact forall₂_congr (fun a ha => imp_congr Iff.rfl (after_found (h.dashed a ha)))
  rw [parse_returns_iff, parseFlags_readable h, hfound]

/-- Reading a value back. -/
theorem getString_parse {p : CmdlineParser} (h : Named p.arguments) {argv : List String}
    (hok : (p.parse argv).2 = none) (ha : a ∈ p.arguments) {n : String} (hn : a.named n) :
    (p.parse argv).1.getString n = (a.given (tailOf argv)).getLast?.getD a.value := by
  unfold CmdlineParser.getString
  rw [parse_returns hok, applyFlags_eq_map h.distinct, find_after, find_named h.distinct ha hn,
    given_eq (h.dashed a ha)]
  rfl

/-- **`parse` accepts its grammar.** On a fresh parser whose arguments have distinct dashed names
it returns exactly if the tokens after the first `--` are in the grammar. `get` is then the value
that follows the last occurrence with one, of either name, or the default. The tokens before the
`--` make no difference. -/
theorem parse_accepts_grammar (R : Registry) (argv : List String) :
    (((registered R.arguments).parse argv).2 = none ↔ Grammar R.arguments (tailOf argv)) ∧
    (((registered R.arguments).parse argv).2 = none → ∀ a ∈ R.arguments, ∀ n, a.named n →
      ((registered R.arguments).parse argv).1.getString n =
        (a.given (tailOf argv)).getLast?.getD a.value) ∧
    ∀ argv', tailOf argv' = tailOf argv →
      (registered R.arguments).parse argv' = (registered R.arguments).parse argv := by
  rw [registered_eq R.fresh]
  refine ⟨?_, ?_, ?_⟩
  · rw [parse_eq_none R.named]
    constructor
    · rintro ⟨hread, hreq⟩
      refine ⟨hread, fun a ha hr => (hreq a ha hr).resolve_left ?_⟩
      rw [R.fresh a ha]
      exact Bool.false_ne_true
    · intro hg
      exact ⟨hg.toReadable, fun a ha hr => .inr (hg.required a ha hr)⟩
  · intro hok a ha n hn
    exact getString_parse R.named hok ha hn
  · intro argv' htail
    unfold CmdlineParser.parse
    rw [fromStart_eq, fromStart_eq, htail]

end Grammar

/-! ## Required values -/

/-- A name of the argument is there, and no occurrence is followed by a value. -/
def Argument.Bare (a : Argument) (tail : List String) : Prop :=
  (∃ t ∈ tail, a.named t) ∧ a.given tail = []

/-- `parse` throws on every command line that has a required argument without a value. -/
def ValueRequired (args : List Argument) : Prop :=
  ∀ argv, (∃ a ∈ args, a.required ∧ a.Bare (tailOf argv)) → ((registered args).parse argv).2 ≠ none

section Required
variable {args : List Argument} {a : Argument} {f : Flag} {fs : List Flag} {tail : List String}

theorem given_append {t v : String} (before : List String) {after : List String} (hn : a.named t)
    (hv : valueOf after = some v) : v ∈ a.given (before ++ t :: after) := by
  induction before with
  | nil => simp [Argument.given, hn, hv]
  | cons u us ih =>
    simp only [List.cons_append, Argument.given]
    split
    · exact List.mem_append_right _ ih
    · exact ih

/-- The flags of a bare argument have no value. -/
theorem flags_of_given_nil (h : a.given tail = []) (hf : f ∈ readFlags tail) (hn : a.named f.name) :
    f.value = none := by
  obtain ⟨before, after, hsplit⟩ := List.append_of_mem hf
  obtain ⟨b, c, rfl, -, hv⟩ := readFlags_split hsplit
  cases hval : f.value with
  | none => rfl
  | some v =>
    have hmem := given_append b hn (hv.trans hval)
    rw [h] at hmem
    cases hmem

/-- A flag changes the argument it is taken by and no other. -/
theorem applyFlag_getElem? {k : Nat} (h : args[k]? = some a) :
    (applyFlag f args)[k]? = some a ∨ args.find? (fun b => b.named f.name) = some a := by
  induction args generalizing k with
  | nil => cases h
  | cons b bs ih =>
    unfold applyFlag
    rw [List.find?_cons]
    cases hn : b.named f.name with
    | true =>
      cases k with
      | zero =>
        cases h
        exact .inr rfl
      | succ k => exact .inl h
    | false =>
      cases k with
      | zero => exact .inl h
      | succ k => exact ih h

/-- A required argument without a value and without a default is not found. -/
theorem bare_not_found {k : Nat} (h : args[k]? = some a) (hreq : a.required = true)
    (hvalue : a.value = "") (hbare : ∀ f ∈ fs, a.named f.name → f.value = none)
    (hok : (parseFlags args fs).2 = none) : (applyFlags args fs)[k]? = some a := by
  induction fs generalizing args with
  | nil => exact h
  | cons f fs ih =>
    rw [parseFlags] at hok
    cases he : flagError args f with
    | some e => simp [he] at hok
    | none =>
      simp only [he] at hok
      refine ih ?_ (fun g hg => hbare g (List.mem_cons_of_mem f hg)) hok
      rcases applyFlag_getElem? (f := f) h with hsame | hfind
      · exact hsame
      · -- the flag would have been refused
        have hn := List.find?_some hfind
        have hnone := hbare f List.mem_cons_self hn
        simp [flagError, hfind, hnone, hreq, hvalue] at he

theorem valueRequired_of_empty (h : ∀ a ∈ args, a.required → a.value = "") :
    ValueRequired args := by
  rintro argv ⟨a, ha, hreq, -, hgiven⟩ hok
  obtain ⟨hflags, hcheck⟩ := parse_returns_iff.mp hok
  obtain ⟨k, hk⟩ := List.mem_iff_getElem?.mp ha
  have hfresh : (registered args).arguments[k]? = some { a with found := false } := by
    rw [registered_arguments, List.getElem?_map, hk]
    rfl
  have hkept := bare_not_found hfresh hreq (h a ha hreq)
    (fun f hf hn => flags_of_given_nil hgiven hf hn) hflags
  have hfound := checkRequired_eq_none.mp hcheck _ (List.mem_of_getElem? hkept) hreq
  cases hfound

/-- The other arguments with a value, and this one without. -/
def bareFlags (args : List Argument) (a : Argument) : List Flag :=
  (args.filter (fun b => b ≠ a)).map (fun b => ⟨b.longName, some "v"⟩) ++ [⟨a.longName, none⟩]

theorem readFlags_valued (names : List String) (last : String) :
    readFlags (names.flatMap (fun n => [n, "v"]) ++ [last]) =
      names.map (fun n => ⟨n, some "v"⟩) ++ [⟨last, none⟩] := by
  have hv : dashed "v" = false := by decide
  induction names with
  | nil => rfl
  | cons n ns ih =>
    simp only [List.flatMap_cons, List.cons_append, List.nil_append, readFlags, hv, List.map_cons]
    rw [ih]
    simp

/-- There is a command line for every list of flags like that. -/
theorem exists_bareFlags (args : List Argument) (a : Argument) :
    ∃ argv, readFlags (tailOf argv) = bareFlags args a := by
  refine ⟨"app" :: "--" :: (((args.filter (fun b => b ≠ a)).map Argument.longName).flatMap
    (fun n => [n, "v"]) ++ [a.longName]), ?_⟩
  have htail : ∀ ts, tailOf ("app" :: "--" :: ts) = ts := fun ts => by simp [tailOf]
  rw [htail, readFlags_valued, bareFlags, List.map_map]
  rfl

theorem not_named_other (R : Registry) {b : Argument} (ha : a ∈ R.arguments) (hb : b ∈ R.arguments)
    (hne : b ≠ a) : a.named b.longName = false := by
  cases hn : a.named b.longName with
  | false => rfl
  | true =>
    have hfind := find_named R.distinct_names ha hn
    rw [find_named R.distinct_names hb (by simp [Argument.named])] at hfind
    exact absurd (Option.some.inj hfind) hne

theorem bareFlags_value (R : Registry) (ha : a ∈ R.arguments) (hf : f ∈ bareFlags R.arguments a)
    (hn : a.named f.name) : f.value = none := by
  rcases List.mem_append.mp hf with hf | hf
  · obtain ⟨b, hb, rfl⟩ := List.mem_map.mp hf
    obtain ⟨hmem, hne⟩ := List.mem_filter.mp hb
    rw [not_named_other R ha hmem (by simpa using hne)] at hn
    cases hn
  · rw [List.mem_singleton.mp hf]

theorem values_eq_nil (h : ∀ f ∈ fs, a.named f.name → f.value = none) :
    (fs.filter (fun f => a.named f.name)).filterMap Flag.value = [] := by
  rw [List.filterMap_eq_nil_iff]
  intro f hf
  obtain ⟨hmem, hn⟩ := List.mem_filter.mp hf
  exact h f hmem hn

/-- Every argument has its flag. -/
theorem bareFlags_mem {b : Argument} (hb : b ∈ args) :
    ∃ f ∈ bareFlags args a, b.named f.name = true := by
  have hlong : b.named b.longName = true := by simp [Argument.named]
  by_cases hba : b = a
  · exact ⟨⟨a.longName, none⟩, by simp [bareFlags], by rw [← hba]; exact hlong⟩
  · refine ⟨⟨b.longName, some "v"⟩, ?_, hlong⟩
    exact List.mem_append_left _ (List.mem_map.mpr ⟨b, by simpa [hb] using hba, rfl⟩)

theorem bareFlags_known (ha : a ∈ args) (hf : f ∈ bareFlags args a) :
    ∃ b ∈ args, b.named f.name = true ∧ (f.value = none → b = a) := by
  rcases List.mem_append.mp hf with hf | hf
  · obtain ⟨b, hb, rfl⟩ := List.mem_map.mp hf
    exact ⟨b, (List.mem_filter.mp hb).1, by simp [Argument.named], nofun⟩
  · rw [List.mem_singleton.mp hf]
    exact ⟨a, ha, by simp [Argument.named], fun _ => rfl⟩

/-- They are read without an exception if the one without a value has a default. -/
theorem bareFlags_returns (R : Registry) (ha : a ∈ R.arguments) (hvalue : a.value ≠ "") :
    (parseFlags R.arguments (bareFlags R.arguments a)).2 = none := by
  rw [parseFlags_eq_none]
  intro before f after hsplit
  have hf : f ∈ bareFlags R.arguments a := by rw [hsplit]; simp
  obtain ⟨b, hb, hbn, hnone⟩ := bareFlags_known ha hf
  rw [flagError_eq_none R.distinct_names]
  refine ⟨⟨b, hb, hbn⟩, ?_⟩
  intro c hc hcn _ hv
  have hcb : c = b := by
    have hfind := find_named R.distinct_names hc hcn
    rw [find_named R.distinct_names hb hbn] at hfind
    exact (Option.some.inj hfind).symm
  obtain rfl : c = a := hcb.trans (hnone hv)
  have hbefore : ∀ g ∈ before, c.named g.name → g.value = none := by
    intro g hg hn
    exact bareFlags_value R ha (by rw [hsplit]; simp [hg]) hn
  rw [Argument.lastValue, values_eq_nil hbefore]
  exact hvalue

/-- **When a required argument cannot be left without a value.** Where no required argument has a
default `parse` throws whenever one is given without a value, whatever is registered; and if
the names are distinct and dashed, only there. -/
theorem required_value_iff (args : List Argument) :
    ((∀ a ∈ args, a.required → a.value = "") → ValueRequired args) ∧
    ∀ R : Registry, R.arguments = args →
      (ValueRequired args ↔ ∀ a ∈ args, a.required → a.value = "") := by
  refine ⟨valueRequired_of_empty, ?_⟩
  rintro R rfl
  refine ⟨?_, valueRequired_of_empty⟩
  intro hall a ha hreq
  by_contra hvalue
  obtain ⟨argv, hargv⟩ := exists_bareFlags R.arguments a
  refine hall argv ⟨a, ha, hreq, ⟨?_, ?_⟩⟩ ?_
  · obtain ⟨f, hf, hn⟩ := bareFlags_mem (a := a) ha
    rw [← hargv] at hf
    obtain ⟨before, after, hsplit⟩ := List.append_of_mem hf
    obtain ⟨b, c, hbc, -, -⟩ := readFlags_split hsplit
    exact ⟨f.name, by rw [hbc]; simp, hn⟩
  · rw [given_eq (R.named.dashed a ha), hargv]
    exact values_eq_nil (fun f hf hn => bareFlags_value R ha hf hn)
  · rw [registered_eq R.fresh, parse_returns_iff, hargv]
    refine ⟨bareFlags_returns R ha hvalue, ?_⟩
    rw [checkRequired_eq_none, applyFlags_eq_map R.distinct_names, List.forall_mem_map]
    intro b hb _
    obtain ⟨f, hf, hn⟩ := bareFlags_mem (a := a) hb
    simp only [Argument.after, Bool.or_eq_true, List.any_eq_true]
    exact .inr ⟨f, hf, hn⟩

end Required

end VirtioBench.Vtb
