import VirtioBench.Vtb.CmdlineParser
import VirtioBench.Vtb.Logger
import Mathlib.Data.List.Forall2

/- `ConfigManager` and the command line (vtb/src/config_manager.cpp): the constructor
   registers four arguments, `init` parses, and prints the usage if it was asked to or
   if `parse` has thrown. `ConfigManager` is a singleton, so a call finds the arguments
   as the calls before it have left them.

   1. `help_honoured_iff` — `init` does what the help flag asks for exactly if the flag
      comes with a value that reads as true: a flag alone leaves the default;
   2. `failed_parse_keeps_flags` — what an exception leaves: the flags before it have been
      taken, and the next call goes on from there. -/
namespace VirtioBench.Vtb

/-! ## The calls -/

/-- What the command line is parsed into, what went to the console and what to the log. -/
structure ConfigManager where
  parser : CmdlineParser
  console : List String
  log : List LogStream
  deriving DecidableEq, Repr

/-- `std::left << std::setw(n)`. -/
def setw (n : Nat) (s : String) : String := s ++ String.ofList (List.replicate (n - s.length) ' ')

def usageLine (longName shortName description required : String) : String :=
  setw 20 longName ++ setw 10 shortName ++ setw 35 description ++ required ++ "\n"

def CmdlineParser.printUsage (p : CmdlineParser) : String :=
  "\nUsage: ./app [EAL options] -- [APP options]\n\n" ++
    usageLine "Long Flag" "Short" "Description" "Required" ++
    String.ofList (List.replicate 75 '-') ++ "\n" ++
    String.join (p.arguments.map (fun a =>
      usageLine a.longName a.shortName a.description (if a.required then "Yes" else "No"))) ++ "\n"

namespace ConfigManager

def new : ConfigManager where
  parser := ((((⟨[]⟩ : CmdlineParser).addArgument
    "--help" "-h" "Show this help menu" false "false").addArgument
    "--portmask" "-p" "Hex bitmask of ports" true "0x0").addArgument
    "--mode" "-m" "polling | interrupt" false "polling").addArgument
    "--burst" "-b" "Packet burst size" false "32"
  console := []
  log := []

def init (c : ConfigManager) (argv : List String) : ConfigManager × Bool :=
  match c.parser.parse argv with
  | (p, none) =>
    if p.getBool "--help" then ({ c with parser := p, console := c.console ++ [p.printUsage] }, false)
    else ({ c with parser := p }, true)
  | (p, some e) =>
    ({ parser := p
       console := c.console ++ [p.printUsage]
       log := c.log ++ [error ("Init Error: " ++ e.what)] }, false)

def getArg (c : ConfigManager) (name : String) : String := c.parser.getString name

/-- The singleton after calls of `init`. -/
def inits (argvs : List (List String)) : ConfigManager :=
  argvs.foldl (fun c argv => (c.init argv).1) new

/-- The registered arguments. -/
def registry : Registry where
  arguments := new.parser.arguments
  fresh := by decide
  distinct := by decide
  dashed := by decide

section Calls
variable {c : ConfigManager} {argv : List String}

theorem parser_init (c : ConfigManager) (argv : List String) :
    (c.init argv).1.parser = (c.parser.parse argv).1 := by
  unfold init
  split
  · next hp => split <;> simp [hp]
  · next hp => simp [hp]

/-- A call takes flags. -/
theorem parse_takes (p : CmdlineParser) (argv : List String) :
    ∃ fs, (p.parse argv).1.arguments = applyFlags p.arguments fs := by
  rcases parse_cases p argv with ⟨e, he, hp⟩ | ⟨-, hp⟩
  · obtain ⟨before, f, -, -, -, -, hargs⟩ := parseFlags_throws he
    exact ⟨before ++ [f], by rw [hp]; exact hargs⟩
  · exact ⟨readFlags (tailOf argv), by rw [hp]⟩

theorem inits_snoc (earlier : List (List String)) (argv : List String) :
    inits (earlier ++ [argv]) = ((inits earlier).init argv).1 := by
  simp [inits]

/-- The arguments stay the registered ones, with what the flags have made of them. -/
theorem inits_arguments (earlier : List (List String)) :
    ∃ fs, (inits earlier).parser.arguments = applyFlags registry.arguments fs := by
  induction earlier using List.reverseRecOn with
  | nil => exact ⟨[], rfl⟩
  | append_singleton earlier argv ih =>
    obtain ⟨fs, hfs⟩ := ih
    obtain ⟨gs, hgs⟩ := parse_takes (inits earlier).parser argv
    refine ⟨fs ++ gs, ?_⟩
    rw [inits_snoc, parser_init, hgs, hfs, applyFlags_append]

theorem inits_named (earlier : List (List String)) : Named (inits earlier).parser.arguments := by
  obtain ⟨fs, hfs⟩ := inits_arguments earlier
  rw [hfs, applyFlags_eq_map registry.distinct_names]
  exact registry.named.map_after fs

end Calls

/-! ## Help -/

def helpArgument : Argument := ⟨"--help", "-h", "Show this help menu", false, false, "false"⟩

/-- The help flag is among the tokens. -/
def AsksHelp (tail : List String) : Prop := ∃ t ∈ tail, helpArgument.named t

instance (tail : List String) : Decidable (AsksHelp tail) :=
  inferInstanceAs (Decidable (∃ t ∈ tail, _))

section Help
variable {c : ConfigManager} {argv : List String}

/-- The help argument of the singleton, as it is stored. -/
theorem helpArgument_after (earlier : List (List String)) : ∃ fs,
    helpArgument.after fs ∈ (inits earlier).parser.arguments := by
  obtain ⟨fs, hfs⟩ := inits_arguments earlier
  refine ⟨fs, ?_⟩
  rw [hfs, applyFlags_eq_map registry.distinct_names]
  exact List.mem_map_of_mem List.mem_cons_self

theorem given_after (a : Argument) (fs : List Flag) (tokens : List String) :
    (a.after fs).given tokens = a.given tokens := by
  induction tokens with
  | nil => rfl
  | cons t ts ih =>
    simp only [Argument.given, after_named, ih]

/-- The value of the flag after a call that returns. -/
theorem help_value (earlier : List (List String)) {argv : List String}
    (hok : ((inits earlier).parser.parse argv).2 = none) :
    ((inits earlier).parser.parse argv).1.getString "--help" =
      (helpArgument.given (tailOf argv)).getLast?.getD ((inits earlier).getArg "--help") := by
  obtain ⟨fs, hmem⟩ := helpArgument_after earlier
  have hname : (helpArgument.after fs).named "--help" = true := by
    rw [after_named]
    decide
  rw [getString_parse (inits_named earlier) hok hmem hname, given_after]
  unfold getArg CmdlineParser.getString
  rw [find_named (inits_named earlier).distinct hmem hname]

theorem given_eq_nil {a : Argument} {tokens : List String} (h : ¬ ∃ t ∈ tokens, a.named t) :
    a.given tokens = [] := by
  induction tokens with
  | nil => rfl
  | cons t ts ih =>
    rw [List.exists_mem_cons_iff, not_or] at h
    simp [Argument.given, h.1, ih h.2]

theorem init_of_returns (hok : (c.parser.parse argv).2 = none) :
    c.init argv =
      if (c.parser.parse argv).1.getBool "--help" then
        ({ c with
          parser := (c.parser.parse argv).1
          console := c.console ++ [(c.parser.parse argv).1.printUsage] }, false)
      else ({ c with parser := (c.parser.parse argv).1 }, true) := by
  unfold init
  cases hp : c.parser.parse argv with
  | mk p e =>
    rw [hp] at hok
    obtain rfl : e = none := hok
    rfl

/-- **When the help flag is honoured.** After any calls of `init`, for every command line that
`parse` accepts: the usage is printed and false returned if the help flag is there, and true
returned if it is not, exactly if the value that follows the flag reads as true, or, where there
is none, the value stored before does; and without the flag the stored one does not. -/
theorem help_honoured_iff (earlier : List (List String)) (argv : List String)
    (hok : ((inits earlier).parser.parse argv).2 = none) :
    ((AsksHelp (tailOf argv) → ((inits earlier).init argv).2 = false ∧
        ((inits earlier).init argv).1.console =
          (inits earlier).console ++ [((inits earlier).init argv).1.parser.printUsage]) ∧
      (¬ AsksHelp (tailOf argv) → ((inits earlier).init argv).2 = true)) ↔
    ((AsksHelp (tailOf argv) → isTrue ((helpArgument.given (tailOf argv)).getLast?.getD
        ((inits earlier).getArg "--help")) = true) ∧
      (¬ AsksHelp (tailOf argv) → isTrue ((inits earlier).getArg "--help") = false)) := by
  have hbool : ((inits earlier).parser.parse argv).1.getBool "--help" =
      isTrue ((helpArgument.given (tailOf argv)).getLast?.getD
        ((inits earlier).getArg "--help")) := by
    rw [CmdlineParser.getBool, help_value earlier hok]
  rw [init_of_returns hok, hbool]
  by_cases hask : AsksHelp (tailOf argv)
  · cases hv : isTrue ((helpArgument.given (tailOf argv)).getLast?.getD
        ((inits earlier).getArg "--help")) with
    | true => simp [hask]
    | false => simp [hask]
  · rw [given_eq_nil hask]
    cases hv : isTrue ((inits earlier).getArg "--help") with
    | true => simp [hask, hv]
    | false => simp [hask, hv]

/-- The help flag after the port mask, without a value: `init` goes on. -/
theorem help_ignored :
    ¬ ∀ (earlier : List (List String)) (argv : List String),
      ((inits earlier).parser.parse argv).2 = none → AsksHelp (tailOf argv) →
        ((inits earlier).init argv).2 = false := by
  intro hall
  have hfalse := hall [] ["app", "--", "--portmask", "0x1", "--help"] (by decide) (by decide)
  exact absurd hfalse (by decide)

/-- The help flag with a value. -/
theorem help_honoured_iff_yes :
    ((inits []).parser.parse ["app", "--", "-p", "0x1", "-h", "yes"]).2 = none ∧
      ((inits []).init ["app", "--", "-p", "0x1", "-h", "yes"]).2 = false := by
  have hok : ((inits []).parser.parse ["app", "--", "-p", "0x1", "-h", "yes"]).2 = none := by decide
  exact ⟨hok, (((help_honoured_iff [] _ hok).mpr (by decide)).1 (by decide)).1⟩

/-- The port mask without a mask: `init` goes on with the default. -/
theorem bare_portmask_accepted :
    (new.init ["app", "--", "--portmask"]).2 = true ∧ ¬ ∀ args, ValueRequired args := by
  refine ⟨by decide, fun hall => ?_⟩
  have hthrows := hall registry.arguments ["app", "--", "--portmask"]
    ⟨⟨"--portmask", "-p", "Hex bitmask of ports", true, false, "0x0"⟩, by decide, by decide,
      by decide, by decide⟩
  exact hthrows (by decide)

end Help

/-! ## Exceptions -/

/-- Where an exception comes from: `read` are the flags taken before it, `rest` those after. -/
def StoppedBy (args : List Argument) (read rest : List Flag) : ParseError → Prop
  | .unknown t => (∃ v rest', rest = ⟨t, v⟩ :: rest') ∧ ∀ a ∈ args, a.named t = false
  | .requiresValue t => ∃ before, read = before ++ [⟨t, none⟩]
  | .missing _ => rest = []

/-- Every call throws. -/
def AllThrow : List (List String) → Prop :=
  fun argvs => ∀ before argv after, argvs = before ++ argv :: after →
    ((inits before).parser.parse argv).2 ≠ none

section Exceptions
variable {p : CmdlineParser} {argv : List String}

theorem applyFlag_named (f : Flag) (args : List Argument) :
    (applyFlag f args).map Argument.named = args.map Argument.named := by
  induction args with
  | nil => rfl
  | cons a as ih =>
    unfold applyFlag
    split
    · rfl
    · rw [List.map_cons, List.map_cons, ih]

theorem applyFlags_named (args : List Argument) (fs : List Flag) :
    (applyFlags args fs).map Argument.named = args.map Argument.named := by
  induction fs using List.reverseRecOn with
  | nil => rfl
  | append_singleton fs f ih =>
    rw [applyFlags_append, ← ih]
    exact applyFlag_named f (applyFlags args fs)

/-- A name nobody has at some point nobody had before. -/
theorem unknown_before {args : List Argument} {fs : List Flag} {n : String}
    (h : (applyFlags args fs).find? (fun a => a.named n) = none) :
    ∀ a ∈ args, a.named n = false := by
  have hnone : ∀ g ∈ (applyFlags args fs).map Argument.named, g n = false := by
    intro g hg
    obtain ⟨b, hb, rfl⟩ := List.mem_map.mp hg
    simpa using List.find?_eq_none.mp h b hb
  rw [applyFlags_named] at hnone
  exact fun a ha => hnone a.named (List.mem_map_of_mem ha)

/-- What an exception leaves: the flags before it. -/
theorem parse_throws {e : ParseError} (h : (p.parse argv).2 = some e) :
    ∃ read rest, readFlags (tailOf argv) = read ++ rest ∧
      (p.parse argv).1.arguments = applyFlags p.arguments read ∧
      StoppedBy p.arguments read rest e := by
  rcases parse_cases p argv with ⟨e', he, hp⟩ | ⟨-, hp⟩
  · rw [hp] at h
    cases h
    obtain ⟨before, f, after, hsplit, hbad, -, hargs⟩ := parseFlags_throws he
    rw [hp]
    unfold flagError at hbad
    cases hfind : (applyFlags p.arguments before).find? (fun a => a.named f.name) with
    | none =>
      rw [hfind] at hbad
      cases hbad
      refine ⟨before, f :: after, hsplit, ?_, ⟨f.value, after, rfl⟩, ?_⟩
      · rw [hargs, applyFlags_append]
        exact applyFlag_unknown hfind
      · exact unknown_before hfind
    | some a =>
      rw [hfind] at hbad
      dsimp only at hbad
      split at hbad
      · next hlacks =>
        cases hbad
        refine ⟨before ++ [f], after, by rw [hsplit]; simp, hargs, before, ?_⟩
        rw [← hlacks.1]
      · cases hbad
  · refine ⟨readFlags (tailOf argv), [], by simp, by rw [hp], ?_⟩
    rw [hp] at h
    obtain ⟨a, -, rfl⟩ := Option.map_eq_some_iff.mp h
    rfl

theorem AllThrow.init {earlier : List (List String)} (h : AllThrow (earlier ++ [argv])) :
    AllThrow earlier := by
  intro before argv' after hsplit
  exact h before argv' (after ++ [argv]) (by rw [hsplit]; simp)

/-- After calls that threw, the arguments have what those calls had read. -/
theorem inits_reads {earlier : List (List String)} (h : AllThrow earlier) :
    ∃ reads, List.Forall₂ (fun argv read => read <+: readFlags (tailOf argv)) earlier reads ∧
      (inits earlier).parser.arguments =
        registry.arguments.map (fun a => a.after reads.flatten) := by
  induction earlier using List.reverseRecOn with
  | nil =>
    refine ⟨[], .nil, ?_⟩
    simp only [List.flatten_nil, after_nil, List.map_id']
    rfl
  | append_singleton earlier argv ih =>
    obtain ⟨reads, hreads, hargs⟩ := ih h.init
    obtain ⟨e, he⟩ := Option.ne_none_iff_exists'.mp (h earlier argv [] rfl)
    obtain ⟨read, rest, hsplit, hread, -⟩ := parse_throws he
    refine ⟨reads ++ [read], ?_, ?_⟩
    · exact List.rel_append hreads (.cons ⟨rest, hsplit.symm⟩ .nil)
    · rw [inits_snoc, parser_init, hread, hargs, ← applyFlags_eq_map registry.distinct_names,
        ← applyFlags_append, applyFlags_eq_map registry.distinct_names]
      simp

end Exceptions

end ConfigManager

end VirtioBench.Vtb
