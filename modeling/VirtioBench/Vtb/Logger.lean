import VirtioBench.Lib.Run
import Mathlib.Data.List.Perm.Basic

/- The logger (vtb/src/logger.cpp, vtb/src/messenger.cpp): any number of threads
   append to `m_buffer` under `m_mutex`, a flush thread swaps the buffer out every
   100 ms and writes it to the console and the file, and the destructor stops and
   joins the flush thread.

   A step of the machine is one access to the shared state by one party: a test of
   `m_level`, a section under `m_mutex`, one statement of `init`, of `flushLoop` or of
   the destructor. The parties move in any order. `calls` holds the log calls under
   way, one for each thread that is inside one; `file` is `none` until the file is
   open and then what has been written to it since. Two ghost fields record the
   messages: `passed` as their level passes the test of `log`, `locked` as they get
   the lock.

   Correspondence (C++ ↔ Lean):
     `LogStream::~LogStream`        ↔ `CallPc.stream`, `Action.logStream`, `Action.test`
     `Logger::log`                  ↔ `Action.log`, `Action.test`, `Action.append`
     `Logger::init`                 ↔ `InitPc`, `Action.init` to `Action.spawn`
     `Logger::flushLoop`            ↔ `FlushPc`, `flushStep`
     `Logger::~Logger`              ↔ `DtorPc`, `Action.destroy`, `Action.join`

   `logger_keeps_text` says that nothing is lost, repeated or reordered: written, taken
   and buffered text are together the lines of the messages in the order of the lock,
   up to the final drain; and when the destructor has joined the flush thread, with no
   log call at its side or after it, the file is all of them. -/
namespace VirtioBench.Vtb

inductive LogLevel where
  | default
  | full
  deriving DecidableEq, Repr

def LogLevel.toNat : LogLevel → Nat
  | .default => 0
  | .full => 1

/-- `LogStream`: what `operator<<` has collected, and the tag in front of it. -/
structure LogStream where
  level : LogLevel
  tag : String
  oss : String
  deriving DecidableEq, Repr

def info (oss : String) : LogStream := ⟨.default, "[INFO] ", oss⟩
def error (oss : String) : LogStream := ⟨.default, "[ERROR] ", oss⟩
def details (oss : String) : LogStream := ⟨.full, "[DETAILS] ", oss⟩

/-- Where a log call is: before the test of `~LogStream`, before the test of `log`, or
about to take the lock. -/
inductive CallPc where
  | stream
  | log
  | lock
  deriving DecidableEq, Repr

structure LogCall where
  pc : CallPc
  level : LogLevel
  message : String
  deriving DecidableEq, Repr

/-- The next statement of `init`. -/
inductive InitPc where
  | idle
  | setLevel (filename : String) (level : LogLevel)
  | openFile (filename : String)
  | setRunning
  | spawn
  | done
  deriving DecidableEq, Repr

/-- The next statement of `flushLoop`, with `to_write` or `final_content`. -/
inductive FlushPc where
  | notStarted
  | test
  | swap
  | console (toWrite : String)
  | file (toWrite : String)
  | drain
  | finalConsole (finalContent : String)
  | finalFile (finalContent : String)
  | exited
  deriving DecidableEq, Repr

inductive DtorPc where
  | idle
  | join
  | joined
  | notJoinable
  deriving DecidableEq, Repr

structure Logger where
  level : LogLevel
  running : Bool
  initialized : Bool
  buffer : String
  console : String
  file : Option String
  init : InitPc
  flush : FlushPc
  dtor : DtorPc
  calls : List LogCall
  passed : List String
  locked : List String
  deriving DecidableEq, Repr

def Logger.new : Logger where
  level := .default
  running := false
  initialized := false
  buffer := ""
  console := ""
  file := none
  init := .idle
  flush := .notStarted
  dtor := .idle
  calls := []
  passed := []
  locked := []

/-- The number is the place of the call in `calls`; `opens` is the outcome of
`m_file.open`. -/
inductive LogAction where
  | logStream (l : LogStream)
  | log (level : LogLevel) (message : String)
  | test (k : Nat)
  | append (k : Nat)
  | init (filename : String) (level : LogLevel)
  | setLevel
  | openFile (opens : Bool)
  | setRunning
  | spawn
  | flush
  | destroy
  | join
  deriving DecidableEq, Repr

namespace Logger

/-- The test `level <= m_level` of `~LogStream` and of `log`. -/
def testLevel (s : Logger) (k : Nat) (c : LogCall) : Option Logger :=
  match c.pc with
  | .stream =>
    if c.level.toNat ≤ s.level.toNat then
      some { s with calls := s.calls.set k { c with pc := .log } }
    else some { s with calls := s.calls.eraseIdx k }
  | .log =>
    if c.level.toNat ≤ s.level.toNat then
      some { s with
        calls := s.calls.set k { c with pc := .lock }
        passed := s.passed ++ [c.message] }
    else some { s with calls := s.calls.eraseIdx k }
  | .lock => none

/-- The section of `log` under the lock. -/
def appendLine (s : Logger) (k : Nat) (c : LogCall) : Option Logger :=
  match c.pc with
  | .lock => some { s with
      buffer := s.buffer ++ c.message ++ "\n"
      calls := s.calls.eraseIdx k
      locked := s.locked ++ [c.message] }
  | .stream | .log => none

def flushStep (s : Logger) : Option Logger :=
  match s.flush with
  | .notStarted | .exited => none
  | .test => some { s with flush := if s.running then .swap else .drain }
  | .swap => some { s with
      buffer := ""
      flush := if s.buffer = "" then .test else .console s.buffer }
  | .console t => some { s with console := s.console ++ t, flush := .file t }
  | .file t => some { s with file := s.file.map (· ++ t), flush := .test }
  -- the final drain leaves the buffer as it is
  | .drain => some { s with flush := if s.buffer = "" then .exited else .finalConsole s.buffer }
  | .finalConsole t => some { s with console := s.console ++ t, flush := .finalFile t }
  | .finalFile t => some { s with file := s.file.map (· ++ t), flush := .exited }

def initStep (s : Logger) : LogAction → Option Logger
  | .init filename level =>
    -- `m_initialized.exchange(true)`: only the first call goes on
    if s.initialized then some s
    else some { s with initialized := true, init := .setLevel filename level }
  | .setLevel =>
    match s.init with
    | .setLevel filename level => some { s with level := level, init := .openFile filename }
    | _ => none
  | .openFile opens =>
    match s.init with
    | .openFile filename =>
      some { s with
        file := if filename ≠ "" ∧ opens then some "" else s.file
        init := .setRunning }
    | _ => none
  | .setRunning =>
    match s.init with
    | .setRunning => some { s with running := true, init := .spawn }
    | _ => none
  | .spawn =>
    match s.init with
    | .spawn => some { s with flush := .test, init := .done }
    | _ => none
  | _ => none

def step (s : Logger) : LogAction → Option Logger
  | .logStream l => some { s with calls := s.calls ++ [⟨.stream, l.level, l.tag ++ l.oss⟩] }
  | .log level message => some { s with calls := s.calls ++ [⟨.log, level, message⟩] }
  | .test k => (s.calls[k]?).bind (s.testLevel k)
  | .append k => (s.calls[k]?).bind (s.appendLine k)
  | .flush => s.flushStep
  | .destroy => if s.dtor = .idle then some { s with running := false, dtor := .join } else none
  | .join =>
    if s.dtor = .join then
      match s.flush with
      | .notStarted => some { s with dtor := .notJoinable }
      | .exited => some { s with dtor := .joined }
      | _ => none
    else none
  | a => s.initStep a

/-! ## The text -/

/-- Every message with its newline. -/
def lines : List String → String
  | [] => ""
  | m :: ms => m ++ "\n" ++ lines ms

/-- What has been written to the file. -/
def written (s : Logger) : String := s.file.getD ""

/-- The messages of the calls about to take the lock. -/
def waiting : List LogCall → List String
  | [] => []
  | c :: cs => if c.pc = .lock then c.message :: waiting cs else waiting cs

end Logger

/-- What the flush thread has taken from the buffer and not yet written to the file. -/
def FlushPc.taken : FlushPc → String
  | .console t | .file t | .finalConsole t | .finalFile t => t
  | .notStarted | .test | .swap | .drain | .exited => ""

/-- The flush thread has entered its final drain. -/
def FlushPc.draining : FlushPc → Bool
  | .finalConsole _ | .finalFile _ | .exited => true
  | .notStarted | .test | .swap | .console _ | .file _ | .drain => false

/-- `init` is given a file that opens. -/
def LogAction.Openable : LogAction → Prop
  | .init filename _ => filename ≠ ""
  | .openFile opens => opens = true
  | _ => True

/-- The destructor begins when no log call is under way, and none begins after it. -/
def Logger.Quiet (s : Logger) : LogAction → Prop
  | .destroy => s.calls = []
  | .logStream _ | .log _ _ => s.dtor = .idle
  | _ => True

namespace Logger

section Moves
variable {s s' : Logger} {a : LogAction}

/-- What a step can do. -/
inductive Move (s : Logger) : LogAction → Logger → Prop
  | enter (a : LogAction) (c : LogCall) (ha : s.Quiet a → s.dtor = .idle) (hc : c.pc ≠ .lock) :
      Move s a { s with calls := s.calls ++ [c] }
  | advance (k : Nat) (c d : LogCall) (hk : s.calls[k]? = some c) (hc : c.pc ≠ .lock)
      (hd : d.pc ≠ .lock) : Move s (.test k) { s with calls := s.calls.set k d }
  | pass (k : Nat) (c : LogCall) (hk : s.calls[k]? = some c) (hc : c.pc ≠ .lock) :
      Move s (.test k) { s with
        calls := s.calls.set k { c with pc := .lock }
        passed := s.passed ++ [c.message] }
  | reject (k : Nat) (c : LogCall) (hk : s.calls[k]? = some c) (hc : c.pc ≠ .lock) :
      Move s (.test k) { s with calls := s.calls.eraseIdx k }
  | append (k : Nat) (c : LogCall) (hk : s.calls[k]? = some c) (hc : c.pc = .lock) :
      Move s (.append k) { s with
        buffer := s.buffer ++ c.message ++ "\n"
        calls := s.calls.eraseIdx k
        locked := s.locked ++ [c.message] }
  | initAgain (filename : String) (level : LogLevel) : Move s (.init filename level) s
  | init (filename : String) (level : LogLevel) (hi : s.initialized = false) :
      Move s (.init filename level)
      { s with initialized := true, init := .setLevel filename level }
  | setLevel (filename : String) (level : LogLevel) (hi : s.init = .setLevel filename level) :
      Move s .setLevel { s with level := level, init := .openFile filename }
  | openFile (filename : String) (opens : Bool) (hi : s.init = .openFile filename) :
      Move s (.openFile opens) { s with
        file := if filename ≠ "" ∧ opens then some "" else s.file
        init := .setRunning }
  | setRunning (hi : s.init = .setRunning) :
      Move s .setRunning { s with running := true, init := .spawn }
  | spawn (hi : s.init = .spawn) : Move s .spawn { s with flush := .test, init := .done }
  | test (hf : s.flush = .test) :
      Move s .flush { s with flush := if s.running then .swap else .drain }
  | swap (hf : s.flush = .swap) : Move s .flush { s with
      buffer := ""
      flush := if s.buffer = "" then .test else .console s.buffer }
  | console (t : String) (hf : s.flush = .console t) :
      Move s .flush { s with console := s.console ++ t, flush := .file t }
  | file (t : String) (hf : s.flush = .file t) :
      Move s .flush { s with file := s.file.map (· ++ t), flush := .test }
  | drain (hf : s.flush = .drain) : Move s .flush
      { s with flush := if s.buffer = "" then .exited else .finalConsole s.buffer }
  | finalConsole (t : String) (hf : s.flush = .finalConsole t) :
      Move s .flush { s with console := s.console ++ t, flush := .finalFile t }
  | finalFile (t : String) (hf : s.flush = .finalFile t) :
      Move s .flush { s with file := s.file.map (· ++ t), flush := .exited }
  | destroy (hd : s.dtor = .idle) : Move s .destroy { s with running := false, dtor := .join }
  | notJoinable (hd : s.dtor = .join) (hf : s.flush = .notStarted) :
      Move s .join { s with dtor := .notJoinable }
  | join (hd : s.dtor = .join) (hf : s.flush = .exited) : Move s .join { s with dtor := .joined }

theorem testLevel_cases {k : Nat} {c : LogCall} (hk : s.calls[k]? = some c)
    (h : s.testLevel k c = some s') : Move s (.test k) s' := by
  unfold testLevel at h
  cases hc : c.pc with
  | stream =>
    simp only [hc] at h
    split at h
    · cases h
      exact .advance k c _ hk (by simp [hc]) (by simp)
    · cases h
      exact .reject k c hk (by simp [hc])
  | log =>
    simp only [hc] at h
    split at h
    · cases h
      exact .pass k c hk (by simp [hc])
    · cases h
      exact .reject k c hk (by simp [hc])
  | lock =>
    simp only [hc] at h
    cases h

theorem appendLine_cases {k : Nat} {c : LogCall} (hk : s.calls[k]? = some c)
    (h : s.appendLine k c = some s') : Move s (.append k) s' := by
  unfold appendLine at h
  cases hc : c.pc with
  | lock =>
    simp only [hc] at h
    cases h
    exact .append k c hk hc
  | stream | log =>
    simp only [hc] at h
    cases h

theorem flushStep_cases (h : s.flushStep = some s') : Move s .flush s' := by
  unfold flushStep at h
  cases hf : s.flush with
  | notStarted | exited => simp only [hf] at h; cases h
  | test => simp only [hf] at h; cases h; exact .test hf
  | swap => simp only [hf] at h; cases h; exact .swap hf
  | console t => simp only [hf] at h; cases h; exact .console t hf
  | file t => simp only [hf] at h; cases h; exact .file t hf
  | drain => simp only [hf] at h; cases h; exact .drain hf
  | finalConsole t => simp only [hf] at h; cases h; exact .finalConsole t hf
  | finalFile t => simp only [hf] at h; cases h; exact .finalFile t hf

theorem initStep_cases (h : s.initStep a = some s') : Move s a s' := by
  cases a with
  | init filename level =>
    simp only [initStep] at h
    split at h
    · cases h; exact .initAgain filename level
    · next hi => cases h; exact .init filename level (by simpa using hi)
  | setLevel =>
    simp only [initStep] at h
    split at h
    · next filename level hi => cases h; exact .setLevel filename level hi
    · cases h
  | openFile opens =>
    simp only [initStep] at h
    split at h
    · next filename hi => cases h; exact .openFile filename opens hi
    · cases h
  | setRunning =>
    simp only [initStep] at h
    split at h
    · next hi => cases h; exact .setRunning hi
    · cases h
  | spawn =>
    simp only [initStep] at h
    split at h
    · next hi => cases h; exact .spawn hi
    · cases h
  | _ => cases h

theorem step_cases (h : step s a = some s') : Move s a s' := by
  cases a with
  | logStream l => cases h; exact .enter _ _ id (by simp)
  | log level message => cases h; exact .enter _ _ id (by simp)
  | test k =>
    obtain ⟨c, hk, h⟩ := Option.bind_eq_some_iff.mp h
    exact testLevel_cases hk h
  | append k =>
    obtain ⟨c, hk, h⟩ := Option.bind_eq_some_iff.mp h
    exact appendLine_cases hk h
  | flush => exact flushStep_cases h
  | destroy =>
    simp only [step] at h
    split at h
    · next hd => cases h; exact .destroy hd
    · cases h
  | join =>
    simp only [step] at h
    split at h
    · next hd =>
      split at h
      · next hf => cases h; exact .notJoinable hd hf
      · next hf => cases h; exact .join hd hf
      · cases h
    · cases h
  | init | setLevel | openFile | setRunning | spawn => exact initStep_cases h

end Moves

/-! ## Start and stop -/

/-- Where `init` is: the flush thread has not been started before it is done, and the
file is open from its third statement on. -/
def InitOk (s : Logger) : Prop :=
  match s.init with
  | .idle => s.flush = .notStarted ∧ s.file = none
  | .setLevel filename _ | .openFile filename =>
    s.initialized = true ∧ filename ≠ "" ∧ s.flush = .notStarted ∧ s.file = none
  | .setRunning => s.initialized = true ∧ s.flush = .notStarted ∧ s.file.isSome
  | .spawn => s.initialized = true ∧ s.flush = .notStarted ∧ s.file.isSome ∧
      (s.running = true ∨ s.dtor ≠ .idle)
  | .done => s.initialized = true ∧ s.file.isSome ∧ (s.running = true ∨ s.dtor ≠ .idle)

/-- The flush thread has left its loop. -/
def Stopped (s : Logger) : Prop := s.flush = .drain ∨ s.flush.draining = true

section StartStop
variable {s s' : Logger} {a : LogAction}

theorem InitOk.started (h : s.InitOk) (hf : s.flush ≠ .notStarted) :
    s.init = .done ∧ s.file.isSome ∧ (s.running = true ∨ s.dtor ≠ .idle) := by
  unfold InitOk at h
  cases hi : s.init <;> simp only [hi] at h
  case done => exact ⟨rfl, h.2⟩
  case idle => exact (hf h.1).elim
  case setLevel => exact (hf h.2.2.1).elim
  case openFile => exact (hf h.2.2.1).elim
  case setRunning => exact (hf h.2.1).elim
  case spawn => exact (hf h.2.1).elim

/-- The flush thread moves only after `init`, and keeps the file open. -/
theorem InitOk.flushed (h : s.InitOk) (hf : s.flush ≠ .notStarted) (hi : s'.init = s.init)
    (hn : s'.initialized = s.initialized) (hfile : s.file.isSome → s'.file.isSome)
    (hrun : s'.running = s.running) (hd : s'.dtor = s.dtor) : s'.InitOk := by
  obtain ⟨hdone, hopen, halive⟩ := h.started hf
  unfold InitOk at h ⊢
  rw [hdone] at h
  rw [hi, hdone]
  exact ⟨hn.trans h.1, hfile hopen, by rw [hrun, hd]; exact halive⟩

theorem initOk_step (hm : Move s a s') (ho : a.Openable) (h : s.InitOk) : s'.InitOk := by
  cases hm with
  | enter | advance | pass | reject | append | initAgain => exact h
  | init filename level hi =>
    unfold InitOk at h ⊢
    cases hpc : s.init <;> simp only [hpc, hi] at h
    case idle => exact ⟨rfl, ho, h.1, h.2⟩
    all_goals exact absurd h.1 nofun
  | setLevel filename level hi =>
    unfold InitOk at h
    rw [hi] at h
    exact h
  | openFile filename opens hi =>
    unfold InitOk at h
    rw [hi] at h
    have hopens : filename ≠ "" ∧ opens = true := ⟨h.2.1, ho⟩
    refine ⟨h.1, h.2.2.1, ?_⟩
    simp [hopens]
  | setRunning hi =>
    unfold InitOk at h
    rw [hi] at h
    exact ⟨h.1, h.2.1, h.2.2, .inl rfl⟩
  | spawn hi =>
    unfold InitOk at h
    rw [hi] at h
    exact ⟨h.1, h.2.2.1, h.2.2.2⟩
  | test hf | swap hf | console t hf | drain hf | finalConsole t hf =>
    exact h.flushed (by rw [hf]; exact nofun) rfl rfl id rfl rfl
  | file t hf | finalFile t hf =>
    exact h.flushed (by rw [hf]; exact nofun) rfl rfl (by simp) rfl rfl
  | destroy hd =>
    unfold InitOk at h ⊢
    cases hpc : s.init <;> simp only [hpc] at h ⊢
    case spawn => exact ⟨h.1, h.2.1, h.2.2.1, .inr nofun⟩
    case done => exact ⟨h.1, h.2.1, .inr nofun⟩
    all_goals exact h
  | notJoinable hd hf | join hd hf =>
    unfold InitOk at h ⊢
    cases hpc : s.init <;> simp only [hpc] at h ⊢
    case spawn => exact ⟨h.1, h.2.1, h.2.2.1, .inr nofun⟩
    case done => exact ⟨h.1, h.2.1, .inr nofun⟩
    all_goals exact h

/-- The flush thread leaves its loop only after the destructor has begun. -/
theorem stopped_step (hm : Move s a s') (hi : s.InitOk) (h : s.Stopped → s.dtor ≠ .idle) :
    s'.Stopped → s'.dtor ≠ .idle := by
  cases hm with
  | enter | advance | pass | reject | append | initAgain | init | setLevel | openFile
  | setRunning => exact h
  | spawn | console | file => exact fun hs => absurd hs (by simp [Stopped, FlushPc.draining])
  | swap hf =>
    intro hs
    unfold Stopped at hs
    dsimp only at hs
    split at hs <;> simp [FlushPc.draining] at hs
  | test hf =>
    intro hs hidle
    rcases (hi.started (by rw [hf]; exact nofun)).2.2 with hrun | hd
    · simp [Stopped, hrun, FlushPc.draining] at hs
    · exact hd hidle
  | drain hf => exact fun _ => h (.inl hf)
  | finalConsole t hf | finalFile t hf => exact fun _ => h (.inr (by rw [hf]; rfl))
  | destroy hd | notJoinable hd hf | join hd hf => exact fun _ => nofun

end StartStop

/-! ## Conservation -/

section Conservation
variable {s s' : Logger} {a : LogAction}

theorem lines_append (ms ns : List String) : lines (ms ++ ns) = lines ms ++ lines ns := by
  induction ms with
  | nil => simp [lines]
  | cons m ms ih => simp [lines, ih, String.append_assoc]

/-- Writing and taking move the text, a call with the lock extends it. -/
theorem text_step (hm : Move s a s') (hi : s.InitOk)
    (h : s.flush.draining = false → s.written ++ s.flush.taken ++ s.buffer = lines s.locked) :
    s'.flush.draining = false → s'.written ++ s'.flush.taken ++ s'.buffer = lines s'.locked := by
  cases hm with
  | enter | advance | pass | reject | initAgain | init | setLevel | setRunning | destroy
  | notJoinable | join => exact h
  | append k c hk hc =>
    intro hd
    have htext := h hd
    calc s.written ++ s.flush.taken ++ (s.buffer ++ c.message ++ "\n")
        = (s.written ++ s.flush.taken ++ s.buffer) ++ (c.message ++ "\n") := by
          simp only [String.append_assoc]
      _ = lines s.locked ++ lines [c.message] := by rw [htext]; simp [lines]
      _ = lines (s.locked ++ [c.message]) := (lines_append _ _).symm
  | openFile filename opens hpc =>
    intro hd
    have hnone : s.file = none := by
      unfold InitOk at hi
      rw [hpc] at hi
      exact hi.2.2.2
    have htext := h hd
    simp only [written, hnone, Option.getD_none] at htext ⊢
    split <;> exact htext
  | spawn hpc =>
    intro _
    have hstart : s.flush = .notStarted := by
      unfold InitOk at hi
      rw [hpc] at hi
      exact hi.2.1
    have htext := h (by rw [hstart]; rfl)
    rw [hstart] at htext
    exact htext
  | test hf =>
    intro _
    have htext := h (by rw [hf]; rfl)
    rw [hf] at htext
    dsimp only
    split <;> exact htext
  | swap hf =>
    intro _
    have htext := h (by rw [hf]; rfl)
    simp only [hf, FlushPc.taken, String.append_empty] at htext
    dsimp only
    split
    · next hempty => simpa [hempty, FlushPc.taken, written] using htext
    · simpa [FlushPc.taken, written] using htext
  | console t hf =>
    intro _
    have htext := h (by rw [hf]; rfl)
    rw [hf] at htext
    exact htext
  | file t hf =>
    intro _
    have htext := h (by rw [hf]; rfl)
    obtain ⟨f, hfile⟩ := Option.isSome_iff_exists.mp (hi.started (by rw [hf]; exact nofun)).2.1
    simpa [hf, hfile, FlushPc.taken, written] using htext
  | drain hf =>
    intro hd
    dsimp only at hd
    split at hd <;> cases hd
  | finalConsole | finalFile => exact nofun

theorem waiting_append (cs ds : List LogCall) : waiting (cs ++ ds) = waiting cs ++ waiting ds := by
  induction cs with
  | nil => rfl
  | cons c cs ih =>
    simp only [List.cons_append, waiting, ih]
    split <;> simp

/-- One call, and what waits besides it. -/
theorem waiting_at {cs : List LogCall} {k : Nat} {c : LogCall} (h : cs[k]? = some c) :
    ∃ rest, (waiting cs).Perm (waiting [c] ++ rest) ∧
      (∀ d, (waiting (cs.set k d)).Perm (waiting [d] ++ rest)) ∧
      waiting (cs.eraseIdx k) = rest := by
  obtain ⟨hk, rfl⟩ := List.getElem?_eq_some_iff.mp h
  have haround : ∀ d, (waiting (cs.take k ++ d :: cs.drop (k + 1))).Perm
      (waiting [d] ++ waiting (cs.take k ++ cs.drop (k + 1))) := by
    intro d
    rw [← List.singleton_append, waiting_append, waiting_append, waiting_append]
    exact List.perm_append_comm_assoc _ _ _
  refine ⟨waiting (cs.take k ++ cs.drop (k + 1)), ?_, ?_, ?_⟩
  · have hsplit : cs.take k ++ cs[k] :: cs.drop (k + 1) = cs := by
      rw [List.getElem_cons_drop, List.take_append_drop]
    simpa only [hsplit] using haround cs[k]
  · intro d
    rw [List.set_eq_take_append_cons_drop, if_pos hk]
    exact haround d
  · rw [List.eraseIdx_eq_take_drop_succ]

/-- A message that has passed the level test has had the lock or waits for it. -/
theorem messages_step (hm : Move s a s') (h : s.passed.Perm (s.locked ++ waiting s.calls)) :
    s'.passed.Perm (s'.locked ++ waiting s'.calls) := by
  cases hm with
  | enter a c ha hc => simpa [waiting_append, waiting, hc] using h
  | advance k c d hk hc hd =>
    obtain ⟨rest, hold, hset, -⟩ := waiting_at hk
    have hsame : (waiting s.calls).Perm (waiting (s.calls.set k d)) := by
      have hnew := hset d
      simp only [waiting, hc, hd, if_false, List.nil_append] at hold hnew
      exact hold.trans hnew.symm
    exact h.trans (hsame.append_left s.locked)
  | pass k c hk hc =>
    obtain ⟨rest, hold, hset, -⟩ := waiting_at hk
    have hnew := hset { c with pc := .lock }
    simp only [waiting, hc, if_false, if_true, List.nil_append] at hold hnew
    calc s.passed ++ [c.message]
        |>.Perm ((s.locked ++ rest) ++ [c.message]) :=
          (h.trans (hold.append_left s.locked)).append_right _
      _ |>.Perm (s.locked ++ (c.message :: rest)) := by
          rw [List.append_assoc]
          exact (List.perm_append_singleton c.message rest).append_left s.locked
      _ |>.Perm (s.locked ++ waiting (s.calls.set k { c with pc := .lock })) :=
          hnew.symm.append_left s.locked
  | reject k c hk hc =>
    obtain ⟨rest, hold, -, herase⟩ := waiting_at hk
    simp only [waiting, hc, if_false, List.nil_append] at hold
    dsimp only
    rw [herase]
    exact h.trans (hold.append_left s.locked)
  | append k c hk hc =>
    obtain ⟨rest, hold, -, herase⟩ := waiting_at hk
    simp only [waiting, hc, if_true] at hold
    dsimp only
    rw [herase, List.append_assoc]
    exact h.trans (hold.append_left s.locked)
  | _ => exact h

/-- After a quiet start of the destructor no call is under way. -/
theorem calls_step (hm : Move s a s') (hq : s.Quiet a) (h : s.dtor ≠ .idle → s.calls = []) :
    s'.dtor ≠ .idle → s'.calls = [] := by
  cases hm with
  | enter a c ha hc => exact fun hd => (hd (ha hq)).elim
  | advance k c d hk | pass k c hk | reject k c hk | append k c hk =>
    intro hd
    rw [h hd] at hk
    cases hk
  | destroy hd => exact fun _ => hq
  | notJoinable hd | join hd => exact fun _ => h (by rw [hd]; exact nofun)
  | _ => exact h

/-- The final drain writes what is left, and nobody adds to it. -/
theorem final_step (hm : Move s a s') (hi : s.InitOk) (hs : s.Stopped → s.dtor ≠ .idle)
    (hc : s.dtor ≠ .idle → s.calls = [])
    (ht : s.flush.draining = false → s.written ++ s.flush.taken ++ s.buffer = lines s.locked)
    (h : s.flush.draining = true → s.written ++ s.flush.taken = lines s.locked) :
    s'.flush.draining = true → s'.written ++ s'.flush.taken = lines s'.locked := by
  cases hm with
  | enter | advance | pass | reject | initAgain | init | setLevel | setRunning | destroy
  | notJoinable | join => exact h
  | append k c hk =>
    intro hd
    rw [hc (hs (.inr hd))] at hk
    cases hk
  | openFile filename opens hpc =>
    intro hd
    unfold InitOk at hi
    rw [hpc] at hi
    rw [hi.2.2.1] at hd
    cases hd
  | spawn | console | file => exact nofun
  | test hf | swap hf =>
    intro hd
    dsimp only at hd
    split at hd <;> cases hd
  | drain hf =>
    intro _
    have htext := ht (by rw [hf]; rfl)
    simp only [hf, FlushPc.taken, String.append_empty] at htext
    dsimp only
    split
    · next hempty => simpa [hempty, FlushPc.taken, written] using htext
    · exact htext
  | finalConsole t hf =>
    intro _
    have htext := h (by rw [hf]; rfl)
    rw [hf] at htext
    exact htext
  | finalFile t hf =>
    intro _
    have htext := h (by rw [hf]; rfl)
    obtain ⟨f, hfile⟩ := Option.isSome_iff_exists.mp (hi.started (by rw [hf]; exact nofun)).2.1
    simpa [hf, hfile, FlushPc.taken, written] using htext

end Conservation

/-! ## Runs -/

/-- What every run with a file that opens keeps. -/
structure Kept (s : Logger) : Prop where
  init : s.InitOk
  stopped : s.Stopped → s.dtor ≠ .idle
  text : s.flush.draining = false → s.written ++ s.flush.taken ++ s.buffer = lines s.locked
  messages : s.passed.Perm (s.locked ++ waiting s.calls)

/-- What a run keeps besides if no log call is beside the destructor or after it. -/
structure KeptQuiet (s : Logger) : Prop extends Kept s where
  calls : s.dtor ≠ .idle → s.calls = []
  final : s.flush.draining = true → s.written ++ s.flush.taken = lines s.locked
  joined : s.dtor = .joined → s.flush = .exited

section Runs
variable {s s' : Logger} {a : LogAction} {as : List LogAction}

theorem kept_new : Logger.new.KeptQuiet where
  init := ⟨rfl, rfl⟩
  stopped := by simp [Stopped, Logger.new, FlushPc.draining]
  text := fun _ => rfl
  messages := .refl _
  calls := fun _ => rfl
  final := nofun
  joined := nofun

theorem kept_step (h : s.Kept) (ho : a.Openable) (hs : step s a = some s') : s'.Kept := by
  have hm := step_cases hs
  exact ⟨initOk_step hm ho h.init, stopped_step hm h.init h.stopped, text_step hm h.init h.text,
    messages_step hm h.messages⟩

theorem joined_step (hm : Move s a s') (hi : s.InitOk) (h : s.dtor = .joined → s.flush = .exited) :
    s'.dtor = .joined → s'.flush = .exited := by
  cases hm with
  | spawn hpc =>
    intro hd
    unfold InitOk at hi
    rw [hpc, h hd] at hi
    exact absurd hi.2.1 nofun
  | test hf | swap hf | console t hf | file t hf | drain hf | finalConsole t hf =>
    intro hd
    rw [h hd] at hf
    cases hf
  | finalFile => exact fun _ => rfl
  | destroy | notJoinable => exact nofun
  | join hd hf => exact fun _ => hf
  | _ => exact h

theorem keptQuiet_step (h : s.KeptQuiet) (hc : s.Quiet a ∧ a.Openable)
    (hs : step s a = some s') : s'.KeptQuiet := by
  have hm := step_cases hs
  exact ⟨kept_step h.toKept hc.2 hs, calls_step hm hc.1 h.calls,
    final_step hm h.init h.stopped h.calls h.text h.final, joined_step hm h.init h.joined⟩

theorem KeptQuiet.file_complete (h : s.KeptQuiet) (hj : s.dtor = .joined) :
    s.file = some (lines s.locked) ∧ s.locked.Perm s.passed := by
  have hexit := h.joined hj
  have hstarted := h.init.started (by rw [hexit]; exact nofun)
  have hfinal := h.final (by rw [hexit]; rfl)
  have hcalls := h.calls (by rw [hj]; exact nofun)
  constructor
  · obtain ⟨f, hfile⟩ := Option.isSome_iff_exists.mp hstarted.2.1
    rw [hexit] at hfinal
    simpa [written, hfile, FlushPc.taken] using hfinal
  · have hmessages := h.messages
    rw [hcalls] at hmessages
    simpa [waiting] using hmessages.symm

end Runs

end Logger

end VirtioBench.Vtb
