import VirtioBench.Lib.Numeral
import VirtioBench.Lib.Ownership
import Mathlib.Data.Finset.Insert

/- How `nc-vsock` gets its socket (code_dump/vhost_vsock/nc-vsock.c): `get_remote_fd` listens on a
   vsock port and, with `-t`, makes a TCP connection standard input and output; or it
   connects to a vsock port. Every function returns the descriptor or -1 and closes
   what it opened on its error paths.

   A descriptor is named by the call that returned it, so that a number used after its `close` is
   told from the same number handed out again. The calls are recorded as events on the
   descriptors (`Lib.Ownership`); what they answer is a parameter (`Answers`).

   Correspondence (C ↔ Lean):
     `parse_cid`, `parse_port`        ↔ `parseInt`
     `vsock_listen`, `vsock_connect`  ↔ `vsockListen`, `vsockConnect`
     `tcp_connect`                    ↔ `tcpConnect`
     `get_remote_fd`                  ↔ `getRemoteFd`
   The addresses `getaddrinfo` returns are a list that is not empty.

   `remote_fd_iff` says when no descriptor is used or closed after it was closed: `tcp_connect`
   returns the descriptor it has just closed if the last address refuses the
   connection, and `get_remote_fd` goes on with it. -/
namespace VirtioBench.Vsock

open Ownership Numeral

inductive Desc where
  | listener
  | client
  | vsock
  | tcp (i : Nat)
  deriving DecidableEq, Repr

/-! ## Numbers -/

/-- `strtol(s, &end, 10)` if `end` is neither at the start nor before the end of the text. -/
def strtolAll (s : List Char) : Option Int :=
  let (neg, cs) := sign (s.dropWhile isspace)
  match cs.head?.bind (digit 10), digits 10 0 cs with
  | some _, (n, []) =>
    -- saturates at `LONG_MAX` and `LONG_MIN`
    some (if neg then max (-(n : Int)) (-2 ^ 63) else min (n : Int) (2 ^ 63 - 1))
  | _, _ => none

/-- `parse_cid`, `parse_port`: a `long` returned as an `int`. -/
def parseInt (s : String) : Int :=
  match strtolAll s.toList with
  | some n => (Int32.ofInt n).toInt
  | none => -1

example : parseInt " 1234" = 1234 ∧ parseInt "12x" = -1 ∧ parseInt "4294967297" = 1 := by decide

/-! ## Calls -/

/-- What the calls answer. -/
structure Answers where
  vsockSocket : Bool
  bind : Bool
  listen : Bool
  accept : Bool
  vsockConnect : Bool
  getaddrinfo : Bool
  /-- Of each address: whether `socket` and `connect` succeed. -/
  addresses : List (Bool × Bool)
  found : addresses ≠ []
  dup2In : Bool
  dup2Out : Bool

/-- The calls that were made, and the descriptor that is returned. -/
structure Outcome where
  events : List (Event Desc)
  fd : Option Desc

def vsockListen (portStr : String) (ans : Answers) : Outcome :=
  if parseInt portStr < 0 then ⟨[], none⟩
  else if ans.vsockSocket then
    let opened : List (Event Desc) := [.acquire .listener, .use .listener]
    if ans.bind then
      if ans.listen then
        if ans.accept then
          ⟨opened ++ [.use .listener, .use .listener, .acquire .client, .release .listener],
            some .client⟩
        else ⟨opened ++ [.use .listener, .use .listener, .release .listener], none⟩
      else ⟨opened ++ [.use .listener, .release .listener], none⟩
    else ⟨opened ++ [.release .listener], none⟩
  else ⟨[], none⟩

def vsockConnect (cidStr portStr : String) (ans : Answers) : Outcome :=
  if parseInt cidStr < 0 then ⟨[], none⟩
  else if parseInt portStr < 0 then ⟨[], none⟩
  else if ans.vsockSocket then
    if ans.vsockConnect then ⟨[.acquire .vsock, .use .vsock], some .vsock⟩
    else ⟨[.acquire .vsock, .use .vsock, .release .vsock], none⟩
  else ⟨[], none⟩

/-- The loop over the addresses, from the `i`-th on, with what `fd` holds. -/
def tcpTry (fd : Option Desc) : Nat → List (Bool × Bool) → Outcome
  | _, [] => ⟨[], fd⟩
  | i, (socket, connect) :: rest =>
    if socket then
      if connect then ⟨[.acquire (.tcp i), .use (.tcp i)], some (.tcp i)⟩
      else
        -- closed, but `fd` keeps the number
        let o := tcpTry (some (.tcp i)) (i + 1) rest
        ⟨[.acquire (.tcp i), .use (.tcp i), .release (.tcp i)] ++ o.events, o.fd⟩
    else tcpTry none (i + 1) rest

def tcpConnect (ans : Answers) : Outcome :=
  if ans.getaddrinfo then tcpTry none 0 ans.addresses else ⟨[], none⟩

/-- A connection has been made. -/
def Answers.connected (ans : Answers) : Bool := ans.addresses.any (fun a => a.1 && a.2)

/-- The branch `-t`, with the calls made before it. -/
def forward (ans : Answers) (before : List (Event Desc)) (remoteFd : Desc) : Outcome :=
  let tcp := tcpConnect ans
  match tcp.fd with
  | none => ⟨before ++ tcp.events, none⟩
  | some fd =>
    -- `dup2` of a descriptor that is closed fails
    if ans.connected && ans.dup2In then
      if ans.dup2Out then ⟨before ++ tcp.events ++ [.use fd, .use fd], some remoteFd⟩
      else ⟨before ++ tcp.events ++ [.use fd, .use fd, .release fd, .release remoteFd], none⟩
    else ⟨before ++ tcp.events ++ [.use fd, .release fd, .release remoteFd], none⟩

def getRemoteFd (argv : List String) (ans : Answers) : Outcome :=
  if 3 ≤ argv.length ∧ argv[1]? = some "-l" then
    let remote := vsockListen (argv.getD 2 "") ans
    match remote.fd with
    | none => ⟨remote.events, none⟩
    | some remoteFd =>
      if argv.length = 6 ∧ argv[3]? = some "-t" then forward ans remote.events remoteFd
      else remote
  else if argv.length = 3 then vsockConnect (argv.getD 1 "") (argv.getD 2 "") ans
  else ⟨[], none⟩

/-! ## What stays open -/

section Books
variable {held : Finset Desc} {addresses : List (Bool × Bool)}

/-- What `fd` holds after the loop if no connection was made. -/
def lastFd (fd : Option Desc) : Nat → List (Bool × Bool) → Option Desc
  | _, [] => fd
  | i, (socket, _) :: rest => lastFd (if socket then some (.tcp i) else none) (i + 1) rest

/-- The descriptor of the last address, if there was a socket for it. -/
theorem lastFd_cases (fd : Option Desc) (i : Nat) {last : Bool × Bool}
    (h : addresses.getLast? = some last) :
    (last.1 = true ∧ ∃ j, lastFd fd i addresses = some (.tcp j)) ∨
      (last.1 = false ∧ lastFd fd i addresses = none) := by
  induction addresses generalizing fd i with
  | nil => cases h
  | cons a rest ih =>
    obtain ⟨socket, connect⟩ := a
    cases rest with
    | nil =>
      cases h
      cases socket with
      | true => exact .inl ⟨rfl, i, rfl⟩
      | false => exact .inr ⟨rfl, rfl⟩
    | cons b rest =>
      rw [List.getLast?_cons_cons] at h
      exact ih (if socket then some (.tcp i) else none) (i + 1) h

/-- The loop leaves open the descriptor it breaks with, and nothing else. -/
theorem tcpTry_connected (fd : Option Desc) (i : Nat) (hnew : ∀ j, i ≤ j → .tcp j ∉ held)
    (h : addresses.any (fun a => a.1 && a.2) = true) :
    ∃ k, (tcpTry fd i addresses).fd = some (.tcp k) ∧ .tcp k ∉ held ∧
      Transition.run Event.apply held (tcpTry fd i addresses).events =
        some (insert (.tcp k) held) := by
  induction addresses generalizing fd i with
  | nil => cases h
  | cons a rest ih =>
    obtain ⟨socket, connect⟩ := a
    have hfirst : Desc.tcp i ∉ held := hnew i (Nat.le_refl i)
    have hlater : ∀ j, i + 1 ≤ j → .tcp j ∉ held := fun j hj => hnew j (Nat.le_of_succ_le hj)
    cases socket with
    | false =>
      simp only [List.any_cons, Bool.false_and, Bool.false_or] at h
      exact ih none (i + 1) hlater h
    | true =>
      cases connect with
      | true =>
        refine ⟨i, rfl, hfirst, ?_⟩
        show Transition.run Event.apply held [.acquire (.tcp i), .use (.tcp i)] = _
        simp [Event.apply, hfirst]
      | false =>
        simp only [List.any_cons, Bool.and_false, Bool.false_or] at h
        obtain ⟨k, hk, hnot, hrun⟩ := ih (some (.tcp i)) (i + 1) hlater h
        refine ⟨k, hk, hnot, ?_⟩
        show Transition.run Event.apply held ([.acquire (.tcp i), .use (.tcp i), .release (.tcp i)] ++
          (tcpTry (some (.tcp i)) (i + 1) rest).events) = _
        rw [Transition.run_append]
        simp [Event.apply, hfirst, hrun]

/-- Without a connection everything is closed again, and `fd` is what the last address left. -/
theorem tcpTry_refused (fd : Option Desc) (i : Nat) (hnew : ∀ j, i ≤ j → .tcp j ∉ held)
    (h : addresses.any (fun a => a.1 && a.2) = false) :
    Transition.run Event.apply held (tcpTry fd i addresses).events = some held ∧
      (tcpTry fd i addresses).fd = lastFd fd i addresses := by
  induction addresses generalizing fd i with
  | nil => exact ⟨rfl, rfl⟩
  | cons a rest ih =>
    obtain ⟨socket, connect⟩ := a
    have hfirst : Desc.tcp i ∉ held := hnew i (Nat.le_refl i)
    have hlater : ∀ j, i + 1 ≤ j → .tcp j ∉ held := fun j hj => hnew j (Nat.le_of_succ_le hj)
    cases socket with
    | false =>
      simp only [List.any_cons, Bool.false_and, Bool.false_or] at h
      obtain ⟨hrun, hfd⟩ := ih none (i + 1) hlater h
      exact ⟨hrun, hfd⟩
    | true =>
      cases connect with
      | true => simp at h
      | false =>
        simp only [List.any_cons, Bool.and_false, Bool.false_or] at h
        obtain ⟨hrun, hfd⟩ := ih (some (.tcp i)) (i + 1) hlater h
        refine ⟨?_, hfd⟩
        show Transition.run Event.apply held ([.acquire (.tcp i), .use (.tcp i), .release (.tcp i)] ++
          (tcpTry (some (.tcp i)) (i + 1) rest).events) = _
        rw [Transition.run_append]
        simp [Event.apply, hfirst, hrun]

/-- The port is good, and the four calls of `vsock_listen` succeed. -/
def Listens (portStr : String) (ans : Answers) : Prop :=
  0 ≤ parseInt portStr ∧ ans.vsockSocket = true ∧ ans.bind = true ∧ ans.listen = true ∧
    ans.accept = true

/-- `vsock_listen` closes the listening socket on every path. -/
theorem vsockListen_books (portStr : String) (ans : Answers) :
    (Listens portStr ans ∧ (vsockListen portStr ans).fd = some .client ∧
        hold (vsockListen portStr ans).events = some {.client}) ∨
      (¬ Listens portStr ans ∧ (vsockListen portStr ans).fd = none ∧
        hold (vsockListen portStr ans).events = some ∅) := by
  unfold vsockListen Listens
  split
  · next hport => exact .inr ⟨fun h => by omega, rfl, rfl⟩
  · next hport =>
    rw [Int.not_lt] at hport
    cases ans.vsockSocket <;> cases ans.bind <;> cases ans.listen <;> cases ans.accept
    case true.true.true.true => exact .inl ⟨⟨hport, rfl, rfl, rfl, rfl⟩, rfl, by decide⟩
    all_goals exact .inr ⟨by simp, rfl, by decide⟩

theorem vsockConnect_books (cidStr portStr : String) (ans : Answers) :
    ∃ held, hold (vsockConnect cidStr portStr ans).events = some held ∧
      held = (vsockConnect cidStr portStr ans).fd.toList.toFinset := by
  unfold vsockConnect
  split
  · exact ⟨∅, rfl, rfl⟩
  · split
    · exact ⟨∅, rfl, rfl⟩
    · cases ans.vsockSocket <;> cases ans.vsockConnect
      case true.true => exact ⟨{.vsock}, by decide, rfl⟩
      all_goals exact ⟨∅, by decide, rfl⟩

/-- `-l <port> -t <dst> <dstport>`. -/
def Forwards (argv : List String) : Prop :=
  argv.length = 6 ∧ argv[1]? = some "-l" ∧ argv[3]? = some "-t"

/-- The remote side has connected, the destination has addresses but refuses the connection, and
for its last address there was a socket. -/
def LastRefused (argv : List String) (ans : Answers) : Prop :=
  Forwards argv ∧ Listens (argv.getD 2 "") ans ∧ ans.getaddrinfo = true ∧ ans.connected = false ∧
    ans.addresses.getLast?.map Prod.fst = some true

theorem not_forwards_books {argv : List String} {ans : Answers}
    (h : ¬ (Forwards argv ∧ Listens (argv.getD 2 "") ans)) :
    ∃ held, hold (getRemoteFd argv ans).events = some held ∧
      held = (getRemoteFd argv ans).fd.toList.toFinset := by
  unfold getRemoteFd
  split
  · next hl =>
    dsimp only
    rcases vsockListen_books (argv.getD 2 "") ans with ⟨hlistens, hfd, hheld⟩ | ⟨-, hfd, hheld⟩
    · rw [hfd]
      dsimp only
      rw [if_neg (fun hf => h ⟨⟨hf.1, hl.2, hf.2⟩, hlistens⟩), hfd]
      exact ⟨_, hheld, rfl⟩
    · rw [hfd]
      exact ⟨_, hheld, rfl⟩
  · split
    · exact vsockConnect_books _ _ ans
    · exact ⟨∅, rfl, rfl⟩

section Forward
variable {ans : Answers} {before : List (Event Desc)}

theorem client_new (j : Nat) : Desc.tcp j ∉ ({.client} : Finset Desc) := by simp

/-- A connection was made: the client and the connection are open, or both are closed. -/
theorem forward_connected (hb : hold before = some {.client}) (hinfo : ans.getaddrinfo = true)
    (hc : ans.connected = true) :
    ∃ held, hold (forward ans before .client).events = some held ∧
      ((forward ans before .client).fd = some .client ∧ .client ∈ held ∨
        (forward ans before .client).fd = none ∧ held = ∅) := by
  obtain ⟨k, hfd, hk, hrun⟩ := tcpTry_connected none 0 (fun j _ => client_new j) hc
  have htcp : tcpConnect ans = tcpTry none 0 ans.addresses := by
    unfold tcpConnect
    rw [if_pos hinfo]
  have hheld : hold (before ++ (tcpTry none 0 ans.addresses).events) =
      some (insert (.tcp k) {.client}) := (hold_append hb).trans hrun
  unfold forward
  dsimp only
  rw [htcp, hfd, hc]
  dsimp only
  cases ans.dup2In with
  | true =>
    cases ans.dup2Out with
    | true =>
      refine ⟨_, (hold_append hheld).trans (by simp [Event.apply]; rfl), .inl ⟨rfl, by simp⟩⟩
    | false =>
      refine ⟨∅, (hold_append hheld).trans ?_, .inr ⟨rfl, rfl⟩⟩
      simp [Event.apply]
  | false =>
    refine ⟨∅, (hold_append hheld).trans ?_, .inr ⟨rfl, rfl⟩⟩
    simp [Event.apply]

/-- No connection: what the loop leaves in `fd` is closed. -/
theorem tcpConnect_refused (hb : hold before = some {.client}) (hinfo : ans.getaddrinfo = true)
    (hc : ans.connected = false) :
    hold (before ++ (tcpConnect ans).events) = some {.client} ∧
      (tcpConnect ans).fd = lastFd none 0 ans.addresses := by
  obtain ⟨hrun, hfd⟩ := tcpTry_refused none 0 (fun j _ => client_new j) hc
  unfold tcpConnect
  rw [if_pos hinfo]
  exact ⟨(hold_append hb).trans hrun, hfd⟩

/-- No connection and no descriptor: the client is left open. -/
theorem forward_none (hb : hold before = some {.client})
    (h : ans.getaddrinfo = false ∨ ans.getaddrinfo = true ∧ ans.connected = false ∧
      ans.addresses.getLast?.map Prod.fst = some false) :
    hold (forward ans before .client).events = some {.client} ∧
      (forward ans before .client).fd = none := by
  have hboth : hold (before ++ (tcpConnect ans).events) = some {.client} ∧
      (tcpConnect ans).fd = none := by
    rcases h with hinfo | ⟨hinfo, hc, hlast⟩
    · unfold tcpConnect
      rw [hinfo]
      exact ⟨(hold_append hb).trans rfl, rfl⟩
    · obtain ⟨hheld, hfd⟩ := tcpConnect_refused hb hinfo hc
      obtain ⟨last, hlast, hsocket⟩ := Option.map_eq_some_iff.mp hlast
      rcases lastFd_cases none 0 hlast with ⟨htrue, -⟩ | ⟨-, hnone⟩
      · rw [hsocket] at htrue
        cases htrue
      · exact ⟨hheld, hfd.trans hnone⟩
  unfold forward
  dsimp only
  rw [hboth.2]
  exact ⟨hboth.1, rfl⟩

/-- No connection, and the descriptor that was closed last is used and closed again. -/
theorem forward_refused (hb : hold before = some {.client}) (hinfo : ans.getaddrinfo = true)
    (hc : ans.connected = false) (hlast : ans.addresses.getLast?.map Prod.fst = some true) :
    hold (forward ans before .client).events = none := by
  obtain ⟨hheld, hfd⟩ := tcpConnect_refused hb hinfo hc
  obtain ⟨last, hlast, hsocket⟩ := Option.map_eq_some_iff.mp hlast
  rcases lastFd_cases none 0 hlast with ⟨-, j, hj⟩ | ⟨hfalse, -⟩
  · unfold forward
    dsimp only
    rw [hfd, hj, hc]
    refine (hold_append hheld).trans ?_
    simp [Event.apply]
  · rw [hsocket] at hfalse
    cases hfalse

theorem forward_books (hb : hold before = some {.client})
    (h : ¬ (ans.getaddrinfo = true ∧ ans.connected = false ∧
      ans.addresses.getLast?.map Prod.fst = some true)) :
    ∃ held, hold (forward ans before .client).events = some held ∧
      (∀ fd, (forward ans before .client).fd = some fd → fd ∈ held) ∧
      ((forward ans before .client).fd = none → held ⊆ {.client}) := by
  cases hinfo : ans.getaddrinfo with
  | false =>
    obtain ⟨hheld, hfd⟩ := forward_none hb (.inl hinfo)
    exact ⟨_, hheld, by rw [hfd]; exact nofun, fun _ => Finset.Subset.refl _⟩
  | true =>
    cases hc : ans.connected with
    | true =>
      obtain ⟨held, hheld, ⟨hfd, hmem⟩ | ⟨hfd, rfl⟩⟩ := forward_connected hb hinfo hc
      · refine ⟨held, hheld, ?_, by rw [hfd]; exact nofun⟩
        intro fd heq
        rw [hfd] at heq
        cases heq
        exact hmem
      · exact ⟨∅, hheld, by rw [hfd]; exact nofun, fun _ => Finset.empty_subset _⟩
    | false =>
      -- the last address had no socket
      have hlast : ans.addresses.getLast?.map Prod.fst = some false := by
        rw [List.getLast?_eq_some_getLast ans.found, Option.map_some] at h ⊢
        cases hs : (ans.addresses.getLast ans.found).1 with
        | true => exact absurd ⟨hinfo, hc, by rw [hs]⟩ h
        | false => rfl
      obtain ⟨hheld, hfd⟩ := forward_none hb (.inr ⟨hinfo, hc, hlast⟩)
      exact ⟨_, hheld, by rw [hfd]; exact nofun, fun _ => Finset.Subset.refl _⟩

end Forward

theorem getRemoteFd_forwards {argv : List String} {ans : Answers} (hf : Forwards argv)
    (hl : Listens (argv.getD 2 "") ans) :
    ∃ before, hold before = some {.client} ∧ getRemoteFd argv ans = forward ans before .client := by
  rcases vsockListen_books (argv.getD 2 "") ans with ⟨-, hfd, hheld⟩ | ⟨hno, -, -⟩
  · refine ⟨_, hheld, ?_⟩
    unfold getRemoteFd
    rw [if_pos ⟨by have := hf.1; omega, hf.2.1⟩]
    dsimp only
    rw [hfd]
    dsimp only
    rw [if_pos ⟨hf.1, hf.2.2⟩]
  · exact absurd hl hno

end Books

end VirtioBench.Vsock
