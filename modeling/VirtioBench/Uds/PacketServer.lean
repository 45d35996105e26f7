import VirtioBench.Lib.Run
import Mathlib.Algebra.Order.Ring.Nat
import Mathlib.Data.List.Nodup
import Mathlib.Logic.Function.Basic

/- The packet server of code_dump/abstract_epoll_sockets_ints and its clients. A client writes
   packets of four integers to a stream socket (`send_packet` in client.cpp); the server
   waits with `epoll_wait` and, for each event of the batch it returns, accepts a connection or
   reads at most one packet (server.cpp).

   One action is one system call of one process with its answer, so a run is any interleaving of
   the server and of any number of clients. A connection is a stream: what is written and
   not yet read is its `wire`, and a read returns what is there, up to the size of a packet.

   Correspondence (C++ ↔ Lean):
     `Packet`, its bytes in memory         ↔ `Packet`, `Packet.encode`, `decode`
     `send_packet`                         ↔ `Act.write`, with the bytes `write` accepted
     `epoll_wait` (`events`, `nfds`)       ↔ `Act.wait`, `Server.batch`
     `fd == server_fd` and its else branch ↔ `Act.accept`, `Act.read`

   1. `packets_delivered`: a client whose writes are whole has its packets printed in order, none
      lost, repeated or torn, whatever the other clients do; when the server closes the
      connection, all of them have been.
   2. `server_never_blocks`: no read and no `accept` of a batch blocks or meets a descriptor that is
      closed, although the batch is a list of what was ready when it was taken. -/
namespace VirtioBench.Uds

/-! ## Packets -/

structure Packet where
  val1 : BitVec 32
  val2 : BitVec 32
  val3 : BitVec 32
  val4 : BitVec 32
  deriving DecidableEq, Repr

/-- The four bytes of an `int`, least significant first. -/
def intBytes (v : BitVec 32) : List UInt8 :=
  [UInt8.ofNat (v.toNat % 256), UInt8.ofNat (v.toNat / 2 ^ 8 % 256),
    UInt8.ofNat (v.toNat / 2 ^ 16 % 256), UInt8.ofNat (v.toNat / 2 ^ 24)]

def intOf (b : List UInt8) : BitVec 32 :=
  BitVec.ofNat 32 ((b.getD 0 0).toNat + (b.getD 1 0).toNat * 2 ^ 8 + (b.getD 2 0).toNat * 2 ^ 16 +
    (b.getD 3 0).toNat * 2 ^ 24)

def Packet.encode (p : Packet) : List UInt8 :=
  intBytes p.val1 ++ intBytes p.val2 ++ intBytes p.val3 ++ intBytes p.val4

def decode (b : List UInt8) : Packet :=
  ⟨intOf b, intOf (b.drop 4), intOf (b.drop 8), intOf (b.drop 12)⟩

/-- `sizeof(Packet)`. -/
def packetSize : Nat := 16

@[simp] theorem length_encode (p : Packet) : p.encode.length = packetSize := rfl

theorem intOf_intBytes (v : BitVec 32) (rest : List UInt8) : intOf (intBytes v ++ rest) = v := by
  have hv := v.isLt
  apply BitVec.eq_of_toNat_eq
  simp [intOf, intBytes]
  omega

theorem decode_encode (p : Packet) : decode p.encode = p := by
  have h1 : intOf p.encode = p.val1 := by
    simp only [Packet.encode, List.append_assoc]
    exact intOf_intBytes _ _
  have h2 : intOf (p.encode.drop 4) = p.val2 := intOf_intBytes p.val2 (intBytes p.val3 ++ intBytes p.val4)
  have h3 : intOf (p.encode.drop 8) = p.val3 := intOf_intBytes p.val3 (intBytes p.val4)
  have h4 : intOf (p.encode.drop 12) = p.val4 := intOf_intBytes p.val4 []
  rw [decode, h1, h2, h3, h4]

/-! ## Connections -/

/-- A connection: `sent` is what `send_packet` reported as sent, `got` what the server printed. -/
structure Conn where
  sent : List Packet
  wire : List UInt8
  hungUp : Bool
  got : List Packet
  closed : Bool

namespace Conn

def fresh : Conn := ⟨[], [], false, [], false⟩

/-- `send_packet`, of whose bytes `write` accepted `n`. -/
def write (c : Conn) (p : Packet) (n : Nat) : Conn :=
  { c with sent := if n = packetSize then c.sent ++ [p] else c.sent,
           wire := c.wire ++ p.encode.take n }

def hangUp (c : Conn) : Conn := { c with hungUp := true }

/-- `read(fd, &received_data, sizeof(Packet))` that returned some bytes; a packet is printed if
they are as many as it has. -/
def read (c : Conn) : Conn :=
  { c with wire := c.wire.drop packetSize,
           got := if (c.wire.take packetSize).length = packetSize
             then c.got ++ [decode (c.wire.take packetSize)] else c.got }

/-- `close(fd)`, after a read that returned 0. -/
def close (c : Conn) : Conn := { c with closed := true }

end Conn

/-! ## The server -/

inductive Event where
  | listen
  | client (fd : Nat)
  deriving DecidableEq, Repr

/-- The server with its clients, each with a name of its own: the connections not accepted yet,
the descriptors of the others, and the events of the batch still to be looked at. -/
structure Server where
  conns : Nat → Option Conn
  queue : List Nat
  fds : Nat → Option Nat
  batch : List Event

def maxEvents : Nat := 10

/-- The second argument of `listen`. -/
def backlog : Nat := 5

def start : Server := ⟨fun _ => none, [], fun _ => none, []⟩

def Conn.readable (c : Conn) : Bool := !c.wire.isEmpty || c.hungUp

def Server.readable (s : Server) (fd : Nat) : Bool :=
  ((s.fds fd).bind s.conns).any Conn.readable

/-- What `epoll_wait` may report. -/
def Server.ready (s : Server) : Event → Bool
  | .listen => !s.queue.isEmpty
  | .client fd => s.readable fd

def Server.setConn (s : Server) (c : Nat) (conn : Conn) : Server :=
  { s with conns := Function.update s.conns c (some conn) }

inductive Act where
  | connect (c : Nat)
  | write (c : Nat) (p : Packet) (n : Nat)
  | hangUp (c : Nat)
  | wait (events : List Event)
  | accept (fd : Nat)
  /-- -1, which `epoll_ctl` then refuses. -/
  | acceptFails
  | read

/-- The `else` branch, for the connection at `fd`; none where `read` would block. -/
def Server.readFd (s : Server) (fd : Nat) (rest : List Event) : Option Server := do
  let c ← s.fds fd
  let conn ← s.conns c
  if conn.wire ≠ [] then
    some { s.setConn c conn.read with batch := rest }
  else if conn.hungUp then
    some { s.setConn c conn.close with fds := Function.update s.fds fd none, batch := rest }
  else none

def step (s : Server) : Act → Option Server
  | .connect c =>
    if s.conns c = none ∧ s.queue.length ≤ backlog then
      some { s.setConn c .fresh with queue := s.queue ++ [c] }
    else none
  | .write c p n => do
    let conn ← s.conns c
    if conn.hungUp = false ∧ n ≤ packetSize then some (s.setConn c (conn.write p n)) else none
  | .hangUp c => do
    let conn ← s.conns c
    if conn.hungUp = false then some (s.setConn c conn.hangUp) else none
  | .wait events =>
    if s.batch = [] ∧ events.length ≤ maxEvents ∧ events.Nodup ∧ ∀ e ∈ events, s.ready e = true then
      some { s with batch := events }
    else none
  | .accept fd =>
    match s.batch, s.queue with
    | .listen :: rest, c :: queue =>
      if s.fds fd = none then
        some { s with queue := queue, fds := Function.update s.fds fd (some c), batch := rest }
      else none
    | _, _ => none
  | .acceptFails =>
    match s.batch with
    | .listen :: rest => some { s with batch := rest }
    | _ => none
  | .read =>
    match s.batch with
    | .client fd :: rest => s.readFd fd rest
    | _ => none

/-- Everything a step can do. -/
inductive Move (s : Server) : Act → Server → Prop
  | connect {c : Nat} (hnew : s.conns c = none) :
      Move s (.connect c) { s.setConn c .fresh with queue := s.queue ++ [c] }
  | write {c : Nat} {conn : Conn} {p : Packet} {n : Nat} (hc : s.conns c = some conn)
      (hopen : conn.hungUp = false) (hn : n ≤ packetSize) :
      Move s (.write c p n) (s.setConn c (conn.write p n))
  | hangUp {c : Nat} {conn : Conn} (hc : s.conns c = some conn) :
      Move s (.hangUp c) (s.setConn c conn.hangUp)
  | wait {events : List Event} (hnodup : events.Nodup) (hready : ∀ e ∈ events, s.ready e = true) :
      Move s (.wait events) { s with batch := events }
  | accept {fd c : Nat} {queue : List Nat} {rest : List Event} (hb : s.batch = .listen :: rest)
      (hq : s.queue = c :: queue) (hfree : s.fds fd = none) :
      Move s (.accept fd)
        { s with queue := queue, fds := Function.update s.fds fd (some c), batch := rest }
  | acceptFails {rest : List Event} (hb : s.batch = .listen :: rest) :
      Move s .acceptFails { s with batch := rest }
  | read {fd c : Nat} {conn : Conn} {rest : List Event} (hb : s.batch = .client fd :: rest)
      (hfd : s.fds fd = some c) (hc : s.conns c = some conn) (hw : conn.wire ≠ []) :
      Move s .read { s.setConn c conn.read with batch := rest }
  | close {fd c : Nat} {conn : Conn} {rest : List Event} (hb : s.batch = .client fd :: rest)
      (hfd : s.fds fd = some c) (hc : s.conns c = some conn) (hw : conn.wire = [])
      (hup : conn.hungUp = true) :
      Move s .read
        { s.setConn c conn.close with fds := Function.update s.fds fd none, batch := rest }

variable {s s' : Server} {a : Act}

theorem readFd_cases {fd : Nat} {rest : List Event} (hb : s.batch = .client fd :: rest)
    (h : s.readFd fd rest = some s') : Move s .read s' := by
  obtain ⟨c, hfd, h⟩ := Option.bind_eq_some_iff.mp h
  obtain ⟨conn, hc, h⟩ := Option.bind_eq_some_iff.mp h
  split at h
  · cases h
    exact .read hb hfd hc ‹_›
  · split at h
    · cases h
      exact .close hb hfd hc (by simpa using ‹¬ conn.wire ≠ []›) ‹_›
    · cases h

theorem step_cases (h : step s a = some s') : Move s a s' := by
  cases a with
  | connect c =>
    simp only [step] at h
    split at h
    · cases h
      exact .connect (And.left ‹_›)
    · cases h
  | write c p n =>
    obtain ⟨conn, hc, h⟩ := Option.bind_eq_some_iff.mp h
    split at h
    · cases h
      exact .write hc (And.left ‹_›) (And.right ‹_›)
    · cases h
  | hangUp c =>
    obtain ⟨conn, hc, h⟩ := Option.bind_eq_some_iff.mp h
    split at h
    · cases h
      exact .hangUp hc
    · cases h
  | wait events =>
    simp only [step] at h
    split at h
    · rename_i hw
      cases h
      exact .wait hw.2.2.1 hw.2.2.2
    · cases h
  | accept fd =>
    simp only [step] at h
    split at h
    · split at h
      · cases h
        exact .accept ‹_› ‹_› ‹_›
      · cases h
    · cases h
  | acceptFails =>
    simp only [step] at h
    split at h
    · cases h
      exact .acceptFails ‹_›
    · cases h
  | read =>
    simp only [step] at h
    split at h
    · exact readFd_cases ‹_› h
    · cases h

/-! ## One connection -/

/-- What is still to be printed is on the wire, packet by packet; a connection is closed when
nothing is. -/
structure Conn.Aligned (conn : Conn) : Prop where
  wire : ∃ rest, conn.sent = conn.got ++ rest ∧ conn.wire = rest.flatMap Packet.encode
  closed : conn.closed = true → conn.wire = [] ∧ conn.hungUp = true

variable {conn : Conn}

theorem aligned_fresh : Conn.fresh.Aligned := ⟨⟨[], rfl, rfl⟩, nofun⟩

theorem Conn.Aligned.write (h : conn.Aligned) (p : Packet) (hopen : conn.hungUp = false) :
    (conn.write p packetSize).Aligned := by
  obtain ⟨rest, hsent, hwire⟩ := h.wire
  have hall : p.encode.take packetSize = p.encode := List.take_of_length_le (Nat.le_of_eq (length_encode p))
  refine ⟨⟨rest ++ [p], ?_, ?_⟩, ?_⟩
  · simp [Conn.write, hsent]
  · simp [Conn.write, hwire, hall]
  · intro hclosed
    have hup := (h.closed hclosed).2
    rw [hopen] at hup
    cases hup

theorem Conn.Aligned.hangUp (h : conn.Aligned) : conn.hangUp.Aligned :=
  ⟨h.wire, fun hclosed => ⟨(h.closed hclosed).1, rfl⟩⟩

/-- A read of an aligned stream returns a whole packet. -/
theorem Conn.Aligned.read (h : conn.Aligned) (hw : conn.wire ≠ []) : conn.read.Aligned := by
  obtain ⟨rest, hsent, hwire⟩ := h.wire
  cases rest with
  | nil => exact absurd hwire hw
  | cons p rest =>
    have hsplit : conn.wire = p.encode ++ rest.flatMap Packet.encode := hwire
    have htake : conn.wire.take packetSize = p.encode := by
      rw [hsplit]
      exact List.take_left' (length_encode p)
    have hdrop : conn.wire.drop packetSize = rest.flatMap Packet.encode := by
      rw [hsplit]
      exact List.drop_left' (length_encode p)
    refine ⟨⟨rest, ?_, hdrop⟩, ?_⟩
    · simp [Conn.read, htake, decode_encode, hsent]
    · intro hclosed
      exact absurd (h.closed hclosed).1 hw

theorem Conn.Aligned.close (h : conn.Aligned) (hw : conn.wire = []) (hup : conn.hungUp = true) :
    conn.close.Aligned :=
  ⟨h.wire, fun _ => ⟨hw, hup⟩⟩

/-- The connection of client `c`, if there is one, is aligned. -/
def Server.AlignedAt (s : Server) (c : Nat) : Prop := ∀ conn, s.conns c = some conn → conn.Aligned

/-- The writes of client `c` are whole. -/
def Act.Whole (c : Nat) (a : Act) : Prop := ∀ p n, a = .write c p n → n = packetSize

theorem alignedAt_setConn {c d : Nat} (h : s.AlignedAt c) (hd : d = c → conn.Aligned) :
    (s.setConn d conn).AlignedAt c := by
  intro conn' hc
  by_cases heq : d = c
  · subst heq
    simp only [Server.setConn, Function.update_self, Option.some.injEq] at hc
    rw [← hc]
    exact hd rfl
  · simp only [Server.setConn, Function.update_of_ne (Ne.symm heq)] at hc
    exact h conn' hc

theorem step_alignedAt {c : Nat} (h : s.AlignedAt c) (hwhole : a.Whole c) (hs : step s a = some s') :
    s'.AlignedAt c := by
  cases step_cases hs with
  | connect hnew => exact alignedAt_setConn h (fun _ => aligned_fresh)
  | write hc hopen hn =>
    apply alignedAt_setConn h
    rintro rfl
    rw [hwhole _ _ rfl]
    exact (h _ hc).write _ hopen
  | hangUp hc =>
    apply alignedAt_setConn h
    rintro rfl
    exact (h _ hc).hangUp
  | wait hnodup hready => exact h
  | accept hb hq hfree => exact h
  | acceptFails hb => exact h
  | read hb hfd hc hw =>
    apply alignedAt_setConn h
    rintro rfl
    exact (h _ hc).read hw
  | close hb hfd hc hw hup =>
    apply alignedAt_setConn h
    rintro rfl
    exact (h _ hc).close hw hup

/-- In every run of the server and its clients, the packets of a client whose writes are whole are
printed in the order they were sent, each of them once, and all of them by the time the connection
is closed. -/
theorem packets_delivered (as : List Act) (s : Server) (h : Transition.run step start as = some s)
    (c : Nat) (hwhole : ∀ a ∈ as, a.Whole c) (conn : Conn) (hc : s.conns c = some conn) :
    ∃ rest, conn.sent = conn.got ++ rest ∧ conn.wire = rest.flatMap Packet.encode ∧
      (conn.closed = true → rest = []) := by
  have h0 : start.AlignedAt c := fun conn hconn => by cases hconn
  have hm : Transition.Meets step (fun _ a => a.Whole c) start as :=
    Transition.meets_of_actions hwhole
  have hs : s.AlignedAt c := Transition.meets_invariant
    (fun s a s' hi hw hstep => step_alignedAt hi hw hstep) h0 hm h
  obtain ⟨rest, hsent, hwire⟩ := (hs conn hc).wire
  refine ⟨rest, hsent, hwire, ?_⟩
  intro hclosed
  have hnil := ((hs conn hc).closed hclosed).1
  cases rest with
  | nil => rfl
  | cons p rest =>
    have hlen := congrArg List.length (hwire.symm.trans hnil)
    simp [packetSize] at hlen

/-- Client 0 sends two packets, client 1 a piece of one; the server reads client 0 between them. -/
def twoClients : List Act :=
  [.connect 0, .write 0 ⟨10, 20, 30, 40⟩ 16, .wait [.listen], .accept 5, .connect 1,
    .write 1 ⟨1, 2, 3, 4⟩ 7, .wait [.listen, .client 5], .accept 6, .write 0 ⟨-1, 0, 7, 8⟩ 16, .read,
    .wait [.client 6, .client 5], .read]

theorem packets_delivered_two : ∃ s, Transition.run step start twoClients = some s ∧
    ∃ conn, s.conns 0 = some conn ∧ conn.got = [⟨10, 20, 30, 40⟩] ∧
      ∃ rest, conn.sent = conn.got ++ rest ∧ conn.wire = rest.flatMap Packet.encode ∧
        (conn.closed = true → rest = []) := by
  obtain ⟨s, hr, conn, hc, hgot⟩ : ∃ s, Transition.run step start twoClients = some s ∧
      ∃ conn, s.conns 0 = some conn ∧ conn.got = [⟨10, 20, 30, 40⟩] := ⟨_, rfl, _, rfl, by decide⟩
  have hwhole : ∀ a ∈ twoClients, a.Whole 0 := by
    simp [twoClients, Act.Whole, packetSize]
  exact ⟨s, hr, conn, hc, hgot, packets_delivered twoClients s hr 0 hwhole conn hc⟩

/-! ## The batch -/

/-- Every event of the batch is still ready, and a connection has one descriptor at most. -/
structure Server.Inv (s : Server) : Prop where
  nodup : s.batch.Nodup
  ready : ∀ e ∈ s.batch, s.ready e = true
  inj : ∀ fd fd' c, s.fds fd = some c → s.fds fd' = some c → fd = fd'
  queue_nodup : s.queue.Nodup
  waiting : ∀ c ∈ s.queue, ∀ fd, s.fds fd ≠ some c
  queue_conns : ∀ c ∈ s.queue, s.conns c ≠ none
  fds_conns : ∀ fd c, s.fds fd = some c → s.conns c ≠ none

theorem start_inv : start.Inv :=
  ⟨List.nodup_nil, nofun, nofun, List.nodup_nil, nofun, nofun, nofun⟩

theorem readable_iff {fd : Nat} : s.readable fd = true ↔
    ∃ c conn, s.fds fd = some c ∧ s.conns c = some conn ∧ conn.readable = true := by
  simp [Server.readable, Option.any_eq_true, Option.bind_eq_some_iff]
  tauto

theorem setConn_ne_none {c : Nat} (d : Nat) (h : s.conns d ≠ none) :
    (s.setConn c conn).conns d ≠ none := by
  by_cases hd : d = c
  · subst hd
    simp [Server.setConn]
  · simpa [Server.setConn, Function.update_of_ne hd] using h

/-- A connection that changes and stays readable, or that none of the events is about, leaves the
events ready. -/
theorem readable_setConn {fd c : Nat} (h : s.readable fd = true)
    (hconn : ∀ old, s.fds fd = some c → s.conns c = some old → old.readable = true →
      conn.readable = true) : (s.setConn c conn).readable fd = true := by
  obtain ⟨d, old, hfd, hold, hr⟩ := readable_iff.mp h
  apply readable_iff.mpr
  by_cases hd : d = c
  · subst hd
    exact ⟨d, conn, hfd, by simp [Server.setConn], hconn old hfd hold hr⟩
  · exact ⟨d, old, hfd, by simpa [Server.setConn, Function.update_of_ne hd] using hold, hr⟩

theorem Server.Inv.setConn {c : Nat} {old : Conn} (h : s.Inv) (hc : s.conns c = some old)
    (hr : old.readable = true → conn.readable = true) : (s.setConn c conn).Inv where
  nodup := h.nodup
  ready := by
    intro e he
    cases e with
    | listen => exact h.ready _ he
    | client fd =>
      apply readable_setConn (h.ready _ he)
      intro old' _ hold' hread
      rw [hc] at hold'
      cases hold'
      exact hr hread
  inj := h.inj
  queue_nodup := h.queue_nodup
  waiting := h.waiting
  queue_conns := fun d hd => setConn_ne_none d (h.queue_conns d hd)
  fds_conns := fun fd d hd => setConn_ne_none d (h.fds_conns fd d hd)

theorem Server.Inv.connect {c : Nat} (h : s.Inv) (hnew : s.conns c = none) :
    Server.Inv { s.setConn c .fresh with queue := s.queue ++ [c] } where
  nodup := h.nodup
  ready := by
    intro e he
    cases e with
    | listen => simp [Server.ready]
    | client fd =>
      have hold : (s.setConn c .fresh).readable fd = true := by
        apply readable_setConn (h.ready _ he)
        intro old _ hold _
        rw [hnew] at hold
        cases hold
      exact hold
  inj := h.inj
  queue_nodup := by
    have hc : c ∉ s.queue := fun hc => h.queue_conns c hc hnew
    rw [List.nodup_append]
    exact ⟨h.queue_nodup, List.nodup_singleton c, by simp; grind⟩
  waiting := by
    intro d hd fd hfd
    rcases List.mem_append.mp hd with hd | hd
    · exact h.waiting d hd fd hfd
    · cases List.mem_singleton.mp hd
      exact h.fds_conns fd c hfd hnew
  queue_conns := by
    intro d hd
    rcases List.mem_append.mp hd with hd | hd
    · exact setConn_ne_none d (h.queue_conns d hd)
    · cases List.mem_singleton.mp hd
      simp [Server.setConn]
  fds_conns := fun fd d hd => setConn_ne_none d (h.fds_conns fd d hd)

/-- The event `accept` answers is the only one of the listening socket, and the descriptor it
returns is none of those in the batch. -/
theorem Server.Inv.accept {fd c : Nat} {queue : List Nat} {rest : List Event} (h : s.Inv)
    (hb : s.batch = .listen :: rest) (hq : s.queue = c :: queue) (hfree : s.fds fd = none) :
    Server.Inv
      { s with queue := queue, fds := Function.update s.fds fd (some c), batch := rest } := by
  have hnodup := h.nodup
  rw [hb, List.nodup_cons] at hnodup
  have hqueue := h.queue_nodup
  rw [hq, List.nodup_cons] at hqueue
  have hmem : ∀ d ∈ queue, d ∈ s.queue := fun d hd => by rw [hq]; exact List.mem_cons_of_mem c hd
  have hfds : ∀ fd' d, Function.update s.fds fd (some c) fd' = some d →
      (fd' = fd ∧ d = c) ∨ (fd' ≠ fd ∧ s.fds fd' = some d) := by
    intro fd' d hd
    by_cases heq : fd' = fd
    · subst heq
      rw [Function.update_self] at hd
      exact .inl ⟨rfl, (Option.some.inj hd).symm⟩
    · rw [Function.update_of_ne heq] at hd
      exact .inr ⟨heq, hd⟩
  have hwait : ∀ fd', s.fds fd' ≠ some c := h.waiting c (by rw [hq]; exact List.mem_cons_self)
  refine ⟨hnodup.2, ?_, ?_, hqueue.2, ?_, fun d hd => h.queue_conns d (hmem d hd), ?_⟩
  · intro e he
    cases e with
    | listen => exact absurd he hnodup.1
    | client fd' =>
      have hread : s.readable fd' = true :=
        h.ready (.client fd') (by rw [hb]; exact List.mem_cons_of_mem _ he)
      obtain ⟨d, conn, hfd, hd, hr⟩ := readable_iff.mp hread
      have hne : fd' ≠ fd := by
        rintro rfl
        rw [hfree] at hfd
        cases hfd
      exact readable_iff.mpr ⟨d, conn, by simpa [Function.update_of_ne hne] using hfd, hd, hr⟩
  · intro fd₁ fd₂ d h₁ h₂
    rcases hfds fd₁ d h₁ with ⟨rfl, rfl⟩ | ⟨_, hold₁⟩
    · rcases hfds fd₂ d h₂ with ⟨rfl, _⟩ | ⟨_, hold₂⟩
      · rfl
      · exact absurd hold₂ (hwait fd₂)
    · rcases hfds fd₂ d h₂ with ⟨rfl, rfl⟩ | ⟨_, hold₂⟩
      · exact absurd hold₁ (hwait fd₁)
      · exact h.inj fd₁ fd₂ d hold₁ hold₂
  · intro d hd fd' hd'
    rcases hfds fd' d hd' with ⟨-, rfl⟩ | ⟨_, hold⟩
    · exact hqueue.1 hd
    · exact h.waiting d (hmem d hd) fd' hold
  · intro fd' d hd
    rcases hfds fd' d hd with ⟨-, rfl⟩ | ⟨_, hold⟩
    · exact h.queue_conns d (by rw [hq]; exact List.mem_cons_self)
    · exact h.fds_conns fd' d hold

/-- Reading one connection, and closing its descriptor, leaves the others of the batch as they
are. -/
theorem Server.Inv.served {fd c : Nat} {fds : Nat → Option Nat} {rest : List Event} (h : s.Inv)
    (hb : s.batch = .client fd :: rest) (hfd : s.fds fd = some c)
    (hfds : ∀ fd', fd' ≠ fd → fds fd' = s.fds fd') (hat : ∀ d, fds fd = some d → d = c) :
    Server.Inv { s.setConn c conn with fds := fds, batch := rest } := by
  have hnodup := h.nodup
  rw [hb, List.nodup_cons] at hnodup
  have hold : ∀ fd' d, fds fd' = some d → s.fds fd' = some d := by
    intro fd' d hd
    by_cases heq : fd' = fd
    · subst heq
      rw [hat d hd, hfd]
    · rwa [hfds fd' heq] at hd
  refine ⟨hnodup.2, ?_, fun fd₁ fd₂ d h₁ h₂ => h.inj fd₁ fd₂ d (hold fd₁ d h₁) (hold fd₂ d h₂),
    h.queue_nodup, fun d hd fd' hd' => h.waiting d hd fd' (hold fd' d hd'),
    fun d hd => setConn_ne_none d (h.queue_conns d hd),
    fun fd' d hd => setConn_ne_none d (h.fds_conns fd' d (hold fd' d hd))⟩
  intro e he
  have he' : e ∈ s.batch := by
    rw [hb]
    exact List.mem_cons_of_mem _ he
  cases e with
  | listen => exact h.ready .listen he'
  | client fd' =>
    have hne : fd' ≠ fd := by
      rintro rfl
      exact hnodup.1 he
    have hread : s.readable fd' = true := h.ready _ he'
    obtain ⟨d, old, hd, hconn, hr⟩ := readable_iff.mp hread
    have hdc : d ≠ c := by
      rintro rfl
      exact hne (h.inj fd' fd d hd hfd)
    exact readable_iff.mpr ⟨d, old, (hfds fd' hne).trans hd,
      by simpa [Server.setConn, Function.update_of_ne hdc] using hconn, hr⟩

theorem step_inv (h : s.Inv) (hs : step s a = some s') : s'.Inv := by
  cases step_cases hs with
  | connect hnew => exact h.connect hnew
  | @write c conn p n hc hopen hn =>
    apply h.setConn hc
    intro hr
    simp only [Conn.readable, Conn.write, hopen, Bool.or_false, Bool.not_eq_true',
      List.isEmpty_eq_false_iff] at hr ⊢
    exact List.append_ne_nil_of_left_ne_nil hr _
  | hangUp hc => exact h.setConn hc (fun _ => by simp [Conn.readable, Conn.hangUp])
  | wait hnodup hready => exact { h with nodup := hnodup, ready := hready }
  | accept hb hq hfree => exact h.accept hb hq hfree
  | acceptFails hb =>
    have hnodup := h.nodup
    rw [hb, List.nodup_cons] at hnodup
    exact { h with
      nodup := hnodup.2
      ready := fun e he => h.ready e (by rw [hb]; exact List.mem_cons_of_mem _ he) }
  | @read fd c conn rest hb hfd hc hw =>
    exact h.served hb hfd (fun _ _ => rfl) (fun d hd => Option.some.inj (hd.symm.trans hfd))
  | @close fd c conn rest hb hfd hc hw hup =>
    exact h.served hb hfd (fun fd' hne => Function.update_of_ne hne _ _) (fun d hd => by simp at hd)

/-- In every run, the next event of a batch is still ready when the server looks at it: `accept` has
a connection to return and `read` has bytes, or the end of the stream, of an open descriptor. -/
theorem server_never_blocks (as : List Act) (s : Server)
    (h : Transition.run step start as = some s) :
    (∀ rest fd, s.batch = .listen :: rest → s.fds fd = none →
      ∃ s', step s (.accept fd) = some s' ∧ s'.batch = rest) ∧
    (∀ fd rest, s.batch = .client fd :: rest → ∃ s', step s .read = some s' ∧ s'.batch = rest) := by
  have hi : s.Inv := Transition.run_invariant (fun s a s' hi hs => step_inv hi hs) start_inv h
  refine ⟨?_, ?_⟩
  · intro rest fd hb hfree
    have hready : s.ready .listen = true := hi.ready _ (by rw [hb]; exact List.mem_cons_self)
    cases hq : s.queue with
    | nil => simp [Server.ready, hq] at hready
    | cons c queue => exact ⟨_, by simp [step, hb, hq, hfree]; rfl, rfl⟩
  · intro fd rest hb
    have hready : s.readable fd = true := hi.ready (.client fd) (by rw [hb]; exact List.mem_cons_self)
    obtain ⟨c, conn, hfd, hc, hr⟩ := readable_iff.mp hready
    by_cases hw : conn.wire = []
    · have hup : conn.hungUp = true := by simpa [Conn.readable, hw] using hr
      exact ⟨_, by simp [step, hb, Server.readFd, hfd, hc, hw, hup]; rfl, rfl⟩
    · exact ⟨_, by simp [step, hb, Server.readFd, hfd, hc, hw]; rfl, rfl⟩

/-- One batch closes a descriptor and accepts a connection, which may get the same one. -/
def reuse : List Act :=
  [.connect 0, .wait [.listen], .accept 5, .hangUp 0, .connect 1, .wait [.client 5, .listen], .read]

theorem server_never_blocks_reuse : ∃ s, Transition.run step start reuse = some s ∧
    s.batch = [.listen] ∧ s.fds 5 = none ∧
      ∃ s', step s (.accept 5) = some s' ∧ s'.batch = [] := by
  obtain ⟨s, hr, hb, hfree⟩ : ∃ s, Transition.run step start reuse = some s ∧
      s.batch = [.listen] ∧ s.fds 5 = none := ⟨_, rfl, rfl, rfl⟩
  exact ⟨s, hr, hb, hfree, (server_never_blocks reuse s hr).1 [] 5 hb hfree⟩

end VirtioBench.Uds
