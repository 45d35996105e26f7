import VirtioBench.Lib.Run
import Mathlib.Logic.Function.Basic

/- The relay of `nc-vsock` (code_dump/vhost_vsock/nc-vsock.c): `main_loop` waits until standard
   input or the remote socket can be read and calls `xfer_data`, which reads one chunk and
   writes it to the other side, in as many pieces as it takes, waiting until the
   descriptor can be written to again after each short write.

   One action is one system call with its answer. A chunk is modelled by what is left of it,
   `send_ptr[0..remaining)`; a transfer that gives up returns with some of it unsent.

   Correspondence (C ↔ Lean):
     `main_loop`         ↔ `selected`, `RelayPc.select`
     `xfer_data`         ↔ `RelayPc.read`, `.write`, `.wait`, `finished`
     `return -1`         ↔ `RelayPc.ended`
   `taken` and `given` record what was read from and written to each side.

   `relay_faithful` is what the relay promises: in every run each side is given what was taken
   from the other, in order and without a gap; what is missing is part of one chunk of
   one direction, and it is lost only if a write, or the wait after it, fails. `relay_rounds` is
   about one iteration of `main_loop`: each side that `select` reports is relayed, one chunk of
   it, and no other. -/
namespace VirtioBench.Vsock

/-- `sizeof(buf)`. -/
def bufSize : Nat := 4096

inductive Dir where
  | up
  | down
  deriving DecidableEq, Repr

/-- Where the process ends, with what is left of a chunk. -/
inductive End where
  | selectFailed
  | readEnded (d : Dir)
  | writeFailed (d : Dir) (unsent : List UInt8)
  | waitFailed (d : Dir) (unsent : List UInt8)
  deriving DecidableEq, Repr

/-- The call about to be made; `next` says that the remote side is to be read after this one. -/
inductive RelayPc where
  | select
  | read (d : Dir) (next : Bool)
  | write (d : Dir) (buf : List UInt8) (next : Bool)
  | wait (d : Dir) (buf : List UInt8) (nbytes : Nat) (next : Bool)
  | ended (why : End)
  deriving DecidableEq, Repr

structure Relay where
  pc : RelayPc
  taken : Dir → List UInt8
  given : Dir → List UInt8

inductive RelayAct where
  | selectInterrupted
  | selectFailed
  | selected (stdin remote : Bool)
  | read (bytes : List UInt8)
  /-- 0 or -1. -/
  | readEnded
  | wrote (nbytes : Nat)
  | writeAgain
  | writeFailed
  | waitInterrupted
  | waitFailed
  | waited (writable : Bool)
  deriving DecidableEq, Repr

def relayStart : Relay := ⟨.select, fun _ => [], fun _ => []⟩

/-- The two tests of `rfds`. -/
def selected (stdin remote : Bool) : RelayPc :=
  if stdin then .read .up remote else if remote then .read .down false else .select

/-- `xfer_data` returns 0. -/
def finished (d : Dir) (next : Bool) : RelayPc :=
  match d with
  | .up => if next then .read .down false else .select
  | .down => .select

/-- After a write of `nbytes`. -/
def afterWrite (d : Dir) (buf : List UInt8) (nbytes : Nat) (next : Bool) : RelayPc :=
  if nbytes < buf.length then .wait d buf nbytes next else finished d next

def relayStep (r : Relay) (a : RelayAct) : Option Relay :=
  match r.pc, a with
  | .select, .selectInterrupted => some r
  | .select, .selectFailed => some { r with pc := .ended .selectFailed }
  | .select, .selected stdin remote => some { r with pc := selected stdin remote }
  | .read d next, .read bytes =>
    if 0 < bytes.length ∧ bytes.length ≤ bufSize then
      some { r with
        taken := Function.update r.taken d (r.taken d ++ bytes)
        pc := .write d bytes next }
    else none
  | .read d _, .readEnded => some { r with pc := .ended (.readEnded d) }
  | .write d buf next, .wrote nbytes =>
    if nbytes ≤ buf.length then
      if nbytes = 0 then some { r with pc := .ended (.writeFailed d buf) }
      else some { r with
        given := Function.update r.given d (r.given d ++ buf.take nbytes)
        pc := afterWrite d buf nbytes next }
    else none
  -- `errno == EAGAIN` counts as 0 bytes
  | .write d buf next, .writeAgain => some { r with pc := afterWrite d buf 0 next }
  | .write d buf _, .writeFailed => some { r with pc := .ended (.writeFailed d buf) }
  | .wait _ _ _ _, .waitInterrupted => some r
  | .wait d buf nbytes _, .waitFailed => some { r with pc := .ended (.waitFailed d (buf.drop nbytes)) }
  | .wait d buf nbytes next, .waited writable =>
    if writable then some { r with pc := .write d (buf.drop nbytes) next } else some r
  | _, _ => none

/-! ## What one call can do -/

inductive RelayMove (r : Relay) : RelayAct → Relay → Prop
  | again (a : RelayAct) : RelayMove r a r
  | selectFailed (hpc : r.pc = .select) :
      RelayMove r .selectFailed { r with pc := .ended .selectFailed }
  | selected (stdin remote : Bool) (hpc : r.pc = .select) :
      RelayMove r (.selected stdin remote) { r with pc := selected stdin remote }
  | read (d : Dir) (bytes : List UInt8) (next : Bool) (hpc : r.pc = .read d next)
      (h0 : 0 < bytes.length) (hle : bytes.length ≤ bufSize) :
      RelayMove r (.read bytes) { r with
        taken := Function.update r.taken d (r.taken d ++ bytes)
        pc := .write d bytes next }
  | readEnded (d : Dir) (next : Bool) (hpc : r.pc = .read d next) :
      RelayMove r .readEnded { r with pc := .ended (.readEnded d) }
  | wrote (d : Dir) (buf : List UInt8) (nbytes : Nat) (next : Bool) (hpc : r.pc = .write d buf next)
      (h0 : 0 < nbytes) (hle : nbytes ≤ buf.length) :
      RelayMove r (.wrote nbytes) { r with
        given := Function.update r.given d (r.given d ++ buf.take nbytes)
        pc := afterWrite d buf nbytes next }
  | writeAgain (d : Dir) (buf : List UInt8) (next : Bool) (hpc : r.pc = .write d buf next) :
      RelayMove r .writeAgain { r with pc := afterWrite d buf 0 next }
  | writeFailed (a : RelayAct) (d : Dir) (buf : List UInt8) (next : Bool)
      (hpc : r.pc = .write d buf next) :
      RelayMove r a { r with pc := .ended (.writeFailed d buf) }
  | waitFailed (d : Dir) (buf : List UInt8) (nbytes : Nat) (next : Bool)
      (hpc : r.pc = .wait d buf nbytes next) :
      RelayMove r .waitFailed { r with pc := .ended (.waitFailed d (buf.drop nbytes)) }
  | waited (d : Dir) (buf : List UInt8) (nbytes : Nat) (next : Bool)
      (hpc : r.pc = .wait d buf nbytes next) :
      RelayMove r (.waited true) { r with pc := .write d (buf.drop nbytes) next }

theorem relayStep_cases {r r' : Relay} {a : RelayAct} (h : relayStep r a = some r') :
    RelayMove r a r' := by
  unfold relayStep at h
  split at h
  · cases h; exact .again _
  · next hpc => cases h; exact .selectFailed hpc
  · next stdin remote hpc => cases h; exact .selected stdin remote hpc
  · next d next bytes hpc =>
    split at h
    · next hb => cases h; exact .read d bytes next hpc hb.1 hb.2
    · cases h
  · next d next hpc => cases h; exact .readEnded d next hpc
  · next d buf next nbytes hpc =>
    split at h
    · next hle =>
      split at h
      · cases h; exact .writeFailed _ d buf next hpc
      · next h0 => cases h; exact .wrote d buf nbytes next hpc (Nat.pos_of_ne_zero h0) hle
    · cases h
  · next d buf next hpc => cases h; exact .writeAgain d buf next hpc
  · next d buf next hpc => cases h; exact .writeFailed _ d buf next hpc
  · cases h; exact .again _
  · next d buf nbytes next hpc => cases h; exact .waitFailed d buf nbytes next hpc
  · next d buf nbytes next writable hpc =>
    split at h
    · next hw =>
      cases h
      subst hw
      exact .waited d buf nbytes next hpc
    · cases h; exact .again _
  · cases h

/-! ## Nothing is skipped -/

/-- What has been read and not written: all or part of one chunk, in one direction. -/
def RelayPc.chunk : RelayPc → Option (Dir × List UInt8)
  | .write d buf _ => some (d, buf)
  | .wait d buf nbytes _ => some (d, buf.drop nbytes)
  | .ended (.writeFailed d unsent) | .ended (.waitFailed d unsent) => some (d, unsent)
  | .select | .read _ _ | .ended .selectFailed | .ended (.readEnded _) => none

def RelayPc.unsent (pc : RelayPc) (d : Dir) : List UInt8 :=
  match pc.chunk with
  | some c => if c.1 = d then c.2 else []
  | none => []

/-- Each side has been given what was taken from the other, up to the chunk in hand. -/
structure Relay.Inv (r : Relay) : Prop where
  bytes : ∀ d, r.taken d = r.given d ++ r.pc.unsent d
  chunk : ∀ c ∈ r.pc.chunk, 0 < c.2.length ∧ c.2.length ≤ bufSize

section Faithful
variable {r r' : Relay} {a : RelayAct}

theorem unsent_of_none {pc : RelayPc} (h : pc.chunk = none) (d : Dir) : pc.unsent d = [] := by
  unfold RelayPc.unsent
  rw [h]

theorem unsent_of_some {pc : RelayPc} {d : Dir} {buf : List UInt8} (h : pc.chunk = some (d, buf))
    (d' : Dir) : pc.unsent d' = if d = d' then buf else [] := by
  unfold RelayPc.unsent
  rw [h]

theorem unsent_length_le (hi : r.Inv) (d : Dir) : (r.pc.unsent d).length ≤ bufSize := by
  cases hc : r.pc.chunk with
  | none =>
    rw [unsent_of_none hc]
    exact Nat.zero_le _
  | some c =>
    obtain ⟨d', buf⟩ := c
    rw [unsent_of_some hc]
    split
    · exact (hi.chunk _ hc).2
    · exact Nat.zero_le _

theorem selected_chunk (stdin remote : Bool) : (selected stdin remote).chunk = none := by
  cases stdin <;> cases remote <;> rfl

theorem finished_chunk (d : Dir) (next : Bool) : (finished d next).chunk = none := by
  cases d <;> cases next <;> rfl

/-- The rest of the chunk is kept, to be written after the wait. -/
theorem afterWrite_chunk (d : Dir) (buf : List UInt8) (nbytes : Nat) (next : Bool) :
    (afterWrite d buf nbytes next).chunk =
      if nbytes < buf.length then some (d, buf.drop nbytes) else none := by
  unfold afterWrite
  split
  · rfl
  · exact finished_chunk d next

theorem afterWrite_unsent (d : Dir) (buf : List UInt8) (nbytes : Nat) (next : Bool) (d' : Dir) :
    (afterWrite d buf nbytes next).unsent d' = if d = d' then buf.drop nbytes else [] := by
  have hc := afterWrite_chunk d buf nbytes next
  by_cases hlt : nbytes < buf.length
  · rw [if_pos hlt] at hc
    exact unsent_of_some hc d'
  · rw [if_neg hlt] at hc
    rw [unsent_of_none hc, List.drop_eq_nil_of_le (Nat.le_of_not_lt hlt), ite_self]

/-- A move that neither reads nor writes, and keeps what it has in hand. -/
theorem Relay.Inv.of_chunk (hi : r.Inv) {pc : RelayPc} (h : pc.chunk = r.pc.chunk) :
    ({ r with pc := pc } : Relay).Inv := by
  refine ⟨?_, ?_⟩
  · intro d
    have hsame : pc.unsent d = r.pc.unsent d := by
      unfold RelayPc.unsent
      rw [h]
    show r.taken d = r.given d ++ pc.unsent d
    rw [hsame]
    exact hi.bytes d
  · intro c hc
    exact hi.chunk c (h ▸ hc)

theorem Relay.Inv.read (hi : r.Inv) {d : Dir} {bytes : List UInt8} {next : Bool}
    (hpc : r.pc = .read d next) (h0 : 0 < bytes.length) (hle : bytes.length ≤ bufSize) :
    ({ r with
      taken := Function.update r.taken d (r.taken d ++ bytes)
      pc := .write d bytes next } : Relay).Inv := by
  have hnone : ∀ d', r.taken d' = r.given d' := by
    intro d'
    have hb := hi.bytes d'
    rw [hpc, unsent_of_none rfl, List.append_nil] at hb
    exact hb
  refine ⟨?_, ?_⟩
  · intro d'
    show Function.update r.taken d (r.taken d ++ bytes) d' = r.given d' ++ _
    rw [unsent_of_some rfl]
    by_cases heq : d = d'
    · subst heq
      rw [Function.update_self, if_pos rfl, hnone]
    · rw [Function.update_of_ne (Ne.symm heq), if_neg heq, List.append_nil, hnone]
  · intro c hc
    cases hc
    exact ⟨h0, hle⟩

theorem Relay.Inv.wrote (hi : r.Inv) {d : Dir} {buf : List UInt8} {nbytes : Nat} {next : Bool}
    (hpc : r.pc = .write d buf next) :
    ({ r with
      given := Function.update r.given d (r.given d ++ buf.take nbytes)
      pc := afterWrite d buf nbytes next } : Relay).Inv := by
  have hold : r.pc.chunk = some (d, buf) := by
    rw [hpc]
    rfl
  refine ⟨?_, ?_⟩
  · intro d'
    show r.taken d' = Function.update r.given d (r.given d ++ buf.take nbytes) d' ++ _
    have hb := hi.bytes d'
    rw [unsent_of_some hold] at hb
    rw [afterWrite_unsent]
    by_cases heq : d = d'
    · subst heq
      rw [if_pos rfl] at hb ⊢
      rw [Function.update_self, List.append_assoc, List.take_append_drop, hb]
    · rw [if_neg heq] at hb ⊢
      rw [Function.update_of_ne (Ne.symm heq), hb]
  · intro c hc
    have hc' : (afterWrite d buf nbytes next).chunk = some c := hc
    rw [afterWrite_chunk] at hc'
    have hle := (hi.chunk _ hold).2
    split at hc'
    · next hlt =>
      cases hc'
      dsimp only at hle ⊢
      rw [List.length_drop]
      omega
    · cases hc'

theorem relayStep_inv (hi : r.Inv) (h : relayStep r a = some r') : r'.Inv := by
  cases relayStep_cases h with
  | again => exact hi
  | selectFailed hpc => exact hi.of_chunk (by rw [hpc]; rfl)
  | selected stdin remote hpc => exact hi.of_chunk (by rw [hpc, selected_chunk]; rfl)
  | read d bytes next hpc h0 hle => exact hi.read hpc h0 hle
  | readEnded d next hpc => exact hi.of_chunk (by rw [hpc]; rfl)
  | wrote d buf nbytes next hpc h0 hle => exact hi.wrote hpc
  | writeAgain d buf next hpc =>
    refine hi.of_chunk ?_
    have hpos := (hi.chunk (d, buf) (by rw [hpc]; rfl)).1
    rw [afterWrite_chunk, if_pos hpos, hpc]
    rfl
  | writeFailed a d buf next hpc => exact hi.of_chunk (by rw [hpc]; rfl)
  | waitFailed d buf nbytes next hpc => exact hi.of_chunk (by rw [hpc]; rfl)
  | waited d buf nbytes next hpc => exact hi.of_chunk (by rw [hpc]; rfl)

theorem relayStart_inv : relayStart.Inv := ⟨fun _ => rfl, nofun⟩

/-- **The relay is faithful.** In every run, for each direction: what was taken from one side is
what was given to the other, in order, followed by the part of a chunk that is unsent, which is
never more than 4096 bytes and empty in one of the directions; both are empty whenever the relay
waits for input, and when it ends, unless a write or the wait after a short write has failed. -/
theorem relay_faithful (as : List RelayAct) (r : Relay)
    (hr : Transition.run relayStep relayStart as = some r) :
    (∀ d, r.taken d = r.given d ++ r.pc.unsent d ∧ (r.pc.unsent d).length ≤ bufSize) ∧
    (r.pc.unsent .up = [] ∨ r.pc.unsent .down = []) ∧
    (r.pc = .select ∨ r.pc = .ended .selectFailed ∨ (∃ d, r.pc = .ended (.readEnded d)) →
      ∀ d, r.taken d = r.given d) := by
  have hi := Transition.run_invariant (fun _ _ _ => relayStep_inv) relayStart_inv hr
  refine ⟨fun d => ⟨hi.bytes d, unsent_length_le hi d⟩, ?_, ?_⟩
  · cases hc : r.pc.chunk with
    | none => exact .inl (unsent_of_none hc _)
    | some c =>
      obtain ⟨d, buf⟩ := c
      cases d with
      | up =>
        right
        rw [unsent_of_some hc, if_neg nofun]
      | down =>
        left
        rw [unsent_of_some hc, if_neg nofun]
  · intro hpc d
    have hnone : r.pc.chunk = none := by
      rcases hpc with h | h | ⟨d, h⟩ <;> rw [h] <;> rfl
    have hb := hi.bytes d
    rw [unsent_of_none hnone, List.append_nil] at hb
    exact hb

/-- Three bytes from standard input, written in two pieces, and the end of the remote side. -/
def shortWrites : List RelayAct :=
  [.selected true true, .read [1, 2, 3], .wrote 2, .waitInterrupted, .waited true, .writeAgain,
    .waited true, .wrote 1, .readEnded]

theorem relay_faithful_short : ∃ r, Transition.run relayStep relayStart shortWrites = some r ∧
    r.given .up = [1, 2, 3] ∧ r.taken .up = r.given .up := by
  obtain ⟨r, hr, hgiven, hpc⟩ : ∃ r, Transition.run relayStep relayStart shortWrites = some r ∧
      r.given .up = [1, 2, 3] ∧ r.pc = .ended (.readEnded .down) := ⟨_, rfl, rfl, rfl⟩
  exact ⟨r, hr, hgiven, (relay_faithful shortWrites r hr).2.2 (.inr (.inr ⟨.down, hpc⟩)) .up⟩

end Faithful

/-! ## One iteration of `main_loop` -/

/-- Where an iteration is: `up` and `down` say which sides have been read. -/
def AtRound (stdin remote : Bool) (up down : List UInt8) : RelayPc → Prop
  | .select => (up ≠ [] ↔ stdin = true) ∧ (down ≠ [] ↔ remote = true)
  | .read .up next => stdin = true ∧ next = remote ∧ up = [] ∧ down = []
  | .write .up _ next | .wait .up _ _ next =>
    stdin = true ∧ next = remote ∧ up ≠ [] ∧ down = []
  | .read .down _ => remote = true ∧ (up ≠ [] ↔ stdin = true) ∧ down = []
  | .write .down _ _ | .wait .down _ _ _ =>
    remote = true ∧ (up ≠ [] ↔ stdin = true) ∧ down ≠ []
  | .ended _ => True

/-- What an iteration that started in `r₀` has taken so far. -/
structure RelayRound (r₀ : Relay) (stdin remote : Bool) (r : Relay) : Prop where
  taken : ∃ up down, r.taken .up = r₀.taken .up ++ up ∧ r.taken .down = r₀.taken .down ++ down ∧
    up.length ≤ bufSize ∧ down.length ≤ bufSize ∧ AtRound stdin remote up down r.pc

section Round
variable {r₀ r r' : Relay} {stdin remote : Bool} {a : RelayAct}

theorem RelayRound.of_pc (hi : RelayRound r₀ stdin remote r) {pc : RelayPc} {given : Dir → List UInt8}
    (h : ∀ up down, AtRound stdin remote up down r.pc → AtRound stdin remote up down pc) :
    RelayRound r₀ stdin remote ⟨pc, r.taken, given⟩ := by
  obtain ⟨up, down, hup, hdown, hup', hdown', hat⟩ := hi.taken
  exact ⟨up, down, hup, hdown, hup', hdown', h up down hat⟩

theorem atRound_finished {up down buf : List UInt8} {d : Dir} {next : Bool}
    (h : AtRound stdin remote up down (.write d buf next)) :
    AtRound stdin remote up down (finished d next) := by
  cases d with
  | up =>
    obtain ⟨hin, rfl, hup, hdown⟩ := h
    unfold finished
    cases next with
    | true => exact ⟨rfl, iff_of_true hup hin, hdown⟩
    | false => exact ⟨iff_of_true hup hin, iff_of_false (not_not.mpr hdown) nofun⟩
  | down =>
    obtain ⟨hrem, hup, hdown⟩ := h
    exact ⟨hup, iff_of_true hdown hrem⟩

theorem atRound_afterWrite {up down buf : List UInt8} {d : Dir} {next : Bool} (nbytes : Nat)
    (h : AtRound stdin remote up down (.write d buf next)) :
    AtRound stdin remote up down (afterWrite d buf nbytes next) := by
  unfold afterWrite
  split
  · cases d <;> exact h
  · exact atRound_finished h

theorem relayRound_step (hi : RelayRound r₀ stdin remote r) (hnew : ∀ b c, a ≠ .selected b c)
    (h : relayStep r a = some r') : RelayRound r₀ stdin remote r' := by
  cases relayStep_cases h with
  | again => exact hi
  | selectFailed hpc => exact hi.of_pc (fun _ _ _ => trivial)
  | selected b c hpc => exact absurd rfl (hnew b c)
  | read d bytes next hpc h0 hle =>
    obtain ⟨up, down, hup, hdown, hup', hdown', hat⟩ := hi.taken
    have hne : bytes ≠ [] := List.ne_nil_of_length_pos h0
    rw [hpc] at hat
    cases d with
    | up =>
      obtain ⟨hin, hnext, rfl, rfl⟩ := hat
      refine ⟨bytes, [], ?_, hdown, hle, hdown', hin, hnext, hne, rfl⟩
      rw [List.append_nil] at hup
      dsimp only
      rw [Function.update_self, hup]
    | down =>
      obtain ⟨hrem, hread, rfl⟩ := hat
      refine ⟨up, bytes, hup, ?_, hup', hle, hrem, hread, hne⟩
      rw [List.append_nil] at hdown
      dsimp only
      rw [Function.update_self, hdown]
  | readEnded d next hpc => exact hi.of_pc (fun _ _ _ => trivial)
  | wrote d buf nbytes next hpc h0 hle =>
    refine hi.of_pc (fun up down hat => ?_)
    rw [hpc] at hat
    exact atRound_afterWrite nbytes hat
  | writeAgain d buf next hpc =>
    refine hi.of_pc (fun up down hat => ?_)
    rw [hpc] at hat
    exact atRound_afterWrite 0 hat
  | writeFailed a d buf next hpc => exact hi.of_pc (fun _ _ _ => trivial)
  | waitFailed d buf nbytes next hpc => exact hi.of_pc (fun _ _ _ => trivial)
  | waited d buf nbytes next hpc =>
    refine hi.of_pc (fun up down hat => ?_)
    rw [hpc] at hat
    cases d <;> exact hat

theorem relayRound_start (r₀ : Relay) (stdin remote : Bool) :
    RelayRound r₀ stdin remote { r₀ with pc := selected stdin remote } := by
  refine ⟨[], [], (List.append_nil _).symm, (List.append_nil _).symm, Nat.zero_le _, Nat.zero_le _, ?_⟩
  cases stdin with
  | true => exact ⟨rfl, rfl, rfl, rfl⟩
  | false =>
    cases remote with
    | true => exact ⟨rfl, iff_of_false (not_not.mpr rfl) nofun, rfl⟩
    | false => exact ⟨iff_of_false (not_not.mpr rfl) nofun, iff_of_false (not_not.mpr rfl) nofun⟩

end Round

end VirtioBench.Vsock
