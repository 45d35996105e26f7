import VirtioBench.Lib.Ownership
import VirtioBench.Tap.WindowUpdate

/- The throttle loop (code_dump/dpdkTapDevice/backpressure.cpp, `main` from its sixth part
   on): packets are counted, the fifth is answered with a window of zero and kept as a clone,
   and a minute later the clone is sent with the window restored.

   The loop goes one call at a time, and what DPDK, the clock and the signal answer is the
   action. An mbuf is a reference to a buffer. `rte_eth_rx_burst` returns new references to
   new buffers, `rte_pktmbuf_clone` a new reference to the same buffer, and an
   `rte_eth_tx_burst` that accepts an mbuf releases it, as `rte_pktmbuf_free` does. Time is
   in nanoseconds.

   Correspondence (C++ ↔ Lean):
     the loop                              ↔ `Pc`, `step`
     `send_tcp_window_update`              ↔ `State.send`
     `saved_mbuf`, `throttled`, `pkt_count`,
     `start_time`, `keep_running`          ↔ the fields of `State`
   `events`, `zeroAck` and `acks` record what is done with the mbufs and which packets were
   sent; no branch reads them.

   1. `restore_reverses_iff` — every packet that restores the window has the ends of the
      packet that closed it exactly if those ends are one: it is the same bytes, exchanged
      once more.
   2. `throttle_releases_iff` — every mbuf is released exactly once and not used afterwards
      exactly if no transmission of a TCP packet is accepted and the loop is not left while
      a clone is kept: what is accepted is freed again by the loop. -/
namespace VirtioBench.Tap

open Bytes Ownership Transition

def burstSize : Nat := 32

structure Mbuf where
  ref : Nat
  buf : Nat
  deriving DecidableEq, Repr

/-- The next call, with the packets of the burst that are left. -/
inductive Pc where
  | loadRunning
  | rxBurst
  | packet (bufs : List Mbuf)
  | sendZero (m : Mbuf) (rest : List Mbuf)
  | clone (m : Mbuf) (rest : List Mbuf)
  | startClock (m : Mbuf) (rest : List Mbuf)
  | free (m : Mbuf) (rest : List Mbuf)
  | endClock
  | sendRestore
  | freeSaved
  | exited
  deriving DecidableEq, Repr

structure State where
  keepRunning : Bool
  pc : Pc
  pktCount : Int32
  throttled : Bool
  startTime : Int
  savedMbuf : Option Mbuf
  /-- The next reference, and the next buffer. -/
  next : Nat
  mem : Nat → Buffer
  events : List (Event Nat)
  zeroAck : Option Buffer
  acks : List (Buffer × Buffer)

inductive Act where
  | main
  | rx (frames : List Buffer)
  | tx (accepted : Bool)
  | now (time : Int)
  | signal

def State.start (startTime : Int) : State :=
  { keepRunning := true, pc := .loadRunning, pktCount := 0, throttled := false,
    startTime := startTime, savedMbuf := none, next := 0, mem := fun _ _ => 0, events := [],
    zeroAck := none, acks := [] }

/-- The mbufs of a burst of `n`. -/
def newMbufs (next n : Nat) : List Mbuf := (List.range n).map (fun k => ⟨next + k, next + k⟩)

/-- `send_tcp_window_update`: the header is read, and a TCP packet is changed and handed to
the driver. -/
def State.send (ck : Cksum) (s : State) (m : Mbuf) (windowVal : UInt16) (accepted : Bool) : State :=
  match windowUpdate ck windowVal (s.mem m.buf) with
  | none => { s with events := s.events ++ [.use m.ref] }
  | some b => { s with
      mem := Function.update s.mem m.buf b
      events := s.events ++ [.use m.ref] ++ if accepted then [.release m.ref] else [] }

def seconds (duration : Int) : Int := duration.tdiv 1000000000

/-- The head of the loop over the burst, up to the next call. -/
def nextPacket (s : State) : List Mbuf → State
  | [] => { s with pc := if s.throttled then .endClock else .loadRunning }
  | m :: rest =>
    if s.throttled then { s with pc := .free m rest }
    else { s with
      pktCount := s.pktCount + 1
      pc := if s.pktCount + 1 ≥ 5 then .sendZero m rest else .free m rest }

def step (ck : Cksum) (s : State) (a : Act) : Option State :=
  match s.pc, a with
  | _, .signal => some { s with keepRunning := false }
  | .loadRunning, .main => some { s with pc := if s.keepRunning then .rxBurst else .exited }
  | .rxBurst, .rx frames =>
    if frames.length ≤ burstSize then
      some { s with
        pc := .packet (newMbufs s.next frames.length)
        next := s.next + frames.length
        mem := fun k => if s.next ≤ k then frames[k - s.next]?.getD (s.mem k) else s.mem k
        events := s.events ++ (newMbufs s.next frames.length).map (fun m => .acquire m.ref) }
    else none
  | .packet bufs, .main => some (nextPacket s bufs)
  | .sendZero m rest, .tx accepted =>
    some { s.send ck m 0 accepted with
      pc := .clone m rest
      zeroAck := windowUpdate ck 0 (s.mem m.buf) }
  | .clone m rest, .main =>
    some { s with
      pc := .startClock m rest
      savedMbuf := some ⟨s.next, m.buf⟩
      throttled := true
      next := s.next + 1
      events := s.events ++ [.use m.ref, .acquire s.next] }
  | .startClock m rest, .now time => some { s with pc := .free m rest, startTime := time }
  | .free m rest, .main =>
    some { s with pc := .packet rest, events := s.events ++ [.release m.ref] }
  | .endClock, .now time =>
    some { s with pc := if seconds (time - s.startTime) ≥ 60 then .sendRestore else .loadRunning }
  | .sendRestore, .tx accepted =>
    match s.savedMbuf with
    | none => none
    | some m =>
      some { s.send ck m 16384 accepted with
        pc := .freeSaved
        acks := s.acks ++ ((s.zeroAck.bind (fun z =>
          (windowUpdate ck 16384 (s.mem m.buf)).map (fun r => (z, r)))).toList) }
  | .freeSaved, .main =>
    match s.savedMbuf with
    | none => none
    | some m =>
      some { s with
        pc := .loadRunning
        throttled := false
        pktCount := 0
        events := s.events ++ [.release m.ref] }
  | _, _ => none

/-- The steps, one by one. -/
inductive Move (ck : Cksum) (s : State) : Act → State → Prop where
  | signal : Move ck s .signal { s with keepRunning := false }
  | loop (hpc : s.pc = .loadRunning) (hrun : s.keepRunning = true) :
      Move ck s .main { s with pc := .rxBurst }
  | leave (hpc : s.pc = .loadRunning) (hrun : s.keepRunning = false) :
      Move ck s .main { s with pc := .exited }
  | rx {frames : List Buffer} (hpc : s.pc = .rxBurst) (hlen : frames.length ≤ burstSize) :
      Move ck s (.rx frames) { s with
        pc := .packet (newMbufs s.next frames.length)
        next := s.next + frames.length
        mem := fun k => if s.next ≤ k then frames[k - s.next]?.getD (s.mem k) else s.mem k
        events := s.events ++ (newMbufs s.next frames.length).map (fun m => .acquire m.ref) }
  | done (hpc : s.pc = .packet []) (hthrottled : s.throttled = false) :
      Move ck s .main { s with pc := .loadRunning }
  | doneThrottled (hpc : s.pc = .packet []) (hthrottled : s.throttled = true) :
      Move ck s .main { s with pc := .endClock }
  | skip {m : Mbuf} {rest : List Mbuf} (hpc : s.pc = .packet (m :: rest))
      (hthrottled : s.throttled = true) : Move ck s .main { s with pc := .free m rest }
  | count {m : Mbuf} {rest : List Mbuf} (hpc : s.pc = .packet (m :: rest))
      (hthrottled : s.throttled = false) :
      Move ck s .main { s with pktCount := s.pktCount + 1, pc := .free m rest }
  | fifth {m : Mbuf} {rest : List Mbuf} (hpc : s.pc = .packet (m :: rest))
      (hthrottled : s.throttled = false) :
      Move ck s .main { s with pktCount := s.pktCount + 1, pc := .sendZero m rest }
  | sendZero {m : Mbuf} {rest : List Mbuf} {accepted : Bool} (hpc : s.pc = .sendZero m rest) :
      Move ck s (.tx accepted) { s.send ck m 0 accepted with
        pc := .clone m rest
        zeroAck := windowUpdate ck 0 (s.mem m.buf) }
  | clone {m : Mbuf} {rest : List Mbuf} (hpc : s.pc = .clone m rest) :
      Move ck s .main { s with
        pc := .startClock m rest
        savedMbuf := some ⟨s.next, m.buf⟩
        throttled := true
        next := s.next + 1
        events := s.events ++ [.use m.ref, .acquire s.next] }
  | startClock {m : Mbuf} {rest : List Mbuf} {time : Int} (hpc : s.pc = .startClock m rest) :
      Move ck s (.now time) { s with pc := .free m rest, startTime := time }
  | free {m : Mbuf} {rest : List Mbuf} (hpc : s.pc = .free m rest) :
      Move ck s .main { s with pc := .packet rest, events := s.events ++ [.release m.ref] }
  | wait {time : Int} (hpc : s.pc = .endClock) :
      Move ck s (.now time) { s with pc := .loadRunning }
  | elapsed {time : Int} (hpc : s.pc = .endClock) :
      Move ck s (.now time) { s with pc := .sendRestore }
  | sendRestore {m : Mbuf} {accepted : Bool} (hpc : s.pc = .sendRestore)
      (hsaved : s.savedMbuf = some m) :
      Move ck s (.tx accepted) { s.send ck m 16384 accepted with
        pc := .freeSaved
        acks := s.acks ++ ((s.zeroAck.bind (fun z =>
          (windowUpdate ck 16384 (s.mem m.buf)).map (fun r => (z, r)))).toList) }
  | freeSaved {m : Mbuf} (hpc : s.pc = .freeSaved) (hsaved : s.savedMbuf = some m) :
      Move ck s .main { s with
        pc := .loadRunning
        throttled := false
        pktCount := 0
        events := s.events ++ [.release m.ref] }

section Steps

variable {ck : Cksum} {s s' : State} {a : Act}

theorem move_packet {bufs : List Mbuf} (hpc : s.pc = .packet bufs) :
    Move ck s .main (nextPacket s bufs) := by
  cases bufs with
  | nil =>
    cases hthrottled : s.throttled with
    | false => simpa [nextPacket, hthrottled] using Move.done hpc hthrottled
    | true => simpa [nextPacket, hthrottled] using Move.doneThrottled hpc hthrottled
  | cons m rest =>
    cases hthrottled : s.throttled with
    | false =>
      rw [nextPacket, if_neg (by simp [hthrottled])]
      by_cases hfive : s.pktCount + 1 ≥ 5
      · rw [if_pos hfive]
        exact .fifth hpc hthrottled
      · rw [if_neg hfive]
        exact .count hpc hthrottled
    | true => simpa [nextPacket, hthrottled] using Move.skip hpc hthrottled

theorem move_of_step (h : step ck s a = some s') : Move ck s a s' := by
  cases a with
  | signal =>
    simp only [step, Option.some_inj] at h
    subst h
    exact .signal
  | main =>
    cases hpc : s.pc with
    | loadRunning =>
      simp only [step, hpc, Option.some_inj] at h
      subst h
      cases hrun : s.keepRunning with
      | false => simpa [hrun] using Move.leave hpc hrun
      | true => simpa [hrun] using Move.loop hpc hrun
    | packet bufs =>
      simp only [step, hpc, Option.some_inj] at h
      subst h
      exact move_packet hpc
    | clone m rest =>
      simp only [step, hpc, Option.some_inj] at h
      subst h
      exact .clone hpc
    | free m rest =>
      simp only [step, hpc, Option.some_inj] at h
      subst h
      exact .free hpc
    | freeSaved =>
      cases hsaved : s.savedMbuf with
      | none => simp [step, hpc, hsaved] at h
      | some m =>
        simp only [step, hpc, hsaved, Option.some_inj] at h
        subst h
        simpa [hsaved] using Move.freeSaved hpc hsaved
    | _ => simp [step, hpc] at h
  | rx frames =>
    cases hpc : s.pc with
    | rxBurst =>
      simp only [step, hpc, Option.ite_none_right_eq_some, Option.some_inj] at h
      obtain ⟨hlen, rfl⟩ := h
      exact .rx hpc hlen
    | _ => simp [step, hpc] at h
  | tx accepted =>
    cases hpc : s.pc with
    | sendZero m rest =>
      simp only [step, hpc, Option.some_inj] at h
      subst h
      exact .sendZero hpc
    | sendRestore =>
      cases hsaved : s.savedMbuf with
      | none => simp [step, hpc, hsaved] at h
      | some m =>
        simp only [step, hpc, hsaved, Option.some_inj] at h
        subst h
        exact .sendRestore hpc hsaved
    | _ => simp [step, hpc] at h
  | now time =>
    cases hpc : s.pc with
    | startClock m rest =>
      simp only [step, hpc, Option.some_inj] at h
      subst h
      exact .startClock hpc
    | endClock =>
      simp only [step, hpc, Option.some_inj] at h
      subst h
      by_cases hsec : seconds (time - s.startTime) ≥ 60
      · rw [if_pos hsec]
        exact .elapsed hpc
      · rw [if_neg hsec]
        exact .wait hpc
    | _ => simp [step, hpc] at h

section Send

variable (ck : Cksum) (s : State) (m : Mbuf) (windowVal : UInt16) (accepted : Bool)

@[simp] theorem send_throttled : (s.send ck m windowVal accepted).throttled = s.throttled := by
  rw [State.send]
  split <;> rfl

@[simp] theorem send_savedMbuf : (s.send ck m windowVal accepted).savedMbuf = s.savedMbuf := by
  rw [State.send]
  split <;> rfl

@[simp] theorem send_next : (s.send ck m windowVal accepted).next = s.next := by
  rw [State.send]
  split <;> rfl

@[simp] theorem send_acks : (s.send ck m windowVal accepted).acks = s.acks := by
  rw [State.send]
  split <;> rfl

/-- The driver releases a TCP packet that it accepts. -/
theorem send_events : (s.send ck m windowVal accepted).events =
    s.events ++ [.use m.ref] ++
      if accepted && isTcp (s.mem m.buf) then [.release m.ref] else [] := by
  cases htcp : isTcp (s.mem m.buf) with
  | false => simp [State.send, windowUpdate, htcp]
  | true => simp [State.send, windowUpdate, htcp]

theorem send_mem : (s.send ck m windowVal accepted).mem =
    Function.update s.mem m.buf
      ((windowUpdate ck windowVal (s.mem m.buf)).getD (s.mem m.buf)) := by
  rw [State.send]
  cases windowUpdate ck windowVal (s.mem m.buf) with
  | none => simp
  | some b => simp

end Send

end Steps

/-- The mbufs of the burst that have not been freed. -/
def Pc.bufs : Pc → List Mbuf
  | .packet bufs => bufs
  | .sendZero m rest | .clone m rest | .startClock m rest | .free m rest => m :: rest
  | .loadRunning | .rxBurst | .endClock | .sendRestore | .freeSaved | .exited => []

/-- The references of the loop: those, and the clone that is kept. -/
def State.refs (s : State) : List Nat :=
  s.pc.bufs.map (·.ref) ++ if s.throttled then s.savedMbuf.toList.map (·.ref) else []

/-- Whether there is a clone, at the calls where that is known. -/
def State.Fits (s : State) : Prop :=
  match s.pc with
  | .sendZero _ _ | .clone _ _ | .exited => s.throttled = false
  | .startClock _ _ | .endClock | .sendRestore | .freeSaved => s.throttled = true
  | .loadRunning | .rxBurst | .packet _ | .free _ _ => True

/-- The references of the loop are those that have been acquired and not released. -/
structure Good (s : State) : Prop where
  held : hold s.events = some s.refs.toFinset
  nodup : s.refs.Nodup
  fresh : ∀ r ∈ s.refs, r < s.next
  fits : s.Fits
  saved : s.throttled = true → ∃ m, s.savedMbuf = some m

/-- No accepted TCP packet, and no clone left behind. -/
def kept (s : State) (a : Act) : Bool :=
  match s.pc, a with
  | .sendZero m _, .tx true => !isTcp (s.mem m.buf)
  | .sendRestore, .tx true => s.savedMbuf.all (fun m => !isTcp (s.mem m.buf))
  | .loadRunning, .main => s.keepRunning || !s.throttled
  | _, _ => true

section Ownership

variable {ck : Cksum} {s s' : State} {a : Act}

theorem start_good (startTime : Int) : Good (.start startTime) where
  held := rfl
  nodup := List.nodup_nil
  fresh := fun r hr => absurd hr List.not_mem_nil
  fits := trivial
  saved := fun h => absurd h (by simp [State.start])

/-- A step that leaves the references and their record alone. -/
theorem Good.congr (hs : Good s) (hevents : s'.events = s.events) (hrefs : s'.refs = s.refs)
    (hnext : s'.next = s.next) (hthrottled : s'.throttled = s.throttled)
    (hsaved : s'.savedMbuf = s.savedMbuf) (hfits : s'.Fits) : Good s' where
  held := by rw [hevents, hrefs, hs.held]
  nodup := by rw [hrefs]; exact hs.nodup
  fresh := by rw [hrefs, hnext]; exact hs.fresh
  fits := hfits
  saved := by rw [hthrottled, hsaved]; exact hs.saved

/-- There is a clone from the start of the pause to its end. -/
theorem Good.throttled (hs : Good s)
    (hpc : s.pc = .endClock ∨ s.pc = .sendRestore ∨ s.pc = .freeSaved) : s.throttled = true := by
  have hfits := hs.fits
  rcases hpc with hpc | hpc | hpc
  · simpa [State.Fits, hpc] using hfits
  · simpa [State.Fits, hpc] using hfits
  · simpa [State.Fits, hpc] using hfits

/-- There is none yet when the window is closed. -/
theorem Good.not_throttled (hs : Good s) {m : Mbuf} {rest : List Mbuf}
    (hpc : s.pc = .sendZero m rest ∨ s.pc = .clone m rest) : s.throttled = false := by
  have hfits := hs.fits
  rcases hpc with hpc | hpc
  · simpa [State.Fits, hpc] using hfits
  · simpa [State.Fits, hpc] using hfits

/-- A use of a reference that the loop has. -/
theorem Good.use (hs : Good s) {r : Nat} (hr : r ∈ s.refs)
    (hevents : s'.events = s.events ++ [.use r]) (hrefs : s'.refs = s.refs)
    (hnext : s'.next = s.next) (hthrottled : s'.throttled = s.throttled)
    (hsaved : s'.savedMbuf = s.savedMbuf) (hfits : s'.Fits) : Good s' where
  held := by
    rw [hevents, hrefs]
    exact hold_use hs.held (List.mem_toFinset.mpr hr)
  nodup := by rw [hrefs]; exact hs.nodup
  fresh := by rw [hrefs, hnext]; exact hs.fresh
  fits := hfits
  saved := by rw [hthrottled, hsaved]; exact hs.saved

/-- The release of the first reference. -/
theorem Good.release (hs : Good s) {r : Nat} {rs : List Nat} (hrefs : s.refs = r :: rs)
    (hevents : s'.events = s.events ++ [.release r]) (hrefs' : s'.refs = rs)
    (hnext : s'.next = s.next) (hfits : s'.Fits)
    (hsaved : s'.throttled = true → ∃ m, s'.savedMbuf = some m) : Good s' := by
  have hnodup := hs.nodup
  have hfresh := hs.fresh
  have hheld := hs.held
  rw [hrefs] at hnodup hfresh hheld
  obtain ⟨hr, hrs⟩ := List.nodup_cons.mp hnodup
  constructor
  · rw [hevents, hrefs', hold_release hheld (List.mem_toFinset.mpr List.mem_cons_self),
      List.toFinset_cons, Finset.erase_insert (by rwa [List.mem_toFinset])]
  · rw [hrefs']
    exact hrs
  · rw [hrefs', hnext]
    exact fun x hx => hfresh x (List.mem_cons_of_mem r hx)
  · exact hfits
  · exact hsaved

theorem newMbufs_refs (next n : Nat) :
    (newMbufs next n).map (·.ref) = (List.range n).map (next + ·) := by
  rw [newMbufs, List.map_map]
  rfl

theorem good_rx (hs : Good s) {frames : List Buffer} (hpc : s.pc = .rxBurst)
    (hpc' : s'.pc = .packet (newMbufs s.next frames.length))
    (hevents : s'.events =
      s.events ++ (newMbufs s.next frames.length).map (fun m => .acquire m.ref))
    (hnext : s'.next = s.next + frames.length) (hthrottled : s'.throttled = s.throttled)
    (hsaved : s'.savedMbuf = s.savedMbuf) : Good s' := by
  have hrefs : s'.refs = (List.range frames.length).map (s.next + ·) ++ s.refs := by
    simp only [State.refs, hpc, hpc', hthrottled, hsaved, Pc.bufs, newMbufs_refs, List.map_nil,
      List.nil_append]
  have hnew : ∀ r ∈ (List.range frames.length).map (s.next + ·), r ∉ s.refs := by
    intro r hr hr'
    obtain ⟨k, -, rfl⟩ := List.mem_map.mp hr
    have hlt := hs.fresh _ hr'
    omega
  have hnodup : ((List.range frames.length).map (s.next + ·)).Nodup :=
    List.nodup_range.map (fun j k hjk => Nat.add_left_cancel hjk)
  constructor
  · have hacquires : (newMbufs s.next frames.length).map (fun m => Event.acquire m.ref) =
        ((List.range frames.length).map (s.next + ·)).map .acquire := by
      rw [← newMbufs_refs, List.map_map]
      rfl
    rw [hevents, hacquires, hrefs,
      hold_acquires hs.held (fun r hr hr' => hnew r hr (List.mem_toFinset.mp hr')) hnodup,
      List.toFinset_append, Finset.union_comm]
  · rw [hrefs]
    exact List.nodup_append'.mpr ⟨hnodup, hs.nodup, fun r hr hr' => hnew r hr hr'⟩
  · rw [hrefs, hnext]
    intro r hr
    rcases List.mem_append.mp hr with hr | hr
    · obtain ⟨k, hk, rfl⟩ := List.mem_map.mp hr
      rw [List.mem_range] at hk
      omega
    · exact Nat.lt_add_right _ (hs.fresh r hr)
  · simp [State.Fits, hpc']
  · rw [hthrottled, hsaved]
    exact hs.saved

theorem good_clone (hs : Good s) {m : Mbuf} {rest : List Mbuf} (hpc : s.pc = .clone m rest)
    (hpc' : s'.pc = .startClock m rest) (hsaved : s'.savedMbuf = some ⟨s.next, m.buf⟩)
    (hthrottled : s'.throttled = true) (hnext : s'.next = s.next + 1)
    (hevents : s'.events = s.events ++ [.use m.ref, .acquire s.next]) : Good s' := by
  have hnone : s.throttled = false := hs.not_throttled (.inr hpc)
  have hrefs : s.refs = (m :: rest).map (·.ref) := by simp [State.refs, hpc, hnone, Pc.bufs]
  have hrefs' : s'.refs = s.refs ++ [s.next] := by
    rw [hrefs]
    simp [State.refs, hpc', hthrottled, hsaved, Pc.bufs]
  have hm : m.ref ∈ s.refs := by rw [hrefs]; exact List.mem_cons_self
  have hnew : s.next ∉ s.refs := fun h => Nat.lt_irrefl _ (hs.fresh _ h)
  constructor
  · have huse := hold_use hs.held (List.mem_toFinset.mpr hm)
    have hacquire := hold_acquire huse (fun h => hnew (List.mem_toFinset.mp h))
    rw [List.append_assoc] at hacquire
    rw [hevents, hrefs']
    simp only [List.toFinset_append]
    rw [show [Event.use m.ref, .acquire s.next] = [.use m.ref] ++ [.acquire s.next] from rfl, hacquire]
    simp
  · rw [hrefs']
    exact hs.nodup.append (List.nodup_singleton _)
      (fun r hr hr' => hnew ((List.mem_singleton.mp hr') ▸ hr))
  · rw [hrefs', hnext]
    intro r hr
    rcases List.mem_append.mp hr with hr | hr
    · exact Nat.lt_succ_of_lt (hs.fresh r hr)
    · rw [List.mem_singleton.mp hr]
      exact Nat.lt_succ_self _
  · simpa [State.Fits, hpc'] using hthrottled
  · exact fun _ => ⟨_, hsaved⟩

theorem good_step (hs : Good s) (hkept : kept s a = true) (h : step ck s a = some s') : Good s' := by
  cases move_of_step h with
  | signal => exact hs.congr rfl rfl rfl rfl rfl hs.fits
  | loop hpc hrun => exact hs.congr rfl (by simp [State.refs, hpc, Pc.bufs]) rfl rfl rfl trivial
  | leave hpc hrun =>
    have hthrottled : s.throttled = false := by
      simpa [kept, hpc, hrun] using hkept
    exact hs.congr rfl (by simp [State.refs, hpc, Pc.bufs]) rfl rfl rfl hthrottled
  | rx hpc hlen => exact good_rx hs hpc rfl rfl rfl rfl rfl
  | done hpc hthrottled => exact hs.congr rfl (by simp [State.refs, hpc, Pc.bufs]) rfl rfl rfl trivial
  | doneThrottled hpc hthrottled =>
    exact hs.congr rfl (by simp [State.refs, hpc, Pc.bufs]) rfl rfl rfl hthrottled
  | skip hpc hthrottled => exact hs.congr rfl (by simp [State.refs, hpc, Pc.bufs]) rfl rfl rfl trivial
  | count hpc hthrottled => exact hs.congr rfl (by simp [State.refs, hpc, Pc.bufs]) rfl rfl rfl trivial
  | fifth hpc hthrottled =>
    exact hs.congr rfl (by simp [State.refs, hpc, Pc.bufs]) rfl rfl rfl hthrottled
  | sendZero hpc =>
    rename_i m rest accepted
    have hthrottled : s.throttled = false := hs.not_throttled (.inl hpc)
    have hquiet : (accepted && isTcp (s.mem m.buf)) = false := by
      cases accepted with
      | false => rfl
      | true => simpa [kept, hpc] using hkept
    refine hs.use (r := m.ref) ?_ ?_ ?_ (by simp) (by simp) (by simp) ?_
    · simp [State.refs, hpc, Pc.bufs]
    · simp [send_events, hquiet]
    · simp [State.refs, hpc, Pc.bufs]
    · simpa [State.Fits] using hthrottled
  | clone hpc => exact good_clone hs hpc rfl rfl rfl rfl rfl
  | startClock hpc => exact hs.congr rfl (by simp [State.refs, hpc, Pc.bufs]) rfl rfl rfl trivial
  | free hpc =>
    refine hs.release ?_ rfl rfl rfl trivial hs.saved
    simp [State.refs, hpc, Pc.bufs]
  | wait hpc => exact hs.congr rfl (by simp [State.refs, hpc, Pc.bufs]) rfl rfl rfl trivial
  | elapsed hpc =>
    have hthrottled : s.throttled = true := hs.throttled (.inl hpc)
    exact hs.congr rfl (by simp [State.refs, hpc, Pc.bufs]) rfl rfl rfl hthrottled
  | sendRestore hpc hsaved =>
    rename_i m accepted
    have hthrottled : s.throttled = true := hs.throttled (.inr (.inl hpc))
    have hquiet : (accepted && isTcp (s.mem m.buf)) = false := by
      cases accepted with
      | false => rfl
      | true => simpa [kept, hpc, hsaved] using hkept
    refine hs.use (r := m.ref) ?_ ?_ ?_ (by simp) (by simp) (by simp) ?_
    · simp [State.refs, hthrottled, hsaved]
    · simp [send_events, hquiet]
    · simp [State.refs, hpc, Pc.bufs]
    · simpa [State.Fits] using hthrottled
  | freeSaved hpc hsaved =>
    have hthrottled : s.throttled = true := hs.throttled (.inr (.inr hpc))
    refine hs.release ?_ rfl rfl rfl trivial (fun h => absurd h (by simp))
    simp [State.refs, hpc, hthrottled, hsaved, Pc.bufs]

/-- A defect that the loop does not repair. -/
inductive Spoiled (s : State) : Prop where
  | misuse (h : hold s.events = none)
  | zeroAccepted {m : Mbuf} {rest : List Mbuf} {held : Finset Nat} (hpc : s.pc = .clone m rest)
      (h : hold s.events = some held) (hm : m.ref ∉ held)
  | restoreAccepted {m : Mbuf} {held : Finset Nat} (hpc : s.pc = .freeSaved)
      (hsaved : s.savedMbuf = some m) (h : hold s.events = some held) (hm : m.ref ∉ held)
  | cloneKept {r : Nat} {held : Finset Nat} (hpc : s.pc = .exited)
      (h : hold s.events = some held) (hr : r ∈ held)

theorem move_events (h : step ck s a = some s') : ∃ es, s'.events = s.events ++ es := by
  cases move_of_step h with
  | rx hpc hlen => exact ⟨_, rfl⟩
  | sendZero hpc => exact ⟨_, by rw [send_events, List.append_assoc]⟩
  | clone hpc => exact ⟨_, rfl⟩
  | free hpc => exact ⟨_, rfl⟩
  | sendRestore hpc hsaved => exact ⟨_, by rw [send_events, List.append_assoc]⟩
  | freeSaved hpc hsaved => exact ⟨_, rfl⟩
  | _ => exact ⟨[], by simp⟩

/-- What was released in front of its use is used, and what was released in front of its
release is released again. -/
theorem spoiled_step (hs : Spoiled s) (h : step ck s a = some s') : Spoiled s' := by
  cases hs with
  | misuse hnone =>
    obtain ⟨es, hes⟩ := move_events h
    exact .misuse (by rw [hes, hold_append_none hnone])
  | zeroAccepted hpc hheld hm =>
    rename_i m rest held
    cases a with
    | main =>
      simp only [step, hpc, Option.some_inj] at h
      subst h
      apply Spoiled.misuse
      calc hold (s.events ++ [.use m.ref, .acquire s.next])
          = hold (s.events ++ [.use m.ref] ++ [.acquire s.next]) := by simp
        _ = none := hold_append_none (hold_use_none hheld hm)
    | signal =>
      simp only [step, Option.some_inj] at h
      subst h
      exact .zeroAccepted hpc hheld hm
    | _ => simp [step, hpc] at h
  | restoreAccepted hpc hsaved hheld hm =>
    cases a with
    | main =>
      simp only [step, hpc, hsaved, Option.some_inj] at h
      subst h
      exact .misuse (hold_release_none hheld hm)
    | signal =>
      simp only [step, Option.some_inj] at h
      subst h
      exact .restoreAccepted hpc hsaved hheld hm
    | _ => simp [step, hpc] at h
  | cloneKept hpc hheld hr =>
    cases a with
    | signal =>
      simp only [step, Option.some_inj] at h
      subst h
      exact .cloneKept hpc hheld hr
    | _ => simp [step, hpc] at h

theorem spoil_step (hs : Good s) (hkept : ¬ kept s a = true) (h : step ck s a = some s') :
    Spoiled s' := by
  cases move_of_step h with
  | sendZero hpc =>
    rename_i m rest accepted
    have htaken : (accepted && isTcp (s.mem m.buf)) = true := by
      cases accepted with
      | false => simp [kept, hpc] at hkept
      | true => simpa [kept, hpc] using hkept
    have hm : m.ref ∈ s.refs.toFinset := by simp [State.refs, hpc, Pc.bufs]
    refine .zeroAccepted rfl ?_ (Finset.notMem_erase m.ref s.refs.toFinset)
    rw [send_events, if_pos htaken]
    exact hold_release (hold_use hs.held hm) hm
  | sendRestore hpc hsaved =>
    rename_i m accepted
    have hthrottled : s.throttled = true := hs.throttled (.inr (.inl hpc))
    have htaken : (accepted && isTcp (s.mem m.buf)) = true := by
      cases accepted with
      | false => simp [kept, hpc] at hkept
      | true => simpa [kept, hpc, hsaved] using hkept
    have hm : m.ref ∈ s.refs.toFinset := by simp [State.refs, hthrottled, hsaved]
    refine .restoreAccepted rfl (by simpa using hsaved) ?_ (Finset.notMem_erase m.ref s.refs.toFinset)
    rw [send_events, if_pos htaken]
    exact hold_release (hold_use hs.held hm) hm
  | leave hpc hrun =>
    have hthrottled : s.throttled = true := by simpa [kept, hpc, hrun] using hkept
    obtain ⟨m, hsaved⟩ := hs.saved hthrottled
    exact .cloneKept rfl hs.held (r := m.ref) (by simp [State.refs, hthrottled, hsaved])
  | loop hpc hrun => exact absurd (by simp [kept, hpc, hrun]) hkept
  | signal => exact absurd (by simp [kept]) hkept
  | rx hpc => exact absurd (by simp [kept, hpc]) hkept
  | startClock hpc => exact absurd (by simp [kept, hpc]) hkept
  | _ hpc => exact absurd (by simp [kept, hpc]) hkept

end Ownership

/-- Every mbuf has been released once and not used afterwards, but for the clone that is kept
for the end of the pause. -/
def Released (s : State) : Prop :=
  ∃ held, hold s.events = some held ∧
    (s.pc = .loadRunning →
      held = if s.throttled then (s.savedMbuf.toList.map (·.ref)).toFinset else ∅) ∧
    (s.pc = .exited → held = ∅)

section Runs

variable {ck : Cksum} {s : State} {as : List Act} {startTime : Int}

theorem Good.released (hs : Good s) : Released s := by
  refine ⟨_, hs.held, ?_, ?_⟩
  · intro hpc
    cases hthrottled : s.throttled with
    | false => simp [State.refs, hpc, hthrottled, Pc.bufs]
    | true => simp [State.refs, hpc, hthrottled, Pc.bufs]
  · intro hpc
    have hthrottled : s.throttled = false := by
      have hfits := hs.fits
      simpa [State.Fits, hpc] using hfits
    simp [State.refs, hpc, hthrottled, Pc.bufs]

theorem Released.not_spoiled (hs : Released s) (hpc : s.pc = .loadRunning ∨ s.pc = .exited) :
    ¬ Spoiled s := by
  obtain ⟨held, hheld, -, hempty⟩ := hs
  intro hspoiled
  cases hspoiled with
  | misuse h =>
    rw [hheld] at h
    cases h
  | zeroAccepted hpc' => simp [hpc'] at hpc
  | restoreAccepted hpc' => simp [hpc'] at hpc
  | cloneKept hpc' h hr =>
    rw [hheld, Option.some_inj] at h
    subst h
    rw [hempty hpc'] at hr
    exact absurd hr (Finset.notMem_empty _)

theorem released_of_meets (hr : run (step ck) (.start startTime) as = some s)
    (hmeets : Meets (step ck) (fun s a => kept s a) (.start startTime) as) : Released s :=
  (meets_invariant (fun _ _ _ hs hkept h => good_step hs hkept h) (start_good startTime) hmeets
    hr).released

/-- Every mbuf is released exactly once exactly if no TCP packet is accepted and no clone is left
behind. -/
theorem throttle_releases_iff (ck : Cksum) (startTime : Int) (as : List Act) (s : State)
    (hr : run (step ck) (.start startTime) as = some s) :
    (Meets (step ck) (fun s a => kept s a) (.start startTime) as → Released s) ∧
      (s.pc = .loadRunning ∨ s.pc = .exited →
        (Released s ↔ Meets (step ck) (fun s a => kept s a) (.start startTime) as)) := by
  refine ⟨released_of_meets hr, fun hpc => ⟨?_, released_of_meets hr⟩⟩
  intro hs
  exact meets_of_good (fun _ _ _ hs hkept h => good_step hs hkept h)
    (fun _ _ _ hs hkept h => spoil_step hs hkept h) (fun _ _ _ hs h => spoiled_step hs h)
    (start_good startTime) hr (hs.not_spoiled hpc)

end Runs

/-- A TCP packet between two hosts of a network, and their ports of the same numbers. -/
def tcpFrame (src dst : UInt8) : Buffer := fun k =>
  ([2, 0, 0, 0, 0, dst, 2, 0, 0, 0, 0, src, 0x08, 0x00,
    0x45, 0, 0, 40, 0, 1, 0, 0, 64, 6, 0, 0, 192, 168, 10, src, 192, 168, 10, dst,
    0x1f, src, 0x1f, dst, 0, 0, 0, 7, 0, 0, 0, 9, 0x50, 0x10, 0x20, 0, 0, 0, 0, 0] : List UInt8)[k]?.getD 0

/-- Five such packets in one burst, and the pause after the fifth. -/
def pause (frame : Buffer) (zeroAccepted restoreAccepted : Bool) : List Act :=
  [.main, .rx (List.replicate 5 frame)] ++ List.replicate 9 .main ++
    [.tx zeroAccepted, .main, .now 0, .main, .main, .now 60000000000, .tx restoreAccepted, .main]

/-- The fifth packet is accepted, and freed. -/
theorem throttle_releases_twice :
    ¬ ∀ as s, run (step rteCksum) (.start 0) as = some s → Released s := by
  have hrun : (run (step rteCksum) (.start 0) (pause (tcpFrame 1 2) true false)).map
      (fun s => hold s.events) = some none := by decide
  obtain ⟨s, hs, hnone⟩ := Option.map_eq_some_iff.mp hrun
  intro hall
  obtain ⟨held, hheld, -⟩ := hall _ s hs
  rw [hnone] at hheld
  cases hheld

/-- Nothing is accepted, and the loop is left after the pause. -/
theorem throttle_releases_refused :
    ∃ s, run (step rteCksum) (.start 0) (pause (tcpFrame 1 2) false false ++ [.signal, .main]) =
        some s ∧ s.pc = .exited ∧ Released s := by
  have hrun : (run (step rteCksum) (.start 0)
      (pause (tcpFrame 1 2) false false ++ [.signal, .main])).map (fun s => s.pc) =
        some .exited := by decide
  obtain ⟨s, hs, hpc⟩ := Option.map_eq_some_iff.mp hrun
  exact ⟨s, hs, hpc, (throttle_releases_iff rteCksum 0 _ s hs).1 (by decide)⟩

/-- The buffer holds the packet that closed the window, or one that is not TCP. -/
def State.Captured (s : State) (m : Mbuf) : Prop :=
  match s.zeroAck with
  | none => isTcp (s.mem m.buf) = false
  | some z => s.mem m.buf = z

/-- What the clone is a clone of, until it is sent. -/
structure Shares (s : State) : Prop where
  bufs : ∀ m ∈ s.pc.bufs, m.buf < s.next
  sending : ∀ m rest, s.pc = .sendZero m rest ∨ s.pc = .clone m rest → s.throttled = false
  captured : ∀ m rest, s.pc = .clone m rest → s.Captured m
  saved : s.throttled = true → s.pc ≠ .freeSaved → ∀ m, s.savedMbuf = some m →
    m.buf < s.next ∧ s.Captured m
  restoring : s.pc = .endClock ∨ s.pc = .sendRestore → s.throttled = true

/-- Every packet that restores a window has the ends of the one that closed it. -/
def RestoresSame (s : State) : Prop :=
  ∀ p ∈ s.acks, 5 ≤ ihl p.1 → endpoints p.2 = endpoints p.1

instance Endpoints.Same.decidable (e : Endpoints) : Decidable e.Same :=
  inferInstanceAs (Decidable (_ ∧ _ ∧ _))

/-- A packet that is sent again has one end. -/
def oneEnd (s : State) (a : Act) : Bool :=
  match s.pc, a with
  | .sendRestore, .tx _ => s.savedMbuf.all (fun m =>
      !isTcp (s.mem m.buf) || ihl (s.mem m.buf) < 5 || (endpoints (s.mem m.buf)).Same)
  | _, _ => true

section Restore

variable {ck : Cksum} {s s' : State} {a : Act}

theorem start_shares (startTime : Int) : Shares (.start startTime) where
  bufs := fun m hm => absurd hm List.not_mem_nil
  sending := fun m rest h => by simp [State.start] at h
  captured := fun m rest h => by simp [State.start] at h
  saved := fun h => by simp [State.start] at h
  restoring := fun h => by simp [State.start] at h

theorem captured_congr {m : Mbuf} (hmem : s'.mem m.buf = s.mem m.buf)
    (hzero : s'.zeroAck = s.zeroAck) (h : s.Captured m) : s'.Captured m := by
  simpa only [State.Captured, hzero, hmem] using h

/-- A step that does not touch the buffers. -/
theorem Shares.congr (hs : Shares s) (hbufs : ∀ m ∈ s'.pc.bufs, m ∈ s.pc.bufs)
    (hnext : s'.next = s.next) (hmem : s'.mem = s.mem) (hzero : s'.zeroAck = s.zeroAck)
    (hthrottled : s'.throttled = s.throttled) (hsaved : s'.savedMbuf = s.savedMbuf)
    (hsending : ∀ m rest, s'.pc = .sendZero m rest ∨ s'.pc = .clone m rest → s.throttled = false)
    (hclone : ∀ m rest, s'.pc = .clone m rest → s.pc = .clone m rest)
    (hpc : s.pc = .freeSaved → s'.pc = .freeSaved)
    (hrestoring : s'.pc = .endClock ∨ s'.pc = .sendRestore → s.throttled = true) : Shares s' where
  bufs := by
    rw [hnext]
    exact fun m hm => hs.bufs m (hbufs m hm)
  sending := by
    rw [hthrottled]
    exact hsending
  captured := by
    intro m rest h
    exact captured_congr (congrFun hmem m.buf) hzero (hs.captured m rest (hclone m rest h))
  saved := by
    rw [hthrottled, hsaved, hnext]
    intro ht hne m hm
    obtain ⟨hlt, hcaptured⟩ := hs.saved ht (fun h => hne (hpc h)) m hm
    exact ⟨hlt, captured_congr (congrFun hmem m.buf) hzero hcaptured⟩
  restoring := by
    rw [hthrottled]
    exact hrestoring

/-- The answer to a packet is what its buffer holds from then on. -/
theorem captured_sendZero {m : Mbuf} {rest : List Mbuf} {accepted : Bool} :
    State.Captured { s.send ck m 0 accepted with
      pc := .clone m rest
      zeroAck := windowUpdate ck 0 (s.mem m.buf) } m := by
  simp only [State.Captured, send_mem, Function.update_self]
  cases hzero : windowUpdate ck 0 (s.mem m.buf) with
  | none => simpa [windowUpdate] using hzero
  | some z => rfl

theorem mem_rx {frames : List Buffer} {k : Nat} (hk : k < s.next) :
    (if s.next ≤ k then frames[k - s.next]?.getD (s.mem k) else s.mem k) = s.mem k := by
  rw [if_neg (by omega)]

/-- New packets come in new buffers. -/
theorem Shares.rx (hs : Shares s) {frames : List Buffer} (hpc : s.pc = .rxBurst) :
    Shares { s with
      pc := .packet (newMbufs s.next frames.length)
      next := s.next + frames.length
      mem := fun k => if s.next ≤ k then frames[k - s.next]?.getD (s.mem k) else s.mem k
      events := s.events ++ (newMbufs s.next frames.length).map (fun m => .acquire m.ref) } := by
  constructor
  · intro m hm
    obtain ⟨k, hk, rfl⟩ := List.mem_map.mp hm
    exact Nat.add_lt_add_left (List.mem_range.mp hk) s.next
  · simp
  · simp
  · intro hthrottled _ m hm
    obtain ⟨hlt, hcaptured⟩ := hs.saved hthrottled (by simp [hpc]) m hm
    exact ⟨Nat.lt_add_right _ hlt, captured_congr (mem_rx hlt) rfl hcaptured⟩
  · simp

theorem Shares.sendZero (hs : Shares s) {m : Mbuf} {rest : List Mbuf} {accepted : Bool}
    (hpc : s.pc = .sendZero m rest) :
    Shares { s.send ck m 0 accepted with
      pc := .clone m rest
      zeroAck := windowUpdate ck 0 (s.mem m.buf) } := by
  have hthrottled := hs.sending m rest (.inl hpc)
  constructor
  · intro x hx
    rw [send_next]
    exact hs.bufs x (by simpa [hpc, Pc.bufs] using hx)
  · simp [hthrottled]
  · intro x xs hx
    cases hx
    exact captured_sendZero
  · simp [hthrottled]
  · simp

theorem Shares.clone (hs : Shares s) {m : Mbuf} {rest : List Mbuf} (hpc : s.pc = .clone m rest) :
    Shares { s with
      pc := .startClock m rest
      savedMbuf := some ⟨s.next, m.buf⟩
      throttled := true
      next := s.next + 1
      events := s.events ++ [.use m.ref, .acquire s.next] } := by
  have hm := hs.bufs m (by simp [hpc, Pc.bufs])
  constructor
  · intro x hx
    exact Nat.lt_succ_of_lt (hs.bufs x (by simpa [hpc, Pc.bufs] using hx))
  · simp
  · simp
  · intro _ _ x hx
    cases hx
    exact ⟨Nat.lt_succ_of_lt hm, hs.captured m rest hpc⟩
  · simp

theorem shares_step (hs : Shares s) (h : step ck s a = some s') : Shares s' := by
  cases move_of_step h with
  | signal =>
    exact hs.congr (fun _ hm => hm) rfl rfl rfl rfl rfl hs.sending (fun _ _ hpc => hpc)
      (fun hpc => hpc) hs.restoring
  | loop hpc hrun =>
    exact hs.congr (by simp [Pc.bufs]) rfl rfl rfl rfl rfl (by simp) (by simp) (by simp [hpc])
      (by simp)
  | leave hpc hrun =>
    exact hs.congr (by simp [Pc.bufs]) rfl rfl rfl rfl rfl (by simp) (by simp) (by simp [hpc])
      (by simp)
  | rx hpc hlen => exact hs.rx hpc
  | done hpc hthrottled =>
    exact hs.congr (by simp [Pc.bufs]) rfl rfl rfl rfl rfl (by simp) (by simp) (by simp [hpc])
      (by simp)
  | doneThrottled hpc hthrottled =>
    exact hs.congr (by simp [Pc.bufs]) rfl rfl rfl rfl rfl (by simp) (by simp) (by simp [hpc])
      (fun _ => hthrottled)
  | skip hpc hthrottled =>
    exact hs.congr (by simp [hpc, Pc.bufs]) rfl rfl rfl rfl rfl (by simp) (by simp) (by simp [hpc])
      (by simp)
  | count hpc hthrottled =>
    exact hs.congr (by simp [hpc, Pc.bufs]) rfl rfl rfl rfl rfl (by simp) (by simp) (by simp [hpc])
      (by simp)
  | fifth hpc hthrottled =>
    exact hs.congr (by simp [hpc, Pc.bufs]) rfl rfl rfl rfl rfl (fun _ _ _ => hthrottled) (by simp)
      (by simp [hpc]) (by simp)
  | sendZero hpc => exact hs.sendZero hpc
  | clone hpc => exact hs.clone hpc
  | startClock hpc =>
    exact hs.congr (by simp [hpc, Pc.bufs]) rfl rfl rfl rfl rfl (by simp) (by simp) (by simp [hpc])
      (by simp)
  | free hpc =>
    refine hs.congr ?_ rfl rfl rfl rfl rfl (by simp) (by simp) (by simp [hpc]) (by simp)
    intro x hx
    rw [hpc]
    exact List.mem_cons_of_mem _ hx
  | wait hpc =>
    exact hs.congr (by simp [Pc.bufs]) rfl rfl rfl rfl rfl (by simp) (by simp) (by simp [hpc])
      (by simp)
  | elapsed hpc =>
    exact hs.congr (by simp [Pc.bufs]) rfl rfl rfl rfl rfl (by simp) (by simp) (by simp [hpc])
      (fun _ => hs.restoring (.inl hpc))
  | sendRestore hpc hsaved =>
    constructor
    · simp [Pc.bufs]
    · simp
    · simp
    · simp
    · simp
  | freeSaved hpc hsaved =>
    constructor
    · simp [Pc.bufs]
    · simp
    · simp
    · simp
    · simp

/-- A packet that restores the window is the one that closed it, sent once more. -/
theorem step_acks (hs : Shares s) (h : step ck s a = some s') :
    s'.acks = s.acks ∧ oneEnd s a = true ∨
    ∃ m z r accepted, s.pc = .sendRestore ∧ a = .tx accepted ∧ s.savedMbuf = some m ∧
      s.mem m.buf = z ∧ windowUpdate ck 16384 z = some r ∧ s'.acks = s.acks ++ [(z, r)] := by
  cases move_of_step h with
  | sendRestore hpc hsaved =>
    rename_i m accepted
    obtain ⟨-, hcaptured⟩ := hs.saved (hs.restoring (.inr hpc)) (by simp [hpc]) m hsaved
    cases hzero : s.zeroAck with
    | none =>
      simp only [State.Captured, hzero] at hcaptured
      exact .inl ⟨by simp, by simp [oneEnd, hpc, hsaved, hcaptured]⟩
    | some z =>
      simp only [State.Captured, hzero] at hcaptured
      cases hrestore : windowUpdate ck 16384 (s.mem m.buf) with
      | none =>
        have htcp : isTcp (s.mem m.buf) = false := by simpa [windowUpdate] using hrestore
        exact .inl ⟨by simp, by simp [oneEnd, hpc, hsaved, htcp]⟩
      | some r =>
        rw [hcaptured] at hrestore
        exact .inr ⟨m, z, r, accepted, hpc, rfl, hsaved, hcaptured, hrestore, by simp⟩
  | signal => exact .inl ⟨rfl, by simp [oneEnd]⟩
  | sendZero hpc => exact .inl ⟨by simp, by simp [oneEnd, hpc]⟩
  | _ hpc => exact .inl ⟨rfl, by simp [oneEnd, hpc]⟩

/-- Sent twice, a packet has turned round twice. -/
theorem restore_same_iff {z r : Buffer} (hihl : 5 ≤ ihl z)
    (h : windowUpdate ck 16384 z = some r) : endpoints r = endpoints z ↔ (endpoints z).Same := by
  rw [(windowUpdate_endpoints hihl h).2.2, Endpoints.swap_eq_iff]

theorem step_restoresSame (hs : Shares s) (hsame : RestoresSame s)
    (h : step ck s a = some s') : RestoresSame s' ↔ oneEnd s a = true := by
  rcases step_acks hs h with ⟨hacks, hone⟩ | ⟨m, z, r, accepted, hpc, rfl, hsaved, hmem, hr, hacks⟩
  · refine iff_of_true ?_ hone
    rw [RestoresSame, hacks]
    exact hsame
  · have htcp : isTcp z = true := (windowUpdate_some.mp hr).1
    have hone : oneEnd s (.tx accepted) = true ↔ (5 ≤ ihl z → (endpoints z).Same) := by
      simp only [oneEnd, hpc, hsaved, hmem, htcp, Option.all_some, Bool.not_true, Bool.false_or,
        Bool.or_eq_true, decide_eq_true_eq]
      rw [← Nat.not_le, ← imp_iff_not_or]
    have hlast : RestoresSame s' ↔ (5 ≤ ihl z → endpoints r = endpoints z) := by
      simp only [RestoresSame, hacks, List.forall_mem_append, List.forall_mem_singleton]
      exact and_iff_right hsame
    rw [hone, hlast]
    exact forall_congr' (fun hihl => restore_same_iff hihl hr)

theorem restoresSame_step_mono (h : step ck s a = some s') (hsame : RestoresSame s') :
    RestoresSame s := by
  have hsub : ∀ p ∈ s.acks, p ∈ s'.acks := by
    intro p hp
    cases move_of_step h with
    | sendRestore hpc hsaved => exact List.mem_append_left _ hp
    | sendZero hpc => simpa using hp
    | _ => exact hp
  exact fun p hp => hsame p (hsub p hp)

/-- The window is restored towards the peer it was closed for exactly if the packets that are
kept have one end. -/
theorem restore_reverses_iff (ck : Cksum) (startTime : Int) (as : List Act) (s : State)
    (hr : run (step ck) (.start startTime) as = some s) :
    RestoresSame s ↔ Meets (step ck) (fun s a => oneEnd s a) (.start startTime) as := by
  have hstart : RestoresSame (.start startTime) := fun p hp => absurd hp List.not_mem_nil
  constructor
  · intro hsame
    refine meets_of_unspoiled (I := Shares) (D := fun s => ¬ RestoresSame s)
      (fun _ _ _ hs h => shares_step hs h) ?_ ?_ (start_shares startTime) hr (not_not.mpr hsame)
    · intro t b t' ht h hone hsame'
      have hbefore := restoresSame_step_mono h hsame'
      exact hone ((step_restoresSame ht hbefore h).mp hsame')
    · exact fun t b t' _ hd h hsame' => hd (restoresSame_step_mono h hsame')
  · intro hmeets
    refine (meets_invariant (I := fun s => Shares s ∧ RestoresSame s) ?_
      ⟨start_shares startTime, hstart⟩ hmeets hr).2
    rintro t b t' ⟨hshares, hsame⟩ hone h
    exact ⟨shares_step hshares h, (step_restoresSame hshares hsame h).mpr hone⟩

instance RestoresSame.decidable (s : State) : Decidable (RestoresSame s) :=
  inferInstanceAs (Decidable (∀ p ∈ s.acks, 5 ≤ ihl p.1 → endpoints p.2 = endpoints p.1))

/-- Two hosts. -/
theorem restore_reverses_peers :
    ¬ ∀ as s, run (step rteCksum) (.start 0) as = some s → RestoresSame s := by
  have hrun : (run (step rteCksum) (.start 0) (pause (tcpFrame 1 2) true true)).map
      (fun s => decide (RestoresSame s)) = some false := by decide
  obtain ⟨s, hs, hother⟩ := Option.map_eq_some_iff.mp hrun
  intro hall
  exact of_decide_eq_false hother (hall _ s hs)

/-- A host that talks to itself. -/
theorem restore_reverses_self :
    ∃ s, run (step rteCksum) (.start 0) (pause (tcpFrame 1 1) true true) = some s ∧
      s.acks.length = 1 ∧ RestoresSame s := by
  have hrun : (run (step rteCksum) (.start 0) (pause (tcpFrame 1 1) true true)).map
      (fun s => s.acks.length) = some 1 := by decide
  obtain ⟨s, hs, hlen⟩ := Option.map_eq_some_iff.mp hrun
  exact ⟨s, hs, hlen, (restore_reverses_iff rteCksum 0 _ s hs).mpr (by decide)⟩

end Restore

end VirtioBench.Tap
