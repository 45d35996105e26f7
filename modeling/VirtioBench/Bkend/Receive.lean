import VirtioBench.Bkend.Message

/- How `process_vhost_msg` (code_dump/nonm/bkend.c) receives a message: `recvmsg` for the 12
   bytes of the header and the descriptors, then `read` for `vmsg.size` bytes of payload.
   `vmsg` is on the stack and starts with what was there; a call that delivers fewer
   bytes leaves the rest of it as it was.

   Both results are stored in `rc`, a `uint32_t`: the tests `rc < 0` are never true. A
   failed or short `read` is caught all the same, by `assert(rc == vmsg.size)`; a failed or
   short `recvmsg` is not.

   Correspondence (C ↔ Lean):
     `vmsg` before the call              ↔ `Stack`
     the results of `recvmsg` and `read` ↔ `RecvMsg`, `Read`
     `rc`                                ↔ `RecvMsg.rc`, `Read.rc`
     the receiving part                  ↔ `receive`
     `process_vhost_msg`                 ↔ `processVhostMsg`

   `whole_messages_iff` says in which sequences of calls only whole messages reach the
   switch; `stale_message_handled` is a failed `recvmsg` that does. -/
namespace VirtioBench.Bkend

def vhostUserHdrSize : Nat := 12

/-- `sizeof(vmsg.payload)`. -/
def payloadSize : UInt32 := 264

/-- What the stack holds where `vmsg` will be. -/
structure Stack where
  header : Nat → UInt8
  payload : Nat → UInt8
  fds : Nat → Int32

/-- The outcome of `recvmsg`: -1, or at most the 12 bytes and 8 descriptors there is room for. -/
inductive RecvMsg where
  | failed (errno : Int32)
  | got (bytes : List UInt8) (fds : List Int32) (hb : bytes.length ≤ vhostUserHdrSize)
      (hf : fds.length ≤ vhostMemoryMaxNregions)

/-- The outcome of `read`, which is never asked for more than the payload has room for. -/
inductive Read where
  | failed (errno : Int32)
  | got (bytes : List UInt8) (hb : bytes.length ≤ payloadSize.toNat)

/-- `(uint32_t)-1`. -/
def minusOne : UInt32 := 0xffffffff

namespace RecvMsg

def bytes : RecvMsg → List UInt8
  | .failed _ => []
  | .got bytes _ _ _ => bytes

def fds : RecvMsg → List Int32
  | .failed _ => []
  | .got _ fds _ _ => fds

def rc : RecvMsg → UInt32
  | .failed _ => minusOne
  | .got bytes _ _ _ => UInt32.ofNat bytes.length

/-- All of the header arrived. -/
def Whole (r : RecvMsg) : Prop := r.bytes.length = vhostUserHdrSize

/-- The other side has closed the connection. -/
def EndOfStream : RecvMsg → Prop
  | .failed _ => False
  | .got bytes _ _ _ => bytes = []

end RecvMsg

namespace Read

def bytes : Read → List UInt8
  | .failed _ => []
  | .got bytes _ => bytes

def rc : Read → UInt32
  | .failed _ => minusOne
  | .got bytes _ => UInt32.ofNat bytes.length

/-- All of the payload arrived. -/
def Whole (r : Read) (size : UInt32) : Prop :=
  match r with
  | .failed _ => False
  | .got bytes _ => bytes.length = size.toNat

end Read

/-- A buffer after the first bytes of it have been written. -/
def overlay {α : Type} (old : Nat → α) (new : List α) : Nat → α := fun k => new.getD k (old k)

def le32 (bytes : Nat → UInt8) (k : Nat) : UInt32 :=
  (bytes k).toUInt32 ||| ((bytes (k + 1)).toUInt32 <<< 8) |||
    ((bytes (k + 2)).toUInt32 <<< 16) ||| ((bytes (k + 3)).toUInt32 <<< 24)

/-- `vmsg` as its bytes say. -/
def VhMsg.ofBytes (header payload : Nat → UInt8) (fds : Nat → Int32) (nfds : Nat) : VhMsg where
  request := le32 header 0
  flags := le32 header 4
  size := le32 header 8
  payload := fun k => le32 payload (4 * k.val)
  fds := fun i => fds i.val
  nfds := nfds

/-- `vmsg` after `recvmsg`. -/
def Stack.afterRecv (st : Stack) (r : RecvMsg) : Stack :=
  { st with header := overlay st.header r.bytes, fds := overlay st.fds r.fds }

/-- `vmsg` after `read`. -/
def Stack.afterRead (st : Stack) (r : Read) : Stack :=
  { st with payload := overlay st.payload r.bytes }

/-- `vmsg.size`. -/
def Stack.size (st : Stack) : UInt32 := le32 st.header 8

def Stack.msg (st : Stack) (r : RecvMsg) : VhMsg :=
  .ofBytes st.header st.payload st.fds r.fds.length

def receive (st : Stack) (rm : RecvMsg) (rd : Read) : Except Exit VhMsg :=
  if rm.rc = 0 then .error .disconnected
  else if rm.rc < 0 then .error .negativeRc
  else
    let st := st.afterRecv rm
    if payloadSize < st.size then .error .tooBig
    else if st.size ≠ 0 then
      if rd.rc = 0 then .error .disconnected
      else if rd.rc < 0 then .error .negativeRc
      -- `assert(rc == vmsg.size)`
      else if rd.rc = st.size then .ok ((st.afterRead rd).msg rm)
      else .error .shortPayload
    else .ok (st.msg rm)

/-- One call: the stack, and what the system calls answer. -/
structure Round where
  stack : Stack
  recv : RecvMsg
  read : Read
  calls : Calls

def processVhostMsg (s : Server) (c : Round) : Except Exit Server := do
  let m ← receive c.stack c.recv c.read
  dispatch c.calls s m

def serve (s : Server) (c : Round) : Option Server := (processVhostMsg s c).toOption

/-! ## Whole messages -/

/-- The header and the payload arrived as far as the message goes. -/
def Round.Complete (c : Round) : Prop :=
  c.recv.Whole ∧ ((c.stack.afterRecv c.recv).size ≠ 0 →
    c.read.Whole (c.stack.afterRecv c.recv).size)

/-- Only a message received whole reaches the switch; on an error, the end of the stream or
a short count the process ends or the backend stays as it is. -/
def OnlyWhole (s : Server) (c : Round) : Prop :=
  (∀ m, receive c.stack c.recv c.read = .ok m →
    c.recv.Whole ∧ (m.size ≠ 0 → c.read.Whole m.size)) ∧
  (¬ c.Complete → (∃ e, processVhostMsg s c = .error e) ∨ processVhostMsg s c = .ok s)

/-- `recvmsg` delivers the header or the end of the stream; or else the size in `vmsg`, as far
as its bytes arrived and as they were on the stack from there on, is too large, or `read` does
not deliver that many bytes. -/
def RecvOk (_ : Server) (c : Round) : Prop :=
  c.recv.EndOfStream ∨ c.recv.Whole ∨ payloadSize < (c.stack.afterRecv c.recv).size ∨
    ((c.stack.afterRecv c.recv).size ≠ 0 ∧ ¬ c.read.Whole (c.stack.afterRecv c.recv).size)

section Whole
variable {s : Server} {c : Round} {m : VhMsg}

theorem recv_rc_eq_zero {r : RecvMsg} : r.rc = 0 ↔ r.EndOfStream := by
  cases r with
  | failed errno => exact iff_of_false (show minusOne ≠ 0 by decide) id
  | got bytes fds hb hf =>
    unfold vhostUserHdrSize at hb
    show UInt32.ofNat bytes.length = 0 ↔ bytes = []
    rw [← UInt32.toNat_inj, UInt32.toNat_ofNat', Nat.mod_eq_of_lt (by omega)]
    exact List.length_eq_zero_iff

theorem read_rc_eq {r : Read} {size : UInt32} (hsize : size ≤ payloadSize) :
    r.rc = size ↔ r.Whole size := by
  have hle : size.toNat ≤ 264 := hsize
  cases r with
  | failed errno =>
    refine iff_of_false ?_ id
    intro h
    have hnat : minusOne.toNat = size.toNat := congrArg UInt32.toNat h
    have hminus : minusOne.toNat = 4294967295 := rfl
    omega
  | got bytes hb =>
    have hlen : bytes.length ≤ 264 := hb
    show UInt32.ofNat bytes.length = size ↔ bytes.length = size.toNat
    rw [← UInt32.toNat_inj, UInt32.toNat_ofNat', Nat.mod_eq_of_lt (by omega)]

/-- What a message that reaches the switch has passed. -/
theorem receive_ok (h : receive c.stack c.recv c.read = .ok m) :
    ¬ c.recv.EndOfStream ∧ (c.stack.afterRecv c.recv).size ≤ payloadSize ∧
      ((c.stack.afterRecv c.recv).size ≠ 0 → c.read.Whole (c.stack.afterRecv c.recv).size) ∧
      m.size = (c.stack.afterRecv c.recv).size := by
  unfold receive at h
  split at h
  · cases h
  · next h0 =>
    rw [recv_rc_eq_zero] at h0
    split at h
    · cases h
    · dsimp only at h
      split at h
      · cases h
      · next hbig =>
        have hsize := UInt32.not_lt.mp hbig
        split at h
        · split at h
          · cases h
          · split at h
            · cases h
            · split at h
              · next hrc =>
                cases h
                exact ⟨h0, hsize, fun _ => (read_rc_eq hsize).mp hrc, rfl⟩
              · cases h
        · next hzero =>
          cases h
          exact ⟨h0, hsize, fun hne => absurd hne hzero, rfl⟩

/-- Nothing else is tested. -/
theorem receive_returns (h0 : ¬ c.recv.EndOfStream)
    (hsize : (c.stack.afterRecv c.recv).size ≤ payloadSize)
    (hw : (c.stack.afterRecv c.recv).size ≠ 0 →
      c.read.Whole (c.stack.afterRecv c.recv).size) :
    ∃ m, receive c.stack c.recv c.read = .ok m := by
  -- `rc < 0` is a comparison of unsigned numbers
  have hneg : ∀ x : UInt32, ¬ x < 0 := fun x => UInt32.not_lt_zero
  unfold receive
  rw [if_neg (mt recv_rc_eq_zero.mp h0), if_neg (hneg _)]
  dsimp only
  rw [if_neg (UInt32.not_lt.mpr hsize)]
  by_cases hzero : (c.stack.afterRecv c.recv).size = 0
  · rw [if_neg (not_not_intro hzero)]
    exact ⟨_, rfl⟩
  · have hrc := (read_rc_eq hsize).mpr (hw hzero)
    rw [if_pos hzero, if_neg (by rw [hrc]; exact hzero), if_neg (hneg _), if_pos hrc]
    exact ⟨_, rfl⟩

theorem onlyWhole_iff : OnlyWhole s c ↔ RecvOk s c := by
  constructor
  · intro hall
    by_contra hbad
    simp only [RecvOk, not_or, not_and, not_not] at hbad
    obtain ⟨h0, hshort, hsize, hw⟩ := hbad
    obtain ⟨m, hm⟩ := receive_returns h0 (UInt32.not_lt.mp hsize) hw
    exact hshort (hall.1 m hm).1
  · intro hrecv
    have hwhole : ∀ m, receive c.stack c.recv c.read = .ok m →
        c.recv.Whole ∧ (m.size ≠ 0 → c.read.Whole m.size) := by
      intro m hm
      obtain ⟨h0, hsize, hw, hm⟩ := receive_ok hm
      rw [hm]
      refine ⟨?_, hw⟩
      rcases hrecv with heos | hrw | hbig | ⟨hne, hshort⟩
      · exact absurd heos h0
      · exact hrw
      · exact absurd hsize (UInt32.not_le.mpr hbig)
      · exact absurd (hw hne) hshort
    refine ⟨hwhole, fun hinc => .inl ?_⟩
    cases hm : receive c.stack c.recv c.read with
    | error e =>
      refine ⟨e, ?_⟩
      unfold processVhostMsg
      rw [hm]
      rfl
    | ok m =>
      refine absurd ⟨(hwhole m hm).1, ?_⟩ hinc
      exact (receive_ok hm).2.2.1

/-- **When only whole messages are dispatched.** In every sequence of calls, whatever
`recvmsg` and `read` return and whatever is on the stack, only messages received whole reach
the switch, and a failure or a short count ends the process or changes nothing,
exactly if every call meets `RecvOk`. -/
theorem whole_messages_iff (garbage : Server) (cs : List Round) :
    (∀ bs c s, bs ++ [c] <+: cs → Transition.run serve (boot garbage) bs = some s →
      OnlyWhole s c) ↔ Transition.Meets serve RecvOk (boot garbage) cs := by
  rw [← Transition.meets_iff]
  exact Transition.meets_congr (I := fun _ => True) (fun _ _ _ _ _ => trivial)
    (fun s c _ => onlyWhole_iff) trivial

/-- A `recvmsg` that fails, with a `SET_VRING_NUM` of queue 1 without payload bytes to come still
on the stack. -/
def staleRound : Round where
  stack := ⟨overlay (fun _ => 0) [8, 0, 0, 0, 1], overlay (fun _ => 0) [1, 0, 0, 0, 0, 1],
    fun _ => 0⟩
  recv := .failed 4
  read := .failed 4
  calls := .succeed

/-- The ring size is set by a message that never came. -/
theorem stale_message_handled :
    (∃ s, serve (boot zeroed) staleRound = some s ∧ s.sh.bk.tx.size = 256) ∧
    ¬ ∀ (garbage : Server) (cs : List Round) (c : Round) (s : Server),
      Transition.run serve (boot garbage) cs = some s → OnlyWhole s c := by
  refine ⟨⟨_, rfl, rfl⟩, fun hall => ?_⟩
  have hwhole := (hall zeroed [] staleRound (boot zeroed) rfl).1 _ rfl
  exact absurd hwhole.1 (show 0 ≠ vhostUserHdrSize by decide)

end Whole

end VirtioBench.Bkend
