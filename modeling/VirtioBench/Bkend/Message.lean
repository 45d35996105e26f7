import VirtioBench.Bkend.Backend

/- The message handler of the backend: the switch of `process_vhost_msg` (code_dump/nonm/bkend.c)
   with every case, over the whole of `struct backend` and the threads it starts.

   A message is decoded: the three header words, the payload as its 66 little-endian words
   (every field of the union is made of whole words), the array `fds`, and how many of
   its entries came with the message; the others are what was on the stack. What the
   system calls answer is part of the action (`Calls`). An index into an array is
   tested before it is used, and one outside it is `Halt.indexOutOfRange`; whatever ends the
   process is an `Exit`.

   Three fields of `Server` record what happened: `sent`, what was written to the socket,
   `handled`, the messages that reached the switch, newest first, and `closed`, the
   arguments of `close`.

   Correspondence (C ↔ Lean):
     `vhost_req`, `vhost_req_str`        ↔ `VhostReq`, `vhostReqStr`
     `struct vhost_msg` and its union    ↔ `VhMsg`, `VhMsg.word`, `VhMsg.u64`, `VhMsg.region`
     `struct backend`, `vh_virtqueue`    ↔ `Server`, `Backend`, `VqControl`
     `reset`, `main`                     ↔ `reset`, `boot`
     `send_vhost_reply`, `send_vhost_msg` ↔ `send`
     the cases of the switch             ↔ `getFeatures` to `setVringEnable`, `switch`
     `process_vhost_msg` after reception ↔ `dispatch`
     the threads of the process          ↔ `step`

   `dispatch_cases` says what a message that is handled can do, `step_cases` what a step can. -/
namespace VirtioBench.Bkend

/-! ## Messages -/

inductive VhostReq where
  | getFeatures
  | setFeatures
  | setOwner
  | resetOwner
  | setMemTable
  | setLogBase
  | setLogFd
  | setVringNum
  | setVringAddr
  | setVringBase
  | getVringBase
  | setVringKick
  | setVringCall
  | setVringErr
  | getProtocolFeatures
  | setProtocolFeatures
  | getQueueNum
  | setVringEnable
  | sendRarp
  | unknown
  deriving DecidableEq, Repr

/-- The labels of the switch; 0 and `VHOST_USER_MAX` have none. -/
def VhostReq.decode (request : UInt32) : VhostReq :=
  match request.toNat with
  | 1 => .getFeatures
  | 2 => .setFeatures
  | 3 => .setOwner
  | 4 => .resetOwner
  | 5 => .setMemTable
  | 6 => .setLogBase
  | 7 => .setLogFd
  | 8 => .setVringNum
  | 9 => .setVringAddr
  | 10 => .setVringBase
  | 11 => .getVringBase
  | 12 => .setVringKick
  | 13 => .setVringCall
  | 14 => .setVringErr
  | 15 => .getProtocolFeatures
  | 16 => .setProtocolFeatures
  | 17 => .getQueueNum
  | 18 => .setVringEnable
  | 19 => .sendRarp
  | _ => .unknown

def vhostReqStr : List String :=
  ["vhost_user_none", "vhost_user_get_features", "vhost_user_set_features",
    "vhost_user_set_owner", "vhost_user_reset_owner", "vhost_user_set_mem_table",
    "vhost_user_set_log_base", "vhost_user_set_log_fd", "vhost_user_set_vring_num",
    "vhost_user_set_vring_addr", "vhost_user_set_vring_base", "vhost_user_get_vring_base",
    "vhost_user_set_vring_kick", "vhost_user_set_vring_call", "vhost_user_set_vring_err",
    "vhost_user_get_protocol_features", "vhost_user_set_protocol_features",
    "vhost_user_get_queue_num", "vhost_user_set_vring_enable", "vhost_user_send_rarp",
    "vhost_user_max"]

/-- The union is as long as `struct mem`: 264 bytes. -/
def payloadWords : Nat := 66

def vhostUserVersionMask : UInt32 := 0x3
def vhostUserVersion : UInt32 := 0x1
def vhostUserReplyMask : UInt32 := 0x4
def vhostUserVringIdxMask : UInt64 := 0xff
def vhostUserVringNofdMask : UInt64 := 0x100
def vhostUserProtocolFLogShmfd : UInt64 := 1
def virtioNetFMrgRxbuf : UInt64 := 15
def vhostUserFProtocolFeatures : UInt64 := 30
def virtioFVersion1 : UInt64 := 32

structure VhMsg where
  request : UInt32
  flags : UInt32
  size : UInt32
  payload : Fin payloadWords → UInt32
  fds : Fin vhostMemoryMaxNregions → Int32
  /-- How many entries of `fds` came with the message. -/
  nfds : Nat

structure MemRegion where
  guestPhysAddr : UInt64
  memorySize : UInt64
  userspaceAddr : UInt64
  mmapOffset : UInt64
  deriving DecidableEq, Repr

namespace VhMsg

def req (m : VhMsg) : VhostReq := .decode m.request

/-- The word `k` of the payload. -/
def word (m : VhMsg) (k : Nat) : UInt32 := if h : k < payloadWords then m.payload ⟨k, h⟩ else 0

/-- The words `k` and `k + 1`. -/
def dword (m : VhMsg) (k : Nat) : UInt64 :=
  (m.word k).toUInt64 ||| ((m.word (k + 1)).toUInt64 <<< 32)

/-- `payload.u64`. -/
def u64 (m : VhMsg) : UInt64 := m.dword 0

/-- `payload.state.index`, `payload.addr.index`. -/
def index (m : VhMsg) : UInt32 := m.word 0

/-- `payload.state.num`. -/
def num (m : VhMsg) : UInt32 := m.word 1

/-- `payload.memory.nregions`. -/
def nregions (m : VhMsg) : UInt32 := m.word 0

/-- `payload.addr`. -/
def addr (m : VhMsg) : VringAddr where
  index := m.index
  descUserAddr := m.dword 2
  usedUserAddr := m.dword 4
  availUserAddr := m.dword 6

/-- `payload.memory.regions[i]`. -/
def region (m : VhMsg) (i : Fin vhostMemoryMaxNregions) : MemRegion where
  guestPhysAddr := m.dword (2 + 8 * i.val)
  memorySize := m.dword (4 + 8 * i.val)
  userspaceAddr := m.dword (6 + 8 * i.val)
  mmapOffset := m.dword (8 + 8 * i.val)

/-- `index` in the handlers of KICK and CALL. -/
def vringIdx (m : VhMsg) : Nat := (m.u64 &&& vhostUserVringIdxMask).toNat

/-- `fds[0]`. -/
def fd (m : VhMsg) : Int32 := m.fds ⟨0, Nat.zero_lt_succ 7⟩

/-- The descriptors that came with the message. -/
def passed (m : VhMsg) : List Int32 := (List.ofFn m.fds).take m.nfds

def setWord (m : VhMsg) (k : Nat) (x : UInt32) : VhMsg :=
  { m with payload := fun j => if j.val = k then x else m.payload j }

def setU64 (m : VhMsg) (x : UInt64) : VhMsg :=
  (m.setWord 0 x.toUInt32).setWord 1 (x >>> 32).toUInt32

/-- The flags of a reply. -/
def reply (m : VhMsg) : VhMsg :=
  { m with flags := (m.flags &&& ~~~vhostUserVersionMask) ||| vhostUserVersion |||
      vhostUserReplyMask }

end VhMsg

/-! ## The backend -/

/-- The fields of `struct vh_virtqueue` that `VhVirtqueue` leaves out. -/
structure VqControl where
  callFd : Int32
  kickFd : Int32
  enable : Int32
  deriving DecidableEq, Repr, Inhabited

structure Server where
  features : UInt64
  hdrlen : Int32
  sh : Shared
  /-- `flags` of the avail rings. -/
  availFlags : UInt64 → UInt16
  ctl : Fin 2 → VqControl
  en2 : Fin 2 → Int32
  workers : List Worker
  sent : List VhMsg
  handled : List VhMsg
  closed : List Int32

inductive Exit where
  | disconnected
  | negativeRc
  | tooBig
  | shortPayload
  | mmapFailed
  | writeError
  | noFd
  | trap (h : Halt)
  deriving DecidableEq, Repr

/-- What the system calls answer: the address `mmap` returns for a region, or `none` for
`MAP_FAILED`; whether `write` and `pthread_create` succeed; the buffer `dequeue` allocates. -/
structure Calls where
  mmap : Nat → Option UInt64
  write : Bool
  pthreadCreate : Bool
  malloc : Nat → UInt8

/-- `svr->bk->last_*_idx = 0` of `reset`. -/
def VhVirtqueue.reset (vq : VhVirtqueue) : VhVirtqueue :=
  { vq with lastUsedIdx := 0, lastAvailIdx := 0 }

def reset (s : Server) : Server :=
  { s with
    features := 0
    hdrlen := 0
    sh := { s.sh with bk := { s.sh.bk with vq := fun q => (s.sh.bk.vq q).reset } } }

/-- `main`: what `malloc` returned, and `reset`. -/
def boot (garbage : Server) : Server :=
  { reset garbage with
    sh := { (reset garbage).sh with fhdone := false, trace := [] }
    workers := []
    sent := []
    handled := []
    closed := [] }

/-- A `malloc` that returns zeroes, as a first one often does. -/
def zeroed : Server where
  features := 0
  hdrlen := 0
  sh := ⟨default, default, false, []⟩
  availFlags := fun _ => 0
  ctl := fun _ => ⟨0, 0, 0⟩
  en2 := fun _ => 0
  workers := []
  sent := []
  handled := []
  closed := []

/-- A message with the payload's first words and the descriptors that come with it. -/
def VhMsg.make (request : UInt32) (words : List UInt32) (fds : List Int32) : VhMsg where
  request := request
  flags := vhostUserVersion
  size := UInt32.ofNat (4 * words.length)
  payload := fun k => words.getD k.val 0
  fds := fun i => fds.getD i.val 0
  nfds := fds.length

/-- System calls that succeed. -/
def Calls.succeed : Calls := ⟨fun _ => some 0, true, true, fun _ => 0⟩

namespace Server

def setBk (s : Server) (bk : Backend) : Server := { s with sh := { s.sh with bk := bk } }

def setCtl (s : Server) (q : Fin 2) (c : VqControl) : Server :=
  { s with ctl := Function.update s.ctl q c }

def close (s : Server) (fd : Int32) : Server := { s with closed := s.closed ++ [fd] }

end Server

/-- `send_vhost_reply`, `send_vhost_msg`. -/
def send (env : Calls) (s : Server) (m : VhMsg) : Except Exit Server :=
  if env.write then .ok { s with sent := s.sent ++ [m] } else .error .writeError

/-- The receive and the transmit queue. -/
def rxq : Fin 2 := ⟨0, Nat.zero_lt_succ 1⟩

def txq : Fin 2 := ⟨1, Nat.lt_succ_self 1⟩

def queues : List (Fin 2) := [rxq, txq]

theorem eq_rxq_or_txq (q : Fin 2) : q = rxq ∨ q = txq := by
  revert q
  decide

theorem mem_queues (q : Fin 2) : q ∈ queues := by
  rcases eq_rxq_or_txq q with rfl | rfl <;> simp [queues]

/-- `bk->vq[index]`. -/
def vqIndex (index : Nat) : Except Exit (Fin 2) :=
  if h : index < 2 then .ok ⟨index, h⟩ else .error (.trap .indexOutOfRange)

/-! ## The cases of the switch -/

def getFeatures (env : Calls) (s : Server) (m : VhMsg) : Except Exit Server :=
  let features := ((1 : UInt64) <<< virtioNetFMrgRxbuf) |||
    ((1 : UInt64) <<< vhostUserFProtocolFeatures)
  send env s ({ m.setU64 features with size := 8 } : VhMsg).reply

def setFeatures (s : Server) (m : VhMsg) : Server :=
  { s with
    features := m.u64
    hdrlen :=
      if m.u64 &&& ((1 : UInt64) <<< virtioFVersion1) ≠ 0 ∨
          m.u64 &&& ((1 : UInt64) <<< virtioNetFMrgRxbuf) ≠ 0 then 12
      else 10 }

/-- The body of the loop over the regions after a successful `mmap`. -/
def mapRegion (s : Server) (m : VhMsg) (i : Fin vhostMemoryMaxNregions) (mmapAddr : UInt64) :
    Server :=
  let r := m.region i
  (s.setBk { s.sh.bk with
    regions := s.sh.bk.regions.set i.val
      ⟨r.guestPhysAddr, r.memorySize, r.userspaceAddr, r.mmapOffset, mmapAddr⟩ i.isLt }).close
    (m.fds i)

/-- The loop over the regions from `i`, with `k` of them left. -/
def mapRegions (env : Calls) (m : VhMsg) : Nat → Nat → Server → Except Exit Server
  | _, 0, s => .ok s
  | i, k + 1, s =>
    if h : i < vhostMemoryMaxNregions then
      match env.mmap i with
      | none => .error .mmapFailed
      | some mmapAddr => mapRegions env m (i + 1) k (mapRegion s m ⟨i, h⟩ mmapAddr)
    else .error (.trap .indexOutOfRange)

def setMemTable (env : Calls) (s : Server) (m : VhMsg) : Except Exit Server :=
  mapRegions env m 0 m.nregions.toNat (s.setBk { s.sh.bk with nregions := m.nregions })

def setVringBase (s : Server) (m : VhMsg) : Except Exit Server := do
  let q ← vqIndex m.index.toNat
  .ok (s.setBk (s.sh.bk.setVq q { s.sh.bk.vq q with lastAvailIdx := m.num.toUInt16 }))

/-- `if (call_fd != -1) { close(call_fd); call_fd = -1; }`. -/
def closeCall (s : Server) (q : Fin 2) : Server :=
  if (s.ctl q).callFd ≠ -1 then
    (s.close (s.ctl q).callFd).setCtl q { s.ctl q with callFd := -1 }
  else s

def closeKick (s : Server) (q : Fin 2) : Server :=
  if (s.ctl q).kickFd ≠ -1 then
    (s.close (s.ctl q).kickFd).setCtl q { s.ctl q with kickFd := -1 }
  else s

def getVringBase (env : Calls) (s : Server) (m : VhMsg) : Except Exit Server := do
  let q ← vqIndex m.index.toNat
  send env (closeKick (closeCall s q) q)
    ({ m.setWord 1 (s.sh.bk.vq q).lastAvailIdx.toUInt32 with size := 8 } : VhMsg).reply

def setVringKick (s : Server) (m : VhMsg) : Except Exit Server := do
  let q ← vqIndex m.vringIdx
  let avail := (s.sh.bk.vq q).avail
  .ok { s.setCtl q { s.ctl q with kickFd := m.fd } with
    availFlags := Function.update s.availFlags avail (s.availFlags avail ||| 1) }

def setVringCall (s : Server) (m : VhMsg) : Except Exit Server :=
  if m.u64 &&& vhostUserVringNofdMask = 0 then do
    let q ← vqIndex m.vringIdx
    .ok (s.setCtl q { s.ctl q with callFd := m.fd })
  else .error .noFd

def getProtocolFeatures (env : Calls) (s : Server) (m : VhMsg) : Except Exit Server :=
  send env s
    ({ m.setU64 ((1 : UInt64) <<< vhostUserProtocolFLogShmfd) with size := 8 } : VhMsg).reply

/-- `pthread_create(&svr->bk->tx, NULL, &dequeue, svr->bk)`. -/
def startDequeue (env : Calls) (s : Server) : Server :=
  if env.pthreadCreate then { s with workers := s.workers ++ [dequeue s.sh.bk env.malloc] } else s

def setVringEnable (env : Calls) (s : Server) (m : VhMsg) : Except Exit Server := do
  let q ← vqIndex m.index.toNat
  let s ← send env (s.setCtl q { s.ctl q with enable := m.num.toInt32 })
    { m.setU64 vhostUserVringNofdMask with request := 13, size := 8 }
  let en2 := s.en2 q + 1
  let s := { s with en2 := Function.update s.en2 q en2 }
  -- once the counter has passed 1, every message that enables the queue
  if m.num ≠ 0 ∧ 1 < en2 ∧ m.index = 1 then .ok (startDequeue env s) else .ok s

def switch (env : Calls) (s : Server) (m : VhMsg) : Except Exit Server :=
  match m.req with
  | .getFeatures => getFeatures env s m
  | .setFeatures => .ok (setFeatures s m)
  | .setMemTable => setMemTable env s m
  | .setVringNum => ((setVringNum s.sh.bk m.index m.num).map s.setBk).mapError .trap
  | .setVringAddr => ((setVringAddr s.sh.mem s.sh.bk m.addr).map s.setBk).mapError .trap
  | .setVringBase => setVringBase s m
  | .getVringBase => getVringBase env s m
  | .setVringKick => setVringKick s m
  | .setVringCall => setVringCall s m
  | .getProtocolFeatures => getProtocolFeatures env s m
  | .setVringEnable => setVringEnable env s m
  -- `SET_VRING_ERR` prints, the others are not implemented, the default prints
  | .setVringErr | .setLogFd | .setProtocolFeatures | .getQueueNum | .sendRarp | .setOwner
  | .resetOwner | .setLogBase | .unknown => .ok s

/-- The name that is printed before the switch. -/
def requestName (m : VhMsg) : Except Exit String :=
  if m.request = 0 then .ok ""
  else match vhostReqStr[m.request.toNat]? with
    | some name => .ok name
    | none => .error (.trap .indexOutOfRange)

/-- `process_vhost_msg` once a message is there. -/
def dispatch (env : Calls) (s : Server) (m : VhMsg) : Except Exit Server := do
  let _ ← requestName m
  switch env { s with handled := m :: s.handled } m

/-! ## The process -/

inductive Action where
  | message (m : VhMsg) (env : Calls)
  | worker (k : Nat)
  | guest (g : GuestWrite)

/-- A worker has ended the process. -/
def Server.dead (s : Server) : Bool :=
  s.workers.any (fun w => match w.pc with
    | .halted _ => true
    | .head | .fetch | .walk | .retire | .publish => false)

/-- The handler, one access of a worker, or one of the guest. -/
def step (s : Server) : Action → Option Server
  | .message m env => if s.dead then none else (dispatch env s m).toOption
  | .worker k =>
    if s.dead then none
    else (s.workers[k]?).bind (fun w => (workerStep s.sh w).map (fun r =>
      { s with sh := r.1, workers := s.workers.set k r.2 }))
  | .guest g => some { s with sh := { s.sh with mem := g.apply s.sh.mem } }

/-! ## What a message can do -/

theorem bind_ok {ε α β : Type} {x : Except ε α} {f : α → Except ε β} {b : β}
    (h : (x >>= f) = .ok b) : ∃ a, x = .ok a ∧ f a = .ok b := by
  cases x with
  | error e => cases h
  | ok a => exact ⟨a, rfl, h⟩

section Specs
variable {env : Calls} {s s' : Server} {m : VhMsg} {q : Fin 2}

theorem vqIndex_eq_ok {i : Nat} : vqIndex i = .ok q ↔ i = q.val := by
  unfold vqIndex
  by_cases h : i < 2
  · rw [dif_pos h]
    constructor
    · intro heq
      cases heq
      rfl
    · rintro rfl
      rfl
  · rw [dif_neg h]
    refine iff_of_false nofun ?_
    rintro rfl
    exact h q.isLt

theorem send_ok (h : send env s m = .ok s') : s' = { s with sent := s.sent ++ [m] } := by
  unfold send at h
  split at h
  · cases h
    rfl
  · cases h

/-- The loop maps and closes region by region, and stays inside the arrays. -/
theorem mapRegions_ok {i k : Nat} (h : mapRegions env m i k s = .ok s')
    (hi : i ≤ vhostMemoryMaxNregions) :
    i + k ≤ vhostMemoryMaxNregions ∧ ∃ regions, s' = { s with
      sh := { s.sh with bk := { s.sh.bk with regions := regions } }
      closed := s.closed ++ ((List.ofFn m.fds).drop i).take k } := by
  induction k generalizing i s with
  | zero =>
    cases h
    exact ⟨hi, s'.sh.bk.regions, by simp⟩
  | succ k ih =>
    unfold mapRegions at h
    split at h
    · next hlt =>
      split at h
      · cases h
      · next mmapAddr _ =>
        obtain ⟨hk, regions, rfl⟩ := ih h (by omega)
        refine ⟨by omega, regions, ?_⟩
        have hdrop : (List.ofFn m.fds).drop i =
            m.fds ⟨i, hlt⟩ :: (List.ofFn m.fds).drop (i + 1) := by
          rw [List.drop_eq_getElem_cons (by simpa using hlt), List.getElem_ofFn]
        rw [hdrop, List.take_succ_cons]
        simp [mapRegion, Server.close, Server.setBk]
    · cases h

theorem closeCall_sent (s : Server) (q : Fin 2) : (closeCall s q).sent = s.sent := by
  unfold closeCall
  split <;> rfl

theorem closeKick_sent (s : Server) (q : Fin 2) : (closeKick s q).sent = s.sent := by
  unfold closeKick
  split <;> rfl

/-- The message is the latest. -/
def Server.note (s : Server) (m : VhMsg) : Server := { s with handled := m :: s.handled }

/-- Requests that are answered from constants or ignored. -/
def VhostReq.plain : VhostReq → Bool
  | .getFeatures | .getProtocolFeatures | .setVringErr | .setLogFd | .setProtocolFeatures
  | .getQueueNum | .sendRarp | .setOwner | .resetOwner | .setLogBase | .unknown => true
  | .setFeatures | .setMemTable | .setVringNum | .setVringAddr | .setVringBase | .getVringBase
  | .setVringKick | .setVringCall | .setVringEnable => false

/-- What a message that is handled can do. -/
inductive Handled (env : Calls) (s : Server) (m : VhMsg) : Server → Prop
  | none (hm : m.req.plain = true) : Handled env s m (s.note m)
  | features (hm : m.req = .setFeatures) : Handled env s m (setFeatures (s.note m) m)
  | reply (r : VhMsg) (hm : m.req.plain = true) :
      Handled env s m { s.note m with sent := s.sent ++ [r] }
  | memTable (regions : Vector DeviceRegion vhostMemoryMaxNregions) (hm : m.req = .setMemTable)
      (hn : m.nregions.toNat ≤ vhostMemoryMaxNregions) :
      Handled env s m { s.note m with
        sh := { s.sh with bk := { s.sh.bk with nregions := m.nregions, regions := regions } }
        closed := s.closed ++ (List.ofFn m.fds).take m.nregions.toNat }
  | num (q : Fin 2) (hm : m.req = .setVringNum) (hq : m.index.toNat = q.val) :
      Handled env s m
        ((s.note m).setBk (s.sh.bk.setVq q { s.sh.bk.vq q with size := m.num }))
  | addr (q : Fin 2) (desc used avail : UInt64) (hm : m.req = .setVringAddr)
      (hq : m.index.toNat = q.val) (hdesc : qvaToVa s.sh.bk m.addr.descUserAddr = .ok desc)
      (hused : qvaToVa s.sh.bk m.addr.usedUserAddr = .ok used)
      (havail : qvaToVa s.sh.bk m.addr.availUserAddr = .ok avail) :
      Handled env s m
        ((s.note m).setBk (s.sh.bk.setVq q { s.sh.bk.vq q with
          desc := desc
          used := used
          avail := avail
          lastUsedIdx := (s.sh.mem.used used).idx
          lastAvailIdx := (s.sh.mem.used used).idx }))
  | base (q : Fin 2) (hm : m.req = .setVringBase) (hq : m.index.toNat = q.val) :
      Handled env s m
        ((s.note m).setBk (s.sh.bk.setVq q
          { s.sh.bk.vq q with lastAvailIdx := m.num.toUInt16 }))
  | getBase (q : Fin 2) (hm : m.req = .getVringBase) (hq : m.index.toNat = q.val) :
      Handled env s m { closeKick (closeCall (s.note m) q) q with
        sent := s.sent ++ [({ m.setWord 1 (s.sh.bk.vq q).lastAvailIdx.toUInt32 with
          size := 8 } : VhMsg).reply] }
  | kick (q : Fin 2) (hm : m.req = .setVringKick) (hq : m.vringIdx = q.val) :
      Handled env s m { (s.note m).setCtl q { s.ctl q with kickFd := m.fd } with
        availFlags := Function.update s.availFlags (s.sh.bk.vq q).avail
          (s.availFlags (s.sh.bk.vq q).avail ||| 1) }
  | call (q : Fin 2) (hm : m.req = .setVringCall) (hq : m.vringIdx = q.val) :
      Handled env s m ((s.note m).setCtl q { s.ctl q with callFd := m.fd })
  | enable (q : Fin 2) (r : VhMsg) (hm : m.req = .setVringEnable) (hq : m.index.toNat = q.val)
      (hn : ¬ (m.num ≠ 0 ∧ 1 < s.en2 q + 1 ∧ m.index = 1 ∧ env.pthreadCreate)) :
      Handled env s m { (s.note m).setCtl q { s.ctl q with enable := m.num.toInt32 } with
        sent := s.sent ++ [r]
        en2 := Function.update s.en2 q (s.en2 q + 1) }
  | start (q : Fin 2) (r : VhMsg) (hm : m.req = .setVringEnable) (hq : m.index.toNat = q.val)
      (hn : m.num ≠ 0 ∧ 1 < s.en2 q + 1 ∧ m.index = 1 ∧ env.pthreadCreate) :
      Handled env s m { (s.note m).setCtl q { s.ctl q with enable := m.num.toInt32 } with
        sent := s.sent ++ [r]
        en2 := Function.update s.en2 q (s.en2 q + 1)
        workers := s.workers ++ [dequeue s.sh.bk env.malloc] }

theorem send_handled {r : VhMsg} (hm : m.req.plain = true) (h : send env (s.note m) r = .ok s') :
    Handled env s m s' := by
  rw [send_ok h]
  exact .reply r hm

theorem setMemTable_handled (hm : m.req = .setMemTable)
    (h : setMemTable env (s.note m) m = .ok s') : Handled env s m s' := by
  obtain ⟨hn, regions, rfl⟩ := mapRegions_ok h (Nat.zero_le _)
  rw [Nat.zero_add] at hn
  exact .memTable regions hm hn

theorem setVringNum_eq_ok {b b' : Backend} {index num : UInt32}
    (h : setVringNum b index num = .ok b') :
    ∃ q : Fin 2, index.toNat = q.val ∧ b' = b.setVq q { b.vq q with size := num } := by
  unfold setVringNum at h
  split at h
  · next hlt =>
    cases h
    exact ⟨⟨index.toNat, hlt⟩, rfl, rfl⟩
  · cases h

/-- A backend that is stored if the handler returns one. -/
theorem stored_ok {x : Except Halt Backend} (h : (x.map s.setBk).mapError Exit.trap = .ok s') :
    ∃ bk, x = .ok bk ∧ s' = s.setBk bk := by
  cases x with
  | error e => cases h
  | ok bk =>
    cases h
    exact ⟨bk, rfl, rfl⟩

theorem setVringEnable_handled (hm : m.req = .setVringEnable)
    (h : setVringEnable env (s.note m) m = .ok s') : Handled env s m s' := by
  obtain ⟨q, hq, h⟩ := bind_ok h
  obtain ⟨t, ht, h⟩ := bind_ok h
  rw [vqIndex_eq_ok] at hq
  rw [send_ok ht] at h
  dsimp only at h
  split at h
  · next hn =>
    unfold startDequeue at h
    split at h
    · next hp =>
      cases h
      exact .start q _ hm hq ⟨hn.1, hn.2.1, hn.2.2, hp⟩
    · next hp =>
      cases h
      exact .enable q _ hm hq (fun hall => hp hall.2.2.2)
  · next hn =>
    cases h
    exact .enable q _ hm hq (fun hall => hn ⟨hall.1, hall.2.1, hall.2.2.1⟩)

theorem switch_cases (h : switch env (s.note m) m = .ok s') : Handled env s m s' := by
  unfold switch at h
  cases hm : m.req <;> simp only [hm] at h
  case getFeatures => exact send_handled (by rw [hm]; rfl) h
  case getProtocolFeatures => exact send_handled (by rw [hm]; rfl) h
  case setFeatures => cases h; exact .features hm
  case setMemTable => exact setMemTable_handled hm h
  case setVringNum =>
    obtain ⟨bk, hbk, rfl⟩ := stored_ok h
    obtain ⟨q, hq, rfl⟩ := setVringNum_eq_ok hbk
    exact .num q hm hq
  case setVringAddr =>
    obtain ⟨bk, hbk, rfl⟩ := stored_ok h
    obtain ⟨q, desc, used, avail, hq, hdesc, hused, havail, rfl⟩ := setVringAddr_ok hbk
    exact .addr q desc used avail hm hq hdesc hused havail
  case setVringBase =>
    obtain ⟨q, hq, h⟩ := bind_ok h
    cases h
    exact .base q hm (vqIndex_eq_ok.mp hq)
  case getVringBase =>
    obtain ⟨q, hq, h⟩ := bind_ok h
    have hsent : (closeKick (closeCall (s.note m) q) q).sent = s.sent := by
      rw [closeKick_sent, closeCall_sent]
      rfl
    rw [send_ok h, hsent]
    exact .getBase q hm (vqIndex_eq_ok.mp hq)
  case setVringKick =>
    obtain ⟨q, hq, h⟩ := bind_ok h
    cases h
    exact .kick q hm (vqIndex_eq_ok.mp hq)
  case setVringCall =>
    unfold setVringCall at h
    split at h
    · obtain ⟨q, hq, h⟩ := bind_ok h
      cases h
      exact .call q hm (vqIndex_eq_ok.mp hq)
    · cases h
  case setVringEnable => exact setVringEnable_handled hm h
  all_goals cases h; exact .none (by rw [hm]; rfl)

theorem dispatch_known (h : m.request.toNat < vhostReqStr.length) :
    dispatch env s m = switch env (s.note m) m := by
  unfold dispatch requestName
  split
  · rfl
  · rw [List.getElem?_eq_getElem h]
    rfl

theorem dispatch_cases (h : dispatch env s m = .ok s') : Handled env s m s' := by
  obtain ⟨_, _, h⟩ := bind_ok h
  exact switch_cases h

/-- What a step can do. -/
inductive Move (s : Server) : Action → Server → Prop
  | message (m : VhMsg) (env : Calls) (s' : Server) (hd : dispatch env s m = .ok s')
      (h : Handled env s m s') : Move s (.message m env) s'
  | worker (k : Nat) (w w' : Worker) (sh : Shared) (hk : s.workers[k]? = some w)
      (hw : workerStep s.sh w = some (sh, w')) :
      Move s (.worker k) { s with sh := sh, workers := s.workers.set k w' }
  | guest (g : GuestWrite) :
      Move s (.guest g) { s with sh := { s.sh with mem := g.apply s.sh.mem } }

theorem step_cases {a : Action} (h : step s a = some s') : Move s a s' := by
  cases a with
  | message m env =>
    dsimp only [step] at h
    split at h
    · cases h
    · cases hd : dispatch env s m with
      | error e => rw [hd] at h; cases h
      | ok t =>
        rw [hd] at h
        cases h
        exact .message m env _ hd (dispatch_cases hd)
  | worker k =>
    dsimp only [step] at h
    split at h
    · cases h
    · obtain ⟨w, hk, h⟩ := Option.bind_eq_some_iff.mp h
      obtain ⟨⟨sh, w'⟩, hw, rfl⟩ := Option.map_eq_some_iff.mp h
      exact .worker k w w' sh hk hw
  | guest g =>
    cases h
    exact .guest g

end Specs

end VirtioBench.Bkend
