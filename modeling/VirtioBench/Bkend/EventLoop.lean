import VirtioBench.Bkend.Receive
import Mathlib.Data.List.Forall2

/- The thread that serves the connections (code_dump/nonm/bkend.c): `process_vh_msgs` copies the
   set of descriptors, waits in `select`, and goes once over the numbers up to `max_fd`,
   which `add_fd` may raise on the way; the listening socket is accepted from, any other
   descriptor has one message received, handled and, if it asks for it, answered. The
   workers and the guest move between any two descriptors.

   Three fields of `Loop` record what happened: `requests` and `replies`, each message with the
   descriptor it came from or went to, and `visited`, the descriptors served in this round.

   Correspondence (C ↔ Lean):
     `fdset`, `max_fd`, `fd` of `vh_desc` ↔ `Loop`
     `add_fd`                             ↔ `addFd`
     `reset`, `create_vhost_server`       ↔ `Loop.reset`, `createVhostServer`
     `process_vh_msgs`                    ↔ `loopStep`
   `FD_SET` of a negative number (a failed `accept`) or of one from 1024 on is undefined; `del_fd`
   is never called.

   1. `loop_replies` — the answers go out in the order of the requests that have one, each to the
      connection of its request, one for each and no other;
   2. `loop_rounds` — a round serves every descriptor `select` has reported, once, in ascending
      order, and none that was accepted during the round. -/
namespace VirtioBench.Bkend

def fdSetsize : Nat := 1024

inductive LoopPc where
  | select
  | scan (rd : Nat → Bool) (fd : Nat)

structure Loop where
  srv : Server
  fdset : Nat → Bool
  maxFd : Int
  fd : Int
  pc : LoopPc
  requests : List (Nat × VhMsg)
  replies : List (Nat × VhMsg)
  visited : List Nat

inductive LoopAct where
  /-- What `select` reports, or -1, which leaves the copy of the set as it is. -/
  | select (ready : Option (Nat → Bool))
  /-- The next number: what `accept` returns, or what the message is read from. -/
  | scan (accept : Int) (c : Round)
  | worker (k : Nat)
  | guest (g : GuestWrite)

def addFd (l : Loop) (fd : Int) : Except Exit Loop :=
  if 0 ≤ fd ∧ fd < fdSetsize then
    .ok { l with
      fdset := Function.update l.fdset fd.toNat true
      maxFd := if l.maxFd < fd then fd else l.maxFd }
  else .error (.trap .indexOutOfRange)

def Loop.reset (garbage : Server) : Loop where
  srv := boot garbage
  fdset := fun _ => false
  maxFd := -1
  fd := -1
  pc := .select
  requests := []
  replies := []
  visited := []

/-- `create_vhost_server`, with the descriptor `socket` returned. -/
def createVhostServer (garbage : Server) (fd : Int) : Except Exit Loop := do
  let l ← addFd (.reset garbage) fd
  .ok { l with fd := fd }

/-- The body of the loop over the descriptors. -/
def Loop.visit (l : Loop) (rd : Nat → Bool) (fd : Nat) (accept : Int) (c : Round) :
    Except Exit Loop :=
  if rd fd && l.fdset fd then
    if (fd : Int) = l.fd then addFd { l with visited := l.visited ++ [fd] } accept
    else do
      let m ← receive c.stack c.recv c.read
      let srv ← dispatch c.calls l.srv m
      .ok { l with
        srv := srv
        visited := l.visited ++ [fd]
        requests := l.requests ++ [(fd, m)]
        replies := l.replies ++ (srv.sent.drop l.srv.sent.length).map (fun r => (fd, r)) }
  else .ok l

def loopStep (l : Loop) : LoopAct → Option Loop
  | .select ready =>
    match l.pc with
    | .select =>
      if l.srv.dead then none
      else some { l with
        pc := .scan (fun fd => l.fdset fd && (ready.getD l.fdset) fd) 0
        visited := [] }
    | .scan _ _ => none
  | .scan accept c =>
    match l.pc with
    | .select => none
    | .scan rd fd =>
      if l.srv.dead then none
      else if (fd : Int) < l.maxFd + 1 then
        (l.visit rd fd accept c).toOption.map (fun l' => { l' with pc := .scan rd (fd + 1) })
      else some { l with pc := .select }
  | .worker k => (step l.srv (.worker k)).map (fun srv => { l with srv := srv })
  | .guest g => (step l.srv (.guest g)).map (fun srv => { l with srv := srv })

/-! ## Answers -/

/-- The request is answered. -/
def VhMsg.answered (m : VhMsg) : Bool :=
  match m.req with
  | .getFeatures | .getVringBase | .getProtocolFeatures | .setVringEnable => true
  | .setFeatures | .setOwner | .resetOwner | .setMemTable | .setLogBase | .setLogFd | .setVringNum
  | .setVringAddr | .setVringBase | .setVringKick | .setVringCall | .setVringErr
  | .setProtocolFeatures | .getQueueNum | .sendRarp | .unknown => false

/-- `r` is what a front-end waits for after `m`. To SET_VRING_ENABLE the answer is a request of the
backend's own, SET_VRING_CALL without a descriptor. -/
structure Answers (m r : VhMsg) : Prop where
  request : r.request = if m.req = .setVringEnable then 13 else m.request
  size : r.size = 8
  flags : r.flags = if m.req = .setVringEnable then m.flags else
    (m.flags &&& ~~~vhostUserVersionMask) ||| vhostUserVersion ||| vhostUserReplyMask
  features : m.req = .getFeatures → r.u64 = 0x40008000
  protocol : m.req = .getProtocolFeatures → r.u64 = 2
  enable : m.req = .setVringEnable → r.u64 = 0x100
  base : m.req = .getVringBase → r.index = m.index ∧ r.num.toNat < 2 ^ 16

section Answer
variable {env : Calls} {s s' : Server} {m : VhMsg}

/-- A 64-bit value is put together from its two words again. -/
theorem or_words (x : UInt64) :
    x.toUInt32.toUInt64 ||| ((x >>> 32).toUInt32.toUInt64 <<< 32) = x := by
  have hx := x.toNat_lt
  have hlow : x.toUInt32.toUInt64.toNat = x.toNat % 2 ^ 32 := by
    rw [UInt32.toNat_toUInt64, UInt64.toNat_toUInt32]
  have hshift : (x >>> 32).toNat = x.toNat / 2 ^ 32 := by
    rw [UInt64.toNat_shiftRight]
    exact Nat.shiftRight_eq_div_pow _ _
  have hhigh : ((x >>> 32).toUInt32.toUInt64 <<< 32).toNat = (x.toNat / 2 ^ 32) <<< 32 := by
    rw [UInt64.toNat_shiftLeft, UInt32.toNat_toUInt64, UInt64.toNat_toUInt32, hshift]
    show ((x.toNat / 2 ^ 32 % 2 ^ 32) <<< 32) % 2 ^ 64 = _
    rw [Nat.shiftLeft_eq, Nat.shiftLeft_eq]
    omega
  apply UInt64.toNat_inj.mp
  rw [UInt64.toNat_or, hlow, hhigh, Nat.or_comm,
    ← Nat.shiftLeft_add_eq_or_of_lt (Nat.mod_lt _ (by decide)), Nat.shiftLeft_eq]
  omega

theorem setU64_u64 (m : VhMsg) (x : UInt64) : (m.setU64 x).u64 = x := or_words x

/-- What a handler that answers sends. -/
theorem send_answers {r : VhMsg} (hm : m.answered = true) (hr : Answers m r)
    (h : send env s r = .ok s') :
    m.answered = true ∧ ∃ r, Answers m r ∧ s'.sent = s.sent ++ [r] := by
  rw [send_ok h]
  exact ⟨hm, r, hr, rfl⟩

theorem getFeatures_answers (hm : m.req = .getFeatures) (h : getFeatures env s m = .ok s') :
    m.answered = true ∧ ∃ r, Answers m r ∧ s'.sent = s.sent ++ [r] := by
  refine send_answers (by simp [VhMsg.answered, hm]) ?_ h
  refine ⟨?_, rfl, ?_, fun _ => setU64_u64 m _, ?_, ?_, ?_⟩
  all_goals rw [hm]
  all_goals first | rfl | exact nofun

theorem getProtocolFeatures_answers (hm : m.req = .getProtocolFeatures)
    (h : getProtocolFeatures env s m = .ok s') :
    m.answered = true ∧ ∃ r, Answers m r ∧ s'.sent = s.sent ++ [r] := by
  refine send_answers (by simp [VhMsg.answered, hm]) ?_ h
  refine ⟨?_, rfl, ?_, ?_, fun _ => setU64_u64 m _, ?_, ?_⟩
  all_goals rw [hm]
  all_goals first | rfl | exact nofun

theorem getVringBase_answers (hm : m.req = .getVringBase) (h : getVringBase env s m = .ok s') :
    m.answered = true ∧ ∃ r, Answers m r ∧ s'.sent = s.sent ++ [r] := by
  obtain ⟨q, -, h⟩ := bind_ok h
  have hsent : (closeKick (closeCall s q) q).sent = s.sent := by
    rw [closeKick_sent, closeCall_sent]
  rw [← hsent]
  refine send_answers (by simp [VhMsg.answered, hm]) ?_ h
  refine ⟨?_, rfl, ?_, ?_, ?_, ?_, fun _ => ⟨rfl, ?_⟩⟩
  · rw [hm]; rfl
  · rw [hm]; rfl
  · rw [hm]; exact nofun
  · rw [hm]; exact nofun
  · rw [hm]; exact nofun
  · show (s.sh.bk.vq q).lastAvailIdx.toUInt32.toNat < 2 ^ 16
    rw [UInt16.toNat_toUInt32]
    exact UInt16.toNat_lt _

theorem setVringEnable_answers (hm : m.req = .setVringEnable)
    (h : setVringEnable env s m = .ok s') :
    m.answered = true ∧ ∃ r, Answers m r ∧ s'.sent = s.sent ++ [r] := by
  obtain ⟨q, -, h⟩ := bind_ok h
  obtain ⟨t, ht, h⟩ := bind_ok h
  have hsent : s'.sent = t.sent := by
    dsimp only at h
    split at h
    · cases h
      unfold startDequeue
      split <;> rfl
    · cases h
      rfl
  rw [hsent]
  have hr : Answers m { m.setU64 vhostUserVringNofdMask with request := 13, size := 8 } := by
    refine ⟨?_, rfl, ?_, ?_, ?_, fun _ => setU64_u64 m _, ?_⟩
    all_goals rw [hm]
    all_goals first | rfl | exact nofun
  have hsends := send_answers (by simp [VhMsg.answered, hm]) hr ht
  exact hsends

theorem setMemTable_sent (h : setMemTable env s m = .ok s') : s'.sent = s.sent := by
  obtain ⟨-, regions, rfl⟩ := mapRegions_ok h (Nat.zero_le _)
  rfl

theorem stored_sent {x : Except Halt Backend} (h : (x.map s.setBk).mapError Exit.trap = .ok s') :
    s'.sent = s.sent := by
  obtain ⟨bk, -, rfl⟩ := stored_ok h
  rfl

/-- What goes out for a message: one answer if it is one of the four, nothing if not. -/
theorem switch_sent (h : switch env s m = .ok s') :
    (m.answered = false ∧ s'.sent = s.sent) ∨
      (m.answered = true ∧ ∃ r, Answers m r ∧ s'.sent = s.sent ++ [r]) := by
  unfold switch at h
  cases hm : m.req <;> simp only [hm] at h
  case getFeatures => exact .inr (getFeatures_answers hm h)
  case getProtocolFeatures => exact .inr (getProtocolFeatures_answers hm h)
  case getVringBase => exact .inr (getVringBase_answers hm h)
  case setVringEnable => exact .inr (setVringEnable_answers hm h)
  all_goals refine .inl ⟨by simp [VhMsg.answered, hm], ?_⟩
  case setMemTable => exact setMemTable_sent h
  case setVringNum => exact stored_sent h
  case setVringAddr => exact stored_sent h
  case setVringBase =>
    obtain ⟨q, -, h⟩ := bind_ok h
    cases h
    rfl
  case setVringKick =>
    obtain ⟨q, -, h⟩ := bind_ok h
    cases h
    rfl
  case setVringCall =>
    unfold setVringCall at h
    split at h
    · obtain ⟨q, -, h⟩ := bind_ok h
      cases h
      rfl
    · cases h
  all_goals cases h; rfl

theorem dispatch_sent (h : dispatch env s m = .ok s') :
    (m.answered = false ∧ s'.sent = s.sent) ∨
      (m.answered = true ∧ ∃ r, Answers m r ∧ s'.sent = s.sent ++ [r]) := by
  obtain ⟨_, _, h⟩ := bind_ok h
  have hsends := switch_sent h
  exact hsends

end Answer

/-! ## The loop -/

/-- What one step can do. -/
inductive LoopMove (l : Loop) : LoopAct → Loop → Prop
  | select (ready : Option (Nat → Bool)) (hpc : l.pc = .select) :
      LoopMove l (.select ready) { l with
        pc := .scan (fun fd => l.fdset fd && (ready.getD l.fdset) fd) 0
        visited := [] }
  | skip (accept : Int) (c : Round) (rd : Nat → Bool) (fd : Nat) (hpc : l.pc = .scan rd fd)
      (hfd : (fd : Int) < l.maxFd + 1) (hno : (rd fd && l.fdset fd) = false) :
      LoopMove l (.scan accept c) { l with pc := .scan rd (fd + 1) }
  | accept (sfd : Int) (c : Round) (rd : Nat → Bool) (fd : Nat) (hpc : l.pc = .scan rd fd)
      (hfd : (fd : Int) < l.maxFd + 1) (hrd : rd fd = true) (hin : l.fdset fd = true)
      (hlisten : (fd : Int) = l.fd) (h0 : 0 ≤ sfd) (hlt : sfd < fdSetsize) :
      LoopMove l (.scan sfd c) { l with
        fdset := Function.update l.fdset sfd.toNat true
        maxFd := if l.maxFd < sfd then sfd else l.maxFd
        visited := l.visited ++ [fd]
        pc := .scan rd (fd + 1) }
  | message (sfd : Int) (c : Round) (rd : Nat → Bool) (fd : Nat) (m : VhMsg) (srv : Server)
      (hpc : l.pc = .scan rd fd) (hfd : (fd : Int) < l.maxFd + 1) (hrd : rd fd = true)
      (hin : l.fdset fd = true) (hconn : (fd : Int) ≠ l.fd)
      (hrecv : receive c.stack c.recv c.read = .ok m) (hd : dispatch c.calls l.srv m = .ok srv) :
      LoopMove l (.scan sfd c) { l with
        srv := srv
        visited := l.visited ++ [fd]
        requests := l.requests ++ [(fd, m)]
        replies := l.replies ++ (srv.sent.drop l.srv.sent.length).map (fun r => (fd, r))
        pc := .scan rd (fd + 1) }
  | finish (accept : Int) (c : Round) (rd : Nat → Bool) (fd : Nat) (hpc : l.pc = .scan rd fd)
      (hfd : l.maxFd + 1 ≤ fd) : LoopMove l (.scan accept c) { l with pc := .select }
  | worker (k : Nat) (srv : Server) (h : step l.srv (.worker k) = some srv) :
      LoopMove l (.worker k) { l with srv := srv }
  | guest (g : GuestWrite) (srv : Server) (h : step l.srv (.guest g) = some srv) :
      LoopMove l (.guest g) { l with srv := srv }

section Loop
variable {l l' : Loop} {a : LoopAct}

theorem toOption_some {ε α : Type} {x : Except ε α} {y : α} (h : x.toOption = some y) :
    x = .ok y := by
  cases x with
  | error e => cases h
  | ok z =>
    cases h
    rfl

theorem addFd_ok {fd : Int} (h : addFd l fd = .ok l') :
    (0 ≤ fd ∧ fd < fdSetsize) ∧ l' = { l with
      fdset := Function.update l.fdset fd.toNat true
      maxFd := if l.maxFd < fd then fd else l.maxFd } := by
  unfold addFd at h
  split at h
  · next hfd =>
    cases h
    exact ⟨hfd, rfl⟩
  · cases h

theorem visit_move {rd : Nat → Bool} {fd : Nat} {sfd : Int} {c : Round} (hpc : l.pc = .scan rd fd)
    (hfd : (fd : Int) < l.maxFd + 1) (h : l.visit rd fd sfd c = .ok l') :
    LoopMove l (.scan sfd c) { l' with pc := .scan rd (fd + 1) } := by
  unfold Loop.visit at h
  split at h
  · next hboth =>
    rw [Bool.and_eq_true] at hboth
    split at h
    · next hlisten =>
      obtain ⟨⟨h0, hlt⟩, rfl⟩ := addFd_ok h
      exact .accept sfd c rd fd hpc hfd hboth.1 hboth.2 hlisten h0 hlt
    · next hconn =>
      obtain ⟨m, hrecv, h⟩ := bind_ok h
      obtain ⟨srv, hd, h⟩ := bind_ok h
      cases h
      exact .message sfd c rd fd m srv hpc hfd hboth.1 hboth.2 hconn hrecv hd
  · next hno =>
    cases h
    exact .skip sfd c rd fd hpc hfd (Bool.eq_false_iff.mpr hno)

theorem loopStep_cases (h : loopStep l a = some l') : LoopMove l a l' := by
  cases a with
  | select ready =>
    dsimp only [loopStep] at h
    split at h
    · next hpc =>
      split at h
      · cases h
      · cases h
        exact .select ready hpc
    · cases h
  | scan sfd c =>
    dsimp only [loopStep] at h
    split at h
    · cases h
    · next rd fd hpc =>
      split at h
      · cases h
      · split at h
        · next hfd =>
          obtain ⟨l₁, hl₁, rfl⟩ := Option.map_eq_some_iff.mp h
          exact visit_move hpc hfd (toOption_some hl₁)
        · next hfd =>
          cases h
          exact .finish sfd c rd fd hpc (by omega)
  | worker k =>
    obtain ⟨srv, hsrv, rfl⟩ := Option.map_eq_some_iff.mp h
    exact .worker k srv hsrv
  | guest g =>
    unfold loopStep at h
    obtain ⟨srv, hsrv, rfl⟩ := Option.map_eq_some_iff.mp h
    exact .guest g srv hsrv

/-- The answers so far are those of the requests so far that have one, in order, each on the
connection of its request. -/
def Loop.InOrder (l : Loop) : Prop :=
  List.Forall₂ (fun p r => r.1 = p.1 ∧ Answers p.2 r.2)
    (l.requests.filter (fun p => p.2.answered)) l.replies

/-- Every request came from a connection, never from the listening socket. -/
def Loop.FromConnections (l : Loop) : Prop :=
  ∀ p ∈ l.requests, l.fdset p.1 = true ∧ (p.1 : Int) ≠ l.fd

/-- The place in the round: what has been visited is what was reported below `fd`. -/
def Loop.AtPc (l : Loop) : LoopPc → Prop
  | .select => True
  | .scan rd fd => (∀ i, rd i = true → l.fdset i = true) ∧ (fd : Int) ≤ l.maxFd + 1 ∧
      l.visited = (List.range fd).filter rd

structure Loop.Inv (l : Loop) : Prop where
  inSet : ∀ i, l.fdset i = true → (i : Int) ≤ l.maxFd
  nonneg : 0 ≤ l.maxFd
  bounded : l.maxFd < fdSetsize
  inOrder : l.InOrder
  connections : l.FromConnections
  pc : l.AtPc l.pc

/-- One request, and what is sent for it. -/
theorem Loop.InOrder.message (h : l.InOrder) (fd : Nat) {m : VhMsg} {env : Calls} {srv : Server}
    (hd : dispatch env l.srv m = .ok srv) :
    List.Forall₂ (fun p r => r.1 = p.1 ∧ Answers p.2 r.2)
      ((l.requests ++ [(fd, m)]).filter (fun p => p.2.answered))
      (l.replies ++ (srv.sent.drop l.srv.sent.length).map (fun r => (fd, r))) := by
  rw [List.filter_append]
  apply List.rel_append h
  rcases dispatch_sent hd with ⟨hm, hsent⟩ | ⟨hm, r, hr, hsent⟩
  · rw [hsent, List.drop_length]
    simp [hm]
  · rw [hsent, List.drop_left]
    simp [hm, hr]

theorem visited_next {rd : Nat → Bool} {fd : Nat} (hv : l.visited = (List.range fd).filter rd)
    (hrd : rd fd = true) : l.visited ++ [fd] = (List.range (fd + 1)).filter rd := by
  rw [List.range_succ, List.filter_append, ← hv]
  simp [hrd]

/-- The socket that was accepted is in the set, and the largest number is one of the set again. -/
theorem Loop.Inv.accept {sfd : Int} {rd : Nat → Bool} {fd : Nat} (hi : l.Inv)
    (hpc : l.pc = .scan rd fd) (hfd : (fd : Int) < l.maxFd + 1) (hrd : rd fd = true) (h0 : 0 ≤ sfd)
    (hlt : sfd < fdSetsize) :
    Loop.Inv { l with
      fdset := Function.update l.fdset sfd.toNat true
      maxFd := if l.maxFd < sfd then sfd else l.maxFd
      visited := l.visited ++ [fd]
      pc := .scan rd (fd + 1) } := by
  have hat := hi.pc
  rw [hpc] at hat
  obtain ⟨hsub, -, hv⟩ := hat
  have hgrow : ∀ i, l.fdset i = true → Function.update l.fdset sfd.toNat true i = true := by
    intro i hi
    by_cases heq : i = sfd.toNat
    · rw [heq, Function.update_self]
    · rw [Function.update_of_ne heq]
      exact hi
  refine ⟨?_, ?_, ?_, hi.inOrder, ?_, fun i hr => hgrow i (hsub i hr), ?_, visited_next hv hrd⟩
  · intro i hset
    dsimp only at hset ⊢
    by_cases heq : i = sfd.toNat
    · split <;> omega
    · rw [Function.update_of_ne heq] at hset
      have hle := hi.inSet i hset
      split <;> omega
  · dsimp only
    have h0 := hi.nonneg
    split <;> omega
  · dsimp only
    have hb := hi.bounded
    split <;> omega
  · intro p hp
    exact ⟨hgrow _ (hi.connections p hp).1, (hi.connections p hp).2⟩
  · dsimp only
    split <;> omega

theorem loopStep_inv (hi : l.Inv) (h : loopStep l a = some l') : l'.Inv := by
  have hat := hi.pc
  cases loopStep_cases h with
  | select ready hpc =>
    refine ⟨hi.inSet, hi.nonneg, hi.bounded, hi.inOrder, hi.connections, ?_, ?_, rfl⟩
    · intro i hrd
      exact (Bool.and_eq_true_iff.mp hrd).1
    · have h0 := hi.nonneg
      dsimp only
      omega
  | skip accept c rd fd hpc hfd hno =>
    rw [hpc] at hat
    obtain ⟨hsub, -, hv⟩ := hat
    have hrd : rd fd = false := by
      cases hrd : rd fd with
      | false => rfl
      | true =>
        rw [hrd, hsub fd hrd] at hno
        cases hno
    refine ⟨hi.inSet, hi.nonneg, hi.bounded, hi.inOrder, hi.connections, hsub, ?_, ?_⟩
    · dsimp only
      omega
    · show l.visited = _
      rw [List.range_succ, List.filter_append, ← hv]
      simp [hrd]
  | accept sfd c rd fd hpc hfd hrd hin hlisten h0 hlt => exact hi.accept hpc hfd hrd h0 hlt
  | message sfd c rd fd m srv hpc hfd hrd hin hconn hrecv hd =>
    rw [hpc] at hat
    obtain ⟨hsub, -, hv⟩ := hat
    refine ⟨hi.inSet, hi.nonneg, hi.bounded, hi.inOrder.message fd hd, ?_, hsub, ?_, visited_next hv hrd⟩
    · intro p hp
      rcases List.mem_append.mp hp with hp | hp
      · exact hi.connections p hp
      · rw [List.mem_singleton.mp hp]
        exact ⟨hin, hconn⟩
    · dsimp only
      omega
  | finish accept c rd fd hpc hfd =>
    exact ⟨hi.inSet, hi.nonneg, hi.bounded, hi.inOrder, hi.connections, trivial⟩
  | worker k srv hs => exact ⟨hi.inSet, hi.nonneg, hi.bounded, hi.inOrder, hi.connections, hi.pc⟩
  | guest g srv hs => exact ⟨hi.inSet, hi.nonneg, hi.bounded, hi.inOrder, hi.connections, hi.pc⟩

theorem createVhostServer_inv {garbage : Server} {fd : Int}
    (h : createVhostServer garbage fd = .ok l) : l.Inv := by
  obtain ⟨l₀, hl₀, h⟩ := bind_ok h
  obtain ⟨⟨h0, hlt⟩, rfl⟩ := addFd_ok hl₀
  cases h
  have hmax : (if (Loop.reset garbage).maxFd < fd then fd else (Loop.reset garbage).maxFd) = fd :=
    if_pos (show (-1 : Int) < fd by omega)
  refine ⟨?_, ?_, ?_, .nil, ?_, trivial⟩
  · intro i hset
    dsimp only at hset ⊢
    rw [hmax]
    by_cases heq : i = fd.toNat
    · omega
    · rw [Function.update_of_ne heq] at hset
      cases hset
  · dsimp only
    rw [hmax]
    exact h0
  · dsimp only
    rw [hmax]
    exact hlt
  · intro p hp
    cases hp

theorem loop_run_inv {garbage : Server} {fd : Int} {start : Loop} {as : List LoopAct}
    (hstart : createVhostServer garbage fd = .ok start)
    (hr : Transition.run loopStep start as = some l) : l.Inv :=
  Transition.run_invariant (fun _ _ _ hi hs => loopStep_inv hi hs) (createVhostServer_inv hstart) hr

/-- A request without payload. -/
def bareRound (request : UInt8) : Round where
  stack := ⟨fun _ => 0, fun _ => 0, fun _ => 0⟩
  recv := .got [request, 0, 0, 0, 1, 0, 0, 0, 0, 0, 0, 0] [] (Nat.le_refl 12) (Nat.zero_le 8)
  read := .failed 0
  calls := .succeed

/-- The listening socket is 3; the connection 5 is accepted from it. -/
def firstRound : List LoopAct :=
  .select (some (fun i => i == 3)) :: List.replicate 7 (.scan 5 (bareRound 0))

/-- The connection 4 is accepted, and GET_FEATURES received on 5. -/
def secondRound : List LoopAct := List.replicate 7 (.scan 4 (bareRound 1))

def reported : Option (Nat → Bool) := some (fun i => i == 3 || i == 5)

/-- What was reported lies below the number the round ends at. -/
theorem round_complete {rd : Nat → Bool} {fd : Nat} (hi : l.Inv) (hpc : l.pc = .scan rd fd)
    (hfd : l.maxFd + 1 ≤ fd) : l.visited = (List.range fdSetsize).filter rd := by
  have hat := hi.pc
  rw [hpc] at hat
  obtain ⟨hsub, hle, hv⟩ := hat
  have hb := hi.bounded
  obtain ⟨k, hk⟩ : ∃ k, fdSetsize = fd + k := ⟨fdSetsize - fd, by omega⟩
  have hrest : ((List.range k).map (fd + ·)).filter rd = [] := by
    rw [List.filter_eq_nil_iff]
    intro i hmem hrd
    obtain ⟨j, -, rfl⟩ := List.mem_map.mp hmem
    have hin := hi.inSet _ (hsub _ hrd)
    omega
  rw [hk, List.range_add, List.filter_append, hrest, List.append_nil]
  exact hv

/-- Any descriptor but the listening socket. -/
def Loop.connection (l : Loop) (i : Nat) : Bool := decide ((i : Int) ≠ l.fd)

/-- A round in progress or over: `rd` is what `select` reported at its start, in `l₀`. -/
structure RoundInv (l₀ : Loop) (rd : Nat → Bool) (l : Loop) : Prop where
  inv : l.Inv
  fd : l.fd = l₀.fd
  scan : ∀ rd' fd, l.pc = .scan rd' fd → rd' = rd
  done : l.pc = .select → l.visited = (List.range fdSetsize).filter rd
  requests : ∃ ms, l.requests = l₀.requests ++ ms ∧
    ms.map Prod.fst = l.visited.filter l₀.connection

theorem round_step {l₀ : Loop} {rd : Nat → Bool} (hi : RoundInv l₀ rd l)
    (ha : ∀ ready, a ≠ .select ready) (h : loopStep l a = some l') : RoundInv l₀ rd l' := by
  have hinv := loopStep_inv hi.inv h
  obtain ⟨ms, hreq, hms⟩ := hi.requests
  cases loopStep_cases h with
  | select ready hpc => exact absurd rfl (ha ready)
  | skip accept c rd' fd hpc hfd hno =>
    refine ⟨hinv, hi.fd, ?_, nofun, ms, hreq, hms⟩
    intro rd'' fd' hscan
    cases hscan
    exact hi.scan rd' fd hpc
  | accept sfd c rd' fd hpc hfd hrd hin hlisten h0 hlt =>
    refine ⟨hinv, hi.fd, ?_, nofun, ms, hreq, ?_⟩
    · intro rd'' fd' hscan
      cases hscan
      exact hi.scan rd' fd hpc
    · have hsame : (fd : Int) = l₀.fd := hlisten.trans hi.fd
      rw [List.filter_append, ← hms]
      simp [Loop.connection, hsame]
  | message sfd c rd' fd m srv hpc hfd hrd hin hconn hrecv hd =>
    refine ⟨hinv, hi.fd, ?_, nofun, ms ++ [(fd, m)], ?_, ?_⟩
    · intro rd'' fd' hscan
      cases hscan
      exact hi.scan rd' fd hpc
    · rw [hreq, List.append_assoc]
    · rw [hi.fd] at hconn
      rw [List.filter_append, ← hms]
      simp [Loop.connection, hconn]
  | finish accept c rd' fd hpc hfd =>
    refine ⟨hinv, hi.fd, nofun, ?_, ms, hreq, hms⟩
    intro _
    have hall : l.visited = (List.range fdSetsize).filter rd' := round_complete hi.inv hpc hfd
    rw [← hi.scan rd' fd hpc]
    exact hall
  | worker k srv hs => exact ⟨hinv, hi.fd, hi.scan, hi.done, ms, hreq, hms⟩
  | guest g srv hs => exact ⟨hinv, hi.fd, hi.scan, hi.done, ms, hreq, hms⟩

/-- **One round.** Over every run of the loop, from a `select` to the next time the thread is
about to wait: the round has served the descriptors that `select` reported (all of the set, if it
failed), each once, in ascending order, and no other, whatever was accepted on the way; and it has
received one message from each of them but the listening socket. -/
theorem loop_rounds (garbage : Server) (fd : Int) (start l₀ l : Loop) (as bs : List LoopAct)
    (ready : Option (Nat → Bool)) (hstart : createVhostServer garbage fd = .ok start)
    (hr : Transition.run loopStep start as = some l₀)
    (hbs : ∀ a ∈ bs, ∀ ready', a ≠ .select ready')
    (hround : Transition.run loopStep l₀ (.select ready :: bs) = some l) (hend : l.pc = .select) :
    l.visited = (List.range fdSetsize).filter (fun i => l₀.fdset i && (ready.getD l₀.fdset) i) ∧
    ∃ ms, l.requests = l₀.requests ++ ms ∧
      ms.map Prod.fst = l.visited.filter l₀.connection := by
  obtain ⟨l₁, hl₁, hrest⟩ := Transition.run_cons_some hround
  have hinv := loopStep_inv (loop_run_inv hstart hr) hl₁
  have hfirst : RoundInv l₀ (fun i => l₀.fdset i && (ready.getD l₀.fdset) i) l₁ := by
    cases loopStep_cases hl₁ with
    | select ready hpc =>
      refine ⟨hinv, rfl, ?_, nofun, [], (List.append_nil _).symm, rfl⟩
      intro rd' fd' hscan
      cases hscan
      rfl
  have hlast := Transition.meets_invariant (C := fun _ a => ∀ ready', a ≠ .select ready')
    (fun _ _ _ hi ha hs => round_step hi ha hs) hfirst (Transition.meets_of_actions hbs) hrest
  exact ⟨hlast.done hend, hlast.requests⟩

/-- The connection accepted in the round waits for the next one. -/
theorem loop_rounds_second : ∃ start l₀ l, createVhostServer zeroed 3 = .ok start ∧
    Transition.run loopStep start firstRound = some l₀ ∧
    Transition.run loopStep l₀ (.select reported :: secondRound) = some l ∧
    l.fdset 4 = true ∧ 4 ∉ l.visited := by
  obtain ⟨start, l₀, l, hstart, hr, hround, hend, hin, hout⟩ : ∃ start l₀ l,
      createVhostServer zeroed 3 = .ok start ∧
      Transition.run loopStep start firstRound = some l₀ ∧
      Transition.run loopStep l₀ (.select reported :: secondRound) = some l ∧
      l.pc = .select ∧ l.fdset 4 = true ∧ l₀.fdset 4 = false :=
    ⟨_, _, _, rfl, rfl, rfl, rfl, rfl, rfl⟩
  refine ⟨start, l₀, l, hstart, hr, hround, hin, ?_⟩
  have hv := (loop_rounds zeroed 3 start l₀ l firstRound secondRound reported hstart hr
    (by simp [secondRound]) hround hend).1
  rw [hv]
  simp [hout]

end Loop

end VirtioBench.Bkend
