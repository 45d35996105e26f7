import VirtioBench.Lib.Run
import Mathlib.Logic.Function.Basic

/- `VhostController` (vtb/src/vhost_controller.cpp, vtb/inc/vhost_controller.h):
   the producer thread, the consumer thread, the vhost device callbacks and
   `stop()`, interleaved one DPDK call or one load or store of a shared variable
   at a time, with sequentially consistent memory.

   A thread's program counter names the call or access it is about to make and
   carries the locals that are live there; the local computation after a call
   belongs to the call's step. What DPDK answers is part of the action, so a
   list of actions is one interleaving with one choice of burst sizes:

     `rte_vhost_dequeue_burst`  returns at most `PKT_BURST_SZ` fresh mbufs;
     `rte_ring_*_burst`         move a prefix, of any length or of the greatest
                                possible one (`BurstRule`), of a FIFO that holds
                                `RING_SIZE - 1` entries;
     `rte_vhost_enqueue_burst`  copies a prefix to the guest and keeps nothing.

   Callbacks are frames of their own and may overlap; `new_device(vid)` is called
   for a vid that is not in a session, `destroy_device(vid)` once per session and
   after its `new_device` has returned. `session vid` is the session (the
   interval from the call of `new_device` to the return of `destroy_device`) in
   which `vid` is live, sessions being numbered in the order of their calls.

   Correspondence (C++ ↔ Lean):
     `producer_loop`                       ↔ `ProducerPc`, `producerLoadQuit` ..
                                             `rteRingSpEnqueueBurst`
     `consumer_loop` and its final drain   ↔ `ConsumerPc`, `consumerLoadQuit` ..
                                             `rtePktmbufFree`
     `on_new_device`, `on_destroy_device`  ↔ `Callback`, `callbackStep`
     `stop`                                ↔ `Act.stop`
     `rx_pkts_`, `tx_pkts_`, `tx_bytes_`   ↔ `rxPkts`, `txPkts`, `txBytes`
   `dequeued`, `delivered` and `freed` record what crossed the DPDK interface;
   no branch reads them. Log lines and `usleep` have no step. -/
namespace VirtioBench.Vhost

def pktBurstSz : Nat := 32
def ringSize : Nat := 4096
def maxEnqueueRetries : Nat := 1000

/-- A packet buffer: its identity, its `pkt_len`, and the session it was
dequeued in. -/
structure Mbuf where
  id : Nat
  pktLen : UInt32
  session : Option Nat
  deriving DecidableEq, Repr

/-- A packet accepted by `rte_vhost_enqueue_burst`, and the session of the vid
it was given to. -/
structure Delivery where
  mbuf : Mbuf
  session : Option Nat
  deriving DecidableEq, Repr

/-- The three loops that call `rte_pktmbuf_free`. -/
inductive FreeSite where
  | undelivered
  | delivered
  | drain
  deriving DecidableEq, Repr

structure Free where
  mbuf : Mbuf
  site : FreeSite
  deriving DecidableEq, Repr

inductive ProducerPc where
  | loadQuit
  | loadReady
  | loadVid
  | dequeueBurst (vid : Int)
  | ringEnqueue (pkts : List Mbuf) (sent : Nat)
  | retryLoadQuit (pkts : List Mbuf) (sent : Nat)
  | exited
  deriving DecidableEq, Repr

inductive ConsumerPc where
  | loadQuit
  | loadReady
  | ringDequeue
  | loadVid (pkts : List Mbuf) (sent retries : Nat)
  | enqueueBurst (vid : Int) (pkts : List Mbuf) (sent retries : Nat)
  | freeUndelivered (pkts : List Mbuf) (sent i : Nat)
  | freeDelivered (pkts : List Mbuf) (sent i : Nat)
  | drainDequeue
  | drainFree (pkts : List Mbuf) (i : Nat)
  | exited
  deriving DecidableEq, Repr

/-- A callback in progress, by the access it is about to make. -/
inductive Callback where
  | newStoreVid (vid : Int)
  | newStoreReady (vid : Int)
  | destroyLoadVid (vid : Int)
  | destroyStoreReady (vid : Int)
  | destroyStoreVid (vid : Int)
  | destroyReturn (vid : Int)
  deriving DecidableEq, Repr

/-- The device a callback was called for. -/
def Callback.vid : Callback → Int
  | .newStoreVid v | .newStoreReady v | .destroyLoadVid v
  | .destroyStoreReady v | .destroyStoreVid v | .destroyReturn v => v

structure State where
  quit : Bool
  ready : Bool
  vid : Int
  ring : List Mbuf
  producer : ProducerPc
  consumer : ConsumerPc
  rxPkts : UInt64
  txPkts : UInt64
  txBytes : UInt64
  callbacks : List Callback
  session : Int → Option Nat
  sessions : Nat
  dequeued : List Mbuf
  delivered : List Delivery
  freed : List Free

/-- The constructed controller with both threads launched. -/
def init : State where
  quit := false
  ready := false
  vid := -1
  ring := []
  producer := .loadQuit
  consumer := .loadQuit
  rxPkts := 0
  txPkts := 0
  txBytes := 0
  callbacks := []
  session := fun _ => none
  sessions := 0
  dequeued := []
  delivered := []
  freed := []

/-- How many entries a ring burst call moves when `limit` could be moved. -/
inductive BurstRule where
  | anyPrefix
  | allThatFits
  deriving DecidableEq, Repr

def BurstRule.allows : BurstRule → Nat → Nat → Bool
  | .anyPrefix, limit, k => decide (k ≤ limit)
  | .allThatFits, limit, k => decide (k = limit)

/-- One step of one party, with the environment's answer. -/
inductive Act where
  | producerLoadQuit
  | producerLoadReady
  | producerLoadVid
  | rteVhostDequeueBurst (pkts : List Mbuf)
  | rteRingSpEnqueueBurst (pushed : Nat)
  | consumerLoadQuit
  | consumerLoadReady
  | rteRingScDequeueBurst (nbDeq : Nat)
  | consumerLoadVid
  | rteVhostEnqueueBurst (nbTx : Nat)
  | rtePktmbufFree
  | newDevice (vid : Int)
  | destroyDevice (vid : Int)
  | callback (i : Nat)
  | stop
  deriving DecidableEq, Repr

/-! ## producer_loop -/

/-- The loop test, and the test of `quit_` after a short push (which only
decides whether to sleep). -/
def producerLoadQuit (s : State) : Option State :=
  match s.producer with
  | .loadQuit => some { s with producer := if s.quit then .exited else .loadReady }
  -- `if (sent < nb_rx && !quit_) usleep(1)`: the push is tried again either way
  | .retryLoadQuit pkts sent => some { s with producer := .ringEnqueue pkts sent }
  | _ => none

def producerLoadReady (s : State) : Option State :=
  match s.producer with
  | .loadReady => some { s with producer := if s.ready then .loadVid else .loadQuit }
  | _ => none

def producerLoadVid (s : State) : Option State :=
  match s.producer with
  | .loadVid => some { s with producer := .dequeueBurst s.vid }
  | _ => none

/-- What `rte_vhost_dequeue_burst(vid, ..)` may return: at most `PKT_BURST_SZ`
mbufs never handed out before, from the session `vid` is live in. -/
def Fresh (s : State) (vid : Int) (pkts : List Mbuf) : Prop :=
  pkts.length ≤ pktBurstSz ∧ ((s.dequeued ++ pkts).map Mbuf.id).Nodup ∧
    ∀ b ∈ pkts, b.session = s.session vid

instance (s : State) (vid : Int) (pkts : List Mbuf) : Decidable (Fresh s vid pkts) :=
  inferInstanceAs (Decidable (_ ∧ _ ∧ _))

/-- The default `on_packet` does nothing, so `pkts` go to the ring as they came. -/
def State.receive (s : State) (pkts : List Mbuf) : State :=
  { s with
    dequeued := s.dequeued ++ pkts
    producer := if pkts.length = 0 then .loadQuit else .ringEnqueue pkts 0 }

def rteVhostDequeueBurst (s : State) (pkts : List Mbuf) : Option State :=
  match s.producer with
  | .dequeueBurst vid => if Fresh s vid pkts then some (s.receive pkts) else none
  | _ => none

/-- `sent += pushed`, then the retry test or the end of the iteration. -/
def State.push (s : State) (pkts : List Mbuf) (sent pushed : Nat) : State :=
  let ring := s.ring ++ (pkts.drop sent).take pushed
  if sent + pushed < pkts.length then
    { s with ring := ring, producer := .retryLoadQuit pkts (sent + pushed) }
  else
    { s with
      ring := ring
      producer := .loadQuit
      rxPkts := s.rxPkts + UInt64.ofNat pkts.length }

def rteRingSpEnqueueBurst (rule : BurstRule) (s : State) (pushed : Nat) : Option State :=
  match s.producer with
  | .ringEnqueue pkts sent =>
    -- a ring of `RING_SIZE` holds `RING_SIZE - 1` entries
    if rule.allows (min (pkts.length - sent) (ringSize - 1 - s.ring.length)) pushed then
      some (s.push pkts sent pushed)
    else none
  | _ => none

/-! ## consumer_loop -/

def consumerLoadQuit (s : State) : Option State :=
  match s.consumer with
  | .loadQuit => some { s with consumer := if s.quit then .drainDequeue else .loadReady }
  | _ => none

def consumerLoadReady (s : State) : Option State :=
  match s.consumer with
  | .loadReady => some { s with consumer := if s.ready then .ringDequeue else .loadQuit }
  | _ => none

def State.takeBatch (s : State) (nbDeq : Nat) : State :=
  { s with
    ring := s.ring.drop nbDeq
    consumer := if nbDeq = 0 then .loadQuit else .loadVid (s.ring.take nbDeq) 0 0 }

def State.drainBatch (s : State) (remaining : Nat) : State :=
  { s with
    ring := s.ring.drop remaining
    consumer := if remaining = 0 then .exited else .drainFree (s.ring.take remaining) 0 }

/-- The dequeue of the main loop and the one of the final drain. -/
def rteRingScDequeueBurst (rule : BurstRule) (s : State) (nbDeq : Nat) : Option State :=
  if rule.allows (min pktBurstSz s.ring.length) nbDeq then
    match s.consumer with
    | .ringDequeue => some (s.takeBatch nbDeq)
    | .drainDequeue => some (s.drainBatch nbDeq)
    | _ => none
  else none

def consumerLoadVid (s : State) : Option State :=
  match s.consumer with
  | .loadVid pkts sent retries => some { s with consumer := .enqueueBurst s.vid pkts sent retries }
  | _ => none

/-- Where the loop over the delivered mbufs starts: it may have nothing to do. -/
def freeDeliveredFrom (pkts : List Mbuf) (sent : Nat) : ConsumerPc :=
  if 0 < sent then .freeDelivered pkts sent 0 else .loadQuit

/-- `for (i = 0; i < nb_deq; i++) tx_bytes_ += pkts[i]->pkt_len`. -/
def accountBytes (txBytes : UInt64) (pkts : List Mbuf) : UInt64 :=
  pkts.foldl (fun acc b => acc + b.pktLen.toUInt64) txBytes

/-- The packets `[sent, sent + nbTx)` as the guest behind `vid` receives them. -/
def State.copied (s : State) (vid : Int) (pkts : List Mbuf) (sent nbTx : Nat) : List Delivery :=
  ((pkts.drop sent).take nbTx).map (fun b => ⟨b, s.session vid⟩)

/-- After the retry loop: the accounting, then the two free loops. -/
def State.account (s : State) (pkts : List Mbuf) (sent : Nat) : State :=
  { s with
    -- the bytes are those of the whole batch, the packets only those accepted
    txBytes := accountBytes s.txBytes pkts
    txPkts := s.txPkts + UInt64.ofNat sent
    consumer := if sent < pkts.length then .freeUndelivered pkts sent sent
      else freeDeliveredFrom pkts sent }

/-- `if (sent < nb_deq) retries++`. -/
def bumpRetries (pkts : List Mbuf) (sent retries : Nat) : Nat :=
  if sent < pkts.length then retries + 1 else retries

/-- `sent += nb_tx`, a retry for a short count, and the test of the retry loop. -/
def State.deliver (s : State) (vid : Int) (pkts : List Mbuf) (sent retries nbTx : Nat) : State :=
  let sent' := sent + nbTx
  let retries' := bumpRetries pkts sent' retries
  let s' := { s with delivered := s.delivered ++ s.copied vid pkts sent nbTx }
  if sent' < pkts.length ∧ retries' < maxEnqueueRetries then
    { s' with consumer := .loadVid pkts sent' retries' }
  else s'.account pkts sent'

def rteVhostEnqueueBurst (s : State) (nbTx : Nat) : Option State :=
  match s.consumer with
  | .enqueueBurst vid pkts sent retries =>
    if nbTx ≤ pkts.length - sent then some (s.deliver vid pkts sent retries nbTx) else none
  | _ => none

def State.free (s : State) (b : Mbuf) (site : FreeSite) (next : ConsumerPc) : State :=
  { s with freed := s.freed ++ [⟨b, site⟩], consumer := next }

/-- `rte_pktmbuf_free(pkts[i])`, in the loop the consumer is in. -/
def rtePktmbufFree (s : State) : Option State :=
  match s.consumer with
  | .freeUndelivered pkts sent i => (pkts[i]?).map (fun b => s.free b .undelivered
      (if i + 1 < pkts.length then .freeUndelivered pkts sent (i + 1)
       else freeDeliveredFrom pkts sent))
  | .freeDelivered pkts sent i => (pkts[i]?).map (fun b => s.free b .delivered
      (if i + 1 < sent then .freeDelivered pkts sent (i + 1) else .loadQuit))
  | .drainFree pkts i => (pkts[i]?).map (fun b => s.free b .drain
      (if i + 1 < pkts.length then .drainFree pkts (i + 1) else .drainDequeue))
  | _ => none

/-! ## Device callbacks -/

def newDevice (s : State) (vid : Int) : Option State :=
  if 0 ≤ vid ∧ s.session vid = none then
    some { s with
      callbacks := s.callbacks ++ [.newStoreVid vid]
      -- a session begins with the call, before the first store
      session := Function.update s.session vid (some s.sessions)
      sessions := s.sessions + 1 }
  else none

def destroyDevice (s : State) (vid : Int) : Option State :=
  if s.session vid ≠ none ∧ ∀ c ∈ s.callbacks, c.vid ≠ vid then
    some { s with callbacks := s.callbacks ++ [.destroyLoadVid vid] }
  else none

/-- The next access of the `i`-th callback in progress. -/
def callbackStep (s : State) (i : Nat) : Option State :=
  match s.callbacks[i]? with
  | none => none
  | some (.newStoreVid v) =>
    some { s with vid := v, callbacks := s.callbacks.set i (.newStoreReady v) }
  | some (.newStoreReady _) =>
    some { s with ready := true, callbacks := s.callbacks.eraseIdx i }
  | some (.destroyLoadVid v) =>
    -- `if (vid_ == vid)`: the disconnect of another device stores nothing
    some { s with
      callbacks := s.callbacks.set i (if s.vid = v then .destroyStoreReady v else .destroyReturn v) }
  | some (.destroyStoreReady v) =>
    some { s with ready := false, callbacks := s.callbacks.set i (.destroyStoreVid v) }
  | some (.destroyStoreVid v) =>
    some { s with vid := -1, callbacks := s.callbacks.set i (.destroyReturn v) }
  | some (.destroyReturn v) =>
    -- the session ends with the return
    some { s with
      session := Function.update s.session v none
      callbacks := s.callbacks.eraseIdx i }

/-! ## The interleaving -/

def step (rule : BurstRule) (s : State) : Act → Option State
  | .producerLoadQuit => producerLoadQuit s
  | .producerLoadReady => producerLoadReady s
  | .producerLoadVid => producerLoadVid s
  | .rteVhostDequeueBurst pkts => rteVhostDequeueBurst s pkts
  | .rteRingSpEnqueueBurst pushed => rteRingSpEnqueueBurst rule s pushed
  | .consumerLoadQuit => consumerLoadQuit s
  | .consumerLoadReady => consumerLoadReady s
  | .rteRingScDequeueBurst nbDeq => rteRingScDequeueBurst rule s nbDeq
  | .consumerLoadVid => consumerLoadVid s
  | .rteVhostEnqueueBurst nbTx => rteVhostEnqueueBurst s nbTx
  | .rtePktmbufFree => rtePktmbufFree s
  | .newDevice vid => newDevice s vid
  | .destroyDevice vid => destroyDevice s vid
  | .callback i => callbackStep s i
  | .stop => some { s with quit := true }

/-- `s` is reached by some interleaving. -/
def Reachable (rule : BurstRule) (s : State) : Prop :=
  ∃ as, Transition.run (step rule) init as = some s

end VirtioBench.Vhost
