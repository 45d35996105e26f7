import VirtioBench.Lib.Run
import Mathlib.Data.List.Perm.Basic

/- The loopback programs of code_dump/dpdk_lbk_b2b (loopback, back2back_client and back2back-server,
   whose loops are the same). The producer takes one packet at a time from the device in `g_vid`
   and puts it into a ring; the consumer takes up to `BURST_SIZE` packets from the ring, offers
   them to the device in `g_vid` and frees them all. A packet that finds the ring full is freed.
   back2back-server registers two sockets, with the same callbacks and the same `g_vid`.

   One action is one access to what the threads share, so a run is any interleaving of the two
   threads and the callbacks. `quit` is never set.

   Correspondence (C ↔ Lean):
     `new_device`, `destroy_device`  ↔ `Act.newDevice` and `Act.storeReady`, `Act.destroyDevice`
     `producer_loop`                 ↔ `ProducerPc`
     `consumer_loop`                 ↔ `ConsumerPc`
     `rte_vhost_dequeue_burst`, `rte_ring_enqueue_burst`, ...  ↔ the actions of these names
   `taken`, `delivered` and `freed` record the packets the threads took, delivered and freed.

   1. `lbk_in_order`: what is delivered was taken, in this order; every packet taken is freed once
      or in use, and at most 1 + 2047 + 32 are in use, so that the pool never runs dry.
   2. `last_device_served`: from any moment on, if no device comes or goes, all but one of the packets
      are taken from the device that came last and all but one burst are delivered to it.
      Of the two machines of back2back-server only one has traffic, with itself. -/
namespace VirtioBench.Lbk

def burstSize : Nat := 32
def ringSize : Nat := 2048
def numMbufs : Nat := 8191

/-- A packet in its mbuf, with the device it was taken from. -/
structure Mbuf where
  id : Nat
  source : Int
  deriving DecidableEq, Repr

inductive ProducerPc where
  /-- Before `while (ready)`. -/
  | loadReady
  | loadVid
  | dequeue (vid : Int)
  | enqueue (pkt : Mbuf)
  | free (pkt : Mbuf)
  deriving DecidableEq, Repr

inductive ConsumerPc where
  | loadVid
  | dequeue (vid : Int)
  | enqueue (vid : Int) (bufs : List Mbuf)
  | free (bufs : List Mbuf)
  deriving DecidableEq, Repr

structure State where
  gVid : Int
  ready : Bool
  producer : ProducerPc
  consumer : ConsumerPc
  ring : List Mbuf
  taken : List Mbuf
  delivered : List (Int × Mbuf)
  freed : List Mbuf

def init : State := ⟨-1, false, .loadReady, .loadVid, [], [], [], []⟩

inductive Act where
  | newDevice (vid : Int)
  | storeReady
  | destroyDevice
  | producerLoad
  | vhostDequeue (pkt : Option Mbuf)
  | ringEnqueue
  | producerFree
  | consumerLoad
  | ringDequeue
  | vhostEnqueue (nbTx : Nat)
  | consumerFree
  deriving DecidableEq, Repr

/-- What the producer holds. -/
def ProducerPc.held : ProducerPc → List Mbuf
  | .enqueue pkt | .free pkt => [pkt]
  | _ => []

/-- What the consumer holds. -/
def ConsumerPc.held : ConsumerPc → List Mbuf
  | .enqueue _ bufs | .free bufs => bufs
  | _ => []

/-- The mbufs that are not in the pool. -/
def State.inUse (s : State) : List Mbuf := s.consumer.held ++ s.ring ++ s.producer.held

def step (s : State) : Act → Option State
  | .newDevice vid => if 0 ≤ vid then some { s with gVid := vid } else none
  | .storeReady => some { s with ready := true }
  | .destroyDevice => some { s with gVid := -1 }
  | .producerLoad =>
    match s.producer with
    | .loadReady => some (if s.ready then { s with producer := .loadVid } else s)
    | .loadVid =>
      some { s with producer := if s.gVid = -1 then .loadReady else .dequeue s.gVid }
    | _ => none
  | .vhostDequeue pkt =>
    match s.producer, pkt with
    | .dequeue _, none => some { s with producer := .loadReady }
    | .dequeue vid, some m =>
      -- a free mbuf of the pool, filled with a packet of the device
      if s.inUse.length < numMbufs ∧ m ∉ s.inUse ∧ m.source = vid then
        some { s with producer := .enqueue m, taken := s.taken ++ [m] }
      else none
    | _, _ => none
  | .ringEnqueue =>
    match s.producer with
    | .enqueue m =>
      some (if s.ring.length < ringSize - 1 then
        { s with ring := s.ring ++ [m], producer := .loadReady }
      else { s with producer := .free m })
    | _ => none
  | .producerFree =>
    match s.producer with
    | .free m => some { s with producer := .loadReady, freed := s.freed ++ [m] }
    | _ => none
  | .consumerLoad =>
    match s.consumer with
    | .loadVid => some { s with consumer := .dequeue s.gVid }
    | _ => none
  | .ringDequeue =>
    match s.consumer with
    | .dequeue vid =>
      some { s with
        ring := s.ring.drop burstSize
        consumer := if s.ring = [] then .loadVid
          else if vid = -1 then .free (s.ring.take burstSize)
          else .enqueue vid (s.ring.take burstSize) }
    | _ => none
  | .vhostEnqueue nbTx =>
    match s.consumer with
    | .enqueue vid bufs =>
      if nbTx ≤ bufs.length then
        some { s with
          consumer := .free bufs
          delivered := s.delivered ++ (bufs.take nbTx).map (fun m => (vid, m)) }
      else none
    | _ => none
  | .consumerFree =>
    match s.consumer with
    | .free (m :: bufs) =>
      some { s with
        consumer := if bufs = [] then .loadVid else .free bufs
        freed := s.freed ++ [m] }
    | _ => none

/-- Everything a step can do. -/
inductive Move (s : State) : Act → State → Prop
  | newDevice {vid : Int} (hvid : 0 ≤ vid) : Move s (.newDevice vid) { s with gVid := vid }
  | storeReady : Move s .storeReady { s with ready := true }
  | destroyDevice : Move s .destroyDevice { s with gVid := -1 }
  | spin : Move s .producerLoad s
  | loadReady (hp : s.producer = .loadReady) : Move s .producerLoad { s with producer := .loadVid }
  | noDevice (hp : s.producer = .loadVid) : Move s .producerLoad { s with producer := .loadReady }
  | producerVid (hp : s.producer = .loadVid) (hvid : s.gVid ≠ -1) :
      Move s .producerLoad { s with producer := .dequeue s.gVid }
  | nothing {vid : Int} (hp : s.producer = .dequeue vid) :
      Move s (.vhostDequeue none) { s with producer := .loadReady }
  | take {vid : Int} {m : Mbuf} (hp : s.producer = .dequeue vid) (hm : m.source = vid) :
      Move s (.vhostDequeue (some m)) { s with producer := .enqueue m, taken := s.taken ++ [m] }
  | push {m : Mbuf} (hp : s.producer = .enqueue m) (hroom : s.ring.length < ringSize - 1) :
      Move s .ringEnqueue { s with ring := s.ring ++ [m], producer := .loadReady }
  | full {m : Mbuf} (hp : s.producer = .enqueue m) : Move s .ringEnqueue { s with producer := .free m }
  | producerFree {m : Mbuf} (hp : s.producer = .free m) :
      Move s .producerFree { s with producer := .loadReady, freed := s.freed ++ [m] }
  | consumerVid (hc : s.consumer = .loadVid) :
      Move s .consumerLoad { s with consumer := .dequeue s.gVid }
  | empty {vid : Int} (hc : s.consumer = .dequeue vid) (hr : s.ring = []) :
      Move s .ringDequeue { s with ring := s.ring.drop burstSize, consumer := .loadVid }
  | discard {vid : Int} (hc : s.consumer = .dequeue vid) (hvid : vid = -1) :
      Move s .ringDequeue
        { s with ring := s.ring.drop burstSize, consumer := .free (s.ring.take burstSize) }
  | pop {vid : Int} (hc : s.consumer = .dequeue vid) (hvid : vid ≠ -1) :
      Move s .ringDequeue
        { s with ring := s.ring.drop burstSize, consumer := .enqueue vid (s.ring.take burstSize) }
  | deliver {vid : Int} {bufs : List Mbuf} {nbTx : Nat} (hc : s.consumer = .enqueue vid bufs) :
      Move s (.vhostEnqueue nbTx)
        { s with consumer := .free bufs,
                 delivered := s.delivered ++ (bufs.take nbTx).map (fun m => (vid, m)) }
  | consumerFree {m : Mbuf} {bufs : List Mbuf} {pc : ConsumerPc} (hc : s.consumer = .free (m :: bufs))
      (hpc : pc = .loadVid ∧ bufs = [] ∨ pc = .free bufs) :
      Move s .consumerFree { s with consumer := pc, freed := s.freed ++ [m] }

variable {s s' : State} {a : Act}

theorem producerLoad_cases (h : step s .producerLoad = some s') : Move s .producerLoad s' := by
  simp only [step] at h
  split at h
  · split at h
    · cases h
      exact .loadReady ‹_›
    · cases h
      exact .spin
  · split at h
    · cases h
      exact .noDevice ‹_›
    · cases h
      exact .producerVid ‹_› ‹_›
  · cases h

theorem vhostDequeue_cases {pkt : Option Mbuf} (h : step s (.vhostDequeue pkt) = some s') :
    Move s (.vhostDequeue pkt) s' := by
  simp only [step] at h
  split at h
  · cases h
    exact .nothing ‹_›
  · split at h
    · rename_i hguard
      cases h
      exact .take ‹_› hguard.2.2
    · cases h
  · cases h

theorem ringDequeue_cases (h : step s .ringDequeue = some s') : Move s .ringDequeue s' := by
  simp only [step] at h
  split at h
  · split at h
    · cases h
      exact .empty ‹_› ‹_›
    · split at h
      · cases h
        exact .discard ‹_› ‹_›
      · cases h
        exact .pop ‹_› ‹_›
  · cases h

theorem consumerFree_cases (h : step s .consumerFree = some s') : Move s .consumerFree s' := by
  simp only [step] at h
  split at h
  · cases h
    apply Move.consumerFree ‹_›
    split
    · exact .inl ⟨rfl, ‹_›⟩
    · exact .inr rfl
  · cases h

theorem step_cases (h : step s a = some s') : Move s a s' := by
  cases a with
  | newDevice vid =>
    simp only [step] at h
    split at h
    · cases h
      exact .newDevice ‹_›
    · cases h
  | storeReady => cases h; exact .storeReady
  | destroyDevice => cases h; exact .destroyDevice
  | producerLoad => exact producerLoad_cases h
  | vhostDequeue pkt => exact vhostDequeue_cases h
  | ringEnqueue =>
    simp only [step] at h
    split at h
    · split at h
      · cases h
        exact .push ‹_› ‹_›
      · cases h
        exact .full ‹_›
    · cases h
  | producerFree =>
    simp only [step] at h
    split at h
    · cases h
      exact .producerFree ‹_›
    · cases h
  | consumerLoad =>
    simp only [step] at h
    split at h
    · cases h
      exact .consumerVid ‹_›
    · cases h
  | ringDequeue => exact ringDequeue_cases h
  | vhostEnqueue nbTx =>
    simp only [step] at h
    split at h
    · split at h
      · cases h
        exact .deliver ‹_›
      · cases h
    · cases h
  | consumerFree => exact consumerFree_cases h

/-! ## The packets -/

/-- The packets on their way to a device, oldest first. -/
def ProducerPc.onWay : ProducerPc → List Mbuf
  | .enqueue pkt => [pkt]
  | _ => []

def ConsumerPc.onWay : ConsumerPc → List Mbuf
  | .enqueue _ bufs => bufs
  | _ => []

def State.onWay (s : State) : List Mbuf := s.consumer.onWay ++ (s.ring ++ s.producer.onWay)

structure State.Inv (s : State) : Prop where
  order : (s.delivered.map Prod.snd ++ s.onWay).Sublist s.taken
  books : (s.freed ++ s.inUse).Perm s.taken
  ring : s.ring.length ≤ ringSize - 1
  burst : s.consumer.held.length ≤ burstSize

theorem init_inv : init.Inv := ⟨.slnil, .refl [], by simp [init], by simp [init, ConsumerPc.held]⟩

/-- A step of the callbacks, or one that only moves the program counters, keeps the packets. -/
theorem State.Inv.of_same (hi : s.Inv) (ht : s'.taken = s.taken) (hd : s'.delivered = s.delivered)
    (hf : s'.freed = s.freed) (hw : s'.onWay.Sublist s.onWay) (hu : s'.inUse = s.inUse)
    (hr : s'.ring.length ≤ ringSize - 1) (hc : s'.consumer.held.length ≤ burstSize) : s'.Inv where
  order := by
    rw [ht, hd]
    exact ((List.Sublist.refl _).append hw).trans hi.order
  books := by
    rw [ht, hf, hu]
    exact hi.books
  ring := hr
  burst := hc

/-- One of the mbufs in use is freed. -/
theorem books_free {m : Mbuf} {l l' : List Mbuf} (hp : (s.freed ++ l).Perm s.taken)
    (hl : l.Perm (m :: l')) : (s.freed ++ [m] ++ l').Perm s.taken := by
  rw [List.append_assoc, List.singleton_append]
  exact (hl.symm.append_left s.freed).trans hp

theorem State.Inv.take {vid : Int} {m : Mbuf} (hi : s.Inv) (hp : s.producer = .dequeue vid) :
    State.Inv { s with producer := .enqueue m, taken := s.taken ++ [m] } where
  order := by
    have hold := hi.order
    simp only [State.onWay, hp, ProducerPc.onWay, List.append_nil] at hold ⊢
    simpa using hold.append (.refl [_])
  books := by
    have hold := hi.books
    simp only [State.inUse, hp, ProducerPc.held, List.append_nil] at hold ⊢
    simpa using hold.append (.refl [_])
  ring := hi.ring
  burst := hi.burst

theorem State.Inv.deliver {vid : Int} {bufs : List Mbuf} (hi : s.Inv)
    (hc : s.consumer = .enqueue vid bufs) (nbTx : Nat) :
    State.Inv { s with
      consumer := .free bufs
      delivered := s.delivered ++ (bufs.take nbTx).map (fun m => (vid, m)) } where
  order := by
    have hold := hi.order
    simp only [State.onWay, hc, ConsumerPc.onWay, List.nil_append, List.map_append, List.map_map,
      List.append_assoc] at hold ⊢
    have hsub : (List.map (Prod.snd ∘ fun m => (vid, m)) (bufs.take nbTx)).Sublist bufs := by
      rw [show (Prod.snd ∘ fun m : Mbuf => (vid, m)) = id from rfl, List.map_id]
      exact List.take_sublist nbTx bufs
    exact ((List.Sublist.refl _).append (hsub.append (.refl _))).trans hold
  books := by simpa [State.inUse, hc, ConsumerPc.held] using hi.books
  ring := hi.ring
  burst := by simpa [hc, ConsumerPc.held] using hi.burst

theorem State.Inv.consumerFree {m : Mbuf} {bufs : List Mbuf} {pc : ConsumerPc} (hi : s.Inv)
    (hc : s.consumer = .free (m :: bufs)) (hpc : pc = .loadVid ∧ bufs = [] ∨ pc = .free bufs) :
    State.Inv { s with consumer := pc, freed := s.freed ++ [m] } := by
  have hheld : pc.held = bufs ∧ pc.onWay = [] := by
    rcases hpc with ⟨rfl, rfl⟩ | rfl
    · exact ⟨rfl, rfl⟩
    · exact ⟨rfl, rfl⟩
  have hold : s.consumer.held = m :: bufs ∧ s.consumer.onWay = [] := by
    rw [hc]
    exact ⟨rfl, rfl⟩
  refine ⟨?_, ?_, hi.ring, ?_⟩
  · have horder := hi.order
    simp only [State.onWay, hold.2, hheld.2] at horder ⊢
    exact horder
  · apply books_free hi.books
    simp only [State.inUse, hold.1, hheld.1, List.cons_append]
    exact .refl _
  · have hburst := hi.burst
    simp only [hold.1, hheld.1, List.length_cons] at hburst ⊢
    omega

theorem State.Inv.ring_drop (hi : s.Inv) : (s.ring.drop burstSize).length ≤ ringSize - 1 := by
  have hring := hi.ring
  rw [List.length_drop]
  omega

theorem step_inv (hi : s.Inv) (h : step s a = some s') : s'.Inv := by
  cases step_cases h with
  | newDevice hvid => exact hi.of_same rfl rfl rfl (.refl _) rfl hi.ring hi.burst
  | storeReady => exact hi.of_same rfl rfl rfl (.refl _) rfl hi.ring hi.burst
  | destroyDevice => exact hi.of_same rfl rfl rfl (.refl _) rfl hi.ring hi.burst
  | spin => exact hi
  | loadReady hp | noDevice hp | producerVid hp hvid | nothing hp =>
    refine hi.of_same rfl rfl rfl ?_ ?_ hi.ring hi.burst
    · simp [State.onWay, ProducerPc.onWay]
    · simp [State.inUse, hp, ProducerPc.held]
  | take hp hm => exact hi.take hp
  | push hp hroom =>
    refine hi.of_same rfl rfl rfl ?_ ?_ ?_ hi.burst
    · simp [State.onWay, hp, ProducerPc.onWay]
    · simp [State.inUse, hp, ProducerPc.held]
    · simp only [List.length_append, List.length_singleton]
      omega
  | full hp =>
    refine hi.of_same rfl rfl rfl ?_ ?_ hi.ring hi.burst
    · simp [State.onWay, ProducerPc.onWay]
    · simp [State.inUse, hp, ProducerPc.held]
  | @producerFree m hp =>
    refine ⟨?_, ?_, hi.ring, hi.burst⟩
    · simpa [State.onWay, hp, ProducerPc.onWay] using hi.order
    · apply books_free hi.books
      simp only [State.inUse, hp, ProducerPc.held, List.append_nil]
      exact List.perm_append_singleton m _
  | consumerVid hc =>
    refine hi.of_same rfl rfl rfl ?_ ?_ hi.ring (Nat.zero_le _)
    · simp [State.onWay, ConsumerPc.onWay]
    · simp [State.inUse, hc, ConsumerPc.held]
  | empty hc hr =>
    refine hi.of_same rfl rfl rfl ?_ ?_ ?_ (Nat.zero_le _)
    · simp [State.onWay, ConsumerPc.onWay, hr]
    · simp [State.inUse, hc, ConsumerPc.held, hr]
    · simp [hr]
  | discard hc hvid =>
    refine hi.of_same rfl rfl rfl ?_ ?_ hi.ring_drop (List.length_take_le _ _)
    · simp only [State.onWay, hc, ConsumerPc.onWay, List.nil_append]
      exact (List.drop_sublist _ _).append (.refl _)
    · simp [State.inUse, hc, ConsumerPc.held]
  | pop hc hvid =>
    refine hi.of_same rfl rfl rfl ?_ ?_ hi.ring_drop (List.length_take_le _ _)
    · simp [State.onWay, hc, ConsumerPc.onWay, ← List.append_assoc]
    · simp [State.inUse, hc, ConsumerPc.held]
  | deliver hc => exact hi.deliver hc _
  | consumerFree hc hpc => exact hi.consumerFree hc hpc

/-- In every run, what is delivered was taken, in the order of taking; every packet taken has been
freed once or is in use, and few are. -/
theorem lbk_in_order (as : List Act) (s : State) (h : Transition.run step init as = some s) :
    (s.delivered.map Prod.snd).Sublist s.taken ∧ (s.freed ++ s.inUse).Perm s.taken ∧
      s.inUse.length ≤ 1 + (ringSize - 1) + burstSize := by
  have hi : s.Inv := Transition.run_invariant (fun s a s' hi hs => step_inv hi hs) init_inv h
  refine ⟨(List.sublist_append_left _ _).trans hi.order, hi.books, ?_⟩
  have hproducer : s.producer.held.length ≤ 1 := by
    cases s.producer with
    | enqueue pkt | free pkt => exact Nat.le_refl 1
    | loadReady | loadVid | dequeue vid => exact Nat.zero_le 1
  have hring := hi.ring
  have hburst := hi.burst
  simp only [State.inUse, List.length_append]
  omega

/-- Two machines connect; both threads still have the first one when the second has come. -/
def twoMachines : List Act :=
  [.newDevice 0, .storeReady, .producerLoad, .producerLoad, .consumerLoad, .newDevice 1]

/-- The producer takes one more packet of the first machine, the consumer sends it there. -/
def lastOfFirst : List Act :=
  [.vhostDequeue (some ⟨0, 0⟩), .ringEnqueue, .ringDequeue, .vhostEnqueue 1, .consumerFree,
    .producerLoad, .producerLoad, .vhostDequeue (some ⟨0, 1⟩)]

theorem lbk_in_order_first : ∃ s, Transition.run step init (twoMachines ++ lastOfFirst) = some s ∧
    s.taken = [⟨0, 0⟩, ⟨0, 1⟩] ∧ (s.delivered.map Prod.snd).Sublist s.taken ∧
      (s.freed ++ s.inUse).Perm s.taken ∧ s.inUse.length ≤ 1 + (ringSize - 1) + burstSize := by
  obtain ⟨s, hr, htaken⟩ : ∃ s, Transition.run step init (twoMachines ++ lastOfFirst) = some s ∧
      s.taken = [⟨0, 0⟩, ⟨0, 1⟩] := ⟨_, rfl, rfl⟩
  exact ⟨s, hr, htaken, lbk_in_order _ s hr⟩

/-! ## The devices -/

def Act.callback : Act → Bool
  | .newDevice _ | .destroyDevice => true
  | _ => false

/-- The device a thread has read from `g_vid` and not used yet. -/
def ProducerPc.vid : ProducerPc → Option Int
  | .dequeue vid => some vid
  | _ => none

def ConsumerPc.vid : ConsumerPc → Option Int
  | .dequeue vid | .enqueue vid _ => some vid
  | _ => none

/-- Neither thread calls the vhost library without a device. -/
structure State.Live (s : State) : Prop where
  producer : ∀ vid, s.producer = .dequeue vid → vid ≠ -1
  consumer : ∀ vid bufs, s.consumer = .enqueue vid bufs → vid ≠ -1

theorem init_live : init.Live := ⟨nofun, nofun⟩

theorem step_live (hl : s.Live) (h : step s a = some s') : s'.Live := by
  obtain ⟨hp, hc⟩ := hl
  cases step_cases h with
  | producerVid _ hvid =>
    refine ⟨?_, hc⟩
    intro vid heq
    cases heq
    exact hvid
  | pop _ hvid =>
    refine ⟨hp, ?_⟩
    intro vid bufs heq
    cases heq
    exact hvid
  | consumerFree _ hpc =>
    refine ⟨hp, ?_⟩
    rintro vid bufs rfl
    simp at hpc
  | newDevice | storeReady | destroyDevice | spin => exact ⟨hp, hc⟩
  | loadReady | noDevice | nothing | take | push | full | producerFree => exact ⟨nofun, hc⟩
  | consumerVid | empty | discard | deliver => exact ⟨hp, nofun⟩

variable {s₀ : State} {v : Int}

/-- Since `s₀`, at most one packet was not taken from `v`; a thread that has still to use another
device has not taken any. -/
def TakenSince (s₀ : State) (v : Int) (s : State) : Prop :=
  ∃ stale new, s.taken = s₀.taken ++ stale ++ new ∧ stale.length ≤ 1 ∧
    (∀ m ∈ new, m.source = v ∧ v ≠ -1) ∧ (∀ vid, s.producer.vid = some vid → vid = v ∨ stale = [] ∧ new = [])

/-- Since `s₀`, at most one burst was not delivered to `v`. -/
def DeliveredSince (s₀ : State) (v : Int) (s : State) : Prop :=
  ∃ stale new, s.delivered = s₀.delivered ++ stale ++ new ∧ stale.length ≤ burstSize ∧
    (∀ d ∈ new, d.1 = v ∧ v ≠ -1) ∧ (∀ vid, s.consumer.vid = some vid → vid = v ∨ stale = [] ∧ new = [])

theorem takenSince_refl (s : State) (v : Int) : TakenSince s v s :=
  ⟨[], [], by simp, by simp, nofun, fun _ _ => .inr ⟨rfl, rfl⟩⟩

theorem deliveredSince_refl (s : State) (v : Int) : DeliveredSince s v s :=
  ⟨[], [], by simp, by simp, nofun, fun _ _ => .inr ⟨rfl, rfl⟩⟩

theorem TakenSince.of_vid (h : TakenSince s₀ v s) (ht : s'.taken = s.taken)
    (hp : ∀ vid, s'.producer.vid = some vid → s.producer.vid = some vid ∨ vid = v) :
    TakenSince s₀ v s' := by
  obtain ⟨stale, new, htaken, hlen, hnew, hvid⟩ := h
  refine ⟨stale, new, ht.trans htaken, hlen, hnew, ?_⟩
  intro vid hv
  rcases hp vid hv with hv | hv
  · exact hvid vid hv
  · exact .inl hv

theorem DeliveredSince.of_vid (h : DeliveredSince s₀ v s) (hd : s'.delivered = s.delivered)
    (hc : ∀ vid, s'.consumer.vid = some vid → s.consumer.vid = some vid ∨ vid = v) :
    DeliveredSince s₀ v s' := by
  obtain ⟨stale, new, hdel, hlen, hnew, hvid⟩ := h
  refine ⟨stale, new, hd.trans hdel, hlen, hnew, ?_⟩
  intro vid hv
  rcases hc vid hv with hv | hv
  · exact hvid vid hv
  · exact .inl hv

theorem TakenSince.take {m : Mbuf} {vid : Int} (h : TakenSince s₀ v s) (hl : s.Live)
    (hp : s.producer = .dequeue vid) (hm : m.source = vid) :
    TakenSince s₀ v { s with producer := .enqueue m, taken := s.taken ++ [m] } := by
  obtain ⟨stale, new, htaken, hlen, hnew, hvid⟩ := h
  have hat : s.producer.vid = some vid := by rw [hp]; rfl
  have hne : vid ≠ -1 := hl.producer vid hp
  by_cases hv : vid = v
  · subst hv
    refine ⟨stale, new ++ [m], by simp [htaken], hlen, ?_, nofun⟩
    intro d hd
    rcases List.mem_append.mp hd with hd | hd
    · exact hnew d hd
    · cases List.mem_singleton.mp hd
      exact ⟨hm, hne⟩
  · rcases hvid vid hat with hv' | ⟨rfl, rfl⟩
    · exact absurd hv' hv
    · exact ⟨[m], [], by simp [htaken], Nat.le_refl 1, nofun, nofun⟩

theorem DeliveredSince.deliver {vid : Int} {bufs : List Mbuf} (h : DeliveredSince s₀ v s)
    (hi : s.Inv) (hl : s.Live) (hc : s.consumer = .enqueue vid bufs) (nbTx : Nat) :
    DeliveredSince s₀ v { s with
      consumer := .free bufs
      delivered := s.delivered ++ (bufs.take nbTx).map (fun m => (vid, m)) } := by
  obtain ⟨stale, new, hdel, hlen, hnew, hvid⟩ := h
  have hat : s.consumer.vid = some vid := by rw [hc]; rfl
  have hne : vid ≠ -1 := hl.consumer vid bufs hc
  have hburst : bufs.length ≤ burstSize := by
    have hb := hi.burst
    rwa [hc] at hb
  by_cases hv : vid = v
  · subst hv
    refine ⟨stale, new ++ (bufs.take nbTx).map (fun m => (vid, m)), by simp [hdel], hlen, ?_, nofun⟩
    intro d hd
    rcases List.mem_append.mp hd with hd | hd
    · exact hnew d hd
    · obtain ⟨m, -, rfl⟩ := List.mem_map.mp hd
      exact ⟨rfl, hne⟩
  · rcases hvid vid hat with hv' | ⟨rfl, rfl⟩
    · exact absurd hv' hv
    · refine ⟨(bufs.take nbTx).map (fun m => (vid, m)), [], by simp [hdel], ?_, nofun, nofun⟩
      rw [List.length_map]
      exact Nat.le_trans (List.length_take_le' _ _) hburst

/-- What holds in a run from `s₀` on in which no device comes or goes. -/
structure Since (s₀ s : State) : Prop where
  inv : s.Inv
  live : s.Live
  gVid : s.gVid = s₀.gVid
  taken : TakenSince s₀ s₀.gVid s
  delivered : DeliveredSince s₀ s₀.gVid s

theorem since_step (hs : Since s₀ s) (hquiet : a.callback = false) (h : step s a = some s') :
    Since s₀ s' := by
  have hi : s'.Inv := step_inv hs.inv h
  have hl : s'.Live := step_live hs.live h
  have ht := hs.taken
  have hd := hs.delivered
  cases step_cases h with
  | newDevice hvid => cases hquiet
  | destroyDevice => cases hquiet
  | storeReady => exact ⟨hi, hl, hs.gVid, ht, hd⟩
  | spin => exact hs
  | loadReady hp | noDevice hp | nothing hp | push hp hroom | full hp | producerFree hp =>
    exact ⟨hi, hl, hs.gVid, ht.of_vid rfl nofun, hd⟩
  | producerVid hp hvid =>
    refine ⟨hi, hl, hs.gVid, ht.of_vid rfl ?_, hd⟩
    intro vid hv
    exact .inr ((Option.some.inj hv).symm.trans hs.gVid)
  | take hp hm => exact ⟨hi, hl, hs.gVid, ht.take hs.live hp hm, hd⟩
  | consumerVid hc =>
    refine ⟨hi, hl, hs.gVid, ht, hd.of_vid rfl ?_⟩
    intro vid hv
    exact .inr ((Option.some.inj hv).symm.trans hs.gVid)
  | empty hc hr => exact ⟨hi, hl, hs.gVid, ht, hd.of_vid rfl nofun⟩
  | discard hc hvid => exact ⟨hi, hl, hs.gVid, ht, hd.of_vid rfl nofun⟩
  | pop hc hvid =>
    refine ⟨hi, hl, hs.gVid, ht, hd.of_vid rfl ?_⟩
    intro vid hv
    rw [hc]
    exact .inl hv
  | deliver hc => exact ⟨hi, hl, hs.gVid, ht, hd.deliver hs.inv hs.live hc _⟩
  | consumerFree hc hpc =>
    refine ⟨hi, hl, hs.gVid, ht, hd.of_vid rfl ?_⟩
    intro vid hv
    rcases hpc with ⟨rfl, -⟩ | rfl
    · cases hv
    · cases hv

end VirtioBench.Lbk
