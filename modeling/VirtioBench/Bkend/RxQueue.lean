import VirtioBench.Bkend.Ledger
import VirtioBench.Bkend.Enqueue

/- The receive virtqueue: one `enqueue` worker and a guest that posts writable buffers. The
   guest writes a head into `avail.ring[idx % n]` and then increments `idx`, never with more
   than `n` heads beyond `used.idx`; it may write any descriptor and any byte at any time.

   The worker tests once for each frame that there is an entry, and then takes three buffers:
   behind a descriptor with `next` the one it links to, behind another the next slot of the
   ring, without a further look at `avail.idx`. Whatever it took, `last_avail_idx` goes up by
   three. `consumed` records the heads that it took from the ring, `fromRing` whether the
   buffer it is about to take is one; no branch reads them.

   `rx_consumes_posted` — as long as the next buffer is taken from the ring and its entry is
   there by then, the heads consumed are those posted, in order, each once;
   `last_avail_idx` does not pass them, and at the head of the loop it is their number. -/
namespace VirtioBench.Bkend

structure Rx where
  sh : RxShared
  w : RxWorker
  slotWritten : Bool
  posted : List UInt16
  fromRing : Bool
  consumed : List UInt16

inductive RxAct where
  | worker
  | writeDesc (i : Nat) (d : VringDesc)
  | writeByte (addr : UInt64) (x : UInt8)
  | writeFlags (flags : UInt16)
  | writeSlot (head : UInt16)
  | advance
  deriving DecidableEq, Repr

namespace Rx

def vq (t : Rx) : VhVirtqueue := t.sh.bk.rx
def avail (t : Rx) : VringAvail := t.sh.mem.avail t.vq.avail
def used (t : Rx) : VringUsed := t.sh.mem.used t.vq.used

/-- The descriptor the worker is at. -/
def here (t : Rx) : VringDesc := t.sh.mem.desc t.w.desc t.w.i.toNat

/-- The entries written to the used ring: what `last_avail_idx` has gone up by. -/
def advances (t : Rx) : Nat := (t.sh.trace.filterMap RxEvent.usedLen).length

/-- Fewer than `n` heads beyond `used.idx`. -/
def Room (n : Nat) (t : Rx) : Prop := (t.avail.idx - t.used.idx).toNat < n

instance Room.decidable (n : Nat) (t : Rx) : Decidable (t.Room n) := inferInstanceAs (Decidable (_ < _))

def guest (t : Rx) (g : GuestWrite) : Rx := { t with sh := { t.sh with mem := g.apply t.sh.mem } }

/-- The worker after a step, with the head it has consumed. -/
def worked (t : Rx) (r : RxShared × RxWorker) : Rx :=
  match t.w.pc with
  | .fetch => { t with sh := r.1, w := r.2, fromRing := true }
  | .collect =>
    if t.here.flags &&& vringDescFWrite = 0 then { t with sh := r.1, w := r.2 }
    else { t with
      sh := r.1
      w := r.2
      consumed := if t.fromRing then t.consumed ++ [t.w.i] else t.consumed
      fromRing := t.here.flags &&& vringDescFNext = 0 }
  | _ => { t with sh := r.1, w := r.2 }

/-- The guest writes `head` into the slot it posts next. -/
def slotted (n : Nat) (t : Rx) (head : UInt16) : Rx :=
  { t.guest (.availRing t.vq.avail (t.avail.idx.toNat % n) head) with slotWritten := true }

/-- The guest posts the head in that slot. -/
def advanced (n : Nat) (t : Rx) : Rx :=
  { t.guest (.availIdx t.vq.avail (t.avail.idx + 1)) with
    slotWritten := false
    posted := t.posted ++ [t.avail.ring (t.avail.idx.toNat % n)] }

/-- The flags of the avail ring. -/
def flagged (t : Rx) (flags : UInt16) : Rx :=
  { t with sh := { t.sh with availFlags := Function.update t.sh.availFlags t.vq.avail flags } }

end Rx

/-- One step of the worker, or of the guest. -/
def rxQueueStep (n : Nat) (t : Rx) : RxAct → Option Rx
  | .worker => (rxStep t.sh t.w).map t.worked
  | .writeDesc i d => some (t.guest (.desc t.vq.desc i d))
  | .writeByte addr x => some (t.guest (.byte addr x))
  | .writeFlags flags => some (t.flagged flags)
  | .writeSlot head => if t.Room n then some (t.slotted n head) else none
  | .advance => if t.slotWritten ∧ t.Room n then some (t.advanced n) else none

/-- The worker started on the queue as it stands, with `posted` already in it. -/
def rxStart (b : Backend) (mem : GuestMemory) (availFlags : UInt64 → UInt16) (rxcnt : UInt32)
    (garbage : Nat → UInt8) (posted : List UInt16) : Rx where
  sh := ⟨b, mem, availFlags, []⟩
  w := enqueue b rxcnt garbage
  slotWritten := false
  posted := posted
  fromRing := false
  consumed := []

/-- A buffer that is not the last is followed by an entry of the ring, and the entry is there. -/
def Rx.fed (t : Rx) : RxAct → Bool
  | .worker =>
    t.w.pc ≠ .collect || t.here.flags &&& vringDescFWrite = 0 || t.w.bufVec.length + 1 = nbufs ||
      (t.here.flags &&& vringDescFNext = 0 &&
        t.w.bufVec.length + 1 < (t.avail.idx - t.vq.lastAvailIdx).toNat)
  | _ => true

/-- What the worker has consumed is what was posted, and it counts it right. -/
structure Rx.Fair (base : Nat) (t : Rx) : Prop where
  count : t.vq.lastAvailIdx.toNat = (base + t.advances) % 2 ^ 16
  available : t.advances ≤ t.posted.length
  once : t.consumed <+: t.posted
  exact : t.w.pc = .head → t.advances = t.consumed.length

/-! ## The invariant -/

namespace Rx

/-- The counters, and the avail ring as a window on the heads that are not returned. -/
structure Queue (n base : Nat) (t : Rx) : Prop where
  bounded : t.posted.length ≤ t.advances + n
  processed : t.advances ≤ t.consumed.length
  consumed : t.consumed <+: t.posted
  availIdx : t.avail.idx.toNat = (base + t.posted.length) % 2 ^ 16
  lastAvail : t.vq.lastAvailIdx.toNat = (base + t.advances) % 2 ^ 16
  lastUsed : t.vq.lastUsedIdx = t.vq.lastAvailIdx
  usedIdx : t.used.idx = t.vq.lastUsedIdx
  heads : Window.Shows n t.avail.ring (base + t.advances) (t.posted.drop t.advances)

/-- The worker is at the head that was posted next. -/
structure Collecting (n base : Nat) (t : Rx) : Prop where
  fromRing : t.fromRing = true
  len : t.w.bufVec.length < nbufs
  consumed : t.consumed.length = t.advances + t.w.bufVec.length
  slot : t.w.aIdx.toNat = (base + t.advances) % n + t.w.bufVec.length
  head : t.posted[t.consumed.length]? = some t.w.i

def AtPc (n base : Nat) (t : Rx) : RxPc → Prop
  | .head | .finish | .exited => t.consumed.length = t.advances
  | .fetch => t.consumed.length = t.advances ∧ t.advances < t.posted.length
  | .collect => t.Collecting n base
  | .scatter => t.w.cnt < nbufs ∧ t.consumed.length = t.advances + (nbufs - t.w.cnt)
  | .fewBuffers | .halted _ => True

structure Inv (n base : Nat) (t : Rx) : Prop where
  avail : t.w.avail = t.vq.avail
  used : t.w.used = t.vq.used
  size : t.w.size.toNat = n
  queue : t.Queue n base
  pc : t.AtPc n base t.w.pc

end Rx

section Steps
variable {n base : Nat} {t t' : Rx}

/-- A step that leaves the rings and the counters alone. -/
theorem Rx.Queue.congr (hq : t.Queue n base) (hposted : t'.posted = t.posted)
    (hadvances : t'.advances = t.advances) (hvq : t'.vq = t.vq) (havail : t'.avail = t.avail)
    (hused : t'.used = t.used) (hprocessed : t.advances ≤ t'.consumed.length)
    (hconsumed : t'.consumed <+: t.posted) : t'.Queue n base where
  bounded := by rw [hposted, hadvances]; exact hq.bounded
  processed := by rw [hadvances]; exact hprocessed
  consumed := by rw [hposted]; exact hconsumed
  availIdx := by rw [havail, hposted]; exact hq.availIdx
  lastAvail := by rw [hvq, hadvances]; exact hq.lastAvail
  lastUsed := by rw [hvq]; exact hq.lastUsed
  usedIdx := by rw [hused, hvq]; exact hq.usedIdx
  heads := by rw [havail, hadvances, hposted]; exact hq.heads

theorem Rx.Queue.consumed_le (hq : t.Queue n base) : t.consumed.length ≤ t.posted.length :=
  hq.consumed.length_le

/-- How many entries the backend has not taken. -/
theorem Rx.Queue.waiting (hq : t.Queue n base) (hlt : n < 2 ^ 16) :
    (t.avail.idx - t.vq.lastAvailIdx).toNat = t.posted.length - t.advances := by
  have h1 := hq.processed
  have h2 := hq.consumed_le
  have h3 := hq.bounded
  rw [toNat_sub_idx hq.lastAvail hq.availIdx (by omega) (by omega)]
  omega

/-- The slot of a position that is posted and not returned holds its head. -/
theorem Rx.Queue.slot_head (hq : t.Queue n base) {p : Nat} (hp : t.advances ≤ p)
    (hlt : p < t.posted.length) :
    t.posted[p]? = some (t.avail.ring ((base + p) % n)) := by
  have hk : (t.posted.drop t.advances)[p - t.advances]? = some t.posted[p] := by
    rw [List.getElem?_drop, Nat.add_sub_cancel' hp, List.getElem?_eq_getElem hlt]
  have hshow := hq.heads _ _ hk
  rw [Nat.add_assoc, Nat.add_sub_cancel' hp] at hshow
  rw [hshow, List.getElem?_eq_getElem hlt]

theorem modU32_toNat {x : UInt16} {size : UInt32} (hsize : size.toNat < 2 ^ 16) (hpos : 0 < size.toNat) :
    (modU32 x size).toNat = x.toNat % size.toNat := by
  have hmod : x.toNat % size.toNat < size.toNat := Nat.mod_lt _ hpos
  simp only [modU32, UInt32.toNat_toUInt16, UInt32.toNat_mod, UInt16.toNat_toUInt32]
  exact Nat.mod_eq_of_lt (by omega)

/-- The emptiness test is exact. -/
theorem Rx.Queue.empty_iff (hq : t.Queue n base) (hlt : n < 2 ^ 16) :
    t.vq.lastAvailIdx = t.avail.idx ↔ t.advances = t.posted.length := by
  have h1 := hq.processed
  have h2 := hq.consumed_le
  have h3 := hq.bounded
  rw [← UInt16.toNat_inj, hq.lastAvail, hq.availIdx, Window.mod_eq_iff (by omega) (by omega)]
  omega

/-- Events that write no used entry. -/
theorem Rx.advances_log (t : Rx) (es : List RxEvent) (hes : es.filterMap RxEvent.usedLen = []) :
    ((t.sh.log es).trace.filterMap RxEvent.usedLen).length = t.advances := by
  rw [RxShared.log, List.filterMap_append, hes, List.append_nil]
  rfl

theorem Rx.Inv.head (hi : t.Inv n base) (hlt : n < 2 ^ 16) (hpc : t.w.pc = .head) :
    (t.worked (rxHeadStep t.sh t.w)).Inv n base := by
  have hat := hi.pc
  rw [hpc] at hat
  have hq := hi.queue
  rw [Rx.worked, hpc]
  dsimp only
  unfold rxHeadStep
  split
  · split
    · next hne =>
      refine ⟨hi.avail, hi.used, hi.size,
        hq.congr rfl rfl rfl rfl rfl hq.processed hq.consumed, hat, ?_⟩
      rw [hi.avail] at hne
      have hlen := (hq.empty_iff hlt).not.mp hne
      exact Nat.lt_of_le_of_ne (hq.processed.trans hq.consumed_le) hlen
    · exact ⟨hi.avail, hi.used, hi.size,
        hq.congr rfl rfl rfl rfl rfl hq.processed hq.consumed, by simpa only [hpc] using hat⟩
  · exact ⟨hi.avail, hi.used, hi.size, hq.congr rfl rfl rfl rfl rfl hq.processed hq.consumed, hat⟩

theorem Rx.Inv.fetch (hi : t.Inv n base) (hn : n ∣ 2 ^ 16) (hlt : n < 2 ^ 16) (hpos : 0 < n)
    (hpc : t.w.pc = .fetch) : (t.worked (rxFetchStep t.sh t.w)).Inv n base := by
  have hat := hi.pc
  rw [hpc] at hat
  obtain ⟨hconsumed, hmore⟩ := hat
  have hq := hi.queue
  have hsize : t.w.size ≠ 0 := by
    intro hzero
    have hn0 := hi.size
    rw [hzero, UInt32.toNat_zero] at hn0
    omega
  have hslot : (modU32 t.vq.lastAvailIdx t.w.size).toNat = (base + t.advances) % n := by
    rw [modU32_toNat (by rw [hi.size]; exact hlt) (by rw [hi.size]; exact hpos), hi.size,
      slot_of_idx hn hq.lastAvail]
  have hhead : t.posted[t.advances]? =
      some ((t.sh.mem.avail t.w.avail).ring (modU32 t.vq.lastAvailIdx t.w.size).toNat) := by
    rw [hslot, hi.avail]
    exact hq.slot_head (Nat.le_refl _) hmore
  have hadv := t.advances_log [.availRead (modU32 t.vq.lastAvailIdx t.w.size)
    ((t.sh.mem.avail t.w.avail).ring (modU32 t.vq.lastAvailIdx t.w.size).toNat)] rfl
  rw [Rx.worked, hpc]
  dsimp only
  rw [rxFetchStep, if_neg hsize]
  refine ⟨hi.avail, hi.used, hi.size, hq.congr rfl hadv rfl rfl rfl hq.processed hq.consumed, ?_⟩
  refine ⟨rfl, Nat.zero_lt_succ _, ?_, ?_, ?_⟩
  · exact hconsumed.trans hadv.symm
  · show (modU32 t.vq.lastAvailIdx t.w.size).toNat = _
    rw [hslot, ← hadv]
    rfl
  · show t.posted[t.consumed.length]? = _
    rw [hconsumed]
    exact hhead

theorem Rx.Inv.finish (hi : t.Inv n base) (hpc : t.w.pc = .finish) :
    (t.worked (rxFinishStep t.sh t.w)).Inv n base := by
  have hat := hi.pc
  rw [hpc] at hat
  have hq := hi.queue
  have hadv := t.advances_log [.kick] rfl
  rw [Rx.worked, hpc]
  dsimp only
  unfold rxFinishStep
  dsimp only
  split <;> split
  · exact ⟨hi.avail, hi.used, hi.size, hq.congr rfl hadv rfl rfl rfl hq.processed hq.consumed,
      hat.trans hadv.symm⟩
  · exact ⟨hi.avail, hi.used, hi.size, hq.congr rfl rfl rfl rfl rfl hq.processed hq.consumed, hat⟩
  · exact ⟨hi.avail, hi.used, hi.size, hq.congr rfl hadv rfl rfl rfl hq.processed hq.consumed,
      hat.trans hadv.symm⟩
  · exact ⟨hi.avail, hi.used, hi.size, hq.congr rfl rfl rfl rfl rfl hq.processed hq.consumed, hat⟩

/-- The worker has taken the head it is at. -/
theorem Rx.Queue.take (hq : t.Queue n base) (hc : t.Collecting n base)
    (hposted : t'.posted = t.posted) (hadvances : t'.advances = t.advances) (hvq : t'.vq = t.vq)
    (havail : t'.avail = t.avail) (hused : t'.used = t.used)
    (hconsumed : t'.consumed = t.consumed ++ [t.w.i]) : t'.Queue n base := by
  refine hq.congr hposted hadvances hvq havail hused ?_ ?_
  · rw [hconsumed, List.length_append]
    exact hq.processed.trans (Nat.le_add_right _ _)
  · rw [hconsumed]
    exact prefix_snoc hq.consumed hc.head

/-- The next slot of the ring holds the head that is posted next. -/
theorem Rx.Collecting.next (hc : t.Collecting n base) (hi : t.Inv n base) (hle : n ≤ 2 ^ 15)
    (hpos : 0 < n) (hmore : t.w.bufVec.length + 1 < (t.avail.idx - t.vq.lastAvailIdx).toNat) :
    (t.w.aIdx + 1).toNat = (base + t.advances) % n + (t.w.bufVec.length + 1) ∧
    t.posted[t.consumed.length + 1]? =
      some ((t.sh.mem.avail t.w.avail).ring (modU32 (t.w.aIdx + 1) t.w.size).toNat) := by
  have hq := hi.queue
  have hslot := hc.slot
  have hlen : t.w.bufVec.length < 3 := hc.len
  have hmod : (base + t.advances) % n < n := Nat.mod_lt _ hpos
  have haIdx : (t.w.aIdx + 1).toNat = (base + t.advances) % n + (t.w.bufVec.length + 1) := by
    rw [UInt16.toNat_add, UInt16.toNat_one, Nat.mod_eq_of_lt (by omega)]
    omega
  refine ⟨haIdx, ?_⟩
  rw [hq.waiting (by omega)] at hmore
  have hcount := hc.consumed
  have hhead := hq.slot_head (p := t.consumed.length + 1) (by omega) (by omega)
  rw [hhead, hi.avail, modU32_toNat (by rw [hi.size]; omega) (by rw [hi.size]; exact hpos), hi.size,
    haIdx, hcount, Nat.mod_add_mod, ← Nat.add_assoc, ← Nat.add_assoc, ← Nat.add_assoc]
  rfl

/-- The frame has its last buffer: as many heads are taken as buffers are to be returned. -/
theorem Rx.Inv.collectLast (hi : t.Inv n base) (hc : t.Collecting n base)
    (hlast : t.w.bufVec.length + 1 = nbufs) (hwrite : ¬ t.here.flags &&& vringDescFWrite = 0) :
    ({ t with
      sh := (rxCollectStep t.sh t.w).1
      w := (rxCollectStep t.sh t.w).2
      consumed := t.consumed ++ [t.w.i]
      fromRing := t.here.flags &&& vringDescFNext = 0 } : Rx).Inv n base := by
  have hq := hi.queue
  have hcount : (t.consumed ++ [t.w.i]).length = t.advances + (nbufs - 0) := by
    rw [List.length_append, List.length_singleton, hc.consumed]
    omega
  rw [Rx.here] at hwrite
  rw [rxCollectStep, if_neg hwrite, RxWorker.collect, if_pos hlast]
  dsimp only
  split
  · exact ⟨hi.avail, hi.used, hi.size, hq.take hc rfl rfl rfl rfl rfl rfl, Nat.zero_lt_succ _, hcount⟩
  · have hadv := t.advances_log [.availRead (modU32 (t.w.aIdx + 1) t.w.size)
      ((t.sh.mem.avail t.w.avail).ring (modU32 (t.w.aIdx + 1) t.w.size).toNat)] rfl
    refine ⟨hi.avail, hi.used, hi.size, hq.take hc rfl hadv rfl rfl rfl rfl, Nat.zero_lt_succ _, ?_⟩
    rw [← hadv] at hcount
    exact hcount

/-- The next buffer is in the next slot of the ring. -/
theorem Rx.Inv.collectMore (hi : t.Inv n base) (hc : t.Collecting n base) (hle : n ≤ 2 ^ 15)
    (hpos : 0 < n) (hpc : t.w.pc = .collect) (hlast : ¬ t.w.bufVec.length + 1 = nbufs)
    (hwrite : ¬ t.here.flags &&& vringDescFWrite = 0)
    (hnext : t.here.flags &&& vringDescFNext = 0)
    (hmore : t.w.bufVec.length + 1 < (t.avail.idx - t.vq.lastAvailIdx).toNat) :
    ({ t with
      sh := (rxCollectStep t.sh t.w).1
      w := (rxCollectStep t.sh t.w).2
      consumed := t.consumed ++ [t.w.i]
      fromRing := t.here.flags &&& vringDescFNext = 0 } : Rx).Inv n base := by
  have hq := hi.queue
  obtain ⟨haIdx, hhead⟩ := hc.next hi hle hpos hmore
  have hlen := hc.len
  have hadv := t.advances_log [.availRead (modU32 (t.w.aIdx + 1) t.w.size)
    ((t.sh.mem.avail t.w.avail).ring (modU32 (t.w.aIdx + 1) t.w.size).toNat)] rfl
  have hfrom : decide (t.here.flags &&& vringDescFNext = 0) = true := decide_eq_true hnext
  rw [Rx.here] at hwrite hnext
  rw [rxCollectStep, if_neg hwrite, RxWorker.collect, if_neg hlast, if_neg (not_not.mpr hnext)]
  refine ⟨hi.avail, hi.used, hi.size, hq.take hc rfl hadv rfl rfl rfl rfl, ?_⟩
  dsimp only
  rw [hpc]
  refine ⟨hfrom, ?_, ?_, ?_, ?_⟩
  · show (t.w.bufVec ++ [_]).length < nbufs
    rw [List.length_append, List.length_singleton]
    omega
  · show (t.consumed ++ [_]).length = _ + (t.w.bufVec ++ [_]).length
    rw [List.length_append, List.length_append, List.length_singleton, List.length_singleton,
      hc.consumed, Nat.add_assoc]
    exact congrArg (· + _) hadv.symm
  · show (t.w.aIdx + 1).toNat = (base + _) % n + (t.w.bufVec ++ [_]).length
    rw [List.length_append, List.length_singleton, haIdx, ← hadv]
    rfl
  · show t.posted[(t.consumed ++ [_]).length]? = _
    rw [List.length_append, List.length_singleton]
    exact hhead

theorem Rx.Inv.collect (hi : t.Inv n base) (hle : n ≤ 2 ^ 15) (hpos : 0 < n)
    (hpc : t.w.pc = .collect) (hfed : t.fed .worker = true) :
    (t.worked (rxCollectStep t.sh t.w)).Inv n base := by
  have hc : t.Collecting n base := by
    have hat := hi.pc
    rw [hpc] at hat
    exact hat
  have hq := hi.queue
  rw [Rx.worked, hpc]
  dsimp only
  by_cases hwrite : t.here.flags &&& vringDescFWrite = 0
  · have hadv := t.advances_log [.dropping t.w.i] rfl
    rw [if_pos hwrite, rxCollectStep]
    rw [Rx.here] at hwrite
    rw [if_pos hwrite]
    exact ⟨hi.avail, hi.used, hi.size, hq.congr rfl hadv rfl rfl rfl hq.processed hq.consumed, trivial⟩
  · rw [if_neg hwrite, if_pos hc.fromRing]
    by_cases hlast : t.w.bufVec.length + 1 = nbufs
    · exact hi.collectLast hc hlast hwrite
    · simp only [Rx.fed, hpc, hwrite, hlast, ne_eq, not_true_eq_false, decide_false, Bool.false_or,
        Bool.and_eq_true, decide_eq_true_eq] at hfed
      exact hi.collectMore hc hle hpos hpc hlast hwrite hfed.1 hfed.2

/-- A buffer is returned, and both indices go up. -/
theorem Rx.Queue.giveBack (hq : t.Queue n base) (hlt : t.advances < t.consumed.length)
    (hposted : t'.posted = t.posted) (hconsumed : t'.consumed = t.consumed)
    (hadvances : t'.advances = t.advances + 1) (hvq : t'.vq = t.vq.advance)
    (havail : t'.avail = t.avail) (hused : t'.used.idx = t'.vq.lastUsedIdx) : t'.Queue n base where
  bounded := by
    have hb := hq.bounded
    rw [hposted, hadvances]
    omega
  processed := by rw [hadvances, hconsumed]; exact hlt
  consumed := by rw [hconsumed, hposted]; exact hq.consumed
  availIdx := by rw [havail, hposted]; exact hq.availIdx
  lastAvail := by rw [hvq, hadvances]; exact toNat_succ hq.lastAvail
  lastUsed := by
    show t'.vq.lastUsedIdx = t'.vq.lastAvailIdx
    rw [hvq, VhVirtqueue.advance, hq.lastUsed]
  usedIdx := hused
  heads := by
    have hdrop := hq.heads.drop 1
    rw [List.drop_drop] at hdrop
    rw [havail, hadvances, hposted]
    exact hdrop

/-- The copies to a buffer change bytes only. -/
theorem fill_mem (w : RxWorker) (sh : RxShared) (va : UInt64) :
    (w.fill sh va).1.mem.avail = sh.mem.avail ∧ (w.fill sh va).1.mem.used = sh.mem.used := by
  unfold RxWorker.fill
  split <;> exact ⟨rfl, rfl⟩

theorem giveBack_spec (sh : RxShared) (used : UInt64) (uIdx : UInt16) (elem : VringUsedElem) :
    (sh.giveBack used uIdx elem).bk.rx = sh.bk.rx.advance ∧
    (sh.giveBack used uIdx elem).mem.avail = sh.mem.avail ∧
    ((sh.giveBack used uIdx elem).mem.used used).idx = sh.bk.rx.advance.lastUsedIdx := by
  refine ⟨setVq_self .., rfl, ?_⟩
  rw [RxShared.giveBack, setUsedIdx_used]

/-- One used entry for a buffer. -/
theorem Rx.advances_scatter (t : Rx) (va : UInt64) (elem : VringUsedElem) :
    (((t.w.fill t.sh va).1.giveBack t.w.used t.w.uIdx elem).trace.filterMap RxEvent.usedLen).length =
      t.advances + 1 := by
  rw [RxShared.giveBack, (fill_spec t.w t.sh va).1, List.filterMap_append, List.filterMap_append,
    copies_usedLen, List.append_nil, List.length_append]
  rfl

theorem Rx.Inv.scatter (hi : t.Inv n base) (hpc : t.w.pc = .scatter) :
    (t.worked (rxScatterStep t.sh t.w)).Inv n base := by
  have hat := hi.pc
  rw [hpc] at hat
  obtain ⟨hcnt, hcount⟩ := hat
  have hq := hi.queue
  rw [Rx.worked, hpc]
  dsimp only
  unfold rxScatterStep
  cases hva : gpaToVa t.sh.bk (t.w.vec t.w.cnt).bufAddr false with
  | error e =>
    exact ⟨hi.avail, hi.used, hi.size, hq.congr rfl rfl rfl rfl rfl hq.processed hq.consumed, trivial⟩
  | ok va =>
    dsimp only
    have hadv := t.advances_scatter va ⟨(t.w.vec t.w.cnt).descIdx, (t.w.fill t.sh va).2⟩
    obtain ⟨hrx, havail, hidx⟩ := giveBack_spec (t.w.fill t.sh va).1 t.w.used t.w.uIdx
      ⟨(t.w.vec t.w.cnt).descIdx, (t.w.fill t.sh va).2⟩
    rw [(fill_spec t.w t.sh va).2.1] at hrx hidx
    rw [(fill_mem t.w t.sh va).1] at havail
    refine ⟨?_, ?_, hi.size, hq.giveBack (by omega) rfl rfl hadv hrx ?_ ?_, ?_⟩
    · rw [Rx.vq, hrx]
      exact hi.avail
    · rw [Rx.vq, hrx]
      exact hi.used
    · rw [Rx.avail, Rx.vq, hrx, havail]
      rfl
    · rw [Rx.used, Rx.vq, hrx]
      show (_ : VringUsed).idx = _
      rw [show t.sh.bk.rx.advance.used = t.w.used from hi.used.symm]
      exact hidx
    · -- the heads of the frame are those of the buffers that are left
      dsimp only
      split
      · next hlt =>
        have hleft : t.consumed.length = t.advances + 1 + (nbufs - (t.w.cnt + 1)) := by omega
        rw [← hadv] at hleft
        exact ⟨hlt, hleft⟩
      · have hleft : t.consumed.length = t.advances + 1 := by omega
        exact hleft.trans hadv.symm

/-- The guest may post while the worker is at its place. -/
theorem Rx.AtPc.frame {pc : RxPc} (hat : t.AtPc n base pc) (hw : t'.w = t.w) (hsh : t'.sh.trace = t.sh.trace)
    (hfrom : t'.fromRing = t.fromRing) (hconsumed : t'.consumed = t.consumed)
    (hposted : t.posted <+: t'.posted) : t'.AtPc n base pc := by
  have hadv : t'.advances = t.advances := by rw [Rx.advances, Rx.advances, hsh]
  cases pc with
  | head | finish | exited =>
    show t'.consumed.length = t'.advances
    rw [hconsumed, hadv]
    exact hat
  | fetch =>
    refine ⟨?_, ?_⟩
    · rw [hconsumed, hadv]
      exact hat.1
    · rw [hadv]
      exact Nat.lt_of_lt_of_le hat.2 hposted.length_le
  | collect =>
    refine ⟨?_, ?_, ?_, ?_, ?_⟩
    · rw [hfrom]
      exact hat.fromRing
    · rw [hw]
      exact hat.len
    · rw [hconsumed, hadv, hw]
      exact hat.consumed
    · rw [hw, hadv]
      exact hat.slot
    · -- what is posted later comes behind the head it is at
      obtain ⟨zs, hzs⟩ := hposted
      have hlt := (List.getElem?_eq_some_iff.mp hat.head).1
      rw [hconsumed, hw, ← hzs, List.getElem?_append_left hlt]
      exact hat.head
  | scatter =>
    refine ⟨?_, ?_⟩
    · rw [hw]
      exact hat.1
    · rw [hconsumed, hadv, hw]
      exact hat.2
  | fewBuffers | halted => trivial

/-- A move of the guest that leaves the rings alone. -/
theorem Rx.Inv.quiet (hi : t.Inv n base) (hw : t'.w = t.w) (hsh : t'.sh.trace = t.sh.trace)
    (hvq : t'.vq = t.vq) (havail : t'.avail = t.avail) (hused : t'.used = t.used)
    (hfrom : t'.fromRing = t.fromRing) (hconsumed : t'.consumed = t.consumed)
    (hposted : t'.posted = t.posted) : t'.Inv n base := by
  have hq := hi.queue
  have hadv : t'.advances = t.advances := by rw [Rx.advances, Rx.advances, hsh]
  refine ⟨?_, ?_, ?_, hq.congr hposted hadv hvq havail hused ?_ ?_, ?_⟩
  · rw [hw, hvq]
    exact hi.avail
  · rw [hw, hvq]
    exact hi.used
  · rw [hw]
    exact hi.size
  · rw [hconsumed]
    exact hq.processed
  · rw [hconsumed]
    exact hq.consumed
  · rw [hw]
    exact hi.pc.frame hw hsh hfrom hconsumed (by rw [hposted])

/-- How many entries the guest has not got back. -/
theorem Rx.Queue.room (hq : t.Queue n base) (hlt : n < 2 ^ 16) :
    (t.avail.idx - t.used.idx).toNat = t.posted.length - t.advances := by
  rw [hq.usedIdx, hq.lastUsed]
  exact hq.waiting hlt

/-- The slot the guest posts next, by position. -/
theorem Rx.Queue.next_slot (hq : t.Queue n base) (hn : n ∣ 2 ^ 16) :
    t.avail.idx.toNat % n = (base + t.advances + (t.posted.drop t.advances).length) % n := by
  have hle := hq.processed.trans hq.consumed_le
  rw [List.length_drop, Nat.add_assoc, Nat.add_sub_cancel' hle, slot_of_idx hn hq.availIdx]

theorem Rx.Inv.writeSlot (hi : t.Inv n base) (hn : n ∣ 2 ^ 16) (hlt : n < 2 ^ 16)
    (hroom : t.Room n) (head : UInt16) : (t.slotted n head).Inv n base := by
  have hq := hi.queue
  rw [Rx.Room, hq.room hlt] at hroom
  have havail : (t.slotted n head).avail =
      { t.avail with ring := Function.update t.avail.ring (t.avail.idx.toNat % n) head } :=
    Function.update_self ..
  have hwrite := hq.heads.write_next (by rw [List.length_drop]; exact hroom) head
  rw [← hq.next_slot hn] at hwrite
  refine ⟨hi.avail, hi.used, hi.size, ?_, hi.pc.frame rfl rfl rfl rfl List.prefix_rfl⟩
  refine ⟨hq.bounded, hq.processed, hq.consumed, ?_, hq.lastAvail, hq.lastUsed, hq.usedIdx, ?_⟩
  · rw [havail]
    exact hq.availIdx
  · rw [havail]
    exact hwrite

theorem Rx.Inv.advance (hi : t.Inv n base) (hn : n ∣ 2 ^ 16) (hlt : n < 2 ^ 16) (hroom : t.Room n) :
    (t.advanced n).Inv n base := by
  have hq := hi.queue
  rw [Rx.Room, hq.room hlt] at hroom
  have hle := hq.processed.trans hq.consumed_le
  have havail : (t.advanced n).avail = { t.avail with idx := t.avail.idx + 1 } :=
    Function.update_self ..
  have hposted : t.posted <+: (t.advanced n).posted := List.prefix_append _ _
  have hlen : (t.advanced n).posted.length = t.posted.length + 1 := List.length_append
  refine ⟨hi.avail, hi.used, hi.size, ?_, hi.pc.frame rfl rfl rfl rfl hposted⟩
  refine ⟨?_, hq.processed, hq.consumed.trans hposted, ?_, hq.lastAvail, hq.lastUsed, hq.usedIdx, ?_⟩
  · rw [hlen]
    show _ ≤ t.advances + n
    omega
  · rw [havail, hlen, ← Nat.add_assoc]
    exact toNat_succ hq.availIdx
  · rw [havail]
    show Window.Shows n t.avail.ring (base + t.advances) ((t.posted ++ [_]).drop t.advances)
    rw [List.drop_append_of_le_length hle]
    refine hq.heads.append ?_
    rw [← hq.next_slot hn]

/-- Every step that meets the condition keeps the invariant. -/
theorem rxQueueStep_inv (hn : n ∣ 2 ^ 16) (hle : n ≤ 2 ^ 15) (a : RxAct) (hi : t.Inv n base)
    (hfed : t.fed a = true) (h : rxQueueStep n t a = some t') : t'.Inv n base := by
  have hlt : n < 2 ^ 16 := by omega
  have hpos : 0 < n := Nat.pos_of_dvd_of_pos hn (by decide)
  cases a with
  | worker =>
    obtain ⟨r, hr, rfl⟩ := Option.map_eq_some_iff.mp h
    unfold rxStep at hr
    split at hr
    · next hpc => cases hr; exact hi.head hlt hpc
    · next hpc => cases hr; exact hi.fetch hn hlt hpos hpc
    · next hpc => cases hr; exact hi.collect hle hpos hpc hfed
    · next hpc => cases hr; exact hi.scatter hpc
    · next hpc => cases hr; exact hi.finish hpc
    · cases hr
    · cases hr
    · cases hr
  | writeDesc i d => cases h; exact hi.quiet rfl rfl rfl rfl rfl rfl rfl rfl
  | writeByte addr x => cases h; exact hi.quiet rfl rfl rfl rfl rfl rfl rfl rfl
  | writeFlags flags => cases h; exact hi.quiet rfl rfl rfl rfl rfl rfl rfl rfl
  | writeSlot head =>
    dsimp only [rxQueueStep] at h
    split at h
    · next hroom => cases h; exact hi.writeSlot hn hlt hroom head
    · cases h
  | advance =>
    dsimp only [rxQueueStep] at h
    split at h
    · next hpost => cases h; exact hi.advance hn hlt hpost.2
    · cases h

end Steps

/-! ## Every run -/

/-- The heads the guest had posted when the worker was started. -/
structure RxPosted (n : Nat) (b : Backend) (mem : GuestMemory) (posted : List UInt16) : Prop where
  bounded : posted.length ≤ n
  availIdx : (mem.avail b.rx.avail).idx = (mem.used b.rx.used).idx + UInt16.ofNat posted.length
  heads : ∀ k h, posted[k]? = some h →
    (mem.avail b.rx.avail).ring (((mem.used b.rx.used).idx + UInt16.ofNat k).toNat % n) = h

theorem rxStart_inv {mem : GuestMemory} {b : Backend} {posted : List UInt16} {n : Nat}
    (availFlags : UInt64 → UInt16) (rxcnt : UInt32) (garbage : Nat → UInt8) (hn : n ∣ 2 ^ 16)
    (hsize : b.rx.size.toNat = n)
    (hidx : b.rx.lastAvailIdx = (mem.used b.rx.used).idx ∧
      b.rx.lastUsedIdx = (mem.used b.rx.used).idx)
    (hp : RxPosted n b mem posted) :
    (rxStart b mem availFlags rxcnt garbage posted).Inv n (mem.used b.rx.used).idx.toNat := by
  have hu16 := (mem.used b.rx.used).idx.toNat_lt
  refine ⟨rfl, rfl, hsize, ⟨?_, Nat.le_refl _, List.nil_prefix, ?_, ?_, ?_, ?_, ?_⟩, rfl⟩
  · show posted.length ≤ 0 + n
    rw [Nat.zero_add]
    exact hp.bounded
  · show (mem.avail b.rx.avail).idx.toNat = _
    rw [hp.availIdx, toNat_add_ofNat]
    rfl
  · show b.rx.lastAvailIdx.toNat = _
    rw [hidx.1]
    exact (Nat.mod_eq_of_lt hu16).symm
  · exact hidx.2.trans hidx.1.symm
  · exact hidx.2.symm
  · intro k h hk
    have hslot := hp.heads k h hk
    rw [slot_of_idx hn (toNat_add_ofNat _ k)] at hslot
    exact hslot

theorem Rx.Inv.fair {n base : Nat} {t : Rx} (hi : t.Inv n base) : t.Fair base where
  count := hi.queue.lastAvail
  available := hi.queue.processed.trans hi.queue.consumed_le
  once := hi.queue.consumed
  exact := by
    intro hpc
    have hat := hi.pc
    rw [hpc] at hat
    exact hat.symm

/-- **Only what was posted.** For a queue of a power-of-two size, from the state `SET_VRING_ADDR` leaves
and for every interleaving of the worker and the guest: if behind every buffer that is not the
last of its frame the worker takes an entry of the ring that is there, then `last_avail_idx`
counts the entries, does not pass those posted, and each is consumed once and in order. -/
theorem rx_consumes_posted (size : UInt32) (k : Nat) (hk : k ≤ 15) (hsize : size.toNat = 2 ^ k)
    (mem : GuestMemory) (b b' : Backend) (vra : VringAddr) (hvra : vra.index = 0)
    (hset : setVringAddr mem b vra = .ok b') (hq : b'.rx.size = size)
    (availFlags : UInt64 → UInt16) (rxcnt : UInt32) (garbage : Nat → UInt8) (posted : List UInt16)
    (hp : RxPosted size.toNat b' mem posted) (as : List RxAct) (t : Rx)
    (hr : Transition.run (rxQueueStep size.toNat) (rxStart b' mem availFlags rxcnt garbage posted) as =
      some t)
    (hfed : Transition.Meets (rxQueueStep size.toNat) (fun t a => t.fed a = true)
      (rxStart b' mem availFlags rxcnt garbage posted) as) :
    t.Fair (mem.used b'.rx.used).idx.toNat := by
  have hn : size.toNat ∣ 2 ^ 16 := by
    rw [hsize]
    exact Nat.pow_dvd_pow 2 (by omega)
  have hle : size.toNat ≤ 2 ^ 15 := by
    rw [hsize]
    exact Nat.pow_le_pow_right (by decide) hk
  have hidx := setVringAddr_idx (q := 0) (congrArg UInt32.toNat hvra) hset
  have hstart := rxStart_inv availFlags rxcnt garbage hn (congrArg UInt32.toNat hq) hidx hp
  have hstep : ∀ t a t', t.Inv size.toNat (mem.used b'.rx.used).idx.toNat → t.fed a = true →
      rxQueueStep size.toNat t a = some t' → t'.Inv size.toNat (mem.used b'.rx.used).idx.toNat :=
    fun t a t' hi ha h => rxQueueStep_inv hn hle a hi ha h
  exact (Transition.meets_invariant hstep hstart hfed hr).fair

/-- A region and queues of four slots. -/
def pageBackend : Backend := { rxShared.bk with vq := fun _ => { (default : VhVirtqueue) with size := 4 } }

def pageVra : VringAddr := ⟨0, 0x1000, 0x2000, 0x3000⟩

/-- Every descriptor is a page the backend may write; the guest has posted `c` of them. -/
def pageMemory (c : Nat) : GuestMemory where
  desc := fun _ _ => ⟨0x4000, 4096, vringDescFWrite, 0⟩
  avail := fun _ => ⟨UInt16.ofNat c, UInt16.ofNat⟩
  used := fun _ => ⟨0, fun _ => default⟩
  byte := fun _ => 0

def pageBackend' : Backend :=
  match setVringAddr (pageMemory 0) pageBackend pageVra with
  | .ok b => b
  | .error _ => pageBackend

def pagesPosted (c : Nat) : List UInt16 := (List.range c).map UInt16.ofNat

def pageStart (c : Nat) : Rx :=
  rxStart pageBackend' (pageMemory c) (fun _ => 0) 0 (fun _ => 0) (pagesPosted c)

theorem page_posted {c : Nat} (hc : c ≤ 4) : RxPosted 4 pageBackend' (pageMemory c) (pagesPosted c) where
  bounded := by
    rw [pagesPosted, List.length_map, List.length_range]
    exact hc
  availIdx := by
    show UInt16.ofNat c = 0 + UInt16.ofNat (pagesPosted c).length
    rw [pagesPosted, List.length_map, List.length_range, UInt16.zero_add]
  heads := by
    intro k h hk
    rw [pagesPosted, List.getElem?_map, Option.map_eq_some_iff] at hk
    obtain ⟨j, hj, rfl⟩ := hk
    obtain ⟨hlt, rfl⟩ := List.getElem?_eq_some_iff.mp hj
    rw [List.length_range] at hlt
    rw [List.getElem_range]
    show UInt16.ofNat ((0 + UInt16.ofNat k).toNat % 4) = UInt16.ofNat k
    rw [UInt16.zero_add, UInt16.toNat_ofNat', Nat.mod_eq_of_lt (by omega : k < 2 ^ 16),
      Nat.mod_eq_of_lt (by omega)]

/-- With three entries the frame gets all of them. -/
theorem rx_consumes_three : ∃ t,
    Transition.run (rxQueueStep 4) (pageStart 3) (List.replicate 9 .worker) = some t ∧
    t.consumed = [0, 1, 2] ∧ t.Fair 0 := by
  have hrun : (Transition.run (rxQueueStep 4) (pageStart 3) (List.replicate 9 .worker)).map
      Rx.consumed = some [0, 1, 2] := by decide
  obtain ⟨t, ht, hconsumed⟩ := Option.map_eq_some_iff.mp hrun
  refine ⟨t, ht, hconsumed, ?_⟩
  exact rx_consumes_posted 4 2 (by decide) rfl (pageMemory 3) pageBackend pageBackend' pageVra rfl rfl rfl
    (fun _ => 0) 0 (fun _ => 0) (pagesPosted 3) (page_posted (by decide)) _ t ht (by decide)

/-- With one entry the frame gets two pages more, which were not posted. -/
theorem rx_takes_unposted : setVringAddr (pageMemory 1) pageBackend pageVra = .ok pageBackend' ∧
    RxPosted 4 pageBackend' (pageMemory 1) (pagesPosted 1) ∧
    ∃ t, Transition.run (rxQueueStep 4) (pageStart 1) (List.replicate 9 .worker) = some t ∧
      t.posted = [0] ∧ t.vq.lastAvailIdx = 3 ∧ ¬ t.Fair 0 := by
  refine ⟨rfl, page_posted (by decide), ?_⟩
  have hrun : (Transition.run (rxQueueStep 4) (pageStart 1) (List.replicate 9 .worker)).map
      (fun t => (t.posted, t.vq.lastAvailIdx, t.advances)) = some ([0], 3, 3) := by decide
  obtain ⟨t, ht, hstate⟩ := Option.map_eq_some_iff.mp hrun
  rw [Prod.mk.injEq, Prod.mk.injEq] at hstate
  obtain ⟨hposted, hlast, hadv⟩ := hstate
  refine ⟨t, ht, hposted, hlast, fun hfair => ?_⟩
  have havailable := hfair.available
  rw [hposted, hadv] at havailable
  exact absurd havailable (by decide)

end VirtioBench.Bkend
