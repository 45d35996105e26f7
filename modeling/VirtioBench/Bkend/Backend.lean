import VirtioBench.Lib.Run
import Mathlib.Algebra.BigOperators.Group.List.Basic
import Mathlib.Algebra.Order.Ring.Nat
import Mathlib.Data.Fin.Basic

/- The vhost-user backend `bkend` (code_dump/nonm/bkend.c): the rings it shares with
   the guest, the region table, the two messages that set up a queue, and the
   transmit worker `dequeue`.

   Guest memory is typed: a descriptor table, an avail ring and a used ring per
   address, and the bytes of the packet buffers. The worker reads and writes it
   one access of a ring, or one descriptor of a chain, at a time; its program
   counter names the place in the source it is at, and its locals are the
   source's. What it does that can be observed goes to a trace, in order.

   Correspondence (C ↔ Lean):
     `struct vring_desc`, `vring_avail`,     ↔ `VringDesc`, `VringAvail`,
     `vring_used_elem`, `vring_used`           `VringUsedElem`, `VringUsed`
     `struct vh_virtqueue`, `device_region`, ↔ `VhVirtqueue`, `DeviceRegion`, `Backend`
     `backend`
     `qva_to_va`, `gpa_to_va`                ↔ `qvaToVa`, `gpaToVa`
     `VHOST_USER_SET_VRING_NUM`, `.._ADDR`   ↔ `setVringNum`, `setVringAddr`
     `dequeue`                               ↔ `dequeue`, `workerStep`
     a failed `assert`, `exit(1)`, a trap    ↔ `Halt`
   `size` is an `int` that the worker loads from `b->vq`, and `%` on it is C's
   (`Int.tmod`); the store to `a_idx` at the end of the loop body is dead, the
   variable being declared anew in each iteration. -/
namespace VirtioBench.Bkend

def maxLen : UInt32 := 10240
def vhostMemoryMaxNregions : Nat := 8
def vringDescFNext : UInt16 := 1
def vringDescFWrite : UInt16 := 2

/-! ## Data -/

structure VringDesc where
  addr : UInt64
  len : UInt32
  flags : UInt16
  next : UInt16
  deriving DecidableEq, Repr, Inhabited

structure VringAvail where
  idx : UInt16
  ring : Nat → UInt16
  deriving Inhabited

structure VringUsedElem where
  id : UInt32
  len : UInt32
  deriving DecidableEq, Repr, Inhabited

structure VringUsed where
  idx : UInt16
  ring : Nat → VringUsedElem
  deriving Inhabited

/-- The memory shared with the guest, by the address the backend mapped it at. -/
structure GuestMemory where
  desc : UInt64 → Nat → VringDesc
  avail : UInt64 → VringAvail
  used : UInt64 → VringUsed
  byte : UInt64 → UInt8
  deriving Inhabited

structure VhVirtqueue where
  desc : UInt64
  avail : UInt64
  used : UInt64
  lastAvailIdx : UInt16
  lastUsedIdx : UInt16
  size : UInt32
  deriving DecidableEq, Repr, Inhabited

structure DeviceRegion where
  gpa : UInt64
  size : UInt64
  qva : UInt64
  mmapOffset : UInt64
  mmapAddr : UInt64
  deriving DecidableEq, Repr, Inhabited

/-- `vq 0` (`rx`) is the receive queue, `vq 1` (`tx`) the transmit queue. -/
structure Backend where
  nregions : UInt32
  regions : Vector DeviceRegion vhostMemoryMaxNregions
  vq : Fin 2 → VhVirtqueue

def Backend.rx (b : Backend) : VhVirtqueue := b.vq 0

def Backend.tx (b : Backend) : VhVirtqueue := b.vq 1

instance : Inhabited Backend := ⟨⟨0, Vector.replicate _ default, fun _ => default⟩⟩

structure VringAddr where
  index : UInt32
  descUserAddr : UInt64
  usedUserAddr : UInt64
  availUserAddr : UInt64
  deriving DecidableEq, Repr, Inhabited

/-- What ends the process. -/
inductive Halt where
  | addressNotFound
  | transmitAddressNotFound
  | receiveAddressNotFound
  | writableDescriptor
  | frameTooLong
  | zeroLength
  | divisionByZero
  | indexOutOfRange
  deriving DecidableEq, Repr

/-- What the worker reads from a ring, copies, prints and writes. -/
inductive Event where
  | availRead (slot head : UInt16)
  | memcpy (offset : UInt32) (chunk : UInt64) (len : UInt32)
  | packet (frame : List UInt8)
  | fileHeader
  | usedWrite (slot : UInt16) (elem : VringUsedElem)
  | publish (idx : UInt16)
  deriving DecidableEq, Repr

/-! ## Address translation -/

/-- The host address of `addr` if it lies in the region, which starts at `start`. -/
def DeviceRegion.translate (r : DeviceRegion) (start addr : UInt64) : Option UInt64 :=
  if start ≤ addr ∧ addr < start + r.size then some (addr - start + r.mmapAddr + r.mmapOffset)
  else none

/-- The loop over the regions; past the end of the array it is undefined. -/
def Backend.lookup (b : Backend) (start : DeviceRegion → UInt64) (addr : UInt64) (notFound : Halt) :
    Except Halt UInt64 :=
  match (b.regions.toList.take b.nregions.toNat).findSome? (fun r => r.translate (start r) addr) with
  | some va => .ok va
  | none => if vhostMemoryMaxNregions < b.nregions.toNat then .error .indexOutOfRange
    else .error notFound

def qvaToVa (b : Backend) (qemuAddr : UInt64) : Except Halt UInt64 :=
  b.lookup DeviceRegion.qva qemuAddr .addressNotFound

/-- Both callers pass 1 (transmit) or 0 (receive) for `mode`. -/
def gpaToVa (b : Backend) (guestAddr : UInt64) (mode : Bool) : Except Halt UInt64 :=
  b.lookup DeviceRegion.gpa guestAddr
    (if mode then .transmitAddressNotFound else .receiveAddressNotFound)

/-! ## Setting up a queue -/

def Backend.setVq (b : Backend) (q : Fin 2) (vq : VhVirtqueue) : Backend :=
  { b with vq := Function.update b.vq q vq }

def Backend.setRx (b : Backend) (vq : VhVirtqueue) : Backend := b.setVq 0 vq

def Backend.setTx (b : Backend) (vq : VhVirtqueue) : Backend := b.setVq 1 vq

@[simp] theorem setVq_self (b : Backend) (q : Fin 2) (vq : VhVirtqueue) : (b.setVq q vq).vq q = vq :=
  Function.update_self ..

/-- `VHOST_USER_SET_VRING_NUM`. -/
def setVringNum (b : Backend) (index num : UInt32) : Except Halt Backend :=
  if h : index.toNat < 2 then .ok (b.setVq ⟨index.toNat, h⟩ { b.vq ⟨index.toNat, h⟩ with size := num })
  else .error .indexOutOfRange

/-- `VHOST_USER_SET_VRING_ADDR`. -/
def setVringAddr (mem : GuestMemory) (b : Backend) (vra : VringAddr) : Except Halt Backend :=
  if h : vra.index.toNat < 2 then do
    let desc ← qvaToVa b vra.descUserAddr
    let used ← qvaToVa b vra.usedUserAddr
    let avail ← qvaToVa b vra.availUserAddr
    let vqi := b.vq ⟨vra.index.toNat, h⟩
    let usedIdx := (mem.used used).idx
    .ok (b.setVq ⟨vra.index.toNat, h⟩ { vqi with
      desc := desc
      used := used
      avail := avail
      lastUsedIdx := usedIdx
      lastAvailIdx := if vqi.lastAvailIdx ≠ usedIdx then usedIdx else vqi.lastAvailIdx })
  else .error .indexOutOfRange

/-- What `SET_VRING_ADDR` stores: the three translations, and `used->idx` in both indices. -/
theorem setVringAddr_ok {mem : GuestMemory} {b b' : Backend} {vra : VringAddr}
    (h : setVringAddr mem b vra = .ok b') :
    ∃ (q : Fin 2) (desc used avail : UInt64), vra.index.toNat = q.val ∧
      qvaToVa b vra.descUserAddr = .ok desc ∧ qvaToVa b vra.usedUserAddr = .ok used ∧
      qvaToVa b vra.availUserAddr = .ok avail ∧
      b' = b.setVq q { b.vq q with
        desc := desc
        used := used
        avail := avail
        lastUsedIdx := (mem.used used).idx
        lastAvailIdx := (mem.used used).idx } := by
  unfold setVringAddr at h
  split at h
  · next hlt =>
    cases hdesc : qvaToVa b vra.descUserAddr with
    | error e => rw [hdesc] at h; cases h
    | ok desc =>
      cases hused : qvaToVa b vra.usedUserAddr with
      | error e => rw [hdesc, hused] at h; cases h
      | ok used =>
        cases havail : qvaToVa b vra.availUserAddr with
        | error e => rw [hdesc, hused, havail] at h; cases h
        | ok avail =>
          rw [hdesc, hused, havail] at h
          cases h
          refine ⟨⟨vra.index.toNat, hlt⟩, desc, used, avail, rfl, rfl, rfl, rfl, ?_⟩
          congr 2
          -- the comparison before the store makes no difference
          split
          · rfl
          · next heq => exact not_not.mp heq
  · cases h

/-- `SET_VRING_ADDR` starts both indices of the queue at `used.idx`. -/
theorem setVringAddr_idx {mem : GuestMemory} {b b' : Backend} {vra : VringAddr} {q : Fin 2}
    (hvra : vra.index.toNat = q.val) (h : setVringAddr mem b vra = .ok b') :
    (b'.vq q).lastAvailIdx = (mem.used (b'.vq q).used).idx ∧
    (b'.vq q).lastUsedIdx = (mem.used (b'.vq q).used).idx := by
  obtain ⟨q', desc, used, avail, hq, -, -, -, rfl⟩ := setVringAddr_ok h
  obtain rfl : q' = q := Fin.ext (hq.symm.trans hvra)
  rw [setVq_self]
  exact ⟨rfl, rfl⟩

/-! ## dequeue -/

inductive WorkerPc where
  | head
  | fetch
  | walk
  | retire
  | publish
  | halted (h : Halt)
  deriving DecidableEq, Repr

/-- The locals of `dequeue`. -/
structure Worker where
  avail : UInt64
  used : UInt64
  desc : UInt64
  size : Int32
  len : UInt32
  i : UInt32
  aIdx : UInt16
  dIdx : UInt16
  uIdx : UInt16
  buf : Nat → UInt8
  pc : WorkerPc

/-- What the threads of the process share. -/
structure Shared where
  bk : Backend
  mem : GuestMemory
  fhdone : Bool
  trace : List Event

/-- The worker as it enters its loop. `buf` is what `malloc` returned; `size` is
loaded from `b->vq`, the first of the two queues. -/
def dequeue (b : Backend) (buf : Nat → UInt8) : Worker where
  avail := (b.vq 1).avail
  used := (b.vq 1).used
  desc := (b.vq 1).desc
  -- `b->vq->size`, where `vq` is `&b->vq[1]`
  size := (b.vq 0).size.toInt32
  len := 0
  i := 0
  aIdx := 0
  dIdx := 0
  uIdx := 0
  buf := buf
  pc := .head

/-- `idx % size`, an `int`, stored to a `uint16_t`. -/
def modSize (idx : UInt16) (size : Int32) : UInt16 :=
  UInt16.ofNat ((idx.toNat : Int).tmod size.toInt).toNat

theorem modSize_toNat {n : Nat} {idx : UInt16} {size : Int32} (h : size.toInt = n) :
    (modSize idx size).toNat = idx.toNat % n := by
  unfold modSize
  rw [h, ← Int.ofNat_tmod, Int.toNat_natCast, UInt16.toNat_ofNat']
  exact Nat.mod_eq_of_lt (Nat.lt_of_le_of_lt (Nat.mod_le _ _) idx.toNat_lt)

theorem toInt_toInt32 {size : UInt32} (h : size.toNat < 2 ^ 31) :
    size.toInt32.toInt = size.toNat := by
  show size.toBitVec.toInt = _
  exact BitVec.toInt_eq_toNat_of_lt (by show 2 * size.toNat < 2 ^ 32; omega)

theorem toInt32_eq_zero {size : UInt32} : size.toInt32 = 0 ↔ size = 0 := by
  constructor
  · intro h
    exact congrArg Int32.toUInt32 h
  · rintro rfl
    rfl

def memcpy (mem : GuestMemory) (buf : Nat → UInt8) (offset : UInt32) (chunk : UInt64)
    (len : UInt32) : Nat → UInt8 :=
  fun k =>
    if offset.toNat ≤ k ∧ k < offset.toNat + len.toNat then
      mem.byte (chunk + UInt64.ofNat (k - offset.toNat))
    else buf k

def Worker.frame (w : Worker) : List UInt8 := (List.range w.len.toNat).map w.buf

def Worker.halt (w : Worker) (h : Halt) : Worker := { w with pc := .halted h }

def Shared.log (sh : Shared) (es : List Event) : Shared := { sh with trace := sh.trace ++ es }

/-- No more descriptors to process: leave the inner loop. -/
def headStep (sh : Shared) (w : Worker) : Shared × Worker :=
  if (sh.bk.vq 1).lastAvailIdx = (sh.mem.avail w.avail).idx then (sh, { w with pc := .publish })
  else (sh, { w with pc := .fetch })

/-- The avail ring is read through `vq`, the other rings through the locals. -/
def fetchStep (sh : Shared) (w : Worker) : Shared × Worker :=
  if w.size = 0 then (sh, w.halt .divisionByZero)
  else
    let vq := sh.bk.vq 1
    let aIdx := modSize vq.lastAvailIdx w.size
    let dIdx := (sh.mem.avail vq.avail).ring aIdx.toNat
    (sh.log [.availRead aIdx dIdx],
      { w with
        aIdx := aIdx
        dIdx := dIdx
        uIdx := modSize vq.lastUsedIdx w.size
        i := dIdx.toUInt32
        len := 0
        pc := .walk })

/-- `memcpy(buf+len, chunk, chunk_len); len += chunk_len`. -/
def Worker.copy (w : Worker) (mem : GuestMemory) (chunk : UInt64) (chunkLen : UInt32) : Worker :=
  { w with buf := memcpy mem w.buf w.len chunk chunkLen, len := w.len + chunkLen }

/-- One descriptor of the chain. -/
def walkStep (sh : Shared) (w : Worker) : Shared × Worker :=
  let d := sh.mem.desc w.desc w.i.toNat
  match gpaToVa sh.bk d.addr true with
  | .error h => (sh, w.halt h)
  | .ok chunk =>
    if d.flags &&& vringDescFWrite ≠ 0 then (sh, w.halt .writableDescriptor)
    -- the sum is a `uint32_t` and may wrap
    else if w.len + d.len < maxLen then
      let sh' := sh.log [.memcpy w.len chunk d.len]
      let w' := w.copy sh.mem chunk d.len
      if d.flags &&& vringDescFNext ≠ 0 then (sh', { w' with i := d.next.toUInt32 })
      else (sh', { w' with pc := .retire })
    else (sh, w.halt .frameTooLong)

def GuestMemory.setUsedRing (mem : GuestMemory) (used : UInt64) (slot : Nat)
    (elem : VringUsedElem) : GuestMemory :=
  { mem with
    used := Function.update mem.used used
      { mem.used used with ring := Function.update (mem.used used).ring slot elem } }

def GuestMemory.setUsedIdx (mem : GuestMemory) (used : UInt64) (idx : UInt16) : GuestMemory :=
  { mem with used := Function.update mem.used used { mem.used used with idx := idx } }

@[simp] theorem setUsedRing_used (mem : GuestMemory) (used : UInt64) (slot : Nat)
    (elem : VringUsedElem) : (mem.setUsedRing used slot elem).used used =
      { mem.used used with ring := Function.update (mem.used used).ring slot elem } :=
  Function.update_self ..

@[simp] theorem setUsedIdx_used (mem : GuestMemory) (used : UInt64) (idx : UInt16) :
    (mem.setUsedIdx used idx).used used = { mem.used used with idx := idx } :=
  Function.update_self ..

/-- `vq->last_avail_idx++; vq->last_used_idx++`. -/
def VhVirtqueue.advance (vq : VhVirtqueue) : VhVirtqueue :=
  { vq with lastAvailIdx := vq.lastAvailIdx + 1, lastUsedIdx := vq.lastUsedIdx + 1 }

/-- The frame is printed, the file header sent once, the chain returned. -/
def retireStep (sh : Shared) (w : Worker) : Shared × Worker :=
  if w.len = 0 then (sh, w.halt .zeroLength)
  else
    let elem : VringUsedElem := ⟨w.dIdx.toUInt32, 1⟩
    ({ bk := sh.bk.setVq 1 (sh.bk.vq 1).advance
       mem := sh.mem.setUsedRing w.used w.uIdx.toNat elem
       fhdone := true
       -- the file header goes out before the first entry only
       trace := sh.trace ++ (.packet w.frame ::
        if sh.fhdone then [.usedWrite w.uIdx elem] else [.fileHeader, .usedWrite w.uIdx elem]) },
      { w with pc := .head })

/-- `atomic_xchg(&used->idx, vq->last_used_idx)`. -/
def publishStep (sh : Shared) (w : Worker) : Shared × Worker :=
  let idx := (sh.bk.vq 1).lastUsedIdx
  ({ sh with mem := sh.mem.setUsedIdx w.used idx, trace := sh.trace ++ [.publish idx] },
    { w with pc := .head })

def workerStep (sh : Shared) (w : Worker) : Option (Shared × Worker) :=
  match w.pc with
  | .head => some (headStep sh w)
  | .fetch => some (fetchStep sh w)
  | .walk => some (walkStep sh w)
  | .retire => some (retireStep sh w)
  | .publish => some (publishStep sh w)
  | .halted _ => none

/-! ## The guest -/

/-- One store of the guest. -/
inductive GuestWrite where
  | desc (table : UInt64) (i : Nat) (d : VringDesc)
  | availRing (avail : UInt64) (slot : Nat) (head : UInt16)
  | availIdx (avail : UInt64) (idx : UInt16)
  | usedRing (used : UInt64) (slot : Nat) (elem : VringUsedElem)
  | usedIdx (used : UInt64) (idx : UInt16)
  | byte (addr : UInt64) (x : UInt8)

def GuestWrite.apply (mem : GuestMemory) : GuestWrite → GuestMemory
  | .desc table i d =>
    { mem with desc := Function.update mem.desc table (Function.update (mem.desc table) i d) }
  | .availRing avail slot head =>
    { mem with
      avail := Function.update mem.avail avail
        { mem.avail avail with ring := Function.update (mem.avail avail).ring slot head } }
  | .availIdx avail idx =>
    { mem with avail := Function.update mem.avail avail { mem.avail avail with idx := idx } }
  | .usedRing used slot elem => mem.setUsedRing used slot elem
  | .usedIdx used idx => mem.setUsedIdx used idx
  | .byte addr x => { mem with byte := Function.update mem.byte addr x }

end VirtioBench.Bkend
