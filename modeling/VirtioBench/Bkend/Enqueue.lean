import VirtioBench.Bkend.Backend
import VirtioBench.Lib.Iterate
import Mathlib.Data.List.Infix

/- The receive worker `enqueue` (code_dump/nonm/bkend.c). It makes one frame of metadata and
   test bytes, waits for an entry in the avail ring, collects three writable buffers by
   following `next` or the next slot of the ring, and spreads the frame over them; each buffer
   is returned and published on its own.

   Correspondence (C ↔ Lean):
     `struct buf_vector`                 ↔ `BufVector`
     `ixverify_metadata_hdr`             ↔ `ixverifyMetadataHdr`, its 48 bytes
     `enqueue`, its locals, its loops    ↔ `enqueue`, `RxWorker`, `rxStep`
     `MIN`                               ↔ `minU32`
     `rxcnt`, `buf_vec` of the backend   ↔ `rxcnt`, `bufVec` of `RxWorker`, no other
                                           function uses them
     `avail->flags`                      ↔ `RxShared.availFlags`
   The descriptor after the last buffer is looked up and not used; `i` is an `int` that only
   holds 16-bit values. `buf_vec` is written from the start for every frame, so `bufVec`
   is what was collected for this one.

   `scatter_iff` — the frame is spread over the buffers as it should exactly if the first of
   them has room for the metadata. -/
namespace VirtioBench.Bkend

def frameLen : UInt32 := 10240
def metaLen : UInt32 := 48
def nbufs : Nat := 3
def numRxFrames : UInt32 := 1000000
def vringAvailFNoInterrupt : UInt16 := 1

structure BufVector where
  bufAddr : UInt64
  bufLen : UInt32
  descIdx : UInt32
  deriving DecidableEq, Repr, Inhabited

/-- `mrg_num_buffers` is 3, `generic_flags` 0, `metadata_type` 6, the rest is zero. -/
def ixverifyMetadataHdr : Vector UInt8 48 :=
  ⟨#[3, 0, 0, 6] ++ Array.replicate 44 0, rfl⟩

inductive RxEvent where
  | availRead (slot head : UInt16)
  | dropping (i : UInt16)
  | write (cnt : Nat) (addr : UInt64) (bytes : List UInt8)
  | usedWrite (slot : UInt16) (elem : VringUsedElem)
  | publish (idx : UInt16)
  | kick
  deriving DecidableEq, Repr

inductive RxPc where
  | head
  | fetch
  | collect
  | scatter
  | finish
  | exited
  -- `assert (nbufs_cnt==nbufs)` has failed
  | fewBuffers
  | halted (h : Halt)
  deriving DecidableEq, Repr

/-- The locals of `enqueue`. `hdr` is `buf->meta`, `buf` is `buf->buf`. -/
structure RxWorker where
  avail : UInt64
  used : UInt64
  desc : UInt64
  size : UInt32
  hdr : Vector UInt8 48
  buf : Nat → UInt8
  rxcnt : UInt32
  aIdx : UInt16
  uIdx : UInt16
  i : UInt16
  bufVec : List BufVector
  cnt : Nat
  writtenLen : UInt32
  remainingLen : UInt32
  pc : RxPc

structure RxShared where
  bk : Backend
  mem : GuestMemory
  availFlags : UInt64 → UInt16
  trace : List RxEvent

/-- The worker as it enters its loop. `garbage` is what `malloc` returned; `memset` clears the metadata
and the bytes of the frame. -/
def enqueue (b : Backend) (rxcnt : UInt32) (garbage : Nat → UInt8) : RxWorker where
  avail := b.rx.avail
  used := b.rx.used
  desc := b.rx.desc
  size := b.rx.size
  hdr := ixverifyMetadataHdr
  buf := fun k => if k < frameLen.toNat then 0 else garbage k
  rxcnt := rxcnt
  aIdx := 0
  uIdx := 0
  i := 0
  bufVec := []
  cnt := 0
  writtenLen := 0
  remainingLen := 0
  pc := .head

/-- `idx % size` for a `uint32_t` size, stored to a `uint16_t`. -/
def modU32 (idx : UInt16) (size : UInt32) : UInt16 := (idx.toUInt32 % size).toUInt16

def minU32 (a b : UInt32) : UInt32 := if a < b then a else b

/-- `memcpy` to the guest's memory. -/
def GuestMemory.store (mem : GuestMemory) (addr : UInt64) (bytes : List UInt8) : GuestMemory :=
  { mem with byte := fun a => bytes[(a - addr).toNat]?.getD (mem.byte a) }

def RxShared.log (sh : RxShared) (es : List RxEvent) : RxShared := { sh with trace := sh.trace ++ es }

/-- `memcpy` to the buffer `cnt`. -/
def RxShared.write (sh : RxShared) (cnt : Nat) (addr : UInt64) (bytes : List UInt8) : RxShared :=
  { sh.log [.write cnt addr bytes] with mem := sh.mem.store addr bytes }

/-- Wait for an entry, at most `NUM_RX_FRAMES` times. -/
def rxHeadStep (sh : RxShared) (w : RxWorker) : RxShared × RxWorker :=
  if w.rxcnt < numRxFrames then
    if sh.bk.rx.lastAvailIdx ≠ (sh.mem.avail w.avail).idx then (sh, { w with pc := .fetch })
    else (sh, w)
  else (sh, { w with pc := .exited })

def rxFetchStep (sh : RxShared) (w : RxWorker) : RxShared × RxWorker :=
  if w.size = 0 then (sh, { w with pc := .halted .divisionByZero })
  else
    let aIdx := modU32 sh.bk.rx.lastAvailIdx w.size
    let dIdx := (sh.mem.avail w.avail).ring aIdx.toNat
    (sh.log [.availRead aIdx dIdx],
      { w with
        aIdx := aIdx
        uIdx := modU32 sh.bk.rx.lastUsedIdx w.size
        i := dIdx
        bufVec := []
        pc := .collect })

/-- A buffer is collected; the last is followed by the loop over the buffers. -/
def RxWorker.collect (w : RxWorker) (v : BufVector) : RxWorker :=
  if w.bufVec.length + 1 = nbufs then
    { w with bufVec := w.bufVec ++ [v], cnt := 0, writtenLen := 0, remainingLen := frameLen, pc := .scatter }
  else { w with bufVec := w.bufVec ++ [v] }

/-- One buffer of the frame, and the next descriptor. -/
def rxCollectStep (sh : RxShared) (w : RxWorker) : RxShared × RxWorker :=
  let d := sh.mem.desc w.desc w.i.toNat
  if d.flags &&& vringDescFWrite = 0 then (sh.log [.dropping w.i], { w with pc := .fewBuffers })
  else
    let w' := w.collect ⟨d.addr, d.len, w.i.toUInt32⟩
    if d.flags &&& vringDescFNext ≠ 0 then (sh, { w' with i := d.next })
    else
      let aIdx := w.aIdx + 1
      let slot := modU32 aIdx w.size
      let dIdx := (sh.mem.avail w.avail).ring slot.toNat
      (sh.log [.availRead slot dIdx], { w' with aIdx := aIdx, i := dIdx })

/-- `b->buf_vec[cnt]`. -/
def RxWorker.vec (w : RxWorker) (cnt : Nat) : BufVector := w.bufVec.getD cnt default

/-- `chunk_to_write`; the subtraction is unsigned. -/
def RxWorker.chunk (w : RxWorker) : UInt32 :=
  if w.cnt = 0 then minU32 w.remainingLen ((w.vec w.cnt).bufLen - metaLen)
  else minU32 w.remainingLen (w.vec w.cnt).bufLen

/-- `n` bytes of the frame from `offset`. -/
def RxWorker.bytes (w : RxWorker) (offset n : UInt32) : List UInt8 :=
  (List.range n.toNat).map (fun k => w.buf (offset.toNat + k))

/-- The copies to the buffer, and the length for its used entry. -/
def RxWorker.fill (w : RxWorker) (sh : RxShared) (descAddr : UInt64) : RxShared × UInt32 :=
  if w.cnt = 0 then
    ((sh.write w.cnt descAddr w.hdr.toList).write w.cnt (descAddr + metaLen.toUInt64)
      (w.bytes 0 w.chunk), w.chunk + metaLen)
  else (sh.write w.cnt descAddr (w.bytes w.writtenLen w.chunk), w.chunk)

/-- The entry of a buffer, its index and the publication. -/
def RxShared.giveBack (sh : RxShared) (used : UInt64) (uIdx : UInt16) (elem : VringUsedElem) : RxShared :=
  let vq := sh.bk.rx.advance
  { sh with
    bk := sh.bk.setRx vq
    mem := (sh.mem.setUsedRing used uIdx.toNat elem).setUsedIdx used vq.lastUsedIdx
    trace := sh.trace ++ [.usedWrite uIdx elem, .publish vq.lastUsedIdx] }

/-- One buffer of the frame is written and returned. -/
def rxScatterStep (sh : RxShared) (w : RxWorker) : RxShared × RxWorker :=
  match gpaToVa sh.bk (w.vec w.cnt).bufAddr false with
  | .error h => (sh, { w with pc := .halted h })
  | .ok descAddr =>
    let filled := w.fill sh descAddr
    let sh' := filled.1.giveBack w.used w.uIdx ⟨(w.vec w.cnt).descIdx, filled.2⟩
    (sh',
      { w with
        remainingLen := w.remainingLen - w.chunk
        writtenLen := w.writtenLen + w.chunk
        uIdx := modU32 sh'.bk.rx.lastUsedIdx w.size
        cnt := w.cnt + 1
        pc := if w.cnt + 1 < nbufs then .scatter else .finish })

/-- The kick, and the count of frames. -/
def rxFinishStep (sh : RxShared) (w : RxWorker) : RxShared × RxWorker :=
  let sh' := if sh.availFlags sh.bk.rx.avail &&& vringAvailFNoInterrupt = 0 then sh.log [.kick] else sh
  if w.rxcnt + 1 = numRxFrames then (sh', { w with rxcnt := 0, pc := .exited })
  else (sh', { w with rxcnt := w.rxcnt + 1, pc := .head })

def rxStep (sh : RxShared) (w : RxWorker) : Option (RxShared × RxWorker) :=
  match w.pc with
  | .head => some (rxHeadStep sh w)
  | .fetch => some (rxFetchStep sh w)
  | .collect => some (rxCollectStep sh w)
  | .scatter => some (rxScatterStep sh w)
  | .finish => some (rxFinishStep sh w)
  | .exited | .fewBuffers | .halted _ => none

/-- The worker after `n` steps, with the guest's memory left alone. -/
def rxAlone (n : Nat) (s : RxShared × RxWorker) : RxShared × RxWorker :=
  Iterate.settle (fun s => rxStep s.1 s.2) n s

/-! ## What is written -/

/-- The bytes an event writes to the buffer `k`. -/
def RxEvent.bytesTo (k : Nat) : RxEvent → List UInt8
  | .write cnt _ bytes => if cnt = k then bytes else []
  | _ => []

def RxEvent.bytes : RxEvent → List UInt8
  | .write _ _ bytes => bytes
  | _ => []

def RxEvent.usedLen : RxEvent → Option UInt32
  | .usedWrite _ elem => some elem.len
  | _ => none

/-- The metadata and the frame. -/
def RxWorker.whole (w : RxWorker) : List UInt8 := w.hdr.toList ++ w.bytes 0 frameLen

/-- The lengths of the first `k` buffers. -/
def RxWorker.room (w : RxWorker) (k : Nat) : Nat :=
  ((List.range k).map (fun j => (w.vec j).bufLen.toNat)).sum

/-- What the events `es` are to do with the buffers of `w`: no buffer gets more than its length; the bytes
written are a prefix of the metadata and the frame, and all of it where there is room for
it and the first buffer holds the metadata; the used entries have the lengths written. -/
structure Scattered (w : RxWorker) (es : List RxEvent) : Prop where
  inBuf : ∀ k < nbufs, (es.flatMap (RxEvent.bytesTo k)).length ≤ (w.vec k).bufLen.toNat
  front : es.flatMap RxEvent.bytes <+: w.whole
  complete : metaLen.toNat + frameLen.toNat ≤ w.room nbufs → metaLen.toNat ≤ (w.vec 0).bufLen.toNat →
    es.flatMap RxEvent.bytes = w.whole
  usedLen : (es.filterMap RxEvent.usedLen).map UInt32.toNat =
    (List.range nbufs).map (fun k => (es.flatMap (RxEvent.bytesTo k)).length)

/-- The worker before the loop over the buffers. -/
structure RxWorker.Ready (w : RxWorker) : Prop where
  pc : w.pc = .scatter
  cnt : w.cnt = 0
  writtenLen : w.writtenLen = 0
  remainingLen : w.remainingLen = frameLen

section Scatter
variable {sh : RxShared} {w : RxWorker} {va : UInt64}

/-- The last buffer collected leads there. -/
theorem collect_ready {v : BufVector} (h : w.bufVec.length + 1 = nbufs) : (w.collect v).Ready := by
  unfold RxWorker.collect
  rw [if_pos h]
  exact ⟨rfl, rfl, rfl, rfl⟩

theorem minU32_toNat (a b : UInt32) : (minU32 a b).toNat = min a.toNat b.toNat := by
  unfold minU32
  split
  · next h =>
    have hlt := UInt32.lt_iff_toNat_lt.mp h
    omega
  · next h =>
    have hge := UInt32.lt_iff_toNat_lt.not.mp h
    omega

theorem bytes_length (w : RxWorker) (offset n : UInt32) : (w.bytes offset n).length = n.toNat := by
  simp [RxWorker.bytes]

theorem whole_length (w : RxWorker) : w.whole.length = metaLen.toNat + frameLen.toNat := by
  rw [RxWorker.whole, List.length_append, bytes_length, Vector.length_toList]
  rfl

/-- A part of the frame, as a part of the whole. -/
theorem bytes_eq {offset n : UInt32} (h : offset.toNat + n.toNat ≤ frameLen.toNat) :
    w.bytes offset n = (w.whole.drop (metaLen.toNat + offset.toNat)).take n.toNat := by
  have hhdr : w.hdr.toList.length = metaLen.toNat := Vector.length_toList
  rw [RxWorker.whole, ← hhdr, List.drop_length_add_append]
  apply List.ext_getElem
  · simp [RxWorker.bytes]
    omega
  · intro k hk hk'
    simp [RxWorker.bytes]

/-- The copies to one buffer. -/
def RxWorker.copies (w : RxWorker) (va : UInt64) : List RxEvent :=
  if w.cnt = 0 then
    [.write w.cnt va w.hdr.toList, .write w.cnt (va + metaLen.toUInt64) (w.bytes 0 w.chunk)]
  else [.write w.cnt va (w.bytes w.writtenLen w.chunk)]

/-- What they write. -/
def RxWorker.piece (w : RxWorker) : List UInt8 :=
  if w.cnt = 0 then w.hdr.toList ++ w.bytes 0 w.chunk else w.bytes w.writtenLen w.chunk

theorem fill_spec (w : RxWorker) (sh : RxShared) (va : UInt64) :
    (w.fill sh va).1.trace = sh.trace ++ w.copies va ∧ (w.fill sh va).1.bk = sh.bk ∧
    (w.fill sh va).2 = if w.cnt = 0 then w.chunk + metaLen else w.chunk := by
  unfold RxWorker.fill RxWorker.copies
  split
  · exact ⟨List.append_assoc .., rfl, rfl⟩
  · exact ⟨rfl, rfl, rfl⟩

theorem copies_bytes (w : RxWorker) (va : UInt64) : (w.copies va).flatMap RxEvent.bytes = w.piece := by
  unfold RxWorker.copies RxWorker.piece
  split <;> simp [RxEvent.bytes]

theorem copies_bytesTo (w : RxWorker) (va : UInt64) (k : Nat) :
    (w.copies va).flatMap (RxEvent.bytesTo k) = if w.cnt = k then w.piece else [] := by
  unfold RxWorker.copies RxWorker.piece
  by_cases hk : w.cnt = k <;> split <;> simp [RxEvent.bytesTo, hk]

theorem copies_usedLen (w : RxWorker) (va : UInt64) :
    (w.copies va).filterMap RxEvent.usedLen = [] := by
  unfold RxWorker.copies
  split <;> simp [RxEvent.usedLen]

/-- One buffer, if its address is found. -/
theorem rxStep_scatter (hpc : w.pc = .scatter)
    (hva : gpaToVa sh.bk (w.vec w.cnt).bufAddr false = .ok va) :
    ∃ sh' slot elem, rxStep sh w = some (sh',
      { w with
        remainingLen := w.remainingLen - w.chunk
        writtenLen := w.writtenLen + w.chunk
        uIdx := slot
        cnt := w.cnt + 1
        pc := if w.cnt + 1 < nbufs then .scatter else .finish }) ∧
      sh'.trace = sh.trace ++ (w.copies va ++
        [.usedWrite w.uIdx elem, .publish (sh.bk.rx.lastUsedIdx + 1)]) ∧
      elem.len = (if w.cnt = 0 then w.chunk + metaLen else w.chunk) ∧
      sh'.bk.regions = sh.bk.regions ∧ sh'.bk.nregions = sh.bk.nregions := by
  obtain ⟨htrace, hbk, hlen⟩ := fill_spec w sh va
  have hstep : rxStep sh w = some (rxScatterStep sh w) := by
    unfold rxStep
    rw [hpc]
  unfold rxScatterStep at hstep
  rw [hva] at hstep
  refine ⟨_, _, ⟨(w.vec w.cnt).descIdx, (w.fill sh va).2⟩, hstep, ?_, hlen, ?_, ?_⟩
  · show (w.fill sh va).1.trace ++ [_, .publish ((w.fill sh va).1.bk.rx.lastUsedIdx + 1)] = _
    rw [htrace, hbk, List.append_assoc]
  · show (w.fill sh va).1.bk.regions = _
    rw [hbk]
  · show (w.fill sh va).1.bk.nregions = _
    rw [hbk]

/-- The bytes of the whole that the first `k` buffers get. -/
def RxWorker.filled (w : RxWorker) (k : Nat) : Nat := min (metaLen.toNat + frameLen.toNat) (w.room k)

theorem room_succ (w : RxWorker) (k : Nat) : w.room (k + 1) = w.room k + (w.vec k).bufLen.toNat := by
  simp [RxWorker.room, List.range_succ]

theorem filled_mono (w : RxWorker) (k : Nat) : w.filled k ≤ w.filled (k + 1) := by
  unfold RxWorker.filled
  rw [room_succ]
  omega

theorem filled_le (w : RxWorker) (k : Nat) : w.filled k ≤ metaLen.toNat + frameLen.toNat :=
  Nat.min_le_left _ _

/-- A first buffer for the metadata makes all of them enough for it. -/
theorem metaLen_le_filled (h : metaLen.toNat ≤ (w.vec 0).bufLen.toNat) (k : Nat) :
    metaLen.toNat ≤ w.filled (k + 1) := by
  unfold RxWorker.filled
  induction k with
  | zero =>
    rw [room_succ]
    omega
  | succ k ih =>
    rw [room_succ]
    omega

/-- The share of the buffer `k`. -/
def RxWorker.share (w : RxWorker) (k : Nat) : Nat := w.filled (k + 1) - w.filled k

/-- The loop after `k` buffers, from the worker `w`: the metadata does not count in `written_len`. -/
structure Progress (sh : RxShared) (w : RxWorker) (k : Nat) (r : RxShared × RxWorker) : Prop where
  pc : r.2.pc = if k < nbufs then .scatter else .finish
  cnt : r.2.cnt = k
  hdr : r.2.hdr = w.hdr
  buf : r.2.buf = w.buf
  bufVec : r.2.bufVec = w.bufVec
  regions : r.1.bk.regions = sh.bk.regions
  nregions : r.1.bk.nregions = sh.bk.nregions
  writtenLen : r.2.writtenLen.toNat = w.filled k - metaLen.toNat
  remainingLen : r.2.remainingLen.toNat = frameLen.toNat - (w.filled k - metaLen.toNat)
  events : ∃ es, r.1.trace = sh.trace ++ es ∧
    es.flatMap RxEvent.bytes = w.whole.take (w.filled k) ∧
    (∀ j, (es.flatMap (RxEvent.bytesTo j)).length = if j < k then w.share j else 0) ∧
    (es.filterMap RxEvent.usedLen).map UInt32.toNat = (List.range k).map w.share

theorem progress_start (h : w.Ready) : Progress sh w 0 (sh, w) where
  pc := h.pc
  cnt := h.cnt
  hdr := rfl
  buf := rfl
  bufVec := rfl
  regions := rfl
  nregions := rfl
  writtenLen := by rw [h.writtenLen]; rfl
  remainingLen := by rw [h.remainingLen]; rfl
  events := ⟨[], (List.append_nil _).symm, rfl, fun _ => rfl, rfl⟩

variable {k : Nat} {r : RxShared × RxWorker}

theorem Progress.vec (h : Progress sh w k r) (j : Nat) : r.2.vec j = w.vec j := by
  unfold RxWorker.vec
  rw [h.bufVec]

theorem Progress.whole (h : Progress sh w k r) : r.2.whole = w.whole := by
  unfold RxWorker.whole RxWorker.bytes
  rw [h.hdr, h.buf]

theorem Progress.found (h : Progress sh w k r) (addr : UInt64) :
    gpaToVa r.1.bk addr false = gpaToVa sh.bk addr false := by
  unfold gpaToVa Backend.lookup
  rw [h.regions, h.nregions]

/-- `chunk_to_write`, if the first buffer holds the metadata. -/
theorem Progress.chunk (h : Progress sh w k r) (hmeta : metaLen.toNat ≤ (w.vec 0).bufLen.toNat) :
    r.2.chunk.toNat = w.filled (k + 1) - metaLen.toNat - (w.filled k - metaLen.toNat) := by
  have hrem := h.remainingLen
  unfold RxWorker.chunk
  rw [h.cnt, h.vec]
  cases k with
  | zero =>
    have hsub : ((w.vec 0).bufLen - metaLen).toNat = (w.vec 0).bufLen.toNat - metaLen.toNat :=
      UInt32.toNat_sub_of_le _ _ (UInt32.le_iff_toNat_le.mpr hmeta)
    have hroom : w.room 0 = 0 := rfl
    rw [if_pos rfl, minU32_toNat, hsub, hrem]
    unfold RxWorker.filled
    rw [room_succ, hroom]
    omega
  | succ k =>
    have hle := metaLen_le_filled hmeta k
    rw [if_neg (Nat.succ_ne_zero k), minU32_toNat, hrem]
    unfold RxWorker.filled at hle ⊢
    rw [room_succ w (k + 1)]
    omega

/-- The piece of a buffer is the next part of the whole. -/
theorem Progress.piece (h : Progress sh w k r) (hmeta : metaLen.toNat ≤ (w.vec 0).bufLen.toNat) :
    w.whole.take (w.filled k) ++ r.2.piece = w.whole.take (w.filled (k + 1)) ∧
    r.2.piece.length = w.share k := by
  have hchunk := h.chunk hmeta
  have hle := metaLen_le_filled hmeta k
  have hmax := filled_le w (k + 1)
  have hmono := filled_mono w k
  unfold RxWorker.piece RxWorker.share
  rw [h.cnt]
  cases k with
  | zero =>
    have hzero : w.filled 0 = 0 := rfl
    have hhdr : r.2.hdr.toList = w.whole.take metaLen.toNat := by
      have hlen : w.hdr.toList.length = metaLen.toNat := Vector.length_toList
      rw [h.hdr, RxWorker.whole, ← hlen, List.take_left]
    have hbytes : r.2.bytes 0 r.2.chunk = _ := bytes_eq (by rw [hchunk]; show 0 + _ ≤ _; omega)
    have hshare : r.2.chunk.toNat = w.filled (0 + 1) - metaLen.toNat := by omega
    rw [h.whole, hshare] at hbytes
    rw [if_pos rfl, hzero, List.take_zero, List.nil_append, Nat.sub_zero, hhdr, hbytes]
    have htake : List.take metaLen.toNat w.whole ++
        List.take (w.filled (0 + 1) - metaLen.toNat) (w.whole.drop metaLen.toNat) =
          w.whole.take (w.filled (0 + 1)) := by
      rw [← List.take_add, Nat.add_sub_cancel' hle]
    refine ⟨htake, ?_⟩
    rw [show metaLen.toNat + UInt32.toNat 0 = metaLen.toNat from rfl, htake, List.length_take, whole_length]
    omega
  | succ k =>
    have hlek := metaLen_le_filled hmeta k
    have hwritten := h.writtenLen
    rw [if_neg (Nat.succ_ne_zero k), bytes_eq (by omega), h.whole]
    have hoffset : metaLen.toNat + r.2.writtenLen.toNat = w.filled (k + 1) := by omega
    have hshare : r.2.chunk.toNat = w.filled (k + 1 + 1) - w.filled (k + 1) := by omega
    rw [hoffset, hshare]
    refine ⟨?_, ?_⟩
    · rw [← List.take_add, Nat.add_sub_cancel' hmono]
    · rw [List.length_take, List.length_drop, whole_length]
      omega

theorem Progress.usedLen (h : Progress sh w k r) (hmeta : metaLen.toNat ≤ (w.vec 0).bufLen.toNat) :
    (if r.2.cnt = 0 then r.2.chunk + metaLen else r.2.chunk).toNat = w.share k := by
  have hchunk := h.chunk hmeta
  have hmax := filled_le w (k + 1)
  have hle := metaLen_le_filled hmeta k
  have hsize : metaLen.toNat + frameLen.toNat < 2 ^ 32 := by decide
  unfold RxWorker.share
  rw [h.cnt]
  cases k with
  | zero =>
    have hzero : w.filled 0 = 0 := rfl
    rw [if_pos rfl, UInt32.toNat_add, Nat.mod_eq_of_lt (by omega)]
    omega
  | succ k =>
    have hlek := metaLen_le_filled hmeta k
    rw [if_neg (Nat.succ_ne_zero k)]
    omega

/-- The events of one buffer more. -/
theorem Progress.events_step (h : Progress sh w k r) (hmeta : metaLen.toNat ≤ (w.vec 0).bufLen.toNat)
    {elem : VringUsedElem} (hlen : elem.len = if r.2.cnt = 0 then r.2.chunk + metaLen else r.2.chunk)
    (va : UInt64) (idx : UInt16) :
    ∃ es, r.1.trace ++ (r.2.copies va ++ [.usedWrite r.2.uIdx elem, .publish idx]) = sh.trace ++ es ∧
      es.flatMap RxEvent.bytes = w.whole.take (w.filled (k + 1)) ∧
      (∀ j, (es.flatMap (RxEvent.bytesTo j)).length = if j < k + 1 then w.share j else 0) ∧
      (es.filterMap RxEvent.usedLen).map UInt32.toNat = (List.range (k + 1)).map w.share := by
  obtain ⟨es, hes, hbytes, hto, hused⟩ := h.events
  obtain ⟨hpiece, hshare⟩ := h.piece hmeta
  refine ⟨es ++ (r.2.copies va ++ [.usedWrite r.2.uIdx elem, .publish idx]), ?_, ?_, ?_, ?_⟩
  · rw [hes, List.append_assoc]
  · rw [List.flatMap_append, List.flatMap_append, hbytes, copies_bytes, ← hpiece]
    simp [RxEvent.bytes]
  · intro j
    rw [List.flatMap_append, List.flatMap_append, List.length_append, hto, copies_bytesTo, h.cnt]
    rcases Nat.lt_trichotomy j k with hlt | rfl | hgt
    · rw [if_pos hlt, if_neg (Nat.ne_of_gt hlt), if_pos (Nat.lt_succ_of_lt hlt)]
      simp [RxEvent.bytesTo]
    · rw [if_neg (Nat.lt_irrefl j), if_pos rfl, if_pos (Nat.lt_succ_self j), ← hshare]
      simp [RxEvent.bytesTo]
    · rw [if_neg (Nat.lt_asymm hgt), if_neg (Nat.ne_of_lt hgt), if_neg (by omega)]
      simp [RxEvent.bytesTo]
  · rw [List.filterMap_append, List.filterMap_append, copies_usedLen, List.map_append, hused,
      List.range_succ, List.map_append, List.map_append, List.map_singleton, ← h.usedLen hmeta, ← hlen]
    rfl

/-- One buffer more. -/
theorem Progress.step (h : Progress sh w k r) (hk : k < nbufs)
    (hmeta : metaLen.toNat ≤ (w.vec 0).bufLen.toNat)
    (hva : ∃ va, gpaToVa sh.bk (w.vec k).bufAddr false = .ok va) :
    ∃ r', rxStep r.1 r.2 = some r' ∧ Progress sh w (k + 1) r' := by
  have hpc : r.2.pc = .scatter := by rw [h.pc, if_pos hk]
  obtain ⟨va, hfound⟩ := hva
  rw [← h.found, ← h.vec, ← h.cnt] at hfound
  obtain ⟨sh', slot, elem, hstep, htrace, hlen, hregions, hnregions⟩ := rxStep_scatter hpc hfound
  have hchunk := h.chunk hmeta
  have hmax := filled_le w (k + 1)
  have hmono := filled_mono w k
  have hframe : frameLen.toNat < 2 ^ 32 := frameLen.toNat_lt
  have hwritten := h.writtenLen
  have hremaining := h.remainingLen
  refine ⟨_, hstep, ?_, ?_, h.hdr, h.buf, h.bufVec, hregions.trans h.regions,
    hnregions.trans h.nregions, ?_, ?_, ?_⟩
  · rw [← h.cnt]
  · rw [← h.cnt]
  · show (r.2.writtenLen + r.2.chunk).toNat = _
    rw [UInt32.toNat_add, Nat.mod_eq_of_lt (by omega)]
    omega
  · show (r.2.remainingLen - r.2.chunk).toNat = _
    rw [UInt32.toNat_sub_of_le _ _ (by rw [UInt32.le_iff_toNat_le]; omega)]
    omega
  · rw [htrace]
    exact h.events_step hmeta hlen va _

/-- The loop over `k` buffers. -/
theorem Progress.run (h : w.Ready) (hmeta : metaLen.toNat ≤ (w.vec 0).bufLen.toNat)
    (hva : ∀ j < nbufs, ∃ va, gpaToVa sh.bk (w.vec j).bufAddr false = .ok va) (hk : k ≤ nbufs) :
    Progress sh w k (rxAlone k (sh, w)) := by
  induction k with
  | zero => exact progress_start h
  | succ k ih =>
    obtain ⟨r', hr', hprogress⟩ := (ih (Nat.le_of_succ_le hk)).step hk hmeta (hva k hk)
    have hlast : rxAlone (k + 1) (sh, w) = r' :=
      (Iterate.settle_add k 1 (sh, w)).trans (Iterate.settle_of_some hr' 0)
    rw [hlast]
    exact hprogress

/-- The buffers get what they should if the first has room for the metadata. -/
theorem scattered_of_room (h : w.Ready) (hmeta : metaLen.toNat ≤ (w.vec 0).bufLen.toNat)
    (hva : ∀ j < nbufs, ∃ va, gpaToVa sh.bk (w.vec j).bufAddr false = .ok va) :
    ∃ es, (rxAlone nbufs (sh, w)).1.trace = sh.trace ++ es ∧ Scattered w es := by
  obtain ⟨es, hes, hbytes, hto, hused⟩ := (Progress.run h hmeta hva (Nat.le_refl nbufs)).events
  refine ⟨es, hes, ?_, ?_, ?_, ?_⟩
  · intro k hk
    rw [hto, if_pos hk]
    unfold RxWorker.share RxWorker.filled
    rw [room_succ]
    omega
  · rw [hbytes]
    exact List.take_prefix _ _
  · intro hroom _
    rw [hbytes]
    apply List.take_of_length_le
    rw [whole_length]
    exact Nat.le_min.mpr ⟨Nat.le_refl _, hroom⟩
  · rw [hused]
    apply List.map_congr_left
    intro k hk
    rw [hto, if_pos (List.mem_range.mp hk)]

theorem rxStep_trace {r r' : RxShared × RxWorker} (h : rxStep r.1 r.2 = some r') :
    r.1.trace <+: r'.1.trace := by
  unfold rxStep at h
  split at h
  · cases h
    unfold rxHeadStep
    split
    · split <;> exact List.prefix_rfl
    · exact List.prefix_rfl
  · cases h
    unfold rxFetchStep
    split
    · exact List.prefix_rfl
    · exact List.prefix_append _ _
  · cases h
    unfold rxCollectStep
    dsimp only
    split
    · exact List.prefix_append _ _
    · split
      · exact List.prefix_rfl
      · exact List.prefix_append _ _
  · next hpc =>
    cases hva : gpaToVa r.1.bk (r.2.vec r.2.cnt).bufAddr false with
    | error e =>
      cases h
      unfold rxScatterStep
      rw [hva]
    | ok va =>
      obtain ⟨sh', slot, elem, hstep, htrace, -⟩ := rxStep_scatter hpc hva
      unfold rxStep at hstep
      rw [hpc] at hstep
      cases h.symm.trans hstep
      rw [htrace]
      exact List.prefix_append _ _
  · cases h
    unfold rxFinishStep
    dsimp only
    split <;> split <;> first | exact List.prefix_rfl | exact List.prefix_append _ _
  · cases h
  · cases h
  · cases h

theorem rxAlone_trace (n : Nat) (r : RxShared × RxWorker) : r.1.trace <+: (rxAlone n r).1.trace :=
  Iterate.settle_rel (R := fun s t => s.1.trace <+: t.1.trace) (fun _ => List.prefix_rfl)
    List.IsPrefix.trans rxStep_trace n r

/-- The metadata is written whatever the length of the first buffer. -/
theorem room_of_scattered (h : w.Ready)
    (hva : ∃ va, gpaToVa sh.bk (w.vec 0).bufAddr false = .ok va) {es : List RxEvent}
    (hes : (rxAlone nbufs (sh, w)).1.trace = sh.trace ++ es) (hscattered : Scattered w es) :
    metaLen.toNat ≤ (w.vec 0).bufLen.toNat := by
  obtain ⟨va, hfound⟩ := hva
  rw [← h.cnt] at hfound
  obtain ⟨sh', slot, elem, hstep, htrace, -⟩ := rxStep_scatter h.pc hfound
  have hfirst : rxAlone nbufs (sh, w) = rxAlone 2 (sh', _) := Iterate.settle_of_some hstep 2
  have hmore : sh'.trace <+: (rxAlone nbufs (sh, w)).1.trace := by
    rw [hfirst]
    exact rxAlone_trace 2 (sh', _)
  rw [hes, htrace, List.prefix_append_right_inj] at hmore
  have hcopies := ((List.prefix_append (w.copies va) _).trans hmore).flatMap (RxEvent.bytesTo 0)
  have hlen := hcopies.length_le
  rw [copies_bytesTo, if_pos h.cnt] at hlen
  have hpiece : metaLen.toNat ≤ w.piece.length := by
    unfold RxWorker.piece
    rw [if_pos h.cnt, List.length_append, Vector.length_toList]
    exact Nat.le_add_right _ _
  exact hpiece.trans (hlen.trans (hscattered.inBuf 0 (by decide)))

/-- A region of 64 KiB from guest address 0. -/
def rxShared : RxShared where
  bk := { (default : Backend) with nregions := 1, regions := Vector.replicate _ ⟨0, 0x10000, 0, 0, 0x700000⟩ }
  mem := default
  availFlags := fun _ => 0
  trace := []

/-- Three collected buffers in it, the first of `len` bytes. -/
def threeBuffers (len : UInt32) : RxWorker :=
  { enqueue rxShared.bk 0 (fun _ => 0) with
    bufVec := [⟨0x1000, len, 0⟩, ⟨0x2000, 4096, 1⟩, ⟨0x3000, 4096, 2⟩]
    remainingLen := frameLen
    pc := .scatter }

theorem threeBuffers_found (len : UInt32) :
    ∀ k < nbufs, ∃ va, gpaToVa rxShared.bk ((threeBuffers len).vec k).bufAddr false = .ok va := by
  have h0 : gpaToVa rxShared.bk 0x1000 false = .ok 0x701000 := by decide
  have h1 : gpaToVa rxShared.bk 0x2000 false = .ok 0x702000 := by decide
  have h2 : gpaToVa rxShared.bk 0x3000 false = .ok 0x703000 := by decide
  intro k hk
  have hcases : k = 0 ∨ k = 1 ∨ k = 2 := by unfold nbufs at hk; omega
  rcases hcases with rfl | rfl | rfl
  · exact ⟨_, h0⟩
  · exact ⟨_, h1⟩
  · exact ⟨_, h2⟩

end Scatter

end VirtioBench.Bkend
