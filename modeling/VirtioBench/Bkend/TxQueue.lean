import VirtioBench.Bkend.Ledger

/- The transmit virtqueue: one `dequeue` worker and a guest that posts chains, with
   rings of the same size `n`. The guest writes a head into `avail.ring[idx % n]`
   and then increments `idx`, never with more than `n` heads beyond `used.idx`;
   a head it posts starts a chain the worker can read, and it leaves the
   descriptors of a chain alone until the chain is returned.

   1. `txStep_inv` — every step of the worker and of the guest keeps `Tx.Inv`: the
      ledger of the queue is in order (`Ledger.Ok`), the chains the backend has are
      well formed, and the worker is where its program counter says, inside the
      chain of the head at position `retired.length`;
   2. `tx_exactly_once` — over every interleaving the heads are served in order, none
      skipped, none repeated, and each publication of `used.idx` covers exactly
      the heads retired since the last. -/
namespace VirtioBench.Bkend

/-! ## Chains -/

/-- The worker can copy from `d`. -/
def Backend.readable (b : Backend) (d : VringDesc) : Bool :=
  (gpaToVa b d.addr true).isOk && d.flags &&& vringDescFWrite == 0

/-- The descriptors of the chain from `i`, if it ends within `fuel` of them. -/
def chain (b : Backend) (table : Nat → VringDesc) : Nat → Nat → Option (List Nat)
  | 0, _ => none
  | fuel + 1, i =>
    if b.readable (table i) then
      if (table i).flags &&& vringDescFNext ≠ 0 then
        (chain b table fuel (table i).next.toNat).map (i :: ·)
      else some [i]
    else none

def chainLen (table : Nat → VringDesc) (is : List Nat) : Nat :=
  (is.map (fun i => (table i).len.toNat)).sum

/-- Heads and links are 16-bit, so a chain that ends has at most 2^16 descriptors. -/
def chainFuel : Nat := 65536

/-- A well-formed readable chain. -/
def WellFormed (b : Backend) (table : Nat → VringDesc) (head : UInt16) : Prop :=
  ∃ is ∈ chain b table chainFuel head.toNat,
    0 < chainLen table is ∧ chainLen table is < maxLen.toNat

instance (b : Backend) (table : Nat → VringDesc) (head : UInt16) :
    Decidable (WellFormed b table head) :=
  inferInstanceAs (Decidable (∃ is ∈ _, _ ∧ _))

section Chain
variable {b : Backend} {table table' : Nat → VringDesc}

/-- A chain depends on its own descriptors only. -/
theorem chain_congr {fuel i : Nat} {is : List Nat} (h : chain b table fuel i = some is)
    (hsame : ∀ j ∈ is, table' j = table j) : chain b table' fuel i = some is := by
  induction fuel generalizing i is with
  | zero => cases h
  | succ fuel ih =>
    unfold chain at h ⊢
    split at h
    · next hr =>
      split at h
      · next hnext =>
        obtain ⟨rest, hrest, rfl⟩ := Option.map_eq_some_iff.mp h
        rw [hsame i List.mem_cons_self, if_pos hr, if_pos hnext,
          ih hrest (fun j hj => hsame j (List.mem_cons_of_mem i hj))]
        rfl
      · next hnext =>
        cases h
        rw [hsame i List.mem_cons_self, if_pos hr, if_neg hnext]
    · cases h

theorem chainLen_congr {is : List Nat} (hsame : ∀ j ∈ is, table' j = table j) :
    chainLen table' is = chainLen table is := by
  unfold chainLen
  congr 1
  apply List.map_congr_left
  intro j hj
  rw [hsame j hj]

theorem chainLen_append (table : Nat → VringDesc) (is js : List Nat) :
    chainLen table (is ++ js) = chainLen table is + chainLen table js := by
  unfold chainLen
  rw [List.map_append, List.sum_append]

/-- The descriptor a chain starts with, and what follows. -/
theorem chain_cases {fuel i : Nat} {is : List Nat} (h : chain b table fuel i = some is) :
    b.readable (table i) = true ∧
    ((table i).flags &&& vringDescFNext ≠ 0 ∧
        (∃ fuel' rest, is = i :: rest ∧ chain b table fuel' (table i).next.toNat = some rest) ∨
      (table i).flags &&& vringDescFNext = 0 ∧ is = [i]) := by
  cases fuel with
  | zero => cases h
  | succ fuel =>
    unfold chain at h
    split at h
    · next hr =>
      refine ⟨hr, ?_⟩
      split at h
      · next hnext =>
        obtain ⟨rest, hrest, rfl⟩ := Option.map_eq_some_iff.mp h
        exact .inl ⟨hnext, fuel, rest, rfl, hrest⟩
      · next hnext =>
        cases h
        exact .inr ⟨not_not.mp hnext, rfl⟩
    · cases h

end Chain

/-! ## The system -/

structure Tx where
  sh : Shared
  w : Worker
  slotWritten : Bool
  posted : List UInt16
  returned : List VringUsedElem

inductive TxAct where
  | worker
  | writeDesc (i : Nat) (d : VringDesc)
  | writeByte (addr : UInt64) (x : UInt8)
  | writeSlot (head : UInt16)
  | advance
  deriving DecidableEq, Repr

def Event.fetchedHead : Event → Option UInt16
  | .availRead _ head => some head
  | _ => none

def Event.retiredId : Event → Option UInt32
  | .usedWrite _ elem => some elem.id
  | _ => none

namespace Tx

def vq (t : Tx) : VhVirtqueue := t.sh.bk.tx
def avail (t : Tx) : VringAvail := t.sh.mem.avail t.vq.avail
def used (t : Tx) : VringUsed := t.sh.mem.used t.vq.used
def table (t : Tx) : Nat → VringDesc := t.sh.mem.desc t.vq.desc

/-- The heads the worker has read from the avail ring. -/
def fetched (t : Tx) : List UInt16 := t.sh.trace.filterMap Event.fetchedHead

/-- The ids the worker has written to the used ring. -/
def retired (t : Tx) : List UInt32 := t.sh.trace.filterMap Event.retiredId

/-- The heads the guest has posted and not got back. -/
def outstanding (t : Tx) : List UInt16 := t.posted.drop t.returned.length

/-- Fewer than `n` heads beyond `used.idx`. -/
def Room (n : Nat) (t : Tx) : Prop := (t.avail.idx - t.used.idx).toNat < n

/-- The head in the slot the guest posts next. -/
def nextHead (n : Nat) (t : Tx) : UInt16 := t.avail.ring (t.avail.idx.toNat % n)

/-- The descriptor `i` belongs to no chain the backend still has. -/
def Free (t : Tx) (i : Nat) : Prop :=
  ∀ h ∈ t.outstanding, ∀ is ∈ chain t.sh.bk t.table chainFuel h.toNat, i ∉ is

instance (n : Nat) (t : Tx) : Decidable (t.Room n) := inferInstanceAs (Decidable (_ < _))

instance (t : Tx) (i : Nat) : Decidable (t.Free i) :=
  inferInstanceAs (Decidable (∀ h ∈ _, ∀ is ∈ _, _ ∉ _))

def guest (t : Tx) (g : GuestWrite) : Tx := { t with sh := { t.sh with mem := g.apply t.sh.mem } }

end Tx

/-- What the worker does to a system whose `returned` it leaves alone. -/
def Tx.worked (t : Tx) (r : Shared × Worker) : Tx := { t with sh := r.1, w := r.2 }

/-- Publishing gives the guest what the used ring holds up to `last_used_idx`. -/
def Tx.published (n : Nat) (t : Tx) : Tx :=
  { t.worked (publishStep t.sh t.w) with
    returned := t.returned ++ usedBetween n t.used t.used.idx t.vq.lastUsedIdx }

/-- The guest writes `head` into the slot it posts next. -/
def Tx.slotted (n : Nat) (t : Tx) (head : UInt16) : Tx :=
  { t.guest (.availRing t.vq.avail (t.avail.idx.toNat % n) head) with slotWritten := true }

/-- The guest posts the head in that slot. -/
def Tx.advanced (n : Nat) (t : Tx) : Tx :=
  { t.guest (.availIdx t.vq.avail (t.avail.idx + 1)) with
    slotWritten := false
    posted := t.posted ++ [t.nextHead n] }

/-- One step of the worker, or of the guest. -/
def txStep (n : Nat) (t : Tx) : TxAct → Option Tx
  | .worker => (workerStep t.sh t.w).map (fun r =>
      if t.w.pc = .publish then t.published n else t.worked r)
  | .writeDesc i d => if t.Free i then some (t.guest (.desc t.vq.desc i d)) else none
  | .writeByte addr x => some (t.guest (.byte addr x))
  | .writeSlot head => if t.Room n then some (t.slotted n head) else none
  | .advance =>
    if t.slotWritten ∧ t.Room n ∧ WellFormed t.sh.bk t.table (t.nextHead n) then
      some (t.advanced n)
    else none

/-- What one step can do. -/
inductive TxMove (n : Nat) (t : Tx) : TxAct → Tx → Prop
  | head (hpc : t.w.pc = .head) : TxMove n t .worker (t.worked (headStep t.sh t.w))
  | fetch (hpc : t.w.pc = .fetch) : TxMove n t .worker (t.worked (fetchStep t.sh t.w))
  | walk (hpc : t.w.pc = .walk) : TxMove n t .worker (t.worked (walkStep t.sh t.w))
  | retire (hpc : t.w.pc = .retire) : TxMove n t .worker (t.worked (retireStep t.sh t.w))
  | publish (hpc : t.w.pc = .publish) : TxMove n t .worker (t.published n)
  | writeDesc (i : Nat) (d : VringDesc) (hfree : t.Free i) :
      TxMove n t (.writeDesc i d) (t.guest (.desc t.vq.desc i d))
  | writeByte (addr : UInt64) (x : UInt8) : TxMove n t (.writeByte addr x) (t.guest (.byte addr x))
  | writeSlot (head : UInt16) (hroom : t.Room n) : TxMove n t (.writeSlot head) (t.slotted n head)
  | advance (hroom : t.Room n) (hwf : WellFormed t.sh.bk t.table (t.nextHead n)) :
      TxMove n t .advance (t.advanced n)

theorem txStep_cases {n : Nat} {t t' : Tx} {a : TxAct} (h : txStep n t a = some t') :
    TxMove n t a t' := by
  cases a with
  | worker =>
    obtain ⟨r, hr, rfl⟩ := Option.map_eq_some_iff.mp h
    unfold workerStep at hr
    split at hr
    · next hpc => cases hr; rw [hpc]; exact .head hpc
    · next hpc => cases hr; rw [hpc]; exact .fetch hpc
    · next hpc => cases hr; rw [hpc]; exact .walk hpc
    · next hpc => cases hr; rw [hpc]; exact .retire hpc
    · next hpc => rw [if_pos hpc]; exact .publish hpc
    · cases hr
  | writeDesc i d =>
    dsimp only [txStep] at h
    split at h
    · next hfree => cases h; exact .writeDesc i d hfree
    · cases h
  | writeByte addr x => cases h; exact .writeByte addr x
  | writeSlot head =>
    dsimp only [txStep] at h
    split at h
    · next hroom => cases h; exact .writeSlot head hroom
    · cases h
  | advance =>
    dsimp only [txStep] at h
    split at h
    · next hpost => cases h; exact .advance hpost.2.1 hpost.2.2
    · cases h

/-- The worker started on the queue as it stands, with `posted` already in it. -/
def txStart (b : Backend) (mem : GuestMemory) (buf : Nat → UInt8) (posted : List UInt16) : Tx where
  sh := ⟨b, mem, false, []⟩
  w := dequeue b buf
  slotWritten := false
  posted := posted
  returned := []

/-! ## The invariant -/

namespace Tx

def ledger (t : Tx) : Ledger where
  avail := t.avail
  used := t.used
  lastAvailIdx := t.vq.lastAvailIdx
  lastUsedIdx := t.vq.lastUsedIdx
  posted := t.posted
  retired := t.retired
  returned := t.returned

/-- The worker holds the head posted at position `retired.length`, and its slot. -/
structure Serving (n base : Nat) (t : Tx) : Prop where
  head : t.posted[t.retired.length]? = some t.w.dIdx
  slot : t.w.uIdx.toNat = (base + t.retired.length) % n
  fetched : t.fetched = t.posted.take (t.retired.length + 1)

/-- The walk is inside the chain of that head, with `len` the bytes behind it. -/
def Walking (t : Tx) : Prop :=
  ∃ fuel done rest, chain t.sh.bk t.table chainFuel t.w.dIdx.toNat = some (done ++ rest) ∧
    chain t.sh.bk t.table fuel t.w.i.toNat = some rest ∧
    t.w.len.toNat = chainLen t.table done ∧
    0 < chainLen t.table (done ++ rest) ∧ chainLen t.table (done ++ rest) < maxLen.toNat

/-- What holds at each place of the worker's loop; it never ends. -/
def AtPc (n base : Nat) (t : Tx) : WorkerPc → Prop
  | .head | .publish => t.fetched = t.posted.take t.retired.length
  | .fetch => t.fetched = t.posted.take t.retired.length ∧ t.retired.length < t.posted.length
  | .walk => t.Serving n base ∧ t.Walking
  | .retire => t.Serving n base ∧ 0 < t.w.len.toNat
  | .halted _ => False

structure Inv (n base : Nat) (t : Tx) : Prop where
  avail : t.w.avail = t.vq.avail
  used : t.w.used = t.vq.used
  desc : t.w.desc = t.vq.desc
  size : t.w.size.toInt = n
  ledger : t.ledger.Ok n base
  chains : ∀ h ∈ t.outstanding, WellFormed t.sh.bk t.table h
  pc : t.AtPc n base t.w.pc

end Tx

section Steps
variable {n base : Nat} {t t' : Tx}

theorem Tx.fetched_log (t : Tx) (es : List Event) (w : Worker) :
    (t.worked (t.sh.log es, w)).fetched = t.fetched ++ es.filterMap Event.fetchedHead :=
  List.filterMap_append

theorem Tx.retired_log (t : Tx) {es : List Event} (w : Worker)
    (hes : es.filterMap Event.retiredId = []) :
    (t.worked (t.sh.log es, w)).retired = t.retired := by
  show (t.sh.trace ++ es).filterMap Event.retiredId = _
  rw [List.filterMap_append, hes, List.append_nil]
  rfl

/-- Reading and copying leave the ledger alone. -/
theorem Tx.ledger_log (t : Tx) {es : List Event} (w : Worker)
    (hes : es.filterMap Event.retiredId = []) :
    (t.worked (t.sh.log es, w)).ledger = t.ledger := by
  unfold Tx.ledger
  rw [Tx.retired_log t w hes]
  rfl

theorem Tx.Inv.head (hi : t.Inv n base) (hlt : n < 2 ^ 16) (hpc : t.w.pc = .head) :
    (t.worked (headStep t.sh t.w)).Inv n base := by
  have hat := hi.pc
  rw [hpc] at hat
  unfold headStep
  split
  · exact ⟨hi.avail, hi.used, hi.desc, hi.size, hi.ledger, hi.chains, hat⟩
  · next hne =>
    refine ⟨hi.avail, hi.used, hi.desc, hi.size, hi.ledger, hi.chains, hat, ?_⟩
    rw [hi.avail] at hne
    have hlen := (hi.ledger.empty_iff hlt).not.mp hne
    exact Nat.lt_of_le_of_ne hi.ledger.processed hlen

/-- The head the worker serves is not returned yet. -/
theorem Tx.mem_outstanding (hi : t.Inv n base) {h : UInt16}
    (hh : t.posted[t.retired.length]? = some h) : h ∈ t.outstanding := by
  have hp : t.returned.length ≤ t.retired.length := hi.ledger.published
  refine List.mem_of_getElem? (i := t.retired.length - t.returned.length) ?_
  unfold Tx.outstanding
  rw [List.getElem?_drop, Nat.add_sub_cancel' hp]
  exact hh

theorem Tx.Inv.fetch (hi : t.Inv n base) (hn : n ∣ 2 ^ 16) (hpc : t.w.pc = .fetch) :
    (t.worked (fetchStep t.sh t.w)).Inv n base := by
  have hat := hi.pc
  rw [hpc] at hat
  obtain ⟨hfetched, hlt⟩ := hat
  have hpos : 0 < n := Nat.pos_of_dvd_of_pos hn (by decide)
  -- `%` does not trap
  have hsize : t.w.size ≠ 0 := by
    intro h0
    have hz : t.w.size.toInt = 0 := by rw [h0]; rfl
    rw [hi.size] at hz
    omega
  have hslot : (modSize t.vq.lastAvailIdx t.w.size).toNat = t.vq.lastAvailIdx.toNat % n :=
    modSize_toNat hi.size
  have hhead : t.posted[t.retired.length]? =
      some (t.avail.ring (modSize t.vq.lastAvailIdx t.w.size).toNat) := by
    rw [hslot]
    exact hi.ledger.next_head hn hlt
  have hlast : t.vq.lastUsedIdx.toNat = (base + t.retired.length) % 2 ^ 16 := by
    have heq : t.vq.lastUsedIdx = t.vq.lastAvailIdx := hi.ledger.lastUsed
    rw [heq]
    exact hi.ledger.lastAvail
  obtain ⟨is, his, hpos', hmax⟩ := hi.chains _ (Tx.mem_outstanding hi hhead)
  unfold fetchStep
  rw [if_neg hsize]
  dsimp only
  refine ⟨hi.avail, hi.used, hi.desc, hi.size, ?_, hi.chains, ⟨?_, ?_, ?_⟩, ?_⟩
  · rw [Tx.ledger_log t _ rfl]
    exact hi.ledger
  · rw [Tx.retired_log t _ rfl]
    exact hhead
  · rw [Tx.retired_log t _ rfl]
    show (modSize t.vq.lastUsedIdx t.w.size).toNat = _
    rw [modSize_toNat hi.size, slot_of_idx hn hlast]
  · rw [Tx.retired_log t _ rfl, Tx.fetched_log, hfetched]
    show _ = t.posted.take (t.retired.length + 1)
    rw [List.take_add_one, hhead]
    rfl
  · refine ⟨chainFuel, [], is, his, ?_, rfl, hpos', hmax⟩
    show chain _ _ _ (UInt16.toUInt32 _).toNat = _
    rw [UInt16.toNat_toUInt32]
    exact his

theorem workerStep_walk (sh : Shared) {w : Worker} (hpc : w.pc = .walk) :
    workerStep sh w = some (walkStep sh w) := by
  unfold workerStep
  rw [hpc]

/-- A readable descriptor is copied and its link followed, unless it is too long. -/
theorem walkStep_readable {sh : Shared} {w : Worker} {d : VringDesc}
    (hd : sh.mem.desc w.desc w.i.toNat = d) (hr : sh.bk.readable d = true) :
    ∃ chunk, gpaToVa sh.bk d.addr true = .ok chunk ∧
      walkStep sh w =
        if w.len + d.len < maxLen then
          (sh.log [.memcpy w.len chunk d.len],
            if d.flags &&& vringDescFNext ≠ 0 then
              { w.copy sh.mem chunk d.len with i := d.next.toUInt32 }
            else { w.copy sh.mem chunk d.len with pc := .retire })
        else (sh, w.halt .frameTooLong) := by
  unfold Backend.readable at hr
  rw [Bool.and_eq_true, beq_iff_eq] at hr
  obtain ⟨hok, hwrite⟩ := hr
  cases hva : gpaToVa sh.bk d.addr true with
  | error e => rw [hva] at hok; cases hok
  | ok chunk =>
    refine ⟨chunk, rfl, ?_⟩
    unfold walkStep
    rw [hd]
    simp only [hva]
    rw [if_neg (not_not.mpr hwrite)]
    apply if_congr Iff.rfl _ rfl
    split <;> rfl

/-- Any other descriptor ends the process. -/
theorem walkStep_unreadable {sh : Shared} {w : Worker}
    (hr : ¬ sh.bk.readable (sh.mem.desc w.desc w.i.toNat) = true) :
    ∃ e, walkStep sh w = (sh, w.halt e) := by
  unfold Backend.readable at hr
  rw [Bool.and_eq_true, beq_iff_eq] at hr
  unfold walkStep
  dsimp only
  cases hva : gpaToVa sh.bk (sh.mem.desc w.desc w.i.toNat).addr true with
  | error e => exact ⟨e, rfl⟩
  | ok chunk =>
    rw [hva] at hr
    dsimp only
    rw [if_pos (fun hwrite => hr ⟨rfl, hwrite⟩)]
    exact ⟨.writableDescriptor, rfl⟩

theorem walkStep_eq {sh : Shared} {w : Worker} {d : VringDesc}
    (hd : sh.mem.desc w.desc w.i.toNat = d) (hr : sh.bk.readable d = true)
    (hfits : w.len + d.len < maxLen) :
    ∃ chunk, walkStep sh w = (sh.log [.memcpy w.len chunk d.len],
      if d.flags &&& vringDescFNext ≠ 0 then
        { w.copy sh.mem chunk d.len with i := d.next.toUInt32 }
      else { w.copy sh.mem chunk d.len with pc := .retire }) := by
  obtain ⟨chunk, -, hstep⟩ := walkStep_readable hd hr
  rw [if_pos hfits] at hstep
  exact ⟨chunk, hstep⟩

/-- Copying leaves the worker with its head. -/
theorem Tx.Serving.copy (hs : t.Serving n base) {offset len : UInt32} {chunk : UInt64}
    {w : Worker} (hd : w.dIdx = t.w.dIdx) (hu : w.uIdx = t.w.uIdx) :
    (t.worked (t.sh.log [.memcpy offset chunk len], w)).Serving n base := by
  refine ⟨?_, ?_, ?_⟩
  · rw [Tx.retired_log t _ rfl]
    show _ = some w.dIdx
    rw [hd]
    exact hs.head
  · rw [Tx.retired_log t _ rfl]
    show w.uIdx.toNat = _
    rw [hu]
    exact hs.slot
  · rw [Tx.retired_log t _ rfl, Tx.fetched_log]
    exact (List.append_nil _).trans hs.fetched

/-- The bytes so far and those of the next descriptor are part of the chain's
total, so they fit the buffer and their sum does not wrap. -/
theorem next_fits {table : Nat → VringDesc} {done rest : List Nat} {i : Nat} {len : UInt32}
    (hlen : len.toNat = chainLen table done)
    (hmax : chainLen table (done ++ i :: rest) < maxLen.toNat) :
    (len + (table i).len).toNat = chainLen table (done ++ [i]) ∧ len + (table i).len < maxLen := by
  have hbound : maxLen.toNat = 10240 := rfl
  have hhere : chainLen table (done ++ [i]) = len.toNat + (table i).len.toNat := by
    rw [chainLen_append, hlen]
    rfl
  have htotal : chainLen table (done ++ i :: rest) =
      chainLen table (done ++ [i]) + chainLen table rest := by
    rw [← chainLen_append, List.append_assoc, List.singleton_append]
  have hsum : (len + (table i).len).toNat = chainLen table (done ++ [i]) := by
    rw [UInt32.toNat_add, hhere]
    exact Nat.mod_eq_of_lt (by omega)
  refine ⟨hsum, ?_⟩
  rw [UInt32.lt_iff_toNat_lt, hsum]
  omega

theorem Tx.Inv.walk (hi : t.Inv n base) (hpc : t.w.pc = .walk) :
    (t.worked (walkStep t.sh t.w)).Inv n base := by
  have hat := hi.pc
  rw [hpc] at hat
  obtain ⟨hserve, fuel, done, rest, hchain, hrest, hlen, hpos, hmax⟩ := hat
  obtain ⟨hr, hcases⟩ := chain_cases hrest
  have hd : t.sh.mem.desc t.w.desc t.w.i.toNat = t.table t.w.i.toNat := by
    rw [hi.desc]
    rfl
  rcases hcases with ⟨hnext, fuel', rest', rfl, hrest'⟩ | ⟨hlast, rfl⟩
  · obtain ⟨hsum, hfits⟩ := next_fits hlen hmax
    obtain ⟨chunk, hstep⟩ := walkStep_eq hd hr hfits
    rw [hstep, if_pos hnext]
    refine ⟨hi.avail, hi.used, hi.desc, hi.size, ?_, hi.chains, ?_⟩
    · rw [Tx.ledger_log t _ rfl]
      exact hi.ledger
    · -- the walk goes on behind the descriptor just copied
      show Tx.AtPc n base _ t.w.pc
      rw [hpc]
      refine ⟨hserve.copy rfl rfl, fuel', done ++ [t.w.i.toNat], rest', ?_, ?_, hsum, ?_, ?_⟩
      · rw [List.append_assoc]
        exact hchain
      · show chain _ _ _ (UInt16.toUInt32 _).toNat = _
        rw [UInt16.toNat_toUInt32]
        exact hrest'
      · rw [List.append_assoc]
        exact hpos
      · rw [List.append_assoc]
        exact hmax
  · obtain ⟨hsum, hfits⟩ := next_fits hlen hmax
    obtain ⟨chunk, hstep⟩ := walkStep_eq hd hr hfits
    rw [hstep, if_neg (not_not.mpr hlast)]
    refine ⟨hi.avail, hi.used, hi.desc, hi.size, ?_, hi.chains, hserve.copy rfl rfl, ?_⟩
    · rw [Tx.ledger_log t _ rfl]
      exact hi.ledger
    · show 0 < (t.w.len + (t.table t.w.i.toNat).len).toNat
      rw [hsum]
      exact hpos

/-- Chains are read through the region table only. -/
theorem chain_setVq (b : Backend) (q : Fin 2) (v : VhVirtqueue) (table : Nat → VringDesc)
    (fuel i : Nat) : chain (b.setVq q v) table fuel i = chain b table fuel i := by
  induction fuel generalizing i with
  | zero => rfl
  | succ fuel ih =>
    unfold chain
    rw [ih]
    rfl

theorem wellFormed_setVq {b : Backend} {q : Fin 2} {v : VhVirtqueue} {table : Nat → VringDesc}
    {head : UInt16} : WellFormed (b.setVq q v) table head ↔ WellFormed b table head := by
  unfold WellFormed
  rw [chain_setVq]

/-- Retiring, as the ledger sees it. -/
theorem Tx.ledger_retire (hu : t.w.used = t.vq.used) (hlen : t.w.len ≠ 0) :
    (t.worked (retireStep t.sh t.w)).ledger = t.ledger.retire t.w.uIdx.toNat t.w.dIdx ∧
    (t.worked (retireStep t.sh t.w)).fetched = t.fetched := by
  unfold retireStep
  rw [if_neg hlen]
  constructor
  · unfold Tx.ledger Ledger.retire Tx.avail Tx.used Tx.retired Tx.vq Tx.worked Backend.tx
    have hu' : t.w.used = (t.sh.bk.vq 1).used := hu
    simp only [setVq_self, hu', VhVirtqueue.advance, setUsedRing_used, List.filterMap_append]
    split <;> rfl
  · show List.filterMap _ (t.sh.trace ++ _) = _
    rw [List.filterMap_append]
    split <;> exact List.append_nil _

theorem Tx.retire_vq (hlen : t.w.len ≠ 0) :
    (t.worked (retireStep t.sh t.w)).vq = t.vq.advance := by
  unfold retireStep
  rw [if_neg hlen]
  exact setVq_self ..

theorem Tx.retire_wellFormed (hlen : t.w.len ≠ 0) {h : UInt16}
    (hwf : WellFormed t.sh.bk t.table h) :
    WellFormed (t.worked (retireStep t.sh t.w)).sh.bk (t.worked (retireStep t.sh t.w)).table h := by
  unfold Tx.table
  rw [Tx.retire_vq hlen]
  unfold retireStep
  rw [if_neg hlen]
  exact wellFormed_setVq.mpr hwf

theorem Tx.Inv.retire (hi : t.Inv n base) (hpc : t.w.pc = .retire) :
    (t.worked (retireStep t.sh t.w)).Inv n base := by
  have hat := hi.pc
  rw [hpc] at hat
  obtain ⟨hserve, hpos⟩ := hat
  have hlen : t.w.len ≠ 0 := by
    intro h0
    rw [h0] at hpos
    exact Nat.lt_irrefl 0 hpos
  obtain ⟨hledger, hfetched⟩ := Tx.ledger_retire hi.used hlen
  have hretired : (t.worked (retireStep t.sh t.w)).retired = t.retired ++ [t.w.dIdx.toUInt32] :=
    congrArg Ledger.retired hledger
  have hok := hi.ledger.retire hserve.head hserve.slot
  rw [← hledger] at hok
  have hvq := Tx.retire_vq hlen
  have hw : (t.worked (retireStep t.sh t.w)).w = { t.w with pc := .head } := by
    unfold retireStep
    rw [if_neg hlen]
    rfl
  refine ⟨?_, ?_, ?_, ?_, hok, ?_, ?_⟩
  · rw [hw, hvq]; exact hi.avail
  · rw [hw, hvq]; exact hi.used
  · rw [hw, hvq]; exact hi.desc
  · rw [hw]; exact hi.size
  · intro h hh
    exact Tx.retire_wellFormed hlen (hi.chains h hh)
  · rw [hw]
    show Tx.fetched _ = List.take (List.length (Tx.retired _)) t.posted
    rw [hretired, hfetched, List.length_append, List.length_singleton]
    exact hserve.fetched

/-- Publishing, as the ledger sees it. -/
theorem Tx.ledger_publish (hu : t.w.used = t.vq.used) :
    (t.published n).ledger = t.ledger.publish n := by
  unfold Tx.published publishStep Tx.ledger Ledger.publish Tx.avail Tx.used Tx.retired Tx.vq Tx.worked Backend.tx
  have hu' : t.w.used = (t.sh.bk.vq 1).used := hu
  simp only [hu', setUsedIdx_used, List.filterMap_append]
  rw [show List.filterMap Event.retiredId [.publish (t.sh.bk.vq 1).lastUsedIdx] = [] from rfl,
    List.append_nil]
  rfl

theorem Tx.Inv.publish (hi : t.Inv n base) (hn : n ∣ 2 ^ 16) (hlt : n < 2 ^ 16)
    (hpc : t.w.pc = .publish) : (t.published n).Inv n base := by
  have hat := hi.pc
  rw [hpc] at hat
  have hok := (hi.ledger.publish hn hlt).1
  rw [← Tx.ledger_publish hi.used] at hok
  refine ⟨hi.avail, hi.used, hi.desc, hi.size, hok, ?_, ?_⟩
  · -- what is returned is no longer outstanding
    intro h hh
    refine hi.chains h (List.mem_of_mem_drop (i :=
      (usedBetween n t.used t.used.idx t.vq.lastUsedIdx).length) ?_)
    unfold Tx.outstanding at hh ⊢
    rw [List.drop_drop, ← List.length_append]
    exact hh
  · show List.filterMap _ (t.sh.trace ++ [_]) = List.take (List.length
      (List.filterMap _ (t.sh.trace ++ [_]))) t.posted
    rw [List.filterMap_append, List.filterMap_append]
    show t.fetched ++ [] = List.take (t.retired ++ []).length t.posted
    rw [List.append_nil, List.append_nil]
    exact hat

/-- The worker's place depends on the chain it walks, and on the heads posted up
to its own. -/
theorem Tx.AtPc.frame {pc : WorkerPc} (hat : t.AtPc n base pc) (hw : t'.w = t.w)
    (htrace : t'.sh.trace = t.sh.trace) (hle : t.retired.length ≤ t.posted.length)
    (hposted : t.posted <+: t'.posted)
    (hwalk : t.Serving n base → t.Walking → t'.Walking) : t'.AtPc n base pc := by
  have hfetched : t'.fetched = t.fetched := congrArg (List.filterMap Event.fetchedHead) htrace
  have hretired : t'.retired = t.retired := congrArg (List.filterMap Event.retiredId) htrace
  obtain ⟨zs, hzs⟩ := hposted
  have htake : t'.posted.take t.retired.length = t.posted.take t.retired.length := by
    rw [← hzs, List.take_append_of_le_length hle]
  have hserve : t.Serving n base → t'.Serving n base := by
    -- heads posted later come behind the one being served
    intro hs
    have hlt : t.retired.length < t.posted.length := (List.getElem?_eq_some_iff.mp hs.head).1
    refine ⟨?_, ?_, ?_⟩
    · rw [hretired, hw, ← hzs, List.getElem?_append_left hlt]
      exact hs.head
    · rw [hretired, hw]
      exact hs.slot
    · rw [hretired, hfetched, ← hzs, List.take_append_of_le_length hlt]
      exact hs.fetched
  cases pc with
  | head | publish =>
    show t'.fetched = t'.posted.take t'.retired.length
    rw [hfetched, hretired, htake]
    exact hat
  | fetch =>
    refine ⟨?_, ?_⟩
    · rw [hfetched, hretired, htake]
      exact hat.1
    · rw [hretired, ← hzs, List.length_append]
      exact Nat.lt_add_right _ hat.2
  | walk => exact ⟨hserve hat.1, hwalk hat.1 hat.2⟩
  | retire =>
    refine ⟨hserve hat.1, ?_⟩
    rw [hw]
    exact hat.2
  | halted => exact hat

/-- A chain without the descriptor `i` is untouched by a write to it. -/
theorem update_of_not_mem (table : Nat → VringDesc) {i : Nat} {is : List Nat} (hi : i ∉ is)
    (d : VringDesc) : ∀ j ∈ is, Function.update table i d j = table j := by
  intro j hj
  have hne : j ≠ i := by rintro rfl; exact hi hj
  exact Function.update_of_ne hne d table

theorem Tx.guest_desc_table (t : Tx) (i : Nat) (d : VringDesc) :
    (t.guest (.desc t.vq.desc i d)).table = Function.update t.table i d :=
  Function.update_self ..

theorem Tx.Inv.writeDesc (hi : t.Inv n base) {i : Nat} (hfree : t.Free i) (d : VringDesc) :
    (t.guest (.desc t.vq.desc i d)).Inv n base := by
  refine ⟨hi.avail, hi.used, hi.desc, hi.size, hi.ledger, ?_, ?_⟩
  · intro h hh
    obtain ⟨is, his, hpos, hmax⟩ := hi.chains h hh
    have hsame := update_of_not_mem t.table (hfree h hh is his) d
    unfold WellFormed
    rw [Tx.guest_desc_table]
    refine ⟨is, chain_congr his hsame, ?_, ?_⟩
    · rw [chainLen_congr hsame]; exact hpos
    · rw [chainLen_congr hsame]; exact hmax
  · refine hi.pc.frame rfl rfl hi.ledger.processed List.prefix_rfl ?_
    -- the chain being walked is outstanding, so `i` is not part of it
    rintro hserve ⟨fuel, done, rest, hchain, hrest, hlen, hpos, hmax⟩
    have hall := update_of_not_mem t.table (hfree _ (Tx.mem_outstanding hi hserve.head) _ hchain) d
    have hdone : ∀ j ∈ done, Function.update t.table i d j = t.table j :=
      fun j hj => hall j (List.mem_append_left _ hj)
    have hrest' : ∀ j ∈ rest, Function.update t.table i d j = t.table j :=
      fun j hj => hall j (List.mem_append_right _ hj)
    unfold Tx.Walking
    rw [Tx.guest_desc_table]
    refine ⟨fuel, done, rest, chain_congr hchain hall, chain_congr hrest hrest', ?_, ?_, ?_⟩
    · rw [chainLen_congr hdone]; exact hlen
    · rw [chainLen_congr hall]; exact hpos
    · rw [chainLen_congr hall]; exact hmax

theorem Tx.Inv.writeByte (hi : t.Inv n base) (addr : UInt64) (x : UInt8) :
    (t.guest (.byte addr x)).Inv n base :=
  ⟨hi.avail, hi.used, hi.desc, hi.size, hi.ledger, hi.chains,
    hi.pc.frame rfl rfl hi.ledger.processed List.prefix_rfl (fun _ hw => hw)⟩

theorem Tx.Inv.writeSlot (hi : t.Inv n base) (hn : n ∣ 2 ^ 16) (hlt : n < 2 ^ 16)
    (hroom : t.Room n) (head : UInt16) : (t.slotted n head).Inv n base := by
  have hledger : (t.slotted n head).ledger = t.ledger.writeSlot n head := by
    unfold Tx.ledger Ledger.writeSlot
    congr 1
    exact Function.update_self ..
  refine ⟨hi.avail, hi.used, hi.desc, hi.size, ?_, hi.chains,
    hi.pc.frame rfl rfl hi.ledger.processed List.prefix_rfl (fun _ hw => hw)⟩
  rw [hledger]
  exact hi.ledger.writeSlot hn hlt hroom head

theorem Tx.Inv.advance (hi : t.Inv n base) (hn : n ∣ 2 ^ 16) (hlt : n < 2 ^ 16)
    (hroom : t.Room n) (hwf : WellFormed t.sh.bk t.table (t.nextHead n)) :
    (t.advanced n).Inv n base := by
  have hledger : (t.advanced n).ledger = t.ledger.advance n := by
    unfold Tx.ledger Ledger.advance
    congr 1
    exact Function.update_self ..
  have hle : t.returned.length ≤ t.posted.length :=
    Nat.le_trans hi.ledger.published hi.ledger.processed
  refine ⟨hi.avail, hi.used, hi.desc, hi.size, ?_, ?_,
    hi.pc.frame rfl rfl hi.ledger.processed (List.prefix_append _ _) (fun _ hw => hw)⟩
  · rw [hledger]
    exact hi.ledger.advance hn hlt hroom
  · intro h (hh : h ∈ (t.posted ++ [t.nextHead n]).drop t.returned.length)
    rw [List.drop_append_of_le_length hle] at hh
    rcases List.mem_append.mp hh with hh | hh
    · exact hi.chains h hh
    · rw [List.mem_singleton.mp hh]
      exact hwf

theorem Tx.AtPc.fetched_prefix {pc : WorkerPc} (hat : t.AtPc n base pc) :
    t.fetched <+: t.posted := by
  cases pc with
  | head | publish => exact hat ▸ List.take_prefix _ _
  | fetch => exact hat.1 ▸ List.take_prefix _ _
  | walk | retire => exact hat.1.fetched ▸ List.take_prefix _ _
  | halted => exact hat.elim

/-- Every step of the worker and of the guest keeps the invariant. -/
theorem txStep_inv (hn : n ∣ 2 ^ 16) (hlt : n < 2 ^ 16) {a : TxAct} (hi : t.Inv n base)
    (h : txStep n t a = some t') : t'.Inv n base := by
  cases txStep_cases h with
  | head hpc => exact hi.head hlt hpc
  | fetch hpc => exact hi.fetch hn hpc
  | walk hpc => exact hi.walk hpc
  | retire hpc => exact hi.retire hpc
  | publish hpc => exact hi.publish hn hlt hpc
  | writeDesc i d hfree => exact hi.writeDesc hfree d
  | writeByte addr x => exact hi.writeByte addr x
  | writeSlot head hroom => exact hi.writeSlot hn hlt hroom head
  | advance hroom hwf => exact hi.advance hn hlt hroom hwf

end Steps

/-! ## Every run -/

/-- The heads the guest had posted when the worker was started. -/
structure Posted (n : Nat) (b : Backend) (mem : GuestMemory) (posted : List UInt16) : Prop where
  bounded : posted.length ≤ n
  availIdx : (mem.avail (b.vq 1).avail).idx =
    (mem.used (b.vq 1).used).idx + UInt16.ofNat posted.length
  heads : ∀ k h, posted[k]? = some h →
    (mem.avail (b.vq 1).avail).ring (((mem.used (b.vq 1).used).idx + UInt16.ofNat k).toNat % n) = h
  chains : ∀ h ∈ posted, WellFormed b (mem.desc (b.vq 1).desc) h

theorem txStart_inv {mem : GuestMemory} {b : Backend} {posted : List UInt16} {size : UInt32}
    (buf : Nat → UInt8) (hn : size.toNat ∣ 2 ^ 16) (hlt : size.toNat < 2 ^ 16)
    (hsize : (b.vq 0).size = size)
    (hidx : (b.vq 1).lastAvailIdx = (mem.used (b.vq 1).used).idx ∧
      (b.vq 1).lastUsedIdx = (mem.used (b.vq 1).used).idx)
    (hp : Posted size.toNat b mem posted) :
    (txStart b mem buf posted).Inv size.toNat (mem.used (b.vq 1).used).idx.toNat := by
  have hu16 := (mem.used (b.vq 1).used).idx.toNat_lt
  refine ⟨rfl, rfl, rfl, ?_, ?_, hp.chains, ?_⟩
  · show (b.vq 0).size.toInt32.toInt = _
    rw [hsize]
    exact toInt_toInt32 (by omega)
  · refine ⟨Nat.le_refl _, Nat.zero_le _, ?_, ?_, ?_, ?_, ?_, ?_, Window.Shows.nil, ?_, ?_⟩
    · show posted.length ≤ 0 + size.toNat
      rw [Nat.zero_add]
      exact hp.bounded
    · show (mem.avail (b.vq 1).avail).idx.toNat = _
      rw [hp.availIdx, toNat_add_ofNat]
      rfl
    · show (b.vq 1).lastAvailIdx.toNat = _
      rw [hidx.1]
      exact (Nat.mod_eq_of_lt hu16).symm
    · exact hidx.2.trans hidx.1.symm
    · exact (Nat.mod_eq_of_lt hu16).symm
    · intro k h hk
      have hslot := hp.heads k h hk
      rw [slot_of_idx hn (toNat_add_ofNat _ k)] at hslot
      exact hslot
    · exact List.nil_prefix
    · exact List.nil_prefix
  · rfl

/-- **In order, exactly once.** For rings of one power-of-two size, from the state
`SET_VRING_ADDR` leaves and for every interleaving of the worker and the guest:
the worker does not end; the heads it reads and the ids it writes are those
posted, in order; what the guest got back is what was written, in order; the two
indices stay equal; and a publication covers exactly the entries written since
the last. -/
theorem tx_exactly_once (size : UInt32) (k : Nat) (hk : k ≤ 15) (hsize : size.toNat = 2 ^ k)
    (mem : GuestMemory) (b b' : Backend) (vra : VringAddr) (hvra : vra.index = 1)
    (hset : setVringAddr mem b vra = .ok b') (hq : ∀ q, (b'.vq q).size = size)
    (buf : Nat → UInt8) (posted : List UInt16) (hp : Posted size.toNat b' mem posted)
    (as : List TxAct) (t : Tx)
    (hr : Transition.run (txStep size.toNat) (txStart b' mem buf posted) as = some t) :
    (∀ e, t.w.pc ≠ .halted e) ∧
    t.fetched <+: t.posted ∧
    t.retired <+: t.posted.map UInt16.toUInt32 ∧
    t.returned <+: t.retired.map entry ∧
    t.vq.lastAvailIdx = t.vq.lastUsedIdx ∧
    (t.w.pc = .publish →
      usedBetween size.toNat t.used t.used.idx t.vq.lastUsedIdx =
        (t.retired.drop t.returned.length).map entry ∧
      (t.published size.toNat).used.idx = t.vq.lastUsedIdx ∧
      (t.published size.toNat).returned = t.retired.map entry) := by
  have hn : size.toNat ∣ 2 ^ 16 := by
    rw [hsize]
    exact Nat.pow_dvd_pow 2 (by omega)
  have hlt : size.toNat < 2 ^ 16 := by
    rw [hsize]
    exact Nat.pow_lt_pow_right (by decide) (by omega)
  have hi := Transition.run_invariant (fun _ _ _ => txStep_inv hn hlt)
    (txStart_inv buf hn hlt (hq 0) (setVringAddr_idx (congrArg UInt32.toNat hvra) hset) hp) hr
  have hpub := hi.ledger.publish hn hlt
  rw [← Tx.ledger_publish hi.used] at hpub
  refine ⟨?_, hi.pc.fetched_prefix, hi.ledger.retiredPosted, hi.ledger.returnedRetired,
    hi.ledger.lastUsed.symm, fun _ => ⟨hi.ledger.usedBetween_eq hn hlt, ?_, hpub.2⟩⟩
  · intro e hpc
    have hat := hi.pc
    rw [hpc] at hat
    exact hat
  · exact congrArg (fun l => l.used.idx) (Tx.ledger_publish (n := size.toNat) hi.used)

/-- One region, both queues with two slots. -/
def demoBackend : Backend where
  nregions := 1
  regions := Vector.replicate _ ⟨0, 0x10000, 0, 0, 0x700000⟩
  vq := fun _ => { (default : VhVirtqueue) with size := 2 }

def demoVra : VringAddr := ⟨1, 0x1000, 0x2000, 0x3000⟩

/-- Every descriptor is a 60-byte buffer; the indices are about to wrap. -/
def demoMemory : GuestMemory where
  desc := fun _ _ => ⟨0x4000, 60, 0, 0⟩
  avail := fun _ => ⟨65535, fun _ => 0⟩
  used := fun _ => ⟨65535, fun _ => default⟩
  byte := fun _ => 0

def demoBackend' : Backend :=
  match setVringAddr demoMemory demoBackend demoVra with
  | .ok b => b
  | .error _ => demoBackend

/-- The guest posts heads 1 and 0; the worker serves both and is about to publish. -/
def wrapRun : List TxAct :=
  [.writeSlot 1, .advance, .worker, .worker, .writeSlot 0, .advance] ++ List.replicate 7 .worker

def wrapState : Tx :=
  (Transition.run (txStep 2) (txStart demoBackend' demoMemory (fun _ => 0) []) wrapRun).getD
    (txStart demoBackend' demoMemory (fun _ => 0) [])

theorem demo_posted : Posted 2 demoBackend' demoMemory [] where
  bounded := Nat.zero_le _
  availIdx := by decide
  heads := by intro k h hk; cases hk
  chains := by intro h hh; cases hh

theorem wrap_run : Transition.run (txStep 2) (txStart demoBackend' demoMemory (fun _ => 0) [])
    wrapRun = some wrapState := rfl

/-- Both indices have wrapped from 65535 to 1. -/
theorem tx_exactly_once_wrap :
    wrapState.w.pc = .publish ∧ wrapState.used.idx = 65535 ∧ wrapState.vq.lastUsedIdx = 1 ∧
    wrapState.retired = [1, 0] ∧ wrapState.retired <+: wrapState.posted.map UInt16.toUInt32 ∧
    usedBetween 2 wrapState.used wrapState.used.idx wrapState.vq.lastUsedIdx =
      (wrapState.retired.drop wrapState.returned.length).map entry := by
  have h := tx_exactly_once 2 1 (by decide) rfl demoMemory demoBackend demoBackend' demoVra rfl rfl
    (fun q => by revert q; decide) (fun _ => 0) [] demo_posted wrapRun wrapState wrap_run
  obtain ⟨-, -, hretired, -, -, hpublish⟩ := h
  exact ⟨rfl, rfl, rfl, rfl, hretired, (hpublish rfl).1⟩

end VirtioBench.Bkend
