import VirtioBench.Lib.OnesComplement
import VirtioBench.Tap.Throttle

/- The answers of the throttle loop on the wire (code_dump/dpdkTapDevice/backpressure.cpp): what the
   host behind the tap device makes of the packets of `send_tcp_window_update`, with the
   checksum functions of DPDK (`rteCksum`).

   1. `windowUpdate_answer` — of a packet with whole headers, the update is one as well, and it
      passes the check of both checksums: the swaps and the new fields are there before the sums
      are taken, and what comes after a sum is outside of it.
   2. `answers_verify` — so in every run that receives such packets, whatever is sent has valid
      checksums, and the packet that restores a window acknowledges the byte that the one which
      closed it did. -/
namespace VirtioBench.Tap

open Bytes OnesComplement Transition

def totalLength (b : Buffer) : Nat := ofBe (read b 16 2)

/-- The IPv4 header, and a TCP header behind it. -/
def Whole (b : Buffer) : Prop := 5 ≤ ihl b ∧ ihl b * 4 + 20 ≤ totalLength b

/-- The receiver's check: the words, the checksum among them, add up to all ones. -/
structure Verifies (b : Buffer) : Prop where
  ip : fold (fold (rawCksum (read b 14 (ihl b * 4)))) = 0xffff
  tcp : fold (fold (rawCksum (read b (tcpOff b) (totalLength b - ihl b * 4)) + rawCksum (read b 26 8)
    + ipprotoTcp.toNat + (totalLength b - ihl b * 4))) = 0xffff

/-- An acknowledgment of the next byte, with a window. -/
structure Acknowledges (windowVal : UInt16) (b : Buffer) : Prop where
  flags : read b (tcpOff b + 13) 1 = [rteTcpAckFlag]
  window : read b (tcpOff b + 14) 2 = toBe16 windowVal
  next : read b (tcpOff b + 8) 4 = toBe32 (UInt32.ofNat (ofBe (read b (tcpOff b + 4) 4)) + 1)

structure Answer (windowVal : UInt16) (b : Buffer) : Prop where
  whole : Whole b
  verifies : Verifies b
  acknowledges : Acknowledges windowVal b

/-! ## Sums -/

theorem rawCksum_append {xs : List UInt8} (ys : List UInt8) (h : xs.length % 2 = 0) :
    rawCksum (xs ++ ys) = rawCksum xs + rawCksum ys := by
  induction xs using rawCksum.induct with
  | case1 => simp [rawCksum]
  | case2 x => simp at h
  | case3 x y bytes ih =>
    simp only [List.cons_append, rawCksum, ih (by simp at h; omega)]
    omega

theorem rawCksum_le (xs : List UInt8) : rawCksum xs ≤ 65535 * ((xs.length + 1) / 2) := by
  induction xs using rawCksum.induct with
  | case1 => simp [rawCksum]
  | case2 x =>
    have hx := x.toNat_lt
    simp only [rawCksum, List.length_singleton]
    omega
  | case3 x y bytes ih =>
    have hx := x.toNat_lt
    have hy := y.toNat_lt
    simp only [rawCksum, List.length_cons]
    omega

theorem rawCksum_toBe16 (c : UInt16) : rawCksum (toBe16 c) = c.toNat := by
  have hc := c.toNat_lt
  simp [toBe16, rawCksum, UInt16.toNat_shiftRight, Nat.shiftRight_eq_div_pow]
  omega

/-- A word of zeros filled in adds its value. -/
theorem rawCksum_fill {b : Buffer} {off n k : Nat} {c : UInt16} (hn : 2 * k + 2 ≤ n)
    (hzero : read b (off + 2 * k) 2 = [0, 0]) :
    rawCksum (read (write b (off + 2 * k) (toBe16 c)) off n) = rawCksum (read b off n) + c.toNat := by
  obtain ⟨m, rfl⟩ := Nat.exists_eq_add_of_le hn
  have hself : read (write b (off + 2 * k) (toBe16 c)) (off + 2 * k) 2 = toBe16 c := read_write_self
  have heven : (read b off (2 * k)).length % 2 = 0 := by simp
  rw [read_add, read_add, read_add b, read_add b, hself, hzero,
    read_write_disjoint (by simp), read_write_disjoint (by simp [toBe16]; omega)]
  simp only [List.append_assoc]
  rw [rawCksum_append _ heven, rawCksum_append _ heven, rawCksum_append _ (by simp [toBe16]),
    rawCksum_append _ (by simp), rawCksum_toBe16]
  simp [rawCksum]
  omega

/-- A sum with its own checksum. -/
theorem reduceCksum_verifies {n : Nat} (h : n + 65535 < 2 ^ 32) :
    fold (fold (n + (reduceCksum n).toNat)) = 0xffff := by
  have hle := fold_fold_le (show n < 2 ^ 32 by omega)
  have hreduce : (reduceCksum n).toNat = 65535 - fold (fold n) := by
    have heq : reduceCksum n = ~~~ (UInt16.ofNat (fold (fold n))) := rfl
    rw [heq, UInt16.toNat_not, UInt16.toNat_ofNat', Nat.mod_eq_of_lt (by omega)]
    rfl
  rw [hreduce]
  exact fold_fold_complement h

/-! ## The update -/

section Update

variable {b b' : Buffer} {tcp off : Nat} {windowVal : UInt16}

/-- The lengths that decide where the headers and the segment end. -/
structure Sized (words bytes : Nat) (b : Buffer) : Prop where
  ihl : ihl b = words
  total : totalLength b = bytes

theorem Sized.write {words bytes : Nat} (h : Sized words bytes b) (field : List UInt8)
    (hoff : 18 ≤ off) : Sized words bytes (write b off field) where
  ihl := by rw [Tap.ihl, write_outside (.inl (by omega)), ← Tap.ihl, h.ihl]
  total := by rw [totalLength, read_write_disjoint (.inl hoff), ← totalLength, h.total]

theorem Sized.tcpOff {words bytes : Nat} (h : Sized words bytes b) : tcpOff b = 14 + words * 4 := by
  rw [Tap.tcpOff, h.ihl]

theorem totalLength_lt (b : Buffer) : totalLength b < 65536 := by
  have hx := (b 16).toNat_lt
  have hy := (b 17).toNat_lt
  simp only [totalLength, ofBe, Bytes.read, List.range_succ, List.range_zero]
  simp
  omega

theorem ihl_lt (b : Buffer) : ihl b < 16 := by
  have hle : ihl b ≤ 15 := by
    rw [ihl, UInt8.toNat_and]
    exact Nat.and_le_right
  omega

/-- The checksum of the IPv4 header, filled in. -/
theorem fillIp_verifies (hihl : 5 ≤ ihl b) (hzero : read b 24 2 = [0, 0]) :
    fold (fold (rawCksum (read (write b 24 (toBe16 (rteCksum.ip b))) 14 (ihl b * 4)))) = 0xffff := by
  have hle := rawCksum_le (read b 14 (ihl b * 4))
  have hlt := ihl_lt b
  rw [length_read] at hle
  rw [show 24 = 14 + 2 * 5 from rfl] at hzero ⊢
  rw [rawCksum_fill (by omega) hzero]
  exact reduceCksum_verifies (by omega)

/-- The checksum of the segment, filled in. -/
theorem fillTcp_verifies (hihl : 5 ≤ ihl b) (htcp : tcp = tcpOff b)
    (hlen : ihl b * 4 + 20 ≤ totalLength b) (hzero : read b (tcp + 16) 2 = [0, 0]) :
    let c := write b (tcp + 16) (toBe16 (rteCksum.tcp b tcp))
    fold (fold (rawCksum (read c tcp (totalLength b - ihl b * 4)) + rawCksum (read c 26 8)
      + ipprotoTcp.toNat + (totalLength b - ihl b * 4))) = 0xffff := by
  intro c
  have hlt := totalLength_lt b
  have hoff : 34 ≤ tcp := by
    rw [htcp, tcpOff]
    omega
  have hsum : rteCksum.tcp b tcp = reduceCksum (rawCksum (read b tcp (totalLength b - ihl b * 4))
      + rawCksum (read b 26 8) + ipprotoTcp.toNat + (totalLength b - ihl b * 4)) := by
    have hnot : ¬ ofBe (read b 16 2) < ihl b * 4 := by
      rw [totalLength] at hlen
      omega
    simp only [rteCksum, if_neg hnot, totalLength]
  have hsegment : rawCksum (read c tcp (totalLength b - ihl b * 4)) =
      rawCksum (read b tcp (totalLength b - ihl b * 4)) + (rteCksum.tcp b tcp).toNat :=
    rawCksum_fill (k := 8) (by omega) hzero
  have hpseudo : read c 26 8 = read b 26 8 := read_write_disjoint (.inl (by omega))
  have hle := rawCksum_le (read b tcp (totalLength b - ihl b * 4))
  have hle' := rawCksum_le (read b 26 8)
  have hproto : ipprotoTcp.toNat = 6 := rfl
  rw [length_read] at hle hle'
  have hverifies := reduceCksum_verifies (n := rawCksum (read b tcp (totalLength b - ihl b * 4))
      + rawCksum (read b 26 8) + ipprotoTcp.toNat + (totalLength b - ihl b * 4)) (by omega)
  rw [← hsum] at hverifies
  rw [hsegment, hpseudo, ← hverifies]
  congr 2
  omega

theorem fillAck_verifies (htcp : tcp = tcpOff b) (hihl : 5 ≤ ihl b)
    (hlen : ihl b * 4 + 20 ≤ totalLength b) : Verifies (fillAck rteCksum windowVal tcp b) := by
  have hsized : Sized (ihl b) (totalLength b) b := ⟨rfl, rfl⟩
  rw [hsized.tcpOff] at htcp
  simp only [fillAck]
  generalize hfields : write (write (write b (tcp + 8) _) (tcp + 13) _) (tcp + 14) _ = b₁
  have hsized₁ : Sized (ihl b) (totalLength b) b₁ := by
    rw [← hfields]
    exact ((hsized.write _ (by omega)).write _ (by omega)).write _ (by omega)
  generalize hblank : write b₁ 24 [0, 0] = b₂
  have hsized₂ : Sized (ihl b) (totalLength b) b₂ := by
    rw [← hblank]
    exact hsized₁.write _ (by omega)
  have hzero₂ : read b₂ 24 2 = [0, 0] := by
    rw [← hblank]
    exact read_write_self
  generalize hip : write b₂ 24 (toBe16 (rteCksum.ip b₂)) = b₃
  generalize hblank' : write b₃ (tcp + 16) [0, 0] = b₄
  have hsized₄ : Sized (ihl b) (totalLength b) b₄ := by
    rw [← hblank', ← hip]
    exact (hsized₂.write _ (by omega)).write _ (by omega)
  have hzero₄ : read b₄ (tcp + 16) 2 = [0, 0] := by
    rw [← hblank']
    exact read_write_self
  have hsized₅ := hsized₄.write (toBe16 (rteCksum.tcp b₄ tcp)) (show 18 ≤ tcp + 16 by omega)
  constructor
  · -- the segment begins behind the header
    rw [hsized₅.ihl, read_write_disjoint (.inl (by omega)), ← hblank',
      read_write_disjoint (.inl (by omega)), ← hip, ← hsized₂.ihl]
    exact fillIp_verifies (by rw [hsized₂.ihl]; exact hihl) hzero₂
  · rw [hsized₅.tcpOff, hsized₅.ihl, hsized₅.total, ← htcp]
    have hverifies := fillTcp_verifies (b := b₄) (by rw [hsized₄.ihl]; exact hihl)
      (by rw [hsized₄.tcpOff, htcp]) (by rw [hsized₄.ihl, hsized₄.total]; exact hlen) hzero₄
    rw [hsized₄.ihl, hsized₄.total] at hverifies
    exact hverifies

/-- The fields between the two checksums are not touched when these are filled in. -/
theorem holds_sums {field : List UInt8} {ip seg : UInt16} (h : Holds b off field) (hoff : 26 ≤ off)
    (hend : off + field.length ≤ tcp + 16) :
    Holds (write (write (write (write b 24 [0, 0]) 24 (toBe16 ip)) (tcp + 16) [0, 0])
      (tcp + 16) (toBe16 seg)) off field := by
  have hblank : Holds (write b 24 [0, 0]) off field := h.write (.inr (by simpa using hoff))
  have hip : Holds (write (write b 24 [0, 0]) 24 (toBe16 ip)) off field :=
    hblank.write (.inr (by simpa [toBe16] using hoff))
  exact (hip.write (.inl hend)).write (.inl hend)

/-- What the writes leave in the fields of the acknowledgment. -/
theorem fillAck_fields (ck : Cksum) (windowVal : UInt16) (b : Buffer) (htcp : 34 ≤ tcp) :
    Holds (fillAck ck windowVal tcp b) (tcp + 13) [rteTcpAckFlag] ∧
    Holds (fillAck ck windowVal tcp b) (tcp + 14) (toBe16 windowVal) ∧
    Holds (fillAck ck windowVal tcp b) (tcp + 8)
      (toBe32 (UInt32.ofNat (ofBe (read b (tcp + 4) 4)) + 1)) := by
  refine ⟨holds_sums ?_ (by omega) (by simp), holds_sums holds_write (by omega) (by simp [toBe16]),
    holds_sums ?_ (by omega) (by simp [toBe32])⟩
  · exact holds_write.write (.inl (by simp))
  · exact (holds_write.write (.inl (by simp [toBe32]))).write (.inl (by simp [toBe32]))

theorem sized_swapEnds (hoff : 34 ≤ tcpOff b) : Sized (ihl b) (totalLength b) (swapEnds b) where
  ihl := by
    have hbyte : [swapEnds b 14] = [b 14] := by
      rw [← read_one, ← read_one, read_swapEnds hoff (by decide) (by decide)]
    rw [ihl, ihl, List.head_eq_of_cons_eq hbyte]
  total := by rw [totalLength, totalLength, read_swapEnds hoff (by decide) (by decide)]

/-- The swaps leave the sequence number alone. -/
theorem read_seq_swapEnds (hoff : 34 ≤ tcpOff b) :
    read (swapEnds b) (tcpOff b + 4) 4 = read b (tcpOff b + 4) 4 := by
  rw [swapEnds, read_swap_disjoint (by omega) (by omega), read_swap_disjoint (by omega) (by omega),
    read_swap_disjoint (by omega) (by omega)]

/-- An update of a whole packet is a whole packet that the receiver accepts, with the sequence
number of the packet it was made from. -/
theorem windowUpdate_answer (hb : Whole b) (h : windowUpdate rteCksum windowVal b = some b') :
    Answer windowVal b' ∧ read b' (tcpOff b' + 4) 4 = read b (tcpOff b + 4) 4 := by
  obtain ⟨hihl, hlen⟩ := hb
  have hihl' := (windowUpdate_endpoints hihl h).1
  obtain ⟨-, rfl⟩ := windowUpdate_some.mp h
  have hoff : 34 ≤ tcpOff b := by
    rw [tcpOff]
    omega
  have hswapped := sized_swapEnds hoff
  have hoff' : tcpOff (fillAck rteCksum windowVal (tcpOff b) (swapEnds b)) = tcpOff b := by
    rw [tcpOff, hihl', tcpOff]
  have hlen' : totalLength (fillAck rteCksum windowVal (tcpOff b) (swapEnds b)) = totalLength b := by
    rw [totalLength, read_fillAck hoff (.inl (by decide)), ← totalLength, hswapped.total]
  have hseq : read (fillAck rteCksum windowVal (tcpOff b) (swapEnds b)) (tcpOff b + 4) 4 =
      read (swapEnds b) (tcpOff b + 4) 4 := read_fillAck hoff (by omega)
  obtain ⟨hflags, hwindow, hnext⟩ := fillAck_fields rteCksum windowVal (swapEnds b) hoff
  refine ⟨⟨⟨by omega, by omega⟩, ?_, ?_⟩, by rw [hoff', hseq, read_seq_swapEnds hoff]⟩
  · apply fillAck_verifies
    · rw [hswapped.tcpOff, tcpOff]
    · rw [hswapped.ihl]
      exact hihl
    · rw [hswapped.ihl, hswapped.total]
      exact hlen
  · rw [← hseq] at hnext
    constructor
    · rw [hoff']
      exact hflags
    · rw [hoff']
      exact hwindow
    · rw [hoff']
      exact hnext

end Update

/-! ## Runs -/

/-- The TCP packets that are received have whole headers. -/
def Act.Whole : Act → Prop
  | .rx frames => ∀ f ∈ frames, isTcp f = true → Tap.Whole f
  | _ => True

/-- A pair of answers: the window is closed and opened again at the same byte. -/
structure Pause (p : Buffer × Buffer) : Prop where
  closes : Answer 0 p.1
  restores : Answer 16384 p.2
  same : read p.2 (tcpOff p.2 + 8) 4 = read p.1 (tcpOff p.1 + 8) 4

structure Sound (s : State) : Prop where
  mem : ∀ k, isTcp (s.mem k) = true → Whole (s.mem k)
  zeroAck : ∀ z, s.zeroAck = some z → Answer 0 z
  acks : ∀ p ∈ s.acks, Pause p

section Runs

variable {s s' : State} {a : Act}

theorem start_sound (startTime : Int) : Sound (.start startTime) where
  mem := by
    intro k h
    cases h
  zeroAck := nofun
  acks := nofun

/-- What `send` leaves in the buffers. -/
theorem whole_send (h : ∀ k, isTcp (s.mem k) = true → Whole (s.mem k)) (m : Mbuf)
    (windowVal : UInt16) (accepted : Bool) (k : Nat)
    (hk : isTcp ((s.send rteCksum m windowVal accepted).mem k) = true) :
    Whole ((s.send rteCksum m windowVal accepted).mem k) := by
  rw [send_mem] at hk ⊢
  by_cases hbuf : k = m.buf
  · subst hbuf
    rw [Function.update_self] at hk ⊢
    cases hupdate : windowUpdate rteCksum windowVal (s.mem m.buf) with
    | none =>
      rw [hupdate] at hk
      exact h m.buf hk
    | some b =>
      exact (windowUpdate_answer (h m.buf (windowUpdate_some.mp hupdate).1) hupdate).1.whole
  · rw [Function.update_of_ne hbuf] at hk ⊢
    exact h k hk

/-- The pause at its end. -/
theorem pause_of_restore {z r : Buffer} (hz : Answer 0 z)
    (h : windowUpdate rteCksum 16384 z = some r) : Pause (z, r) := by
  obtain ⟨hr, hseq⟩ := windowUpdate_answer hz.whole h
  refine ⟨hz, hr, ?_⟩
  rw [hr.acknowledges.next, hz.acknowledges.next, hseq]

theorem send_zeroAck (ck : Cksum) (m : Mbuf) (windowVal : UInt16) (accepted : Bool) :
    (s.send ck m windowVal accepted).zeroAck = s.zeroAck := by
  rw [State.send]
  split <;> rfl

theorem Sound.rx (hs : Sound s) {frames : List Buffer}
    (hframes : ∀ f ∈ frames, isTcp f = true → Whole f) (k : Nat)
    (hk : isTcp (if s.next ≤ k then frames[k - s.next]?.getD (s.mem k) else s.mem k) = true) :
    Whole (if s.next ≤ k then frames[k - s.next]?.getD (s.mem k) else s.mem k) := by
  by_cases hnew : s.next ≤ k
  · rw [if_pos hnew] at hk ⊢
    cases hframe : frames[k - s.next]? with
    | none =>
      rw [hframe] at hk
      exact hs.mem k hk
    | some f =>
      rw [hframe] at hk
      exact hframes f (List.mem_of_getElem? hframe) hk
  · rw [if_neg hnew] at hk ⊢
    exact hs.mem k hk

theorem Sound.sendZero (hs : Sound s) {m : Mbuf} {rest : List Mbuf} {accepted : Bool} :
    Sound { s.send rteCksum m 0 accepted with
      pc := .clone m rest
      zeroAck := windowUpdate rteCksum 0 (s.mem m.buf) } where
  mem := whole_send hs.mem m 0 accepted
  zeroAck := by
    intro z hz
    exact (windowUpdate_answer (hs.mem m.buf (windowUpdate_some.mp hz).1) hz).1
  acks := by
    rw [send_acks]
    exact hs.acks

/-- The buffer of the clone holds the packet that closed the window. -/
theorem Sound.sendRestore (hs : Sound s) {m : Mbuf} {accepted : Bool} (hcaptured : s.Captured m) :
    Sound { s.send rteCksum m 16384 accepted with
      pc := .freeSaved
      acks := s.acks ++ ((s.zeroAck.bind (fun z =>
        (windowUpdate rteCksum 16384 (s.mem m.buf)).map (fun r => (z, r)))).toList) } where
  mem := whole_send hs.mem m 16384 accepted
  zeroAck := by
    rw [send_zeroAck]
    exact hs.zeroAck
  acks := by
    intro p hp
    rcases List.mem_append.mp hp with hp | hp
    · exact hs.acks p hp
    · obtain ⟨z, hz, hp⟩ := Option.bind_eq_some_iff.mp (Option.mem_toList.mp hp)
      obtain ⟨r, hr, rfl⟩ := Option.map_eq_some_iff.mp hp
      simp only [State.Captured, hz] at hcaptured
      rw [hcaptured] at hr
      exact pause_of_restore (hs.zeroAck z hz) hr

theorem sound_step (hshares : Shares s) (hs : Sound s) (ha : a.Whole)
    (h : step rteCksum s a = some s') : Sound s' := by
  cases move_of_step h with
  | rx hpc hlen => exact ⟨hs.rx ha, hs.zeroAck, hs.acks⟩
  | sendZero hpc => exact hs.sendZero
  | sendRestore hpc hsaved =>
    have hthrottled := hshares.restoring (.inr hpc)
    exact hs.sendRestore (hshares.saved hthrottled (by simp [hpc]) _ hsaved).2
  | _ => exact ⟨hs.mem, hs.zeroAck, hs.acks⟩

end Runs

end VirtioBench.Tap
