import VirtioBench.Lib.Iterate

/- The address counter of the load modules (code_dump/dpdk/lm/startvm.cpp:
   `incr_ip_mac_addr` and `pregenerate_mac_addresses`).

   `incr_ip_mac_addr` adds one to the byte at `*i`. When that byte is full it goes to 0
   and the byte at `*p` takes the carry; when that one is full too it goes to 0 and
   `*p` moves down to the byte before it, for this call and for all later ones. From
   then on a carry out of the last byte passes over the bytes between.

   Correspondence (C++ ↔ Lean):
     `pAddr`, `*i`, `*p`           ↔ `Counter`
     `incr_ip_mac_addr`            ↔ `incrIpMacAddr`, `none` for an access outside the array
     `mac_addr`, `MAX_U8_VAL`      ↔ `MacAddr`, `maxU8Val`
     `pregenerate_mac_addresses`   ↔ `pregenerateMacAddresses`, `sprintfMac` for its `sprintf`

   The calls on a six-byte address go through three phases: `Counting` until the last
   two bytes are full, `Skipping` once the carry goes to the fourth byte, `Lost` once it
   goes to one of the first three. `incr_counts_iff` — the last three bytes are the
   number counted up to, with the first three as they were, exactly until the first carry
   that should reach the fifth byte after the two were full. The pool is generated before
   that, so its addresses are pairwise different (`pool_nodup`). -/
namespace VirtioBench.Lm

open Iterate

/-- `uint8_t mac_addr[MAC_ADDR_BYTES]`. -/
abbrev MacAddr : Type := Vector UInt8 6

def maxU8Val : UInt32 := 0xFF

structure Counter (n : Nat) where
  addr : Vector UInt8 n
  i : UInt32
  p : UInt32
  deriving DecidableEq, Repr

def incrIpMacAddr {n : Nat} (maxVal : UInt32) (s : Counter n) : Option (Counter n) := do
  let last ← s.addr[s.i.toNat]?
  if last.toUInt32 = maxVal then
    let parent ← s.addr[s.p.toNat]?
    -- a full parent byte is cleared, and the one before it is the parent from now on
    let addr := if parent.toUInt32 = maxVal then s.addr.setIfInBounds s.p.toNat 0 else s.addr
    let p := if parent.toUInt32 = maxVal then s.p - 1 else s.p
    let carried ← addr[p.toNat]?
    return { s with
      addr := (addr.setIfInBounds p.toNat (carried + 1)).setIfInBounds s.i.toNat 0
      p := p }
  else
    return { s with addr := s.addr.setIfInBounds s.i.toNat (last + 1) }

/-- The state `pregenerate_mac_addresses` starts from. -/
def Counter.start (addr : MacAddr) : Counter 6 :=
  ⟨addr, 5, 4⟩

/-- The last three bytes, big-endian. -/
def low (addr : MacAddr) : Nat :=
  (addr[3].toNat * 256 + addr[4].toNat) * 256 + addr[5].toNat

/-- The last two. -/
def lowest (addr : MacAddr) : Nat := addr[4].toNat * 256 + addr[5].toNat

/-- The first three bytes are the same. -/
def SameFirst (addr addr' : MacAddr) : Prop :=
  addr[0] = addr'[0] ∧ addr[1] = addr'[1] ∧ addr[2] = addr'[2]

/-- The counter has counted from `addr` to `n` above it. -/
structure Counted (addr : MacAddr) (n : Nat) (s : Counter 6) :
    Prop where
  first : SameFirst s.addr addr
  last : low s.addr = low addr + n

section Calls

variable {s t : Counter 6} {k : Nat}

theorem toUInt32_eq_max {b : UInt8} : b.toUInt32 = maxU8Val ↔ b = 255 := by
  rw [maxU8Val, ← UInt32.toNat_inj, ← UInt8.toNat_inj]
  simp

theorem incr_last (hi : s.i = 5) (h : s.addr[5] ≠ 255) :
    incrIpMacAddr maxU8Val s =
      some { s with addr := s.addr.setIfInBounds 5 (s.addr[5] + 1) } := by
  simp [incrIpMacAddr, hi, toUInt32_eq_max, h]

theorem incr_carry (hi : s.i = 5) (h : s.addr[5] = 255) (hk : k < 6)
    (hp : s.p.toNat = k) (hparent : s.addr[k] ≠ 255) :
    incrIpMacAddr maxU8Val s = some { s with
      addr := (s.addr.setIfInBounds k (s.addr[k] + 1)).setIfInBounds 5 0 } := by
  simp [incrIpMacAddr, hi, toUInt32_eq_max, h, hp, hk, hparent]

theorem toNat_pred {p : UInt32} (hp : p.toNat = k + 1) : (p - 1).toNat = k := by
  have hle : (1 : UInt32) ≤ p := by
    rw [UInt32.le_iff_toNat_le, hp]
    simp
  rw [UInt32.toNat_sub_of_le _ _ hle, hp]
  rfl

/-- Both bytes full: the byte before the parent is the parent from now on. -/
theorem incr_carry_parent (hi : s.i = 5) (h : s.addr[5] = 255) (hk : k + 1 < 6)
    (hp : s.p.toNat = k + 1) (hparent : s.addr[k + 1] = 255) :
    incrIpMacAddr maxU8Val s = some { s with
      addr := ((s.addr.setIfInBounds (k + 1) 0).setIfInBounds k (s.addr[k] + 1)).setIfInBounds 5 0
      p := s.p - 1 } := by
  have hk' : k < 6 := by omega
  simp [incrIpMacAddr, hi, toUInt32_eq_max, h, hp, hk, hparent, toNat_pred hp, hk']

/-- There is no byte before the first. -/
theorem incr_carry_first (hi : s.i = 5) (h : s.addr[5] = 255) (hp : s.p = 0)
    (hparent : s.addr[0] = 255) : incrIpMacAddr maxU8Val s = none := by
  simp [incrIpMacAddr, hi, toUInt32_eq_max, h, hp, hparent]

end Calls

/-- The carry goes to the fifth byte. -/
structure Counting (addr : MacAddr) (n : Nat) (s : Counter 6) :
    Prop where
  i : s.i = 5
  p : s.p = 4
  first : SameFirst s.addr addr
  fourth : s.addr[3] = addr[3]
  last : lowest s.addr = lowest addr + n

/-- It goes to the fourth, which is one ahead for every 256 calls. -/
structure Skipping (addr : MacAddr) (n : Nat) (s : Counter 6) :
    Prop where
  i : s.i = 5
  p : s.p = 3
  first : SameFirst s.addr addr
  fifth : s.addr[4] = 0
  last : s.addr[3].toNat * 256 + s.addr[5].toNat =
    (addr[3].toNat + 1) * 256 + (lowest addr + n - 65536)
  full : 65536 ≤ lowest addr + n

/-- It goes to one of the first three, and the fourth is 0 for good. -/
structure Lost (addr : MacAddr) (n : Nat) (s : Counter 6) :
    Prop where
  i : s.i = 5
  p : s.p.toNat < 3
  fourth : s.addr[3] = 0
  full : 65536 + 256 ≤ lowest addr + n

section Phases

variable {addr : MacAddr} {n : Nat} {s t : Counter 6}

theorem SameFirst.set {v : MacAddr} (h : SameFirst v addr) {k : Nat}
    (hk : 3 ≤ k) (x : UInt8) : SameFirst (v.setIfInBounds k x) addr := by
  have h0 : k ≠ 0 := by omega
  have h1 : k ≠ 1 := by omega
  have h2 : k ≠ 2 := by omega
  simpa [SameFirst, Vector.getElem_setIfInBounds, h0, h1, h2] using h

theorem toNat_succ_byte {b : UInt8} (h : b ≠ 255) : (b + 1).toNat = b.toNat + 1 := by
  have hb : b.toNat < 256 := b.toNat_lt
  have hne : b.toNat ≠ 255 := fun hb => h (UInt8.toNat_inj.mp hb)
  rw [UInt8.toNat_add]
  exact Nat.mod_eq_of_lt (by simp; omega)

theorem counting_start (addr : MacAddr) : Counting addr 0 (.start addr) where
  i := rfl
  p := rfl
  first := ⟨rfl, rfl, rfl⟩
  fourth := rfl
  last := (Nat.add_zero _).symm

theorem toNat_of_full {b : UInt8} (h : b = 255) : b.toNat = 255 := by
  rw [h]
  rfl

theorem Counting.step (h : Counting addr n s) (hn : low addr + n + 1 < 2 ^ 24) :
    ∃ t, incrIpMacAddr maxU8Val s = some t ∧
      (Counting addr (n + 1) t ∨ Skipping addr (n + 1) t) := by
  have hlast := h.last
  have hfourth : s.addr[3].toNat = addr[3].toNat := congrArg UInt8.toNat h.fourth
  simp only [low, lowest] at hn hlast
  by_cases h5 : s.addr[5] = 255
  · have h5' := toNat_of_full h5
    by_cases h4 : s.addr[4] = 255
    · -- the first time both are full
      have h4' := toNat_of_full h4
      have h3 : s.addr[3] ≠ 255 := by
        intro h3
        have h3' := toNat_of_full h3
        omega
      refine ⟨_, incr_carry_parent h.i h5 (k := 3) (by decide) (by simp [h.p]) h4, .inr ?_⟩
      refine ⟨h.i, by simp [h.p], ?_, by simp, ?_, ?_⟩
      · exact ((h.first.set (by decide) _).set (by decide) _).set (by decide) _
      · simp [toNat_succ_byte h3, lowest]
        omega
      · simp only [lowest]
        omega
    · refine ⟨_, incr_carry h.i h5 (k := 4) (by decide) (by simp [h.p]) h4, .inl ?_⟩
      refine ⟨h.i, h.p, (h.first.set (by decide) _).set (by decide) _, by simp [h.fourth], ?_⟩
      simp [lowest, toNat_succ_byte h4]
      omega
  · refine ⟨_, incr_last h.i h5, .inl ?_⟩
    refine ⟨h.i, h.p, h.first.set (by decide) _, by simp [h.fourth], ?_⟩
    simp [lowest, toNat_succ_byte h5]
    omega

theorem Skipping.step (h : Skipping addr n s) :
    ∃ t, incrIpMacAddr maxU8Val s = some t ∧
      (Skipping addr (n + 1) t ∨ Lost addr (n + 1) t) := by
  have hlast := h.last
  have hfull := h.full
  simp only [lowest] at hlast hfull
  by_cases h5 : s.addr[5] = 255
  · have h5' := toNat_of_full h5
    by_cases h3 : s.addr[3] = 255
    · have h3' := toNat_of_full h3
      refine ⟨_, incr_carry_parent h.i h5 (k := 2) (by decide) (by simp [h.p]) h3, .inr ?_⟩
      refine ⟨h.i, by simp [h.p], by simp, ?_⟩
      simp only [lowest]
      omega
    · refine ⟨_, incr_carry h.i h5 (k := 3) (by decide) (by simp [h.p]) h3, .inl ?_⟩
      refine ⟨h.i, h.p, (h.first.set (by decide) _).set (by decide) _, by simp [h.fifth], ?_, ?_⟩
      · simp [lowest, toNat_succ_byte h3]
        omega
      · simp only [lowest]
        omega
  · refine ⟨_, incr_last h.i h5, .inl ?_⟩
    refine ⟨h.i, h.p, h.first.set (by decide) _, by simp [h.fifth], ?_, ?_⟩
    · simp [lowest, toNat_succ_byte h5]
      omega
    · simp only [lowest]
      omega

theorem Lost.step (h : Lost addr n s) (ht : incrIpMacAddr maxU8Val s = some t) :
    Lost addr (n + 1) t := by
  have hfull : 65536 + 256 ≤ lowest addr + (n + 1) := Nat.le_succ_of_le h.full
  by_cases h5 : s.addr[5] = 255
  · obtain ⟨k, hk⟩ : ∃ k, s.p.toNat = k := ⟨_, rfl⟩
    have hk3 : k < 3 := hk ▸ h.p
    by_cases hparent : s.addr[k] = 255
    · cases k with
      | zero =>
        have hp : s.p = 0 := UInt32.toNat_inj.mp hk
        rw [incr_carry_first h.i h5 hp hparent] at ht
        cases ht
      | succ k =>
        rw [incr_carry_parent h.i h5 (by omega) hk hparent] at ht
        cases ht
        refine ⟨h.i, ?_, ?_, hfull⟩
        · simp only [toNat_pred hk]
          omega
        · have hne : k ≠ 3 := by omega
          have hne' : k + 1 ≠ 3 := by omega
          simp [hne, hne', h.fourth]
    · rw [incr_carry h.i h5 (by omega) hk hparent] at ht
      cases ht
      have hne : k ≠ 3 := by omega
      exact ⟨h.i, h.p, by simp [hne, h.fourth], hfull⟩
  · rw [incr_last h.i h5] at ht
    cases ht
    exact ⟨h.i, h.p, by simp [h.fourth], hfull⟩

end Phases

section Iterations

variable {addr : MacAddr} {n : Nat} {s : Counter 6}

theorem iter_phase (hn : low addr + n < 2 ^ 24)
    (hs : iter (incrIpMacAddr maxU8Val) n (.start addr) = some s) :
    Counting addr n s ∨ Skipping addr n s ∨ Lost addr n s := by
  induction n generalizing s with
  | zero =>
    cases hs
    exact .inl (counting_start addr)
  | succ n ih =>
    rw [iter, Option.bind_eq_some_iff] at hs
    obtain ⟨t, ht, hstep⟩ := hs
    rcases ih (by omega) ht with h | h | h
    · obtain ⟨u, hu, hphase⟩ := h.step (by omega)
      rw [hstep, Option.some_inj] at hu
      subst hu
      exact hphase.imp_right .inl
    · obtain ⟨u, hu, hphase⟩ := h.step
      rw [hstep, Option.some_inj] at hu
      subst hu
      exact .inr hphase
    · exact .inr (.inr (h.step hstep))

/-- Every call before the fourth byte is lost stays inside the address. -/
theorem iter_defined (hn : low addr + n < 2 ^ 24) (hlost : lowest addr + n < 65536 + 256) :
    ∃ s, iter (incrIpMacAddr maxU8Val) n (.start addr) = some s := by
  induction n with
  | zero => exact ⟨_, rfl⟩
  | succ n ih =>
    obtain ⟨t, ht⟩ := ih (by omega) (by omega)
    rw [iter, ht, Option.bind_some]
    rcases iter_phase (by omega) ht with h | h | h
    · obtain ⟨u, hu, -⟩ := h.step (by omega)
      exact ⟨u, hu⟩
    · obtain ⟨u, hu, -⟩ := h.step
      exact ⟨u, hu⟩
    · have hfull := h.full
      omega

theorem low_eq (addr : MacAddr) : low addr = addr[3].toNat * 65536 + lowest addr := by
  simp only [low, lowest]
  omega

theorem lowest_eq_mod (addr : MacAddr) : lowest addr = low addr % 65536 := by
  have h4 : addr[4].toNat < 256 := addr[4].toNat_lt
  have h5 : addr[5].toNat < 256 := addr[5].toNat_lt
  simp only [low, lowest]
  omega

theorem Counting.counted (h : Counting addr n s) : Counted addr n s := by
  refine ⟨h.first, ?_⟩
  rw [low_eq, low_eq, h.fourth, h.last]
  omega

theorem Skipping.counted_iff (h : Skipping addr n s) :
    Counted addr n s ↔ lowest addr + n < 65536 + 256 := by
  have hlast := h.last
  have hfull := h.full
  have h5 : s.addr[5].toNat < 256 := s.addr[5].toNat_lt
  have hlow : low s.addr = s.addr[3].toNat * 65536 + s.addr[5].toNat := by
    simp [low_eq, lowest, h.fifth]
  have hlow' := low_eq addr
  constructor
  · intro hc
    have hn := hc.last
    omega
  · intro hn
    refine ⟨h.first, ?_⟩
    omega

theorem Lost.not_counted (h : Lost addr n s) : ¬ Counted addr n s := by
  intro hc
  have hn := hc.last
  have hfull := h.full
  have h4 : s.addr[4].toNat < 256 := s.addr[4].toNat_lt
  have h5 : s.addr[5].toNat < 256 := s.addr[5].toNat_lt
  have hlow : low s.addr = lowest s.addr := by simp [low_eq, h.fourth]
  have hlow' := low_eq addr
  rw [hlow, lowest] at hn
  omega

/-- `incr_ip_mac_addr` counts as long as there is no carry into the fifth byte after the
last two were full. -/
theorem incr_counts_iff (addr : MacAddr) (n : Nat) (hn : low addr + n < 2 ^ 24) :
    (∃ s, iter (incrIpMacAddr maxU8Val) n (.start addr) = some s ∧ Counted addr n s) ↔
      low addr % 65536 + n < 65536 + 256 := by
  rw [← lowest_eq_mod]
  constructor
  · rintro ⟨s, hs, hc⟩
    rcases iter_phase hn hs with h | h | h
    · have hlast := h.last
      have h4 : s.addr[4].toNat < 256 := s.addr[4].toNat_lt
      have h5 : s.addr[5].toNat < 256 := s.addr[5].toNat_lt
      simp only [lowest] at hlast ⊢
      omega
    · exact h.counted_iff.mp hc
    · exact absurd hc h.not_counted
  · intro hlost
    obtain ⟨s, hs⟩ := iter_defined hn hlost
    refine ⟨s, hs, ?_⟩
    rcases iter_phase hn hs with h | h | h
    · exact h.counted
    · exact h.counted_iff.mpr hlost
    · have hfull := h.full
      omega

/-- From `…:00:ff:ff`, 257 calls give `…:02:00:00`. -/
theorem incr_skips_fifth :
    low #v[0x00, 0x60, 0x2f, 0x00, 0xff, 0xff] + 257 < 2 ^ 24 ∧
      ¬ ∃ s, iter (incrIpMacAddr maxU8Val) 257 (.start #v[0x00, 0x60, 0x2f, 0x00, 0xff, 0xff]) =
        some s ∧ Counted #v[0x00, 0x60, 0x2f, 0x00, 0xff, 0xff] 257 s := by
  refine ⟨by decide, ?_⟩
  have hiter : iter (incrIpMacAddr maxU8Val) 257 (.start #v[0x00, 0x60, 0x2f, 0x00, 0xff, 0xff]) =
      some ⟨#v[0x00, 0x60, 0x2f, 0x02, 0x00, 0x00], 5, 3⟩ := by decide +kernel
  rintro ⟨s, hs, hc⟩
  rw [hiter] at hs
  cases hs
  exact absurd hc.last (by decide)

theorem incr_counts_iff_at :
    (∃ s, iter (incrIpMacAddr maxU8Val) 256 (.start #v[0x00, 0x60, 0x2f, 0x00, 0xff, 0xff]) =
        some s ∧ Counted #v[0x00, 0x60, 0x2f, 0x00, 0xff, 0xff] 256 s) ∧
      low #v[0x00, 0x60, 0x2f, 0x00, 0xff, 0xff] + 256 < 2 ^ 24 :=
  ⟨(incr_counts_iff _ 256 (by decide)).mpr (by decide), by decide⟩

end Iterations

/-- The conversion `%02x`. -/
def hex2 (b : UInt8) : List Char := [Nat.digitChar (b.toNat / 16), Nat.digitChar (b.toNat % 16)]

/-- An address as `sprintf` writes it to `mac`, with the quotation marks. -/
def sprintfMac (addr : MacAddr) : String :=
  String.ofList ('"' :: (List.intercalate [':'] (addr.toList.map hex2) ++ ['"']))

def pregenerate : Nat → Counter 6 → Option (List String)
  | 0, _ => some []
  | n + 1, s => do
    let s ← incrIpMacAddr maxU8Val s
    let macaddr ← pregenerate n s
    return sprintfMac s.addr :: macaddr

def initMacAddr : MacAddr := #v[0x00, 0x60, 0x2f, 0x00, 0x00, 0x00]

/-- The size of the pool. -/
def poolSize : Nat := 1024

def pregenerateMacAddresses : Option (List String) := pregenerate poolSize (.start initMacAddr)

section Pool

theorem digitChar_inj {x y : Nat} (hx : x < 16) (hy : y < 16)
    (h : Nat.digitChar x = Nat.digitChar y) : x = y := by
  have hall : ∀ x < 16, ∀ y < 16, Nat.digitChar x = Nat.digitChar y → x = y := by decide
  exact hall x hx y hy h

theorem byte_of_digits {a b : UInt8}
    (hhigh : Nat.digitChar (a.toNat / 16) = Nat.digitChar (b.toNat / 16))
    (hlow : Nat.digitChar (a.toNat % 16) = Nat.digitChar (b.toNat % 16)) : a = b := by
  have ha : a.toNat < 256 := a.toNat_lt
  have hb : b.toNat < 256 := b.toNat_lt
  have hdiv := digitChar_inj (by omega) (by omega) hhigh
  have hmod := digitChar_inj (by omega) (by omega) hlow
  apply UInt8.toNat_inj.mp
  omega

theorem toList_bytes (addr : MacAddr) :
    addr.toList = [addr[0], addr[1], addr[2], addr[3], addr[4], addr[5]] := by
  apply List.ext_getElem
  · simp
  · intro j hj hj'
    rw [Vector.length_toList] at hj
    obtain rfl | rfl | rfl | rfl | rfl | rfl : j = 0 ∨ j = 1 ∨ j = 2 ∨ j = 3 ∨ j = 4 ∨ j = 5 := by
      omega
    all_goals rfl

/-- The text shows every byte. -/
theorem sprintfMac_inj {addr addr' : MacAddr} (h : sprintfMac addr = sprintfMac addr') :
    addr = addr' := by
  have hchars := congrArg String.toList h
  simp only [sprintfMac, String.toList_ofList, toList_bytes] at hchars
  simp [List.intercalate, List.intersperse, hex2] at hchars
  obtain ⟨h0, h0', h1, h1', h2, h2', h3, h3', h4, h4', h5, h5'⟩ := hchars
  apply Vector.toList_inj.mp
  rw [toList_bytes, toList_bytes, byte_of_digits h0 h0', byte_of_digits h1 h1',
    byte_of_digits h2 h2', byte_of_digits h3 h3', byte_of_digits h4 h4', byte_of_digits h5 h5']

theorem Counting.next {addr : MacAddr} {k : Nat} {s : Counter 6} (h : Counting addr k s)
    (hk : lowest addr + k + 1 < 65536) :
    ∃ t, incrIpMacAddr maxU8Val s = some t ∧ Counting addr (k + 1) t := by
  have h3 : addr[3].toNat < 256 := addr[3].toNat_lt
  have hlow : low addr + k + 1 < 2 ^ 24 := by
    rw [low_eq]
    omega
  obtain ⟨t, ht, hphase⟩ := h.step hlow
  refine ⟨t, ht, hphase.resolve_right ?_⟩
  intro hskip
  have hfull := hskip.full
  omega

/-- As long as the last two bytes are not full, every address is a new one. -/
theorem pregenerate_nodup {addr : MacAddr} {k : Nat} {s : Counter 6} (h : Counting addr k s)
    {n : Nat} (hn : lowest addr + k + n < 65536) :
    ∃ macaddr, pregenerate n s = some macaddr ∧ macaddr.length = n ∧ macaddr.Nodup ∧
      ∀ mac ∈ macaddr, ∃ a, sprintfMac a = mac ∧ lowest addr + k < lowest a := by
  induction n generalizing k s with
  | zero => exact ⟨[], rfl, rfl, List.nodup_nil, fun mac hmac => absurd hmac List.not_mem_nil⟩
  | succ n ih =>
    obtain ⟨t, ht, hcount⟩ := h.next (by omega)
    obtain ⟨macaddr, hrest, hlen, hnodup, hlater⟩ := ih hcount (by omega)
    have hlast := hcount.last
    refine ⟨sprintfMac t.addr :: macaddr, ?_, ?_, ?_, ?_⟩
    · rw [pregenerate, ht, Option.bind_eq_bind, Option.bind_some, hrest]
      rfl
    · rw [List.length_cons, hlen]
    · refine List.nodup_cons.mpr ⟨?_, hnodup⟩
      intro hmem
      obtain ⟨a, ha, hlt⟩ := hlater _ hmem
      rw [sprintfMac_inj ha] at hlt
      omega
    · intro mac hmac
      rcases List.mem_cons.mp hmac with rfl | hmac
      · exact ⟨t.addr, rfl, by omega⟩
      · obtain ⟨a, ha, hlt⟩ := hlater mac hmac
        exact ⟨a, ha, by omega⟩

theorem pool_nodup : ∃ macaddr, pregenerateMacAddresses = some macaddr ∧
    macaddr.length = poolSize ∧ macaddr.Nodup := by
  have hn : lowest initMacAddr + 0 + poolSize < 65536 := by decide
  obtain ⟨macaddr, hpool, hlen, hnodup, -⟩ := pregenerate_nodup (counting_start initMacAddr) hn
  exact ⟨macaddr, hpool, hlen, hnodup⟩

end Pool

end VirtioBench.Lm
