import VirtioBench.Vtb.ConfigManager

/- The port map against the history of the calls, newest first.

   1. `queue_states_refine` — the enable flags are a map: for a port initialised with
      `n` pairs and a vring `v < 2n`, the flag is the argument of the last
      `set_queue_state` since the last `init_vhost_device` of the port, or false. The
      scan finds it because the pairs below `n` are numbered `2i`, `2i + 1`
      (`Numbered`); the stale entries above are not scanned.
   2. `sockets_fresh_iff` — the socket entries are not: `init_vhost_device` resets only
      the first `nof_pairs` of them, so an entry is what the last
      `assign_port_socket` made it, or -1, exactly as long as every
      initialisation finds -1 in the entries it leaves alone. `phantom_socket` is a
      first initialisation that leaves descriptor 0 there. -/
namespace VirtioBench.Vtb

/-! ## Histories -/

/-- The `nof_pairs` the port was last initialised with. -/
def lastPairs (p : Int32) : List Call → Option Int32
  | [] => none
  | .initVhostDevice p' _ n :: older => if p' = p then some n else lastPairs p older
  | .setQueueState .. :: older | .assignPortSocket .. :: older
  | .assignControlPath .. :: older => lastPairs p older

/-- The last `enable` for the vring since the port was last initialised. -/
def lastFlag (p : Int32) (v : UInt16) : List Call → Bool
  | [] => false
  | .initVhostDevice p' _ _ :: older => if p' = p then false else lastFlag p v older
  | .setQueueState p' v' e :: older => if p' = p ∧ v' = v then e else lastFlag p v older
  | .assignPortSocket .. :: older | .assignControlPath .. :: older => lastFlag p v older

/-- The last socket assigned to the pair since the port was last initialised. -/
def lastSocket (p : Int32) (i : Fin maxQueuePairs) : List Call → Int32
  | [] => -1
  | .initVhostDevice p' _ _ :: older => if p' = p then -1 else lastSocket p i older
  | .assignPortSocket p' i' fd :: older =>
    if p' = p ∧ i'.toInt = i.val then fd else lastSocket p i older
  | .setQueueState .. :: older | .assignControlPath .. :: older => lastSocket p i older

/-! ## Queue states -/

/-- `rxq_enabled` of the pair for an even vring, `txq_enabled` for an odd one. -/
def VhostDevice.queueEnabled (vd : VhostDevice) (v : Nat) : Bool :=
  if h : v / 2 < maxQueuePairs then
    if v % 2 = 0 then (vd.qp ⟨v / 2, h⟩).rxqEnabled else (vd.qp ⟨v / 2, h⟩).txqEnabled
  else false

/-- The first `n` pairs have the queues `2i` and `2i + 1`. -/
def VhostDevice.Numbered (vd : VhostDevice) (n : Int) : Prop :=
  ∀ j : Fin maxQueuePairs, j.val < n →
    (vd.qp j).rxqId = UInt16.ofNat (j.val * 2) ∧ (vd.qp j).txqId = UInt16.ofNat (j.val * 2 + 1)

section Scan
variable {vd vd' : VhostDevice} {n : Nat} {v : UInt16} {e : Bool}

theorem ofNat_eq_iff {k : Nat} (hk : k < UInt16.size) : UInt16.ofNat k = v ↔ k = v.toNat := by
  rw [← UInt16.toNat_inj, UInt16.toNat_ofNat', Nat.mod_eq_of_lt hk]

/-- The scan sets the flag of `v` and no other, and finds nothing from `2n` on. -/
structure Flagged (vd vd' : VhostDevice) (v : UInt16) (e : Bool) : Prop where
  pairs : vd'.nofQueuePairs = vd.nofQueuePairs
  numbered : ∀ k, vd.Numbered k → vd'.Numbered k
  here : vd'.queueEnabled v.toNat = e
  there : ∀ w, w ≠ v.toNat → vd'.queueEnabled w = vd.queueEnabled w

/-- One pair rewritten with the flag of `v` set and its other fields kept. -/
theorem flagged_update (j : Fin maxQueuePairs) {pair : VhostQueuePair} (hj : v.toNat / 2 = j.val)
    (hrx : pair.rxqId = (vd.qp j).rxqId) (htx : pair.txqId = (vd.qp j).txqId)
    (heven : v.toNat % 2 = 0 →
      pair.rxqEnabled = e ∧ pair.txqEnabled = (vd.qp j).txqEnabled)
    (hodd : ¬ v.toNat % 2 = 0 →
      pair.txqEnabled = e ∧ pair.rxqEnabled = (vd.qp j).rxqEnabled) :
    Flagged vd { vd with qp := Function.update vd.qp j pair } v e where
  pairs := rfl
  numbered := by
    intro k hk i hi
    by_cases hij : i = j
    · subst hij
      simpa [hrx, htx] using hk i hi
    · simpa [Function.update_of_ne hij] using hk i hi
  here := by
    unfold VhostDevice.queueEnabled
    by_cases hv : v.toNat % 2 = 0
    · simp [hj, hv, heven hv]
    · simp [hj, hv, hodd hv]
  there := by
    intro w hw
    unfold VhostDevice.queueEnabled
    by_cases hlt : w / 2 < maxQueuePairs
    · by_cases hwj : (⟨w / 2, hlt⟩ : Fin maxQueuePairs) = j
      · -- the other queue of the same pair
        have hdiv : w / 2 = j.val := congrArg Fin.val hwj
        by_cases hv : v.toNat % 2 = 0
        · have hw1 : ¬ w % 2 = 0 := by omega
          simp [hlt, hw1, hwj, heven hv]
        · have hw0 : w % 2 = 0 := by omega
          simp [hlt, hw0, hwj, hodd hv]
      · simp [hlt, Function.update_of_ne hwj]
    · simp [hlt]

/-- The pairs before `i` do not have `v`, as it is at least `2i`. -/
theorem scan_numbered (hnum : vd.Numbered n) {i k : Nat} (hik : i + k = n)
    (hn : n ≤ maxQueuePairs) (hv : 2 * i ≤ v.toNat) :
    (v.toNat < 2 * n ∧ ∃ vd', vd.scan v e i k = .ok vd' ∧ Flagged vd vd' v e) ∨
    (2 * n ≤ v.toNat ∧ vd.scan v e i k = .ok vd) := by
  induction k generalizing i with
  | zero => exact .inr ⟨by omega, rfl⟩
  | succ k ih =>
    have hmax : maxQueuePairs = 8 := rfl
    have hsize : 16 ≤ UInt16.size := by decide
    have hi : i < maxQueuePairs := by omega
    obtain ⟨hrx, htx⟩ := hnum ⟨i, hi⟩ (by dsimp only; omega)
    have hrx' : (vd.qp ⟨i, hi⟩).rxqId = v ↔ i * 2 = v.toNat := by
      rw [hrx, ofNat_eq_iff (Nat.lt_of_lt_of_le (by omega) hsize)]
    have htx' : (vd.qp ⟨i, hi⟩).txqId = v ↔ i * 2 + 1 = v.toNat := by
      rw [htx, ofNat_eq_iff (Nat.lt_of_lt_of_le (by omega) hsize)]
    rw [VhostDevice.scan, dif_pos hi]
    dsimp only
    split
    · next h =>
      have hvi := hrx'.mp h
      refine .inl ⟨by omega, _, rfl, flagged_update ⟨i, hi⟩ ?_ rfl rfl ?_ ?_⟩
      · dsimp only; omega
      · exact fun _ => ⟨rfl, rfl⟩
      · intro hodd; omega
    · next hne =>
      split
      · next h =>
        have hvi := htx'.mp h
        refine .inl ⟨by omega, _, rfl, flagged_update ⟨i, hi⟩ ?_ rfl rfl ?_ ?_⟩
        · dsimp only; omega
        · intro heven; omega
        · exact fun _ => ⟨rfl, rfl⟩
      · next hne' =>
        rw [hrx'] at hne
        rw [htx'] at hne'
        exact ih (by omega) (by omega)

end Scan

section History
variable {p : Int32} {c : Call} {h : List Call}

theorem lastPairs_other (hp : p ≠ c.portId) : lastPairs p (c :: h) = lastPairs p h := by
  cases c with
  | initVhostDevice p' vid n => simp [lastPairs, Call.portId] at hp ⊢; tauto
  | _ => rfl

theorem lastFlag_other (v : UInt16) (hp : p ≠ c.portId) :
    lastFlag p v (c :: h) = lastFlag p v h := by
  cases c with
  | initVhostDevice p' vid n => simp [lastFlag, Call.portId] at hp ⊢; tauto
  | setQueueState p' v' e => simp [lastFlag, Call.portId] at hp ⊢; tauto
  | _ => rfl

theorem lastSocket_other (i : Fin maxQueuePairs) (hp : p ≠ c.portId) :
    lastSocket p i (c :: h) = lastSocket p i h := by
  cases c with
  | initVhostDevice p' vid n => simp [lastSocket, Call.portId] at hp ⊢; tauto
  | assignPortSocket p' i' fd => simp [lastSocket, Call.portId] at hp ⊢; tauto
  | _ => rfl

end History

/-- A device with `n` pairs whose queues are enabled as `flag` says. -/
structure VhostDevice.Serves (vd : VhostDevice) (n : Int32) (flag : UInt16 → Bool) : Prop where
  pairs : vd.nofQueuePairs = n
  numbered : vd.Numbered n.toInt
  flags : ∀ v : UInt16, (v.toNat : Int) < 2 * n.toInt → vd.queueEnabled v.toNat = flag v

/-- The port is as the history says. -/
def PortRefines (p : Int32) (h : List Call) : Option Portmap → Prop
  | none => lastPairs p h = none
  | some pm => ∃ n, lastPairs p h = some n ∧ 0 ≤ n.toInt ∧ n.toInt ≤ maxQueuePairs ∧
      pm.vd.Serves n (fun v => lastFlag p v h)

def Refines (h : List Call) (m : Pmap) : Prop := ∀ p, PortRefines p h (m.find p)

/-- The arguments the callers promise. -/
def Call.Admissible : Call → Prop
  | .initVhostDevice _ _ n => 0 ≤ n.toInt ∧ n.toInt ≤ maxQueuePairs
  | .assignPortSocket _ i _ => 0 ≤ i.toInt
  | .setQueueState .. | .assignControlPath .. => True

section Refinement
variable {m m' : Pmap} {c : Call} {h : List Call}

theorem Refines.unknown {p : Int32} (hr : Refines h m) (hp : m.find p = none) :
    lastPairs p h = none := by
  have hport := hr p
  rw [hp] at hport
  exact hport

theorem Refines.serves {p : Int32} {pm : Portmap} (hr : Refines h m) (hp : m.find p = some pm) :
    ∃ n, lastPairs p h = some n ∧ 0 ≤ n.toInt ∧ n.toInt ≤ maxQueuePairs ∧
      pm.vd.Serves n (fun v => lastFlag p v h) := by
  have hport := hr p
  rw [hp] at hport
  exact hport

theorem VhostDevice.Serves.congr {vd vd' : VhostDevice} {n : Int32} {flag : UInt16 → Bool}
    (hs : vd.Serves n flag) (hn : vd'.nofQueuePairs = vd.nofQueuePairs) (hqp : vd'.qp = vd.qp) :
    vd'.Serves n flag := by
  obtain ⟨hp, hnum, hfl⟩ := hs
  refine ⟨hn.trans hp, ?_, ?_⟩
  · unfold VhostDevice.Numbered
    rw [hqp]
    exact hnum
  · unfold VhostDevice.queueEnabled
    rw [hqp]
    exact hfl

/-- A freshly initialised port has its queues numbered and disabled. -/
theorem initialised_serves (pm : Portmap) (vid : Int32) {n : Int32} (h0 : 0 ≤ n.toInt)
    (hn : n.toInt ≤ maxQueuePairs) : (pm.initialised vid n).vd.Serves n (fun _ => false) := by
  refine ⟨rfl, ?_, ?_⟩
  · intro j hj
    have hin : 0 ≤ j.val ∧ j.val < 0 + n.toInt.toNat := by omega
    unfold Portmap.initialised Portmap.paired
    dsimp only
    rw [if_pos hin]
    exact ⟨rfl, rfl⟩
  · intro v hv
    have hlt : v.toNat / 2 < maxQueuePairs := by omega
    have hin : 0 ≤ v.toNat / 2 ∧ v.toNat / 2 < 0 + n.toInt.toNat := by omega
    unfold VhostDevice.queueEnabled Portmap.initialised Portmap.paired
    dsimp only
    rw [dif_pos hlt, if_pos hin]
    exact ite_self false

/-- What `set_queue_state` makes of a device. -/
theorem scan_serves {vd vd' : VhostDevice} {n : Int32} {flag : UInt16 → Bool} {v : UInt16}
    {e : Bool} (hs : vd.Serves n flag) (h0 : 0 ≤ n.toInt) (hn : n.toInt ≤ maxQueuePairs)
    (h : vd.scan v e 0 vd.nofQueuePairs.toInt.toNat = .ok vd') :
    (2 * n.toInt ≤ v.toNat → vd' = vd) ∧
      vd'.Serves n (fun w => if v = w then e else flag w) := by
  have hcast : (n.toInt.toNat : Int) = n.toInt := Int.toNat_of_nonneg h0
  have hnum : vd.Numbered n.toInt.toNat := by rw [hcast]; exact hs.numbered
  rw [hs.pairs] at h
  rcases scan_numbered (v := v) (e := e) hnum (Nat.zero_add _) (by omega) (Nat.zero_le _) with
    ⟨hlt, vd'', hok, hfl⟩ | ⟨hge, hok⟩
  · rw [hok] at h
    cases h
    refine ⟨fun hle => by omega, hfl.pairs.trans hs.pairs, hfl.numbered _ hs.numbered, ?_⟩
    intro w hw
    by_cases hvw : v = w
    · subst hvw
      rw [if_pos rfl]
      exact hfl.here
    · rw [if_neg hvw, hfl.there _ (fun heq => hvw (UInt16.toNat_inj.mp heq).symm)]
      exact hs.flags w hw
  · rw [hok] at h
    cases h
    refine ⟨fun _ => rfl, hs.pairs, hs.numbered, ?_⟩
    intro w hw
    have hne : v ≠ w := by rintro rfl; omega
    rw [if_neg hne]
    exact hs.flags w hw

/-- An update with what is there. -/
theorem insert_find {p : Int32} {pm : Portmap} (h : m.find p = some pm) : m.insert p pm = m := by
  unfold Pmap.insert
  rw [← h, Function.update_eq_self]

theorem setQueueState_beyond {p : Int32} {pm : Portmap} {n : Int32} {flag : UInt16 → Bool}
    {v : UInt16} {e : Bool} (hp : m.find p = some pm) (hs : pm.vd.Serves n flag)
    (h0 : 0 ≤ n.toInt) (hn : n.toInt ≤ maxQueuePairs) (hv : 2 * n.toInt ≤ v.toNat) :
    setQueueState m p v e = .ok m := by
  obtain ⟨qp, hok⟩ := scan_ok pm.vd v e (i := 0) (k := pm.vd.nofQueuePairs.toInt.toNat)
    (by rw [hs.pairs]; omega)
  rw [setQueueState_some hp, hok, (scan_serves hs h0 hn hok).1 hv]
  exact congrArg Except.ok (insert_find hp)

theorem CallMove.refines (hm : CallMove m c m') (hc : c.Admissible) (hr : Refines h m) :
    Refines (c :: h) m' := by
  intro q
  by_cases hq : q = c.portId
  · subst hq
    cases hm with
    | init p vid n hn =>
      show PortRefines p _ ((m.insert p _).find p)
      rw [insert_self]
      refine ⟨n, by simp [lastPairs], hc.1, hc.2, ?_⟩
      simpa [lastFlag] using initialised_serves ((m.find p).getD Portmap.zero) vid hc.1 hc.2
    | unknownQueue p v e hp =>
      dsimp only [Call.portId]
      rw [hp]
      exact hr.unknown hp
    | setQueue p v e pm vd hp hs =>
      obtain ⟨n, hl, h0, hn, hserve⟩ := hr.serves hp
      rw [Call.portId, insert_self]
      refine ⟨n, hl, h0, hn, ?_⟩
      simpa [lastFlag] using (scan_serves hserve h0 hn hs).2
    | noSocket p i fd hp => exact hr p
    | socket p i fd pm j hp hj =>
      obtain ⟨n, hl, h0, hn, hserve⟩ := hr.serves hp
      rw [Call.portId, insert_self]
      refine ⟨n, hl, h0, hn, hserve.congr ?_ ?_⟩ <;> unfold Portmap.connect <;> dsimp only <;>
        split <;> rfl
    | noControl p fd hp => exact hr p
    | control p fd pm hp =>
      obtain ⟨n, hl, h0, hn, hserve⟩ := hr.serves hp
      rw [Call.portId, insert_self]
      exact ⟨n, hl, h0, hn, hserve.congr rfl rfl⟩
  · rw [hm.other hq]
    cases hfind : m.find q with
    | none => exact (lastPairs_other hq).trans (hr.unknown hfind)
    | some pm =>
      obtain ⟨n, hl, h0, hn, hserve⟩ := hr.serves hfind
      refine ⟨n, (lastPairs_other hq).trans hl, h0, hn, hserve.pairs, hserve.numbered, ?_⟩
      intro v hv
      rw [lastFlag_other v hq]
      exact hserve.flags v hv

/-- An admissible call returns. -/
theorem call_returns (hc : c.Admissible) (hr : Refines h m) : ∃ m', call m c = .ok m' := by
  have hb : m.Bounded := by
    intro p pm hp
    obtain ⟨n, -, -, hn, hserve⟩ := hr.serves hp
    rw [hserve.pairs]
    exact hn
  have hin : InBounds m c := by
    cases c with
    | initVhostDevice p vid n => exact hc.2
    | assignPortSocket p i fd => exact fun _ => hc
    | _ => trivial
  cases hcall : call m c with
  | error i => exact ((inRange_iff hb).mpr hin i hcall).elim
  | ok m' => exact ⟨m', rfl⟩

theorem run_refines {cs : List Call} (hcs : ∀ c ∈ cs, c.Admissible) :
    ∃ m, Transition.run step Pmap.empty cs = some m ∧ Refines cs.reverse m := by
  induction cs using List.reverseRecOn with
  | nil => exact ⟨Pmap.empty, rfl, fun p => rfl⟩
  | append_singleton cs c ih =>
    obtain ⟨m, hrun, hr⟩ := ih (fun c hc => hcs c (List.mem_append_left _ hc))
    have hc : c.Admissible := hcs c (List.mem_append_right _ List.mem_cons_self)
    obtain ⟨m', hm'⟩ := call_returns hc hr
    refine ⟨m', ?_, ?_⟩
    · rw [Transition.run_snoc, hrun]
      exact step_eq_some.mpr hm'
    · rw [List.reverse_concat]
      exact (call_cases hm').refines hc hr

/-- **The queue states are a map.** For every sequence of calls with admissible
arguments: the calls return; for every port initialised with `n` pairs and every
vring `v < 2n` the flag is the last one set since the port was initialised, or
false; `set_queue_state` for an unknown port or vring changes nothing; and no
call changes another port. -/
theorem queue_states_refine (cs : List Call) (hcs : ∀ c ∈ cs, c.Admissible) :
    ∃ m, Transition.run step Pmap.empty cs = some m ∧
      (∀ p n, lastPairs p cs.reverse = some n → ∃ pm, m.find p = some pm ∧
        ∀ v : UInt16, (v.toNat : Int) < 2 * n.toInt →
          pm.vd.queueEnabled v.toNat = lastFlag p v cs.reverse) ∧
      (∀ p v e, (∀ n, lastPairs p cs.reverse = some n → 2 * n.toInt ≤ v.toNat) →
        call m (.setQueueState p v e) = .ok m) ∧
      ∀ c m', call m c = .ok m' → ∀ q, q ≠ c.portId → m'.find q = m.find q := by
  obtain ⟨m, hrun, hr⟩ := run_refines hcs
  refine ⟨m, hrun, ?_, ?_, fun c m' hm' q hq => (call_cases hm').other hq⟩
  · intro p n hn
    cases hfind : m.find p with
    | none =>
      rw [hr.unknown hfind] at hn
      cases hn
    | some pm =>
      obtain ⟨n', hl, -, -, hserve⟩ := hr.serves hfind
      rw [hl] at hn
      cases hn
      exact ⟨pm, rfl, hserve.flags⟩
  · intro p v e hbeyond
    cases hfind : m.find p with
    | none => exact setQueueState_none hfind
    | some pm =>
      obtain ⟨n, hl, h0, hn, hserve⟩ := hr.serves hfind
      exact setQueueState_beyond hfind hserve h0 hn (hbeyond n hl)

/-- Two pairs, the queue 3 enabled, the port initialised again with one pair, and
queue 1 enabled twice. -/
theorem queue_states_refine_reinit :
    ∃ m, Transition.run step Pmap.empty
        [.initVhostDevice 7 0 2, .setQueueState 7 3 true, .initVhostDevice 7 0 1,
          .setQueueState 7 1 true, .assignPortSocket 7 1 5, .setQueueState 7 1 false,
          .setQueueState 7 1 true] = some m ∧
      (∃ pm, m.find 7 = some pm ∧
        pm.vd.queueEnabled 1 = true ∧ pm.vd.queueEnabled 0 = false) ∧
      call m (.setQueueState 7 2 true) = .ok m ∧ call m (.setQueueState 8 0 true) = .ok m := by
  obtain ⟨m, hrun, hflags, hbeyond, -⟩ := queue_states_refine
    [.initVhostDevice 7 0 2, .setQueueState 7 3 true, .initVhostDevice 7 0 1,
      .setQueueState 7 1 true, .assignPortSocket 7 1 5, .setQueueState 7 1 false,
      .setQueueState 7 1 true] (by simp [Call.Admissible, maxQueuePairs])
  refine ⟨m, hrun, ?_, ?_, ?_⟩
  · obtain ⟨pm, hpm, hq⟩ := hflags 7 1 (by decide)
    exact ⟨pm, hpm, hq 1 (by decide), hq 0 (by decide)⟩
  · apply hbeyond
    intro n hn
    obtain rfl : n = 1 := Option.some.inj (hn.symm.trans (by decide))
    decide
  · apply hbeyond
    intro n hn
    exact absurd (hn.symm.trans (show _ = none by decide)) nofun

end Refinement

/-! ## Sockets -/

/-- Both handles of every pair are the last socket assigned, or -1. -/
def Fresh (h : List Call) (m : Pmap) : Prop :=
  ∀ p pm, m.find p = some pm → ∀ i,
    (pm.pd.qp i).rxqId = (pm.pd.qp i).txqId ∧ (pm.pd.qp i).rxqId = lastSocket p i h

/-- An initialisation finds the entries from `nof_pairs` on not connected. -/
def InitCovers (m : Pmap) : Call → Prop
  | .initVhostDevice p _ n => ∀ i : Fin maxQueuePairs, n.toInt ≤ i.val →
      ∃ pm, m.find p = some pm ∧ pm.pd.qp i = ⟨-1, -1⟩
  | .setQueueState .. | .assignPortSocket .. | .assignControlPath .. => True

section Sockets
variable {m m' : Pmap} {c : Call} {h : List Call} {p : Int32}

/-- A call that keeps the other ports leaves its own port to look at. -/
theorem fresh_iff_port (hm : CallMove m c m') (hf : Fresh h m) :
    Fresh (c :: h) m' ↔ ∀ pm, m'.find c.portId = some pm → ∀ i,
      (pm.pd.qp i).rxqId = (pm.pd.qp i).txqId ∧
      (pm.pd.qp i).rxqId = lastSocket c.portId i (c :: h) := by
  constructor
  · intro hall
    exact hall c.portId
  · intro hport q pm hq
    by_cases hqp : q = c.portId
    · subst hqp
      exact hport pm hq
    · rw [hm.other hqp] at hq
      intro i
      rw [lastSocket_other i hqp]
      exact hf q pm hq i

/-- The entries below `nof_pairs` are -1 after an initialisation, the others what
they were. -/
theorem initialised_sockets (pm : Portmap) (vid : Int32) {n : Int32} (i : Fin maxQueuePairs) :
    ((pm.initialised vid n).pd.qp i).rxqId = ((pm.initialised vid n).pd.qp i).txqId ∧
      ((pm.initialised vid n).pd.qp i).rxqId = -1 ↔
    (n.toInt ≤ i.val → pm.pd.qp i = ⟨-1, -1⟩) := by
  unfold Portmap.initialised Portmap.paired
  dsimp only
  by_cases hin : i.val < n.toInt
  · rw [if_pos (by omega)]
    exact iff_of_true ⟨rfl, rfl⟩ (fun hle => by omega)
  · rw [if_neg (by omega)]
    have hle : n.toInt ≤ i.val := by omega
    constructor
    · rintro ⟨heq, hrx⟩ -
      exact PortQueuePair.ext hrx (heq.symm.trans hrx)
    · intro hqp
      rw [hqp hle]
      exact ⟨rfl, rfl⟩

/-- A port that `operator[]` has just created holds descriptor 0. -/
theorem getD_socket {i : Fin maxQueuePairs} :
    ((m.find p).getD Portmap.zero).pd.qp i = ⟨-1, -1⟩ ↔
      ∃ pm, m.find p = some pm ∧ pm.pd.qp i = ⟨-1, -1⟩ := by
  cases hp : m.find p with
  | none =>
    refine iff_of_false ?_ (fun ⟨pm, hpm, _⟩ => by cases hpm)
    show (⟨0, 0⟩ : PortQueuePair) ≠ ⟨-1, -1⟩
    decide
  | some pm => simp

/-- A step from fresh entries to fresh entries. -/
theorem fresh_step_iff (hm : CallMove m c m') (hf : Fresh h m) :
    Fresh (c :: h) m' ↔ InitCovers m c := by
  rw [fresh_iff_port hm hf]
  cases hm with
  | init p vid n hn =>
    simp only [Call.portId, insert_self, Option.some.injEq, forall_eq', lastSocket, if_true,
      initialised_sockets, getD_socket, InitCovers]
  | unknownQueue p v e hp | noControl p fd hp =>
    refine iff_of_true (fun pm hpm => ?_) trivial
    exact hf p pm hpm
  | setQueue p v e pm vd hp hs | control p fd pm hp =>
    refine iff_of_true (fun pm' hpm' => ?_) trivial
    rw [Call.portId, insert_self] at hpm'
    cases hpm'
    exact hf p pm hp
  | noSocket p i fd hp =>
    refine iff_of_true (fun pm hpm j => ?_) trivial
    -- an index of a pair would have been written
    have hne : ¬ (True ∧ i.toInt = j.val) := by
      rcases hp with hp | hge
      · rw [Call.portId, hp] at hpm
        cases hpm
      · have := j.isLt
        omega
    simp only [Call.portId, lastSocket]
    rw [if_neg hne]
    exact hf p pm hpm j
  | socket p i fd pm j hp hj =>
    refine iff_of_true (fun pm' hpm' k => ?_) trivial
    rw [Call.portId, insert_self] at hpm'
    cases hpm'
    simp only [Call.portId, lastSocket, Portmap.connect]
    by_cases hkj : k = j
    · subst hkj
      simp [hj]
    · have hne : ¬ (True ∧ i.toInt = k.val) := by
        rintro ⟨-, heq⟩
        exact hkj (Fin.ext (by omega))
      rw [if_neg hne, Function.update_of_ne hkj]
      exact hf p pm hp k

/-- **When no socket is stale.** In every sequence of calls that return, the socket
entries of every port in the map are, all along, what the last `assign_port_socket`
since the last initialisation made them or -1, exactly if every
`init_vhost_device` finds the entries from `nof_pairs` on not connected: it
creates the port with all of the pairs, or finds -1 in those it leaves alone. -/
theorem sockets_fresh_iff (cs : List Call) (m : Pmap)
    (hr : Transition.run step Pmap.empty cs = some m) :
    (∀ bs t, bs <+: cs → Transition.run step Pmap.empty bs = some t → Fresh bs.reverse t) ↔
      Transition.Meets step InitCovers Pmap.empty cs := by
  refine Transition.always_iff_meets (P := fun bs t => Fresh bs.reverse t) ?_ ?_ hr
  · intro p pm hp
    cases hp
  · intro as t c t' _ hf hs
    rw [List.reverse_concat]
    exact fresh_step_iff (call_cases (step_eq_some.mp hs)) hf

/-- A port created with one pair has descriptor 0 in the other seven. -/
theorem phantom_socket :
    ¬ ∀ (cs : List Call) (m : Pmap), (∀ c ∈ cs, c.Admissible) →
      Transition.run step Pmap.empty cs = some m → Fresh cs.reverse m := by
  intro hall
  have hf := hall [.initVhostDevice 0 0 1] _ (by simp [Call.Admissible, maxQueuePairs]) rfl
  have hsock := (hf 0 _ rfl ⟨1, by decide⟩).2
  exact absurd hsock (by decide)

/-- A port created with all of its pairs, and initialised again while it has a socket
on the first pair only. -/
theorem sockets_fresh_all_pairs :
    ∃ m, Transition.run step Pmap.empty [.initVhostDevice 0 0 8, .assignPortSocket 0 0 5,
        .initVhostDevice 0 0 1, .assignPortSocket 0 0 6] = some m ∧
      Fresh [.assignPortSocket 0 0 6, .initVhostDevice 0 0 1, .assignPortSocket 0 0 5,
        .initVhostDevice 0 0 8] m := by
  obtain ⟨m, hr⟩ : ∃ m, Transition.run step Pmap.empty [.initVhostDevice 0 0 8,
      .assignPortSocket 0 0 5, .initVhostDevice 0 0 1, .assignPortSocket 0 0 6] = some m := ⟨_, rfl⟩
  refine ⟨m, hr, (sockets_fresh_iff _ m hr).mpr ?_ _ m List.prefix_rfl hr⟩
  refine ⟨fun i hi => absurd i.isLt ?_, fun _ h1 => ⟨trivial, fun _ h2 => ⟨?_, fun _ _ => ?_⟩⟩⟩
  · exact Nat.not_lt.mpr (Int.ofNat_le.mp hi)
  · cases h1
    cases h2
    intro i hi
    exact ⟨_, rfl, by revert i; decide⟩
  · exact ⟨trivial, fun _ _ => trivial⟩

end Sockets

end VirtioBench.Vtb
