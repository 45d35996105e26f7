import VirtioBench.Bkend.Message

/- The indices a message drives (code_dump/nonm/bkend.c): into `vhost_req_str`, `bk->regions`,
   `memory->regions`, `vmsg.fds`, `bk->vq` and `bk->en2`. The handlers take them from the
   message and test none of them; the request is used to index the table of names
   before the switch whose default is there for unknown requests.

   `message_indices_iff` gives the messages that stay inside the arrays, over every
   run of the process: `MsgOk` is their condition, case by case. It looks at the
   state in one place only, the loop of `qva_to_va`, whose bound is what an earlier
   message stored or, before there was one, what `malloc` returned. -/
namespace VirtioBench.Bkend

/-- The address lies in one of the eight entries of the region table. -/
def Backend.Found (b : Backend) (addr : UInt64) : Prop :=
  ∃ r ∈ b.regions.toList, (r.translate r.qva addr).isSome

/-- The handler goes outside no array, and an unknown request changes nothing. -/
def IndexOk (s : Server) : Action → Prop
  | .message m env => dispatch env s m ≠ .error (.trap .indexOutOfRange) ∧
      (m.req = .unknown → dispatch env s m = .ok (s.note m))
  | .worker _ | .guest _ => True

/-- What the message must be for that. -/
def VhMsg.InBounds (m : VhMsg) (s : Server) (env : Calls) : Prop :=
  match m.req with
  | .setMemTable => m.nregions.toNat ≤ vhostMemoryMaxNregions ∨
      ∃ i < vhostMemoryMaxNregions, env.mmap i = none
  | .setVringNum | .setVringBase | .getVringBase | .setVringEnable => m.index.toNat < 2
  | .setVringAddr => m.index.toNat < 2 ∧
      (s.sh.bk.nregions.toNat ≤ vhostMemoryMaxNregions ∨
        s.sh.bk.Found m.addr.descUserAddr ∧ s.sh.bk.Found m.addr.usedUserAddr ∧
          s.sh.bk.Found m.addr.availUserAddr)
  | .setVringKick => m.vringIdx < 2
  | .setVringCall => m.u64 &&& vhostUserVringNofdMask ≠ 0 ∨ m.vringIdx < 2
  | .getFeatures | .setFeatures | .setOwner | .resetOwner | .setLogBase | .setLogFd
  | .setVringErr | .getProtocolFeatures | .setProtocolFeatures | .getQueueNum | .sendRarp
  | .unknown => True

def MsgOk (s : Server) : Action → Prop
  | .message m env => m.request.toNat < vhostReqStr.length ∧ m.InBounds s env
  | .worker _ | .guest _ => True

section Indices
variable {env : Calls} {s : Server} {m : VhMsg}

theorem dispatch_unnamed (h : ¬ m.request.toNat < vhostReqStr.length) :
    dispatch env s m = .error (.trap .indexOutOfRange) := by
  unfold dispatch requestName
  have hne : m.request ≠ 0 := by
    rintro heq
    rw [heq] at h
    exact h (by decide)
  rw [if_neg hne, List.getElem?_eq_none (by omega)]
  rfl

/-- Two computations one after the other fail with `e` in neither. -/
theorem bind_ne_error {ε α β : Type} {x : Except ε α} {f : α → Except ε β} {e : ε}
    (hx : x ≠ .error e) (hf : ∀ a, f a ≠ .error e) : (x >>= f) ≠ .error e := by
  cases x with
  | error e' =>
    intro h
    exact hx (congrArg Except.error (Except.error.inj h))
  | ok a => exact hf a

theorem send_inRange (r : VhMsg) : send env s r ≠ .error (.trap .indexOutOfRange) := by
  unfold send
  split <;> exact nofun

/-- The first index of a handler decides. -/
theorem vqIndex_bind {i : Nat} {f : Fin 2 → Except Exit Server}
    (hf : ∀ q, f q ≠ .error (.trap .indexOutOfRange)) :
    (vqIndex i >>= f) ≠ .error (.trap .indexOutOfRange) ↔ i < 2 := by
  unfold vqIndex
  by_cases h : i < 2
  · rw [dif_pos h]
    exact iff_of_true (hf _) h
  · rw [dif_neg h]
    exact iff_of_false (fun hne => hne rfl) h

/-- The loop over the regions of a message reaches the ninth. -/
theorem mapRegions_inRange {i k : Nat} (hi : i ≤ vhostMemoryMaxNregions) :
    mapRegions env m i k s ≠ .error (.trap .indexOutOfRange) ↔
      i + k ≤ vhostMemoryMaxNregions ∨
        ∃ j < vhostMemoryMaxNregions, i ≤ j ∧ env.mmap j = none := by
  induction k generalizing i s with
  | zero => exact iff_of_true (by simp [mapRegions]) (.inl hi)
  | succ k ih =>
    unfold mapRegions
    by_cases hlt : i < vhostMemoryMaxNregions
    · rw [dif_pos hlt]
      cases hmap : env.mmap i with
      | none => exact iff_of_true (by simp) (.inr ⟨i, hlt, Nat.le_refl i, hmap⟩)
      | some mmapAddr =>
        dsimp only
        rw [ih (by omega)]
        constructor
        · rintro (hk | ⟨j, hj, hij, hnone⟩)
          · exact .inl (by omega)
          · exact .inr ⟨j, hj, by omega, hnone⟩
        · rintro (hk | ⟨j, hj, hij, hnone⟩)
          · exact .inl (by omega)
          · -- `mmap i` has succeeded
            have hne : j ≠ i := by
              rintro rfl
              rw [hmap] at hnone
              cases hnone
            exact .inr ⟨j, hj, by omega, hnone⟩
    · rw [dif_neg hlt]
      refine iff_of_false (fun hne => hne rfl) ?_
      rintro (hk | ⟨j, hj, hij, -⟩) <;> omega

theorem qvaToVa_bounded {b : Backend} (hn : b.nregions.toNat ≤ vhostMemoryMaxNregions)
    (addr : UInt64) : qvaToVa b addr ≠ .error .indexOutOfRange := by
  unfold qvaToVa Backend.lookup
  split
  · exact nofun
  · rw [if_neg (by omega)]
    exact nofun

/-- With a bound beyond the table the loop finds the address in it or leaves it. -/
theorem qvaToVa_unbounded {b : Backend} (hn : vhostMemoryMaxNregions < b.nregions.toNat)
    (addr : UInt64) : (∃ va, qvaToVa b addr = .ok va ∧ b.Found addr) ∨
      (qvaToVa b addr = .error .indexOutOfRange ∧ ¬ b.Found addr) := by
  have hall : b.regions.toList.take b.nregions.toNat = b.regions.toList := by
    apply List.take_of_length_le
    rw [Vector.length_toList]
    omega
  unfold qvaToVa Backend.lookup
  rw [hall, if_pos hn]
  cases hfind : b.regions.toList.findSome? (fun r => r.translate r.qva addr) with
  | none =>
    right
    refine ⟨rfl, ?_⟩
    rintro ⟨r, hr, hsome⟩
    rw [List.findSome?_eq_none_iff.mp hfind r hr] at hsome
    cases hsome
  | some va =>
    left
    obtain ⟨r, hr, hva⟩ := List.exists_of_findSome?_eq_some hfind
    exact ⟨va, rfl, r, hr, by rw [hva]; rfl⟩

/-- Three translations, one after the other. -/
theorem qvaToVa_three {b : Backend} {d u a : UInt64}
    {f : UInt64 → UInt64 → UInt64 → Except Halt Backend}
    (hf : ∀ x y z, f x y z ≠ .error .indexOutOfRange) :
    (do
      let x ← qvaToVa b d
      let y ← qvaToVa b u
      let z ← qvaToVa b a
      f x y z) ≠ .error .indexOutOfRange ↔
    b.nregions.toNat ≤ vhostMemoryMaxNregions ∨ b.Found d ∧ b.Found u ∧ b.Found a := by
  by_cases hn : b.nregions.toNat ≤ vhostMemoryMaxNregions
  · refine iff_of_true ?_ (.inl hn)
    exact bind_ne_error (qvaToVa_bounded hn d) (fun x =>
      bind_ne_error (qvaToVa_bounded hn u) (fun y =>
        bind_ne_error (qvaToVa_bounded hn a) (fun z => hf x y z)))
  · have hlt : vhostMemoryMaxNregions < b.nregions.toNat := by omega
    simp only [hn, false_or]
    rcases qvaToVa_unbounded hlt d with ⟨x, hx, hd⟩ | ⟨hx, hd⟩
    · rcases qvaToVa_unbounded hlt u with ⟨y, hy, hu⟩ | ⟨hy, hu⟩
      · rcases qvaToVa_unbounded hlt a with ⟨z, hz, ha⟩ | ⟨hz, ha⟩
        · rw [hx, hy, hz]
          exact iff_of_true (hf x y z) ⟨hd, hu, ha⟩
        · rw [hx, hy, hz]
          exact iff_of_false (fun hne => hne rfl) (fun hall => ha hall.2.2)
      · rw [hx, hy]
        exact iff_of_false (fun hne => hne rfl) (fun hall => hu hall.2.1)
    · rw [hx]
      exact iff_of_false (fun hne => hne rfl) (fun hall => hd hall.1)

theorem setVringAddr_inRange {mem : GuestMemory} {b : Backend} {vra : VringAddr} :
    setVringAddr mem b vra ≠ .error .indexOutOfRange ↔
      vra.index.toNat < 2 ∧ (b.nregions.toNat ≤ vhostMemoryMaxNregions ∨
        b.Found vra.descUserAddr ∧ b.Found vra.usedUserAddr ∧ b.Found vra.availUserAddr) := by
  unfold setVringAddr
  by_cases h : vra.index.toNat < 2
  · rw [dif_pos h]
    simp only [h, true_and]
    exact qvaToVa_three (fun x y z => nofun)
  · rw [dif_neg h]
    exact iff_of_false (fun hne => hne rfl) (fun hall => h hall.1)

theorem setVringNum_inRange {b : Backend} {index num : UInt32} :
    setVringNum b index num ≠ .error .indexOutOfRange ↔ index.toNat < 2 := by
  unfold setVringNum
  by_cases h : index.toNat < 2
  · rw [dif_pos h]
    exact iff_of_true nofun h
  · rw [dif_neg h]
    exact iff_of_false (fun hne => hne rfl) h

theorem stored_inRange {x : Except Halt Backend} :
    (x.map s.setBk).mapError Exit.trap ≠ .error (.trap .indexOutOfRange) ↔
      x ≠ .error .indexOutOfRange := by
  cases x with
  | error e => simp [Except.map, Except.mapError]
  | ok bk => simp [Except.map, Except.mapError]

theorem setVringEnable_inRange :
    setVringEnable env s m ≠ .error (.trap .indexOutOfRange) ↔ m.index.toNat < 2 := by
  refine vqIndex_bind (fun q => bind_ne_error (send_inRange _) (fun t => ?_))
  dsimp only
  split <;> exact nofun

theorem setVringCall_inRange :
    setVringCall s m ≠ .error (.trap .indexOutOfRange) ↔
      (m.u64 &&& vhostUserVringNofdMask ≠ 0 ∨ m.vringIdx < 2) := by
  unfold setVringCall
  by_cases h : m.u64 &&& vhostUserVringNofdMask = 0
  · rw [if_pos h]
    simp only [h, ne_eq, not_true_eq_false, false_or]
    exact vqIndex_bind (fun q => nofun)
  · rw [if_neg h]
    exact iff_of_true nofun (.inl h)

/-- Case by case, the indices of a handler are in range as the message says. -/
theorem switch_inRange :
    switch env (s.note m) m ≠ .error (.trap .indexOutOfRange) ↔ m.InBounds s env := by
  unfold switch VhMsg.InBounds
  cases hm : m.req <;> dsimp only
  case getFeatures => exact iff_of_true (send_inRange _) trivial
  case getProtocolFeatures => exact iff_of_true (send_inRange _) trivial
  case setMemTable =>
    unfold setMemTable
    rw [mapRegions_inRange (Nat.zero_le _)]
    simp
  case setVringNum => rw [stored_inRange, setVringNum_inRange]
  case setVringAddr => rw [stored_inRange]; exact setVringAddr_inRange
  case setVringBase => exact vqIndex_bind (fun q => nofun)
  case getVringBase => exact vqIndex_bind (fun q => send_inRange _)
  case setVringKick => exact vqIndex_bind (fun q => nofun)
  case setVringCall => exact setVringCall_inRange
  case setVringEnable => exact setVringEnable_inRange
  all_goals exact iff_of_true nofun trivial

theorem indexOk_iff (a : Action) : IndexOk s a ↔ MsgOk s a := by
  cases a with
  | message m env =>
    dsimp only [IndexOk, MsgOk]
    by_cases h : m.request.toNat < vhostReqStr.length
    · rw [dispatch_known h, switch_inRange]
      have hdefault : m.req = .unknown → switch env (s.note m) m = .ok (s.note m) := by
        intro hm
        unfold switch
        rw [hm]
      simp only [h, true_and]
      exact and_iff_left hdefault
    · rw [dispatch_unnamed h]
      exact iff_of_false (fun hok => hok.1 rfl) (fun hok => h hok.1)
  | worker k => exact Iff.rfl
  | guest g => exact Iff.rfl

/-- **When the indices of a message are in range.** In every run of the process, from
whatever `malloc` returned, the indices the handler uses are within the arrays, and an
unknown request reaches the default branch only, exactly if every message meets
`MsgOk`. -/
theorem message_indices_iff (garbage : Server) (as : List Action) :
    (∀ bs a s, bs ++ [a] <+: as → Transition.run step (boot garbage) bs = some s → IndexOk s a) ↔
      Transition.Meets step MsgOk (boot garbage) as := by
  rw [← Transition.meets_iff]
  exact Transition.meets_congr (I := fun _ => True) (fun _ _ _ _ _ => trivial)
    (fun s a _ => indexOk_iff a) trivial

/-- The request 21 is looked up in the table of names. -/
theorem request_name_out_of_range :
    ¬ ∀ (garbage : Server) (as : List Action) (a : Action) (s : Server),
      Transition.run step (boot garbage) as = some s → IndexOk s a := by
  intro hall
  have hok := hall zeroed [] (.message (.make 21 [] []) .succeed) (boot zeroed) rfl
  exact hok.1 rfl

end Indices

end VirtioBench.Bkend
