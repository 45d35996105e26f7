import VirtioBench.Bkend.Served

/- Progress of the transmit worker (`dequeue` of code_dump/nonm/bkend.c). The guarantees of
   `TxQueue` hold of a worker that stands still as well; here, from every state the
   process can be in, the worker alone gets to a state where everything posted is returned.

   The variant is four numbers in one: how many heads are left, and where in its loop
   the worker is. A chain counts as one move, since the walk along it ends
   (`Tx.walk_ends`): the chain does. -/
namespace VirtioBench.Bkend

open Transition (Repeats)

/-- Everything posted is returned, and the worker looks for more. -/
def Tx.Drained (t : Tx) : Prop :=
  t.w.pc = .head ∧ t.returned = t.posted.map (fun h => entry h.toUInt32)

/-- Where the worker is in its loop, with `left` heads to serve. -/
def pcRank (left : Nat) : WorkerPc → Nat
  | .publish => 5
  -- with nothing left, the publication is still to come
  | .head => if left = 0 then 6 else 4
  | .fetch => 3
  | .walk => 2
  | .retire => 1
  | .halted _ => 0

def Tx.left (t : Tx) : Nat := t.posted.length - t.retired.length

def Tx.variant (t : Tx) : Nat := 6 * t.left + pcRank t.left t.w.pc

section Drain
variable {n base : Nat} {t t' : Tx}

theorem txStep_worker_eq {r : Shared × Worker} (hr : workerStep t.sh t.w = some r)
    (hpc : t.w.pc ≠ .publish) : txStep n t .worker = some (t.worked r) := by
  dsimp only [txStep]
  rw [hr, Option.map_some, if_neg hpc]

/-- The worker follows the chain to its end. -/
theorem Tx.walk_ends {rest : List Nat} {fuel : Nat} (hi : t.Inv n base) (hpc : t.w.pc = .walk)
    (hrest : chain t.sh.bk t.table fuel t.w.i.toNat = some rest) :
    ∃ t', Repeats (txStep n) .worker t t' ∧ t'.Inv n base ∧ t'.w.pc = .retire ∧
      t'.posted = t.posted ∧ t'.retired = t.retired := by
  induction rest generalizing t fuel with
  | nil =>
    rcases (chain_cases hrest).2 with ⟨-, _, _, hnil, -⟩ | ⟨-, hnil⟩
    · cases hnil
    · cases hnil
  | cons i rest ih =>
    have hstep : txStep n t .worker = some (t.worked (walkStep t.sh t.w)) :=
      txStep_worker_eq (workerStep_walk t.sh hpc) (by rw [hpc]; exact nofun)
    have hinv := hi.walk hpc
    have hat := hi.pc
    rw [hpc] at hat
    obtain ⟨hserve, fuel₀, done, rest₀, -, hrest₀, hlen, -, hmax⟩ := hat
    have hd : t.sh.mem.desc t.w.desc t.w.i.toNat = t.table t.w.i.toNat := by
      rw [hi.desc]
      rfl
    obtain ⟨hr, hcases⟩ := chain_cases hrest
    -- the descriptor fits, so this is one copy
    have hfits : t.w.len + (t.table t.w.i.toNat).len < maxLen := by
      obtain ⟨-, ⟨-, -, tail, rfl, -⟩ | ⟨-, rfl⟩⟩ := chain_cases hrest₀
      · exact (next_fits hlen hmax).2
      · exact (next_fits hlen hmax).2
    obtain ⟨chunk, hwalk⟩ := walkStep_eq hd hr hfits
    rw [hwalk] at hstep hinv
    rcases hcases with ⟨hnext, fuel', rest', heq, hrest'⟩ | ⟨hlast, -⟩
    · rw [if_pos hnext] at hstep hinv
      cases heq
      have hgoes : chain t.sh.bk t.table fuel' (t.table t.w.i.toNat).next.toUInt32.toNat =
          some rest := by
        rw [UInt16.toNat_toUInt32]
        exact hrest'
      obtain ⟨t', hreach, hi', hpc', hposted, hretired⟩ := ih hinv hpc hgoes
      exact ⟨t', .head hstep hreach, hi', hpc', hposted, hretired.trans (Tx.retired_log t _ rfl)⟩
    · rw [if_neg (not_not.mpr hlast)] at hstep hinv
      exact ⟨_, .single hstep, hinv, rfl, rfl, Tx.retired_log t _ rfl⟩

/-- What the worker has retired and nothing else is posted: the next publication is the last. -/
theorem Tx.drained_of_publish (hi : t.Inv n base) (hn : n ∣ 2 ^ 16) (hlt : n < 2 ^ 16)
    (hall : t.retired.length = t.posted.length) : (t.published n).Drained := by
  refine ⟨rfl, ?_⟩
  have hpub := (hi.ledger.publish hn hlt).2
  rw [← Tx.ledger_publish hi.used] at hpub
  have hreturned : (t.published n).returned = t.retired.map entry := hpub
  have hretired : t.retired = t.posted.map UInt16.toUInt32 := by
    refine hi.ledger.retiredPosted.eq_of_length ?_
    rw [List.length_map]
    exact hall
  rw [hreturned, hretired, List.map_map]
  rfl

/-- A move that retires nothing takes the worker on in its loop. -/
theorem Tx.variant_lt (pc pc' : WorkerPc) (hpc : t.w.pc = pc) (hpc' : t'.w.pc = pc')
    (hposted : t'.posted = t.posted) (hretired : t'.retired = t.retired)
    (hlt : pcRank t.left pc' < pcRank t.left pc) : t'.variant < t.variant := by
  have hleft : t'.left = t.left := by
    unfold Tx.left
    rw [hposted, hretired]
  unfold Tx.variant
  rw [hpc, hpc', hleft]
  exact Nat.add_lt_add_left hlt _

theorem Tx.Inv.head_less (hi : t.Inv n base) (hlt : n < 2 ^ 16) (hpc : t.w.pc = .head) :
    (t.worked (headStep t.sh t.w)).variant < t.variant := by
  have hempty : t.vq.lastAvailIdx = t.avail.idx ↔ t.retired.length = t.posted.length :=
    hi.ledger.empty_iff hlt
  have hle : t.retired.length ≤ t.posted.length := hi.ledger.processed
  unfold headStep
  rw [hi.avail]
  split
  · next heq =>
    have hnone : t.left = 0 := by
      unfold Tx.left
      rw [hempty.mp heq, Nat.sub_self]
    refine Tx.variant_lt .head .publish hpc rfl rfl rfl ?_
    rw [hnone]
    decide
  · next hne =>
    have hsome : t.left ≠ 0 := by
      have hneq := mt hempty.mpr hne
      unfold Tx.left
      omega
    refine Tx.variant_lt .head .fetch hpc rfl rfl rfl ?_
    simp [pcRank, hsome]

theorem Tx.Inv.fetch_less (hi : t.Inv n base) (hpos : 0 < n) (hpc : t.w.pc = .fetch) :
    (t.worked (fetchStep t.sh t.w)).variant < t.variant := by
  have hsize : t.w.size ≠ 0 := by
    intro h0
    have hz : t.w.size.toInt = 0 := by rw [h0]; rfl
    rw [hi.size] at hz
    omega
  unfold fetchStep
  rw [if_neg hsize]
  dsimp only
  exact Tx.variant_lt .fetch .walk hpc rfl rfl (Tx.retired_log t _ rfl) (by simp [pcRank])

/-- One head less. -/
theorem Tx.Inv.retire_less (hi : t.Inv n base) (hpc : t.w.pc = .retire) :
    (t.worked (retireStep t.sh t.w)).variant < t.variant := by
  have hat := hi.pc
  rw [hpc] at hat
  obtain ⟨hserve, hlen⟩ := hat
  have hne : t.w.len ≠ 0 := by
    intro h0
    rw [h0] at hlen
    exact Nat.lt_irrefl 0 hlen
  have hretired : (t.worked (retireStep t.sh t.w)).retired = t.retired ++ [t.w.dIdx.toUInt32] :=
    congrArg Ledger.retired (Tx.ledger_retire hi.used hne).1
  have hlt : t.retired.length < t.posted.length := (List.getElem?_eq_some_iff.mp hserve.head).1
  have hleft : (t.worked (retireStep t.sh t.w)).left + 1 = t.left := by
    unfold Tx.left
    rw [hretired, List.length_append, List.length_singleton]
    show t.posted.length - _ + 1 = _
    omega
  have hpc' : (t.worked (retireStep t.sh t.w)).w.pc = .head := by
    unfold retireStep
    rw [if_neg hne]
    rfl
  have hrank : pcRank (t.worked (retireStep t.sh t.w)).left .head ≤ 6 := by
    simp only [pcRank]
    split <;> omega
  unfold Tx.variant
  rw [hpc', hpc]
  show _ < 6 * t.left + 1
  omega

/-- The worker gets on: to the goal, or to where it has less to do. -/
theorem Tx.gets_on (hn : n ∣ 2 ^ 16) (hlt : n < 2 ^ 16) (hi : t.Inv n base) :
    ∃ t', Repeats (txStep n) .worker t t' ∧ t'.Inv n base ∧ t'.posted = t.posted ∧
      (t'.Drained ∨ t'.variant < t.variant) := by
  have hpos : 0 < n := Nat.pos_of_dvd_of_pos hn (by decide)
  have hat := hi.pc
  have hle : t.retired.length ≤ t.posted.length := hi.ledger.processed
  have hmove : ∀ r, workerStep t.sh t.w = some r → t.w.pc ≠ .publish →
      Repeats (txStep n) .worker t (t.worked r) := fun r hr hpc => .single (txStep_worker_eq hr hpc)
  cases hpc : t.w.pc with
  | head =>
    refine ⟨_, hmove _ (by unfold workerStep; rw [hpc]) (by rw [hpc]; exact nofun),
      hi.head hlt hpc, rfl, .inr (hi.head_less hlt hpc)⟩
  | fetch =>
    refine ⟨_, hmove _ (by unfold workerStep; rw [hpc]) (by rw [hpc]; exact nofun),
      hi.fetch hn hpc, rfl, .inr (hi.fetch_less hpos hpc)⟩
  | walk =>
    rw [hpc] at hat
    obtain ⟨-, fuel, done, rest, -, hrest, -⟩ := hat
    obtain ⟨t', hreach, hi', hpc', hposted, hretired⟩ := Tx.walk_ends hi hpc hrest
    refine ⟨t', hreach, hi', hposted, .inr ?_⟩
    exact Tx.variant_lt .walk .retire hpc hpc' hposted hretired (by simp [pcRank])
  | retire =>
    refine ⟨_, hmove _ (by unfold workerStep; rw [hpc]) (by rw [hpc]; exact nofun),
      hi.retire hpc, rfl, .inr (hi.retire_less hpc)⟩
  | publish =>
    have hstep : txStep n t .worker = some (t.published n) := by
      dsimp only [txStep]
      unfold workerStep
      rw [hpc]
      exact congrArg some (if_pos rfl)
    refine ⟨_, .single hstep, hi.publish hn hlt hpc, rfl, ?_⟩
    by_cases hall : t.retired.length = t.posted.length
    · exact .inl (Tx.drained_of_publish hi hn hlt hall)
    · -- the guest has posted since the worker last looked
      right
      have hretired : (t.published n).retired = t.retired :=
        congrArg Ledger.retired (Tx.ledger_publish (n := n) hi.used)
      have hsome : t.left ≠ 0 := by
        unfold Tx.left
        omega
      exact Tx.variant_lt .publish .head hpc rfl rfl hretired (by simp [pcRank, hsome])
  | halted e =>
    rw [hpc] at hat
    exact hat.elim

/-- The worker alone returns everything posted. -/
theorem Tx.drains (hn : n ∣ 2 ^ 16) (hlt : n < 2 ^ 16) (hi : t.Inv n base) :
    ∃ t', Repeats (txStep n) .worker t t' ∧ t'.Inv n base ∧ t'.posted = t.posted ∧ t'.Drained := by
  obtain ⟨t', hreach, ⟨hi', hposted⟩, hdrained⟩ :=
    Transition.repeats_until (I := fun u => u.Inv n base ∧ u.posted = t.posted) (G := Tx.Drained)
      Tx.variant (fun u hu _ => by
        obtain ⟨u', hreach, hi', hposted, hon⟩ := Tx.gets_on hn hlt hu.1
        exact ⟨u', hreach, ⟨hi', hposted.trans hu.2⟩, hon⟩) ⟨hi, rfl⟩
  exact ⟨t', hreach, hi', hposted, hdrained⟩

end Drain

/-! ## The process -/

section Process
variable {n base : Nat} {s : Served} {w : Worker}

/-- What the worker can do to the queue, it can do inside the process. -/
theorem Served.worker_moves (hw : s.srv.workers = [w]) (hdead : s.srv.dead = false) {t' : Tx}
    (ht : txStep n (s.tx w) .worker = some t') :
    ∃ s', servedStep n s (.queue .worker) = some s' ∧ s'.srv.workers = [t'.w] ∧ s'.tx t'.w = t' := by
  obtain ⟨r, hr, -⟩ := Option.map_eq_some_iff.mp ht
  obtain ⟨hsh, hwk⟩ := txStep_worker hr ht
  have hstep : step s.srv (.worker 0) = some { s.srv with sh := r.1, workers := [r.2] } := by
    dsimp only [step]
    rw [if_neg (by rw [hdead]; exact nofun), hw]
    have hr' : workerStep s.srv.sh w = some r := hr
    simp [hr']
  refine ⟨⟨{ s.srv with sh := r.1, workers := [r.2] }, t'.slotWritten, t'.posted, t'.returned⟩,
    ?_, ?_, ?_⟩
  · dsimp only [servedStep]
    rw [queue_eq hw, Option.bind_some, ht, Option.bind_some]
    show (step s.srv (.worker 0)).map _ = _
    rw [hstep]
    rfl
  · rw [hwk]
  · rw [hwk]
    unfold Served.tx
    rw [← hsh, ← hwk]

/-- A run of the worker on the queue is one of the process. -/
theorem Served.worker_runs (hn : n ∣ 2 ^ 16) (hlt : n < 2 ^ 16) {k : Nat} {t' : Tx}
    (hok : s.Ok n base) (hw : s.srv.workers = [w])
    (ht : Transition.run (txStep n) (s.tx w) (List.replicate k .worker) = some t') :
    ∃ s', Transition.run (servedStep n) s (List.replicate k (.queue .worker)) = some s' ∧
      s'.srv.workers = [t'.w] ∧ s'.tx t'.w = t' := by
  induction k generalizing s w with
  | zero =>
    cases ht
    exact ⟨s, rfl, hw, rfl⟩
  | succ k ih =>
    rw [List.replicate_succ] at ht ⊢
    obtain ⟨u, hu, ht⟩ := Transition.run_cons_some ht
    obtain ⟨s₁, hs₁, hw₁, htx₁⟩ := Served.worker_moves hw hok.alive hu
    rw [← htx₁] at ht
    have hfree : Undisturbed s (.queue .worker) := trivial
    have hok₁ : s₁.Ok n base := servedStep_ok hn hlt hok hfree hs₁
    obtain ⟨s', hs', hw', htx⟩ := ih hok₁ hw₁ ht
    refine ⟨s', ?_, hw', htx⟩
    rw [Transition.run_cons, hs₁]
    exact hs'

/-- From every state in which the one worker serves the queue, it returns everything posted if it
is left alone. -/
theorem Served.Ok.drains (hn : n ∣ 2 ^ 16) (hlt : n < 2 ^ 16) (hok : s.Ok n base) :
    ∃ j s', Transition.run (servedStep n) s (List.replicate j (.queue .worker)) = some s' ∧
      s'.posted = s.posted ∧ s'.returned = s.posted.map (fun h => entry h.toUInt32) := by
  obtain ⟨w, hw, hi⟩ := hok
  obtain ⟨t', ⟨j, hreach⟩, -, hposted, hdrained⟩ := Tx.drains hn hlt hi
  obtain ⟨s', hs', -, htx⟩ := Served.worker_runs hn hlt ⟨w, hw, hi⟩ hw hreach
  have hp : s'.posted = s.posted := (congrArg Tx.posted htx).trans hposted
  refine ⟨j, s', hs', hp, ?_⟩
  have hr : s'.returned = t'.returned := congrArg Tx.returned htx
  rw [hr, hdrained.2, hposted]
  rfl

end Process

end VirtioBench.Bkend
