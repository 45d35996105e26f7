import Mathlib.Data.List.Induction

/- Runs of a guarded transition function. A system is a function
   `step : σ → α → Option σ`: the action names who moves and what the
   environment answers, and `none` says the action is not possible in that
   state. A run is a list of actions, so a run can be evaluated on a concrete
   input and reasoned about by induction on the list.

   `run_invariant` is the invariant rule. `Meets step C s as` says that every
   step of the run `as` from `s` meets the condition `C` on the state before it
   and the action taken; `meets_invariant` is the invariant rule for such runs,
   and `meets_of_unspoiled` (`meets_of_good`) its converse: a run that ends without a
   stable defect has met the condition that keeps the defect out. `always_iff_meets` is
   for a property of every state on the way, which may look at the actions so far:
   it holds all along exactly if the steps meet the condition that keeps it. `Repeats` is
   for progress: one party moves alone, and `repeats_until` is the variant rule;
   `run_potential` bounds the moves of one party in every interleaving by a potential that each
   of them pays for and no other move adds to. -/
namespace Transition

variable {σ α : Type}

/-- The state after the actions `as`, or `none` if one of them is not possible. -/
def run (step : σ → α → Option σ) (s : σ) (as : List α) : Option σ := as.foldlM step s

variable {step : σ → α → Option σ}

@[simp] theorem run_nil (s : σ) : run step s [] = some s := rfl

@[simp] theorem run_cons (s : σ) (a : α) (as : List α) :
    run step s (a :: as) = (step s a).bind (fun s' => run step s' as) := rfl

theorem run_append (s : σ) (as bs : List α) :
    run step s (as ++ bs) = (run step s as).bind (fun s' => run step s' bs) := by
  induction as generalizing s with
  | nil => rfl
  | cons a as ih =>
    simp only [List.cons_append, run_cons]
    cases step s a with
    | none => rfl
    | some s' => exact ih s'

/-- The two halves of a run whose first action succeeds. -/
theorem run_cons_some {s s' : σ} {a : α} {as : List α} (h : run step s (a :: as) = some s') :
    ∃ t, step s a = some t ∧ run step t as = some s' := by
  rw [run_cons] at h
  exact Option.bind_eq_some_iff.mp h

/-- A property every step keeps is kept by every run. -/
theorem run_invariant {I : σ → Prop} (hI : ∀ s a s', I s → step s a = some s' → I s')
    {s s' : σ} {as : List α} (hs : I s) (hr : run step s as = some s') : I s' := by
  induction as generalizing s with
  | nil => cases hr; exact hs
  | cons a as ih =>
    obtain ⟨t, ht, hr⟩ := run_cons_some hr
    exact ih (hI s a t hs ht) hr

/-- Under an invariant that only lets `P`-actions happen, a run takes only such. -/
theorem run_actions {I : σ → Prop} {P : α → Prop}
    (hI : ∀ s a s', I s → step s a = some s' → I s')
    (hP : ∀ s a s', I s → step s a = some s' → P a)
    {s s' : σ} {as : List α} (hs : I s) (hr : run step s as = some s') : ∀ a ∈ as, P a := by
  induction as generalizing s with
  | nil => intro a ha; cases ha
  | cons b bs ih =>
    obtain ⟨t, ht, hr⟩ := run_cons_some hr
    intro a ha
    rcases List.mem_cons.mp ha with rfl | ha
    · exact hP s a t hs ht
    · exact ih (hI s b t hs ht) hr a ha

/-- Every step of the run `as` from `s` meets `C`. -/
def Meets (step : σ → α → Option σ) (C : σ → α → Prop) : σ → List α → Prop
  | _, [] => True
  | s, a :: as => C s a ∧ ∀ s', step s a = some s' → Meets step C s' as

/-- A run is checked by running it. -/
instance Meets.decidable (step : σ → α → Option σ) (C : σ → α → Prop)
    [∀ s a, Decidable (C s a)] : ∀ s as, Decidable (Meets step C s as)
  | _, [] => isTrue trivial
  | s, a :: as =>
    match h : step s a with
    | none => decidable_of_iff (C s a)
        ⟨fun hc => ⟨hc, fun s' hs' => by rw [h] at hs'; cases hs'⟩, fun hm => hm.1⟩
    | some t =>
      have := Meets.decidable step C t as
      decidable_of_iff (C s a ∧ Meets step C t as)
        ⟨fun hm => ⟨hm.1, fun s' hs' => by rw [h] at hs'; cases hs'; exact hm.2⟩,
          fun hm => ⟨hm.1, hm.2 t h⟩⟩

/-- A condition on the actions alone can be added to what the steps meet. -/
theorem Meets.and_actions {C : σ → α → Prop} {P : α → Prop} {s : σ} {as : List α}
    (hm : Meets step C s as) (hP : ∀ a ∈ as, P a) :
    Meets step (fun s a => C s a ∧ P a) s as := by
  induction as generalizing s with
  | nil => trivial
  | cons a as ih =>
    refine ⟨⟨hm.1, hP a List.mem_cons_self⟩, fun s' hs' => ?_⟩
    exact ih (hm.2 s' hs') (fun b hb => hP b (List.mem_cons_of_mem a hb))

theorem meets_of_actions {P : α → Prop} {s : σ} {as : List α} (hP : ∀ a ∈ as, P a) :
    Meets step (fun _ a => P a) s as := by
  induction as generalizing s with
  | nil => trivial
  | cons a as ih =>
    exact ⟨hP a List.mem_cons_self, fun s' _ => ih (fun b hb => hP b (List.mem_cons_of_mem a hb))⟩

/-- A property kept by every step that meets `C` is kept by every run whose
steps all meet it. -/
theorem meets_invariant {I : σ → Prop} {C : σ → α → Prop}
    (hI : ∀ s a s', I s → C s a → step s a = some s' → I s')
    {s s' : σ} {as : List α} (hs : I s) (hm : Meets step C s as)
    (hr : run step s as = some s') : I s' := by
  induction as generalizing s with
  | nil => cases hr; exact hs
  | cons a as ih =>
    obtain ⟨t, ht, hr⟩ := run_cons_some hr
    exact ih (hI s a t hs hm.1 ht) (hm.2 t ht) hr

/-- If a step that fails `C` spoils the state (`D`) and no step repairs it, a
run that ends unspoiled has met `C` throughout. -/
theorem meets_of_unspoiled {I D : σ → Prop} {C : σ → α → Prop}
    (hI : ∀ s a s', I s → step s a = some s' → I s')
    (hspoil : ∀ s a s', I s → step s a = some s' → ¬ C s a → D s')
    (hstay : ∀ s a s', I s → D s → step s a = some s' → D s')
    {s s' : σ} {as : List α} (hs : I s) (hr : run step s as = some s') (hd : ¬ D s') :
    Meets step C s as := by
  induction as generalizing s with
  | nil => trivial
  | cons a as ih =>
    obtain ⟨t, ht, hr⟩ := run_cons_some hr
    have hrun : ∀ u, step s a = some u → u = t := by
      intro u hu
      rw [hu] at ht
      exact Option.some.inj ht
    refine ⟨?_, ?_⟩
    · by_contra hC
      apply hd
      have hspoiled : I t ∧ D t := ⟨hI s a t hs ht, hspoil s a t hs ht hC⟩
      have hkeep : ∀ u b u', I u ∧ D u → step u b = some u' → I u' ∧ D u' :=
        fun u b u' hu hb => ⟨hI u b u' hu.1 hb, hstay u b u' hu.1 hu.2 hb⟩
      exact (run_invariant hkeep hspoiled hr).2
    · intro u hu
      rw [hrun u hu]
      exact ih (hI s a t hs ht) hr

/-- The same where the states that are not spoiled are known: `G` is kept by the steps that meet
`C` and lost by the others. -/
theorem meets_of_good {G D : σ → Prop} {C : σ → α → Prop}
    (hkeep : ∀ s a s', G s → C s a → step s a = some s' → G s')
    (hspoil : ∀ s a s', G s → ¬ C s a → step s a = some s' → D s')
    (hstay : ∀ s a s', D s → step s a = some s' → D s')
    {s s' : σ} {as : List α} (hs : G s) (hr : run step s as = some s') (hd : ¬ D s') :
    Meets step C s as := by
  refine meets_of_unspoiled (I := fun s => G s ∨ D s) ?_ ?_ ?_ (.inl hs) hr hd
  · intro t a t' ht h
    rcases ht with hg | hbad
    · by_cases hC : C t a
      · exact .inl (hkeep t a t' hg hC h)
      · exact .inr (hspoil t a t' hg hC h)
    · exact .inr (hstay t a t' hbad h)
  · intro t a t' ht h hC
    rcases ht with hg | hbad
    · exact hspoil t a t' hg hC h
    · exact hstay t a t' hbad h
  · exact fun t a t' _ hbad h => hstay t a t' hbad h

theorem run_snoc (s : σ) (as : List α) (a : α) :
    run step s (as ++ [a]) = (run step s as).bind (fun t => step t a) := by
  rw [run_append]
  cases run step s as with
  | none => rfl
  | some t => simp [Option.bind_some]

/-- The run from the inside out, as it is evaluated. -/
theorem run_eq_foldl (s : σ) (as : List α) :
    run step s as = as.foldl (fun o a => o.bind (fun t => step t a)) (some s) := by
  induction as using List.reverseRecOn with
  | nil => rfl
  | append_singleton as a ih =>
    rw [run_snoc, ih, List.foldl_append]
    rfl

theorem run_snoc_some {s u : σ} {as : List α} {a : α} (h : run step s (as ++ [a]) = some u) :
    ∃ t, run step s as = some t ∧ step t a = some u := by
  rw [run_snoc] at h
  exact Option.bind_eq_some_iff.mp h

theorem meets_snoc {C : σ → α → Prop} {s : σ} {as : List α} {a : α} :
    Meets step C s (as ++ [a]) ↔ Meets step C s as ∧ ∀ t, run step s as = some t → C t a := by
  induction as generalizing s with
  | nil => simp [Meets]
  | cons b bs ih =>
    simp only [List.cons_append, Meets, ih, run_cons, Option.bind_eq_some_iff]
    constructor
    · rintro ⟨hb, hrest⟩
      exact ⟨⟨hb, fun t ht => (hrest t ht).1⟩, fun u ⟨t, ht, hu⟩ => (hrest t ht).2 u hu⟩
    · rintro ⟨⟨hb, hrest⟩, hlast⟩
      exact ⟨hb, fun t ht => ⟨hrest t ht, fun u hu => hlast u ⟨t, ht, hu⟩⟩⟩

/-- The condition is met at every action of the run that is reached. -/
theorem meets_iff {C : σ → α → Prop} {s : σ} {as : List α} :
    Meets step C s as ↔ ∀ bs a t, bs ++ [a] <+: as → run step s bs = some t → C t a := by
  induction as using List.reverseRecOn with
  | nil => simp [Meets]
  | append_singleton as a ih =>
    rw [meets_snoc, ih]
    constructor
    · rintro ⟨hall, hlast⟩ bs b t hbs ht
      rcases List.prefix_concat_iff.mp hbs with heq | hbs
      · obtain ⟨rfl, hba⟩ := List.append_inj' heq rfl
        cases hba
        exact hlast t ht
      · exact hall bs b t hbs ht
    · intro hall
      refine ⟨fun bs b t hbs => hall bs b t (hbs.trans (List.prefix_append as [a])), ?_⟩
      exact fun t ht => hall as a t List.prefix_rfl ht

theorem Meets.of_prefix {C : σ → α → Prop} {s : σ} {as bs : List α} (hm : Meets step C s as)
    (hbs : bs <+: as) : Meets step C s bs :=
  meets_iff.mpr (fun cs a t hcs => meets_iff.mp hm cs a t (hcs.trans hbs))

/-- Every part of a run that gets to its end runs. -/
theorem run_prefix {s s' : σ} {as bs : List α} (hr : run step s as = some s') (hbs : bs <+: as) :
    ∃ t, run step s bs = some t := by
  obtain ⟨cs, rfl⟩ := hbs
  rw [run_append] at hr
  obtain ⟨t, ht, -⟩ := Option.bind_eq_some_iff.mp hr
  exact ⟨t, ht⟩

/-- Under an invariant, conditions that agree are met by the same runs. -/
theorem meets_congr {I : σ → Prop} {C C' : σ → α → Prop}
    (hI : ∀ s a s', I s → step s a = some s' → I s') (hC : ∀ s a, I s → (C s a ↔ C' s a))
    {s : σ} {as : List α} (hs : I s) : Meets step C s as ↔ Meets step C' s as := by
  induction as generalizing s with
  | nil => exact Iff.rfl
  | cons a as ih =>
    simp only [Meets, hC s a hs]
    exact and_congr_right (fun _ => forall₂_congr (fun t ht => ih (hI s a t hs ht)))

/-- If, from a state with `P`, a step leads to one exactly if it meets `C`, then
`P` holds all along a run exactly if every step meets `C`. -/
theorem always_iff_meets {P : List α → σ → Prop} {C : σ → α → Prop} {s : σ} (h0 : P [] s)
    (hstep : ∀ as t a t', run step s as = some t → P as t → step t a = some t' →
      (P (as ++ [a]) t' ↔ C t a))
    {as : List α} {u : σ} (hr : run step s as = some u) :
    (∀ bs t, bs <+: as → run step s bs = some t → P bs t) ↔ Meets step C s as := by
  induction as using List.reverseRecOn generalizing u with
  | nil =>
    refine iff_of_true ?_ trivial
    intro bs t hbs ht
    obtain rfl := List.prefix_nil.mp hbs
    cases ht
    exact h0
  | append_singleton as a ih =>
    obtain ⟨t, ht, hu⟩ := run_snoc_some hr
    have hlast : ∀ t', run step s as = some t' → t' = t := by
      intro t' ht'
      rw [ht] at ht'
      exact (Option.some.inj ht').symm
    rw [meets_snoc, ← ih ht]
    constructor
    · intro hall
      refine ⟨fun bs t' hbs => hall bs t' (hbs.trans (List.prefix_append as [a])), ?_⟩
      intro t' ht'
      rw [hlast t' ht']
      have hP : P as t := hall as t (List.prefix_append as [a]) ht
      exact (hstep as t a u ht hP hu).mp (hall _ u List.prefix_rfl hr)
    · rintro ⟨hall, hC⟩ bs t' hbs ht'
      rcases List.prefix_concat_iff.mp hbs with rfl | hbs
      · rw [hr] at ht'
        cases ht'
        exact (hstep as t a u ht (hall as t List.prefix_rfl ht) hu).mpr (hC t ht)
      · exact hall bs t' hbs ht'

/-- `s'` comes from `s` by the action `a` again and again. -/
def Repeats (step : σ → α → Option σ) (a : α) (s s' : σ) : Prop :=
  ∃ k, run step s (List.replicate k a) = some s'

theorem Repeats.refl (a : α) (s : σ) : Repeats step a s s := ⟨0, rfl⟩

theorem Repeats.head {a : α} {s t u : σ} (h : step s a = some t) (hr : Repeats step a t u) :
    Repeats step a s u := by
  obtain ⟨k, hk⟩ := hr
  refine ⟨k + 1, ?_⟩
  rw [List.replicate_succ, run_cons, h]
  exact hk

theorem Repeats.single {a : α} {s t : σ} (h : step s a = some t) : Repeats step a s t :=
  .head h (.refl a t)

theorem Repeats.trans {a : α} {s t u : σ} (h : Repeats step a s t) (hr : Repeats step a t u) :
    Repeats step a s u := by
  obtain ⟨j, hj⟩ := h
  obtain ⟨k, hk⟩ := hr
  refine ⟨j + k, ?_⟩
  rw [← List.replicate_append_replicate, run_append, hj]
  exact hk

/-- If from every state with `I` that is not a goal the party gets on, to a goal or to one
where the variant `μ` is less, it gets to a goal. -/
theorem repeats_until {I G : σ → Prop} {a : α} (μ : σ → Nat)
    (h : ∀ s, I s → ¬ G s → ∃ s', Repeats step a s s' ∧ I s' ∧ (G s' ∨ μ s' < μ s))
    {s : σ} (hs : I s) : ∃ s', Repeats step a s s' ∧ I s' ∧ G s' := by
  induction hμ : μ s using Nat.strongRecOn generalizing s with
  | ind k ih =>
    by_cases hg : G s
    · exact ⟨s, .refl a s, hs, hg⟩
    · obtain ⟨t, hst, ht, hgoal | hless⟩ := h s hs hg
      · exact ⟨t, hst, ht, hgoal⟩
      · obtain ⟨u, htu, hu, hgu⟩ := ih (μ t) (hμ ▸ hless) ht rfl
        exact ⟨u, hst.trans htu, hu, hgu⟩

/-- If every `p`-action pays one unit of the potential `Φ` and no other action adds to it, a run
has at most as many `p`-actions as it has used up of the potential. -/
theorem run_potential {I : σ → Prop} (Φ : σ → Nat) (p : α → Bool)
    (hI : ∀ s a s', I s → step s a = some s' → I s')
    (hΦ : ∀ s a s', I s → step s a = some s' → Φ s' + (if p a then 1 else 0) ≤ Φ s)
    {s s' : σ} {as : List α} (hs : I s) (hr : run step s as = some s') :
    as.countP p + Φ s' ≤ Φ s := by
  induction as generalizing s with
  | nil =>
    cases hr
    simp
  | cons a as ih =>
    obtain ⟨t, ht, hr⟩ := run_cons_some hr
    have hpay := hΦ s a t hs ht
    have hrest := ih (hI s a t hs ht) hr
    rw [List.countP_cons]
    omega

end Transition
