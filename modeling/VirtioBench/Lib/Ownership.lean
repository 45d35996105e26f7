import VirtioBench.Lib.Run
import Mathlib.Data.Finset.Basic
import Mathlib.Data.Finset.Lattice.Lemmas
import Mathlib.Data.List.Count

/- Owned references. A program acquires, uses and releases references; `hold` follows the
   references it holds through a list of such events and stops at the first that is not
   allowed: a use or a release of a reference that is not held, or an acquisition of one
   that is. So a list that `hold` gets through has no double release and no use after a
   release, and what is left is what has not been released (`hold_count`).

   A failure is not repaired by what follows (`hold_prefix`, `hold_append_none`);
   `hold_acquires` and `hold_uses` are for several references in a row. -/
namespace Ownership

variable {ρ : Type} [DecidableEq ρ]

inductive Event (ρ : Type) where
  | acquire (r : ρ)
  | use (r : ρ)
  | release (r : ρ)
  deriving DecidableEq, Repr

/-- The references held after the event. -/
def Event.apply (held : Finset ρ) : Event ρ → Option (Finset ρ)
  | .acquire r => if r ∈ held then none else some (insert r held)
  | .use r => if r ∈ held then some held else none
  | .release r => if r ∈ held then some (held.erase r) else none

def hold (es : List (Event ρ)) : Option (Finset ρ) := Transition.run Event.apply ∅ es

variable {es es' : List (Event ρ)} {held : Finset ρ} {r : ρ} {rs : List ρ}

theorem hold_append (h : hold es = some held) :
    hold (es ++ es') = Transition.run Event.apply held es' := by
  rw [hold, Transition.run_append]
  rw [hold] at h
  rw [h, Option.bind_some]

theorem hold_prefix (h : hold (es ++ es') = some held) : ∃ held', hold es = some held' :=
  Transition.run_prefix h (List.prefix_append es es')

/-- What goes wrong stays wrong. -/
theorem hold_append_none (h : hold es = none) : hold (es ++ es') = none := by
  rw [hold] at h
  rw [hold, Transition.run_append, h, Option.bind_none]

theorem hold_acquire (h : hold es = some held) (hr : r ∉ held) :
    hold (es ++ [.acquire r]) = some (insert r held) := by
  rw [hold_append h]
  simp [Event.apply, hr]

theorem hold_use (h : hold es = some held) (hr : r ∈ held) :
    hold (es ++ [.use r]) = some held := by
  rw [hold_append h]
  simp [Event.apply, hr]

theorem hold_release (h : hold es = some held) (hr : r ∈ held) :
    hold (es ++ [.release r]) = some (held.erase r) := by
  rw [hold_append h]
  simp [Event.apply, hr]

theorem hold_release_none (h : hold es = some held) (hr : r ∉ held) :
    hold (es ++ [.release r]) = none := by
  rw [hold_append h]
  simp [Event.apply, hr]

theorem hold_use_none (h : hold es = some held) (hr : r ∉ held) :
    hold (es ++ [.use r]) = none := by
  rw [hold_append h]
  simp [Event.apply, hr]

theorem hold_acquires (h : hold es = some held) (hnew : ∀ r ∈ rs, r ∉ held) (hrs : rs.Nodup) :
    hold (es ++ rs.map .acquire) = some (held ∪ rs.toFinset) := by
  induction rs generalizing es held with
  | nil => simpa using h
  | cons r rs ih =>
    obtain ⟨hr, hrs⟩ := List.nodup_cons.mp hrs
    have hfirst := hold_acquire h (hnew r List.mem_cons_self)
    have hrest : ∀ x ∈ rs, x ∉ insert r held := by
      intro x hx hmem
      rcases Finset.mem_insert.mp hmem with rfl | hmem
      · exact hr hx
      · exact hnew x (List.mem_cons_of_mem r hx) hmem
    have hall := ih hfirst hrest hrs
    rw [List.append_assoc] at hall
    rw [List.map_cons, ← List.singleton_append, hall, List.toFinset_cons, Finset.insert_union,
      Finset.union_insert]

theorem hold_uses (h : hold es = some held) (hrs : ∀ r ∈ rs, r ∈ held) :
    hold (es ++ rs.map .use) = some held := by
  induction rs generalizing es with
  | nil => simpa using h
  | cons r rs ih =>
    have hfirst := hold_use h (hrs r List.mem_cons_self)
    have hall := ih hfirst (fun x hx => hrs x (List.mem_cons_of_mem r hx))
    rw [List.append_assoc] at hall
    rw [List.map_cons, ← List.singleton_append, hall]

theorem count_apply {e : Event ρ} {before : Finset ρ} (h : e.apply before = some held) (r : ρ) :
    [e].count (.acquire r) + (if r ∈ before then 1 else 0) =
      [e].count (.release r) + if r ∈ held then 1 else 0 := by
  cases e with
  | acquire x =>
    simp only [Event.apply, Option.ite_none_left_eq_some, Option.some_inj] at h
    obtain ⟨hx, rfl⟩ := h
    by_cases hxr : x = r
    · subst hxr
      simp [hx]
    · simp [hxr, Ne.symm hxr]
  | use x =>
    simp only [Event.apply, Option.ite_none_right_eq_some, Option.some_inj] at h
    obtain ⟨-, rfl⟩ := h
    simp
  | release x =>
    simp only [Event.apply, Option.ite_none_right_eq_some, Option.some_inj] at h
    obtain ⟨hx, rfl⟩ := h
    by_cases hxr : x = r
    · subst hxr
      simp [hx]
    · simp [hxr, Ne.symm hxr]

/-- Of a reference, all acquisitions but the one that is still held have been followed by a
release. -/
theorem hold_count (h : hold es = some held) (r : ρ) :
    es.count (.acquire r) = es.count (.release r) + if r ∈ held then 1 else 0 := by
  induction es using List.reverseRecOn generalizing held with
  | nil =>
    cases h
    simp
  | append_singleton es e ih =>
    obtain ⟨before, hbefore⟩ := hold_prefix h
    rw [hold_append hbefore, Transition.run_cons, Option.bind_eq_some_iff] at h
    obtain ⟨after, hafter, hend⟩ := h
    cases hend
    have hcount := ih hbefore
    have hstep := count_apply hafter r
    rw [List.count_append, List.count_append]
    omega

end Ownership
