import Mathlib.Data.List.Basic

/- Searching a list for its first match. Where no two entries match, the position of
   an entry makes no difference: the search finds the entry that matches, wherever it
   stands. -/
namespace FirstMatch

variable {α β : Type} {l : List α} {a : α}

/-- At most one entry has a result, so the search returns it. -/
theorem findSome?_of_mem {f : α → Option β} {b : β}
    (h : l.Pairwise (fun x y => f x = none ∨ f y = none)) (ha : a ∈ l) (hb : f a = some b) :
    l.findSome? f = some b := by
  induction l with
  | nil => cases ha
  | cons x xs ih =>
    obtain ⟨hx, hxs⟩ := List.pairwise_cons.mp h
    rw [List.findSome?_cons]
    rcases List.mem_cons.mp ha with rfl | ha
    · rw [hb]
    · have hnone : f x = none := by
        rcases hx a ha with hx | ha'
        · exact hx
        · rw [hb] at ha'
          cases ha'
      rw [hnone]
      exact ih hxs ha

theorem find?_of_mem {p : α → Bool} (h : l.Pairwise (fun x y => p x = true → ¬ p y = true))
    (ha : a ∈ l) (hp : p a = true) : l.find? p = some a := by
  rw [List.find?_eq_findSome?_guard]
  refine findSome?_of_mem (h.imp ?_) ha (by simp [hp])
  intro x y hxy
  by_cases hx : p x = true
  · exact .inr (by simp [hxy hx])
  · exact .inl (by simp [hx])

end FirstMatch
