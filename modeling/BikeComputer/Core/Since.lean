import BikeComputer.Core.Run

/-!
# Properties of the past

`Since p q` says of a history that `p` has happened and that `q` has not happened
after it. What makes an element count as `p` may depend on the history before it. An
element added at the end decides the question or leaves the answer as it was.
-/

namespace Transition

variable {α : Type*} {p : List α → α → Prop} {q : α → Prop}

/-- `p` has happened, and `q` has not happened since then. -/
def Since (p : List α → α → Prop) (q : α → Prop) (l : List α) : Prop :=
  ∃ pre a post, l = pre ++ a :: post ∧ p pre a ∧ ∀ b ∈ post, ¬ q b

/-- Nothing has happened in an empty history. -/
theorem not_since_nil : ¬ Since p q [] := by
  rintro ⟨pre, a, post, he, -⟩
  simp at he

/-- The last element decides, or leaves the answer as it was. -/
theorem since_snoc {l : List α} {a : α} : Since p q (l ++ [a]) ↔ p l a ∨ ¬ q a ∧ Since p q l := by
  constructor
  · rintro ⟨pre, b, post, he, hp, hq⟩
    rcases snoc_eq_append_cons.mp he with ⟨rfl, rfl, rfl⟩ | ⟨post', rfl, rfl⟩
    · exact Or.inl hp
    · exact Or.inr ⟨hq a (by simp), pre, b, post', rfl, hp, fun c hc => hq c (by simp [hc])⟩
  · rintro (hp | ⟨ha, pre, b, post, rfl, hp, hq⟩)
    · exact ⟨l, a, [], rfl, hp, by simp⟩
    · refine ⟨pre, b, post ++ [a], by simp, hp, ?_⟩
      intro c hc
      rcases List.mem_append.mp hc with hc | hc
      · exact hq c hc
      · obtain rfl := List.mem_singleton.mp hc
        exact ha

/-- An element that is not `q` keeps the answer. -/
theorem Since.snoc {l : List α} {a : α} (h : Since p q l) (ha : ¬ q a) : Since p q (l ++ [a]) :=
  since_snoc.mpr (Or.inr ⟨ha, h⟩)

end Transition
