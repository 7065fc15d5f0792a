import Mathlib.Data.List.Basic

/-!
# Interleavings of two lists

An interleaving is a list of elements of two kinds whose projections are the two given
lists, so each list keeps its own order. If an operation of the first kind can always
change places with one of the second, all interleavings have the same effect.
-/

variable {α β σ : Type*}

/-- The elements of both lists, each list in its own order. -/
structure Interleaving (as : List α) (bs : List β) where
  merged : List (α ⊕ β)
  left_eq : merged.filterMap Sum.getLeft? = as
  right_eq : merged.filterMap Sum.getRight? = bs
  deriving DecidableEq

namespace Interleaving

section Effect

variable {f : σ → α → σ} {g : σ → β → σ} (hcomm : ∀ s a b, g (f s a) b = f (g s b) a)
include hcomm

/-- One operation of the second kind changes places with a list of the first. -/
theorem foldl_comm (s : σ) (as : List α) (b : β) :
    g (as.foldl f s) b = as.foldl f (g s b) := by
  induction as generalizing s with
  | nil => rfl
  | cons a as ih => rw [List.foldl_cons, ih, hcomm, List.foldl_cons]

/-- Every merged list has the effect of its first projection followed by its second. -/
theorem foldl_merge (s : σ) (l : List (α ⊕ β)) :
    l.foldl (fun s => Sum.elim (f s) (g s)) s =
      (l.filterMap Sum.getRight?).foldl g ((l.filterMap Sum.getLeft?).foldl f s) := by
  induction l generalizing s with
  | nil => rfl
  | cons x l ih =>
    cases x with
    | inl a => exact ih (f s a)
    | inr b =>
      have hright : (Sum.inr b :: l).filterMap Sum.getRight? = b :: l.filterMap Sum.getRight? :=
        rfl
      have hleft : (Sum.inr b :: l).filterMap Sum.getLeft? = l.filterMap Sum.getLeft? := rfl
      rw [hright, hleft, List.foldl_cons, List.foldl_cons, foldl_comm hcomm]
      exact ih (g s b)

/-- Two interleavings of the same lists have the same effect. -/
theorem foldl_eq {as : List α} {bs : List β} (x y : Interleaving as bs) (s : σ) :
    x.merged.foldl (fun s => Sum.elim (f s) (g s)) s =
      y.merged.foldl (fun s => Sum.elim (f s) (g s)) s := by
  rw [foldl_merge hcomm, foldl_merge hcomm, x.left_eq, x.right_eq, y.left_eq, y.right_eq]

end Effect

end Interleaving
