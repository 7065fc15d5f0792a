import Mathlib.Data.List.Chain

/-!
# Mirroring a value through a queue

A producer posts every new value of a variable to a queue, and a consumer copies
the values it takes from the front. The copy followed by the pending values is then
a chain of single changes that ends at the variable, so a drained queue means that
both agree.
-/

namespace Mirror

variable {α : Type*}

/-- The consumer's copy and the pending values lead to the producer's value. -/
structure InStep (r : α → α → Prop) (copy : α) (pending : List α) (value : α) : Prop where
  chain : (copy :: pending).IsChain r
  last : (copy :: pending).getLast (List.cons_ne_nil copy pending) = value

variable {r : α → α → Prop} {copy value x : α} {pending : List α}

/-- With nothing pending, both sides have the same value. -/
theorem inStep_nil : InStep r copy [] value ↔ copy = value :=
  ⟨fun h => h.last, fun h => ⟨List.isChain_singleton copy, h⟩⟩

/-- A change is posted behind the pending ones. -/
theorem InStep.post (h : InStep r copy pending value) (hx : r value x) :
    InStep r copy (pending ++ [x]) x := by
  refine ⟨?_, by simp⟩
  rw [← List.cons_append, List.isChain_append]
  refine ⟨h.chain, List.isChain_singleton x, ?_⟩
  intro y hy z hz
  have hlast := h.last
  rw [List.getLast?_eq_some_getLast (List.cons_ne_nil copy pending), hlast] at hy
  obtain rfl := Option.mem_some_iff.mp hy
  obtain rfl := Option.mem_some_iff.mp hz
  exact hx

/-- The front value becomes the copy. -/
theorem InStep.take (h : InStep r copy (x :: pending) value) : InStep r x pending value :=
  ⟨(List.isChain_cons_cons.mp h.chain).2, h.last⟩

end Mirror
