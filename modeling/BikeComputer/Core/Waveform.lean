import Mathlib.Order.Lattice
import Mathlib.Data.List.Pairwise

/-!
# Two-level signals

A signal is given by the instants at which it changes its level. The functions take the
level before the first change, so that the rest of a signal is again one. An edge handler
is called at every change of its kind.
-/

namespace Waveform

/-- The two edges of a signal. -/
inductive Edge where
  | rise
  | fall
  deriving DecidableEq, Repr

/-- The edge at which a signal leaves a level. -/
def Edge.leaving : Bool → Edge
  | true => .fall
  | false => .rise

/-- The two levels are left by different edges. -/
theorem Edge.leaving_inj {x y : Bool} : leaving x = leaving y ↔ x = y := by
  cases x <;> cases y <;> decide

variable {T : Type*} {edge : Edge} {high : Bool} {c b t u e : T} {cs : List T}

/-- The instants at which the handler of an edge is called. -/
def edges (edge : Edge) (high : Bool) : List T → List T
  | [] => []
  | c :: cs => (if edge = .leaving high then [c] else []) ++ edges edge (!high) cs

/-- An edge of the waveform is its first change or comes later. -/
theorem mem_edges_cons : e ∈ edges edge high (c :: cs) ↔
    (edge = .leaving high ∧ e = c) ∨ e ∈ edges edge (!high) cs := by
  rw [edges, List.mem_append]
  by_cases h : edge = .leaving high <;> simp [h]

/-- The edges of a waveform are changes of it. -/
theorem mem_of_mem_edges (h : e ∈ edges edge high cs) : e ∈ cs := by
  induction cs generalizing high with
  | nil => simp [edges] at h
  | cons c cs ih =>
    rcases mem_edges_cons.mp h with ⟨-, rfl⟩ | h
    · exact List.mem_cons_self
    · exact List.mem_cons_of_mem c (ih h)

/-- Every change leaves one of the two levels. -/
theorem mem_edges_or (h : e ∈ cs) (x : Bool) :
    e ∈ edges (.leaving x) high cs ∨ e ∈ edges (.leaving (!x)) high cs := by
  induction cs generalizing high with
  | nil => simp at h
  | cons c cs ih =>
    simp only [mem_edges_cons, Edge.leaving_inj]
    rcases List.mem_cons.mp h with rfl | h
    · cases x <;> cases high <;> simp
    · exact (ih h).imp Or.inr Or.inr

variable [LinearOrder T]

/-- The level at an instant; a change is in force from its own instant on. -/
def level (high : Bool) : List T → T → Bool
  | [], _ => high
  | c :: cs, t => if t < c then high else level (!high) cs t

/-- The last change up to an instant. -/
def lastChange : List T → T → Option T
  | [], _ => none
  | c :: cs, t => if t < c then none else some ((lastChange cs t).getD c)

/-- Before its first change a signal has its first level. -/
theorem level_of_forall_lt (h : ∀ c ∈ cs, t < c) : level high cs t = high := by
  cases cs with
  | nil => rfl
  | cons c cs => rw [level, if_pos (h c List.mem_cons_self)]

/-- A signal whose level is another one later has left its level in between. -/
theorem exists_edge (h : level high cs t ≠ level high cs u) (htu : t ≤ u) :
    ∃ e ∈ edges (.leaving (level high cs t)) high cs, t < e ∧ e ≤ u := by
  induction cs generalizing high with
  | nil => exact absurd rfl h
  | cons c cs ih =>
    rw [level, level] at h
    rw [level]
    by_cases htc : t < c
    · rw [if_pos htc] at h ⊢
      by_cases huc : u < c
      · rw [if_pos huc] at h
        exact absurd rfl h
      · exact ⟨c, mem_edges_cons.mpr (Or.inl ⟨rfl, rfl⟩), htc, not_lt.mp huc⟩
    · have huc : ¬ u < c := fun huc => htc (htu.trans_lt huc)
      rw [if_neg htc, if_neg huc] at h
      rw [if_neg htc]
      obtain ⟨e, he, hlt, hle⟩ := ih h
      exact ⟨e, mem_edges_cons.mpr (Or.inr he), hlt, hle⟩

/-- From an edge on, the signal is at the other level. -/
theorem level_of_edge {x : Bool} (hsorted : cs.Pairwise (· < ·))
    (he : e ∈ edges (.leaving x) high cs) : level high cs e = !x := by
  induction cs generalizing high with
  | nil => simp [edges] at he
  | cons c cs ih =>
    obtain ⟨hc, hcs⟩ := List.pairwise_cons.mp hsorted
    rw [level]
    rcases mem_edges_cons.mp he with ⟨hx, rfl⟩ | he
    · rw [if_neg (lt_irrefl e), level_of_forall_lt hc, Edge.leaving_inj.mp hx]
    · rw [if_neg (hc e (mem_of_mem_edges he)).not_gt]
      exact ih hcs he

/-- A signal that is not at its first level has changed. -/
theorem exists_lastChange (h : level high cs t ≠ high) : ∃ b, lastChange cs t = some b := by
  cases cs with
  | nil => exact absurd rfl h
  | cons c cs =>
    rw [level] at h
    rw [lastChange]
    split
    · rename_i htc
      rw [if_pos htc] at h
      exact absurd rfl h
    · exact ⟨_, rfl⟩

/-- A signal without a last change has all its changes ahead. -/
theorem lt_of_lastChange_eq_none (hsorted : cs.Pairwise (· < ·)) (h : lastChange cs t = none)
    (hc : c ∈ cs) : t < c := by
  cases cs with
  | nil => simp at hc
  | cons d cs =>
    rw [lastChange] at h
    split at h
    · rename_i htd
      rcases List.mem_cons.mp hc with rfl | hc
      · exact htd
      · exact htd.trans ((List.pairwise_cons.mp hsorted).1 c hc)
    · exact absurd h (by simp)

/-- The last change is a change, and no other one lies between it and the instant. -/
theorem lastChange_spec (hsorted : cs.Pairwise (· < ·)) (h : lastChange cs t = some b) :
    b ∈ cs ∧ b ≤ t ∧ ∀ c ∈ cs, c ≤ t → c ≤ b := by
  induction cs generalizing b with
  | nil => simp [lastChange] at h
  | cons c cs ih =>
    obtain ⟨hc, hcs⟩ := List.pairwise_cons.mp hsorted
    rw [lastChange] at h
    split at h
    · exact absurd h (by simp)
    · rename_i htc
      obtain rfl := Option.some.inj h
      cases hlast : lastChange cs t with
      | none =>
        refine ⟨List.mem_cons_self, not_lt.mp htc, fun d hd hdt => ?_⟩
        rcases List.mem_cons.mp hd with rfl | hd
        · exact le_rfl
        · exact absurd hdt (lt_of_lastChange_eq_none hcs hlast hd).not_ge
      | some b' =>
        obtain ⟨hmem, hle, hmax⟩ := ih hcs hlast
        refine ⟨List.mem_cons_of_mem c hmem, hle, fun d hd hdt => ?_⟩
        rcases List.mem_cons.mp hd with rfl | hd
        · exact (hc b' hmem).le
        · exact hmax d hd hdt

/-- An edge that leaves the level in force does not come before the instant. -/
theorem lt_of_edge (hsorted : cs.Pairwise (· < ·)) (hb : lastChange cs t = some b)
    (he : e ∈ edges (.leaving (level high cs t)) high cs) (hbe : b ≤ e) : t < e := by
  obtain ⟨-, hbt, hmax⟩ := lastChange_spec hsorted hb
  by_contra hte
  have hcs := mem_of_mem_edges he
  obtain rfl : e = b := le_antisymm (hmax e hcs (not_lt.mp hte)) hbe
  have hleft := level_of_edge hsorted he
  obtain ⟨d, hd, hed, hdt⟩ := exists_edge (u := t) (by rw [hleft]; simp) hbt
  exact (hmax d (mem_of_mem_edges hd) hdt).not_gt hed

/-- The last change has brought the level in force. -/
theorem lastChange_mem_edges (hsorted : cs.Pairwise (· < ·)) (hb : lastChange cs t = some b) :
    b ∈ edges (.leaving !(level high cs t)) high cs := by
  obtain ⟨hmem, hbt, hmax⟩ := lastChange_spec hsorted hb
  have hedge : b ∈ edges (.leaving (level high cs t)) high cs ∨
      b ∈ edges (.leaving !(level high cs t)) high cs := mem_edges_or hmem _
  rcases hedge with hleft | hleft
  · exact absurd (lt_of_edge hsorted hb hleft le_rfl) hbt.not_gt
  · exact hleft

end Waveform
