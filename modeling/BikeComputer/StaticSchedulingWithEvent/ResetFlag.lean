import BikeComputer.StaticSchedulingWithEvent.BikeSystem
import BikeComputer.Core.Since

/-!
# The reset flag

The button handler sets the flag; the reset task loads it, clears it and only then
resets the speedometer. Interrupts may come between any two of these accesses. The
flag is cleared before the reset begins, so a press that comes later sets it again.
-/

namespace BikeComputer.StaticSchedulingWithEvent.BikeSystem

open Transition

/-- The accesses of the reset task. -/
def Pc.InResetTask : Pc → Prop
  | .loadResetFlag | .clearResetFlag | .reset => True
  | _ => False

/-- The labels that take part in the flag protocol. -/
def Label.OfReset : Label → Prop
  | .onReset | .resetTask => True
  | .access pc => Pc.InResetTask pc
  | _ => False

/-- What a step can do to the flag and to the reset task. -/
theorem step_flag {s t : BikeSystem} {a : Label} (h : s.step a = some t) :
    (a = .onReset ∧ t.resetFlag = true ∧ t.pc = s.pc) ∨
    (a = .resetTask ∧ s.pc = .idle ∧ t.pc = .loadResetFlag ∧ t.resetFlag = s.resetFlag) ∨
    (a = .access .loadResetFlag ∧ s.pc = .loadResetFlag ∧ t.resetFlag = s.resetFlag ∧
      t.pc = if s.resetFlag then .clearResetFlag else .idle) ∨
    (a = .access .clearResetFlag ∧ s.pc = .clearResetFlag ∧ t.pc = .reset ∧
      t.resetFlag = false) ∨
    (a = .access .reset ∧ s.pc = .reset ∧ t.pc = .idle ∧ t.resetFlag = s.resetFlag) ∨
    (¬ a.OfReset ∧ t.resetFlag = s.resetFlag ∧
      (t.pc = s.pc ∨ ¬ Pc.InResetTask s.pc ∧ ¬ Pc.InResetTask t.pc)) := by
  cases a with
  | onReset =>
    obtain rfl := Option.some.inj h
    exact Or.inl ⟨rfl, rfl, rfl⟩
  | resetTask =>
    obtain ⟨hp, rfl⟩ := start_eq_some.mp h
    exact Or.inr (Or.inl ⟨rfl, hp, rfl, rfl⟩)
  | gearTask | speedDistanceTask | displayTask1 | displayTask2 =>
    obtain ⟨hp, rfl⟩ := start_eq_some.mp h
    refine Or.inr (Or.inr (Or.inr (Or.inr (Or.inr ⟨id, rfl, Or.inr ⟨?_, id⟩⟩))))
    rw [hp]
    exact id
  | temperatureTask temperature =>
    obtain ⟨m, hm, rfl⟩ := Option.map_eq_some_iff.mp h
    obtain ⟨hp, rfl⟩ := start_eq_some.mp hm
    exact Or.inr (Or.inr (Or.inr (Or.inr (Or.inr ⟨id, rfl, Or.inl hp.symm⟩))))
  | joystick | tick =>
    obtain rfl := Option.some.inj h
    exact Or.inr (Or.inr (Or.inr (Or.inr (Or.inr ⟨id, rfl, Or.inl rfl⟩))))
  | access pc =>
    obtain ⟨rfl, hacc⟩ := step_access.mp h
    unfold access at hacc
    cases hp : s.pc with
    | idle => simp [hp] at hacc
    | loadResetFlag =>
      rw [hp] at hacc
      obtain rfl := Option.some.inj hacc
      exact Or.inr (Or.inr (Or.inl ⟨rfl, rfl, rfl, rfl⟩))
    | clearResetFlag =>
      rw [hp] at hacc
      obtain rfl := Option.some.inj hacc
      exact Or.inr (Or.inr (Or.inr (Or.inl ⟨rfl, rfl, rfl, rfl⟩)))
    | reset =>
      rw [hp] at hacc
      obtain rfl := Option.some.inj hacc
      exact Or.inr (Or.inr (Or.inr (Or.inr (Or.inl ⟨rfl, rfl, rfl, rfl⟩))))
    | loadGear | loadGearSize | loadRotationTime | setCurrentRotationTime | setGearSize
    | getCurrentSpeed | getDistance =>
      rw [hp] at hacc
      obtain rfl := Option.some.inj hacc
      exact Or.inr (Or.inr (Or.inr (Or.inr (Or.inr ⟨id, rfl, Or.inr ⟨id, id⟩⟩))))

/-- Some press has not yet been followed by the beginning of a reset. -/
def Unserved (tr : List Label) : Prop :=
  Since (fun _ a => a = .onReset) (fun a => a = .access .reset) tr

/-- The flag is set, or the reset task has seen it set and has not begun its reset. -/
def Pending (s : BikeSystem) : Prop :=
  s.resetFlag = true ∨ s.pc = .clearResetFlag ∨ s.pc = .reset

/-- A step other than the beginning of a reset leaves a pending reset pending. -/
theorem Pending.step {s t : BikeSystem} {a : Label} (h : Pending s) (ha : a ≠ .access .reset)
    (hst : s.step a = some t) : Pending t := by
  rcases step_flag hst with ⟨-, hflag, -⟩ | ⟨-, hp, hp', hflag⟩ | ⟨-, hp, hflag, hp'⟩ |
    ⟨-, -, hp', -⟩ | ⟨rfl, -⟩ | ⟨-, hflag, hpc⟩
  · exact Or.inl hflag
  · rcases h with hf | hc | hr
    · exact Or.inl (hflag.trans hf)
    · exact absurd (hp.symm.trans hc) (by simp)
    · exact absurd (hp.symm.trans hr) (by simp)
  · rcases h with hf | hc | hr
    · exact Or.inr (Or.inl (by rw [hp', hf, if_pos rfl]))
    · exact absurd (hp.symm.trans hc) (by simp)
    · exact absurd (hp.symm.trans hr) (by simp)
  · exact Or.inr (Or.inr hp')
  · exact absurd rfl ha
  · rcases h with hf | hc | hr
    · exact Or.inl (hflag.trans hf)
    · rcases hpc with hsame | ⟨hout, -⟩
      · exact Or.inr (Or.inl (hsame.trans hc))
      · exact absurd (hc ▸ trivial) hout
    · rcases hpc with hsame | ⟨hout, -⟩
      · exact Or.inr (Or.inr (hsame.trans hr))
      · exact absurd (hr ▸ trivial) hout

/-- In every run, a press that is not served is pending. -/
theorem pending_of_unserved {elapsedTime : ℤ} {tr : List Label} {s : BikeSystem}
    (hrun : run step (new elapsedTime) tr = some s) (h : Unserved tr) : Pending s := by
  refine run_history (I := fun tr s => Unserved tr → Pending s)
    (fun hn => absurd hn not_since_nil) ?_ hrun h
  intro tr m a t _ ih hst hun
  rcases since_snoc.mp hun with rfl | ⟨ha, hun⟩
  · obtain rfl := Option.some.inj hst
    exact Or.inl rfl
  · exact (ih hun).step ha hst

/-- The reset task is being run and will find the flag set, or has found it set. -/
def Committed (s : BikeSystem) : Prop :=
  s.pc = .loadResetFlag ∧ s.resetFlag = true ∨ s.pc = .clearResetFlag ∨ s.pc = .reset

/-- Only the beginning of its reset ends such an execution. -/
theorem Committed.step {s t : BikeSystem} {a : Label} (h : Committed s)
    (ha : a ≠ .access .reset) (hst : s.step a = some t) : Committed t := by
  have hin : Pc.InResetTask s.pc := by
    rcases h with ⟨hp, -⟩ | hp | hp <;> exact hp ▸ trivial
  rcases step_flag hst with ⟨-, hflag, hp'⟩ | ⟨-, hp, -⟩ | ⟨-, hp, hflag, hp'⟩ |
    ⟨-, -, hp', -⟩ | ⟨rfl, -⟩ | ⟨-, hflag, hpc⟩
  · rcases h with ⟨hp, -⟩ | hp | hp
    · exact Or.inl ⟨hp'.trans hp, hflag⟩
    · exact Or.inr (Or.inl (hp'.trans hp))
    · exact Or.inr (Or.inr (hp'.trans hp))
  · rw [hp] at hin
    exact absurd hin id
  · rcases h with ⟨-, hf⟩ | hc | hr
    · exact Or.inr (Or.inl (by rw [hp', hf, if_pos rfl]))
    · exact absurd (hp.symm.trans hc) (by simp)
    · exact absurd (hp.symm.trans hr) (by simp)
  · exact Or.inr (Or.inr hp')
  · exact absurd rfl ha
  · rcases hpc with hsame | ⟨hout, -⟩
    · simpa only [Committed, hsame, hflag] using h
    · exact absurd hin hout

/-- Without the beginning of a reset, such an execution is not over. -/
theorem Committed.run {s t : BikeSystem} {tr : List Label} (h : Committed s)
    (htr : .access .reset ∉ tr) (hrun : Transition.run BikeSystem.step s tr = some t) :
    Committed t := by
  induction tr generalizing s with
  | nil => exact Option.some.inj hrun ▸ h
  | cons a tr ih =>
    obtain ⟨m, hm, hrest⟩ := run_cons_eq_some.mp hrun
    obtain ⟨ha, htr⟩ := not_or.mp (List.mem_cons.not.mp htr)
    exact ih (h.step (fun he => ha he.symm) hm) htr hrest

/-- The button has been pressed since the flag was last cleared. -/
def Pressed (tr : List Label) : Prop :=
  Since (fun _ a => a = .onReset) (fun a => a = .access .clearResetFlag) tr

/-- When the flag was last cleared, the button had been pressed since the clearing
before that one. -/
def ClearedAfterPress (tr : List Label) : Prop :=
  Since (fun pre a => a = .access .clearResetFlag ∧ Pressed pre)
    (fun a => a = .access .clearResetFlag) tr

/-- Why the flag is set and why a reset is about to begin. -/
structure Caused (tr : List Label) (s : BikeSystem) : Prop where
  flag : s.resetFlag = true → Pressed tr
  clear : s.pc = .clearResetFlag → Pressed tr
  reset : s.pc = .reset → ClearedAfterPress tr

/-- Every step keeps the causes. -/
theorem Caused.step {tr : List Label} {s t : BikeSystem} {a : Label} (h : Caused tr s)
    (hst : s.step a = some t) : Caused (tr ++ [a]) t := by
  have hpressed : a ≠ .access .clearResetFlag → Pressed tr → Pressed (tr ++ [a]) :=
    fun ha hp => hp.snoc ha
  have hcleared : a ≠ .access .clearResetFlag → ClearedAfterPress tr →
      ClearedAfterPress (tr ++ [a]) := fun ha hp => hp.snoc ha
  rcases step_flag hst with ⟨rfl, -, hp'⟩ | ⟨rfl, -, hp', hflag⟩ | ⟨rfl, -, hflag, hp'⟩ |
    ⟨rfl, hp, hp', hflag⟩ | ⟨rfl, -, hp', hflag⟩ | ⟨ha, hflag, hpc⟩
  · have hnow : Pressed (tr ++ [.onReset]) := since_snoc.mpr (Or.inl rfl)
    exact ⟨fun _ => hnow, fun _ => hnow,
      fun hr => hcleared (by simp) (h.reset (hp'.symm.trans hr))⟩
  · refine ⟨fun hf => hpressed (by simp) (h.flag (hflag.symm.trans hf)), ?_, ?_⟩ <;>
      simp [hp']
  · refine ⟨fun hf => hpressed (by simp) (h.flag (hflag.symm.trans hf)), ?_, ?_⟩
    · intro hc
      rw [hp'] at hc
      cases hf : s.resetFlag with
      | true => exact hpressed (by simp) (h.flag hf)
      | false => simp [hf] at hc
    · intro hr
      rw [hp'] at hr
      split at hr <;> simp at hr
  · refine ⟨by simp [hflag], by simp [hp'], fun _ => ?_⟩
    exact since_snoc.mpr (Or.inl ⟨rfl, h.clear hp⟩)
  · refine ⟨fun hf => hpressed (by simp) (h.flag (hflag.symm.trans hf)), ?_, ?_⟩ <;>
      simp [hp']
  · have hne : a ≠ .access .clearResetFlag := by
      rintro rfl
      exact ha trivial
    refine ⟨fun hf => hpressed hne (h.flag (hflag.symm.trans hf)), fun hc => ?_, fun hr => ?_⟩
    · rcases hpc with hsame | ⟨-, hout⟩
      · exact hpressed hne (h.clear (hsame.symm.trans hc))
      · exact absurd (hc ▸ trivial) hout
    · rcases hpc with hsame | ⟨-, hout⟩
      · exact hcleared hne (h.reset (hsame.symm.trans hr))
      · exact absurd (hr ▸ trivial) hout

/-- No press is lost and no reset is spurious. In every run, a press that has not been
followed by the beginning of a reset is pending; a press before the start of an
execution of the reset task that has come to its end is followed by the beginning of a
reset before that end; and when a reset begins, the flag was last cleared after a press
that came after the clearing before that one. -/
theorem no_press_lost (elapsedTime : ℤ) :
    (∀ tr s, run step (new elapsedTime) tr = some s → Unserved tr → Pending s) ∧
    (∀ pre mid exec s,
      run step (new elapsedTime) (pre ++ .onReset :: (mid ++ .resetTask :: exec)) = some s →
      s.pc = .idle → .access .reset ∈ mid ++ exec) ∧
    (∀ pre s, run step (new elapsedTime) (pre ++ [.access .reset]) = some s →
      ClearedAfterPress pre) := by
  refine ⟨fun tr s => pending_of_unserved, ?_, ?_⟩
  · intro pre mid exec s hrun hidle
    by_contra hnot
    obtain ⟨hmid, hexec⟩ := not_or.mp (List.mem_append.not.mp hnot)
    have hsplit : pre ++ .onReset :: (mid ++ .resetTask :: exec) =
        (pre ++ .onReset :: mid) ++ .resetTask :: exec := by simp
    rw [hsplit] at hrun
    obtain ⟨m, hm, hrest⟩ := run_append_eq_some.mp hrun
    obtain ⟨m', hstart, hend⟩ := run_cons_eq_some.mp hrest
    obtain ⟨hp, rfl⟩ := start_eq_some.mp hstart
    have hunserved : Unserved (pre ++ .onReset :: mid) :=
      ⟨pre, _, mid, rfl, rfl, fun b hb he => hmid (he ▸ hb)⟩
    have hflag : m.resetFlag = true := by
      rcases pending_of_unserved hm hunserved with hf | hc | hr
      · exact hf
      · exact absurd (hp.symm.trans hc) (by simp)
      · exact absurd (hp.symm.trans hr) (by simp)
    -- the execution finds the flag set, so it cannot end without a reset
    have hcommitted : Committed { m with pc := .loadResetFlag } := Or.inl ⟨rfl, hflag⟩
    rcases hcommitted.run hexec hend with ⟨hl, -⟩ | hc | hr
    · exact absurd (hidle.symm.trans hl) (by simp)
    · exact absurd (hidle.symm.trans hc) (by simp)
    · exact absurd (hidle.symm.trans hr) (by simp)
  · intro pre s hrun
    obtain ⟨m, hm, hreset⟩ := run_snoc_eq_some.mp hrun
    have hnew : Caused [] (new elapsedTime) := ⟨by simp [new], by simp [new], by simp [new]⟩
    have hcaused := run_history hnew (fun _ h hst => h.step hst) hm
    exact hcaused.reset (step_access.mp hreset).1

/-- A press is pending before the reset task starts; its execution resets the speedometer
before its end, and so does the next one after a second press. -/
theorem no_press_lost_one_press :
    (∃ s, run step (new 0) [.onReset] = some s ∧ Pending s) ∧
    (∃ exec s, run step (new 0) (.onReset :: .resetTask :: exec) = some s ∧ s.pc = .idle ∧
      .access .reset ∈ exec) ∧
    ∃ pre s, run step (new 0) (pre ++ [.access .reset]) = some s ∧ 2 ≤ pre.count .onReset ∧
      ClearedAfterPress pre := by
  refine ⟨⟨_, rfl, (no_press_lost 0).1 [.onReset] _ rfl ⟨[], _, [], rfl, rfl, by simp⟩⟩, ?_, ?_⟩
  · exact ⟨[.access .loadResetFlag, .access .clearResetFlag, .access .reset], _, rfl, rfl,
      (no_press_lost 0).2.1 [] [] _ _ rfl rfl⟩
  · exact ⟨[.onReset, .resetTask, .access .loadResetFlag, .access .clearResetFlag,
      .access .reset, .onReset, .resetTask, .access .loadResetFlag, .access .clearResetFlag], _,
      rfl, by decide, (no_press_lost 0).2.2 _ _ rfl⟩

end BikeComputer.StaticSchedulingWithEvent.BikeSystem
