import BikeComputer.Common.Ride
import BikeComputer.Core.TickSum
import Mathlib.Data.List.TakeWhile
import Mathlib.Tactic.Ring

/-!
# The distance against the ride

The ideal distance is summed over every microsecond of the ride at the speed that
`getCurrentSpeed` would return then, from construction or the last reset up to the
last update of the distance. The speedometer is never ahead of it, and is behind by
at most one millisecond of riding for each update. The invariant is that the speed
in force has not changed since the last update.
-/

namespace BikeComputer

/-- The calls made up to and including the instant `τ`. -/
def Ride.upTo (τ : ℤ) (cs : Ride) : Ride := cs.takeWhile fun a => a.1 ≤ τ

/-- A call still to come does not change the past. -/
theorem Ride.upTo_snoc_of_lt {τ u : ℤ} (h : τ < u) (cs : Ride) (c : Call) :
    upTo τ (cs ++ [(u, c)]) = upTo τ cs := by
  induction cs with
  | nil => simp [upTo, h]
  | cons a cs ih =>
    unfold upTo at ih ⊢
    simp only [List.cons_append, List.takeWhile_cons, ih]

/-- From the last call on, all calls have been made. -/
theorem Ride.upTo_of_clock_le {t τ : ℤ} {cs : Ride} (hcs : Valid t cs) (h : clock t cs ≤ τ) :
    upTo τ cs = cs := by
  have hle : ∀ {t : ℤ} {cs : Ride}, Valid t cs → t ≤ clock t cs ∧ ∀ a ∈ cs, a.1 ≤ clock t cs := by
    intro t cs hcs
    induction cs generalizing t with
    | nil => exact ⟨le_refl t, by simp⟩
    | cons a cs ih =>
      obtain ⟨hu, hall⟩ := ih hcs.2.2
      refine ⟨hcs.1.trans hu, ?_⟩
      intro b hb
      rcases List.mem_cons.mp hb with rfl | hb
      · exact hu
      · exact hall b hb
  apply List.takeWhile_eq_self_iff.mpr
  intro a ha
  exact decide_eq_true (((hle hcs).2 a ha).trans h)

namespace Speedometer

/-- The calls that bring the distance up to date. -/
def Settles (s : Speedometer) : Call → Prop
  | .set x => x.apply s.settings ≠ s.settings
  | .getDistance => True
  | .getCurrentSpeed | .reset => False

instance (s : Speedometer) (c : Call) : Decidable (s.Settles c) := by
  cases c <;> unfold Settles <;> infer_instance

/-- A call that settles the distance adds the increment and remembers its reading. -/
theorem after_of_settles {s : Speedometer} {c : Call} (h : s.Settles c) (u : ℤ) :
    (s.after u c).totalDistance = s.totalDistance + s.increment u ∧
      (s.after u c).lastTime = u := by
  cases c with
  | set x => exact ⟨(set_of_apply_ne h u).2.2.1, (set_of_apply_ne h u).2.2.2⟩
  | getDistance => exact ⟨rfl, rfl⟩
  | getCurrentSpeed | reset => exact absurd h (by simp [Settles])

/-- A call that neither settles nor resets changes nothing. -/
theorem after_of_not_settles {s : Speedometer} {c : Call} (h : ¬ s.Settles c)
    (hc : c ≠ .reset) (u : ℤ) : s.after u c = s := by
  cases c with
  | set x => exact set_of_apply_eq (not_not.mp h) u
  | getDistance => exact absurd trivial h
  | getCurrentSpeed => rfl
  | reset => exact absurd rfl hc

/-- Since when the distance counts, up to when it is settled, and what the
truncations in between may have cost. -/
structure Account where
  since : ℤ
  settledAt : ℤ
  allowance : ℚ

/-- An update may cost one millisecond at the speed in force just before it. -/
def Account.after (a : Account) (s : Speedometer) (u : ℤ) (c : Call) : Account :=
  if c = .reset then ⟨u, u, 0⟩
  else if s.Settles c then
    ⟨a.since, u, a.allowance + s.getCurrentSpeed * 1 / 3600000⟩
  else a

/-- The account of a ride. -/
def account (s : Speedometer) (a : Account) : Ride → Account
  | [] => a
  | (u, c) :: cs => (s.after u c).account (a.after s u c) cs

/-- The account of a ride is kept call by call. -/
theorem account_snoc (s : Speedometer) (a : Account) (cs : Ride) (u : ℤ) (c : Call) :
    s.account a (cs ++ [(u, c)]) = (s.account a cs).after (s.ride cs) u c := by
  induction cs generalizing s a with
  | nil => rfl
  | cons b cs ih => exact ih _ _

/-- The account of a ride on a speedometer constructed at `start`. -/
def accountFrom (start : ℤ) (cs : Ride) : Account := (new start).account ⟨start, start, 0⟩ cs

/-- What `getCurrentSpeed` returns at the instant `τ` of the ride. -/
def speedInForce (start : ℤ) (cs : Ride) (τ : ℤ) : ℚ :=
  ((new start).ride (cs.upTo τ)).getCurrentSpeed

/-- The distance, in km, really ridden since construction or the last reset, up to
the last update: one microsecond after another at the speed in force. -/
def ideal (start : ℤ) (cs : Ride) : ℚ :=
  TickSum.ticks (fun τ => speedInForce start cs τ / 3600000000)
    (accountFrom start cs).since (accountFrom start cs).settledAt

/-- Truncation costs less than one millisecond at the speed in force. -/
theorem increment_bounds {s : Speedometer} {u : ℤ} (hv : 0 ≤ s.currentSpeed)
    (hu : s.lastTime ≤ u) :
    s.increment u ≤ ((u - s.lastTime : ℤ) : ℚ) * (s.currentSpeed / 3600000000) ∧
      ((u - s.lastTime : ℤ) : ℚ) * (s.currentSpeed / 3600000000) - s.increment u ≤
        s.currentSpeed * 1 / 3600000 := by
  have hd : 0 ≤ u - s.lastTime := by omega
  have hle := Truncation.tdiv_le_div (K := ℚ) hd (by decide : (0 : ℤ) < 1000)
  have hlt := Truncation.div_lt_tdiv_add_one (K := ℚ) hd (by decide : (0 : ℤ) < 1000)
  unfold increment toMilliseconds
  generalize (((u - s.lastTime).tdiv 1000 : ℤ) : ℚ) = ms at hle hlt ⊢
  generalize ((u - s.lastTime : ℤ) : ℚ) = d at hle hlt ⊢
  push_cast at hle hlt
  have h1 : s.currentSpeed * ms ≤ s.currentSpeed * (d / 1000) :=
    mul_le_mul_of_nonneg_left hle hv
  have h2 : s.currentSpeed * (d / 1000) ≤ s.currentSpeed * (ms + 1) :=
    mul_le_mul_of_nonneg_left hlt.le hv
  constructor <;> linarith

/-- What every ride keeps between the account and the speedometer. -/
structure Accurate (start : ℤ) (cs : Ride) : Prop where
  since_le : (accountFrom start cs).since ≤ (accountFrom start cs).settledAt
  settledAt_eq : (accountFrom start cs).settledAt = ((new start).ride cs).lastTime
  /-- The speed in force has not changed since the last update. -/
  steady : ∀ τ, (accountFrom start cs).settledAt ≤ τ →
    speedInForce start cs τ = ((new start).ride cs).currentSpeed
  not_ahead : ((new start).ride cs).totalDistance ≤ ideal start cs
  not_far_behind : ideal start cs - ((new start).ride cs).totalDistance ≤
    (accountFrom start cs).allowance

/-- The same for a ride that begins with the construction. -/
theorem accountFrom_snoc (start : ℤ) (cs : Ride) (u : ℤ) (c : Call) :
    accountFrom start (cs ++ [(u, c)]) =
      (accountFrom start cs).after ((new start).ride cs) u c :=
  account_snoc _ _ cs u c

/-- A later call does not change the speed in force before it. -/
theorem speedInForce_snoc_of_lt (start : ℤ) (cs : Ride) {u τ : ℤ} (h : τ < u) (c : Call) :
    speedInForce start (cs ++ [(u, c)]) τ = speedInForce start cs τ := by
  rw [speedInForce, Ride.upTo_snoc_of_lt h, speedInForce]

/-- After the last call the speed in force is the cached one. -/
theorem speedInForce_of_clock_le {start τ : ℤ} {cs : Ride} (hcs : cs.Valid start)
    (h : cs.clock start ≤ τ) :
    speedInForce start cs τ = ((new start).ride cs).currentSpeed := by
  rw [speedInForce, Ride.upTo_of_clock_le hcs h, getCurrentSpeed]

/-- The ideal distance up to an instant that the next call does not precede. -/
theorem ticks_speedInForce_snoc (start : ℤ) (cs : Ride) {a b u : ℤ} (hb : b ≤ u) (c : Call) :
    TickSum.ticks (fun τ => speedInForce start (cs ++ [(u, c)]) τ / 3600000000) a b =
      TickSum.ticks (fun τ => speedInForce start cs τ / 3600000000) a b := by
  apply TickSum.ticks_congr
  intro τ _ hτ
  rw [speedInForce_snoc_of_lt start cs (hτ.trans_le hb)]

/-- Before the first call nothing has been ridden. -/
theorem accurate_nil (start : ℤ) : Accurate start [] where
  since_le := le_refl start
  settledAt_eq := rfl
  steady := fun _ _ => rfl
  not_ahead := by simp [ideal, accountFrom, account]
  not_far_behind := by simp [ideal, accountFrom, account]

/-- A settlement extends the ideal distance by the ride since the last one, at a
speed that has not changed meanwhile. -/
theorem ideal_snoc_of_settles {start : ℤ} {cs : Ride} (h : Accurate start cs) {u : ℤ}
    (hu : ((new start).ride cs).lastTime ≤ u) {c : Call}
    (hc : ((new start).ride cs).Settles c) (hr : c ≠ .reset) :
    ideal start (cs ++ [(u, c)]) = ideal start cs +
      ((u - ((new start).ride cs).lastTime : ℤ) : ℚ) *
        (((new start).ride cs).currentSpeed / 3600000000) := by
  have hset := h.settledAt_eq
  rw [ideal, accountFrom_snoc, Account.after, if_neg hr, if_pos hc]
  rw [ticks_speedInForce_snoc start cs (le_refl u), ideal,
    ← TickSum.ticks_consecutive _ h.since_le (hset.le.trans hu)]
  congr 1
  rw [TickSum.ticks_const (hset.le.trans hu), hset]
  intro τ hτ _
  rw [h.steady τ hτ]

section Snoc

variable {start : ℤ} {cs : Ride} {u : ℤ} {c : Call}

/-- From the last call on, the speed in force is the present one. -/
theorem speedInForce_snoc_of_le (hcs : Ride.Valid start (cs ++ [(u, c)])) {τ : ℤ} (hτ : u ≤ τ) :
    speedInForce start (cs ++ [(u, c)]) τ =
      ((new start).ride (cs ++ [(u, c)])).currentSpeed := by
  have hclock : Ride.clock start (cs ++ [(u, c)]) = u := by simp [Ride.clock_append, Ride.clock]
  exact speedInForce_of_clock_le hcs (hclock.le.trans hτ)

/-- After a reset everything starts again. -/
theorem accurate_snoc_reset (hcs : Ride.Valid start (cs ++ [(u, .reset)])) :
    Accurate start (cs ++ [(u, .reset)]) := by
  have hacc : accountFrom start (cs ++ [(u, .reset)]) = ⟨u, u, 0⟩ := by
    rw [accountFrom_snoc, Account.after, if_pos rfl]
  have hideal : ideal start (cs ++ [(u, .reset)]) = 0 := by simp [ideal, hacc]
  have hzero : ((new start).ride (cs ++ [(u, .reset)])).totalDistance = 0 := by
    rw [ride_snoc]
    rfl
  refine ⟨?_, ?_, ?_, ?_, ?_⟩
  · rw [hacc]
  · rw [hacc, ride_snoc]
    rfl
  · rw [hacc]
    exact fun τ hτ => speedInForce_snoc_of_le hcs hτ
  · rw [hideal, hzero]
  · rw [hideal, hzero, hacc]
    simp

/-- A settlement extends both distances, and loses less than one millisecond. -/
theorem Accurate.snoc_of_settles (h : Accurate start cs)
    (hcs : Ride.Valid start (cs ++ [(u, c)])) (hsettle : ((new start).ride cs).Settles c)
    (hr : c ≠ .reset) : Accurate start (cs ++ [(u, c)]) := by
  obtain ⟨hpre, hu, -⟩ := Ride.valid_append.mp hcs
  have hsound := (new_sound start).ride hpre
  have hlast : ((new start).ride cs).lastTime ≤ u := hsound.lastTime_le.trans hu
  obtain ⟨htotal, hlt⟩ := after_of_settles hsettle u
  obtain ⟨hlo, hhi⟩ := increment_bounds hsound.currentSpeed_nonneg hlast
  have hideal := ideal_snoc_of_settles h hlast hsettle hr
  have hacc : accountFrom start (cs ++ [(u, c)]) = ⟨(accountFrom start cs).since, u,
      (accountFrom start cs).allowance + ((new start).ride cs).getCurrentSpeed * 1 / 3600000⟩ := by
    rw [accountFrom_snoc, Account.after, if_neg hr, if_pos hsettle]
  have hahead := h.not_ahead
  have hbehind := h.not_far_behind
  refine ⟨?_, ?_, ?_, ?_, ?_⟩
  · rw [hacc]
    exact h.since_le.trans (h.settledAt_eq.le.trans hlast)
  · rw [hacc, ride_snoc, hlt]
  · rw [hacc]
    exact fun τ hτ => speedInForce_snoc_of_le hcs hτ
  · rw [hideal, ride_snoc, htotal]
    linarith
  · rw [hideal, ride_snoc, htotal, hacc]
    simp only [getCurrentSpeed]
    linarith

/-- Another call moves neither the account nor the speedometer. -/
theorem Accurate.snoc_of_not_settles (h : Accurate start cs)
    (hcs : Ride.Valid start (cs ++ [(u, c)])) (hsettle : ¬ ((new start).ride cs).Settles c)
    (hr : c ≠ .reset) : Accurate start (cs ++ [(u, c)]) := by
  obtain ⟨hpre, hu, -⟩ := Ride.valid_append.mp hcs
  have hlast : ((new start).ride cs).lastTime ≤ u :=
    ((new_sound start).ride hpre).lastTime_le.trans hu
  have hacc : accountFrom start (cs ++ [(u, c)]) = accountFrom start cs := by
    rw [accountFrom_snoc, Account.after, if_neg hr, if_neg hsettle]
  have hsame : (new start).ride (cs ++ [(u, c)]) = (new start).ride cs := by
    rw [ride_snoc, after_of_not_settles hsettle hr]
  have hideal : ideal start (cs ++ [(u, c)]) = ideal start cs := by
    rw [ideal, hacc, ticks_speedInForce_snoc start cs (h.settledAt_eq.le.trans hlast), ideal]
  refine ⟨?_, ?_, ?_, ?_, ?_⟩
  · rw [hacc]
    exact h.since_le
  · rw [hacc, hsame]
    exact h.settledAt_eq
  · rw [hacc, hsame]
    intro τ hτ
    rcases lt_or_ge τ u with hlt | hge
    · rw [speedInForce_snoc_of_lt start cs hlt]
      exact h.steady τ hτ
    · rw [speedInForce_snoc_of_le hcs hge, hsame]
  · rw [hideal, hsame]
    exact h.not_ahead
  · rw [hideal, hsame, hacc]
    exact h.not_far_behind

/-- Every call keeps the account in step with the speedometer. -/
theorem Accurate.snoc (h : Accurate start cs) (hcs : Ride.Valid start (cs ++ [(u, c)])) :
    Accurate start (cs ++ [(u, c)]) := by
  by_cases hr : c = .reset
  · subst hr
    exact accurate_snoc_reset hcs
  · by_cases hsettle : ((new start).ride cs).Settles c
    · exact h.snoc_of_settles hcs hsettle hr
    · exact h.snoc_of_not_settles hcs hsettle hr

end Snoc

/-- Every ride is accurate. -/
theorem accurate {start : ℤ} {cs : Ride} (hcs : cs.Valid start) : Accurate start cs := by
  induction cs using List.reverseRecOn with
  | nil => exact accurate_nil start
  | append_singleton cs a ih => exact (ih (Ride.valid_append.mp hcs).1).snoc hcs

/-- Between two resets the distance only grows. -/
theorem Sound.totalDistance_le_ride {s : Speedometer} {now : ℤ} {cs : Ride} (h : s.Sound now)
    (hcs : cs.Valid now) (hfree : cs.ResetFree) :
    s.totalDistance ≤ (s.ride cs).totalDistance := by
  induction cs generalizing s now with
  | nil => exact le_refl _
  | cons a cs ih =>
    obtain ⟨u, c⟩ := a
    obtain ⟨hu, hc, hrest⟩ := hcs
    have hstep : s.totalDistance ≤ (s.after u c).totalDistance := by
      by_cases hsettle : s.Settles c
      · rw [(after_of_settles hsettle u).1]
        exact le_add_of_nonneg_right (h.increment_nonneg hu)
      · rw [after_of_not_settles hsettle (hfree (u, c) (List.mem_cons_self ..))]
    exact hstep.trans (ih (h.after hu hc) hrest hfree.tail)

/-- In every state a ride reaches, the distance is at most the ideal one and short
of it by at most one millisecond of riding for each update since the last reset;
and two distances read without a reset in between never decrease. -/
theorem totalDistance_accurate_and_monotone (start : ℤ) :
    (∀ cs : Ride, cs.Valid start →
      0 ≤ ideal start cs - ((new start).ride cs).totalDistance ∧
      ideal start cs - ((new start).ride cs).totalDistance ≤
        (accountFrom start cs).allowance) ∧
    (∀ (pre between : Ride) (u w : ℤ),
      Ride.Valid start (pre ++ (u, .getDistance) :: (between ++ [(w, .getDistance)])) →
      between.ResetFree →
      (((new start).ride pre).getDistance u).2 ≤
        (((new start).ride (pre ++ (u, .getDistance) :: between)).getDistance w).2) := by
  refine ⟨?_, ?_⟩
  · intro cs hcs
    have h := accurate hcs
    exact ⟨sub_nonneg.mpr h.not_ahead, h.not_far_behind⟩
  · intro pre between u w hvalid hfree
    obtain ⟨hpre, hu, hc, hrest⟩ := Ride.valid_append.mp hvalid
    obtain ⟨hbetween, hw, -⟩ := Ride.valid_append.mp hrest
    have hsound := ((new_sound start).ride hpre).after hu hc
    have hgrown := hsound.totalDistance_le_ride hbetween hfree
    have hlast := (hsound.ride hbetween).increment_nonneg hw
    rw [ride_append, ride_cons, getDistance_snd]
    exact hgrown.trans (le_add_of_nonneg_right hlast)

/-- Half a millisecond is lost at a reading 1500 microseconds after a gear change,
and a second reading 600 microseconds later does not go back. -/
theorem totalDistance_accurate_and_monotone_short :
    (0 ≤ ideal 0 [(0, .set (.gearSize 15)), (1500, .getDistance)] -
        ((new 0).ride [(0, .set (.gearSize 15)), (1500, .getDistance)]).totalDistance ∧
      ideal 0 [(0, .set (.gearSize 15)), (1500, .getDistance)] -
        ((new 0).ride [(0, .set (.gearSize 15)), (1500, .getDistance)]).totalDistance ≤
        (accountFrom 0 [(0, .set (.gearSize 15)), (1500, .getDistance)]).allowance) ∧
    (((new 0).ride [(0, .set (.gearSize 15))]).getDistance 1500).2 ≤
      (((new 0).ride ([(0, .set (.gearSize 15))] ++ (1500, .getDistance) :: [])).getDistance
        2100).2 := by
  refine ⟨(totalDistance_accurate_and_monotone 0).1 _ ?_,
    (totalDistance_accurate_and_monotone 0).2 _ [] 1500 2100 ?_ ?_⟩
  · simp [Ride.Valid, Call.Admissible, Setter.Admissible]
  · simp [Ride.Valid, Call.Admissible, Setter.Admissible]
  · simp [Ride.ResetFree]

end Speedometer

end BikeComputer
