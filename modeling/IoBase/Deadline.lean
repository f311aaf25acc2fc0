import IoBase.Transition

/- A wait that is made of several calls and ends at a deadline.

   The clock is read in whole units: `unit` of the clock's own time are one. When the wait
   begins, its deadline is fixed, so many units after the reading; each call is given the
   units that were left when the clock was last read, and lasts no longer than that; and
   between a call and the next one the clock is read again. Time may pass anywhere.

   * `spent_lt`: the calls last no longer together than the wait was asked for, to the
     resolution of the clock.
   * `stop_le_of_timeout`: a call that lasts as long as it may ends at the deadline, not
     before it. -/
namespace Deadline
open Transition

/-- Before a call, with what is left for it; in the call, since this time; and after it, or without it,
    until the clock is read. -/
inductive Phase where
  | ready (left : Int)
  | calling (since left : Int)
  | returned
  deriving DecidableEq

structure Wait where
  /-- The deadline, in units. -/
  stop : Int
  now : Int
  /-- The time in the calls. -/
  spent : Int
  phase : Phase

inductive Act where
  | pass (n : Nat)
  | call
  | last (n : Nat)
  | ret
  | read

/-- A wait of `duration` units that begins at `t₀`. -/
def start (unit duration t₀ : Int) : Wait := ⟨t₀ / unit + duration, t₀, 0, .ready duration⟩

def step (unit : Int) (w : Wait) : Act → Option Wait
  | .pass n =>
    match w.phase with
    | .calling _ _ => none
    | _ => some { w with now := w.now + n }
  | .call =>
    match w.phase with
    | .ready left => some { w with phase := .calling w.now left }
    | _ => none
  | .last n =>
    match w.phase with
    | .calling since left =>
      if w.now + n ≤ since + unit * left then some { w with now := w.now + n, spent := w.spent + n } else none
    | _ => none
  | .ret =>
    match w.phase with
    | .returned => none
    | _ => some { w with phase := .returned }
  | .read =>
    match w.phase with
    | .returned => some { w with phase := .ready (w.stop - w.now / unit) }
    | _ => none

variable {unit duration t₀ : Int} {w w' : Wait}

/-- What is known of a wait: the calls began after it did, and what the next call is given, with what
    the calls have lasted, is within the wait. -/
structure Kept (unit duration t₀ : Int) (w : Wait) : Prop where
  stop : w.stop = t₀ / unit + duration
  begun : t₀ ≤ w.now
  past : w.spent ≤ w.now - t₀
  within : w.spent < unit * (duration + 1)
  ready : ∀ left, w.phase = .ready left →
    w.spent + unit * left < unit * (duration + 1) ∧ w.stop - left ≤ w.now / unit
  calling : ∀ since left, w.phase = .calling since left → since ≤ w.now ∧
    w.spent - (w.now - since) + unit * left < unit * (duration + 1) ∧ w.stop - left ≤ since / unit

theorem kept_start (hunit : 0 < unit) (hduration : 0 ≤ duration) :
    Kept unit duration t₀ (start unit duration t₀) where
  stop := rfl
  begun := Int.le_refl _
  past := by simp [start]
  within := Int.mul_pos hunit (by omega)
  ready := fun left hr => by
    cases hr
    simp only [start]
    exact ⟨by rw [Int.mul_add]; omega, by omega⟩
  calling := fun _ _ h => by cases h

theorem kept_step {a : Act} (hunit : 0 < unit) (h : step unit w a = some w') (hk : Kept unit duration t₀ w) :
    Kept unit duration t₀ w' := by
  obtain ⟨hstop, hbegun, hpast, hwithin, hready, hcalling⟩ := hk
  cases a with
  | pass n =>
    simp only [step] at h
    split at h
    · cases h
    · rename_i hphase
      cases h
      refine ⟨hstop, ?_, ?_, hwithin, fun left hr => ?_, fun since left hc => absurd hc (hphase since left)⟩
      · show t₀ ≤ w.now + n
        omega
      · show w.spent ≤ w.now + n - t₀
        omega
      · -- time that passes leaves what was read behind it
        have hlater : w.now / unit ≤ (w.now + n) / unit := Int.ediv_le_ediv hunit (by omega)
        obtain ⟨hless, hread⟩ := hready left hr
        exact ⟨hless, Int.le_trans hread hlater⟩
  | call =>
    simp only [step] at h
    split at h
    · rename_i left hphase
      cases h
      refine ⟨hstop, hbegun, hpast, hwithin, fun _ hr => (by cases hr), fun since left' hc => ?_⟩
      cases hc
      obtain ⟨hless, hread⟩ := hready left hphase
      refine ⟨Int.le_refl _, ?_, hread⟩
      show w.spent - (w.now - w.now) + unit * left < _
      omega
    · cases h
  | last n =>
    simp only [step] at h
    split at h
    · rename_i since left hphase
      split at h
      · rename_i hlasts
        cases h
        obtain ⟨hsince, hless, hread⟩ := hcalling since left hphase
        refine ⟨hstop, ?_, ?_, ?_, fun left' hr => ?_, fun since' left' hc => ?_⟩
        · show t₀ ≤ w.now + n
          omega
        · show w.spent + n ≤ w.now + n - t₀
          omega
        · show w.spent + n < _
          omega
        · cases hphase.symm.trans hr
        · cases hphase.symm.trans hc
          refine ⟨?_, ?_, hread⟩
          · show since ≤ w.now + n
            omega
          · show w.spent + n - (w.now + n - since) + unit * left < _
            omega
      · cases h
    · cases h
  | ret =>
    simp only [step] at h
    split at h
    · cases h
    · cases h
      exact ⟨hstop, hbegun, hpast, hwithin, fun _ hr => (by cases hr), fun _ _ hc => (by cases hc)⟩
  | read =>
    simp only [step] at h
    split at h
    · cases h
      refine ⟨hstop, hbegun, hpast, hwithin, fun left hr => ?_, fun _ _ hc => (by cases hc)⟩
      cases hr
      refine ⟨?_, ?_⟩
      · -- the reading of the beginning was not late, and this one loses less than a unit
        have ht₀ := Int.mul_ediv_self_le (x := t₀) (Int.ne_of_gt hunit)
        have hnow := Int.lt_mul_ediv_self_add (x := w.now) hunit
        show w.spent + unit * (w.stop - w.now / unit) < unit * (duration + 1)
        rw [hstop, Int.mul_sub, Int.mul_add, Int.mul_add]
        omega
      · show w.stop - (w.stop - w.now / unit) ≤ w.now / unit
        omega
    · cases h

theorem kept_run (hunit : 0 < unit) (hduration : 0 ≤ duration)
    (h : Reaches (step unit) Always (start unit duration t₀) w) : Kept unit duration t₀ w :=
  h.invariant (fun _ _ _ _ hstep hk => kept_step hunit hstep hk) (kept_start hunit hduration)

/-- The calls last no longer together than the wait was asked for, to the resolution of the clock. -/
theorem spent_lt (hunit : 0 < unit) (hduration : 0 ≤ duration)
    (h : Reaches (step unit) Always (start unit duration t₀) w) : w.spent < unit * (duration + 1) :=
  (kept_run hunit hduration h).within

/-- A call that has lasted as long as it may has come to the deadline. -/
theorem stop_le_of_timeout {since left : Int} (hunit : 0 < unit) (hduration : 0 ≤ duration)
    (h : Reaches (step unit) Always (start unit duration t₀) w) (hphase : w.phase = .calling since left)
    (hlasted : since + unit * left ≤ w.now) : w.stop ≤ w.now / unit := by
  obtain ⟨-, -, hread⟩ := (kept_run hunit hduration h).calling since left hphase
  have hsince := Int.mul_ediv_self_le (x := since) (Int.ne_of_gt hunit)
  have hscaled : unit * (w.stop - left) ≤ unit * (since / unit) := Int.mul_le_mul_of_nonneg_left hread (by omega)
  refine (Int.le_ediv_iff_mul_le hunit).mpr ?_
  rw [Int.mul_sub] at hscaled
  rw [Int.mul_comm]
  omega

end Deadline
