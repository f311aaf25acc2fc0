import IoBase.Timers

/- The due time of a delayed task.

   `PostDelayedTaskOnTaskQueue` takes from the delay the time that has passed since
   the post, and the constructor of `DelayedTaskInfo` adds what is left, in whole
   microseconds, to a reading of its own. `dueTime` is that sum as an integer,
   from the clock readings at the post (`startMicros`), in the function (`now₁`) and
   in the constructor (`now₂`). What is left is truncated toward zero, so a positive
   rest is rounded down and a negative one up. -/
namespace IoBase
open AbslDuration LawfulDuration

def dueTime {D : Type} [AbslDuration D] (delay : D) (startMicros now₁ now₂ : Int) : Int :=
  now₂ + toInt64Microseconds (sub delay (microseconds (now₁ - startMicros)))

/-- Readings of a clock that does not go back, and that an int64 holds. -/
structure Readings (startMicros now₁ now₂ : Int) : Prop where
  nonneg : 0 ≤ startMicros
  start_le : startMicros ≤ now₁
  now_le : now₁ ≤ now₂
  fits : now₂ ≤ int64Max

variable {D : Type} [LawfulDuration D]

theorem pos_iff {delay : D} :
    lt zeroDuration delay = true ↔ value delay = .posInf ∨ ∃ ticks, value delay = .finite ticks ∧ 0 < ticks := by
  rw [lt_eq, value_zeroDuration]
  cases value delay with
  | negInf => simp [Ticks.lt]
  | finite ticks => simp [Ticks.lt]
  | posInf => simp [Ticks.lt]

/-- The due time of a task with a finite delay. -/
theorem dueTime_finite {delay : D} {ticks s n₁ n₂ : Int} (hr : Readings s n₁ n₂)
    (hd : value delay = .finite ticks) :
    dueTime delay s n₁ n₂ = n₂ + clampInt64 ((ticks - (n₁ - s) * 4000).tdiv 4000) := by
  obtain ⟨hs, hs₁, h₁₂, hfits⟩ := hr
  have hmicros : value (microseconds (n₁ - s) : D) = .finite ((n₁ - s) * 4000) := by
    refine value_microseconds _ ?_ ?_ <;> simp only [int64Min, int64Max] at * <;> omega
  have hrest : toInt64Microseconds (sub delay (microseconds (n₁ - s))) =
      clampInt64 ((ticks - (n₁ - s) * 4000).tdiv 4000) := by
    rw [toInt64Microseconds_eq, value_sub, hd, hmicros, Ticks.sub]
    have hcases := tdiv_cases (ticks - (n₁ - s) * 4000)
    -- where the difference saturates, so does its count of microseconds
    simp only [Ticks.ofTicks]
    split
    · simp only [Ticks.toInt64, clampInt64, int64Min, int64Max, ticksPerSecond] at *
      omega
    · split
      · rfl
      · simp only [Ticks.toInt64, clampInt64, int64Min, int64Max, ticksPerSecond] at *
        omega
  rw [dueTime, hrest]

theorem dueTime_infinite {delay : D} {s n₁ n₂ : Int} (hd : value delay = .posInf) :
    dueTime delay s n₁ n₂ = n₂ + int64Max := by
  rw [dueTime, toInt64Microseconds_eq, value_sub, hd]
  rfl

/-- A task is never due before it was posted. -/
theorem start_le_dueTime {delay : D} {s n₁ n₂ : Int} (hr : Readings s n₁ n₂)
    (hpos : lt zeroDuration delay = true) : s ≤ dueTime delay s n₁ n₂ := by
  obtain ⟨hs, hs₁, h₁₂, hfits⟩ := id hr
  rcases pos_iff.mp hpos with hd | ⟨ticks, hd, hticks⟩
  · rw [dueTime_infinite hd]
    simp only [int64Max]
    omega
  · rw [dueTime_finite hr hd]
    have hcases := tdiv_cases (ticks - (n₁ - s) * 4000)
    simp only [clampInt64, int64Min, int64Max] at *
    omega

/-- With a delay of a microsecond or more it is due later. -/
theorem start_lt_dueTime {delay : D} {s n₁ n₂ : Int} (hr : Readings s n₁ n₂)
    (hdelay : le (microseconds 1) delay = true) : s < dueTime delay s n₁ n₂ := by
  obtain ⟨hs, hs₁, h₁₂, hfits⟩ := id hr
  have hone : value (microseconds 1 : D) = .finite 4000 := value_microseconds 1 (by decide) (by decide)
  rw [le, Bool.not_eq_true', lt_eq, hone] at hdelay
  cases hd : value delay with
  | negInf => rw [hd] at hdelay; cases hdelay
  | posInf =>
    rw [dueTime_infinite hd]
    simp only [int64Max]
    omega
  | finite ticks =>
    rw [hd] at hdelay
    simp only [Ticks.lt, decide_eq_false_iff_not, Int.not_lt] at hdelay
    rw [dueTime_finite hr hd]
    have hcases := tdiv_cases (ticks - (n₁ - s) * 4000)
    simp only [clampInt64, int64Min, int64Max] at *
    omega

/-- The due time is the delay after the post, rounded to a microsecond, and at most the time between
    the last two readings later. -/
theorem dueTime_bounds {delay : D} {ticks s n₁ n₂ : Int} (hr : Readings s n₁ n₂)
    (hd : value delay = .finite ticks) (hpos : 0 < ticks) (hfits : s + ticks / 4000 ≤ int64Max) :
    s + ticks / 4000 ≤ dueTime delay s n₁ n₂ ∧
      dueTime delay s n₁ n₂ ≤ s + -(-ticks / 4000) + (n₂ - n₁) := by
  obtain ⟨hs, hs₁, h₁₂, hfits'⟩ := id hr
  rw [dueTime_finite hr hd]
  have hcases := tdiv_cases (ticks - (n₁ - s) * 4000)
  simp only [clampInt64, int64Min, int64Max] at *
  omega

/-- A task posted when an earlier one with the same delay has its due time is due no earlier. -/
theorem dueTime_le_dueTime {delay : D} {s n₁ n₂ s' n₁' n₂' : Int} (hr : Readings s n₁ n₂)
    (hr' : Readings s' n₁' n₂') (hlater : n₂ ≤ s') (hpos : lt zeroDuration delay = true) :
    dueTime delay s n₁ n₂ ≤ dueTime delay s' n₁' n₂' := by
  obtain ⟨hs, hs₁, h₁₂, hfits⟩ := id hr
  obtain ⟨hs', hs₁', h₁₂', hfits'⟩ := id hr'
  rcases pos_iff.mp hpos with hd | ⟨ticks, hd, hticks⟩
  · rw [dueTime_infinite hd, dueTime_infinite hd]
    omega
  · rw [dueTime_finite hr hd, dueTime_finite hr' hd]
    have hcases := tdiv_cases (ticks - (n₁ - s) * 4000)
    have hcases' := tdiv_cases (ticks - (n₁' - s') * 4000)
    simp only [clampInt64, int64Min, int64Max] at *
    omega

/-- A longer delay gives a later due time, as long as the sum is not narrowed. -/
theorem dueTime_mono {delay delay' : D} (hle : le delay' delay = true) (s n₁ n₂ : Int) :
    dueTime delay' s n₁ n₂ ≤ dueTime delay s n₁ n₂ := by
  have hmicros := micros_mono (sub_mono hle (microseconds (n₁ - s)))
  rw [dueTime, dueTime]
  omega

/-! ## The range of the sum -/

def FitsInt64 (n : Int) : Prop := int64Min ≤ n ∧ n ≤ int64Max

/-- The int64 that a sum leaves when it wraps around, modulo 2^64. -/
def wrapInt64 (n : Int) : Int := Int.bmod n 18446744073709551616

theorem wrapInt64_of_fits {n : Int} (h : FitsInt64 n) : wrapInt64 n = n := by
  obtain ⟨hmin, hmax⟩ := h
  simp only [wrapInt64, Int.bmod, int64Min, int64Max] at *
  omega

/-- No sum of the due time's arithmetic leaves the int64 range, and no shorter delay with the same
    readings gets a later due time: the sum in the constructor of `DelayedTaskInfo`, the difference
    that `ScheduleNextTimer` takes at a later reading, and the heap key. -/
structure InRange (delay : D) (startMicros now₁ now₂ : Int) : Prop where
  sum : FitsInt64 (dueTime delay startMicros now₁ now₂)
  difference : ∀ now, now₂ ≤ now → now ≤ int64Max →
    FitsInt64 (wrapInt64 (dueTime delay startMicros now₁ now₂) - now)
  ordered : ∀ delay' : D, lt zeroDuration delay' = true → le delay' delay = true →
    wrapInt64 (dueTime delay' startMicros now₁ now₂) ≤ wrapInt64 (dueTime delay startMicros now₁ now₂)

/-- The delay ends before the int64 microseconds do, or the clock still reads 0. -/
def EndsInRange (delay : D) (startMicros now₁ now₂ : Int) : Prop :=
  now₂ = 0 ∨
    ∃ ticks, value delay = .finite ticks ∧ ticks < 4000 * (int64Max + 1 - (startMicros + (now₂ - now₁)))

/-- The sum fits exactly when the delay ends in the range. -/
theorem dueTime_le_iff {delay : D} {s n₁ n₂ : Int} (hr : Readings s n₁ n₂)
    (hpos : lt zeroDuration delay = true) :
    dueTime delay s n₁ n₂ ≤ int64Max ↔ EndsInRange delay s n₁ n₂ := by
  obtain ⟨hs, hs₁, h₁₂, hfits⟩ := id hr
  rcases pos_iff.mp hpos with hd | ⟨ticks, hd, hticks⟩
  · rw [dueTime_infinite hd, EndsInRange, hd]
    simp only [reduceCtorEq, false_and, exists_false, or_false]
    omega
  · rw [dueTime_finite hr hd, EndsInRange, hd]
    simp only [Ticks.finite.injEq, exists_eq_left']
    have hcases := tdiv_cases (ticks - (n₁ - s) * 4000)
    simp only [clampInt64, int64Min, int64Max] at *
    omega

/-- **The arithmetic of due times stays in range exactly** when the delay ends before the range does,
    or the clock reads 0. -/
theorem due_time_inRange_iff {delay : D} {s n₁ n₂ : Int} (hr : Readings s n₁ n₂)
    (hpos : lt zeroDuration delay = true) : InRange delay s n₁ n₂ ↔ EndsInRange delay s n₁ n₂ := by
  obtain ⟨hs, hs₁, h₁₂, hfits⟩ := id hr
  have hfrom : ∀ delay' : D, lt zeroDuration delay' = true → le delay' delay = true →
      dueTime delay s n₁ n₂ ≤ int64Max → FitsInt64 (dueTime delay' s n₁ n₂) := by
    intro delay' hpos' hle hmax
    have hstart := start_le_dueTime hr hpos'
    have hmono := dueTime_mono hle s n₁ n₂
    simp only [FitsInt64, int64Min, int64Max] at *
    omega
  have hself : le delay delay = true := by
    rw [le, lt_eq]
    cases value delay <;> simp [Ticks.lt]
  rw [← dueTime_le_iff hr hpos]
  constructor
  · exact fun h => h.sum.2
  · intro hmax
    have hsum := hfrom delay hpos hself hmax
    refine ⟨hsum, fun now hnow hnowfits => ?_, fun delay' hpos' hle => ?_⟩
    · have hstart := start_le_dueTime hr hpos
      rw [wrapInt64_of_fits hsum]
      simp only [FitsInt64, int64Min, int64Max] at *
      omega
    · rw [wrapInt64_of_fits hsum, wrapInt64_of_fits (hfrom delay' hpos' hle hmax)]
      exact dueTime_mono hle s n₁ n₂

theorem due_time_inRange_oneMs : InRange (.finite 4000000 : Ticks) 5 7 9 :=
  (due_time_inRange_iff ⟨by decide, by decide, by decide, by decide⟩ (by decide)).mpr
    (.inr ⟨4000000, rfl, by decide⟩)

/-- `InfiniteDuration` overflows as soon as the clock has moved. -/
theorem infinite_delay_overflows :
    ¬∀ (delay : Ticks) (startMicros now₁ now₂ : Int), lt zeroDuration delay = true →
      Readings startMicros now₁ now₂ → InRange delay startMicros now₁ now₂ := by
  intro hclaim
  have hrange := hclaim .posInf 1 1 1 (by decide) ⟨by decide, by decide, by decide, by decide⟩
  have hsum := hrange.sum.2
  rw [dueTime_infinite rfl] at hsum
  simp [int64Max] at hsum

end IoBase
