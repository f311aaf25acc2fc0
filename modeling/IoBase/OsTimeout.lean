import IoBase.DueTime
import IoBase.Event

/- The timeouts that the waits hand to the operating system.

   On Windows a timeout is a DWORD of milliseconds, of which 0xFFFFFFFF means for ever:
   `Event::Wait` and `ToCmsWait` make it from an int64 by narrowing. On POSIX it is an
   absolute `timespec`, to which `GetTimespec` adds the duration in whole microseconds.
   Each conversion rounds down and saturates.

   Correspondence (C++ ↔ Lean):
     `Event::Wait` (Windows), the DWORD `ms`   ↔ `Event.waitMs`
     `EventLoop::ToCmsWait`, as the DWORD      ↔ `toCmsWait`
     `GetTimespec`                             ↔ `getTimespec`

   * `getTimespec_valid`: for which durations the `timespec` is a valid instant.
   * `wait_never_short`: for which durations `Event::Wait` asks for long enough.
   * `toCmsWait_faithful`: for which the loop's timeout is the one asked for. -/
namespace IoBase
open AbslDuration LawfulDuration WaitDuration

variable {D : Type}

/-- The timeout of the Windows `Event::Wait`. -/
def Event.waitMs [WaitDuration D] (giveUpAfter : D) : BitVec 32 :=
  if isInfiniteDuration giveUpAfter then infinite
  else BitVec.ofInt 32 (max 1 (toInt64Milliseconds giveUpAfter))

/-- The longest timeout that is not `infinite`. -/
def longestMs : Int := 2 ^ 32 - 2

theorem eq_infinite_iff {ms : BitVec 32} : ms = infinite ↔ (ms.toNat : Int) = longestMs + 1 := by
  have hinf : infinite.toNat = 2 ^ 32 - 1 := by decide
  rw [← BitVec.toNat_inj, hinf, longestMs]
  omega

/-! ## The timespec -/

/-- The instant in nanoseconds. -/
def Timespec.nanos (ts : Timespec) : Int := ts.tvSec * kNumNanosecsPerSec + ts.tvNsec

/-- What the clock reads, and what `pthread_cond_timedwait` takes. -/
def Timespec.Normal (ts : Timespec) : Prop := 0 ≤ ts.tvNsec ∧ ts.tvNsec < kNumNanosecsPerSec

instance (ts : Timespec) : Decidable ts.Normal := inferInstanceAs (Decidable (_ ∧ _))

/-- The two ways the sum comes out, with the nanoseconds carried or not. -/
theorem getTimespec_cases [AbslDuration D] (now : Timespec) (d : D) :
    ∃ carry : Int, (carry = 0 ∨ carry = 1) ∧
      (getTimespec now d).tvSec = now.tvSec + (toInt64Microseconds d).tdiv 1000000 + carry ∧
      (getTimespec now d).tvNsec =
        now.tvNsec + (toInt64Microseconds d).tmod 1000000 * 1000 - 1000000000 * carry ∧
      (carry = 1 ↔ 1000000000 ≤ now.tvNsec + (toInt64Microseconds d).tmod 1000000 * 1000) := by
  by_cases hcarry : 1000000000 ≤ now.tvNsec + (toInt64Microseconds d).tmod 1000000 * 1000
  · refine ⟨1, .inr rfl, ?_, ?_, iff_of_true rfl hcarry⟩
    · exact congrArg Timespec.tvSec (if_pos hcarry)
    · exact (congrArg Timespec.tvNsec (if_pos hcarry)).trans (by
        simp [kNumMicrosecsPerSec, kNumNanosecsPerSec, kNumNanosecsPerMicrosec])
  · refine ⟨0, .inl rfl, ?_, ?_, iff_of_false (by decide) hcarry⟩
    · exact (congrArg Timespec.tvSec (if_neg hcarry)).trans (by simp [kNumMicrosecsPerSec])
    · exact (congrArg Timespec.tvNsec (if_neg hcarry)).trans (by
        simp [kNumMicrosecsPerSec, kNumNanosecsPerSec, kNumNanosecsPerMicrosec])

/-- The deadline is the reading and the whole microseconds of the duration. -/
theorem nanos_getTimespec [AbslDuration D] (now : Timespec) (d : D) :
    (getTimespec now d).nanos = now.nanos + 1000 * toInt64Microseconds d := by
  obtain ⟨carry, -, hsec, hnsec, -⟩ := getTimespec_cases now d
  have hsplit := Int.mul_tdiv_add_tmod (toInt64Microseconds d) 1000000
  simp only [Timespec.nanos, kNumNanosecsPerSec, hsec, hnsec]
  omega

/-- Whether it is normalized: where a negative duration borrows from the nanoseconds, nothing repays. -/
theorem normal_getTimespec [AbslDuration D] {now : Timespec} (hnow : now.Normal) {d : D} :
    (getTimespec now d).Normal ↔ 0 ≤ now.tvNsec + 1000 * (toInt64Microseconds d).tmod 1000000 := by
  obtain ⟨carry, hcarry, -, hnsec, hcarry_iff⟩ := getTimespec_cases now d
  have hhigh := Int.tmod_lt_of_pos (toInt64Microseconds d) (show (0 : Int) < 1000000 by decide)
  simp only [Timespec.Normal, kNumNanosecsPerSec, hnsec] at hnow ⊢
  omega

theorem normal_of_nonneg [AbslDuration D] {now : Timespec} (hnow : now.Normal) {d : D}
    (hd : 0 ≤ toInt64Microseconds d) : (getTimespec now d).Normal := by
  have hlow := Int.tmod_nonneg 1000000 hd
  obtain ⟨hnsec, -⟩ := id hnow
  exact (normal_getTimespec hnow).mpr (by omega)

/-- The last instant that a `timespec` holds. -/
def latest : Timespec := ⟨int64Max, 999999999⟩

theorem eq_of_nanos {ts ts' : Timespec} (hts : ts.Normal) (hts' : ts'.Normal) (h : ts.nanos = ts'.nanos) :
    ts = ts' := by
  obtain ⟨sec, nsec⟩ := ts
  obtain ⟨sec', nsec'⟩ := ts'
  simp only [Timespec.Normal, Timespec.nanos, kNumNanosecsPerSec] at hts hts' h
  have hsec : sec = sec' := by omega
  have hnsec : nsec = nsec' := by omega
  rw [hsec, hnsec]

/-! ## A valid instant -/

/-- The first instant that a `timespec` holds. -/
def earliest : Timespec := ⟨int64Min, 0⟩

/-- What the arithmetic of `GetTimespec` computes on the way, all of it in int64. -/
def getTimespecTerms [AbslDuration D] (now : Timespec) (d : D) : List Int :=
  let microsecsFromNow := toInt64Microseconds d
  [microsecsFromNow, microsecsFromNow.tdiv kNumMicrosecsPerSec, microsecsFromNow.tmod kNumMicrosecsPerSec,
    microsecsFromNow.tmod kNumMicrosecsPerSec * kNumNanosecsPerMicrosec,
    now.tvSec + microsecsFromNow.tdiv kNumMicrosecsPerSec,
    now.tvNsec + microsecsFromNow.tmod kNumMicrosecsPerSec * kNumNanosecsPerMicrosec,
    (getTimespec now d).tvSec, (getTimespec now d).tvNsec]

/-- A normalized instant, the whole microseconds of the duration after the reading, without overflow. -/
structure ValidDeadline [AbslDuration D] (now : Timespec) (d : D) : Prop where
  normal : (getTimespec now d).Normal
  exact : (getTimespec now d).nanos = now.nanos + 1000 * toInt64Microseconds d
  fits : ∀ n ∈ getTimespecTerms now d, FitsInt64 n

/-- The quotient and the remainder have the sign of the duration. -/
theorem split_micros (us : Int) :
    1000000 * us.tdiv 1000000 + us.tmod 1000000 = us ∧ -1000000 < us.tmod 1000000 ∧
      us.tmod 1000000 < 1000000 ∧ (0 ≤ us ∧ 0 ≤ us.tmod 1000000 ∨ us ≤ 0 ∧ us.tmod 1000000 ≤ 0) := by
  have hsplit := Int.mul_tdiv_add_tmod us 1000000
  have hlow := Int.lt_tmod_of_pos us (show (0 : Int) < 1000000 by decide)
  have hhigh := Int.tmod_lt_of_pos us (show (0 : Int) < 1000000 by decide)
  refine ⟨hsplit, hlow, hhigh, ?_⟩
  rcases le_total 0 us with hpos | hneg
  · exact .inl ⟨hpos, Int.tmod_nonneg 1000000 hpos⟩
  · have hopposite := Int.tmod_nonneg 1000000 (show 0 ≤ -us by omega)
    rw [Int.neg_tmod] at hopposite
    exact .inr ⟨hneg, by omega⟩

theorem fits_micros [LawfulDuration D] (d : D) : FitsInt64 (toInt64Microseconds d) := by
  rw [toInt64Microseconds_eq]
  cases value d <;> simp only [FitsInt64, Ticks.toInt64, clampInt64, int64Min, int64Max] <;> omega

/-- **A valid deadline.** `GetTimespec` gives a normalized instant that is the whole microseconds of the
    duration after the reading, without overflow, exactly where the nanoseconds of the reading cover what
    a negative duration takes from them, and the sum is an instant that a `timespec` holds. -/
theorem getTimespec_valid [LawfulDuration D] (d : D) {now : Timespec} (hnow : now.Normal)
    (hsec : FitsInt64 now.tvSec) :
    ValidDeadline now d ↔
      0 ≤ now.tvNsec + 1000 * (toInt64Microseconds d).tmod 1000000 ∧
      earliest.nanos ≤ now.nanos + 1000 * toInt64Microseconds d ∧
      now.nanos + 1000 * toInt64Microseconds d ≤ latest.nanos := by
  have hexact := nanos_getTimespec now d
  have hmicros := fits_micros d
  obtain ⟨carry, hcarry, htvSec, htvNsec, hcarry_iff⟩ := getTimespec_cases now d
  constructor
  · intro hvalid
    obtain ⟨hnormal, -, hfits⟩ := hvalid
    have hresult : FitsInt64 (getTimespec now d).tvSec := hfits _ (by simp [getTimespecTerms])
    rw [← hexact]
    refine ⟨(normal_getTimespec hnow).mp hnormal, ?_⟩
    simp only [Timespec.Normal, Timespec.nanos, FitsInt64, earliest, latest, kNumNanosecsPerSec, int64Min,
      int64Max] at *
    omega
  · intro hinstant
    obtain ⟨hborrow, hlow, hhigh⟩ := hinstant
    have hnormal := (normal_getTimespec hnow).mpr hborrow
    have hsplit := split_micros (toInt64Microseconds d)
    refine ⟨hnormal, hexact, fun n hn => ?_⟩
    have hunit : kNumNanosecsPerMicrosec = 1000 := by decide
    simp only [getTimespecTerms, kNumMicrosecsPerSec, hunit, List.mem_cons, List.not_mem_nil, or_false] at hn
    simp only [Timespec.Normal, Timespec.nanos, FitsInt64, earliest, latest, kNumNanosecsPerSec, int64Min,
      int64Max] at *
    omega

/-- A quarter of a second back, from the middle of one. -/
theorem getTimespec_valid_quarter : ValidDeadline ⟨5, 500000000⟩ (Ticks.finite (-1000000000)) :=
  (getTimespec_valid _ (by decide) ⟨by decide, by decide⟩).mpr (by decide)

/-- Half a second back, from its start: the nanoseconds are negative. -/
theorem getTimespec_borrows :
    getTimespec ⟨5, 0⟩ (Ticks.finite (-2000000000)) = ⟨5, -500000000⟩ ∧
    ¬ ValidDeadline ⟨5, 0⟩ (Ticks.finite (-2000000000)) := by
  refine ⟨by decide, fun h => ?_⟩
  have hnormal := h.normal
  revert hnormal
  decide

/-! ## A wait of the asked length -/

section
variable [WaitDuration D]

/-- What `Event::Wait` owes a `giveUpAfter` of so many ticks, not negative: a DWORD of at least as many
    milliseconds, or the longest, and a deadline not before that instant, or the latest. -/
structure AsksEnough (giveUpAfter : D) (now : Timespec) (ticks : Int) : Prop where
  finite : Event.waitMs giveUpAfter ≠ infinite
  ms : ticks ≤ 4000000 * longestMs → ticks ≤ 4000000 * (Event.waitMs giveUpAfter).toNat
  longMs : 4000000 * longestMs < ticks → (Event.waitMs giveUpAfter).toNat = longestMs
  deadline : 4 * now.nanos + ticks ≤ 4 * latest.nanos →
    4 * now.nanos + ticks ≤ 4 * (getTimespec now giveUpAfter).nanos
  longDeadline : 4 * latest.nanos < 4 * now.nanos + ticks → getTimespec now giveUpAfter = latest

/-- Its milliseconds survive the rounding and the DWORD. -/
def MsExact (ticks : Int) : Prop :=
  (ticks ≤ 4000000 * longestMs → ticks ≤ 4000000 ∨ ticks % 4000000 = 0) ∧
  (4000000 * longestMs < ticks → min int64Max (ticks / 4000000) % 2 ^ 32 = longestMs)

/-- Its deadline is a whole number of microseconds away, in an int64, and a `timespec` holds it; the
    last case is of a clock at the end of its range. -/
def DeadlineExact (now : Timespec) (ticks : Int) : Prop :=
  (4 * now.nanos + ticks ≤ 4 * latest.nanos → ticks % 4000 = 0 ∧ ticks ≤ 4000 * int64Max) ∧
  (4 * latest.nanos < 4 * now.nanos + ticks →
    now.nanos + 1000 * min int64Max (ticks / 4000) = latest.nanos)

instance (ticks : Int) : Decidable (MsExact ticks) := inferInstanceAs (Decidable (_ ∧ _))

instance (now : Timespec) (ticks : Int) : Decidable (DeadlineExact now ticks) :=
  inferInstanceAs (Decidable (_ ∧ _))

theorem waitMs_finite {d : D} {ticks : Int} (hd : value d = .finite ticks) :
    Event.waitMs d = BitVec.ofInt 32 (max 1 (toInt64Milliseconds d)) := by
  have hinf : isInfiniteDuration d = false := by
    rw [isInfiniteDuration_eq, hd]
    rfl
  rw [Event.waitMs, hinf]
  rfl

theorem micros_finite {d : D} {ticks : Int} (hd : value d = .finite ticks) (hpos : 0 ≤ ticks) :
    toInt64Microseconds d = min int64Max (ticks / 4000) := by
  rw [toInt64Microseconds_eq, hd]
  exact Ticks.toInt64_of_nonneg (by decide) hpos

/-- The milliseconds of the DWORD, against `MsExact`. -/
theorem msExact_iff {ticks ms : Int} (hpos : 0 ≤ ticks)
    (hms : ms = max 1 (min int64Max (ticks / 4000000)) % 2 ^ 32) :
    (ms ≠ longestMs + 1 ∧ (ticks ≤ 4000000 * longestMs → ticks ≤ 4000000 * ms) ∧
      (4000000 * longestMs < ticks → ms = longestMs)) ↔ MsExact ticks := by
  simp only [MsExact, longestMs, int64Max] at *
  omega

theorem asksEnough_iff {d : D} {now : Timespec} (hnow : now.Normal) {ticks : Int}
    (hd : value d = .finite ticks) (hpos : 0 ≤ ticks) :
    AsksEnough d now ticks ↔ MsExact ticks ∧ DeadlineExact now ticks := by
  have hms : ((Event.waitMs d).toNat : Int) = max 1 (min int64Max (ticks / 4000000)) % 2 ^ 32 := by
    rw [waitMs_finite hd, dword_toNat, toInt64Milliseconds_eq, hd, Ticks.toInt64_of_nonneg (by decide) hpos]
  have hmicros := micros_finite hd hpos
  have hnanos := nanos_getTimespec now d
  have hnormal : (getTimespec now d).Normal := by
    refine normal_of_nonneg hnow ?_
    rw [hmicros, int64Max]
    omega
  have hlatest : getTimespec now d = latest ↔ now.nanos + 1000 * min int64Max (ticks / 4000) = latest.nanos := by
    rw [← hmicros, ← hnanos]
    exact ⟨fun h => by rw [h], eq_of_nanos hnormal (by decide)⟩
  have hcovers : 4 * now.nanos + ticks ≤ 4 * (getTimespec now d).nanos ↔
      ticks % 4000 = 0 ∧ ticks ≤ 4000 * int64Max := by
    rw [hnanos, hmicros, int64Max]
    omega
  rw [← msExact_iff hpos hms, DeadlineExact]
  constructor
  · intro hasks
    obtain ⟨hfinite, hshort, hlong, hdeadline, hfar⟩ := hasks
    exact ⟨⟨fun h => hfinite (eq_infinite_iff.mpr h), hshort, hlong⟩,
      fun hfits => hcovers.mp (hdeadline hfits), fun hbeyond => hlatest.mp (hfar hbeyond)⟩
  · intro hexact
    obtain ⟨⟨hfinite, hshort, hlong⟩, hdeadline, hfar⟩ := hexact
    exact ⟨fun h => hfinite (eq_infinite_iff.mp h), hshort, hlong,
      fun hfits => hcovers.mpr (hdeadline hfits), fun hbeyond => hlatest.mpr (hfar hbeyond)⟩

/-- The waits without end, on the two systems. -/
theorem waitMs_infinite_of_value {d : D} (h : value d = .posInf ∨ value d = .negInf) :
    Event.waitMs d = infinite := by
  have hinf : isInfiniteDuration d = true := by
    rw [isInfiniteDuration_eq]
    exact decide_eq_true h
  rw [Event.waitMs, hinf]
  rfl

theorem giveUpDeadline_eq_none {now : Timespec} {d : D} : giveUpDeadline now d = none ↔ value d = .posInf := by
  rw [giveUpDeadline, eq_eq, value_infiniteDuration]
  by_cases hd : value d = .posInf <;> simp [hd]

/-- A negative wait is one of a millisecond. -/
theorem waitMs_negative {d : D} {ticks : Int} (hd : value d = .finite ticks) (hneg : ticks < 0) :
    Event.waitMs d = 1 := by
  have hms : toInt64Milliseconds d ≤ 0 := by
    have hmono := Ticks.toInt64_mono (a := .finite ticks) (b := .finite 0) (show (0 : Int) < 4000000 by decide)
      (decide_eq_false (by omega))
    rw [toInt64Milliseconds_eq, hd]
    exact hmono
  rw [waitMs_finite hd, max_eq_left (by omega)]
  rfl

/-- **No short wait.** `Event::Wait` never asks the system for less than `giveUpAfter`, of any length and
    at any reading of the clock, and asks it to wait for ever, on both systems, for `+infinity` alone,
    exactly where the length is not `-infinity`, and its milliseconds and its deadline are exact. -/
theorem wait_never_short (giveUpAfter : D) {now : Timespec} (hnow : now.Normal) :
    ((∀ ticks, value giveUpAfter = .finite ticks → 0 ≤ ticks → AsksEnough giveUpAfter now ticks) ∧
      (Event.waitMs giveUpAfter = infinite → value giveUpAfter = .posInf) ∧
      (Event.waitMs giveUpAfter = infinite ↔ giveUpDeadline now giveUpAfter = none)) ↔
    value giveUpAfter ≠ .negInf ∧
      ∀ ticks, value giveUpAfter = .finite ticks → 0 ≤ ticks → MsExact ticks ∧ DeadlineExact now ticks := by
  rw [giveUpDeadline_eq_none]
  cases hd : value giveUpAfter with
  | negInf =>
    have hms := waitMs_infinite_of_value (.inr hd)
    simp [hms]
  | posInf =>
    have hms := waitMs_infinite_of_value (.inl hd)
    simp [hms]
  | finite ticks =>
    constructor
    · intro hnever
      obtain ⟨hasks, -⟩ := hnever
      refine ⟨by simp, fun ticks' hticks hpos => ?_⟩
      exact (asksEnough_iff hnow (hd.trans hticks) hpos).mp (hasks ticks' hticks hpos)
    · intro hfinite
      obtain ⟨-, hexact⟩ := hfinite
      have hasks : ∀ ticks', Ticks.finite ticks = .finite ticks' → 0 ≤ ticks' → AsksEnough giveUpAfter now ticks' :=
        fun ticks' hticks hpos => (asksEnough_iff hnow (hd.trans hticks) hpos).mpr (hexact ticks' hticks hpos)
      have hfinite : Event.waitMs giveUpAfter ≠ infinite := by
        rcases lt_or_ge ticks 0 with hneg | hpos
        · rw [waitMs_negative hd hneg]
          decide
        · exact (hasks ticks rfl hpos).finite
      exact ⟨hasks, fun h => absurd h hfinite, iff_of_false hfinite (by simp)⟩

/-- Three milliseconds, from a second that is almost over. -/
theorem wait_never_short_threeMillis : AsksEnough (Ticks.finite 12000000) ⟨5, 999999999⟩ 12000000 := by
  have hnow : Timespec.Normal ⟨5, 999999999⟩ := by decide
  have hexact : MsExact 12000000 ∧ DeadlineExact ⟨5, 999999999⟩ 12000000 := by decide
  refine ((wait_never_short (Ticks.finite 12000000) hnow).mpr
    ⟨(by decide), fun ticks hticks _ => ?_⟩).1 12000000 rfl (by decide)
  cases hticks
  exact hexact

/-- A millisecond and a half is a wait of one, `2 ^ 32` milliseconds are none at all, one less is for ever,
    and so is `-infinity` on one system and not on the other; half a microsecond has passed at once. -/
theorem short_wait :
    Event.waitMs (Ticks.finite 6000000) = 1 ∧ ¬ AsksEnough (Ticks.finite 6000000) ⟨5, 0⟩ 6000000 ∧
    Event.waitMs (Ticks.finite (4000000 * 2 ^ 32)) = 0 ∧
    Event.waitMs (Ticks.finite (4000000 * (2 ^ 32 - 1))) = infinite ∧
    Event.waitMs Ticks.negInf = infinite ∧ giveUpDeadline ⟨5, 0⟩ Ticks.negInf ≠ none ∧
    getTimespec ⟨5, 0⟩ (Ticks.finite 2000) = ⟨5, 0⟩ := by
  have hshort : ¬ AsksEnough (Ticks.finite 6000000) ⟨5, 0⟩ 6000000 :=
    fun h => absurd (h.ms (by decide)) (by decide)
  exact ⟨by decide, hshort, by decide, by decide, by decide, by decide, by decide⟩

/-! ## The timeout of the loop -/

theorem toCmsWait_of_posInf {d : D} (hd : value d = .posInf) : toCmsWait d = infinite := by
  have heq : eq d infiniteDuration = true := by
    rw [eq_eq, hd, value_infiniteDuration]
    rfl
  rw [toCmsWait, heq]
  rfl

theorem toCmsWait_of_ne {d : D} (hd : value d ≠ .posInf) :
    ((toCmsWait d).toNat : Int) = max 1 (toInt64Milliseconds d) % 2 ^ 32 := by
  have heq : eq d infiniteDuration = false := by
    rw [eq_eq, value_infiniteDuration]
    exact decide_eq_false hd
  rw [toCmsWait, heq]
  exact dword_toNat _

theorem toCmsWait_le_infinite (d : D) : ((toCmsWait d).toNat : Int) ≤ longestMs + 1 := by
  have hlt := (toCmsWait d).isLt
  simp only [longestMs]
  omega

/-- Where the milliseconds do not fit, one millisecond more than the longest is not longer. -/
theorem one_more_le {d : D} (hd : value d ≠ .posInf) (hlong : longestMs < toInt64Milliseconds d) {d' : D}
    (hd' : value d' = .finite (4000000 * (longestMs + 1))) : le d' d = true := by
  rw [le, Bool.not_eq_true', lt_eq, hd']
  rw [toInt64Milliseconds_eq] at hlong
  cases hvalue : value d with
  | posInf => exact absurd hvalue hd
  | negInf =>
    rw [hvalue] at hlong
    exact absurd hlong (by decide)
  | finite ticks =>
    simp only [Ticks.lt, decide_eq_false_iff_not, not_lt]
    by_contra hlt
    have htdiv := Int.tdiv_le_tdiv (show (0 : Int) < 4000000 by decide)
      (show ticks ≤ 4000000 * (longestMs + 1) - 1 by omega)
    have hless : (4000000 * (longestMs + 1) - 1).tdiv 4000000 = longestMs := by decide
    rw [hvalue, Ticks.toInt64] at hlong
    simp only [clampInt64, int64Min, int64Max, longestMs] at *
    omega

/-- Its timeout is `INFINITE` all the same. -/
theorem toCmsWait_one_more :
    ((toCmsWait (microseconds (1000 * (longestMs + 1)) : D)).toNat : Int) = longestMs + 1 ∧
      value (microseconds (1000 * (longestMs + 1)) : D) = .finite (4000000 * (longestMs + 1)) := by
  have hvalue : value (microseconds (1000 * (longestMs + 1)) : D) = .finite (4000000 * (longestMs + 1)) := by
    rw [value_microseconds _ (by decide) (by decide)]
    rfl
  refine ⟨?_, hvalue⟩
  rw [toCmsWait_of_ne (by rw [hvalue]; simp), toInt64Milliseconds_eq, hvalue]
  decide

theorem ne_posInf_of_fits {d : D} (hfits : toInt64Milliseconds d ≤ longestMs) : value d ≠ .posInf := by
  intro hd
  rw [toInt64Milliseconds_eq, hd] at hfits
  exact absurd hfits (by decide)

/-- Milliseconds that fit are the timeout. -/
theorem toCmsWait_fits {d : D} (hfits : toInt64Milliseconds d ≤ longestMs) :
    ((toCmsWait d).toNat : Int) = max 1 (toInt64Milliseconds d) := by
  rw [toCmsWait_of_ne (ne_posInf_of_fits hfits)]
  simp only [longestMs] at hfits
  omega

/-- **Faithful timeout.** What `RunEventLoopOnce` hands to the wait is `INFINITE` for `+infinity` alone, is
    at least 1, is the whole milliseconds where they fit, and is not exceeded by that of a shorter
    duration, exactly where the duration is `+infinity` or its milliseconds fit. -/
theorem toCmsWait_faithful (d : D) :
    ((toCmsWait d = infinite ↔ value d = .posInf) ∧
      (value d ≠ .posInf → 1 ≤ (toCmsWait d).toNat) ∧
      (value d ≠ .posInf → max 1 (toInt64Milliseconds d) ≤ longestMs →
        (toCmsWait d).toNat = max 1 (toInt64Milliseconds d)) ∧
      ∀ d' : D, le d' d = true → (toCmsWait d').toNat ≤ (toCmsWait d).toNat) ↔
    value d = .posInf ∨ toInt64Milliseconds d ≤ longestMs := by
  constructor
  · intro hfaithful
    obtain ⟨hinf, -, -, hmono⟩ := hfaithful
    by_contra hcon
    obtain ⟨hd, hlong⟩ := not_or.mp hcon
    have hlt : ((toCmsWait d).toNat : Int) ≠ longestMs + 1 := fun h => hd (hinf.mp (eq_infinite_iff.mpr h))
    obtain ⟨hms, hvalue⟩ := toCmsWait_one_more (D := D)
    have hle := hmono _ (one_more_le hd (not_le.mp hlong) hvalue)
    have hmax := toCmsWait_le_infinite d
    omega
  · intro hd
    rcases hd with hd | hfits
    · have hms := toCmsWait_of_posInf hd
      have hlast := eq_infinite_iff.mp hms
      refine ⟨iff_of_true hms hd, fun hne => absurd hd hne, fun hne => absurd hd hne, fun d' _ => ?_⟩
      have hmax := toCmsWait_le_infinite d'
      omega
    · have hms := toCmsWait_fits hfits
      have hfinite : toCmsWait d ≠ infinite := by
        rw [Ne, eq_infinite_iff, hms]
        simp only [longestMs] at *
        omega
      refine ⟨iff_of_false hfinite (ne_posInf_of_fits hfits), fun _ => by omega, fun _ _ => hms, fun d' hle => ?_⟩
      have hmillis := millis_mono hle
      have hms' := toCmsWait_fits (hmillis.trans hfits)
      omega

/-- The timeout of `2 ^ 32 - 1` milliseconds is `INFINITE`, and that of one millisecond more is 0. -/
theorem long_timeout :
    toCmsWait (Ticks.finite (4000000 * (2 ^ 32 - 1))) = infinite ∧
    toCmsWait (Ticks.finite (4000000 * 2 ^ 32)) = 0 ∧
    le (Ticks.finite (4000000 * (2 ^ 32 - 1))) (Ticks.finite (4000000 * 2 ^ 32)) = true := by
  decide

end

end IoBase
