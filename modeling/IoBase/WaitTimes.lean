import IoBase.Deadline
import IoBase.EvenLoop

/- The time of the `poll` wait and of the epoll wait of `EvenLoop`, in `event_loop_temp.cc`.

   Both fix the deadline in milliseconds when they are entered; each call is given `msWait`,
   and after it `msWait` is made of what is left until the deadline. They differ in when
   nothing is left, which ends them. A call lasts at most the timeout it is given, and times
   out only when that has passed; outside a call any time may pass.

   Correspondence (C++ ↔ Lean):
     `msWait`, `msStop`, and the clock       ↔ `WaitTimes`
     their first values                      ↔ `WaitTimes.start`
     the end of an iteration                 ↔ `WaitTimes.recalc`
     the loop, by what it does to the times  ↔ `WaitLoop.Stepped`

   * `Sound`: what the times keep.
   * `OnTime`: that what is left is not negative before a call, and the loop is one with a
     deadline. -/
namespace IoBase
open Transition

/-! ## The times of a wait -/

/-- The variables for the time, the clock, and the time in the calls. -/
structure WaitTimes where
  cmsWait : Int
  msWait : Int
  msStop : Int
  now : Int
  spentNs : Int

namespace WaitTimes

def start (cmsWait now : Int) : WaitTimes :=
  if cmsWait = EvenLoop.kForeverMs then ⟨cmsWait, -1, -1, now, 0⟩
  else ⟨cmsWait, cmsWait, timeAfter now cmsWait, now, 0⟩

/-- The timeout of a call. -/
def timeout (t : WaitTimes) : Int := wrapInt32 t.msWait

/-- Whether a call that began at `since` can go on to `later`; a negative timeout is none. -/
def mayLast (t : WaitTimes) (since later : Int) : Bool :=
  decide (t.timeout < 0) || decide (later ≤ since + 1000000 * t.timeout)

/-- Whether the timeout of a call that began at `since` has passed. -/
def timedOut (t : WaitTimes) (since : Int) : Bool :=
  decide (0 ≤ t.timeout) && decide (since + 1000000 * t.timeout ≤ t.now)

/-- Time passes in a call. -/
def spend (t : WaitTimes) (ns : Nat) : WaitTimes := { t with now := t.now + ns, spentNs := t.spentNs + ns }

def recalc (t : WaitTimes) : WaitTimes :=
  if t.cmsWait = EvenLoop.kForeverMs then t else { t with msWait := timeDiff t.msStop (timeMillis t.now) }

/-- The same times, as a wait with a deadline. -/
def deadline (t : WaitTimes) (phase : Deadline.Phase) : Deadline.Wait :=
  ⟨t.msStop, t.now, t.spentNs, phase⟩

/-- What the times of a wait of `cmsWait` that began at `t₀` keep. -/
structure Sound (t₀ cmsWait : Int) (t : WaitTimes) : Prop where
  asked : t.cmsWait = cmsWait
  stop : t.msStop = timeMillis t₀ + cmsWait
  begun : t₀ ≤ t.now
  left : t.msWait ≤ cmsWait

variable {t₀ cmsWait : Int} {t : WaitTimes}

theorem timeMillis_eq_ediv {nanos : Int} (h : 0 ≤ nanos) : timeMillis nanos = nanos / 1000000 :=
  Int.tdiv_eq_ediv_of_nonneg h

theorem start_eq (hpos : 1 ≤ cmsWait) : start cmsWait t₀ = ⟨cmsWait, cmsWait, timeAfter t₀ cmsWait, t₀, 0⟩ := by
  refine if_neg ?_
  rw [EvenLoop.kForeverMs]
  omega

theorem sound_start (hpos : 1 ≤ cmsWait) : Sound t₀ cmsWait (start cmsWait t₀) := by
  rw [start_eq hpos]
  exact ⟨rfl, rfl, Int.le_refl _, Int.le_refl _⟩

/-- The wait has begun as a wait with a deadline. -/
theorem deadline_start (hpos : 1 ≤ cmsWait) (ht₀ : 0 ≤ t₀) :
    (start cmsWait t₀).deadline (.ready (start cmsWait t₀).msWait) = Deadline.start 1000000 cmsWait t₀ := by
  rw [start_eq hpos, deadline, Deadline.start, timeAfter, timeMillis_eq_ediv ht₀]

theorem Sound.pass (h : Sound t₀ cmsWait t) (ns : Nat) : Sound t₀ cmsWait { t with now := t.now + ns } :=
  ⟨h.asked, h.stop, Int.le_trans h.begun (by simp), h.left⟩

theorem Sound.spend (h : Sound t₀ cmsWait t) (ns : Nat) : Sound t₀ cmsWait (t.spend ns) :=
  ⟨h.asked, h.stop, Int.le_trans h.begun (by simp [WaitTimes.spend]), h.left⟩

theorem Sound.recalc (h : Sound t₀ cmsWait t) (hpos : 1 ≤ cmsWait) :
    t.recalc = { t with msWait := timeDiff t.msStop (timeMillis t.now) } ∧ Sound t₀ cmsWait t.recalc := by
  have hfinite : t.cmsWait ≠ EvenLoop.kForeverMs := by
    rw [h.asked, EvenLoop.kForeverMs]
    omega
  have heq : t.recalc = { t with msWait := timeDiff t.msStop (timeMillis t.now) } := if_neg hfinite
  have hmono := timeMillis_mono h.begun
  have hstop := h.stop
  refine ⟨heq, ?_⟩
  rw [heq]
  refine ⟨h.asked, h.stop, h.begun, ?_⟩
  show t.msStop - timeMillis t.now ≤ cmsWait
  omega

/-- The timeout is what is left, while that is not negative. -/
theorem Sound.timeout (h : Sound t₀ cmsWait t) (hmax : cmsWait ≤ int32Max) (hleft : 0 ≤ t.msWait) :
    t.timeout = t.msWait := by
  refine wrapInt32_of_fits ⟨?_, Int.le_trans h.left hmax⟩
  rw [int32Min]
  omega

/-- In a call, the time that passes is time of the wait with the deadline. -/
theorem Sound.last {since : Int} {ns : Nat} (h : Sound t₀ cmsWait t) (hmax : cmsWait ≤ int32Max)
    (hleft : 0 ≤ t.msWait) (hlasts : t.mayLast since (t.now + ns) = true) :
    Deadline.step 1000000 (t.deadline (.calling since t.msWait)) (.last ns) =
      some ((t.spend ns).deadline (.calling since t.msWait)) := by
  rw [mayLast, h.timeout hmax hleft, Bool.or_eq_true, decide_eq_true_eq, decide_eq_true_eq] at hlasts
  exact if_pos (hlasts.resolve_left (by omega))

/-- After a call, the recalculation is a reading of the clock. -/
theorem Sound.read (h : Sound t₀ cmsWait t) (hpos : 1 ≤ cmsWait) (ht₀ : 0 ≤ t₀) :
    Deadline.step 1000000 (t.deadline .returned) .read = some (t.recalc.deadline (.ready t.recalc.msWait)) := by
  rw [(h.recalc hpos).1]
  have hnow : timeMillis t.now = t.now / 1000000 := timeMillis_eq_ediv (Int.le_trans ht₀ h.begun)
  simp only [Deadline.step, deadline, timeDiff, hnow]

/-- A call whose timeout has passed has come to the deadline. -/
theorem Sound.stop_le {since : Int} (h : Sound t₀ cmsWait t) (hpos : 1 ≤ cmsWait) (hmax : cmsWait ≤ int32Max)
    (ht₀ : 0 ≤ t₀) (hleft : 0 ≤ t.msWait) (hpassed : t.timedOut since = true)
    (hrun : Reaches (Deadline.step 1000000) Always (Deadline.start 1000000 cmsWait t₀)
      (t.deadline (.calling since t.msWait))) : t.msStop ≤ timeMillis t.now := by
  rw [timedOut, h.timeout hmax hleft, Bool.and_eq_true, decide_eq_true_eq, decide_eq_true_eq] at hpassed
  rw [timeMillis_eq_ediv (Int.le_trans ht₀ h.begun)]
  exact Deadline.stop_le_of_timeout (by decide) (by omega) hrun rfl hpassed.2

end WaitTimes

/-! ## The loop -/

/-- Where the loop is: before a call, in it since this time, between the call and the end of the iteration,
    or out of it. -/
inductive WaitPhase where
  | head
  | calling (since : Int)
  | dispatching
  | returned (ok : Bool)
  deriving DecidableEq, Repr

structure WaitLoop extends WaitTimes where
  fWait : Bool
  phase : WaitPhase

namespace WaitLoop

/-- What a step does to the times. With nothing left the loop ends, or makes one more call. -/
inductive Stepped (s : WaitLoop) : WaitLoop → Prop where
  | quiet : Stepped s s
  | pass (ns : Nat) : (∀ since, s.phase ≠ .calling since) → Stepped s { s with now := s.now + ns }
  | last {since : Int} (ns : Nat) : s.phase = .calling since → s.mayLast since (s.now + ns) = true →
      Stepped s { s with toWaitTimes := s.spend ns }
  | call : s.phase = .head → s.fWait = true → Stepped s { s with phase := .calling s.now }
  | woken : s.phase = .head → s.fWait = false → Stepped s { s with phase := .returned true }
  | timeout {since : Int} : s.phase = .calling since → s.timedOut since = true →
      Stepped s { s with phase := .returned true }
  | failed {since : Int} : s.phase = .calling since → Stepped s { s with phase := .returned false }
  | back {since : Int} : s.phase = .calling since → Stepped s { s with phase := .dispatching }
  | dispatch (fWait : Bool) : s.phase = .dispatching → Stepped s { s with fWait := fWait }
  | ended : s.phase = .dispatching → s.cmsWait ≠ EvenLoop.kForeverMs → s.toWaitTimes.recalc.msWait ≤ 0 →
      Stepped s { s with toWaitTimes := s.toWaitTimes.recalc, phase := .returned true }
  | next : s.phase = .dispatching → (s.cmsWait = EvenLoop.kForeverMs ∨ 0 ≤ s.toWaitTimes.recalc.msWait) →
      Stepped s { s with toWaitTimes := s.toWaitTimes.recalc, phase := .head }

/-- The same loop, as a wait with a deadline. -/
def deadline (s : WaitLoop) : Deadline.Wait :=
  s.toWaitTimes.deadline (match s.phase with
    | .head => .ready s.msWait
    | .calling since => .calling since s.msWait
    | _ => .returned)

/-- What a wait of `cmsWait` that began at `t₀` keeps: before a call and in it, what is left is not
    negative; and it ends well only by its Signaler or when its time has come. -/
structure OnTime (t₀ cmsWait : Int) (s : WaitLoop) : Prop where
  sound : s.toWaitTimes.Sound t₀ cmsWait
  head : s.phase = .head → 0 ≤ s.msWait
  calling : ∀ since, s.phase = .calling since → 0 ≤ s.msWait
  ended : s.phase = .returned true → s.fWait = true → s.msStop ≤ timeMillis s.now
  run : Reaches (Deadline.step 1000000) Always (Deadline.start 1000000 cmsWait t₀) s.deadline

variable {t₀ cmsWait : Int} {s s' : WaitLoop}

theorem onTime_start (hpos : 1 ≤ cmsWait) (ht₀ : 0 ≤ t₀) : OnTime t₀ cmsWait ⟨.start cmsWait t₀, true, .head⟩ where
  sound := WaitTimes.sound_start hpos
  head := fun _ => by
    show 0 ≤ (WaitTimes.start cmsWait t₀).msWait
    rw [WaitTimes.start_eq hpos]
    exact Int.le_trans (by decide) hpos
  calling := fun _ h => by cases h
  ended := fun h => by cases h
  run := by
    have hstart : deadline ⟨.start cmsWait t₀, true, .head⟩ = Deadline.start 1000000 cmsWait t₀ :=
      WaitTimes.deadline_start hpos ht₀
    rw [hstart]
    exact .refl

/-- The loop is between a call and the next one, or over. -/
theorem OnTime.apart (h : OnTime t₀ cmsWait s) (hs' : s'.toWaitTimes = s.toWaitTimes)
    (hphase : s'.phase = .dispatching ∨ s'.phase = .returned false)
    (hrun : Reaches (Deadline.step 1000000) Always (Deadline.start 1000000 cmsWait t₀)
      (s.toWaitTimes.deadline .returned)) : OnTime t₀ cmsWait s' := by
  have hdeadline : s'.deadline = s.toWaitTimes.deadline .returned := by
    obtain hphase | hphase := hphase <;> simp only [deadline, hphase, hs']
  refine ⟨hs' ▸ h.sound, fun hh => ?_, fun since hc => ?_, fun hr => ?_, hdeadline ▸ hrun⟩
  · obtain hphase | hphase := hphase <;> cases hphase.symm.trans hh
  · obtain hphase | hphase := hphase <;> cases hphase.symm.trans hc
  · obtain hphase | hphase := hphase <;> cases hphase.symm.trans hr

/-- What the clock is read for. -/
theorem OnTime.recalc (hpos : 1 ≤ cmsWait) (ht₀ : 0 ≤ t₀) (h : OnTime t₀ cmsWait s)
    (hphase : s.phase = .dispatching) :
    s.cmsWait ≠ EvenLoop.kForeverMs ∧
    (s.toWaitTimes.recalc.msWait ≤ 0 → OnTime t₀ cmsWait ⟨s.toWaitTimes.recalc, s.fWait, .returned true⟩) ∧
    (0 ≤ s.toWaitTimes.recalc.msWait → OnTime t₀ cmsWait ⟨s.toWaitTimes.recalc, s.fWait, .head⟩) := by
  obtain ⟨heq, hsound⟩ := h.sound.recalc hpos
  have hrun := h.run
  simp only [deadline, hphase] at hrun
  refine ⟨?_, fun hnone => ?_, fun hleft => ?_⟩
  · rw [h.sound.asked, EvenLoop.kForeverMs]
    omega
  · refine ⟨hsound, fun h => (by cases h), fun _ h => (by cases h), fun _ _ => ?_, ?_⟩
    · show s.toWaitTimes.recalc.msStop ≤ timeMillis s.toWaitTimes.recalc.now
      rw [heq] at hnone ⊢
      simp only [timeDiff] at hnone ⊢
      omega
    · show Reaches _ _ _ (s.toWaitTimes.recalc.deadline .returned)
      rw [heq]
      exact hrun
  · refine ⟨hsound, fun _ => hleft, fun _ h => (by cases h), fun h => (by cases h), ?_⟩
    exact hrun.tail trivial (h.sound.read hpos ht₀)

theorem OnTime.step (hpos : 1 ≤ cmsWait) (hmax : cmsWait ≤ int32Max) (ht₀ : 0 ≤ t₀) (hs : Stepped s s')
    (h : OnTime t₀ cmsWait s) : OnTime t₀ cmsWait s' := by
  have hrun := h.run
  -- a call returns
  have hret : ∀ {since : Int}, s.phase = .calling since →
      Reaches (Deadline.step 1000000) Always (Deadline.start 1000000 cmsWait t₀)
        (s.toWaitTimes.deadline .returned) := by
    intro since hphase
    simp only [deadline, hphase] at hrun
    exact hrun.tail trivial (a := .ret) rfl
  cases hs with
  | quiet => exact h
  | pass ns hphase =>
    refine ⟨h.sound.pass ns, h.head, h.calling, fun hr hf => ?_, ?_⟩
    · exact Int.le_trans (h.ended hr hf) (timeMillis_mono (by simp))
    · refine hrun.tail trivial (a := .pass ns) ?_
      cases hp : s.phase with
      | calling since => exact absurd hp (hphase since)
      | _ => simp only [deadline, hp, Deadline.step, WaitTimes.deadline]
  | last ns hphase hlasts =>
    have hlast := h.sound.last hmax (h.calling _ hphase) hlasts
    refine ⟨h.sound.spend ns, fun hh => ?_, fun since hc => h.calling since hc, fun hr => ?_, ?_⟩
    · cases hphase.symm.trans hh
    · cases hphase.symm.trans hr
    · simp only [deadline, hphase] at hrun ⊢
      exact hrun.tail trivial hlast
  | call hphase hwait =>
    refine ⟨h.sound, fun hh => (by cases hh), fun _ _ => h.head hphase, fun hr => (by cases hr), ?_⟩
    simp only [deadline, hphase] at hrun
    exact hrun.tail trivial (a := .call) rfl
  | woken hphase hwoken =>
    refine ⟨h.sound, fun hh => (by cases hh), fun _ hc => (by cases hc), fun _ hf => ?_, ?_⟩
    · cases hwoken.symm.trans hf
    · simp only [deadline, hphase] at hrun
      exact hrun.tail trivial (a := .ret) rfl
  | @timeout since hphase hpassed =>
    refine ⟨h.sound, fun hh => (by cases hh), fun _ hc => (by cases hc), fun _ _ => ?_, hret hphase⟩
    refine h.sound.stop_le hpos hmax ht₀ (h.calling since hphase) hpassed ?_
    simpa only [deadline, hphase] using hrun
  | failed hphase => exact h.apart rfl (.inr rfl) (hret hphase)
  | back hphase => exact h.apart rfl (.inl rfl) (hret hphase)
  | dispatch fWait hphase =>
    refine h.apart rfl (.inl hphase) ?_
    simpa only [deadline, hphase] using hrun
  | ended hphase _ hnone => exact (h.recalc hpos ht₀ hphase).2.1 hnone
  | next hphase hleft =>
    obtain ⟨hfinite, -, hnext⟩ := h.recalc hpos ht₀ hphase
    exact hnext (hleft.resolve_left hfinite)

/-- The calls last less than a millisecond longer together than was asked for, and a wait that ends without
    a wake-up has come to the deadline. -/
theorem OnTime.bounds (hpos : 1 ≤ cmsWait) (h : OnTime t₀ cmsWait s) :
    s.spentNs < 1000000 * (cmsWait + 1) ∧
    (s.phase = .returned true → s.fWait = true → timeMillis t₀ + cmsWait ≤ timeMillis s.now) := by
  have hspent := Deadline.spent_lt (by decide) (by omega) h.run
  refine ⟨hspent, fun hended hwait => ?_⟩
  rw [← h.sound.stop]
  exact h.ended hended hwait

end WaitLoop

end IoBase
