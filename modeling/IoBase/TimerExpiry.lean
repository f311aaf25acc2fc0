import IoBase.DelayedSteps

/- The timer of the delayed tasks: its assertions, and what its expiries find.

   Both are about the runs in which no delayed task re-enters the loop (`NoDueReentry`)
   and an int64 holds the readings of the clock and the due times.

   * `timer_checks`: the assertions hold, the two timers are never both set, and the
     event is signaled only while the multimedia timer is set and a task waits.
   * `expiry_productive`: if every time a timer is set, what remains is whole
     milliseconds that a uint32 holds (`WholeMillis`), a timer expires only when the
     top of the heap is due, and `RunDueTasks` runs it. It is exactly then that the
     delay asked for is not shorter than what remains.
   * `expiry_unproductive`: with 1.5 ms remaining the timer is set for 1 ms, and when
     it expires `RunDueTasks` runs nothing. -/
namespace IoBase
open AbslDuration LawfulDuration Transition State

variable {D : Type}

variable [LawfulDuration D]

/-- **The assertions of the timers hold** in a run in which no delayed task re-enters the loop; at most
    one of the two timers is set, and a signaled event is that of a timer set for a task that waits. -/
theorem timer_checks {s : State D} (h : ReachesIf TimersFit s) :
    s.timers.failedChecks = [] ∧
      ¬(s.timers.timer.timerId ≠ 0 ∧ s.timers.timerId ≠ 0) ∧
      (s.timers.timer.event = true → s.timers.timer.timerId ≠ 0 ∧ s.timers.timerTasks ≠ []) := by
  obtain ⟨notes, hrun⟩ : ∃ notes, Reaches (timed D) (fun p a => TimersFit p.1 a) (State.init, []) (s, notes) :=
    h.observed []
  have hdelayed := delayed_run (P := Always) tracked_init (fun _ _ ha => ha) (fun _ _ _ _ _ _ => trivial) hrun
  have hsane := (DelayedTasks.sound_of_run DelayedTasks.sound_init hdelayed).sane
  have hset : s.timers.timer.event = true → s.timers.timer.timerId ≠ 0 := by
    intro hevent h0
    have hoff := (hsane.unset h0).2
    simp only [delayedTasks] at hoff
    rw [hevent] at hoff
    cases hoff
  refine ⟨hsane.checks, fun hboth => ?_, fun hevent => ⟨hset hevent, hsane.armed (hset hevent)⟩⟩
  rcases hsane.exclusive with h0 | h0
  · exact hboth.1 h0
  · exact hboth.2 h0

theorem timer_checks_rearm :
    ∃ s : State Ticks, ReachesIf TimersFit s ∧ s.startedDue.map (·.task) = [some 0] ∧
      s.timers.timerTasks.map (·.task) = [some 1] ∧ s.timers.failedChecks = [] := by
  have hrun : (runWhile step TimersFit State.init rearmRun).isSome = true := by decide
  have hreach := reaches_get hrun
  exact ⟨_, hreach, rfl, rfl, (timer_checks hreach).1⟩

/-! ## The delay asked for -/

/-- What remains until the due time is whole milliseconds that a uint32 holds, or nothing remains. -/
def WholeMillis (dueTimeMicros now : Int) : Prop :=
  dueTimeMicros ≤ now ∨ 1000 ∣ dueTimeMicros - now ∧ dueTimeMicros - now < 1000 * 2 ^ 32

instance (dueTimeMicros now : Int) : Decidable (WholeMillis dueTimeMicros now) :=
  inferInstanceAs (Decidable (_ ∨ _ ∧ _))

/-- `ScheduleNextTimer` asks for the remaining time in whole milliseconds, rounded down, and narrowed
    to a uint32. -/
theorem delayMs_toNat {due now : Int} (hmin : int64Min ≤ due - now) (hmax : due - now ≤ int64Max) :
    ((Timers.delayMs D due now).toNat : Int) = max 0 (due - now) / 1000 % 2 ^ 32 := by
  have hzero : value (zeroDuration : D) = .finite 0 := value_zeroDuration
  have hmicros : value (microseconds (due - now) : D) = .finite ((due - now) * 4000) :=
    value_microseconds _ hmin hmax
  have hdelay : value (stdMax zeroDuration (microseconds (due - now)) : D) =
      .finite (max 0 (due - now) * 4000) := by
    unfold stdMax
    rw [lt_eq, hzero, hmicros]
    simp only [Ticks.lt, decide_eq_true_eq]
    split
    · rw [hmicros]
      congr 1
      omega
    · rw [hzero]
      congr 1
      omega
  have hmillis : toInt64Milliseconds (stdMax zeroDuration (microseconds (due - now)) : D) =
      max 0 (due - now) / 1000 := by
    rw [toInt64Milliseconds_eq, hdelay, Ticks.toInt64_of_nonneg (by decide) (by omega)]
    simp only [int64Max] at *
    omega
  rw [Timers.delayMs, hmillis]
  exact dword_toNat _

/-- The delay asked for is not shorter than what remains exactly when what remains is whole
    milliseconds that a uint32 holds. -/
theorem delayMs_enough {due now : Int} (hmin : int64Min ≤ due - now) (hmax : due - now ≤ int64Max) :
    due - now ≤ 1000 * (Timers.delayMs D due now).toNat ↔ WholeMillis due now := by
  rw [delayMs_toNat hmin hmax, WholeMillis]
  omega

namespace DelayedTasks

/-- The due time and the clock reading for which a step sets a timer, if it calls `ScheduleNextTimer`
    with a task in the heap. -/
def arming {D : Type} [AbslDuration D] (s : DelayedTasks) : Action D → Option (Int × Int)
  | .post p _ | .hop p _ =>
    if (BinaryHeap.top? s.timers.timerTasks).all (·.gt p.info) then some (p.dueTime, p.now₃) else none
  | .loop now _ =>
    match s.pass, BinaryHeap.top? s.timers.timerTasks with
    | some .scheduling, some top => some (top.dueTimeMicros, now)
    | _, _ => none
  | _ => none

/-- A timer that expires does so when the delay asked for has passed since it was set. -/
def InTime {D : Type} (s : DelayedTasks) : Action D → Prop
  | .expire id => ∀ t ∈ s.timers.outstanding, t.id = id → t.setAt + 1000 * t.delayMs.toNat ≤ s.clock
  | _ => True

instance {D : Type} (s : DelayedTasks) : (a : Action D) → Decidable (s.InTime a)
  | .expire id =>
    inferInstanceAs (Decidable (∀ t ∈ s.timers.outstanding, t.id = id → t.setAt + 1000 * t.delayMs.toNat ≤ s.clock))
  | .tick _ | .depart .. | .post .. | .hop .. | .fire _ | .loop .. => .isTrue trivial

/-- Timers are set for whole milliseconds, and expire no earlier. -/
def Productive {D : Type} [AbslDuration D] (s : DelayedTasks) (a : Action D) : Prop :=
  (∀ r ∈ s.arming a, WholeMillis r.1 r.2) ∧ s.InTime a

instance {D : Type} [AbslDuration D] (s : DelayedTasks) (a : Action D) : Decidable (s.Productive a) :=
  inferInstanceAs (Decidable (_ ∧ _))

end DelayedTasks

/-- Whether the last pass has run a task. -/
def passRan {D : Type} (notes : List (TimerNote D)) : Bool :=
  notes.foldl (fun ran note =>
    match note with
    | .fired _ => false
    | .ran .. => true
    | _ => ran) false

/-! ## What an expiry finds -/

/-- The top of the heap is due at `t`. -/
def Timers.TopDueBy (ts : Timers) (t : Int) : Prop :=
  ∃ top, BinaryHeap.top? ts.timerTasks = some top ∧ top.dueTimeMicros ≤ t

/-- The due times fit in an int64; the top of the heap is due when the timer that is set may expire,
    and when the event is signaled. -/
structure Timers.Expecting (ts : Timers) (clock : Int) : Prop where
  dues : ∀ info ∈ ts.timerTasks, 0 ≤ info.dueTimeMicros ∧ info.dueTimeMicros ≤ int64Max
  set : ∀ t ∈ ts.outstanding, ts.TopDueBy (t.setAt + 1000 * t.delayMs.toNat)
  signaled : ts.timer.event = true → ts.TopDueBy clock

namespace Timers
variable {ts : Timers} {o : TimerOutcome}

omit [LawfulDuration D] in
theorem TopDueBy.mono {t u : Int} (h : ts.TopDueBy t) (hle : t ≤ u) : ts.TopDueBy u := by
  obtain ⟨top, htop, ht⟩ := h
  exact ⟨top, htop, Int.le_trans ht hle⟩

/-- A timer set for whole milliseconds does not expire before the top is due. -/
theorem expecting_scheduleNextTimer {now : Int} (hi : ts.Idle) (hnow : 0 ≤ now) (hfits : now ≤ int64Max)
    (hdues : ∀ info ∈ ts.timerTasks, 0 ≤ info.dueTimeMicros ∧ info.dueTimeMicros ≤ int64Max)
    (hwhole : ∀ top, BinaryHeap.top? ts.timerTasks = some top → WholeMillis top.dueTimeMicros now) :
    (scheduleNextTimer D ts now o).Expecting now := by
  have hidle : ts.Expecting now :=
    ⟨hdues, by rw [hi.outstanding]; exact fun _ ht => absurd ht List.not_mem_nil, by simp [hi.timer]⟩
  cases htop : BinaryHeap.top? ts.timerTasks with
  | none =>
    rw [scheduleNextTimer_nil hi (List.head?_eq_none_iff.mp htop)]
    exact hidle
  | some top =>
    rw [scheduleNextTimer_idle hi htop]
    split
    · refine ⟨hdues, fun t ht => ?_, fun he => by cases he⟩
      simp only [List.mem_singleton] at ht
      subst ht
      obtain ⟨h₀, h₁⟩ := hdues top (DelayedTasks.mem_of_top? htop)
      have henough := (delayMs_enough (D := D) (by simp only [int64Min, int64Max] at *; omega)
        (by simp only [int64Max] at *; omega)).mpr (hwhole top htop)
      exact ⟨top, htop, by simp only; omega⟩
    · split
      · exact ⟨hidle.dues, hidle.set, hidle.signaled⟩
      · exact hidle

omit [LawfulDuration D] in
theorem dues_push [AbslDuration D] {p : Post D}
    (h : ∀ info ∈ ts.timerTasks, 0 ≤ info.dueTimeMicros ∧ info.dueTimeMicros ≤ int64Max)
    (hp : 0 ≤ p.dueTime ∧ p.dueTime ≤ int64Max) :
    ∀ info ∈ BinaryHeap.push DelayedTaskInfo.gt ts.timerTasks p.info,
      0 ≤ info.dueTimeMicros ∧ info.dueTimeMicros ≤ int64Max := by
  intro info hi
  rcases List.mem_cons.mp ((BinaryHeap.push_perm _ _ _).mem_iff.mp hi) with rfl | hi
  · exact hp
  · exact h info hi

/-- A post sets the timer for its own task, or leaves the top and the timer as they are. -/
theorem expecting_post {p : Post D} {clock : Int} (hsane : ts.Sane)
    (hord : BinaryHeap.Ordered DelayedTaskInfo.gt ts.timerTasks) (h : ts.Expecting clock)
    (hle : clock ≤ p.now₃) (hp : p.Timely) (hfits : p.now₃ ≤ int64Max) (hdue : p.dueTime ≤ int64Max)
    (hwhole : (BinaryHeap.top? ts.timerTasks).all (·.gt p.info) = true → WholeMillis p.dueTime p.now₃) :
    (ts.post p o).Expecting p.now₃ := by
  have hpos : lt zeroDuration p.delay = true := by simpa [le] using hp.positive
  obtain ⟨-, ⟨hstart, h₁, h₂, -⟩, h₃⟩ := id hp
  have hdues := dues_push h.dues ⟨Int.le_trans hstart (start_le_dueTime hp.readings hpos), hdue⟩
  cases hneed : (BinaryHeap.top? ts.timerTasks).all (·.gt p.info) with
  | true =>
    have hpush : { ts with timerTasks := BinaryHeap.push DelayedTaskInfo.gt ts.timerTasks p.info }.Sane :=
      { hsane with tasks := tasks_push hsane.tasks p, armed := fun _ => BinaryHeap.push_ne_nil _ _ _ }
    rw [post_eq, if_pos hneed]
    refine expecting_scheduleNextTimer (cancelTimers_idle hpush) (by omega) hfits ?_ fun top htop => ?_
    · rw [timerTasks_cancelTimers]
      exact hdues
    · rw [timerTasks_cancelTimers, BinaryHeap.top?_push_before weakOrder_gt hord hneed] at htop
      cases htop
      exact hwhole hneed
  | false =>
    obtain ⟨top, htop, hgt⟩ : ∃ top, BinaryHeap.top? ts.timerTasks = some top ∧ top.gt p.info = false := by
      cases htop : BinaryHeap.top? ts.timerTasks with
      | none => simp [htop] at hneed
      | some top => exact ⟨top, rfl, by simpa [htop] using hneed⟩
    have hkeep : ∀ t, ts.TopDueBy t → TopDueBy { ts with
        timerTasks := BinaryHeap.push DelayedTaskInfo.gt ts.timerTasks p.info } t := by
      intro t hx
      obtain ⟨top', htop', ht⟩ := hx
      rw [htop, Option.some.injEq] at htop'
      exact ⟨top, BinaryHeap.top?_push htop hgt, htop' ▸ ht⟩
    rw [post_of_top htop (not_gt_iff.mp hgt)]
    exact ⟨hdues, fun t ht => hkeep _ (h.set t ht), fun he => hkeep _ ((h.signaled he).mono hle)⟩

end Timers

omit [LawfulDuration D] in
theorem passRan_append (h notes : List (TimerNote D)) :
    passRan (h ++ notes) = notes.foldl (fun ran note =>
      match note with
      | .fired _ => false
      | .ran .. => true
      | _ => ran) (passRan h) := by
  rw [passRan, List.foldl_append]
  rfl

/-- A pass has run a task, or will run the top next. -/
def Productively (p : DelayedTasks × List (TimerNote D)) : DuePass → Prop
  | .due r => passRan p.2 = true ∨ p.1.timers.TopDueBy r
  | .running _ => passRan p.2 = true
  | .scheduling => passRan p.2 = true

structure Expects (p : DelayedTasks × List (TimerNote D)) : Prop where
  sound : p.1.Sound
  expecting : p.1.timers.Expecting p.1.clock
  pass : ∀ q, p.1.pass = some q → Productively p q

theorem Timers.Idle.expecting {ts : Timers} {clock : Int} (hi : ts.Idle)
    (hdues : ∀ info ∈ ts.timerTasks, 0 ≤ info.dueTimeMicros ∧ info.dueTimeMicros ≤ int64Max) :
    ts.Expecting clock :=
  ⟨hdues, by rw [hi.outstanding]; exact fun _ ht => absurd ht List.not_mem_nil, by simp [hi.timer]⟩

namespace DelayedTasks

omit [LawfulDuration D] in
/-- A step that adds no `fired` to the history and keeps the pass and the heap. -/
theorem productively_keep {s s' : DelayedTasks} {h notes : List (TimerNote D)}
    (hpass : ∀ q, s.pass = some q → Productively (s, h) q) (hran : passRan (h ++ notes) = passRan h)
    (hp : s'.pass = s.pass) (htasks : s'.timers.timerTasks = s.timers.timerTasks) :
    ∀ q, s'.pass = some q → Productively (s', h ++ notes) q := by
  intro q hq
  have hold := hpass q (hp ▸ hq)
  cases q with
  | due r => simpa only [Productively, Timers.TopDueBy, hran, htasks] using hold
  | running r => exact hran.trans hold
  | scheduling => exact hran.trans hold

/-- A step of a pass: the first task that it looks at is due, so it runs one. -/
theorem expects_pass {s s' : DelayedTasks} {h : List (TimerNote D)} {now : Int} {o : TimerOutcome}
    {p : DuePass} (hsound : s.Sound) (hexp : s.timers.Expecting s.clock) (hp : s.pass = some p)
    (hold : Productively (s, h) p) (hstep : passStep D s now o p = some s') (hfits : s'.clock ≤ int64Max)
    (hwhole : ∀ r ∈ s.arming (.loop now o : DelayedTasks.Action D), WholeMillis r.1 r.2) :
    s'.timers.Expecting s'.clock ∧
      ∀ q, s'.pass = some q → Productively (s', h ++ s.notes (.loop now o : DelayedTasks.Action D)) q := by
  have hidle := (hsound.pass p hp).idle
  cases p with
  | due r =>
    simp only [passStep] at hstep
    split at hstep
    · cases hstep
    · rename_i top htop
      split at hstep
      · rename_i hgt
        cases hstep
        refine ⟨hexp, fun q hq => ?_⟩
        cases hq
        have hnotes : s.notes (.loop now o : DelayedTasks.Action D) = [] := by
          simp only [notes, hp, htop, if_pos hgt]
        -- the top is not due, so it is not the first one
        rw [hnotes, List.append_nil]
        refine hold.resolve_right fun hdue => ?_
        obtain ⟨top', htop', hle⟩ := hdue
        rw [htop, Option.some.injEq] at htop'
        rw [htop'] at hgt
        omega
      · rename_i hle
        cases hstep
        have hnotes : s.notes (.loop now o : DelayedTasks.Action D) = [.ran top r] := by
          simp only [notes, hp, htop, if_neg hle]
        rw [hsound.sane.tasks top (mem_of_top? htop), Timers.dcheck_true, hnotes]
        refine ⟨hexp, fun q hq => ?_⟩
        cases hq
        rw [Productively, passRan_append]
        rfl
  | running r =>
    obtain ⟨top, htop, -⟩ := (hsound.pass _ hp).2.2
    cases hstep
    have hnotes : s.notes (.loop now o : DelayedTasks.Action D) = [] := by
      simp only [notes, hp]
    have hidle' : { s.timers with
        timerTasks := BinaryHeap.pop DelayedTaskInfo.gt s.timers.timerTasks }.Idle :=
      ⟨hidle.timer, hidle.timerId, hidle.outstanding⟩
    rw [hnotes, List.append_nil]
    refine ⟨hidle'.expecting fun info hi => ?_, fun q hq => ?_⟩
    · have hmem := (BinaryHeap.cons_pop_perm DelayedTaskInfo.gt htop).mem_iff.mp (List.mem_cons_of_mem _ hi)
      exact hexp.dues info hmem
    · simp only [Option.some.injEq] at hq
      split at hq <;> subst hq
      · exact hold
      · exact .inl hold
  | scheduling =>
    simp only [passStep] at hstep
    split at hstep
    · rename_i hnow
      cases hstep
      have hclock₀ := hsound.clock
      refine ⟨Timers.expecting_scheduleNextTimer hidle (by omega) hfits hexp.dues fun top htop => ?_,
        fun q hq => by cases hq⟩
      exact hwhole (top.dueTimeMicros, now) (by simp only [arming, hp, htop, Option.mem_def])
    · cases hstep

theorem expects_step {p q : DelayedTasks × List (TimerNote D)} {a : DelayedTasks.Action D}
    (ha : p.1.Fits a ∧ p.1.Productive a) (hstepₕ : delayed D p a = some q) (hp : Expects p) : Expects q := by
  obtain ⟨s, h⟩ := p
  obtain ⟨s', h'⟩ := q
  obtain ⟨⟨hclock, hdues⟩, hwhole, hintime⟩ := ha
  obtain ⟨hstep, hnotes⟩ := observe_eq_some.mp hstepₕ
  obtain ⟨hsound, hexp, hpass⟩ := hp
  simp only at hstep hnotes hsound hexp hpass hclock hdues hwhole hintime
  have hfits := hclock s' hstep
  have hsound' := sound_step hsound hstep
  subst hnotes
  suffices hrest : s'.timers.Expecting s'.clock ∧ ∀ q, s'.pass = some q → Productively (s', h ++ s.notes a) q from
    ⟨hsound', hrest.1, hrest.2⟩
  cases a with
  | tick micros =>
    cases hstep
    refine ⟨⟨hexp.dues, hexp.set, fun he => (hexp.signaled he).mono (by simp only; omega)⟩, ?_⟩
    exact productively_keep hpass (by rw [passRan_append]; rfl) rfl rfl
  | depart task delay startMicros =>
    simp only [step] at hstep
    split at hstep
    · rename_i hle
      cases hstep
      refine ⟨⟨hexp.dues, hexp.set, fun he => (hexp.signaled he).mono hle⟩, ?_⟩
      exact productively_keep hpass (by rw [passRan_append]; rfl) rfl rfl
    · cases hstep
  | post p o =>
    simp only [step] at hstep
    split at hstep
    · rename_i hguard
      obtain ⟨hmay, hle, hp⟩ := hguard
      cases hstep
      have h₁ := hp.readings.start_le
      have h₂ := hp.readings.now_le
      have h₃ := hp.now_le
      refine ⟨Timers.expecting_post hsound.sane hsound.ordered hexp (by omega) hp hfits
        (hdues (.queued true p) (by simp [notes])) fun hneed => hwhole _ (if_pos hneed), fun q hq => ?_⟩
      have hold := hpass q hq
      simp only at hq
      cases q with
      | running r =>
        rw [Productively, passRan_append]
        exact hold
      | due r => simp [mayPost, hq] at hmay
      | scheduling => simp [mayPost, hq] at hmay
    · cases hstep
  | hop p o =>
    simp only [step] at hstep
    split at hstep
    · rename_i hguard
      obtain ⟨hnone, hle, hp⟩ := hguard
      cases hstep
      have h₂ := hp.readings.now_le
      have h₃ := hp.now_le
      refine ⟨Timers.expecting_post hsound.sane hsound.ordered hexp (by omega) hp hfits
        (hdues (.queued false p) (by simp [notes])) fun hneed => hwhole _ (if_pos hneed), fun q hq => ?_⟩
      simp [hnone] at hq
    · cases hstep
  | fire now =>
    simp only [step] at hstep
    split at hstep
    · rename_i hguard
      obtain ⟨hnone, hevent, hle, hne⟩ := hguard
      cases hstep
      have hidle := hsound'.pass _ rfl
      refine ⟨hidle.1.expecting ?_, fun q hq => ?_⟩
      · rw [Timers.timerTasks_dcheck, Timers.timerTasks_cancel]
        exact hexp.dues
      · cases hq
        refine .inr ?_
        simp only [Timers.TopDueBy, Timers.timerTasks_dcheck, Timers.timerTasks_cancel]
        exact (hexp.signaled hevent).mono hle
    · cases hstep
  | loop now o =>
    obtain ⟨p, hp, hstep⟩ := Option.bind_eq_some_iff.mp hstep
    exact expects_pass hsound hexp hp (hpass p hp) hstep hfits hwhole
  | expire id =>
    simp only [step, Option.map_eq_some_iff] at hstep
    obtain ⟨timers, he, rfl⟩ := hstep
    refine ⟨?_, productively_keep hpass (by rw [passRan_append]; rfl) rfl (Timers.expire_frame he).1⟩
    simp only [Timers.expire] at he
    split at he
    · rename_i hany
      cases he
      obtain ⟨t, ht, hid⟩ := List.any_eq_true.mp hany
      refine ⟨hexp.dues, fun t ht => hexp.set t (List.mem_of_mem_filter ht), fun _ => ?_⟩
      exact (hexp.set t ht).mono (hintime t ht (by simpa using hid))
    · cases he

omit [LawfulDuration D] in
theorem expects_init : Expects ((init, []) : DelayedTasks × List (TimerNote D)) where
  sound := sound_init
  expecting := ⟨fun _ h => absurd h List.not_mem_nil, fun _ h => absurd h List.not_mem_nil, fun h => by cases h⟩
  pass := fun _ h => by cases h

end DelayedTasks

/-- The timers are set for whole milliseconds and do not expire early. -/
def ExpiresInTime (s : State D) (a : Action D) : Prop :=
  TimersFit s a ∧ ∀ b ∈ s.timerAct a, s.delayedTasks.Productive b

instance (s : State D) (a : Action D) : Decidable (ExpiresInTime s a) :=
  inferInstanceAs (Decidable (_ ∧ _))

/-- **Every expiry is productive** in a run in which each timer is set when what remains is whole
    milliseconds that a uint32 holds: it is exactly then that the delay asked for is not shorter than
    what remains. `ProcessTimerTasksUpTo` then finds the top of the heap due, and no pass ends without
    having run a task. -/
theorem expiry_productive :
    (∀ due now : Int, int64Min ≤ due - now → due - now ≤ int64Max →
      (due - now ≤ 1000 * (Timers.delayMs D due now).toNat ↔ WholeMillis due now)) ∧
    ∀ (s : State D) (h : List (TimerNote D)),
      Reaches (timed D) (fun p a => ExpiresInTime p.1 a) (State.init, []) (s, h) →
        (∀ fs, s.stack = .timerFired :: fs → s.timers.TopDueBy s.clock) ∧
        (∀ fs, s.stack = .scheduling :: fs → passRan h = true) := by
  refine ⟨fun due now hmin hmax => delayMs_enough hmin hmax, fun s h hrun => ?_⟩
  have hdelayed := delayed_run (P := fun p b => p.1.Productive b) tracked_init (fun _ _ ha => ha.1)
    (fun _ _ b _ ha hb => ha.2 b hb) hrun
  have hexpects : Expects (s.delayedTasks, h) :=
    hdelayed.invariant (fun _ _ _ ha hstep hp => DelayedTasks.expects_step ha hstep hp) DelayedTasks.expects_init
  have htracked : Tracked s :=
    hrun.invariant (P := fun p => Tracked p.1)
      (fun _ _ _ ha hstep hp => tracked_step ha.1.1 (observe_eq_some.mp hstep).1 hp) tracked_init
  refine ⟨fun fs hs => ?_, fun fs hs => ?_⟩
  · exact hexpects.expecting.signaled (htracked.onePass.fired fs hs)
  · exact hexpects.pass .scheduling (by simp only [delayedTasks, hs]; rfl)

/-- The loop thread posts a task with a delay of a millisecond, which is run when the timer expires. -/
def expiryRun (delay : Ticks) : List (Action Ticks) :=
  [.begin, .call 0 (.postDelayedTask delay), .resume 0 {}, .resume 0 {}, .runEventLoopOnce .posInf,
    .tick 1000, .expire 1, .loop { wait := .timer }, .loop {}, .loop {}]

theorem expiry_productive_oneMs :
    ∃ p : State Ticks × List (TimerNote Ticks),
      Reaches (timed Ticks) (fun p a => ExpiresInTime p.1 a) (State.init, []) p ∧
        p.1.startedDue.map (·.task) = [some 0] ∧ (∃ fs, p.1.stack = .scheduling :: fs) ∧ passRan p.2 = true := by
  have hrun : (runWhile (timed Ticks) (fun p a => ExpiresInTime p.1 a) (State.init, [])
      (expiryRun oneMs ++ [.loop {}])).isSome = true := by decide
  have hreach := reaches_get hrun
  exact ⟨_, hreach, rfl, ⟨_, rfl⟩, (expiry_productive.2 _ _ hreach).2 _ rfl⟩

/-- The timer that is set for a task with a delay of 1.5 ms expires after 1 ms. -/
theorem expiry_unproductive :
    ¬∀ (s : State Ticks) (h : List (TimerNote Ticks)),
      Reaches (timed Ticks) (fun p a => TimersFit p.1 a ∧ ∀ b ∈ p.1.timerAct a, p.1.delayedTasks.InTime b)
        (State.init, []) (s, h) →
      ∀ fs, s.stack = .scheduling :: fs → passRan h = true := by
  intro hclaim
  have hrun : (runWhile (timed Ticks)
      (fun p a => TimersFit p.1 a ∧ ∀ b ∈ p.1.timerAct a, p.1.delayedTasks.InTime b) (State.init, [])
      (expiryRun (.finite 6000000))).isSome = true := by decide
  have hran := hclaim _ _ (reaches_get hrun) _ rfl
  cases hran

end IoBase
