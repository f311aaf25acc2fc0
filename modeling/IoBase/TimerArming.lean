import IoBase.Control

/- A delayed task always has a timer that will end the wait.

   `timer_tasks_` and the armed timer change in three places: a post pushes a task
   and re-arms for an earlier due time; a signaled timer is cancelled, its due tasks
   run, and the next one is armed; and between the two, while `RunDueTasks` is on
   the stack, nothing need be armed.

   * `no_lost_timer`: if every `timeSetEvent` succeeds and no delayed task runs the
     loop itself, a wait with delayed tasks outstanding has the timer's event
     signaled or a one-shot timer running that will signal it.
   * `timer_lost`: when `timeSetEvent` fails, the fallback is a timer that only
     posts messages, which the wait does not see. -/
namespace IoBase
open Transition State

variable {D : Type}

/-- The timer's event is signaled, or a one-shot timer that has not expired will signal it. -/
def Timers.Armed (ts : Timers) : Prop := ts.timer.event = true ∨ ts.outstanding ≠ []

/-- The frame is between the cancelling of the signaled timer and the arming of the next. -/
def Frame.handlesDue : Frame D → Bool
  | .due _ => true
  | .runningDue _ => true
  | .scheduling => true
  | _ => false

/-- `ProcessTimerTasksUpTo` is on the stack, with the timer cancelled. -/
def State.handlesDue (s : State D) : Bool := s.stack.any Frame.handlesDue

/-- `timeSetEvent` succeeds, and `RunEventLoopOnce` is not called from a delayed task. -/
def TimerOk (s : State D) : Action D → Prop
  | .resume _ o => o.timer.timeSetEventOk = true
  | .loop o => o.timer.timeSetEventOk = true
  | .runEventLoopOnce _ => s.handlesDue = false
  | _ => True

instance (s : State D) : (a : Action D) → Decidable (TimerOk s a)
  | .resume _ o => inferInstanceAs (Decidable (o.timer.timeSetEventOk = true))
  | .loop o => inferInstanceAs (Decidable (o.timer.timeSetEventOk = true))
  | .runEventLoopOnce _ => inferInstanceAs (Decidable (s.handlesDue = false))
  | .begin | .wakeUp | .call .. | .processPendingTasks | .socket _ | .arrive .. | .expire _
  | .tick _ => .isTrue trivial

/-! ## The timer code -/

namespace Timers
variable {ts : Timers} {o : TimerOutcome} {now : Int}

variable [AbslDuration D]

/-- A timer that is set leaves a one-shot timer running. -/
theorem armed_scheduleNextTimer (ho : o.timeSetEventOk = true) (h : ts.timerTasks ≠ []) :
    (scheduleNextTimer D ts now o).Armed := by
  obtain ⟨top, rest, hcons⟩ := List.exists_cons_of_ne_nil h
  refine .inr ?_
  simp only [scheduleNextTimer, timerTasks_dcheck, BinaryHeap.top?, hcons, List.head?_cons,
    startOneShotTimer, ho, if_true]
  simp

/-- A post leaves a timer armed if one was for the tasks already there. -/
theorem armed_postDelayedTaskOnTaskQueue {task : Closure} {startMicros : Int} {delay : D}
    {now₁ now₂ now₃ : Int} (ho : o.timeSetEventOk = true) (h : ts.timerTasks ≠ [] → ts.Armed) :
    (ts.postDelayedTaskOnTaskQueue task startMicros delay now₁ now₂ now₃ o).Armed := by
  have hset : ∀ (ts' : Timers) (info : DelayedTaskInfo) (now : Int),
      ts'.timerTasks = BinaryHeap.push DelayedTaskInfo.gt ts.timerTasks info →
      (scheduleNextTimer D ts'.cancelTimers now o).Armed := by
    intro ts' info now hpush
    refine armed_scheduleNextTimer ho ?_
    rw [timerTasks_cancelTimers, hpush]
    exact BinaryHeap.push_ne_nil _ _ _
  cases htop : BinaryHeap.top? ts.timerTasks with
  | none =>
    simp only [postDelayedTaskOnTaskQueue, htop, if_true]
    exact hset _ _ _ rfl
  | some top =>
    simp only [postDelayedTaskOnTaskQueue, htop]
    split
    · exact hset _ _ _ rfl
    · refine h fun hnil => ?_
      simp [hnil, BinaryHeap.top?] at htop

omit [AbslDuration D] in
theorem armed_expire {ts' : Timers} {id : Nat} (h : ts.expire id = some ts') : ts'.Armed := by
  simp only [expire] at h
  split at h
  · cases h
    exact .inl rfl
  · cases h

end Timers

/-! ## The invariant -/

/-- Outside `ProcessTimerTasksUpTo`, delayed tasks have a timer armed; and a wait is outside it. -/
structure TimersArmed (s : State D) : Prop where
  armed : s.handlesDue = false → s.timers.timerTasks ≠ [] → s.timers.Armed
  waiting : ∀ timeoutMs fs, s.stack = .waiting timeoutMs :: fs → s.handlesDue = false

theorem handlesDue_congr {s s' : State D} (h : s'.stack = s.stack) : s'.handlesDue = s.handlesDue := by
  simp only [State.handlesDue, h]

/-- A step that leaves the timers alone and does not leave `ProcessTimerTasksUpTo`. -/
theorem TimersArmed.keep {s s' : State D} (h : TimersArmed s) (htimers : s'.timers = s.timers)
    (hdue : s'.handlesDue = false → s.handlesDue = false)
    (hwait : ∀ timeoutMs fs, s'.stack = .waiting timeoutMs :: fs → s'.handlesDue = false) :
    TimersArmed s' where
  armed := by
    intro hd
    rw [htimers]
    exact h.armed (hdue hd)
  waiting := hwait

variable [AbslDuration D]

/-- Steps of public functions: only the post of a delayed task arms. -/
theorem timersArmed_resume {s s' : State D} {i : Tid} {o : Outcome} (hc : Control s)
    (ho : o.timer.timeSetEventOk = true) (h : s.resume i o = some s') (hta : TimersArmed s) :
    TimersArmed s' := by
  have hdue : s'.handlesDue = s.handlesDue := by
    rcases resume_stack_cases hc h with hs | ⟨c, -, -, -, hs⟩
    · exact handlesDue_congr hs
    · simp [State.handlesDue, hs, Frame.handlesDue]
  have hwait : ∀ timeoutMs fs, s'.stack = .waiting timeoutMs :: fs → s'.handlesDue = false := by
    intro timeoutMs fs hs'
    rw [hdue]
    rcases resume_stack_cases hc h with hs | ⟨c, -, -, -, hs⟩
    · exact hta.waiting timeoutMs fs (hs ▸ hs')
    · rw [hs] at hs'
      cases hs'
  have hkeep : s'.timers = s.timers → TimersArmed s' :=
    fun htimers => hta.keep htimers (fun hd => hdue ▸ hd) hwait
  cases resumed h with
  | postTimer hpc =>
    refine ⟨fun hd _ => ?_, hwait⟩
    exact Timers.armed_postDelayedTaskOnTaskQueue ho (hta.armed (hdue ▸ hd))
  | refuse => exact hkeep (by rw [destroyTask_eq]; rfl)
  | quitDestroy => exact hkeep (by rw [destroyTask_eq])
  | _ => exact hkeep rfl

theorem timersArmed_frameStep {s s' : State D} {o : Outcome} {f : Frame D} {fs : List (Frame D)}
    (hc : Control s) (ho : o.timer.timeSetEventOk = true) (hs : s.stack = f :: fs)
    (h : s.frameStep o fs f = some s') (hta : TimersArmed s) : TimersArmed s' := by
  have hwait : ∀ timeoutMs gs, s'.stack = .waiting timeoutMs :: gs → s'.handlesDue = false := by
    intro timeoutMs gs hs'
    rcases frameStep_stack h with hfs | ⟨g, hg, -, hfs⟩
    · have huser := hc.userCode_of_mem hs (.waiting timeoutMs) (by simp [← hfs, hs'])
      cases huser
    · rw [hfs] at hs'
      cases hs'
      cases hg
  have hbelow : f.handlesDue = false → s'.handlesDue = false → s.handlesDue = false := by
    intro hf hd
    have hfs : fs.any Frame.handlesDue = false := by
      rcases frameStep_stack h with hs' | ⟨g, -, -, hs'⟩
      · simpa [State.handlesDue, hs'] using hd
      · simp only [State.handlesDue, hs', List.any_cons, Bool.or_eq_false_iff] at hd
        exact hd.2
    simp [State.handlesDue, hs, hf, hfs]
  have hkeep : f.handlesDue = false → s'.timers = s.timers → TimersArmed s' :=
    fun hf htimers => hta.keep htimers (hbelow hf) hwait
  -- a step inside `ProcessTimerTasksUpTo` that stays inside owes nothing
  have hinside : s'.handlesDue = true → TimersArmed s' := by
    intro hd
    refine ⟨fun hn => ?_, hwait⟩
    rw [hd] at hn
    cases hn
  cases framed h with
  | wait => exact hkeep rfl (by rw [dispatch_eq])
  | start => exact hkeep rfl (by rw [startTask_eq])
  | destroy => exact hkeep rfl (by rw [destroyTask_eq])
  | @finish t rest =>
    cases t with
    | hop n start delay =>
      refine ⟨fun hd _ => ?_, hwait⟩
      exact Timers.armed_postDelayedTaskOnTaskQueue ho (hta.armed (hbelow rfl hd))
    | user n => exact hkeep rfl rfl
    | call c => exact hkeep rfl rfl
  | cancelTimer | notDue | runDue => exact hinside rfl
  | popDue _ hf => rcases hf with ⟨rfl, -⟩ | ⟨rfl, -⟩ <;> exact hinside rfl
  | schedule =>
    refine ⟨fun _ hne => ?_, hwait⟩
    rw [Timers.timerTasks_scheduleNextTimer] at hne
    exact Timers.armed_scheduleNextTimer ho hne
  | _ => exact hkeep rfl rfl

theorem timersArmed_step {s s' : State D} {a : Action D} (hc : Control s) (hok : TimerOk s a)
    (h : step s a = some s') (hta : TimersArmed s) : TimersArmed s' := by
  cases step_cases h with
  | call hm he => rw [enter_frame he]; exact ⟨hta.armed, hta.waiting⟩
  | resume hr => exact timersArmed_resume hc hok hr hta
  | runEventLoopOnce hm =>
    have hdue : s.handlesDue = false := hok
    have hadd : (Frame.waiting (toCmsWait ‹D›) :: s.stack).any Frame.handlesDue = s.handlesDue := rfl
    exact hta.keep rfl (fun hd => hadd ▸ hd) fun _ _ _ => hadd.trans hdue
  | processPendingTasks hm =>
    exact hta.keep rfl id fun _ _ hs => by cases hs
  | loop hout hs hf => exact timersArmed_frameStep hc hok hs hf hta
  | expire he => exact ⟨fun _ _ => Timers.armed_expire he, hta.waiting⟩
  | begin | wakeUp | socket | arrive | tick => exact ⟨hta.armed, hta.waiting⟩

theorem timersArmed_of_reaches {s : State D} (h : ReachesIf TimerOk s) : TimersArmed s :=
  h.invariant_with (fun _ hr => control_of_reaches hr)
    (fun _ _ _ hok hstep hc hta => timersArmed_step hc hok hstep hta)
    ⟨by simp [State.init, Timers.init], by simp [State.init]⟩

/-- **No lost timer** in a run in which every `timeSetEvent` succeeds and no delayed task runs the
    loop: a wait with delayed tasks outstanding has the timer's event signaled or going to be. -/
theorem no_lost_timer {s : State D} (h : ReachesIf TimerOk s) {timeoutMs : BitVec 32}
    {fs : List (Frame D)} (hs : s.stack = .waiting timeoutMs :: fs)
    (htasks : s.timers.timerTasks ≠ []) : s.timers.Armed :=
  have hta := timersArmed_of_reaches h
  hta.armed (hta.waiting timeoutMs fs hs) htasks

/-- A millisecond. -/
def oneMs : Ticks := .finite 4000000

/-- The delayed task of another thread is hopped over and expires; while it runs it posts a second
    one, and the loop waits for that. -/
def rearmRun : List (Action Ticks) :=
  [.begin, .call 1 (.postDelayedTask oneMs), .resume 1 {}, .resume 1 {}, .resume 1 {}, .resume 1 {},
    .resume 1 {}, .runEventLoopOnce .posInf, .loop { wait := .wakeup }, .loop {}, .loop {}, .loop {},
    .loop {}, .loop {}, .loop {}, .tick 1000, .expire 1, .runEventLoopOnce .posInf,
    .loop { wait := .timer }, .loop {}, .loop {}, .call 0 (.postDelayedTask oneMs), .resume 0 {},
    .resume 0 {}, .loop {}, .loop {}, .loop {}, .loop {}, .runEventLoopOnce .posInf]

theorem no_lost_timer_rearm :
    ∃ s : State Ticks, ReachesIf TimerOk s ∧ s.stack = [.waiting infinite] ∧
      s.timers.timerTasks.map (·.task) = [some 1] ∧ s.timers.timer.event = false ∧ s.timers.Armed := by
  have hrun : (runWhile step TimerOk State.init rearmRun).isSome = true := by decide
  have hreach := reaches_get hrun
  exact ⟨_, hreach, rfl, rfl, rfl, no_lost_timer hreach rfl (List.cons_ne_nil _ _)⟩

/-- `timeSetEvent` fails and `SetTimer` succeeds when the loop thread posts a delayed task. -/
def fallbackRun : List (Action Ticks) :=
  [.begin, .call 0 (.postDelayedTask oneMs), .resume 0 {}, .resume 0 { timer := ⟨false, true⟩ },
    .runEventLoopOnce .posInf]

/-- **A timer is lost**: the loop waits on events, and the fallback timer sets none. -/
theorem timer_lost :
    ¬∀ s : State Ticks, Reachable s →
      ∀ timeoutMs fs, s.stack = .waiting timeoutMs :: fs →
        s.timers.timerTasks ≠ [] → s.timers.Armed := by
  intro hclaim
  have hrun : (runWhile step Always State.init fallbackRun).isSome = true := by decide
  rcases hclaim _ (reaches_get hrun) _ _ rfl (List.cons_ne_nil _ _) with hev | hout
  · cases hev
  · exact hout rfl

end IoBase
