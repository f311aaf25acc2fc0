import IoBase.DelayedSteps

/- Delayed tasks are never early, however long a hop takes.

   Every entry of `timer_tasks_` was put there for a post (`Scheduled`): on the loop
   thread at once, from another thread when the hop is run, with the clock reading of
   the post and the delay that it was given. So `dueTime_bounds` speaks of every task
   in the heap and of every task that is run, in every run of the loop, whatever
   re-enters it (`never_early`). -/
namespace IoBase
open AbslDuration LawfulDuration Transition State

variable {D : Type}

section Steps
variable [AbslDuration D]

/-- What a step adds to the history of the delayed tasks, and the heap it leaves. -/
inductive TasksStep (s : State D) : List (TimerNote D) → List DelayedTaskInfo → Prop where
  | post {p : Post D} : p.Timely →
      TasksStep s [.posted p.task p.delay p.startMicros, .queued true p]
        (BinaryHeap.push DelayedTaskInfo.gt s.timers.timerTasks p.info)
  | hop {p : Post D} : p.Timely → s.InFlight (.hop p.task p.startMicros p.delay) →
      TasksStep s [.queued false p] (BinaryHeap.push DelayedTaskInfo.gt s.timers.timerTasks p.info)
  | depart {task : Closure} {delay : D} {startMicros : Int} :
      TasksStep s [.posted task delay startMicros] s.timers.timerTasks
  | fire {now : Int} : TasksStep s [.fired now] s.timers.timerTasks
  | run {top : DelayedTaskInfo} {now : Int} : BinaryHeap.top? s.timers.timerTasks = some top →
      top.dueTimeMicros ≤ now → TasksStep s [.ran top now] s.timers.timerTasks
  | pop : TasksStep s [] (BinaryHeap.pop DelayedTaskInfo.gt s.timers.timerTasks)
  | keep : TasksStep s [] s.timers.timerTasks

theorem tasksStep_resume {s s' : State D} {i : Tid} {o : Outcome} (hh : TimelyHops s)
    (hfits : s'.clock ≤ int64Max) (h : s.resume i o = some s') :
    TasksStep s (s.timerNotes (.resume i o)) s'.timers.timerTasks := by
  have hclock := hh.clock
  cases hpc : s.threads i with
  | delayedChecked n delay =>
    simp only [resume, hpc] at h
    simp only [timerNotes, timerAct, hpc]
    split at h
    · rename_i hle
      cases h
      rw [if_pos hle]
      exact .keep
    · rename_i hle
      rw [if_neg hle]
      split at h
      · rename_i hcur
        cases h
        rw [if_pos hcur]
        simp only [setThread] at hfits
        have hp : Post.Timely (⟨n, delay, s.clock + o.gap₁, s.clock + o.gap₁ + o.gap₂,
            s.clock + o.gap₁ + o.gap₂ + o.gap₃, s.clock + o.gap₁ + o.gap₂ + o.gap₃ + o.gap₄⟩ : Post D) :=
          ⟨by simpa using hle, ⟨by simp only; omega, by simp only; omega, by simp only; omega,
            by simp only; omega⟩, by simp only; omega⟩
        have hstep := TasksStep.post (s := s) hp
        rw [← Timers.timerTasks_post (o := o.timer)] at hstep
        exact hstep
      · rename_i hcur
        cases h
        rw [if_neg hcur]
        exact .depart
  | _ =>
    rcases resume_timers h with ⟨n, delay, hd⟩ | ⟨htimers, -⟩
    · simp [hpc] at hd
    · simp only [timerNotes, timerAct, hpc, Option.elim_none, htimers]
      exact .keep

theorem tasksStep_frameStep {s s' : State D} {o : Outcome} {f : Frame D} {fs : List (Frame D)}
    (hh : TimelyHops s) (hfits : s'.clock ≤ int64Max) (hs : s.stack = f :: fs)
    (h : s.frameStep o fs f = some s') :
    TasksStep s (s.timerNotes (.loop o)) s'.timers.timerTasks := by
  have hkeep : s.timerAct (.loop o) = none → s'.timers.timerTasks = s.timers.timerTasks →
      TasksStep s (s.timerNotes (.loop o)) s'.timers.timerTasks := by
    intro hact htasks
    rw [timerNotes, hact, htasks]
    exact .keep
  cases framed h with
  | wait => exact hkeep (by simp only [timerAct, hs]) (by rw [dispatch_eq])
  | start => exact hkeep (by simp only [timerAct, hs]) (by rw [startTask_eq])
  | destroy => exact hkeep (by simp only [timerAct, hs]) (by rw [destroyTask_eq])
  | @finish t rest =>
    cases t with
    | user n => exact hkeep (by simp only [timerAct, hs]) rfl
    | call c => exact hkeep (by simp only [timerAct, hs]) rfl
    | hop n start delay =>
      have hin : s.InFlight (.hop n start delay) := .inr (.inr (by simp [hs, Frame.tasks]))
      obtain ⟨h₀, h₁, hpos⟩ := hh.hops n start delay hin
      simp only [finishTask] at hfits
      have hp : Post.Timely (⟨n, delay, start, s.clock + o.gap₁, s.clock + o.gap₁ + o.gap₂,
          s.clock + o.gap₁ + o.gap₂ + o.gap₃⟩ : Post D) :=
        ⟨hpos, ⟨h₀, by simp only; omega, by simp only; omega, by simp only; omega⟩, by simp only; omega⟩
      simp only [timerNotes, timerAct, hs]
      have hstep := TasksStep.hop hp hin
      rw [← Timers.timerTasks_post (o := o.timer)] at hstep
      exact hstep
  | noTimerTask he => exact hkeep (by simp only [timerAct, hs, he, if_true]) rfl
  | cancelTimer he =>
    simp only [timerNotes, timerAct, hs, he, Bool.false_eq_true, if_false]
    rw [Timers.timerTasks_dcheck, Timers.timerTasks_cancel]
    exact .fire
  | @notDue now top htop hgt =>
    simp only [timerNotes, timerAct, hs, Option.elim_some, DelayedTasks.notes, delayedTasks,
      List.findSome?_cons, Frame.pass, htop, if_pos hgt]
    exact .keep
  | @runDue now top htop hle =>
    simp only [timerNotes, timerAct, hs, Option.elim_some, DelayedTasks.notes, delayedTasks,
      List.findSome?_cons, Frame.pass, htop, if_neg hle]
    rw [Timers.timerTasks_dcheck]
    exact .run htop (by omega)
  | popDue htasks hg =>
    simp only [timerNotes, timerAct, hs, Option.elim_some, DelayedTasks.notes, delayedTasks,
      List.findSome?_cons, Frame.pass, htasks]
    exact .pop
  | schedule =>
    simp only [timerNotes, timerAct, hs, Option.elim_some, DelayedTasks.notes, delayedTasks,
      List.findSome?_cons, Frame.pass]
    rw [Timers.timerTasks_scheduleNextTimer]
    exact .keep
  | _ => exact hkeep (by simp only [timerAct, hs]) rfl

theorem tasksStep {s s' : State D} {a : Action D} (hh : TimelyHops s) (hfits : s'.clock ≤ int64Max)
    (h : step s a = some s') : TasksStep s (s.timerNotes a) s'.timers.timerTasks := by
  cases step_cases h with
  | call hm he => rw [enter_frame he]; exact .keep
  | resume hr => exact tasksStep_resume hh hfits hr
  | loop hout hs hf => exact tasksStep_frameStep hh hfits hs hf
  | expire he =>
    rw [(Timers.expire_frame he).1]
    exact .keep
  | begin | wakeUp | runEventLoopOnce | processPendingTasks | socket | arrive | tick => exact .keep

theorem mem_of_mem_pop {l : List DelayedTaskInfo} {info : DelayedTaskInfo}
    (h : info ∈ BinaryHeap.pop DelayedTaskInfo.gt l) : info ∈ l := by
  cases htop : BinaryHeap.top? l with
  | none =>
    rw [List.head?_eq_none_iff.mp htop] at h
    exact absurd h List.not_mem_nil
  | some top =>
    exact (BinaryHeap.cons_pop_perm DelayedTaskInfo.gt htop).mem_iff.mp (List.mem_cons_of_mem _ h)

/-! ## The schedule -/

/-- Every hop in flight, every task in the heap and every task that has been run is the one of a post. -/
structure Scheduled (s : State D) (h : List (TimerNote D)) : Prop where
  hops : ∀ n start delay, s.InFlight (.hop n start delay) → .posted n delay start ∈ h
  queued : ∀ direct p, .queued direct p ∈ h → .posted p.task p.delay p.startMicros ∈ h ∧ p.Timely
  tasks : ∀ info ∈ s.timers.timerTasks, ∃ direct p, .queued direct p ∈ h ∧ p.info = info
  ran : ∀ info now, .ran info now ∈ h →
    info.dueTimeMicros ≤ now ∧ ∃ direct p, .queued direct p ∈ h ∧ p.info = info

/-- The post of a new hop is in the history. -/
theorem posted_of_hop {s : State D} {i : Tid} {o : Outcome} {n : Closure} {delay : D}
    (hpc : s.threads i = .delayedChecked n delay) (hle : le delay zeroDuration = false)
    (hcur : s.isCurrent i = false) :
    .posted n delay (s.clock + o.gap₁) ∈ s.timerNotes (.resume i o) := by
  simp [timerNotes, timerAct, hpc, hle, hcur, DelayedTasks.notes]

theorem scheduled_step {s s' : State D} {a : Action D} {h : List (TimerNote D)} (hh : TimelyHops s)
    (hfits : s'.clock ≤ int64Max) (hstep : step s a = some s') (hs : Scheduled s h) :
    Scheduled s' (h ++ s.timerNotes a) := by
  have hold : ∀ {note}, note ∈ h → note ∈ h ++ s.timerNotes a := fun hn => List.mem_append_left _ hn
  have hhops : ∀ n start delay, s'.InFlight (.hop n start delay) →
      .posted n delay start ∈ h ++ s.timerNotes a := by
    intro n start delay hin
    rcases hop_inFlight_step hstep hin with hin | ⟨i, o, rfl, hpc, hle, hcur, rfl⟩
    · exact hold (hs.hops n start delay hin)
    · exact List.mem_append_right _ (posted_of_hop hpc hle hcur)
  have htasks : ∀ info ∈ s.timers.timerTasks, ∃ direct p,
      .queued direct p ∈ h ++ s.timerNotes a ∧ p.info = info := by
    intro info hi
    obtain ⟨direct, p, hp, he⟩ := hs.tasks info hi
    exact ⟨direct, p, hold hp, he⟩
  have hran : ∀ info now, .ran info now ∈ h →
      info.dueTimeMicros ≤ now ∧ ∃ direct p, .queued direct p ∈ h ++ s.timerNotes a ∧ p.info = info := by
    intro info now hr
    obtain ⟨hle, direct, p, hp, he⟩ := hs.ran info now hr
    exact ⟨hle, direct, p, hold hp, he⟩
  have hqueued : ∀ direct p, .queued direct p ∈ h →
      .posted p.task p.delay p.startMicros ∈ h ++ s.timerNotes a ∧ p.Timely :=
    fun direct p hp => ⟨hold (hs.queued direct p hp).1, (hs.queued direct p hp).2⟩
  have hts := tasksStep hh hfits hstep
  generalize s.timerNotes a = notes at *
  generalize htasks' : s'.timers.timerTasks = tasks at *
  refine ⟨hhops, fun direct p hp => ?_, fun info hi => ?_, fun info now hr => ?_⟩
  · rcases List.mem_append.mp hp with hp | hp
    · exact hqueued direct p hp
    · cases hts with
      | post htimely =>
        simp only [List.mem_cons, reduceCtorEq, TimerNote.queued.injEq, List.not_mem_nil, or_false,
          false_or] at hp
        obtain ⟨-, rfl⟩ := hp
        exact ⟨by simp, htimely⟩
      | hop htimely hin =>
        simp only [List.mem_singleton, TimerNote.queued.injEq] at hp
        obtain ⟨-, rfl⟩ := hp
        exact ⟨hold (hs.hops _ _ _ hin), htimely⟩
      | _ => simp at hp
  · rw [htasks'] at hi
    cases hts with
    | @post p =>
      rcases List.mem_cons.mp ((BinaryHeap.push_perm _ _ _).mem_iff.mp hi) with rfl | hi
      · exact ⟨true, p, by simp, rfl⟩
      · exact htasks info hi
    | @hop p =>
      rcases List.mem_cons.mp ((BinaryHeap.push_perm _ _ _).mem_iff.mp hi) with rfl | hi
      · exact ⟨false, p, by simp, rfl⟩
      · exact htasks info hi
    | pop => exact htasks info (mem_of_mem_pop hi)
    | _ => exact htasks info hi
  · rcases List.mem_append.mp hr with hr | hr
    · exact hran info now hr
    · cases hts with
      | run htop hle =>
        simp only [List.mem_singleton, TimerNote.ran.injEq] at hr
        obtain ⟨rfl, rfl⟩ := hr
        exact ⟨hle, htasks info (DelayedTasks.mem_of_top? htop)⟩
      | _ => simp at hr

end Steps

variable [LawfulDuration D]

/-- The sums of a post with a finite delay fit in an int64: the end of the delay, and the due time. -/
structure SumsFit (p : Post D) (ticks : Int) : Prop where
  delay : value p.delay = .finite ticks
  deadline : p.startMicros + ticks / 4000 ≤ int64Max
  due : p.dueTime ≤ int64Max

/-- **Never early, and no drift.** In every run, whatever the hops' latency: every task in
    `timer_tasks_` is the one of a post, its due time is at least the delay after the post, in whole
    microseconds rounded down, and at most the delay rounded up and the time between the two readings
    on the loop thread later; and it is run only in a pass whose reading is at least the first. -/
theorem never_early {s : State D} {h : List (TimerNote D)}
    (hrun : Reaches (timed D) (fun p a => ClockFits p.1 a) (State.init, []) (s, h)) :
    (∀ info ∈ s.timers.timerTasks, ∃ direct p, .queued direct p ∈ h ∧ p.info = info) ∧
    (∀ direct p, .queued direct p ∈ h → .posted p.task p.delay p.startMicros ∈ h ∧
      ∀ ticks, SumsFit p ticks →
        p.startMicros + ticks / 4000 ≤ p.dueTime ∧
        p.dueTime ≤ p.startMicros + -(-ticks / 4000) + (p.now₂ - p.now₁)) ∧
    ∀ info now, .ran info now ∈ h → (∃ direct p, .queued direct p ∈ h ∧ p.info = info) ∧
      ∀ direct p ticks, .queued direct p ∈ h → p.info = info → SumsFit p ticks →
        p.startMicros + ticks / 4000 ≤ now := by
  have hscheduled : TimelyHops s ∧ Scheduled s h := by
    refine hrun.invariant (P := fun p => TimelyHops p.1 ∧ Scheduled p.1 p.2) ?_
      ⟨tracked_init.hops, fun _ _ _ hin => by simp [InFlight, State.init] at hin, by simp,
        by simp [State.init, Timers.init], by simp⟩
    rintro ⟨s, h⟩ a ⟨s', h'⟩ hfits hstepₕ ⟨hh, hs⟩
    obtain ⟨hstep, hnotes⟩ := observe_eq_some.mp hstepₕ
    simp only at hstep hnotes
    subst hnotes
    exact ⟨timelyHops_step hstep hh, scheduled_step hh (hfits _ hstep) hstep hs⟩
  obtain ⟨-, hs⟩ := hscheduled
  have hbounds : ∀ direct p ticks, .queued direct p ∈ h → SumsFit p ticks →
      p.startMicros + ticks / 4000 ≤ p.dueTime ∧
      p.dueTime ≤ p.startMicros + -(-ticks / 4000) + (p.now₂ - p.now₁) := by
    intro direct p ticks hp hsums
    obtain ⟨-, htimely⟩ := hs.queued direct p hp
    have hpos : 0 < ticks := by
      have hlt : lt zeroDuration p.delay = true := by simpa [le] using htimely.positive
      rcases pos_iff.mp hlt with hd | ⟨ticks', hd, hpos⟩
      · rw [hsums.delay] at hd
        cases hd
      · rw [hsums.delay] at hd
        cases hd
        exact hpos
    exact dueTime_bounds htimely.readings hsums.delay hpos hsums.deadline
  refine ⟨hs.tasks, fun direct p hp => ⟨(hs.queued direct p hp).1, fun ticks => hbounds direct p ticks hp⟩,
    fun info now hr => ?_⟩
  obtain ⟨hle, hpost⟩ := hs.ran info now hr
  refine ⟨hpost, fun direct p ticks hp he hsums => ?_⟩
  subst he
  exact Int.le_trans (hbounds direct p ticks hp hsums).1 hle

/-- The hop of a delayed task is run 702 microseconds after the post, and the task when it is due. -/
def lateHopRun : List (Action Ticks) :=
  [.begin, .call 1 (.postDelayedTask oneMs), .resume 1 {}, .resume 1 { gap₁ := 5 }, .resume 1 {},
    .resume 1 {}, .resume 1 {}, .tick 700, .runEventLoopOnce .posInf, .loop { wait := .wakeup }, .loop {},
    .loop {}, .loop {}, .loop { gap₁ := 2, gap₂ := 1 }, .loop {}, .loop {}, .tick 298, .expire 1,
    .runEventLoopOnce .posInf, .loop { wait := .timer }, .loop {}, .loop {}]

theorem never_early_lateHop :
    ∃ p : State Ticks × List (TimerNote Ticks),
      Reaches (timed Ticks) (fun p a => ClockFits p.1 a) (State.init, []) p ∧
        .ran ⟨1006, some 0⟩ 1006 ∈ p.2 ∧
        (∃ direct q, .queued direct q ∈ p.2 ∧ q.info = ⟨1006, some 0⟩) := by
  have hrun : (runWhile (timed Ticks) (fun p a => ClockFits p.1 a) (State.init, []) lateHopRun).isSome = true := by
    decide
  have hreach := reaches_get hrun
  have hran : .ran ⟨1006, some 0⟩ 1006 ∈ (Option.get _ hrun).2 := List.mem_of_getElem? (i := 3) rfl
  exact ⟨_, hreach, hran, ((never_early hreach).2.2 _ _ hran).1⟩

end IoBase
