import IoBase.DelayedTasks
import IoBase.TimerArming

/- The loop's delayed tasks are those of `DelayedTasks.lean`.

   `timerAct` says what a step of the loop does to its delayed tasks, and
   `timerNotes` what it adds to their history; both are defined in every state. As
   long as no delayed task re-enters the loop there is one pass at a time
   (`OnePass`), and then every step of the loop is the step `timerAct` names, or
   leaves the delayed tasks alone (`delayed_step`); so every run of the loop is a run
   of the delayed tasks, with the same history (`delayed_run`).

   A hop in flight carries the clock reading of its post, which `TimelyHops` keeps:
   it is not later than the clock, and the delay is positive. -/
namespace IoBase
open AbslDuration Transition State

variable {D : Type}

/-! ## Hops in flight -/

/-- The tasks that a frame has taken from `pending_` and not run to their end. -/
def Frame.tasks : Frame D → List (Task D)
  | .running t rest => t :: rest
  | f => f.rest

/-- The task has been posted and is still to be run. -/
def State.InFlight (s : State D) (t : Task D) : Prop :=
  (∃ i, s.threads i = .postEntered t ∨ s.threads i = .postChecked t) ∨ t ∈ s.pending ∨
    t ∈ s.stack.flatMap Frame.tasks

/-- Threads that move to a position in which they post nothing put nothing in flight. -/
theorem State.InFlight.of_update {s s' : State D} {t : Task D} {i : Tid} {pc : ThreadPc D}
    (h : s'.InFlight t) (hthreads : s'.threads = Function.update s.threads i pc)
    (hpending : s'.pending = s.pending)
    (hstack : s'.stack.flatMap Frame.tasks = s.stack.flatMap Frame.tasks)
    (hpc : pc = .postEntered t ∨ pc = .postChecked t → s.InFlight t) : s.InFlight t := by
  rcases h with ⟨j, hj⟩ | hp | hs
  · rw [hthreads] at hj
    by_cases hji : j = i
    · rw [hji, Function.update_self] at hj
      exact hpc hj
    · rw [Function.update_of_ne hji] at hj
      exact .inl ⟨j, hj⟩
  · exact .inr (.inl (hpending ▸ hp))
  · exact .inr (.inr (hstack ▸ hs))

theorem State.InFlight.congr {s s' : State D} {t : Task D} (h : s'.InFlight t)
    (hthreads : s'.threads = s.threads) (hpending : s'.pending = s.pending)
    (hstack : s'.stack.flatMap Frame.tasks = s.stack.flatMap Frame.tasks) : s.InFlight t := by
  simpa only [InFlight, hthreads, hpending, hstack] using h

/-- `PostTask` returns with nothing left to push. -/
theorem afterPost_posts {t u : Task D} : ¬(t.afterPost = .postEntered u ∨ t.afterPost = .postChecked u) := by
  cases t <;> simp [Task.afterPost]

variable [AbslDuration D]

/-- A hop is put in flight by the post from another thread, and by nothing else. -/
theorem hop_resume {s s' : State D} {i : Tid} {o : Outcome} {n : Closure} {start : Int} {delay : D}
    (h : s.resume i o = some s') (hin : s'.InFlight (.hop n start delay)) :
    s.InFlight (.hop n start delay) ∨ s.threads i = .delayedChecked n delay ∧
      le delay zeroDuration = false ∧ s.isCurrent i = false ∧ start = s.clock + o.gap₁ := by
  cases resumed h with
  | refuse =>
    rw [destroyTask_eq] at hin
    exact .inl (hin.of_update rfl rfl rfl fun he => absurd he afterPost_posts)
  | check hpc =>
    refine .inl (hin.of_update rfl rfl rfl (fun he => ?_))
    simp only [reduceCtorEq, ThreadPc.postChecked.injEq, false_or] at he
    exact .inl ⟨i, .inl (he ▸ hpc)⟩
  | push hpc =>
    rcases hin with ⟨j, hj⟩ | hp | hs
    · by_cases hji : j = i
      · simp [hji] at hj
      · simp only [Function.update_of_ne hji] at hj
        exact .inl (.inl ⟨j, hj⟩)
    · rcases List.mem_append.mp hp with hp | hp
      · exact .inl (.inr (.inl hp))
      · rw [List.mem_singleton] at hp
        exact .inl (.inl ⟨i, .inr (hp ▸ hpc)⟩)
    · exact .inl (.inr (.inr hs))
  | wake => exact .inl (hin.of_update rfl rfl rfl fun he => absurd he afterPost_posts)
  | postHop hpc hle hcur =>
    by_cases hmem : s.InFlight (.hop n start delay)
    · exact .inl hmem
    · refine .inr ?_
      by_contra hne
      refine hmem (hin.of_update rfl rfl rfl (fun he => ?_))
      simp only [reduceCtorEq, ThreadPc.postEntered.injEq, Task.hop.injEq, or_false] at he
      obtain ⟨rfl, rfl, rfl⟩ := he
      exact absurd ⟨hpc, hle, hcur, rfl⟩ hne
  | inline =>
    refine .inl (hin.of_update rfl rfl ?_ (fun he => by simp at he))
    simp [setThread, Frame.tasks, Frame.rest]
  | quitSwap =>
    rcases hin with hj | hp | hs
    · exact .inl (.inl hj)
    · exact absurd hp List.not_mem_nil
    · exact .inl (.inr (.inr hs))
  | quitDestroy =>
    rw [destroyTask_eq] at hin
    exact .inl (hin.congr rfl rfl rfl)
  | _ => exact .inl (hin.of_update rfl rfl rfl (fun he => by simp at he))

omit [AbslDuration D] in
/-- What follows the wait begins with no task. -/
theorem dispatch_tasks {s : State D} {r : WaitResult} {fs : List (Frame D)} :
    (s.dispatch r fs).stack.flatMap Frame.tasks = fs.flatMap Frame.tasks := by
  rcases dispatch_stack s r fs with ⟨hd, -⟩ | ⟨hd, -⟩ | ⟨hd, -⟩ | ⟨hd, -⟩ | hd <;> rw [hd] <;> rfl

/-- The loop thread takes tasks from `pending_` and runs them; it puts nothing in flight. -/
theorem inFlight_frameStep {s s' : State D} {o : Outcome} {f : Frame D} {fs : List (Frame D)} {t : Task D}
    (hs : s.stack = f :: fs) (h : s.frameStep o fs f = some s') (hin : s'.InFlight t) :
    s.InFlight t := by
  have hstack : s.stack.flatMap Frame.tasks = f.tasks ++ fs.flatMap Frame.tasks := by
    rw [hs, List.flatMap_cons]
  have hthread : ∀ i, s'.threads i = .postEntered t ∨ s'.threads i = .postChecked t →
      s.threads i = .postEntered t ∨ s.threads i = .postChecked t := by
    intro i hi
    rcases frameStep_threads h with ht | ⟨c, -, -, ht⟩
    · rwa [ht] at hi
    · rw [ht] at hi
      by_cases hl : i = loopThread
      · rw [hl, Function.update_self] at hi
        rcases hi with hi | hi <;> cases hi
      · rwa [Function.update_of_ne hl] at hi
  -- what is in the frames or in `pending_` was there before
  have hqueues : t ∈ s'.pending ∨ t ∈ s'.stack.flatMap Frame.tasks →
      t ∈ s.pending ∨ t ∈ f.tasks ++ fs.flatMap Frame.tasks := by
    intro hq
    cases framed h with
    | wait =>
      rw [dispatch_tasks, dispatch_eq] at hq
      exact hq
    | swap =>
      simp only [List.not_mem_nil, false_or, List.flatMap_cons, Frame.tasks, Frame.rest,
        List.mem_append] at hq ⊢
      tauto
    | start =>
      rw [startTask_eq] at hq
      exact hq
    | finish =>
      rw [finishTask_eq] at hq
      simp only [List.flatMap_cons, Frame.tasks, Frame.rest, List.mem_append, List.mem_cons] at hq ⊢
      tauto
    | destroy =>
      rw [destroyTask_eq] at hq
      exact hq
    | popDue _ hf => rcases hf with ⟨rfl, -⟩ | ⟨rfl, -⟩ <;> exact hq
    | _ => exact hq
  rcases hin with ⟨i, hi⟩ | hq
  · exact .inl ⟨i, hthread i hi⟩
  · refine .inr ?_
    rw [hstack]
    exact hqueues hq

theorem hop_inFlight_step {s s' : State D} {a : Action D} {n : Closure} {start : Int} {delay : D}
    (h : step s a = some s') (hin : s'.InFlight (.hop n start delay)) :
    s.InFlight (.hop n start delay) ∨ ∃ i o, a = .resume i o ∧ s.threads i = .delayedChecked n delay ∧
      le delay zeroDuration = false ∧ s.isCurrent i = false ∧ start = s.clock + o.gap₁ := by
  cases step_cases h with
  | call hm he =>
    rename_i i c
    have hframe := enter_frame he
    refine .inl (hin.of_update (congrArg State.threads hframe) (by rw [hframe]) (by rw [hframe]) fun hpc => ?_)
    cases c with
    | postTask => cases he; simp at hpc
    | postDelayedTask delay => cases he; simp at hpc
    | blockingCall => cases he; simp at hpc
    | quit =>
      simp only [enter] at he
      split at he
      · cases he; simp at hpc
      · cases he
  | resume hr =>
    rcases hop_resume hr hin with hold | hnew
    · exact .inl hold
    · exact .inr ⟨_, _, rfl, hnew⟩
  | loop hout hs hf => exact .inl (inFlight_frameStep hs hf hin)
  | begin | wakeUp | runEventLoopOnce | processPendingTasks | socket | arrive | expire | tick =>
    exact .inl (hin.congr rfl rfl rfl)

/-- The hops in flight were posted with a positive delay and not after the clock's time. -/
structure TimelyHops (s : State D) : Prop where
  clock : 0 ≤ s.clock
  hops : ∀ n start delay, s.InFlight (.hop n start delay) →
    0 ≤ start ∧ start ≤ s.clock ∧ le delay zeroDuration = false

/-- The clock does not go back. -/
theorem clock_le {s s' : State D} {a : Action D} (h : step s a = some s') : s.clock ≤ s'.clock := by
  cases step_cases h with
  | call hm he => rw [enter_frame he]
  | resume hr =>
    cases resumed hr with
    | refuse => rw [destroyTask_eq]; exact Int.le_refl _
    | quitDestroy => rw [destroyTask_eq]
    | postNow | postTimer | postHop => simp only [setThread]; omega
    | _ => exact Int.le_refl _
  | loop hout hs hf =>
    cases framed hf with
    | wait => rw [dispatch_eq]
    | start => rw [startTask_eq]
    | @finish t =>
      cases t with
      | hop n start delay => simp only [finishTask]; omega
      | user n => exact Int.le_refl _
      | call c => exact Int.le_refl _
    | destroy => rw [destroyTask_eq]
    | cancelTimer | schedule => simp only; omega
    | _ => exact Int.le_refl _
  | tick => simp only; omega
  | begin | wakeUp | runEventLoopOnce | processPendingTasks | socket | arrive | expire => exact Int.le_refl _

theorem timelyHops_step {s s' : State D} {a : Action D} (h : step s a = some s') (hh : TimelyHops s) :
    TimelyHops s' := by
  have hclock := clock_le h
  refine ⟨Int.le_trans hh.clock hclock, fun n start delay hin => ?_⟩
  rcases hop_inFlight_step h hin with hold | ⟨i, o, rfl, hpc, hle, hcur, rfl⟩
  · obtain ⟨h₀, h₁, hpos⟩ := hh.hops n start delay hold
    exact ⟨h₀, Int.le_trans h₁ hclock, hpos⟩
  · have h₀ := hh.clock
    refine ⟨by omega, ?_, hle⟩
    have hs' : step s (.resume i o) = some s' := h
    simp only [step, resume, hpc, hle, hcur, Bool.false_eq_true, if_false, Option.some.injEq] at hs'
    rw [← hs']
    exact Int.le_refl _

/-! ## One pass at a time -/

/-- Where the frame is in a pass. -/
def Frame.pass : Frame D → Option DuePass
  | .due now => some (.due now)
  | .runningDue now => some (.running now)
  | .scheduling => some .scheduling
  | _ => none

/-- No delayed task re-enters the loop. -/
def NoDueReentry (s : State D) (a : Action D) : Prop := a.startsIteration = true → s.handlesDue = false

instance (s : State D) (a : Action D) : Decidable (NoDueReentry s a) :=
  inferInstanceAs (Decidable (_ → _))

/-- No call of the loop is above a pass, and the timer that started a pass is signaled until the pass
    cancels it. -/
structure OnePass (s : State D) : Prop where
  alone : s.stack.Pairwise fun f g => f.isIteration = true → g.handlesDue = false
  fired : ∀ fs, s.stack = .timerFired :: fs → s.timers.timer.event = true

omit [AbslDuration D] in
theorem handlesDue_eq {f : Frame D} : f.handlesDue = f.pass.isSome := by
  cases f <;> rfl

omit [AbslDuration D] in
theorem findSome?_pass_eq_none {fs : List (Frame D)} (h : ∀ g ∈ fs, g.handlesDue = false) :
    fs.findSome? Frame.pass = none := by
  rw [List.findSome?_eq_none_iff]
  intro g hg
  have hd := h g hg
  rw [handlesDue_eq] at hd
  simpa using hd

omit [AbslDuration D] in
/-- Below a frame of an iteration no pass is being made. -/
theorem OnePass.below {s : State D} {f : Frame D} {fs : List (Frame D)} (h : OnePass s)
    (hs : s.stack = f :: fs) (hf : f.isIteration = true) : fs.findSome? Frame.pass = none := by
  have halone := h.alone
  rw [hs] at halone
  exact findSome?_pass_eq_none fun g hg => (List.pairwise_cons.mp halone).1 g hg hf

/-- A pass starts where the timer's event is signaled, and the functor of a call ends where it is. -/
theorem frameStep_fired {s s' : State D} {o : Outcome} {f : Frame D} {fs gs : List (Frame D)}
    (hc : Control s) (hs : s.stack = f :: fs) (h : s.frameStep o fs f = some s')
    (hs' : s'.stack = .timerFired :: gs) : s'.timers.timer.event = true := by
  have hbelow : fs ≠ .timerFired :: gs := by
    intro he
    subst he
    have huser := hc.userCode_of_mem hs .timerFired List.mem_cons_self
    cases huser
  cases framed h with
  | wait hm =>
    rw [dispatch_eq]
    rcases dispatch_stack s o.wait fs with ⟨hd, -⟩ | ⟨hd, -⟩ | ⟨hd, hr⟩ | ⟨hd, -⟩ | hd <;> rw [hd] at hs'
    · exact absurd hs' hbelow
    · cases hs'
    · simp only [hr, mayReturn, Bool.and_eq_true] at hm
      exact hm.2
    · cases hs'
    · cases hs'
  | batchDone => exact absurd hs' hbelow
  | close => exact absurd hs' hbelow
  | inlineDone => exact absurd hs' hbelow
  | popDue _ hf => rcases hf with ⟨rfl, -⟩ | ⟨rfl, -⟩ <;> cases hs'
  | _ => cases hs'

theorem onePass_frameStep {s s' : State D} {o : Outcome} {f : Frame D} {fs : List (Frame D)}
    (hc : Control s) (hs : s.stack = f :: fs) (h : s.frameStep o fs f = some s') (hone : OnePass s) :
    OnePass s' where
  alone := by
    have halone := hone.alone
    rw [hs, List.pairwise_cons] at halone
    obtain ⟨hbelow, hrest⟩ := halone
    by_cases hf : f.isIteration = true
    · rcases frameStep_stack h with hs' | ⟨g, -, -, hs'⟩
      · rw [hs']
        exact hrest
      · rw [hs', List.pairwise_cons]
        exact ⟨fun g' hg' _ => hbelow g' hg' hf, hrest⟩
    · cases f with
      | inlineCall c =>
        cases framed h
        exact hrest
      | _ => exact absurd rfl hf
  fired := fun _ hs' => frameStep_fired hc hs h hs'

theorem onePass_step {s s' : State D} {a : Action D} (hc : Control s) (ha : NoDueReentry s a)
    (h : step s a = some s') (hone : OnePass s) : OnePass s' := by
  have hpush : ∀ f : Frame D, s.handlesDue = false →
      (f :: s.stack).Pairwise fun f g => f.isIteration = true → g.handlesDue = false := by
    intro f hd
    rw [State.handlesDue, List.any_eq_false] at hd
    exact List.pairwise_cons.mpr ⟨fun g hg _ => by simpa using hd g hg, hone.alone⟩
  cases step_cases h with
  | call hm he => rw [enter_frame he]; exact ⟨hone.alone, hone.fired⟩
  | resume hr =>
    refine ⟨?_, fun fs hfs => ?_⟩
    · rcases resume_stack_cases hc hr with hs | ⟨c, -, -, -, hs⟩
      · rw [hs]
        exact hone.alone
      · rw [hs]
        exact List.pairwise_cons.mpr ⟨fun _ _ hf => by simp [Frame.isIteration] at hf, hone.alone⟩
    · have hs : s.stack = .timerFired :: fs := by
        rcases resume_stack_cases hc hr with hs | ⟨c, -, -, -, hs⟩
        · rw [← hs, hfs]
        · rw [hs] at hfs
          cases hfs
      have hfired := hone.fired fs hs
      cases resumed hr with
      | postTimer hpc hle hcur =>
        -- the loop thread is in no public call while a pass starts
        have hout := hc.outside (by simp [inUserCode, hs, Frame.userCode])
        rw [← hc.begun _ (by simpa [isCurrent] using hcur), hpc] at hout
        cases hout
      | refuse | quitDestroy => rw [destroyTask_eq]; exact hfired
      | _ => exact hfired
  | runEventLoopOnce hm => exact ⟨hpush _ (ha rfl), fun _ hs => by cases hs⟩
  | processPendingTasks hm => exact ⟨hpush _ (ha rfl), fun _ hs => by cases hs⟩
  | loop hout hs hf => exact onePass_frameStep hc hs hf hone
  | expire he =>
    refine ⟨hone.alone, fun _ _ => ?_⟩
    simp only [Timers.expire] at he
    split at he
    · cases he
      rfl
    · cases he
  | begin | wakeUp | socket | arrive | tick => exact ⟨hone.alone, hone.fired⟩

/-! ## The refinement -/

namespace State

/-- The delayed tasks of the loop. -/
def delayedTasks (s : State D) : DelayedTasks where
  timers := s.timers
  clock := s.clock
  pass := s.stack.findSome? Frame.pass

/-- What an action does to the delayed tasks. -/
def timerAct (s : State D) : Action D → Option (DelayedTasks.Action D)
  | .resume i o =>
    match s.threads i with
    | .delayedChecked n delay =>
      let start := s.clock + o.gap₁
      let now₁ := start + o.gap₂
      let now₂ := now₁ + o.gap₃
      if le delay zeroDuration then some (.tick o.gap₁)
      else if s.isCurrent i then some (.post ⟨n, delay, start, now₁, now₂, now₂ + o.gap₄⟩ o.timer)
      else some (.depart n delay start)
    | _ => none
  | .loop o =>
    match s.stack with
    | .running (.hop n start delay) _ :: _ =>
      let now₁ := s.clock + o.gap₁
      let now₂ := now₁ + o.gap₂
      some (.hop ⟨n, delay, start, now₁, now₂, now₂ + o.gap₃⟩ o.timer)
    | .timerFired :: _ => if s.timers.timerTasks.isEmpty then none else some (.fire (s.clock + o.gap₁))
    | .due _ :: _ | .runningDue _ :: _ | .scheduling :: _ => some (.loop (s.clock + o.gap₁) o.timer)
    | _ => none
  | .expire id => some (.expire id)
  | .tick micros => some (.tick micros)
  | _ => none

/-- What an action adds to the history of the delayed tasks. -/
def timerNotes (s : State D) (a : Action D) : List (TimerNote D) :=
  (s.timerAct a).elim [] s.delayedTasks.notes

end State

/-- The delayed tasks take the step that the action names, or stay as they are. -/
def DelayedStep (s : State D) (a : Action D) (s' : State D) : Prop :=
  match s.timerAct a with
  | some b => DelayedTasks.step s.delayedTasks b = some s'.delayedTasks
  | none => s'.delayedTasks = s.delayedTasks

omit [AbslDuration D] in
theorem delayedTasks_congr {s s' : State D} (htimers : s'.timers = s.timers) (hclock : s'.clock = s.clock)
    (hpass : s'.stack.findSome? Frame.pass = s.stack.findSome? Frame.pass) :
    s'.delayedTasks = s.delayedTasks := by
  simp only [delayedTasks, htimers, hclock, hpass]

/-- The functor of a blocking call is not in a pass. -/
theorem pass_resume {s s' : State D} {i : Tid} {o : Outcome} (hc : Control s)
    (h : s.resume i o = some s') :
    s'.stack.findSome? Frame.pass = s.stack.findSome? Frame.pass := by
  rcases resume_stack_cases hc h with hs | ⟨c, -, -, -, hs⟩
  · rw [hs]
  · rw [hs]
    rfl

omit [AbslDuration D] in
/-- While the loop thread runs user code, the pass that is being made is running a task. -/
theorem mayPost_of_userCode {s : State D} (h : ∀ f ∈ s.stack, f.userCode = true) :
    s.delayedTasks.mayPost = true := by
  have hpass : ∀ p, s.stack.findSome? Frame.pass = some p → ∃ r, p = .running r := by
    intro p hp
    obtain ⟨f, hf, hfp⟩ := List.exists_of_findSome?_eq_some hp
    have huser := h f hf
    cases f <;> simp [Frame.pass, Frame.userCode] at hfp huser
    exact ⟨_, hfp.symm⟩
  unfold DelayedTasks.mayPost
  cases hp : s.stack.findSome? Frame.pass with
  | none => simp [delayedTasks, hp]
  | some p =>
    obtain ⟨r, rfl⟩ := hpass p hp
    simp [delayedTasks, hp]

/-- In `PostDelayedTaskImpl` the clock is read, and the loop thread changes the timers. -/
theorem resume_timers {s s' : State D} {i : Tid} {o : Outcome} (h : s.resume i o = some s') :
    (∃ n delay, s.threads i = .delayedChecked n delay) ∨ s'.timers = s.timers ∧ s'.clock = s.clock := by
  cases resumed h with
  | postNow hpc => exact .inl ⟨_, _, hpc⟩
  | postTimer hpc => exact .inl ⟨_, _, hpc⟩
  | postHop hpc => exact .inl ⟨_, _, hpc⟩
  | refuse | quitDestroy => rw [destroyTask_eq]; exact .inr ⟨rfl, rfl⟩
  | _ => exact .inr ⟨rfl, rfl⟩

/-- A post from the loop thread, a post from another, and the other steps of public functions. -/
theorem delayed_resume {s s' : State D} {i : Tid} {o : Outcome} (hc : Control s) (hh : TimelyHops s)
    (hfits : s'.clock ≤ int64Max) (h : s.resume i o = some s') : DelayedStep s (.resume i o) s' := by
  have hpass := pass_resume hc h
  have hclock := hh.clock
  unfold DelayedStep
  cases hpc : s.threads i with
  | delayedChecked n delay =>
    simp only [resume, hpc] at h
    simp only [timerAct, hpc]
    split at h
    · rename_i hle
      cases h
      rw [if_pos hle]
      rfl
    · rename_i hle
      rw [if_neg hle]
      split at h
      · rename_i hcur
        have hi : i = loopThread := hc.begun i (by simpa [isCurrent] using hcur)
        have huser : s.inUserCode = true := hc.inUserCode_of_ne_outside (by rw [← hi, hpc]; simp)
        rw [if_pos hcur]
        cases h
        simp only [setThread] at hfits
        refine if_pos ⟨mayPost_of_userCode (hc.all_userCode huser), ?_, ⟨by simpa using hle, ⟨?_, ?_, ?_, ?_⟩, ?_⟩⟩ <;>
          simp only [delayedTasks] <;> omega
      · rename_i hcur
        rw [if_neg hcur]
        cases h
        exact if_pos (by simp only [delayedTasks]; omega)
  | _ =>
    simp only [timerAct, hpc]
    rcases resume_timers h with ⟨n, delay, hd⟩ | ⟨htimers, hclk⟩
    · simp [hpc] at hd
    · exact delayedTasks_congr htimers hclk hpass

/-- The steps of the loop thread: those of a pass, the hops, and the others. -/
theorem delayed_frameStep {s s' : State D} {o : Outcome} {f : Frame D} {fs : List (Frame D)}
    (hone : OnePass s) (hh : TimelyHops s) (hfits : s'.clock ≤ int64Max) (hs : s.stack = f :: fs)
    (h : s.frameStep o fs f = some s') : DelayedStep s (.loop o) s' := by
  have hbelow : f.isIteration = true → fs.findSome? Frame.pass = none := hone.below hs
  have hclock := hh.clock
  unfold DelayedStep
  -- a frame outside a pass that leaves the timers alone
  have hkeep : f.pass = none → s.timerAct (.loop o) = none → s'.timers = s.timers → s'.clock = s.clock →
      s'.stack.findSome? Frame.pass = fs.findSome? Frame.pass →
      DelayedStep s (.loop o) s' := by
    intro hp hact htimers hclk hpass
    simp only [DelayedStep, hact]
    refine delayedTasks_congr htimers hclk ?_
    rw [hs, List.findSome?_cons, hp, hpass]
  cases framed h with
  | wait =>
    refine hkeep rfl (by simp only [timerAct, hs]) (by rw [dispatch_eq]) (by rw [dispatch_eq]) ?_
    rcases dispatch_stack s o.wait fs with ⟨hd, -⟩ | ⟨hd, -⟩ | ⟨hd, -⟩ | ⟨hd, -⟩ | hd <;> rw [hd] <;> rfl
  | start =>
    refine hkeep rfl (by simp only [timerAct, hs]) ?_ ?_ rfl <;> rw [startTask_eq]
  | destroy =>
    refine hkeep rfl (by simp only [timerAct, hs]) ?_ ?_ rfl <;> rw [destroyTask_eq]
  | @finish t rest =>
    cases t with
    | user n => exact hkeep rfl (by simp only [timerAct, hs]) rfl rfl rfl
    | call c => exact hkeep rfl (by simp only [timerAct, hs]) rfl rfl rfl
    | hop n start delay =>
      obtain ⟨h₀, h₁, hpos⟩ := hh.hops n start delay (.inr (.inr (by simp [hs, Frame.tasks])))
      have hnone : s.delayedTasks.pass = none := by
        simp only [delayedTasks, hs, List.findSome?_cons, Frame.pass]
        exact hbelow rfl
      simp only [finishTask] at hfits
      have hp : Post.Timely (⟨n, delay, start, s.clock + o.gap₁, s.clock + o.gap₁ + o.gap₂,
          s.clock + o.gap₁ + o.gap₂ + o.gap₃⟩ : Post D) :=
        ⟨hpos, ⟨h₀, by simp only; omega, by simp only; omega, by simp only; omega⟩, by simp only; omega⟩
      simp only [timerAct, hs]
      refine (if_pos ⟨hnone, by simp only [delayedTasks]; omega, hp⟩).trans ?_
      simp only [delayedTasks, hs, List.findSome?_cons, Frame.pass]
      rfl
  | noTimerTask he =>
    refine hkeep rfl ?_ rfl rfl rfl
    simp only [timerAct, hs, he, if_true]
  | cancelTimer he =>
    have hne : s.timers.timerTasks ≠ [] := by simpa using he
    have hnone : s.delayedTasks.pass = none := by
      simp only [delayedTasks, hs, List.findSome?_cons, Frame.pass]
      exact hbelow rfl
    simp only [timerAct, hs, he, Bool.false_eq_true, if_false]
    refine (if_pos ⟨hnone, hone.fired fs hs, by simp only [delayedTasks]; omega, hne⟩).trans ?_
    simp only [delayedTasks, he]
    rfl
  | @notDue now top htop hgt =>
    simp only [timerAct, hs]
    simp only [DelayedTasks.step, delayedTasks, hs, List.findSome?_cons, Frame.pass, Option.bind_some,
      DelayedTasks.passStep, htop, if_pos hgt]
  | @runDue now top htop hle =>
    simp only [timerAct, hs]
    simp only [DelayedTasks.step, delayedTasks, hs, List.findSome?_cons, Frame.pass, Option.bind_some,
      DelayedTasks.passStep, htop, if_neg hle]
  | @popDue now timerTasks g htasks hg =>
    simp only [timerAct, hs]
    simp only [DelayedTasks.step, delayedTasks, hs, List.findSome?_cons, Frame.pass, Option.bind_some,
      DelayedTasks.passStep, ← htasks]
    rcases hg with ⟨rfl, hnil⟩ | ⟨rfl, hne⟩
    · simp [hnil]
    · simp [hne]
  | schedule =>
    simp only [timerAct, hs]
    simp only [DelayedTasks.step, delayedTasks, hs, List.findSome?_cons, Frame.pass, Option.bind_some,
      DelayedTasks.passStep]
    rw [if_pos (by omega), hbelow rfl]
  | _ => exact hkeep rfl (by simp only [timerAct, hs]) rfl rfl rfl

theorem delayed_step {s s' : State D} {a : Action D} (hc : Control s) (hone : OnePass s) (hh : TimelyHops s)
    (hfits : s'.clock ≤ int64Max) (h : step s a = some s') : DelayedStep s a s' := by
  cases step_cases h with
  | call hm he => rw [enter_frame he]; rfl
  | resume hr => exact delayed_resume hc hh hfits hr
  | loop hout hs hf => exact delayed_frameStep hone hh hfits hs hf
  | expire he =>
    simp only [DelayedStep, timerAct, DelayedTasks.step, delayedTasks, he]
    rfl
  | begin | wakeUp | runEventLoopOnce | processPendingTasks | socket | arrive | tick => rfl

/-! ## Runs -/

/-- Every reading of the clock fits in an int64. -/
def ClockFits (s : State D) (a : Action D) : Prop := ∀ s', step s a = some s' → s'.clock ≤ int64Max

instance (s : State D) (a : Action D) : Decidable (ClockFits s a) :=
  decidable_of_iff ((step s a).all fun s' => decide (s'.clock ≤ int64Max)) (by
    simp [ClockFits, Option.all_eq_true])

/-- What a state needs for the steps from it to be those of the delayed tasks. -/
structure Tracked (s : State D) : Prop where
  control : Control s
  onePass : OnePass s
  hops : TimelyHops s

theorem tracked_init : Tracked (State.init : State D) where
  control := control_init
  onePass := ⟨List.Pairwise.nil, fun _ hs => by cases hs⟩
  hops := ⟨by simp [State.init], fun _ _ _ hin => by simp [InFlight, State.init] at hin⟩

theorem tracked_step {s s' : State D} {a : Action D} (ha : NoDueReentry s a) (h : step s a = some s')
    (ht : Tracked s) : Tracked s' where
  control := control_step ht.control h
  onePass := onePass_step ht.control ha h ht.onePass
  hops := timelyHops_step h ht.hops

/-- The loop with the history of its delayed tasks. -/
abbrev timed (D : Type) [AbslDuration D] : State D × List (TimerNote D) → Action D →
    Option (State D × List (TimerNote D)) := observe step State.timerNotes

/-- No delayed task re-enters the loop, and an int64 holds the readings of the clock and the due times. -/
def TimersFit (s : State D) (a : Action D) : Prop :=
  NoDueReentry s a ∧ ClockFits s a ∧ ∀ note ∈ s.timerNotes a, note.Fits

instance (s : State D) (a : Action D) : Decidable (TimersFit s a) :=
  inferInstanceAs (Decidable (_ ∧ _ ∧ _))

/-- Every run of the loop in which no delayed task re-enters it is a run of the delayed tasks, and what
    its actions meet carries over. -/
theorem delayed_run {ok : State D × List (TimerNote D) → Action D → Prop}
    {P : DelayedTasks × List (TimerNote D) → DelayedTasks.Action D → Prop}
    {p q : State D × List (TimerNote D)} (hp : Tracked p.1) (hok : ∀ s a, ok s a → TimersFit s.1 a)
    (hP : ∀ s a b, Reaches (timed D) ok p s → ok s a → s.1.timerAct a = some b → P (s.1.delayedTasks, s.2) b)
    (h : Reaches (timed D) ok p q) :
    Reaches (delayed D) (fun s b => s.1.Fits b ∧ P s b) (p.1.delayedTasks, p.2) (q.1.delayedTasks, q.2) := by
  have htracked : ∀ t, Reaches (timed D) ok p t → Tracked t.1 ∧ Reaches (timed D) ok p t := by
    intro t ht
    refine ⟨ht.invariant (P := fun t => Tracked t.1) (fun s a s' ha hstep hs => ?_) hp, ht⟩
    exact tracked_step (hok s a ha).1 (observe_eq_some.mp hstep).1 hs
  refine h.refine (fun s => (s.1.delayedTasks, s.2)) htracked fun s a s' ha hstep hs => ?_
  obtain ⟨htracked, hreach⟩ := hs
  obtain ⟨-, hclock, hdues⟩ := hok s a ha
  obtain ⟨hstep, hnotes⟩ := observe_eq_some.mp hstep
  have hdelayed := delayed_step htracked.control htracked.onePass htracked.hops (hclock _ hstep) hstep
  unfold DelayedStep at hdelayed
  rw [timerNotes] at hnotes hdues
  cases hact : s.1.timerAct a with
  | none =>
    rw [hact] at hdelayed hnotes
    refine .inl ?_
    simp [hdelayed, hnotes]
  | some b =>
    rw [hact] at hdelayed hnotes hdues
    have hfits : s.1.delayedTasks.Fits b := by
      refine ⟨fun t ht => ?_, hdues⟩
      rw [hdelayed, Option.some.injEq] at ht
      rw [← ht]
      exact hclock _ hstep
    exact .inr ⟨b, ⟨hfits, hP s a b hreach ha hact⟩, observe_eq_some.mpr ⟨hdelayed, hnotes⟩⟩

end IoBase
