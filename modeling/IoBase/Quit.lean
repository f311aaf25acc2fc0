import IoBase.Control

/- What is left of the posted tasks when `Quit` has returned.

   `Quit` discards `pending_` and then stores `running_`, in two steps; it touches
   neither the delayed tasks nor a batch that is being run; and a thread that has
   passed its `IsQuitting` check pushes its task whatever happens meanwhile. So
   tasks can be left behind. `Settled` lists the places where one can be.

   * `quit_releases_all`: if the loop is settled at the store that ends `Quit`, no
     task is held from then on and none is started.
   * `quit_leaves_delayed_task`: a delayed task stays in `timer_tasks_`. -/
namespace IoBase
open Transition State

variable {D : Type} [AbslDuration D]

/-- The hop of a delayed task is being run. -/
def Frame.isHop : Frame D → Bool
  | .running (.hop _ _ _) _ => true
  | _ => false

/-- Nothing holds a task or is past the check that would refuse one: the two queues, the rest of a
    batch, the hop of a delayed task, `PostTaskImpl`, and `PostDelayedTaskImpl` on the loop thread. -/
structure Settled (s : State D) : Prop where
  begun : s.threadId ≠ none
  pending : s.pending = []
  timerTasks : s.timers.timerTasks = []
  frames : ∀ f ∈ s.stack, f.rest = [] ∧ f.isHop = false
  posters : ∀ i t, s.threads i ≠ .postChecked t
  delayed : ∀ n delay, s.threads loopThread = .delayedChecked n delay →
    AbslDuration.le delay AbslDuration.zeroDuration = true

/-- The action is the store of `running_` that ends `Quit`. -/
def State.storesRunning (s : State D) : Action D → Bool
  | .resume i _ =>
    match s.threads i, s.quit with
    | .quitting, .swapped [] => true
    | _, _ => false
  | _ => false

/-- At the store that ends `Quit`, the loop is settled. -/
def QuitsSettled (s : State D) (a : Action D) : Prop := s.storesRunning a = true → Settled s

/-- `pending_` and `timer_tasks_` hold no task, and no step starts a posted or delayed one. -/
def ReleasedAll (s : State D) : Prop :=
  s.pending = [] ∧ s.timers.timerTasks = [] ∧
    ∀ a s', step s a = some s' → s'.started = s.started ∧ s'.startedDue = s.startedDue

/-! ## A settled loop stays settled -/

/-- The frames after the innermost one made way for `g`, or for nothing. -/
theorem Settled.frames_of_stack {s s' : State D} {f : Frame D} {fs : List (Frame D)} (hset : Settled s)
    (hs : s.stack = f :: fs)
    (hs' : s'.stack = fs ∨ ∃ g : Frame D, s'.stack = g :: fs ∧ g.rest = [] ∧ g.isHop = false) :
    ∀ g ∈ s'.stack, g.rest = [] ∧ g.isHop = false := by
  have hfs : ∀ g ∈ fs, g.rest = [] ∧ g.isHop = false := fun g hg => hset.frames g (by simp [hs, hg])
  rcases hs' with hs' | ⟨g, hs', hg⟩ <;> rw [hs']
  · exact hfs
  · intro g' hg'
    rcases List.mem_cons.mp hg' with rfl | hg'
    · exact hg
    · exact hfs g' hg'

/-- A thread moves to a position that is not past a check. -/
theorem Settled.move {s s' : State D} {i : Tid} {pc : ThreadPc D} (hset : Settled s)
    (hthreads : s'.threads = Function.update s.threads i pc)
    (hpc : ∀ t, pc ≠ .postChecked t) (hdelayed : ∀ n delay, pc ≠ .delayedChecked n delay)
    (hid : s'.threadId = s.threadId) (hpend : s'.pending = s.pending)
    (htimers : s'.timers = s.timers) (hframes : ∀ f ∈ s'.stack, f.rest = [] ∧ f.isHop = false) :
    Settled s' where
  begun := by rw [hid]; exact hset.begun
  pending := hpend.trans hset.pending
  timerTasks := by rw [htimers]; exact hset.timerTasks
  frames := hframes
  posters := by
    intro j t
    rw [hthreads]
    by_cases hji : j = i
    · subst hji
      simpa using hpc t
    · rw [Function.update_of_ne hji]
      exact hset.posters j t
  delayed := by
    intro n delay hj
    rw [hthreads] at hj
    by_cases hji : loopThread = i
    · subst hji
      exact absurd (by simpa using hj) (hdelayed n delay)
    · rw [Function.update_of_ne hji] at hj
      exact hset.delayed n delay hj

omit [AbslDuration D] in
theorem afterPost_ne (t : Task D) :
    (∀ u, t.afterPost ≠ .postChecked u) ∧ ∀ n delay, t.afterPost ≠ .delayedChecked n delay := by
  cases t <;> simp [Task.afterPost]

theorem settled_resume {s s' : State D} {i : Tid} {o : Outcome} (hc : Control s)
    (hrun : s.running = false) (hq : s.quit = .returned) (h : s.resume i o = some s')
    (hset : Settled s) : Settled s' := by
  have hquitting : s.isQuitting = true := by simp [isQuitting, hrun]
  have hframes := hset.frames
  cases resumed h with
  | @refuse t hpc =>
    rw [destroyTask_eq]
    exact hset.move rfl (afterPost_ne t).1 (afterPost_ne t).2 rfl rfl rfl hframes
  | @wake t hpc => exact hset.move rfl (afterPost_ne t).1 (afterPost_ne t).2 rfl rfl rfl hframes
  | push hpc => exact absurd hpc (hset.posters i _)
  | check _ hn | checkDelayed _ hn | checkCall _ hn => rw [hquitting] at hn; cases hn
  | postTimer hpc hle hcur =>
    have hi : i = loopThread := hc.begun i (by simpa [isCurrent] using hcur)
    subst hi
    rw [hset.delayed _ _ hpc] at hle
    cases hle
  | inline hpc =>
    refine hset.move rfl (by simp) (by simp) rfl rfl rfl fun f hf => ?_
    rcases List.mem_cons.mp hf with rfl | hf
    · exact ⟨rfl, rfl⟩
    · exact hframes f hf
  | quitSwap _ hq' | quitDestroy _ hq' | quitStore _ hq' => rw [hq] at hq'; cases hq'
  | refuseDelayed | postNow | postHop | refuseCall | postCall | wakeCaller | returnCall =>
    exact hset.move rfl (by simp) (by simp) rfl rfl rfl hframes

/-- A settled loop thread starts nothing, and stays settled. -/
theorem settled_frameStep {s s' : State D} {o : Outcome} {f : Frame D} {fs : List (Frame D)}
    (hs : s.stack = f :: fs) (h : s.frameStep o fs f = some s') (hset : Settled s) :
    Settled s' ∧ s'.started = s.started ∧ s'.startedDue = s.startedDue := by
  obtain ⟨hrest, hhop⟩ := hset.frames f (by simp [hs])
  have htop : BinaryHeap.top? s.timers.timerTasks = none := by
    simp [hset.timerTasks, BinaryHeap.top?]
  have hkeep : s'.threads = s.threads → s'.threadId = s.threadId → s'.pending = s.pending →
      s'.timers.timerTasks = s.timers.timerTasks →
      (s'.stack = fs ∨ ∃ g : Frame D, s'.stack = g :: fs ∧ g.rest = [] ∧ g.isHop = false) →
      Settled s' := by
    intro hthreads hid hpend htimers hstack
    refine ⟨?_, ?_, ?_, hset.frames_of_stack hs hstack, ?_, ?_⟩
    · rw [hid]; exact hset.begun
    · rw [hpend]; exact hset.pending
    · rw [htimers]; exact hset.timerTasks
    · rw [hthreads]; exact hset.posters
    · rw [hthreads]; exact hset.delayed
  cases framed h with
  | wait =>
    rw [dispatch_eq] at hkeep ⊢
    refine ⟨hkeep rfl rfl rfl rfl ?_, rfl, rfl⟩
    rcases dispatch_stack s o.wait fs with ⟨hd, -⟩ | ⟨hd, -⟩ | ⟨hd, -⟩ | ⟨hd, -⟩ | hd
    · exact .inl hd
    all_goals refine .inr ⟨_, hd, ?_, ?_⟩ <;> rfl
  | start => cases hrest
  | @finish t rest =>
    cases t with
    | hop n start delay => cases hhop
    | user n => exact ⟨hkeep rfl rfl rfl rfl (.inr ⟨_, rfl, hrest, rfl⟩), rfl, rfl⟩
    | call c => exact ⟨hkeep rfl rfl rfl rfl (.inr ⟨_, rfl, hrest, rfl⟩), rfl, rfl⟩
  | destroy =>
    rw [destroyTask_eq] at hkeep ⊢
    exact ⟨hkeep rfl rfl rfl rfl (.inr ⟨_, rfl, hrest, rfl⟩), rfl, rfl⟩
  | swap =>
    refine ⟨hkeep rfl rfl hset.pending.symm rfl (.inr ⟨_, rfl, hset.pending, rfl⟩), rfl, rfl⟩
  | cancelTimer hne => rw [hset.timerTasks] at hne; cases hne
  | notDue ht => rw [htop] at ht; cases ht
  | runDue ht => rw [htop] at ht; cases ht
  | @popDue now timerTasks g hpop hg =>
    have hnil : timerTasks = s.timers.timerTasks := by
      rw [hpop, hset.timerTasks]
      rfl
    refine ⟨hkeep rfl rfl rfl hnil (.inr ⟨g, rfl, ?_⟩), rfl, rfl⟩
    rcases hg with ⟨rfl, -⟩ | ⟨rfl, -⟩ <;> exact ⟨rfl, rfl⟩
  | schedule =>
    refine ⟨hkeep rfl rfl rfl Timers.timerTasks_scheduleNextTimer (.inr ⟨_, rfl, ?_⟩), rfl, rfl⟩
    exact ⟨rfl, rfl⟩
  | inlineDone =>
    refine ⟨hset.move rfl (by simp) (by simp) rfl rfl rfl ?_, rfl, rfl⟩
    exact fun g hg => hset.frames g (by rw [hs]; exact List.mem_cons_of_mem _ hg)
  | batchDone | close => exact ⟨hkeep rfl rfl rfl rfl (.inl rfl), rfl, rfl⟩
  | _ => refine ⟨hkeep rfl rfl rfl rfl (.inr ⟨_, rfl, ?_, ?_⟩), rfl, rfl⟩ <;> rfl

/-! ## The runs in which Quit finds the loop settled -/

/-- Once `Quit` has returned, `running_` is false and the loop is settled. -/
def AfterQuit (s : State D) : Prop := s.quit = .returned → s.running = false ∧ Settled s

omit [AbslDuration D] in
theorem enter_returned {s s' : State D} {i : Tid} {c : ApiCall D} (h : s.enter i c = some s')
    (hq : s'.quit = .returned) : s.quit = .returned := by
  cases c with
  | postTask | postDelayedTask | blockingCall => cases h; exact hq
  | quit =>
    simp only [enter] at h
    split at h
    · cases h; cases hq
    · cases h

/-- A thread that enters a public function is before its check. -/
theorem settled_enter {s s' : State D} {i : Tid} {c : ApiCall D} (h : s.enter i c = some s')
    (hset : Settled s) : Settled s' := by
  cases c with
  | postTask | postDelayedTask | blockingCall =>
    cases h
    exact hset.move rfl (by simp) (by simp) rfl rfl rfl hset.frames
  | quit =>
    simp only [enter] at h
    split at h
    · cases h
      exact hset.move rfl (by simp) (by simp) rfl rfl rfl hset.frames
    · cases h

/-- The store that ends `Quit` is the only step by which it returns. -/
theorem afterQuit_resume {s s' : State D} {i : Tid} {o : Outcome} (hc : Control s)
    (hok : QuitsSettled s (.resume i o)) (h : s.resume i o = some s') (haq : AfterQuit s) :
    AfterQuit s' := by
  intro hq'
  by_cases hq : s.quit = .returned
  · obtain ⟨hrun, hset⟩ := haq hq
    refine ⟨?_, settled_resume hc hrun hq h hset⟩
    cases resumed h with
    | quitSwap | quitDestroy => cases hq'
    | refuse => rw [destroyTask_eq]; exact hrun
    | quitStore => rfl
    | _ => exact hrun
  · cases resumed h with
    | quitSwap | quitDestroy => cases hq'
    | quitStore hpc hswapped =>
      have hset := hok (by simp [storesRunning, hpc, hswapped])
      exact ⟨rfl, hset.move rfl (by simp) (by simp) rfl rfl rfl hset.frames⟩
    | refuse => rw [destroyTask_eq] at hq'; exact absurd hq' hq
    | _ => exact absurd hq' hq

/-- What a step does once `Quit` has returned and the loop is settled. -/
theorem settled_step {s s' : State D} {a : Action D} (hc : Control s) (hrun : s.running = false)
    (hq : s.quit = .returned) (hset : Settled s) (h : step s a = some s') :
    Settled s' ∧ s'.started = s.started ∧ s'.startedDue = s.startedDue := by
  have hsame : s'.threads = s.threads → s'.threadId = s.threadId → s'.pending = s.pending →
      s'.timers.timerTasks = s.timers.timerTasks →
      (∀ f ∈ s'.stack, f.rest = [] ∧ f.isHop = false) → Settled s' := by
    intro hthreads hid hpend htimers hframes
    refine ⟨?_, hpend.trans hset.pending, htimers.trans hset.timerTasks, hframes, ?_, ?_⟩
    · rw [hid]; exact hset.begun
    · rw [hthreads]; exact hset.posters
    · rw [hthreads]; exact hset.delayed
  have hpush : ∀ g : Frame D, g.rest = [] ∧ g.isHop = false →
      ∀ f ∈ g :: s.stack, f.rest = [] ∧ f.isHop = false := by
    intro g hg f hf
    rcases List.mem_cons.mp hf with rfl | hf
    · exact hg
    · exact hset.frames f hf
  cases step_cases h with
  | begin hid => exact absurd hid hset.begun
  | call hm he =>
    refine ⟨settled_enter he hset, ?_⟩
    rw [enter_frame he]
    exact ⟨rfl, rfl⟩
  | resume hr =>
    refine ⟨settled_resume hc hrun hq hr hset, ?_⟩
    rw [resume_frame hr]
    exact ⟨rfl, rfl⟩
  | runEventLoopOnce hm => exact ⟨hsame rfl rfl rfl rfl (hpush _ ⟨rfl, rfl⟩), rfl, rfl⟩
  | processPendingTasks hm => exact ⟨hsame rfl rfl rfl rfl (hpush _ ⟨rfl, rfl⟩), rfl, rfl⟩
  | loop hout hs hf => exact settled_frameStep hs hf hset
  | expire he =>
    refine ⟨hsame rfl rfl rfl ?_ hset.frames, rfl, rfl⟩
    simp only [Timers.expire] at he
    split at he
    · cases he; rfl
    · cases he
  | wakeUp | socket | arrive | tick => exact ⟨hsame rfl rfl rfl rfl hset.frames, rfl, rfl⟩

theorem afterQuit_step {s s' : State D} {a : Action D} (hc : Control s) (hok : QuitsSettled s a)
    (h : step s a = some s') (haq : AfterQuit s) : AfterQuit s' := by
  have hkeep : s'.quit = s.quit → s'.running = s.running → AfterQuit s' := by
    intro hq hrun hq'
    rw [hq] at hq'
    have hold := haq hq'
    exact ⟨hrun.trans hold.1, (settled_step hc hold.1 hq' hold.2 h).1⟩
  cases step_cases h with
  | begin hid =>
    intro hq'
    exact absurd hid (haq hq').2.begun
  | call hm he =>
    intro hq'
    have hold := haq (enter_returned he hq')
    refine ⟨?_, settled_enter he hold.2⟩
    rw [enter_frame he]
    exact hold.1
  | resume hr => exact afterQuit_resume hc hok hr haq
  | loop hout hs hf =>
    have hframe := frameStep_frame hf
    exact hkeep (by rw [hframe]) (by rw [hframe])
  | runEventLoopOnce | processPendingTasks | wakeUp | socket | arrive | expire | tick =>
    exact hkeep rfl rfl

theorem afterQuit_of_reaches {s : State D} (h : ReachesIf QuitsSettled s) : AfterQuit s :=
  h.invariant_with (fun _ hr => control_of_reaches hr)
    (fun _ _ _ hok hstep hc haq => afterQuit_step hc hok hstep haq)
    (by intro hq; simp [State.init] at hq)

/-- **Quit releases everything** in a run in which the store that ends it finds the loop settled:
    from then on no task is held, and no posted or delayed task is started. -/
theorem quit_releases_all {s : State D} (h : ReachesIf QuitsSettled s) (hq : s.quit = .returned) :
    ReleasedAll s := by
  obtain ⟨hrun, hset⟩ := afterQuit_of_reaches h hq
  refine ⟨hset.pending, hset.timerTasks, fun a s' hstep => ?_⟩
  exact (settled_step (control_of_reaches h) hrun hq hset hstep).2

/-- Thread 2 calls `Quit` while a task of thread 1 is pending and the loop thread waits; the task is
    discarded. -/
def discardingRun : List (Action Ticks) :=
  [.begin, .runEventLoopOnce .posInf, .call 1 .postTask, .resume 1 {}, .resume 1 {}, .resume 1 {},
    .call 2 .quit, .resume 2 {}, .resume 2 {}]

theorem quit_releases_all_discarding :
    ∃ s : State Ticks, ReachesIf QuitsSettled s ∧ s.quit = .returned ∧ s.pushed = [.user 0] ∧
      ReleasedAll s := by
  have hrun : (runWhile step (fun s a => s.storesRunning a = false) State.init
      discardingRun).isSome = true := by decide
  have hbefore : ReachesIf QuitsSettled _ := (reaches_get hrun).mono fun s a hn hy => by
    rw [hn] at hy
    cases hy
  have hset : Settled ((runWhile step (fun s a => s.storesRunning a = false) State.init
      discardingRun).get hrun) := by
    refine ⟨(fun h => by cases h), rfl, rfl, ?_, ?_, fun _ _ h => by cases h⟩
    · intro f hf
      rw [List.mem_singleton.mp hf]
      exact ⟨rfl, rfl⟩
    · intro i t h
      match i with
      | 0 | 1 | 2 => cases h
      | n + 3 => cases h
  have hreach := hbefore.tail (a := .resume 2 {}) (fun _ => hset) rfl
  exact ⟨_, hreach, rfl, rfl, quit_releases_all hreach rfl⟩

/-- The loop thread posts a delayed task and calls `Quit`. -/
def delayedThenQuitRun : List (Action Ticks) :=
  [.begin, .call 0 (.postDelayedTask (.finite 4000000)), .resume 0 {}, .resume 0 {},
    .call 0 .quit, .resume 0 {}, .resume 0 {}]

/-- **A delayed task is left behind**: `Quit` does not look at `timer_tasks_`. -/
theorem quit_leaves_delayed_task :
    ¬∀ s : State Ticks, Reachable s → s.quit = .returned → ReleasedAll s := by
  intro hclaim
  have hrun : (runWhile step Always State.init delayedThenQuitRun).isSome = true := by decide
  obtain ⟨-, htimers, -⟩ := hclaim _ (reaches_get hrun) rfl
  cases htimers

end IoBase
