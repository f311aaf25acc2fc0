import IoBase.BatchQueue
import IoBase.Control

/- Posted tasks run once each, in the order they were pushed.

   The loop's view of its tasks is a `BatchQueue`: `pending_` is the queue, the
   batch is what `RunPendingTasks` has swapped out and not started. As long as
   `Quit` is not called and no posted task re-enters the loop, every step of the
   loop is a step of that queue or is not seen there (`queue_step`), so the queue's
   order carries over to the loop (`posted_tasks_fifo`). Then there is one batch at
   a time, which is what `OneBatch` keeps: a socket callback, a delayed task or the
   functor of a call may re-enter the loop, as they run when no batch is held. -/
namespace IoBase
open Transition State

variable {D : Type}

def Action.callsQuit : Action D → Bool
  | .call _ .quit => true
  | _ => false

def Frame.isTask : Frame D → Bool
  | .running _ _ => true
  | _ => false

namespace State

/-- The swapped-out tasks that have not started, those of the innermost batch first. -/
def unstarted (s : State D) : List (Task D) := s.stack.flatMap Frame.rest

/-- The tasks of the loop as a queue drained by batches. -/
def queue (s : State D) : BatchQueue.Queue (Task D) := ⟨s.pushed, s.started, s.unstarted, s.pending⟩

/-- A posted task is being run. -/
def inTask (s : State D) : Bool := s.stack.any Frame.isTask

end State

/-- The action does not call `Quit`, and does not re-enter the loop from a posted task. -/
def RunsOnly (s : State D) (a : Action D) : Prop :=
  a.callsQuit = false ∧ (a.startsIteration = true → s.inTask = false)

instance (s : State D) (a : Action D) : Decidable (RunsOnly s a) :=
  inferInstanceAs (Decidable (_ ∧ (_ → _)))

/-- `Quit` has not been called, and at most one frame holds a batch or may lead to one. -/
structure OneBatch (s : State D) : Prop where
  noQuit : s.quit = .notCalled
  atMostOne : s.stack.countP Frame.batches ≤ 1

theorem rest_of_not_batches {f : Frame D} (h : f.batches = false) : f.rest = [] := by
  cases f <;> simp_all [Frame.batches, Frame.rest]

/-- Of the frames of user code, only a running task holds a batch. -/
theorem isTask_of_batches {f : Frame D} (h : f.batches = true) (huser : f.userCode = true) :
    f.isTask = true := by
  cases f <;> simp_all [Frame.batches, Frame.userCode, Frame.isTask]

/-- Under the frame that holds the only batch there is no other. -/
theorem OneBatch.unstarted_below {s : State D} {f : Frame D} {fs : List (Frame D)}
    (h : OneBatch s) (hs : s.stack = f :: fs) (hf : f.batches = true) :
    fs.flatMap Frame.rest = [] := by
  have hcount := h.atMostOne
  rw [hs, List.countP_cons_of_pos hf] at hcount
  have hzero : fs.countP Frame.batches = 0 := by omega
  rw [List.flatMap_eq_nil_iff]
  intro g hg
  have hnot := List.countP_eq_zero.mp hzero g hg
  exact rest_of_not_batches (by simpa using hnot)

variable [AbslDuration D]

omit [AbslDuration D] in
theorem enter_quit_eq {s s' : State D} {i : Tid} {c : ApiCall D} (h : s.enter i c = some s')
    (hc : (Action.call i c).callsQuit = false) : s'.quit = s.quit := by
  cases c with
  | quit => cases hc
  | postTask | postDelayedTask | blockingCall => cases h; rfl

theorem resume_quit_notCalled {s s' : State D} {i : Tid} {o : Outcome}
    (h : s.resume i o = some s') (hq : s.quit = .notCalled) : s'.quit = .notCalled := by
  cases resumed h with
  | quitSwap _ hq' | quitDestroy _ hq' | quitStore _ hq' => simp [hq] at hq'
  | refuse => rw [destroyTask_eq]; exact hq
  | _ => exact hq

omit [AbslDuration D] in
/-- While user code runs and no posted task does, no frame holds a batch. -/
theorem countP_batches_eq_zero {s : State D} (hc : Control s) (hm : s.mayCall loopThread = true)
    (hin : s.inTask = false) : s.stack.countP Frame.batches = 0 := by
  rw [List.countP_eq_zero]
  intro f hf hb
  have huser := hc.all_userCode ((mayCall_iff.mp hm).2 rfl) f hf
  rw [inTask, List.any_eq_false] at hin
  exact hin f hf (isTask_of_batches hb huser)

theorem oneBatch_step {s s' : State D} {a : Action D} (hc : Control s) (ha : RunsOnly s a)
    (h : step s a = some s') (hone : OneBatch s) : OneBatch s' := by
  obtain ⟨hnq, hre⟩ := ha
  have hpush : ∀ f : Frame D, s.mayCall loopThread = true → s.inTask = false →
      (f :: s.stack).countP Frame.batches ≤ 1 := by
    intro f hm hin
    rw [List.countP_cons, countP_batches_eq_zero hc hm hin]
    split <;> omega
  cases step_cases h with
  | call hm he =>
    refine ⟨(enter_quit_eq he hnq).trans hone.noQuit, ?_⟩
    rw [enter_frame he]
    exact hone.atMostOne
  | resume hr =>
    refine ⟨resume_quit_notCalled hr hone.noQuit, ?_⟩
    rcases resume_stack_cases hc hr with hs | ⟨c, -, -, -, hs⟩
    · rw [hs]; exact hone.atMostOne
    · rw [hs, List.countP_cons_of_neg (by simp [Frame.batches])]
      exact hone.atMostOne
  | runEventLoopOnce hm => exact ⟨hone.noQuit, hpush _ hm (hre rfl)⟩
  | processPendingTasks hm => exact ⟨hone.noQuit, hpush _ hm (hre rfl)⟩
  | loop hout hs hf =>
    refine ⟨by rw [frameStep_frame hf]; exact hone.noQuit, ?_⟩
    have hcount := hone.atMostOne
    rcases frameStep_stack hf with hs' | ⟨g, -, hg, hs'⟩
    · rw [hs']
      rw [hs, List.countP_cons] at hcount
      omega
    · rw [hs, List.countP_cons] at hcount
      rw [hs', List.countP_cons]
      -- the frame put in its place counts only if the old one did
      by_cases hgb : g.batches = true
      · rw [if_pos hgb]
        rwa [if_pos (hg hgb)] at hcount
      · rw [if_neg hgb]
        omega
  | begin | wakeUp | socket | arrive | expire | tick => exact ⟨hone.noQuit, hone.atMostOne⟩

/-- A step that a `BatchQueue` takes, or does not see. -/
def QueueStep (s s' : State D) : Prop :=
  s'.queue = s.queue ∨ ∃ op, Always s.queue op ∧ BatchQueue.step s.queue op = some s'.queue

/-- `PostTaskImpl` pushes one task; no other step of a public call touches the queue. -/
theorem queue_resume {s s' : State D} {i : Tid} {o : Outcome} (hq : s.quit = .notCalled)
    (h : s.resume i o = some s') : QueueStep s s' := by
  cases resumed h with
  | push hpc => exact .inr ⟨.push _, trivial, rfl⟩
  | quitSwap _ hq' | quitDestroy _ hq' | quitStore _ hq' => simp [hq] at hq'
  | refuse => rw [destroyTask_eq]; exact .inl rfl
  | _ => exact .inl rfl

/-- The swap takes a batch, the start of a task starts it; the other steps of the loop keep the
    rest of the batch as it is. -/
theorem queue_frameStep {s s' : State D} {o : Outcome} {f : Frame D} {fs : List (Frame D)}
    (hone : OneBatch s) (hs : s.stack = f :: fs) (h : s.frameStep o fs f = some s') :
    QueueStep s s' := by
  have hqueue : s.queue = ⟨s.pushed, s.started, f.rest ++ fs.flatMap Frame.rest, s.pending⟩ := by
    simp [queue, unstarted, hs]
  rw [QueueStep, hqueue]
  cases framed h with
  | wait =>
    refine .inl ?_
    rw [dispatch_eq]
    rcases dispatch_stack s o.wait fs with ⟨hd, -⟩ | ⟨hd, -⟩ | ⟨hd, -⟩ | ⟨hd, -⟩ | hd <;>
      simp [queue, unstarted, hd, Frame.rest]
  | swap =>
    have hbelow := hone.unstarted_below hs rfl
    refine .inr ⟨.take, trivial, ?_⟩
    simp [BatchQueue.step, queue, unstarted, hbelow, Frame.rest]
  | start =>
    refine .inr ⟨.start, trivial, ?_⟩
    rw [startTask_eq]
    simp [BatchQueue.step, queue, unstarted, Frame.rest]
  | finish =>
    rw [finishTask_eq]
    exact .inl (by simp [queue, unstarted, Frame.rest])
  | destroy =>
    rw [destroyTask_eq]
    exact .inl (by simp [queue, unstarted, Frame.rest])
  | popDue _ hf => rcases hf with ⟨rfl, -⟩ | ⟨rfl, -⟩ <;> exact .inl rfl
  | _ => exact .inl (by simp [queue, unstarted, Frame.rest, setThread, finishFunctor, updateCall])

theorem queue_step {s s' : State D} {a : Action D} (h : step s a = some s') (hone : OneBatch s) :
    QueueStep s s' := by
  cases step_cases h with
  | call hm he => exact .inl (by rw [enter_frame he]; rfl)
  | resume hr => exact queue_resume hone.noQuit hr
  | loop hout hs hf => exact queue_frameStep hone hs hf
  | begin | wakeUp | runEventLoopOnce | processPendingTasks | socket | arrive | expire | tick =>
    exact .inl rfl

theorem oneBatch_of_reaches {s : State D} (h : ReachesIf RunsOnly s) : OneBatch s :=
  h.invariant_with (fun _ hr => control_of_reaches hr)
    (fun _ _ _ ha hstep hc hone => oneBatch_step hc ha hstep hone) ⟨rfl, by simp [State.init]⟩

/-- **Nothing lost, nothing duplicated, nothing overtaken.** The tasks started, then the rest of
    the batch, then `pending_`, are the tasks pushed, in the order they were pushed. -/
theorem posted_tasks_fifo {s : State D} (h : ReachesIf RunsOnly s) :
    s.started ++ s.unstarted ++ s.pending = s.pushed := by
  have hqueue : Reaches BatchQueue.step Always (State.init : State D).queue s.queue :=
    h.refine State.queue (fun _ hr => oneBatch_of_reaches hr)
      fun _ _ _ _ hstep hone => queue_step hstep hone
  exact BatchQueue.fifo_of_reaches hqueue

/-- Two tasks are posted from another thread, the loop takes both, and the first posts a third
    while it runs. -/
def selfPostRun : List (Action Ticks) :=
  let resume (i : Tid) : Action Ticks := .resume i {}
  [.begin,
    .call 1 .postTask, resume 1, resume 1, resume 1,
    .call 1 .postTask, resume 1, resume 1, resume 1,
    .runEventLoopOnce .posInf, .loop { wait := .wakeup }, .loop {}, .loop {}, .loop {},
    .call 0 .postTask, resume 0, resume 0]

theorem posted_tasks_fifo_selfPost :
    ∃ s : State Ticks, ReachesIf RunsOnly s ∧
      s.started = [.user 0] ∧ s.unstarted = [.user 1] ∧ s.pending = [.user 2] ∧
      s.started ++ s.unstarted ++ s.pending = s.pushed := by
  have hrun : (runWhile step RunsOnly State.init selfPostRun).isSome = true := by decide
  have hreach := reaches_get hrun
  exact ⟨_, hreach, rfl, rfl, rfl, posted_tasks_fifo hreach⟩

end IoBase
