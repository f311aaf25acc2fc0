import IoBase.DuePass
import IoBase.TokenFlow
import Mathlib.Tactic.Abel

/- Where the closures of the program are, from the post to the run.

   A closure that is given to `PostTask` or `PostDelayedTask` is a token: the thread that
   posts it has it, then it is in `pending_`, in a batch, in the hop to the loop thread, in
   `timer_tasks_` or in what `Quit` discards, until it is started. The task at the top of the
   heap has been started once `RunDueTasks` runs it, though it is popped later.

   * `DelayedTasks.remaining_step`: what a step does to the delayed tasks that wait.
   * `flow_step`: every step of the loop moves tokens; only a loop that is quitting loses one.
   * `started_once`: no closure is started twice, over both ways it can come.
   * `posted_not_lost`: until `Quit` is called, every closure that is posted to a loop that has
     begun is waiting or has been started. -/
namespace IoBase
open AbslDuration LawfulDuration Transition State TokenFlow

variable {D : Type}

/-! ## The delayed tasks -/

namespace DelayedTasks

/-- The tasks of the heap that have not been started. -/
def remaining (s : DelayedTasks) : List DelayedTaskInfo :=
  match s.pass with
  | some (.running _) => s.timers.timerTasks.tail
  | _ => s.timers.timerTasks

/-- Outside `top.Run()` it is the heap. -/
theorem remaining_eq {s : DelayedTasks} (h : ∀ r, s.pass ≠ some (.running r)) : s.remaining = s.timers.timerTasks := by
  rw [remaining]
  split
  · rename_i r hp
    exact absurd hp (h r)
  · rfl

/-- While a task runs, a heap that keeps its top has it no more, and what is added to it remains. -/
theorem tail_perm {l l' : List DelayedTaskInfo} {top info : DelayedTaskInfo} (h : BinaryHeap.top? l = some top)
    (h' : BinaryHeap.top? l' = some top) (hperm : l'.Perm (info :: l)) : l'.tail.Perm (info :: l.tail) := by
  obtain ⟨rest, rfl⟩ := List.head?_eq_some_iff.mp h
  obtain ⟨rest', rfl⟩ := List.head?_eq_some_iff.mp h'
  exact (hperm.trans (List.Perm.swap _ _ _)).cons_inv

variable [LawfulDuration D] {s s' : DelayedTasks}

/-- What is posted waits, and what has been run waits no more. -/
theorem remaining_post {p : Post D} {o : TimerOutcome} (hs : s.Sound) (hmay : s.mayPost = true)
    (hclock : s.clock ≤ p.startMicros) (hp : p.Timely) :
    (remaining ⟨s.timers.post p o, p.now₃, s.pass⟩).Perm (p.info :: s.remaining) := by
  have hpush := BinaryHeap.push_perm DelayedTaskInfo.gt s.timers.timerTasks p.info
  cases hpass : s.pass with
  | none =>
    rw [remaining_eq (by simp), remaining_eq (by simp [hpass]), Timers.timerTasks_post]
    exact hpush
  | some pass =>
    cases pass with
    | running r =>
      obtain ⟨top, htop, -, hdue⟩ := running_post (hs.pass _ hpass) hclock hp
      simp only [remaining, hpass, Timers.timerTasks_post]
      exact tail_perm htop (BinaryHeap.top?_push htop (not_gt_iff.mpr hdue)) hpush
    | due r =>
      simp only [mayPost, hpass] at hmay
      cases hmay
    | scheduling =>
      simp only [mayPost, hpass] at hmay
      cases hmay

theorem remaining_passStep {now : Int} {o : TimerOutcome} {p : DuePass} (hs : s.Sound) (hpass : s.pass = some p)
    (hstep : passStep D s now o p = some s') :
    (ranTasks (s.notes (.loop now o : Action D)) ++ s'.remaining).Perm s.remaining := by
  cases p with
  | due r =>
    have hold : s.remaining = s.timers.timerTasks := remaining_eq (by simp [hpass])
    obtain ⟨top, htop⟩ : ∃ top, BinaryHeap.top? s.timers.timerTasks = some top :=
      ⟨_, List.head?_eq_some_head (hs.pass _ hpass).2.2⟩
    by_cases hdue : top.dueTimeMicros > r
    · simp only [passStep, htop, if_pos hdue] at hstep
      cases hstep
      simp only [notes, hpass, htop, if_pos hdue]
      rw [hold, remaining_eq (by simp)]
      exact List.Perm.refl _
    · simp only [passStep, htop, if_neg hdue] at hstep
      cases hstep
      simp only [notes, hpass, htop, if_neg hdue, ranTasks, List.filterMap_cons, List.filterMap_nil]
      rw [hold]
      obtain ⟨rest, hrest⟩ := List.head?_eq_some_iff.mp htop
      simp only [remaining, Timers.timerTasks_dcheck, hrest, List.tail_cons]
      exact List.Perm.refl _
  | running r =>
    obtain ⟨-, -, top, htop, -⟩ := hs.pass _ hpass
    cases hstep
    have hnotes : ranTasks (s.notes (.loop now o : Action D)) = [] := by
      simp only [notes, hpass]
      rfl
    rw [hnotes, remaining_eq (by intro r'; simp only; split <;> simp)]
    have hpop := BinaryHeap.cons_pop_perm DelayedTaskInfo.gt htop
    obtain ⟨rest, hrest⟩ := List.head?_eq_some_iff.mp htop
    simp only [remaining, hpass]
    rw [hrest] at hpop ⊢
    exact hpop.cons_inv
  | scheduling =>
    simp only [passStep] at hstep
    split at hstep
    · cases hstep
      have hnotes : ranTasks (s.notes (.loop now o : Action D)) = [] := by
        simp only [notes, hpass]
        rfl
      rw [hnotes, remaining_eq (by simp), remaining_eq (by simp [hpass]), Timers.timerTasks_scheduleNextTimer]
      exact List.Perm.refl _
    · cases hstep

/-- **What waits.** A task that is put into the heap waits, and one that is run waits no more. -/
theorem remaining_step {a : Action D} (hs : s.Sound) (h : step s a = some s') :
    (ranTasks (s.notes a) ++ s'.remaining).Perm (queuedTasks (s.notes a) ++ s.remaining) := by
  cases a with
  | tick micros =>
    cases h
    exact List.Perm.refl _
  | depart task delay start =>
    simp only [step] at h
    split at h <;> cases h
    exact List.Perm.refl _
  | post p o =>
    simp only [step] at h
    split at h
    · rename_i hpost
      cases h
      exact remaining_post hs hpost.1 hpost.2.1 hpost.2.2
    · cases h
  | hop p o =>
    simp only [step] at h
    split at h
    · rename_i hhop
      cases h
      have hpush := BinaryHeap.push_perm DelayedTaskInfo.gt s.timers.timerTasks p.info
      have hnew : remaining ⟨s.timers.post p o, p.now₃, s.pass⟩ =
          BinaryHeap.push DelayedTaskInfo.gt s.timers.timerTasks p.info := by
        rw [remaining_eq (by simp [hhop.1]), Timers.timerTasks_post]
      rw [hnew, remaining_eq (by simp [hhop.1])]
      exact hpush
    · cases h
  | fire now =>
    simp only [step] at h
    split at h
    · rename_i hfire
      cases h
      rw [remaining_eq (by simp), remaining_eq (by simp [hfire.1]), Timers.timerTasks_dcheck, Timers.timerTasks_cancel]
      exact List.Perm.refl _
    · cases h
  | loop now o =>
    obtain ⟨p, hpass, hstep⟩ := Option.bind_eq_some_iff.mp h
    have hqueued : queuedTasks (s.notes (.loop now o : Action D)) = [] := by
      simp only [notes]
      split
      · split <;> rfl
      · rfl
    rw [hqueued]
    exact remaining_passStep hs hpass hstep
  | expire id =>
    obtain ⟨ts', he, rfl⟩ := Option.map_eq_some_iff.mp h
    simp only [remaining, (Timers.expire_frame he).1]
    exact List.Perm.refl _

end DelayedTasks

/-! ## The closures of the loop -/

/-- The program's closure that the task is to run, or to take to `timer_tasks_`. -/
def Task.closure : Task D → Option Closure
  | .user n => some n
  | .hop n _ _ => some n
  | .call _ => none

/-- The program's closure that the task runs. -/
def Task.userClosure : Task D → Option Closure
  | .user n => some n
  | _ => none

/-- The closure that a thread is about to post. -/
def ThreadPc.posting : ThreadPc D → Option Closure
  | .postEntered t | .postChecked t => t.closure
  | .delayedEntered n _ | .delayedChecked n _ => some n
  | _ => none

/-- The closures of a batch that have not been started; a hop has its closure until it ends. -/
def Frame.closures : Frame D → Multiset Closure
  | .batch rest => tally Task.closure rest
  | .running (.hop n start delay) rest => tally Task.closure (.hop n start delay :: rest)
  | .running _ rest | .ran _ rest => tally Task.closure rest
  | _ => 0

def QuitPhase.closures : QuitPhase D → Multiset Closure
  | .swapped discarded => tally Task.closure discarded
  | _ => 0

namespace State

/-- The closures that wait to be started, or to be destroyed. -/
def waitingClosures (s : State D) : Multiset Closure :=
  tally Task.closure s.pending + (s.stack.map Frame.closures).sum + s.quit.closures +
    tally DelayedTaskInfo.task s.delayedTasks.remaining

/-- The closures that have been started: posted tasks, and delayed tasks. -/
def startedClosures (s : State D) : List Closure :=
  s.started.filterMap Task.userClosure ++ s.startedDue.filterMap DelayedTaskInfo.task

/-- The loop, by where its closures are. -/
def closureView (s : State D) : TokenFlow.View Tid where
  held := fun i => (s.threads i).posting
  placed := s.waitingClosures + ↑s.startedClosures
  next := s.nextClosure

/-- The delayed tasks that wait, and those that have been started. -/
def dueClosures (s : State D) : Multiset Closure :=
  tally DelayedTaskInfo.task s.delayedTasks.remaining + tally DelayedTaskInfo.task s.startedDue

/-- The other tasks, with the hops. -/
def taskClosures (s : State D) : Multiset Closure :=
  tally Task.closure s.pending + (s.stack.map Frame.closures).sum + s.quit.closures +
    tally Task.userClosure s.started

/-- What has been placed, part by part. -/
theorem placed_eq (s : State D) : s.closureView.placed = s.taskClosures + s.dueClosures := by
  have hstarted : (↑s.startedClosures : Multiset Closure) =
      tally Task.userClosure s.started + tally DelayedTaskInfo.task s.startedDue := by
    rw [startedClosures, ← Multiset.coe_add]
    rfl
  simp only [closureView, waitingClosures, taskClosures, dueClosures, hstarted]
  abel

end State

/-! ### Steps -/

/-- A thread that goes on with the closure that it has, or with none. -/
theorem posting_keep {threads : Tid → ThreadPc D} {i : Tid} {pc : ThreadPc D}
    (h : pc.posting = (threads i).posting) :
    (fun j => (Function.update threads i pc j).posting) = fun j => (threads j).posting := by
  funext j
  by_cases hij : j = i
  · rw [hij, Function.update_self, h]
  · rw [Function.update_of_ne hij]

theorem posting_update {threads : Tid → ThreadPc D} {i : Tid} {pc : ThreadPc D} :
    (fun j => (Function.update threads i pc j).posting) =
      Function.update (fun j => (threads j).posting) i pc.posting := by
  funext j
  by_cases hij : j = i
  · rw [hij, Function.update_self, Function.update_self]
  · rw [Function.update_of_ne hij, Function.update_of_ne hij]

theorem posting_afterPost (t : Task D) : t.afterPost.posting = none := by
  cases t <;> rfl

/-- A loop that is quitting, or whose `Quit` has been called, loses closures. -/
def Losing (s : State D) : Prop := s.isQuitting = true ∨ s.quit ≠ .notCalled

theorem flow_enter {s s' : State D} {i : Tid} {c : ApiCall D} (hout : s.threads i = .outside) (h : s.enter i c = some s') :
    Move (Losing s) s.closureView s'.closureView := by
  have hnone : (s.threads i).posting = none := by
    rw [hout]
    rfl
  cases c with
  | postTask =>
    cases h
    exact .new i hnone posting_update rfl rfl
  | postDelayedTask delay =>
    cases h
    exact .new i hnone posting_update rfl rfl
  | blockingCall =>
    cases h
    exact .keep (posting_keep hnone.symm) rfl rfl
  | quit =>
    simp only [enter] at h
    split at h
    · rename_i hquit
      cases h
      refine .keep (posting_keep hnone.symm) ?_ rfl
      simp only [placed_eq, taskClosures, hquit]
      rfl
    · cases h

section Started
variable [AbslDuration D] {s s' : State D}

/-- A step of a thread starts no delayed task. -/
theorem ranTasks_resume (s : State D) (i : Tid) (o : Outcome) :
    ranTasks (s.timerNotes (.resume i o)) = [] := by
  simp only [timerNotes, timerAct]
  split
  · split
    · rfl
    · split <;> rfl
  · rfl

/-- The delayed tasks that a step starts are those of its notes. -/
theorem startedDue_step {a : Action D} (h : step s a = some s') :
    s'.startedDue = s.startedDue ++ ranTasks (s.timerNotes a) := by
  cases step_cases h with
  | call hm he =>
    rw [enter_frame he]
    exact (List.append_nil _).symm
  | resume hr =>
    rw [resume_frame hr, ranTasks_resume, List.append_nil]
  | @loop o f fs s' hout hs hf =>
    have hnone : s.timerAct (.loop o) = none ∨ (∃ b, s.timerAct (.loop o) = some b ∧
        ranTasks (s.delayedTasks.notes b) = []) → s'.startedDue = s.startedDue →
        s'.startedDue = s.startedDue ++ ranTasks (s.timerNotes (.loop o)) := by
      intro hact heq
      rw [timerNotes, heq]
      obtain hact | ⟨b, hact, hran⟩ := hact
      · rw [hact]
        exact (List.append_nil _).symm
      · rw [hact, Option.elim_some, hran, List.append_nil]
    cases framed hf with
    | wait => exact hnone (.inl (by simp only [timerAct, hs])) (by rw [dispatch_eq])
    | start => exact hnone (.inl (by simp only [timerAct, hs])) (by rw [startTask_eq])
    | destroy => exact hnone (.inl (by simp only [timerAct, hs])) (by rw [destroyTask_eq])
    | @finish t rest =>
      cases t with
      | hop n start delay => exact hnone (.inr ⟨_, by simp only [timerAct, hs]; rfl, rfl⟩) rfl
      | _ => exact hnone (.inl (by simp only [timerAct, hs])) rfl
    | noTimerTask he => exact hnone (.inl (by simp only [timerAct, hs, he, if_true])) rfl
    | cancelTimer he =>
      refine hnone (.inr ⟨.fire (s.clock + o.gap₁), ?_, rfl⟩) rfl
      simp only [timerAct, hs, he, Bool.false_eq_true, if_false]
    | @notDue now top htop hgt =>
      refine hnone (.inr ⟨.loop (s.clock + o.gap₁) o.timer, by simp only [timerAct, hs], ?_⟩) rfl
      simp only [DelayedTasks.notes, delayedTasks, hs, List.findSome?_cons, Frame.pass, htop, if_pos hgt]
      rfl
    | @runDue now top htop hle =>
      simp only [timerNotes, timerAct, hs, Option.elim_some, DelayedTasks.notes, delayedTasks,
        List.findSome?_cons, Frame.pass, htop, if_neg hle]
      rfl
    | popDue =>
      refine hnone (.inr ⟨.loop (s.clock + o.gap₁) o.timer, by simp only [timerAct, hs], ?_⟩) rfl
      simp only [DelayedTasks.notes, delayedTasks, hs, List.findSome?_cons, Frame.pass]
      rfl
    | schedule =>
      refine hnone (.inr ⟨.loop (s.clock + o.gap₁) o.timer, by simp only [timerAct, hs], ?_⟩) rfl
      simp only [DelayedTasks.notes, delayedTasks, hs, List.findSome?_cons, Frame.pass]
      rfl
    | _ => exact hnone (.inl (by simp only [timerAct, hs])) rfl
  | expire he => exact (List.append_nil _).symm
  | begin | wakeUp | runEventLoopOnce | processPendingTasks | socket | arrive | tick =>
    exact (List.append_nil _).symm

end Started

section Steps
variable [LawfulDuration D] {s s' : State D}

/-- What a step adds to the delayed tasks that wait or have been started. -/
theorem dueClosures_step {a : Action D} (hs : InLoop s) (ha : TimersFit s a) (h : step s a = some s') :
    s'.dueClosures = s.dueClosures + tally DelayedTaskInfo.task (queuedTasks (s.timerNotes a)) := by
  have hdelayed := delayed_step hs.tracked.control hs.tracked.onePass hs.tracked.hops (ha.2.1 _ h) h
  have hremaining : (ranTasks (s.timerNotes a) ++ s'.delayedTasks.remaining).Perm
      (queuedTasks (s.timerNotes a) ++ s.delayedTasks.remaining) := by
    rw [timerNotes]
    unfold DelayedStep at hdelayed
    cases hact : s.timerAct a with
    | none =>
      rw [hact] at hdelayed
      rw [show s'.delayedTasks = s.delayedTasks from hdelayed]
      exact List.Perm.refl _
    | some b =>
      rw [hact] at hdelayed
      exact DelayedTasks.remaining_step hs.sound hdelayed
  have htally := tally_perm (f := DelayedTaskInfo.task) hremaining
  rw [tally_append, tally_append] at htally
  rw [dueClosures, startedDue_step h, tally_append, dueClosures]
  calc _ = (tally DelayedTaskInfo.task (ranTasks (s.timerNotes a)) +
          tally DelayedTaskInfo.task s'.delayedTasks.remaining) + tally DelayedTaskInfo.task s.startedDue := by abel
    _ = (tally DelayedTaskInfo.task (queuedTasks (s.timerNotes a)) +
          tally DelayedTaskInfo.task s.delayedTasks.remaining) + tally DelayedTaskInfo.task s.startedDue := by
        rw [htally]
    _ = _ := by abel

/-- Only in `PostDelayedTaskOnTaskQueue` a thread puts a task into the heap. -/
theorem queuedTasks_resume {i : Tid} {o : Outcome} (h : ∀ n delay, s.threads i ≠ .delayedChecked n delay) :
    queuedTasks (s.timerNotes (.resume i o)) = [] := by
  cases hpc : s.threads i with
  | delayedChecked n delay => exact absurd hpc (h n delay)
  | _ =>
    simp only [timerNotes, timerAct, hpc]
    rfl

/-- A post without delay is none of the heap. -/
theorem queuedTasks_postNow {i : Tid} {o : Outcome} {n : Closure} {delay : D}
    (hpc : s.threads i = .delayedChecked n delay) (h : s.resume i o = some s')
    (hs' : s'.threads i = .postEntered (.user n)) : queuedTasks (s.timerNotes (.resume i o)) = [] := by
  simp only [resume, hpc] at h
  simp only [timerNotes, timerAct, hpc]
  split at h
  · rename_i hle
    rw [if_pos hle]
    rfl
  · -- the other branches lead elsewhere
    split at h <;> cases h <;> simp only [setThread, Function.update_self] at hs' <;> cases hs'

/-- A step of a thread that puts no task into the heap. -/
theorem flow_keep {a : Action D} (hs : InLoop s) (ha : TimersFit s a) (h : step s a = some s')
    (hqueued : queuedTasks (s.timerNotes a) = []) (htasks : s'.taskClosures = s.taskClosures)
    (hheld : (fun j => (s'.threads j).posting) = fun j => (s.threads j).posting)
    (hnext : s'.nextClosure = s.nextClosure) : Move (Losing s) s.closureView s'.closureView := by
  refine .keep hheld ?_ hnext
  rw [placed_eq, placed_eq, htasks, dueClosures_step hs ha h, hqueued, tally_nil, add_zero]

theorem flow_resume {i : Tid} {o : Outcome} (hs : InLoop s) (ha : TimersFit s (.resume i o))
    (hr : s.resume i o = some s') : Move (Losing s) s.closureView s'.closureView := by
  have hstep : step s (.resume i o) = some s' := hr
  have hnext : s'.nextClosure = s.nextClosure := by rw [resume_frame hr]
  have hdue := dueClosures_step hs ha hstep
  have hkeep : (∀ n delay, s.threads i ≠ .delayedChecked n delay) → s'.dueClosures = s.dueClosures := by
    intro hne
    rw [hdue, queuedTasks_resume hne, tally_nil, add_zero]
  have hquiet : (∀ n delay, s.threads i ≠ .delayedChecked n delay) → s'.taskClosures = s.taskClosures →
      ((fun j => (s'.threads j).posting) = fun j => (s.threads j).posting) →
      Move (Losing s) s.closureView s'.closureView :=
    fun hne htasks hheld => flow_keep hs ha hstep (queuedTasks_resume hne) htasks hheld hnext
  cases resumed hr with
  | @refuse t hpc hq =>
    have hplaced := hkeep (by simp [hpc])
    have htasks : ((s.destroyTask t).setThread i t.afterPost).taskClosures = s.taskClosures := by
      rw [destroyTask_eq]
      rfl
    have hthreads : (s.destroyTask t).threads = s.threads := by rw [destroyTask_eq]
    cases hclosure : t.closure with
    | none =>
      refine hquiet (by simp [hpc]) htasks ?_
      simp only [setThread, hthreads]
      exact posting_keep (by rw [posting_afterPost, hpc]; exact hclosure.symm)
    | some n =>
      refine .drop i n (.inl hq) (by simp only [closureView, hpc]; exact hclosure) ?_
        (by rw [placed_eq, placed_eq, htasks, hplaced]) hnext
      simp only [closureView, setThread, hthreads]
      rw [posting_update, posting_afterPost]
  | check hpc => exact hquiet (by simp [hpc]) rfl (posting_keep (congrArg ThreadPc.posting hpc).symm)
  | @push t hpc =>
    have hplaced := hkeep (by simp [hpc])
    have htasks := tally_append Task.closure s.pending [t]
    cases hclosure : t.closure with
    | none =>
      refine hquiet (by simp [hpc]) ?_ (posting_keep (by rw [hpc]; exact hclosure.symm))
      simp only [taskClosures]
      rw [htasks, tally_none hclosure, add_zero]
    | some n =>
      refine .put i n (by simp only [closureView, hpc]; exact hclosure) posting_update ?_ rfl
      rw [placed_eq, placed_eq, hplaced]
      simp only [taskClosures]
      rw [htasks, tally_some hclosure, ← Multiset.singleton_add]
      abel
  | @wake t hpc => exact hquiet (by simp [hpc]) rfl (posting_keep (by rw [posting_afterPost, hpc]; rfl))
  | @refuseDelayed n delay hpc hq =>
    refine .drop i n (.inl hq) (by simp only [closureView, hpc]; rfl) posting_update ?_ rfl
    rw [placed_eq, placed_eq, hkeep (by simp [hpc])]
    rfl
  | checkDelayed hpc => exact hquiet (by simp [hpc]) rfl (posting_keep (congrArg ThreadPc.posting hpc).symm)
  | @postNow n delay hpc =>
    have hqueued := queuedTasks_postNow hpc hr (by simp only [setThread, Function.update_self])
    exact flow_keep hs ha hstep hqueued rfl (posting_keep (congrArg ThreadPc.posting hpc).symm) rfl
  | @postTimer n delay hpc hle hcur =>
    have hqueued : tally DelayedTaskInfo.task (queuedTasks (s.timerNotes (.resume i o))) = {n} := by
      simp only [timerNotes, timerAct, hpc, hle, hcur, Bool.false_eq_true, if_false, if_true]
      rfl
    refine .put i n (by simp only [closureView, hpc]; rfl) posting_update ?_ rfl
    rw [placed_eq, placed_eq, hdue, hqueued, ← Multiset.singleton_add]
    show s.taskClosures + (s.dueClosures + {n}) = {n} + (s.taskClosures + s.dueClosures)
    abel
  | @postHop n delay hpc hle hcur =>
    have hqueued : queuedTasks (s.timerNotes (.resume i o)) = [] := by
      simp only [timerNotes, timerAct, hpc, hle, hcur, Bool.false_eq_true, if_false]
      rfl
    exact flow_keep hs ha hstep hqueued rfl (posting_keep (congrArg ThreadPc.posting hpc).symm) rfl
  | refuseCall hpc | checkCall hpc | postCall hpc | wakeCaller hpc | returnCall hpc =>
    exact hquiet (by simp [hpc]) rfl (posting_keep (congrArg ThreadPc.posting hpc).symm)
  | inline hpc hcur =>
    refine hquiet (by simp [hpc]) ?_ (posting_keep (congrArg ThreadPc.posting hpc).symm)
    simp only [taskClosures, setThread, List.map_cons, List.sum_cons, Frame.closures, zero_add]
    rfl
  | quitSwap hpc hquit =>
    refine hquiet (by simp [hpc]) ?_ rfl
    simp only [taskClosures, hquit, QuitPhase.closures, tally_nil]
    abel
  | @quitDestroy t rest hpc hquit =>
    have hplaced := hkeep (by simp [hpc])
    have htasks : s.taskClosures =
        tally Task.closure [t] + State.taskClosures { s.destroyTask t with quit := .swapped rest } := by
      rw [destroyTask_eq]
      simp only [taskClosures, hquit, QuitPhase.closures]
      rw [tally_cons]
      abel
    have hheld : (State.closureView { s.destroyTask t with quit := .swapped rest }).held = s.closureView.held := by
      rw [destroyTask_eq]
      rfl
    cases hclosure : t.closure with
    | none => exact hquiet (by simp [hpc]) (by rw [htasks, tally_none hclosure, zero_add]) hheld
    | some n =>
      refine .discard n (.inr (by simp [hquit])) hheld ?_ hnext
      rw [placed_eq, placed_eq, hplaced, htasks, tally_some hclosure, ← Multiset.singleton_add]
      abel
  | quitStore hpc hquit =>
    refine hquiet (by simp [hpc]) ?_ (posting_keep (congrArg ThreadPc.posting hpc).symm)
    simp only [taskClosures, hquit, QuitPhase.closures, tally_nil]

/-- Only a hop puts a task into the heap on the loop thread. -/
theorem queuedTasks_loop {o : Outcome} {f : Frame D} {fs : List (Frame D)} (hs : s.stack = f :: fs)
    (h : ∀ n start delay rest, f ≠ .running (.hop n start delay) rest) :
    queuedTasks (s.timerNotes (.loop o)) = [] := by
  have hpass : queuedTasks (s.delayedTasks.notes (.loop (s.clock + o.gap₁) o.timer : DelayedTasks.Action D)) = [] := by
    simp only [DelayedTasks.notes]
    split
    · split <;> rfl
    · rfl
  cases f with
  | running t rest =>
    cases t with
    | hop n start delay => exact absurd rfl (h n start delay rest)
    | _ =>
      simp only [timerNotes, timerAct, hs]
      rfl
  | timerFired =>
    simp only [timerNotes, timerAct, hs]
    split <;> rfl
  | due _ | runningDue _ | scheduling =>
    simp only [timerNotes, timerAct, hs]
    exact hpass
  | _ =>
    simp only [timerNotes, timerAct, hs]
    rfl

omit [LawfulDuration D] in
/-- A task of the batch that starts is started, or is a hop that has not ended. -/
theorem closures_start (t : Task D) (rest : List (Task D)) :
    (Frame.batch (t :: rest)).closures = (Frame.running t rest).closures + tally Task.userClosure [t] := by
  cases t with
  | user n =>
    simp only [Frame.closures]
    rw [tally_cons, tally_some (f := Task.closure) (n := n) rfl, tally_some (f := Task.userClosure) (n := n) rfl]
    abel
  | hop n start delay =>
    simp only [Frame.closures]
    rw [tally_none rfl, add_zero]
  | call c =>
    simp only [Frame.closures]
    rw [tally_cons, tally_none rfl, tally_none rfl]
    abel

omit [LawfulDuration D] in
/-- The sum of a stack whose innermost frame is replaced. -/
theorem taskClosures_frame {f : Frame D} {fs : List (Frame D)} (hs : s.stack = f :: fs)
    (hpending : s'.pending = s.pending) (hquit : s'.quit = s.quit)
    (hsum : (s'.stack.map Frame.closures).sum + tally Task.userClosure s'.started =
      f.closures + (fs.map Frame.closures).sum + tally Task.userClosure s.started) :
    s'.taskClosures = s.taskClosures := by
  simp only [taskClosures, hs, hpending, hquit, List.map_cons, List.sum_cons]
  calc _ = tally Task.closure s.pending + s.quit.closures +
        ((s'.stack.map Frame.closures).sum + tally Task.userClosure s'.started) := by abel
    _ = _ := by
      rw [hsum]
      abel

theorem flow_frameStep {o : Outcome} {f : Frame D} {fs : List (Frame D)} (hs : InLoop s)
    (ha : TimersFit s (.loop o)) (hout : s.threads loopThread = .outside) (htop : s.stack = f :: fs)
    (hf : s.frameStep o fs f = some s') : Move (Losing s) s.closureView s'.closureView := by
  have hstep : step s (.loop o) = some s' := by
    rw [step_loop hout htop]
    exact hf
  have hnext : s'.nextClosure = s.nextClosure := by rw [frameStep_frame hf]
  have hheld : (fun j => (s'.threads j).posting) = fun j => (s.threads j).posting := by
    obtain hthreads | ⟨c, -, -, hthreads⟩ := frameStep_threads hf
    · rw [hthreads]
    · rw [hthreads]
      exact posting_keep (congrArg ThreadPc.posting hout).symm
  -- a frame without closures is replaced by one without, or by none
  have hquiet : (∀ n start delay rest, f ≠ .running (.hop n start delay) rest) → f.closures = 0 →
      s'.pending = s.pending → s'.quit = s.quit → s'.started = s.started →
      (s'.stack.map Frame.closures).sum = (fs.map Frame.closures).sum →
      Move (Losing s) s.closureView s'.closureView := by
    intro hhop hzero hpending hquit hstarted hstack
    refine flow_keep hs ha hstep (queuedTasks_loop htop hhop) ?_ hheld hnext
    refine taskClosures_frame htop hpending hquit ?_
    rw [hstack, hzero, hstarted, zero_add]
  have hcons : ∀ g : Frame D, g.closures = 0 →
      ((g :: fs).map Frame.closures).sum = (fs.map Frame.closures).sum := by
    intro g hg
    rw [List.map_cons, List.sum_cons, hg, zero_add]
  cases framed hf with
  | wait =>
    refine hquiet (by simp) rfl (by rw [dispatch_eq]) (by rw [dispatch_eq]) (by rw [dispatch_eq]) ?_
    obtain ⟨hd, -⟩ | ⟨hd, -⟩ | ⟨hd, -⟩ | ⟨hd, -⟩ | hd := dispatch_stack s o.wait fs
    · rw [hd]
    all_goals
      rw [hd]
      exact hcons _ rfl
  | swap =>
    refine flow_keep hs ha hstep (queuedTasks_loop htop (by simp)) ?_ hheld hnext
    simp only [taskClosures, htop, List.map_cons, List.sum_cons, Frame.closures, tally_nil]
    abel
  | @start t rest =>
    refine flow_keep hs ha hstep (queuedTasks_loop htop (by simp)) ?_ hheld hnext
    refine taskClosures_frame htop (by rw [startTask_eq]) (by rw [startTask_eq]) ?_
    simp only [List.map_cons, List.sum_cons]
    rw [tally_append, closures_start]
    abel
  | @finish t rest =>
    cases t with
    | user n | call c =>
      refine flow_keep hs ha hstep (queuedTasks_loop htop (by simp)) ?_ hheld hnext
      exact taskClosures_frame htop rfl rfl rfl
    | hop n start delay =>
      -- the closure goes from the hop to the heap
      have hqueued : tally DelayedTaskInfo.task (queuedTasks (s.timerNotes (.loop o))) = {n} := by
        simp only [timerNotes, timerAct, htop]
        rfl
      refine .keep hheld ?_ hnext
      rw [placed_eq, placed_eq, dueClosures_step hs ha hstep, hqueued]
      simp only [taskClosures, htop, List.map_cons, List.sum_cons, Frame.closures]
      rw [tally_cons, tally_some (f := Task.closure) (n := n) rfl]
      simp only [finishTask]
      abel
  | @destroy t rest =>
    refine flow_keep hs ha hstep (queuedTasks_loop htop (by simp)) ?_ hheld hnext
    exact taskClosures_frame htop (by rw [destroyTask_eq]) (by rw [destroyTask_eq]) (by rw [destroyTask_eq]; rfl)
  | batchDone | close | inlineDone => exact hquiet (by simp) rfl rfl rfl rfl rfl
  | popDue _ hg =>
    obtain ⟨rfl, -⟩ | ⟨rfl, -⟩ := hg <;> exact hquiet (by simp) rfl rfl rfl rfl (hcons _ rfl)
  | _ => exact hquiet (by simp) rfl rfl rfl rfl (hcons _ rfl)

/-- **The closures move.** Every step of the loop makes a closure, hands it over, or lets it be; only a loop
    that is quitting, or whose `Quit` has been called, loses one. -/
theorem flow_step {a : Action D} (hs : InLoop s) (ha : TimersFit s a) (h : step s a = some s') :
    Move (Losing s) s.closureView s'.closureView := by
  have hquiet : s.timerAct a = none ∨ (∃ b, s.timerAct a = some b ∧ queuedTasks (s.delayedTasks.notes b) = []) →
      queuedTasks (s.timerNotes a) = [] := by
    intro hact
    rw [timerNotes]
    obtain hact | ⟨b, hact, hqueued⟩ := hact
    · rw [hact]
      rfl
    · rw [hact, Option.elim_some, hqueued]
  have hcons : ∀ (g : Frame D) (fs : List (Frame D)), g.closures = 0 →
      ((g :: fs).map Frame.closures).sum = (fs.map Frame.closures).sum := by
    intro g fs hg
    rw [List.map_cons, List.sum_cons, hg, zero_add]
  cases step_cases h with
  | call hm he => exact flow_enter (mayCall_iff.mp hm).1 he
  | resume hr => exact flow_resume hs ha hr
  | loop hout htop hf => exact flow_frameStep hs ha hout htop hf
  | runEventLoopOnce | processPendingTasks =>
    refine flow_keep hs ha h (hquiet (.inl rfl)) ?_ rfl rfl
    simp only [taskClosures]
    rw [hcons _ _ rfl]
  | begin | wakeUp | socket | arrive => exact flow_keep hs ha h (hquiet (.inl rfl)) rfl rfl rfl
  | expire he => exact flow_keep hs ha h (hquiet (.inr ⟨_, rfl, rfl⟩)) rfl rfl rfl
  | tick => exact flow_keep hs ha h (hquiet (.inr ⟨_, rfl, rfl⟩)) rfl rfl rfl

end Steps

/-! ### Runs -/

/-- Where `Quit` has not been called it had not been before, and a loop that had begun still runs. -/
theorem running_step [AbslDuration D] {s s' : State D} {a : Action D} (h : step s a = some s')
    (hquit : s'.quit = .notCalled) : s.quit = .notCalled ∧ (s.running = true → s'.running = true) := by
  cases step_cases h with
  | @call i c _ hm he =>
    cases c with
    | quit =>
      simp only [enter] at he
      split at he
      · cases he
        cases hquit
      · cases he
    | _ =>
      cases he
      exact ⟨hquit, id⟩
  | resume hr =>
    cases resumed hr with
    | refuse hpc hq =>
      rw [destroyTask_eq] at hquit ⊢
      exact ⟨hquit, id⟩
    | quitSwap | quitDestroy | quitStore => cases hquit
    | _ => exact ⟨hquit, id⟩
  | loop hout htop hf =>
    rw [frameStep_frame hf] at hquit ⊢
    exact ⟨hquit, id⟩
  | begin => exact ⟨hquit, fun _ => rfl⟩
  | wakeUp | runEventLoopOnce | processPendingTasks | socket | arrive | expire | tick => exact ⟨hquit, id⟩

variable [LawfulDuration D] {s s₀ : State D}

theorem once_run (h : ReachesIf TimersFit s) : Once s.closureView := by
  refine h.invariant_with (P := fun s => Once s.closureView) (fun t ht => inLoop_of_reaches ht)
    (fun _ _ _ ha hstep hs ho => ho.move (flow_step hs ha hstep)) ⟨?_, fun _ _ _ h => ?_, fun _ _ h => ?_, ?_⟩
  · exact Multiset.nodup_zero
  · cases h
  · cases h
  · exact fun _ h => absurd h (Multiset.notMem_zero _)

/-- **No closure runs twice.** In every run in which no delayed task re-enters the loop and the times fit,
    whatever threads post, at once or with a delay, and whether `Quit` is called or not: no closure is
    started more than once, and one that has been started neither waits anywhere nor is being posted. -/
theorem started_once (h : ReachesIf TimersFit s) :
    s.startedClosures.Nodup ∧ s.waitingClosures.Nodup ∧
    ∀ n ∈ s.startedClosures, n < s.nextClosure ∧ n ∉ s.waitingClosures ∧
      ∀ i, (s.threads i).posting ≠ some n := by
  have hnodup : (s.waitingClosures + ↑s.startedClosures).Nodup := (once_run h).nodup
  obtain ⟨hwaiting, hstarted, hdisjoint⟩ := Multiset.nodup_add.mp hnodup
  refine ⟨Multiset.coe_nodup.mp hstarted, hwaiting, fun n hn => ⟨?_, fun hin => ?_, fun i hi => ?_⟩⟩
  · exact (once_run h).placed n (Multiset.mem_add.mpr (.inr hn))
  · exact Multiset.disjoint_left.mp hdisjoint hin hn
  · exact ((once_run h).held i n hi).1 (Multiset.mem_add.mpr (.inr hn))

/-- From a state in which the loop has begun until `Quit` is called, every closure that is posted is
    somewhere. -/
theorem has_run (h₀ : ReachesIf TimersFit s₀) (hbegun : s₀.running = true) (h : Reaches step TimersFit s₀ s)
    (hquit : s.quit = .notCalled) :
    s.running = true ∧ ∀ n, s₀.nextClosure ≤ n → n < s.nextClosure → Has s.closureView n := by
  induction h with
  | refl => exact ⟨hbegun, fun n hle hlt => absurd hle (Nat.not_le.mpr hlt)⟩
  | @tail t u a hr ha hstep ih =>
    obtain ⟨hnot, hrunning⟩ := running_step hstep hquit
    obtain ⟨hrun, hhas⟩ := ih hnot
    have hmove := flow_step (inLoop_of_reaches (h₀.trans hr)) ha hstep
    have hkept : ¬Losing t := by
      rw [Losing, isQuitting, hrun, hnot]
      simp
    rw [eq_false hkept] at hmove
    refine ⟨hrunning hrun, fun n hle hlt => Has.move hmove ?_⟩
    by_cases hold : n < t.nextClosure
    · exact .inl (hhas n hle hold)
    · exact .inr ⟨Nat.not_lt.mp hold, hlt⟩

/-- **No closure is lost.** From a state in which the loop has begun, in every run in which no delayed task
    re-enters the loop and the times fit, as long as `Quit` is not called, every closure that is posted is
    being posted, waits, or has been started. -/
theorem posted_not_lost (h₀ : ReachesIf TimersFit s₀) (hbegun : s₀.running = true)
    (h : Reaches step TimersFit s₀ s) (hquit : s.quit = .notCalled) :
    ∀ n, s₀.nextClosure ≤ n → n < s.nextClosure →
      n ∈ s.startedClosures ∨ n ∈ s.waitingClosures ∨ ∃ i, (s.threads i).posting = some n := by
  intro n hle hlt
  obtain hin | hposting := (has_run h₀ hbegun h hquit).2 n hle hlt
  · obtain hin | hin := Multiset.mem_add.mp hin
    · exact .inr (.inl hin)
    · exact .inl hin
  · exact .inr (.inr hposting)

/-- Thread 1 posts a delayed task, which hops to the loop thread and is run; thread 2 has posted a task, and
    thread 1 is about to post another one. -/
def threePostsRun : List (Action Ticks) :=
  [.call 1 (.postDelayedTask oneMs), .resume 1 {}, .resume 1 {}, .resume 1 {}, .resume 1 {}, .resume 1 {},
    .runEventLoopOnce .posInf, .loop { wait := .wakeup }, .loop {}, .loop {}, .loop {}, .loop {}, .loop {}, .loop {},
    .tick 1000, .expire 1, .runEventLoopOnce .posInf, .loop { wait := .timer }, .loop {}, .loop {},
    .call 2 .postTask, .resume 2 {}, .resume 2 {}, .call 1 .postTask]

theorem started_once_threePosts :
    ∃ s : State Ticks, ReachesIf TimersFit s ∧ s.startedClosures = [0] ∧ s.waitingClosures.Nodup ∧
      s.startedClosures.Nodup := by
  have hrun : (runWhile step TimersFit (State.init : State Ticks) (.begin :: threePostsRun)).isSome = true := by
    decide
  have hreach := reaches_get hrun
  obtain ⟨hstarted, hwaiting, -⟩ := started_once hreach
  exact ⟨_, hreach, rfl, hwaiting, hstarted⟩

/-- The loop has begun. -/
def begunState : State Ticks := { State.init with threadId := some loopThread, running := true }

theorem posted_not_lost_threePosts :
    ∃ s : State Ticks, Reaches step TimersFit begunState s ∧ s.nextClosure = 3 ∧ s.startedClosures = [0] ∧
      (1 ∈ s.startedClosures ∨ 1 ∈ s.waitingClosures ∨ ∃ i, (s.threads i).posting = some 1) := by
  have hbegin : Reaches step TimersFit State.init begunState := Reaches.refl.tail (a := .begin) (by decide) rfl
  have hrun : (runWhile step TimersFit begunState threePostsRun).isSome = true := by decide
  obtain ⟨s, hreach, hquit, hnext, hstarted⟩ : ∃ s : State Ticks, Reaches step TimersFit begunState s ∧
      s.quit = .notCalled ∧ s.nextClosure = 3 ∧ s.startedClosures = [0] := ⟨_, reaches_get hrun, rfl, rfl, rfl⟩
  have hkept := posted_not_lost hbegin rfl hreach hquit
  exact ⟨s, hreach, hnext, hstarted, hkept 1 (Nat.zero_le _) (by rw [hnext]; decide)⟩

end IoBase
