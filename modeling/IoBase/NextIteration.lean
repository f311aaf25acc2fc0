import IoBase.WakeUp

/- What an iteration that finds a task pending does with it.

   A task whose post has returned is in `pending_` with `wakeup_ev_` signaled, and the
   wait looks at that event first. So the iteration that is waiting is the one that
   swaps the task out, and it is not over before the task has been started, whatever
   else is posted meanwhile and however often the tasks before it re-enter the loop.

   * `iteration_starts_pending`: the wait can return for the task, and once the
     iteration is over the task has been started. -/
namespace IoBase
open Transition State

variable {D : Type}

/-- The loop thread is in `WSAWaitForMultipleEvents`. -/
def State.inWait (s : State D) : Bool := s.stack.head?.any Frame.isWaiting

/-- `Quit` has not been called, and the wait that returns has not failed. -/
def Serves (s : State D) : Action D → Prop
  | .loop o => s.quit = .notCalled ∧ (s.inWait = true → o.wait ≠ .failed)
  | _ => s.quit = .notCalled

instance (s : QuitPhase D) : Decidable (s = .notCalled) :=
  match s with
  | .notCalled => .isTrue rfl
  | .entered | .swapped _ | .returned => .isFalse (fun h => by cases h)

instance (s : State D) : (a : Action D) → Decidable (Serves s a)
  | .loop _ => inferInstanceAs (Decidable (_ ∧ (_ → _)))
  | .begin | .wakeUp | .call .. | .resume .. | .runEventLoopOnce _ | .processPendingTasks
  | .socket _ | .arrive .. | .expire _ | .tick _ => inferInstanceAs (Decidable (_ = _))

/-- In the iteration above the frames `fs`, the task is yet to be started: it is still pending, or it
    is in the rest of the batch of that iteration. -/
inductive ToStart (t : Task D) (fs : List (Frame D)) (s : State D) : Prop where
  | waiting {timeoutMs : BitVec 32} : s.stack = .waiting timeoutMs :: fs → s.wakeupEv = true →
      t ∈ s.pending → ToStart t fs s
  | woken : s.stack = .woken :: fs → t ∈ s.pending → ToStart t fs s
  | draining : s.stack = .draining :: fs → t ∈ s.pending → ToStart t fs s
  | batch {f : Frame D} (above : List (Frame D)) : s.stack = above ++ f :: fs → t ∈ f.rest → ToStart t fs s

namespace ToStart
variable {t : Task D} {fs : List (Frame D)} {s s' : State D}

/-- The iteration has not returned. -/
theorem length_lt (h : ToStart t fs s) : fs.length < s.stack.length := by
  cases h with
  | waiting hs => simp [hs]
  | woken hs => simp [hs]
  | draining hs => simp [hs]
  | batch above hs =>
    simp only [hs, List.length_append, List.length_cons]
    omega

/-- A step that leaves the frames alone, takes nothing out of `pending_` and keeps the event signaled. -/
theorem keep (h : ToStart t fs s) (hstack : s'.stack = s.stack) (hpending : s.pending ⊆ s'.pending)
    (hev : s.wakeupEv = true → s'.wakeupEv = true) : ToStart t fs s' := by
  cases h with
  | waiting hs hw ht => exact .waiting (hstack.trans hs) (hev hw) (hpending ht)
  | woken hs ht => exact .woken (hstack.trans hs) (hpending ht)
  | draining hs ht => exact .draining (hstack.trans hs) (hpending ht)
  | batch above hs ht => exact .batch above (hstack.trans hs) ht

/-- User code of the iteration enters a public call that adds a frame. -/
theorem push {f : Frame D} (h : ToStart t fs s) (huser : s.inUserCode = true)
    (hstack : s'.stack = f :: s.stack) : ToStart t fs s' := by
  cases h with
  | waiting hs => cases inUserCode_iff.mp huser _ _ hs
  | woken hs => cases inUserCode_iff.mp huser _ _ hs
  | draining hs => cases inUserCode_iff.mp huser _ _ hs
  | batch above hs ht => exact .batch (f :: above) (by rw [hstack, hs, List.cons_append]) ht

end ToStart

/-! ## Steps -/

variable [AbslDuration D] {t : Task D} {fs : List (Frame D)} {s s' : State D}

/-- A thread in a public function takes nothing out of `pending_` unless it is in `Quit`. -/
theorem resume_pending {i : Tid} {o : Outcome} (hquit : s.quit = .notCalled) (h : s.resume i o = some s') :
    s.pending ⊆ s'.pending ∧ (s.wakeupEv = true → s'.wakeupEv = true) := by
  cases resumed h with
  | push => exact ⟨List.subset_append_left _ _, id⟩
  | wake => exact ⟨fun _ => id, fun _ => rfl⟩
  | quitSwap _ hphase | quitDestroy _ hphase | quitStore _ hphase => cases hquit.symm.trans hphase
  | refuse => rw [destroyTask_eq]; exact ⟨fun _ => id, id⟩
  | _ => exact ⟨fun _ => id, id⟩

/-- The loop thread only adds to the tasks that have been started. -/
theorem frameStep_started {o : Outcome} {gs : List (Frame D)} {f : Frame D}
    (h : s.frameStep o gs f = some s') : s.started ⊆ s'.started := by
  cases framed h with
  | start => exact List.subset_append_left _ _
  | wait => rw [dispatch_eq]; exact fun _ => id
  | finish => rw [finishTask_eq]; exact fun _ => id
  | destroy => rw [destroyTask_eq]; exact fun _ => id
  | _ => exact fun _ => id

theorem started_step {a : Action D} (h : step s a = some s') : s.started ⊆ s'.started := by
  cases step_cases h with
  | call hm he => rw [enter_frame he]; exact fun _ => id
  | resume hr => rw [resume_frame hr]; exact fun _ => id
  | loop hout hs hf => exact frameStep_started hf
  | _ => exact fun _ => id

/-- The step of a frame of the iteration leads to the task, or starts it. -/
theorem toStart_innermost {o : Outcome} {f : Frame D} (ho : s.inWait = true → o.wait ≠ .failed)
    (hs : s.stack = f :: fs) (h : s.frameStep o fs f = some s') (hto : ToStart t fs s) :
    ToStart t fs s' ∨ t ∈ s'.started := by
  have htop : ∀ {g : Frame D}, s.stack = g :: fs → f = g := by
    intro g hg
    exact (List.cons.inj (hs.symm.trans hg)).1
  cases hto with
  | waiting hw hev ht =>
    cases htop hw
    cases framed h with
    | wait hmay =>
      -- the wake-up event comes first, so this is what the wait returns
      have hr : o.wait = .wakeup := by
        cases hwait : o.wait with
        | failed => exact absurd hwait (ho (by rw [State.inWait, hw]; rfl))
        | wakeup => rfl
        | timeout | timer | socket => simp [hwait, mayReturn, hev] at hmay
      rw [hr]
      exact .inl (.woken rfl ht)
  | woken hw ht =>
    cases htop hw
    cases framed h with
    | resetWakeup => exact .inl (.draining rfl ht)
  | draining hw ht =>
    cases htop hw
    cases framed h with
    | swap => exact .inl (.batch [] rfl ht)
  | @batch g above hg ht =>
    obtain ⟨rfl, rfl⟩ : above = [] ∧ f = g := by
      cases above with
      | nil => exact ⟨rfl, htop hg⟩
      | cons g' above =>
        have hlonger : fs = above ++ g :: fs := (List.cons.inj (hs.symm.trans hg)).2
        have hlength := congrArg List.length hlonger
        simp only [List.length_append, List.length_cons] at hlength
        omega
    cases framed h with
    | @start u rest =>
      -- the task is the one that is started, or comes after it
      rcases List.mem_cons.mp ht with rfl | ht
      · exact .inr (List.mem_append_right _ (List.mem_singleton.mpr rfl))
      · exact .inl (.batch [] rfl ht)
    | finish => exact .inl (.batch [] rfl ht)
    | destroy => exact .inl (.batch [] rfl ht)
    | batchDone => cases ht
    | _ => cases ht

/-- A step above the batch leaves the batch alone. -/
theorem toStart_above {o : Outcome} {f : Frame D} {gs : List (Frame D)} (hne : gs ≠ fs)
    (hs : s.stack = f :: gs) (h : s.frameStep o gs f = some s') (hto : ToStart t fs s) : ToStart t fs s' := by
  have hbelow : ∀ {g : Frame D}, s.stack ≠ g :: fs :=
    fun hg => hne (List.cons.inj (hs.symm.trans hg)).2
  cases hto with
  | waiting hw => exact absurd hw hbelow
  | woken hw => exact absurd hw hbelow
  | draining hw => exact absurd hw hbelow
  | @batch g above hg ht =>
    cases above with
    | nil => exact absurd hg hbelow
    | cons f' above =>
      obtain ⟨rfl, rfl⟩ := List.cons.inj (hs.symm.trans hg)
      rcases frameStep_stack h with hs' | ⟨f', -, -, hs'⟩
      · exact .batch above hs' ht
      · exact .batch (f' :: above) hs' ht

theorem toStart_step {a : Action D} (hc : Control s) (hok : Serves s a) (h : step s a = some s')
    (hto : ToStart t fs s) : ToStart t fs s' ∨ t ∈ s'.started := by
  cases step_cases h with
  | call hm he =>
    refine .inl (hto.keep ?_ ?_ ?_) <;> rw [enter_frame he]
    · exact fun _ => id
    · exact id
  | resume hr =>
    obtain ⟨hpending, hev⟩ := resume_pending hok hr
    rcases resume_stack_cases hc hr with hstack | ⟨c, -, -, huser, hstack⟩
    · exact .inl (hto.keep hstack hpending hev)
    · exact .inl (hto.push huser hstack)
  | runEventLoopOnce hm => exact .inl (hto.push ((mayCall_iff.mp hm).2 rfl) rfl)
  | processPendingTasks hm => exact .inl (hto.push ((mayCall_iff.mp hm).2 rfl) rfl)
  | @loop o f gs _ hout hs hf =>
    by_cases hgs : gs = fs
    · subst hgs
      exact toStart_innermost hok.2 hs hf hto
    · exact .inl (toStart_above hgs hs hf hto)
  | wakeUp => exact .inl (hto.keep rfl (fun _ => id) fun _ => rfl)
  | begin | socket | arrive | expire | tick => exact .inl (hto.keep rfl (fun _ => id) id)

/-! ## The iteration -/

/-- **The next iteration starts what is pending.** While the loop thread waits, let a task be pending
    whose post has returned. The wait may return for it; and in every run from there in which `Quit` is
    not called and no wait fails, the task has been started when the iteration is over. -/
theorem iteration_starts_pending {s₀ : State D} {timeoutMs : BitVec 32} (h₀ : Reachable s₀)
    (hwait : s₀.stack = .waiting timeoutMs :: fs) (ht : t ∈ s₀.pending)
    (hposted : ∀ i, ¬s₀.WakesUpFor i t) :
    s₀.mayReturn timeoutMs .wakeup = true ∧
    ∀ s, Reaches step Serves s₀ s → s.stack = fs → t ∈ s.started := by
  have hev : s₀.wakeupEv = true := by
    rcases pendingCovered_of_reachable h₀ t ht with hev | ⟨i, hi⟩ | ⟨gs, hgs⟩
    · exact hev
    · exact absurd hi (hposted i)
    · cases hwait.symm.trans hgs
  refine ⟨hev, fun s h hover => ?_⟩
  have hruns : ToStart t fs s ∨ t ∈ s.started := by
    refine h.invariant_with (P := fun s => ToStart t fs s ∨ t ∈ s.started)
      (fun u hu => control_of_reaches (h₀.trans hu.always)) (fun u a v hok hstep hc hto => ?_)
      (.inl (.waiting hwait hev ht))
    rcases hto with hto | hstarted
    · exact toStart_step hc hok hstep hto
    · exact .inr (started_step hstep hstarted)
  refine hruns.resolve_left fun hto => ?_
  have hlt := hto.length_lt
  rw [hover] at hlt
  omega

/-- Thread 1 posts two tasks, and the loop thread waits. -/
def twoPendingRun : List (Action Ticks) :=
  let post : List (Action Ticks) := [.call 1 .postTask, .resume 1 {}, .resume 1 {}, .resume 1 {}]
  .begin :: post ++ post ++ [.runEventLoopOnce .posInf]

/-- The first of the two runs the loop once more; there is nothing else to do. -/
def nestedWaitRun : List (Action Ticks) :=
  [.loop { wait := .wakeup }, .loop {}, .loop {}, .loop {}, .runEventLoopOnce (.finite 0),
    .loop { wait := .timeout }] ++ List.replicate 6 (.loop {})

theorem iteration_starts_pending_nested :
    ∃ s₀ s : State Ticks, Reachable s₀ ∧ s₀.pending = [.user 0, .user 1] ∧ Reaches step Serves s₀ s ∧
      s.iterations = 2 ∧ s.stack = [] ∧ Task.user 1 ∈ s.started := by
  have hrun : (runWhile step Always State.init twoPendingRun).isSome = true := by decide
  have hnested : (runWhile step Serves ((runWhile step Always State.init twoPendingRun).get (by decide))
      nestedWaitRun).isSome = true := by decide
  have hreach := reaches_get hrun
  have hposted : ∀ i, ¬State.WakesUpFor ((runWhile step Always State.init twoPendingRun).get hrun) i
      (.user 1) := by
    intro i hi
    match i with
    | 0 | 1 | _ + 2 => cases hi
  obtain ⟨-, hstarts⟩ := iteration_starts_pending hreach rfl (.tail _ (.head _)) hposted
  exact ⟨_, _, hreach, rfl, reaches_get hnested, rfl, rfl, hstarts _ (reaches_get hnested) rfl⟩

end IoBase
