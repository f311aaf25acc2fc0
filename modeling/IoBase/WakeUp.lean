import IoBase.Control

/- No task waits in `pending_` while the loop thread sleeps.

   A poster pushes first and sets `wakeup_ev_` afterwards; the loop thread resets
   `wakeup_ev_` first and swaps `pending_` afterwards. `Covered` is what that order
   keeps of each pending task: the event is signaled, or the thread that pushed the
   task has not yet called `WakeUp`, or the loop thread is about to swap. -/
namespace IoBase
open Transition State

variable {D : Type}

/-- The loop thread is between `WSAResetEvent(wakeup_ev_)` and the swap. -/
def State.Draining (s : State D) : Prop := ∃ fs, s.stack = .draining :: fs

/-- Thread `i` is between its push of `t` and its `WakeUp`. -/
def State.WakesUpFor (s : State D) (i : Tid) (t : Task D) : Prop := s.threads i = .postPushed t

/-- Something will still take the task out of `pending_`, or signal that it is there. -/
def Covered (s : State D) (t : Task D) : Prop :=
  s.wakeupEv = true ∨ (∃ i, s.WakesUpFor i t) ∨ s.Draining

/-- Every pending task is covered. -/
def PendingCovered (s : State D) : Prop := ∀ t ∈ s.pending, Covered s t

theorem Draining.not_inUserCode {s : State D} (h : s.Draining) : s.inUserCode = false := by
  obtain ⟨fs, hs⟩ := h
  simp [inUserCode, hs, Frame.userCode]

/-- A task stays covered when the event is still signaled, the stack has not moved under a swap
    about to be made, and the threads about to call `WakeUp` are where they were. -/
theorem Covered.mono {s s' : State D} {t : Task D} (h : Covered s t)
    (hev : s.wakeupEv = true → s'.wakeupEv = true)
    (hdrain : s.Draining → s'.Draining)
    (hthreads : ∀ i, s.WakesUpFor i t → s'.wakeupEv = true ∨ s'.WakesUpFor i t) : Covered s' t := by
  rcases h with hw | ⟨i, hi⟩ | hd
  · exact .inl (hev hw)
  · rcases hthreads i hi with hw | hi
    · exact .inl hw
    · exact .inr (.inl ⟨i, hi⟩)
  · exact .inr (.inr (hdrain hd))

variable [AbslDuration D]

/-- A swap about to be made stays about to be made until the loop thread makes it. -/
theorem draining_resume {s s' : State D} {i : Tid} {o : Outcome} (hc : Control s)
    (h : s.resume i o = some s') (hd : s.Draining) : s'.Draining := by
  rcases resume_stack_cases hc h with hs | ⟨c, -, -, huser, -⟩
  · exact hd.imp fun fs hfs => hs.trans hfs
  · rw [Draining.not_inUserCode hd] at huser
    cases huser

theorem pendingCovered_resume {s s' : State D} {i : Tid} {o : Outcome} (hc : Control s)
    (h : s.resume i o = some s') (hcov : PendingCovered s) : PendingCovered s' := by
  have hdrain := draining_resume hc h
  have hother : ∀ {t : Task D}, s.threads i ≠ .postPushed t → ∀ j, s.WakesUpFor j t → s'.WakesUpFor j t := by
    intro t hne j hj
    have hji : j ≠ i := by
      intro he
      subst he
      exact hne hj
    unfold WakesUpFor
    rw [resume_frame h]
    exact (Function.update_of_ne hji _ _).trans hj
  cases resumed h with
  | @push t hpc =>
    -- the new task is covered by its own poster
    intro u hu
    rw [List.mem_append, List.mem_singleton] at hu
    rcases hu with hu | rfl
    · exact (hcov u hu).mono id hdrain fun j hj => .inr (hother (by simp [hpc]) j hj)
    · exact .inr (.inl ⟨i, by simp [WakesUpFor]⟩)
  | wake hpc => exact fun u _ => .inl rfl
  | quitSwap => intro u hu; simp at hu
  | refuse hpc =>
    rw [destroyTask_eq] at hdrain hother ⊢
    exact fun u hu => (hcov u hu).mono id hdrain fun j hj => .inr (hother (by simp [hpc]) j hj)
  | quitDestroy hpc =>
    rw [destroyTask_eq] at hdrain hother ⊢
    exact fun u hu => (hcov u hu).mono id hdrain fun j hj => .inr (hother (by simp [hpc]) j hj)
  | check hpc | refuseDelayed hpc | checkDelayed hpc | postNow hpc | postTimer hpc | postHop hpc
    | refuseCall hpc | checkCall hpc | inline hpc | postCall hpc | wakeCaller hpc | returnCall hpc
    | quitStore hpc =>
    exact fun u hu => (hcov u hu).mono id hdrain fun j hj => .inr (hother (by simp [hpc]) j hj)

/-- The reset leads to the swap, the swap empties `pending_`, and the other steps of the loop thread
    touch neither the event nor the queue. -/
theorem pendingCovered_frameStep {s s' : State D} {o : Outcome} {f : Frame D} {fs : List (Frame D)}
    (hout : s.threads loopThread = .outside) (hs : s.stack = f :: fs)
    (h : s.frameStep o fs f = some s') (hcov : PendingCovered s) : PendingCovered s' := by
  have hthreads : ∀ t i, s.WakesUpFor i t → s'.WakesUpFor i t := by
    intro t i hi
    have hne : i ≠ loopThread := by
      intro he
      subst he
      rw [WakesUpFor, hout] at hi
      cases hi
    unfold WakesUpFor
    rw [frameStep_frame h]
    exact (Function.update_of_ne hne _ _).trans hi
  have hnot : f ≠ .draining → ¬s.Draining := by
    intro hf hx
    obtain ⟨gs, hgs⟩ := hx
    rw [hs, List.cons.injEq] at hgs
    exact hf hgs.1
  have hkeep : f ≠ .draining → s'.wakeupEv = s.wakeupEv → s'.pending = s.pending → PendingCovered s' := by
    intro hf hev hpend t ht
    rw [hpend] at ht
    exact (hcov t ht).mono (fun hw => hev.trans hw) (fun hd => absurd hd (hnot hf))
      fun i hi => .inr (hthreads t i hi)
  cases framed h with
  | swap => intro t ht; simp at ht
  | resetWakeup => exact fun t _ => .inr (.inr ⟨fs, rfl⟩)
  | wait => exact hkeep (by simp) (by rw [dispatch_eq]) (by rw [dispatch_eq])
  | start => exact hkeep (by simp) (by rw [startTask_eq]) (by rw [startTask_eq])
  | finish => exact hkeep (by simp) (by rw [finishTask_eq]) (by rw [finishTask_eq])
  | destroy => exact hkeep (by simp) (by rw [destroyTask_eq]) (by rw [destroyTask_eq])
  | _ => exact hkeep (by simp) rfl rfl

theorem pendingCovered_step {s s' : State D} {a : Action D} (hc : Control s)
    (h : step s a = some s') (hcov : PendingCovered s) : PendingCovered s' := by
  -- a frame is only added above user code
  have hpush : s.mayCall loopThread = true → ∀ s' : State D, s.Draining → s'.Draining := by
    intro hm s' hd
    have huser := (mayCall_iff.mp hm).2 rfl
    rw [Draining.not_inUserCode hd] at huser
    cases huser
  cases step_cases h with
  | wakeUp => exact fun t _ => .inl rfl
  | @call i c _ hm he =>
    have hout := (mayCall_iff.mp hm).1
    rw [enter_frame he]
    refine fun t ht => (hcov t ht).mono id id fun j hj => .inr ?_
    have hji : j ≠ i := by
      intro he
      subst he
      rw [WakesUpFor, hout] at hj
      cases hj
    exact (Function.update_of_ne hji _ _).trans hj
  | resume hr => exact pendingCovered_resume hc hr hcov
  | runEventLoopOnce hm => exact fun t ht => (hcov t ht).mono id (hpush hm _) fun j hj => .inr hj
  | processPendingTasks hm => exact fun t ht => (hcov t ht).mono id (hpush hm _) fun j hj => .inr hj
  | loop hout hs hf => exact pendingCovered_frameStep hout hs hf hcov
  | begin | socket | arrive | expire | tick =>
    exact fun t ht => (hcov t ht).mono id id fun j hj => .inr hj

theorem pendingCovered_of_reachable {s : State D} (h : Reachable s) : PendingCovered s :=
  h.invariant_with (fun _ hr => control_of_reaches hr)
    (fun _ _ _ _ hstep hc hcov => pendingCovered_step hc hstep hcov) (by simp [PendingCovered, State.init])

/-- **No lost wake-up.** A pending task has the event signaled, or a poster that has not called
    `WakeUp` yet, or a swap about to be made; so in a wait with the event not signaled every pending
    task is one whose own poster is still to call `WakeUp`. -/
theorem no_lost_wakeUp {s : State D} (h : Reachable s) :
    (s.pending ≠ [] → s.wakeupEv = true ∨ (∃ i t, s.WakesUpFor i t) ∨ s.Draining) ∧
    ∀ timeoutMs fs, s.stack = .waiting timeoutMs :: fs → s.wakeupEv = false →
      ∀ t ∈ s.pending, ∃ i, s.WakesUpFor i t := by
  have hcov := pendingCovered_of_reachable h
  refine ⟨fun hne => ?_, fun timeoutMs fs hs hev t ht => ?_⟩
  · obtain ⟨t, ht⟩ := List.exists_mem_of_ne_nil _ hne
    rcases hcov t ht with hw | ⟨i, hi⟩ | hd
    · exact .inl hw
    · exact .inr (.inl ⟨i, t, hi⟩)
    · exact .inr (.inr hd)
  · rcases hcov t ht with hw | hi | ⟨gs, hgs⟩
    · rw [hev] at hw
      cases hw
    · exact hi
    · rw [hs] at hgs
      cases hgs

/-- A post lands between the reset and the swap of an iteration, the poster being before its
    `WakeUp`; the loop thread runs the task and waits again. -/
def lateWakeUpRun : List (Action Ticks) :=
  [.begin, .wakeUp, .runEventLoopOnce .posInf, .loop { wait := .wakeup }, .loop {},
    .call 1 .postTask, .resume 1 {}, .resume 1 {},
    .loop {}, .loop {}, .loop {}, .loop {}, .loop {},
    .call 2 .postTask, .resume 2 {}, .resume 2 {}, .runEventLoopOnce .posInf]

theorem no_lost_wakeUp_lateWakeUp :
    ∃ s : State Ticks, Reachable s ∧ s.started = [.user 0] ∧ s.pending = [.user 1] ∧
      s.wakeupEv = false ∧ s.stack = [.waiting infinite] ∧ ∃ i, s.WakesUpFor i (.user 1) := by
  have hrun : (runWhile step Always State.init lateWakeUpRun).isSome = true := by decide
  have hreach := reaches_get hrun
  exact ⟨_, hreach, rfl, rfl, rfl, rfl, (no_lost_wakeUp hreach).2 _ _ rfl rfl _ (.head _)⟩

end IoBase
