import IoBase.CallSteps

/- Every blocking call of the loop follows the life of `CallLifecycle.lean`.

   A step keeps the phase of a call or takes it to the next one, so a run of the
   loop is, for each call, a run of that automaton (`call_run`), and the facts about
   the automaton hold of every call in every run (`blockingCall_safe`). -/
namespace IoBase
open Transition State

variable {D : Type} [AbslDuration D]

/-! ## Runs -/

theorem runningInv_step {s s' : State D} {a : Action D} (h : step s a = some s') (hq : RunningInv s) :
    RunningInv s' := by
  have hkeep : s'.running = s.running → s'.threadId = s.threadId →
      (s.quit = .returned → s'.quit = .returned) → RunningInv s' := by
    intro hrun hid hret
    refine ⟨?_, ?_⟩ <;> rw [hrun, hid]
    · exact hq.begun
    · exact fun hn hf => hret (hq.stopped hn hf)
  cases step_cases h with
  | begin => exact ⟨fun _ => by simp, by simp⟩
  | call hm he =>
    have hframe := enter_frame he
    refine hkeep (by rw [hframe]) (by rw [hframe]) fun hret => ?_
    cases ‹ApiCall D› with
    | quit => simp [enter, hret] at he
    | postTask | postDelayedTask | blockingCall => cases he; exact hret
  | resume hr =>
    cases resumed hr with
    | quitStore => exact ⟨by simp, fun _ _ => rfl⟩
    | quitSwap _ hphase | quitDestroy _ hphase =>
      exact hkeep (by first | rfl | rw [destroyTask_eq]) (by first | rfl | rw [destroyTask_eq])
        fun hret => by rw [hret] at hphase; cases hphase
    | refuse => rw [destroyTask_eq]; exact ⟨hq.begun, hq.stopped⟩
    | _ => exact ⟨hq.begun, hq.stopped⟩
  | loop hout hs hf =>
    have hframe := frameStep_frame hf
    exact hkeep (by rw [hframe]) (by rw [hframe]) (by rw [hframe]; exact id)
  | runEventLoopOnce | processPendingTasks | wakeUp | socket | arrive | expire | tick =>
    exact ⟨hq.begun, hq.stopped⟩

/-- What is known of every state: the loop thread's control, `running_`, and the phase of a call. -/
structure CallsInv (s : State D) : Prop where
  control : Control s
  running : RunningInv s
  phase : ∀ c, ∃ p, CallAt s c p

omit [AbslDuration D] in
theorem callsInv_init : CallsInv (State.init : State D) where
  control := control_init
  running := ⟨by simp [State.init], by simp [State.init]⟩
  phase := fun c => ⟨.unused, by
    refine ⟨rfl, fun i => ?_, fun pl => ?_, by simp [State.init], by simp [CallPhase.afterBegin],
      by simp [CallPhase.afterQuit]⟩
    · simp [State.init, ThreadPc.role, CallPhase.role]
    · cases pl <;> simp [State.count, queueCount, State.init, QuitPhase.discarded, CallPhase.count,
        CallPhase.place]⟩

theorem callsInv_step {s s' : State D} {a : Action D} (h : step s a = some s') (hinv : CallsInv s) :
    CallsInv s' where
  control := control_step hinv.control h
  running := runningInv_step h hinv.running
  phase := fun c => by
    obtain ⟨p, hat⟩ := hinv.phase c
    rcases call_step hinv.control hinv.running h hat with hat' | ⟨e, p', -, -, hat'⟩
    · exact ⟨p, hat'⟩
    · exact ⟨p', hat'⟩

theorem callsInv_of_reaches {ok : State D → Action D → Prop} {s : State D} (h : ReachesIf ok s) :
    CallsInv s :=
  h.invariant (fun _ _ _ _ hstep hinv => callsInv_step hstep hinv) callsInv_init

/-- A run of the loop is a run of the life of each call. -/
theorem call_run {s s' : State D} {c : CallId} {p : CallPhase} (hinv : CallsInv s)
    (h : Reaches step Always s s') (hat : CallAt s c p) :
    ∃ p', Reaches CallPhase.next Always p p' ∧ CallAt s' c p' := by
  have hsim : ∃ p', Reaches CallPhase.next Always p p' ∧ CallsInv s' ∧ CallAt s' c p' :=
    h.simulate (R := fun s p => CallsInv s ∧ CallAt s c p) (fun s a s' p _ hstep hR => by
      have hinv' := callsInv_step hstep hR.1
      rcases call_step hR.1.control hR.1.running hstep hR.2 with hat' | ⟨e, p', -, hnext, hat'⟩
      · exact .inl ⟨hinv', hat'⟩
      · exact .inr ⟨e, p', hnext, hinv', hat'⟩) ⟨hinv, hat⟩
  obtain ⟨p', hrun, -, hat'⟩ := hsim
  exact ⟨p', hrun, hat'⟩

/-- What holds of the call `c` in the state `s`, of every step from there, and of every run. -/
structure CallSafe (s : State D) (c : CallId) : Prop where
  /-- The functor has been started at most once, by the loop thread. -/
  once : (s.calls c).ranOn.length ≤ 1
  onLoop : ∀ i ∈ (s.calls c).ranOn, i = loopThread
  /-- Once the call has returned its functor is not executing, and nothing about it changes. -/
  finished : (s.calls c).returned = true → (s.calls c).executing = false
  frozen : (s.calls c).returned = true → ∀ s', Reaches step Always s s' → s'.calls c = s.calls c
  /-- `done` is set by a step that destroys the task, one that was never started or one that has
      finished. -/
  done : ∀ a s', step s a = some s' → (s.calls c).done = false → (s'.calls c).done = true →
    s'.calls c = { s.calls c with done := true } ∧ (s.calls c).executing = false ∧
    (Performs s a c .drop ∧ (s.calls c).ranOn = [] ∨
      Performs s a c .destroy ∧ (s.calls c).ranOn = [loopThread])
  /-- A call returns without its functor having run only before `Begin` or after `Quit` was called. -/
  skipped : (s.calls c).returned = true → (s.calls c).ranOn = [] →
    (s.calls c).foundNotBegun = true ∨ s.quit ≠ .notCalled

/-- **BlockingCall is safe**, in every state of every run. -/
theorem blockingCall_safe {s : State D} (h : Reachable s) (c : CallId) : CallSafe s c := by
  have hinv := callsInv_of_reaches h
  obtain ⟨p, hat⟩ := hinv.phase c
  obtain ⟨honce, hloop, hfinished⟩ := p.record_spec
  rw [← hat.record] at honce hloop hfinished
  refine ⟨honce, hloop, hfinished, fun hret s' hrun => ?_, fun a s' hstep hbefore hafter => ?_,
    fun hret hran => ?_⟩
  · obtain ⟨p', hphases, hat'⟩ := call_run hinv hrun hat
    have hsame := CallPhase.eq_of_reaches hphases (hat.record ▸ hret)
    rw [hat'.record, hat.record, hsame]
  · rcases call_step hinv.control hinv.running hstep hat with hat' | ⟨e, p', hperf, hnext, hat'⟩
    · rw [hat.record] at hbefore
      rw [hat'.record, hbefore] at hafter
      cases hafter
    · rw [hat.record] at hbefore ⊢
      rw [hat'.record] at hafter ⊢
      obtain ⟨hrecord, hexec, hevent⟩ := CallPhase.next_done hnext hbefore hafter
      refine ⟨hrecord, hexec, ?_⟩
      rcases hevent with ⟨rfl, hran⟩ | ⟨rfl, hran⟩
      · exact .inl ⟨hperf, hran⟩
      · exact .inr ⟨hperf, hran⟩
  · rw [hat.record] at hret hran ⊢
    cases p with
    | returned i hasRun done foundNotBegun =>
      cases hasRun with
      | true => cases hran
      | false =>
        cases foundNotBegun with
        | true => exact .inl rfl
        | false => exact .inr (hat.quitCalled rfl)
    | _ => cases hret

/-- Thread 1's call is run by the loop; thread 2's is queued when `Quit` discards it. -/
def twoCallsRun : List (Action Ticks) :=
  [.begin, .call 1 .blockingCall, .resume 1 {}, .resume 1 {}, .resume 1 {}, .resume 1 {}, .resume 1 {},
    .runEventLoopOnce .posInf, .loop { wait := .wakeup }, .loop {}, .loop {}, .loop {}, .loop {}, .loop {},
    .resume 1 {},
    .call 2 .blockingCall, .resume 2 {}, .resume 2 {}, .resume 2 {}, .resume 2 {}, .resume 2 {},
    .call 3 .quit, .resume 3 {}, .resume 3 {}, .resume 3 {}, .resume 2 {}]

theorem blockingCall_safe_twoCalls :
    ∃ s : State Ticks, Reachable s ∧
      s.calls 0 = { caller := 1, done := true, ranOn := [0], returned := true } ∧
      s.calls 1 = { caller := 2, done := true, returned := true } ∧ CallSafe s 0 ∧ CallSafe s 1 := by
  have hrun : (runWhile step Always State.init twoCallsRun).isSome = true := by decide
  have hreach := reaches_get hrun
  exact ⟨_, hreach, rfl, rfl, blockingCall_safe hreach 0, blockingCall_safe hreach 1⟩

end IoBase
