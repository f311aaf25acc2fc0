import IoBase.ClosureFlow
import IoBase.StrandedCall
import IoBase.WakeUp

/- What a loop that sleeps has left to do.

   The loop thread is in `WSAWaitForMultipleEvents` with `wakeup_ev_` not signaled, and no
   thread is in the middle of a post. Then `pending_` is empty, and so nothing waits for the
   loop but what waits for a time: the delayed tasks.

   * `sleeping_loop_calls`: nobody waits in `BlockingCall`, unless for a task that an iteration
     below has in its batch or is running, or that `Quit` is about to destroy.
   * `sleeping_loop_closures`: every closure that has been posted has been started, or is in
     `timer_tasks_`. -/
namespace IoBase
open Transition State TokenFlow

variable {D : Type}

/-- The loop thread waits, above the frames `fs`, and no post will wake it. -/
structure Sleeps (s : State D) (fs : List (Frame D)) : Prop where
  waits : ∃ timeoutMs, s.stack = .waiting timeoutMs :: fs
  notSignaled : s.wakeupEv = false
  noPost : ∀ i, (s.threads i).inPostTask = false

/-- The frame has the task of the call in its batch, not come to yet, or is running it. -/
def Frame.HasCall (c : CallId) (f : Frame D) : Prop :=
  .call c ∈ f.rest ∨ ∃ rest, f = .running (.call c) rest

/-- User code has a call's task only so. -/
theorem Frame.hasCall_of_count {c : CallId} {pl : CallPlace} {f : Frame D} (huser : f.userCode = true)
    (hpl : pl ≠ .inline) (hpos : 0 < Frame.count c pl f) : f.HasCall c := by
  cases pl with
  | queued =>
    obtain ⟨t, ht, hcall⟩ := List.countP_pos_iff.mp hpos
    exact .inl (isCall_iff.mp hcall ▸ ht)
  | running =>
    cases f with
    | running t rest =>
      by_cases hcall : t.isCall c = true
      · exact .inr ⟨rest, by rw [isCall_iff.mp hcall]⟩
      · simp [Frame.count, hcall] at hpos
    | _ => simp [Frame.count] at hpos
  | ran =>
    cases f with
    | ran => cases huser
    | _ => simp [Frame.count] at hpos
  | inline => exact absurd rfl hpl

theorem Sleeps.pending [AbslDuration D] {s : State D} {fs : List (Frame D)} (h : Reachable s) (hs : Sleeps s fs) :
    s.pending = [] := by
  obtain ⟨timeoutMs, hwait⟩ := hs.waits
  refine List.eq_nil_iff_forall_not_mem.mpr fun t ht => ?_
  rcases pendingCovered_of_reachable h t ht with hev | ⟨i, hi⟩ | ⟨gs, hgs⟩
  · rw [hs.notSignaled] at hev
    cases hev
  · have hpost := hs.noPost i
    rw [hi] at hpost
    cases hpost
  · cases hwait.symm.trans hgs

/-- The task of a call whose caller is left waiting is queued, running or has run. -/
theorem CallAt.place_of_stranded {s : State D} {c : CallId} {p : CallPhase} {i : Tid} (hat : CallAt s c p)
    (h : Stranded s i c) : ∃ pl, pl ≠ .inline ∧ p.count pl = 1 := by
  obtain ⟨hwaiting, hdone⟩ := h
  have hrole : (s.threads i).role c = .awaiting := by
    rw [hwaiting, ThreadPc.role, if_pos rfl]
  obtain ⟨-, hphase⟩ := hat.caller_eq (by rw [hrole]; exact fun h => (by cases h))
  rw [hrole] at hphase
  rw [hat.record] at hdone
  cases p with
  | queued j => exact ⟨.queued, fun h => (by cases h), rfl⟩
  | running j => exact ⟨.running, fun h => (by cases h), rfl⟩
  | ran j => exact ⟨.ran, fun h => (by cases h), rfl⟩
  | destroyed j hasRun => cases hdone
  | _ => cases hphase

/-- **A loop that sleeps keeps no caller waiting.** In every run, while the loop thread sleeps, `pending_`
    is empty, and the task of a caller that waits for its event is one that `Quit` is about to destroy, or
    an iteration below has it: in its batch, or as the task that it runs and that runs the loop. -/
theorem sleeping_loop_calls [AbslDuration D] {s : State D} {fs : List (Frame D)} (h : Reachable s)
    (hs : Sleeps s fs) :
    s.pending = [] ∧ ∀ i c, Stranded s i c → .call c ∈ s.quit.discarded ∨ ∃ f ∈ fs, f.HasCall c := by
  have hpending := hs.pending h
  refine ⟨hpending, fun i c hstranded => ?_⟩
  obtain ⟨timeoutMs, hwait⟩ := hs.waits
  obtain ⟨p, hat⟩ := (callsInv_of_reaches h).phase c
  obtain ⟨pl, hpl, hone⟩ := hat.place_of_stranded hstranded
  have hcount : s.queueCount c pl + (fs.map (Frame.count c pl)).sum = 1 := by
    have hzero : Frame.count c pl (.waiting timeoutMs : Frame D) = 0 := by
      cases pl <;> rfl
    have hall := (hat.count pl).trans hone
    rwa [State.count, hwait, List.map_cons, List.sum_cons, hzero, Nat.zero_add] at hall
  by_cases hbelow : ∃ f ∈ fs, 0 < Frame.count c pl f
  · obtain ⟨f, hf, hpos⟩ := hbelow
    have huser := (control_of_reaches h).userCode_of_mem hwait f hf
    exact .inr ⟨f, hf, Frame.hasCall_of_count huser hpl hpos⟩
  · have hsum : (fs.map (Frame.count c pl)).sum = 0 := by
      rw [List.sum_eq_zero_iff_forall_eq_nat]
      intro n hn
      obtain ⟨f, hf, rfl⟩ := List.mem_map.mp hn
      exact Nat.eq_zero_of_not_pos fun hpos => hbelow ⟨f, hf, hpos⟩
    -- what is left is what `Quit` has swapped out
    cases pl with
    | queued =>
      simp only [queueCount, hpending, List.countP_nil, Nat.zero_add, hsum, Nat.add_zero] at hcount
      obtain ⟨t, ht, hcall⟩ := List.countP_pos_iff.mp (hcount ▸ Nat.one_pos)
      exact .inl (isCall_iff.mp hcall ▸ ht)
    | inline => exact absurd rfl hpl
    | running | ran => simp [queueCount, hsum] at hcount

/-- Thread 2's task, which runs the loop, is in a batch with the task of thread 1's call. -/
def nestedCallRun : List (Action Ticks) :=
  [.begin, .call 2 .postTask, .resume 2 {}, .resume 2 {}, .resume 2 {}, .call 1 .blockingCall] ++
  List.replicate 5 (.resume 1 {}) ++ [.runEventLoopOnce .posInf, .loop { wait := .wakeup }, .loop {}, .loop {},
    .loop {}, .runEventLoopOnce .posInf]

theorem sleeping_loop_calls_nested :
    ∃ (s : State Ticks) (fs : List (Frame Ticks)), Reachable s ∧ Sleeps s fs ∧ fs.length = 1 ∧ Stranded s 1 0 ∧
      (.call 0 ∈ s.quit.discarded ∨ ∃ f ∈ fs, f.HasCall 0) := by
  have hrun : (runWhile step Always (State.init : State Ticks) nestedCallRun).isSome = true := by decide
  have hreach := reaches_get hrun
  have hsleeps : Sleeps ((runWhile step Always (State.init : State Ticks) nestedCallRun).get hrun)
      [.running (.user 0) [.call 0]] :=
    ⟨⟨infinite, rfl⟩, rfl, fun i => match i with | 0 | 1 | 2 | _ + 3 => rfl⟩
  exact ⟨_, _, hreach, hsleeps, rfl, ⟨rfl, rfl⟩, (sleeping_loop_calls hreach hsleeps).2 1 0 ⟨rfl, rfl⟩⟩

/-- In an outermost wait the closures that wait are those of the delayed tasks. -/
theorem sleeping_waitingClosures {s : State D} (hs : Sleeps s []) (hpending : s.pending = [])
    (hquit : s.quit = .notCalled) : s.waitingClosures = tally DelayedTaskInfo.task s.timers.timerTasks := by
  obtain ⟨timeoutMs, hwait⟩ := hs.waits
  have hremaining : s.delayedTasks.remaining = s.timers.timerTasks := by
    refine DelayedTasks.remaining_eq fun r hr => ?_
    rw [State.delayedTasks, hwait] at hr
    cases hr
  rw [waitingClosures, hpending, hwait, hquit, hremaining]
  simp [Frame.closures, QuitPhase.closures, tally]

variable [LawfulDuration D]

/-- **A loop that sleeps has started what it was given.** From a state in which the loop has begun, in every
    run in which no delayed task re-enters the loop and the times fit, and `Quit` is not called: while the
    loop thread sleeps in its outermost iteration, every closure that has been posted, at once or with a
    delay, has been started or is in `timer_tasks_`, unless its delayed post is still under way. -/
theorem sleeping_loop_closures {s₀ s : State D} (h₀ : ReachesIf TimersFit s₀) (hbegun : s₀.running = true)
    (h : Reaches step TimersFit s₀ s) (hquit : s.quit = .notCalled) (hs : Sleeps s []) :
    ∀ n, s₀.nextClosure ≤ n → n < s.nextClosure →
      n ∈ s.startedClosures ∨ (∃ info ∈ s.timers.timerTasks, info.task = some n) ∨
      ∃ i delay, s.threads i = .delayedEntered n delay ∨ s.threads i = .delayedChecked n delay := by
  intro n hle hlt
  have hreach : Reachable s := (h₀.trans h).always
  rcases (has_run h₀ hbegun h hquit).2 n hle hlt with hin | ⟨i, hi⟩
  · rcases Multiset.mem_add.mp hin with hwaits | hstarted
    · rw [sleeping_waitingClosures hs (hs.pending hreach) hquit] at hwaits
      exact .inr (.inl (mem_tally.mp hwaits))
    · exact .inl hstarted
  · refine .inr (.inr ⟨i, ?_⟩)
    have hnot := hs.noPost i
    have hpost : (s.threads i).posting = some n := hi
    cases hpc : s.threads i with
    | delayedEntered m delay =>
      rw [hpc] at hpost
      cases hpost
      exact ⟨delay, .inl rfl⟩
    | delayedChecked m delay =>
      rw [hpc] at hpost
      cases hpost
      exact ⟨delay, .inr rfl⟩
    | postEntered t | postChecked t | postPushed t =>
      rw [hpc] at hnot
      cases hnot
    | _ =>
      rw [hpc] at hpost
      cases hpost

/-- Thread 1 posts a delayed task and thread 2 a task; the loop takes the one to `timer_tasks_`, runs the
    other, and sleeps. -/
def sleepingRun : List (Action Ticks) :=
  [.call 1 (.postDelayedTask oneMs), .resume 1 {}, .resume 1 {}, .resume 1 {}, .resume 1 {}, .resume 1 {},
    .call 2 .postTask, .resume 2 {}, .resume 2 {}, .resume 2 {}, .runEventLoopOnce .posInf,
    .loop { wait := .wakeup }] ++ List.replicate 9 (.loop {}) ++ [.runEventLoopOnce .posInf]

theorem sleeping_loop_closures_delayed :
    ∃ s : State Ticks, Reaches step TimersFit begunState s ∧ Sleeps s [] ∧ s.startedClosures = [1] ∧
      ∃ info ∈ s.timers.timerTasks, info.task = some 0 := by
  have hbegin : Reaches step TimersFit State.init begunState := Reaches.refl.tail (a := .begin) (by decide) rfl
  have hrun : (runWhile step TimersFit begunState sleepingRun).isSome = true := by decide
  obtain ⟨s, hreach, hquit, hsleeps, hthreads, hnext, hstarted⟩ : ∃ s : State Ticks,
      Reaches step TimersFit begunState s ∧ s.quit = .notCalled ∧ Sleeps s [] ∧
      (∀ i, s.threads i = .outside) ∧ s.nextClosure = 2 ∧ s.startedClosures = [1] := by
    refine ⟨_, reaches_get hrun, rfl, ⟨⟨infinite, rfl⟩, rfl, fun i => ?_⟩, fun i => ?_, rfl, rfl⟩
    · match i with
      | 0 | 1 | 2 | _ + 3 => rfl
    · match i with
      | 0 | 1 | 2 | _ + 3 => rfl
  refine ⟨s, hreach, hsleeps, hstarted, ?_⟩
  obtain hin | hdue | ⟨i, delay, hi⟩ := sleeping_loop_closures hbegin rfl hreach hquit hsleeps 0 (Nat.zero_le _)
    (by rw [hnext]; decide)
  · rw [hstarted] at hin
    cases List.mem_singleton.mp hin
  · exact hdue
  · rw [hthreads i] at hi
    rcases hi with hi | hi <;> cases hi

end IoBase
