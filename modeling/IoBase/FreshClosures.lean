import IoBase.DuePass

/- Each delayed post makes a new closure.

   A closure that `PostDelayedTask` is called with gets a new number when the call
   begins, and until the call posts it no other thread, no hop and no task put into
   `timer_tasks_` has it (`FreshClosures`). So the tasks of the loop thread's posts
   differ from each other and from the ones that hopped. -/
namespace IoBase
open AbslDuration Transition State

variable {D : Type}

/-- The closure a thread in `PostDelayedTaskImpl` has not yet posted on. -/
def ThreadPc.delaying : ThreadPc D → Option Closure
  | .delayedEntered n _ => some n
  | .delayedChecked n _ => some n
  | _ => none

variable [AbslDuration D]

/-- A thread comes to delay a closure by entering the function with a new one. -/
theorem delaying_step {s s' : State D} {a : Action D} {i : Tid} {n : Closure}
    (h : step s a = some s') (hn : (s'.threads i).delaying = some n) :
    (s.threads i).delaying = some n ∧ (∀ o delay, a = .resume i o → s.threads i ≠ .delayedChecked n delay) ∨
      n = s.nextClosure ∧ s'.nextClosure = s.nextClosure + 1 ∧ ∃ delay, a = .call i (.postDelayedTask delay) := by
  cases step_cases h with
  | call hm he =>
    rename_i j c
    by_cases hij : i = j
    · subst hij
      cases c with
      | postTask => cases he; simp [ThreadPc.delaying] at hn
      | postDelayedTask delay =>
        cases he
        simp only [Function.update_self, ThreadPc.delaying, Option.some.injEq] at hn
        exact .inr ⟨hn.symm, rfl, delay, rfl⟩
      | blockingCall => cases he; simp [ThreadPc.delaying] at hn
      | quit =>
        simp only [enter] at he
        split at he
        · cases he; simp [ThreadPc.delaying] at hn
        · cases he
    · rw [enter_frame he] at hn
      simp only [Function.update_of_ne hij] at hn
      exact .inl ⟨hn, fun _ _ ha => by cases ha⟩
  | resume hr =>
    rename_i j o
    by_cases hij : i = j
    · subst hij
      refine .inl ?_
      cases resumed hr with
      | @checkDelayed n' delay hpc =>
        simp only [setThread, Function.update_self, ThreadPc.delaying, Option.some.injEq] at hn
        subst hn
        exact ⟨by rw [hpc]; rfl, fun _ _ _ => by rw [hpc]; simp⟩
      | @refuse t => cases t <;> simp [setThread, Task.afterPost, ThreadPc.delaying] at hn
      | @wake t => cases t <;> simp [Task.afterPost, ThreadPc.delaying] at hn
      | quitSwap hpc => simp [hpc, ThreadPc.delaying] at hn
      | quitDestroy hpc =>
        rw [destroyTask_eq] at hn
        simp [hpc, ThreadPc.delaying] at hn
      | _ => simp [setThread, ThreadPc.delaying] at hn
    · rw [resume_frame hr] at hn
      simp only [Function.update_of_ne hij] at hn
      exact .inl ⟨hn, fun _ _ ha => by cases ha; exact absurd rfl hij⟩
  | loop hout hs hf =>
    refine .inl ⟨?_, fun _ _ ha => by cases ha⟩
    rcases frameStep_threads hf with ht | ⟨c, -, -, ht⟩
    · rwa [ht] at hn
    · rw [ht] at hn
      by_cases hl : i = loopThread
      · rw [hl, Function.update_self] at hn
        cases hn
      · rwa [Function.update_of_ne hl] at hn
  | begin | wakeUp | runEventLoopOnce | processPendingTasks | socket | arrive | expire | tick =>
    exact .inl ⟨hn, fun _ _ ha => by cases ha⟩

/-- A post makes a new closure. -/
def NewClosure (h : List (TimerNote D)) (p : Post D) : Prop :=
  ∀ info ∈ queuedTasks h, info.task ≠ some p.task

/-- The task of the post is put into `timer_tasks_` by the post itself. -/
theorem timerAct_post {s : State D} {a : Action D} {p : Post D} {o : TimerOutcome}
    (h : s.timerAct a = some (.post p o)) :
    ∃ i oc, a = .resume i oc ∧ s.threads i = .delayedChecked p.task p.delay := by
  cases a with
  | resume i oc =>
    simp only [timerAct] at h
    split at h
    · rename_i n delay hpc
      split at h
      · cases h
      · split at h
        · cases h
          exact ⟨i, oc, rfl, hpc⟩
        · cases h
    · cases h
  | loop oc =>
    simp only [timerAct] at h
    split at h
    · cases h
    · split at h <;> cases h
    all_goals cases h
  | _ => cases h

theorem timerAct_hop {s : State D} {a : Action D} {p : Post D} {o : TimerOutcome}
    (h : s.timerAct a = some (.hop p o)) : s.InFlight (.hop p.task p.startMicros p.delay) := by
  cases a with
  | resume i oc =>
    simp only [timerAct] at h
    split at h
    · split at h
      · cases h
      · split at h <;> cases h
    · cases h
  | loop oc =>
    simp only [timerAct] at h
    split at h
    · rename_i hs
      cases h
      exact .inr (.inr (by simp [hs, Frame.tasks]))
    · split at h <;> cases h
    all_goals cases h
  | _ => cases h

/-- A task is put into `timer_tasks_` by a thread that delays it, or by its hop. -/
theorem queued_cases {s : State D} {a : Action D} {info : DelayedTaskInfo}
    (h : info ∈ queuedTasks (s.timerNotes a)) :
    ∃ n, info.task = some n ∧
      ((∃ i oc delay, a = .resume i oc ∧ s.threads i = .delayedChecked n delay) ∨
        ∃ start delay, s.InFlight (.hop n start delay)) := by
  unfold timerNotes at h
  cases hact : s.timerAct a with
  | none =>
    rw [hact] at h
    cases h
  | some b =>
    rw [hact, Option.elim_some] at h
    cases b with
    | post p o =>
      obtain ⟨i, oc, ha, hpc⟩ := timerAct_post hact
      obtain rfl : info = p.info := by simpa [DelayedTasks.notes, queuedTasks] using h
      exact ⟨p.task, rfl, .inl ⟨i, oc, p.delay, ha, hpc⟩⟩
    | hop p o =>
      obtain rfl : info = p.info := by simpa [DelayedTasks.notes, queuedTasks] using h
      exact ⟨p.task, rfl, .inr ⟨p.startMicros, p.delay, timerAct_hop hact⟩⟩
    | loop now o =>
      simp only [DelayedTasks.notes] at h
      split at h
      · split at h <;> simp [queuedTasks] at h
      · simp [queuedTasks] at h
    | _ => simp [DelayedTasks.notes, queuedTasks] at h

structure FreshClosures (s : State D) (h : List (TimerNote D)) : Prop where
  threads : ∀ i n, (s.threads i).delaying = some n → n < s.nextClosure ∧
    (∀ j, (s.threads j).delaying = some n → j = i) ∧ (∀ start delay, ¬s.InFlight (.hop n start delay)) ∧
    ∀ info ∈ queuedTasks h, info.task ≠ some n
  hops : ∀ n start delay, s.InFlight (.hop n start delay) → n < s.nextClosure
  queued : ∀ info ∈ queuedTasks h, ∃ n < s.nextClosure, info.task = some n

theorem nextClosure_le {s s' : State D} {a : Action D} (h : step s a = some s') :
    s.nextClosure ≤ s'.nextClosure := by
  cases step_cases h with
  | @call i c s' hm he =>
    cases c with
    | postTask => cases he; exact Nat.le_succ _
    | postDelayedTask delay => cases he; exact Nat.le_succ _
    | blockingCall => cases he; exact Nat.le_refl _
    | quit =>
      simp only [enter] at he
      split at he
      · cases he; exact Nat.le_refl _
      · cases he
  | resume hr => rw [resume_frame hr]
  | loop hout hs hf => rw [frameStep_frame hf]
  | begin | wakeUp | runEventLoopOnce | processPendingTasks | socket | arrive | expire | tick =>
    exact Nat.le_refl _

theorem freshClosures_step {s s' : State D} {a : Action D} {h : List (TimerNote D)}
    (hstep : step s a = some s') (hf : FreshClosures s h) : FreshClosures s' (h ++ s.timerNotes a) := by
  have hnext := nextClosure_le hstep
  have hposting : ∀ {i n delay}, s.threads i = .delayedChecked n delay → (s.threads i).delaying = some n :=
    fun hpc => by rw [hpc]; rfl
  refine ⟨fun i n hn => ?_, fun n start delay hin => ?_, fun info hi => ?_⟩
  · rcases delaying_step hstep hn with ⟨hold, hnot⟩ | ⟨rfl, hsucc, delay, rfl⟩
    · obtain ⟨hlt, huniq, hnohop, hnotqueued⟩ := hf.threads i n hold
      refine ⟨Nat.lt_of_lt_of_le hlt hnext, fun j hj => ?_, fun start delay hin => ?_, fun info hi he => ?_⟩
      · rcases delaying_step hstep hj with ⟨hj, -⟩ | ⟨hn, -⟩
        · exact huniq j hj
        · exact absurd hlt (hn ▸ Nat.lt_irrefl _)
      · rcases hop_inFlight_step hstep hin with hin | ⟨j, o, ha, hpc, -⟩
        · exact hnohop start delay hin
        · obtain rfl := huniq j (hposting hpc)
          exact hnot o delay ha hpc
      · rcases List.mem_append.mp (queuedTasks_append h _ ▸ hi) with hi | hi
        · exact hnotqueued info hi he
        · obtain ⟨n', hn', hcases⟩ := queued_cases hi
          rw [he, Option.some.injEq] at hn'
          subst hn'
          rcases hcases with ⟨j, o, delay, ha, hpc⟩ | ⟨start, delay, hin⟩
          · obtain rfl := huniq j (hposting hpc)
            exact hnot o delay ha hpc
          · exact hnohop start delay hin
    · refine ⟨hsucc ▸ Nat.lt_succ_self _, fun j hj => ?_, fun start delay hin => ?_, fun info hi he => ?_⟩
      · rcases delaying_step hstep hj with ⟨hj, -⟩ | ⟨-, -, delay', ha⟩
        · exact absurd (hf.threads j _ hj).1 (Nat.lt_irrefl _)
        · cases ha
          rfl
      · rcases hop_inFlight_step hstep hin with hin | ⟨j, o, ha, -⟩
        · exact absurd (hf.hops _ start delay hin) (Nat.lt_irrefl _)
        · cases ha
      · rcases List.mem_append.mp (queuedTasks_append h _ ▸ hi) with hi | hi
        · obtain ⟨n', hlt, hn'⟩ := hf.queued info hi
          rw [he, Option.some.injEq] at hn'
          exact absurd hlt (hn' ▸ Nat.lt_irrefl _)
        · obtain ⟨n', hn', hcases⟩ := queued_cases hi
          rw [he, Option.some.injEq] at hn'
          subst hn'
          rcases hcases with ⟨j, o, delay, ha, -⟩ | ⟨start, delay, hin⟩
          · cases ha
          · exact absurd (hf.hops _ start delay hin) (Nat.lt_irrefl _)
  · rcases hop_inFlight_step hstep hin with hin | ⟨j, o, -, hpc, -⟩
    · exact Nat.lt_of_lt_of_le (hf.hops n start delay hin) hnext
    · exact Nat.lt_of_lt_of_le (hf.threads j n (hposting hpc)).1 hnext
  · rcases List.mem_append.mp (queuedTasks_append h _ ▸ hi) with hi | hi
    · obtain ⟨n, hlt, hn⟩ := hf.queued info hi
      exact ⟨n, Nat.lt_of_lt_of_le hlt hnext, hn⟩
    · obtain ⟨n, hn, hcases⟩ := queued_cases hi
      refine ⟨n, Nat.lt_of_lt_of_le ?_ hnext, hn⟩
      rcases hcases with ⟨j, o, delay, -, hpc⟩ | ⟨start, delay, hin⟩
      · exact (hf.threads j n (hposting hpc)).1
      · exact hf.hops n start delay hin

theorem freshClosures_of_run {ok : State D × List (TimerNote D) → Action D → Prop} {s : State D}
    {h : List (TimerNote D)} (hrun : Reaches (timed D) ok (State.init, []) (s, h)) : FreshClosures s h := by
  refine hrun.invariant (P := fun p => FreshClosures p.1 p.2) ?_
    ⟨fun i n hn => by simp [State.init, ThreadPc.delaying] at hn,
      fun _ _ _ hin => by simp [InFlight, State.init] at hin, fun _ hi => absurd hi List.not_mem_nil⟩
  rintro ⟨s, h⟩ a ⟨s', h'⟩ - hstepₕ hf
  obtain ⟨hstep, hnotes⟩ := observe_eq_some.mp hstepₕ
  simp only at hstep hnotes
  subst hnotes
  exact freshClosures_step hstep hf

end IoBase
