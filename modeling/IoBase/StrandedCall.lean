import IoBase.BlockingCall

/- Callers left waiting by `Quit`.

   A caller of `BlockingCall` waits until its task is destroyed. When `Quit` has
   returned and the loop thread runs no further iteration, a task in `pending_` will
   never be: its caller is stranded, and so is no other (`stranded_iff_pending`).
   The check of `running_` and the push are separate steps, so a task can be pushed
   after `Quit` has swapped `pending_` out.

   * `no_stranded_caller`: if every call's task is pushed before that swap, or while
     the loop thread is about to make its own, no caller is stranded.
   * `stranded_caller`: a push that comes after the swap. -/
namespace IoBase
open Transition State

variable {D : Type}

/-- The loop thread is in `ProcessPendingTasks`, before its swap. -/
def State.willSwap (s : State D) : Bool :=
  match s.stack with
  | .woken :: _ => true
  | .draining :: _ => true
  | _ => false

/-- `Quit` has not swapped `pending_` out. -/
def QuitPhase.beforeSwap : QuitPhase D → Bool
  | .notCalled => true
  | .entered => true
  | _ => false

/-- The thread is about to push the task of a blocking call. -/
def ThreadPc.pushesCall : ThreadPc D → Bool
  | .postChecked (.call _) => true
  | _ => false

/-- The task of a call is pushed before `Quit` swaps, or when the loop thread is about to swap. -/
def PushedInTime (s : State D) : Action D → Prop
  | .resume i _ => (s.threads i).pushesCall = true → s.quit.beforeSwap = true ∨ s.willSwap = true
  | _ => True

instance (s : State D) : (a : Action D) → Decidable (PushedInTime s a)
  | .resume _ _ => inferInstanceAs (Decidable (_ → _))
  | .begin | .wakeUp | .call .. | .runEventLoopOnce _ | .processPendingTasks | .socket _
  | .loop _ | .arrive .. | .expire _ | .tick _ => .isTrue trivial

/-- The thread has a step of `PostTaskImpl` left to take. -/
def ThreadPc.inPostTask : ThreadPc D → Bool
  | .postEntered _ => true
  | .postChecked _ => true
  | .postPushed _ => true
  | _ => false

/-- `Quit` has returned, the loop thread is in no iteration and no thread is in `PostTaskImpl`. -/
structure Quiescent (s : State D) : Prop where
  quit : s.quit = .returned
  noIteration : s.inIteration = false
  noPost : ∀ i, (s.threads i).inPostTask = false

/-- The caller waits for an event that is not set. -/
def Stranded (s : State D) (i : Tid) (c : CallId) : Prop :=
  s.threads i = .callWaiting c ∧ (s.calls c).done = false

/-! ## Who is stranded -/

/-- Outside iterations, the frames hold no task. -/
theorem count_of_noIteration {s : State D} (h : s.inIteration = false) (c : CallId) {pl : CallPlace}
    (hpl : pl ≠ .inline) : s.count c pl = s.queueCount c pl := by
  have hzero : ∀ f ∈ s.stack, Frame.count c pl f = 0 := by
    intro f hf
    have hnot : f.isIteration = false := by
      by_contra hn
      exact absurd h (by simpa [inIteration] using ⟨f, hf, by simpa using hn⟩)
    cases f with
    | inlineCall c' => cases pl <;> simp [Frame.count, Frame.rest] at hpl ⊢
    | _ => cases hnot
  have hsum : (s.stack.map (Frame.count c pl)).sum = 0 := by
    rw [List.sum_eq_zero_iff_forall_eq_nat]
    intro n hn
    obtain ⟨f, hf, rfl⟩ := List.mem_map.mp hn
    exact hzero f hf
  rw [State.count, hsum, Nat.add_zero]

/-- In a quiescent state the callers waiting for an event that is not set are those whose task is
    in `pending_`. -/
theorem stranded_iff_pending {s : State D} (hinv : CallsInv s) (hq : Quiescent s) (c : CallId) :
    (∃ i, Stranded s i c) ↔ .call c ∈ s.pending := by
  obtain ⟨p, hat⟩ := hinv.phase c
  have hpending : 0 < s.queueCount c .queued ↔ .call c ∈ s.pending := by
    simp only [queueCount, hq.quit, QuitPhase.discarded, List.countP_nil, Nat.add_zero,
      List.countP_pos_iff, isCall_iff]
    constructor
    · intro hx
      obtain ⟨t, ht, rfl⟩ := hx
      exact ht
    · exact fun h => ⟨_, h, rfl⟩
  have hcount : ∀ pl, pl ≠ .inline → s.queueCount c pl = p.count pl := fun pl hpl => by
    rw [← count_of_noIteration hq.noIteration c hpl, hat.count]
  rw [← hpending, hcount .queued (by simp)]
  constructor
  · intro hx
    obtain ⟨i, hi, hdone⟩ := hx
    have hawaiting : (s.threads i).role c = .awaiting := by simp [hi, ThreadPc.role]
    obtain ⟨-, hrole⟩ := hat.caller_eq (by rw [hawaiting]; simp)
    rw [hawaiting] at hrole
    rw [hat.record] at hdone
    cases p with
    | queued j => exact Nat.one_pos
    | running j =>
      exact absurd (hcount .running (by simp)) (by simp [queueCount, CallPhase.count, CallPhase.place])
    | ran j =>
      exact absurd (hcount .ran (by simp)) (by simp [queueCount, CallPhase.count, CallPhase.place])
    | destroyed j hasRun => cases hdone
    | _ => cases hrole
  · intro hpos
    cases p with
    | queued j =>
      have hrole : (s.threads j).role c = .awaiting := by
        rw [hat.role]
        simp [CallPhase.record, CallPhase.role]
      refine ⟨j, ?_, by rw [hat.record]; rfl⟩
      have hpost := hq.noPost j
      cases hpc : s.threads j with
      | callWaiting c' =>
        rw [hpc, ThreadPc.role] at hrole
        split at hrole
        · rename_i he; rw [he]
        · cases hrole
      | postEntered | postChecked | postPushed => rw [hpc] at hpost; cases hpost
      | callEntered | callChecked | callReturning =>
        rw [hpc, ThreadPc.role] at hrole
        split at hrole <;> cases hrole
      | _ => rw [hpc] at hrole; cases hrole
    | _ => simp [CallPhase.count, CallPhase.place] at hpos

/-! ## Runs whose pushes are in time -/

variable [AbslDuration D]

/-- After `Quit`'s swap, a call's task is only in `pending_` while the loop thread is about to swap. -/
def LateSwapped (s : State D) : Prop :=
  s.quit.beforeSwap = false → s.willSwap = false → ∀ c, .call c ∉ s.pending

omit [AbslDuration D] in
theorem willSwap_of_inUserCode {s : State D} (h : s.inUserCode = true) : s.willSwap = false := by
  unfold willSwap
  split
  · rename_i hs; cases inUserCode_iff.mp h _ _ hs
  · rename_i hs; cases inUserCode_iff.mp h _ _ hs
  · rfl

theorem lateSwapped_resume {s s' : State D} {i : Tid} {o : Outcome} (hc : Control s)
    (hok : PushedInTime s (.resume i o)) (h : s.resume i o = some s') (hls : LateSwapped s) :
    LateSwapped s' := by
  have hswap : s'.willSwap = false → s.willSwap = false := by
    rcases resume_stack_cases hc h with hs | ⟨c, -, -, huser, -⟩
    · simp only [willSwap, hs]
      exact id
    · exact fun _ => willSwap_of_inUserCode huser
  have hkeep : s'.pending = s.pending → (s'.quit.beforeSwap = false → s.quit.beforeSwap = false) →
      LateSwapped s' := by
    intro hpend hquit hq' hs'
    rw [hpend]
    exact hls (hquit hq') (hswap hs')
  cases resumed h with
  | @push t hpc =>
    intro hq' hs' c hmem
    rcases List.mem_append.mp hmem with hold | hnew
    · exact hls hq' hs' c hold
    · obtain rfl := List.mem_singleton.mp hnew
      rcases hok (by simp [hpc, ThreadPc.pushesCall]) with hb | hw
      · exact absurd (hq'.symm.trans hb) (by simp)
      · exact absurd (hs'.symm.trans hw) (by simp)
  | quitSwap => exact fun _ _ c hmem => by cases hmem
  | quitDestroy _ hphase => 
    refine hkeep (by rw [destroyTask_eq]) fun _ => ?_
    rw [hphase]
    rfl
  | quitStore _ hphase => exact hkeep rfl fun _ => by rw [hphase]; rfl
  | refuse => exact hkeep (by rw [destroyTask_eq]; rfl) (by rw [destroyTask_eq]; exact id)
  | _ => exact hkeep rfl id

theorem lateSwapped_step {s s' : State D} {a : Action D} (hc : Control s) (hok : PushedInTime s a)
    (h : step s a = some s') (hls : LateSwapped s) : LateSwapped s' := by
  cases step_cases h with
  | @call i c _ hm he =>
    intro hq' hs'
    have hpend : s'.pending = s.pending := by rw [enter_frame he]
    have hstack : s'.stack = s.stack := by rw [enter_frame he]
    rw [hpend]
    refine hls ?_ (by simpa only [willSwap, hstack] using hs')
    cases c with
    | quit =>
      simp only [enter] at he
      split at he
      · cases he; cases hq'
      · cases he
    | postTask | postDelayedTask | blockingCall => cases he; exact hq'
  | resume hr => exact lateSwapped_resume hc hok hr hls
  | runEventLoopOnce hm =>
    exact fun hq' _ => hls hq' (willSwap_of_inUserCode ((mayCall_iff.mp hm).2 rfl))
  | processPendingTasks hm => exact fun _ hs' => by cases hs'
  | loop hout hs hf =>
    have hquit : s'.quit = s.quit := by rw [frameStep_frame hf]
    have hkeep : s.willSwap = false → s'.pending = s.pending → LateSwapped s' := by
      intro hw hpend hq' _
      rw [hpend]
      exact hls (hquit ▸ hq') hw
    cases framed hf with
    | swap => exact fun _ _ c hmem => by cases hmem
    | resetWakeup => exact fun _ hs' => by cases hs'
    | wait => exact hkeep (by simp [willSwap, hs]) (by rw [dispatch_eq])
    | start => exact hkeep (by simp [willSwap, hs]) (by rw [startTask_eq])
    | finish => exact hkeep (by simp [willSwap, hs]) (by rw [finishTask_eq])
    | destroy => exact hkeep (by simp [willSwap, hs]) (by rw [destroyTask_eq])
    | _ => exact hkeep (by simp [willSwap, hs]) rfl
  | begin | wakeUp | socket | arrive | expire | tick => exact hls

theorem lateSwapped_of_reaches {s : State D} (h : ReachesIf PushedInTime s) : LateSwapped s :=
  h.invariant_with (fun _ hr => control_of_reaches hr)
    (fun _ _ _ hok hstep hc hls => lateSwapped_step hc hok hstep hls)
    (by intro hq; cases hq)

/-- **No caller is stranded** in a run in which every call's task is pushed in time: in a quiescent
    state, a caller that still waits has its event set, so its task has been run or destroyed. -/
theorem no_stranded_caller {s : State D} (h : ReachesIf PushedInTime s) (hq : Quiescent s) :
    ∀ i c, ¬Stranded s i c := by
  intro i c hstranded
  have hmem := (stranded_iff_pending (callsInv_of_reaches h) hq c).mp ⟨i, hstranded⟩
  refine lateSwapped_of_reaches h (by rw [hq.quit]; rfl) ?_ c hmem
  have hnone := hq.noIteration
  unfold willSwap
  split
  · rename_i hs; simp [inIteration, hs, Frame.isIteration] at hnone
  · rename_i hs; simp [inIteration, hs, Frame.isIteration] at hnone
  · rfl

/-- The task of thread 1's call is pending when thread 2 calls `Quit`, which destroys it. -/
def discardedCallRun : List (Action Ticks) :=
  [.begin, .call 1 .blockingCall, .resume 1 {}, .resume 1 {}, .resume 1 {}, .resume 1 {}, .resume 1 {},
    .call 2 .quit, .resume 2 {}, .resume 2 {}, .resume 2 {}]

theorem no_stranded_caller_discarded :
    ∃ s : State Ticks, ReachesIf PushedInTime s ∧ Quiescent s ∧ s.threads 1 = .callWaiting 0 ∧
      ∀ i c, ¬Stranded s i c := by
  have hrun : (runWhile step PushedInTime State.init discardedCallRun).isSome = true := by decide
  have hreach := reaches_get hrun
  have hq : Quiescent ((runWhile step PushedInTime State.init discardedCallRun).get hrun) :=
    ⟨rfl, rfl, fun i => match i with | 0 | 1 | 2 => rfl | _ + 3 => rfl⟩
  exact ⟨_, hreach, hq, rfl, no_stranded_caller hreach hq⟩

/-- Thread 1 passes both checks, thread 2 calls `Quit`, and thread 1 pushes and waits. -/
def latePushRun : List (Action Ticks) :=
  [.begin, .call 1 .blockingCall, .resume 1 {}, .resume 1 {}, .resume 1 {},
    .call 2 .quit, .resume 2 {}, .resume 2 {}, .resume 1 {}, .resume 1 {}]

/-- **A caller is stranded**: the push comes after `Quit` has swapped `pending_` out. -/
theorem stranded_caller :
    ¬∀ s : State Ticks, Reachable s → Quiescent s → ∀ i c, ¬Stranded s i c := by
  intro hclaim
  have hrun : (runWhile step Always State.init latePushRun).isSome = true := by decide
  refine hclaim _ (reaches_get hrun) ⟨rfl, rfl, fun i => ?_⟩ 1 0 ⟨rfl, rfl⟩
  match i with
  | 0 | 1 | 2 => rfl
  | _ + 3 => rfl

end IoBase
