import IoBase.Steps

/- The shape of the loop thread's control.

   `Control`: below the innermost frame of the call stack there are only frames of
   user code; while the innermost frame is not user code, the loop thread is in no
   public call; and only the loop thread calls `Begin`. -/
namespace IoBase
open Transition State

variable {D : Type} [AbslDuration D]

structure Control (s : State D) : Prop where
  below : ∀ f ∈ s.stack.tail, f.userCode = true
  outside : s.inUserCode = false → s.threads loopThread = .outside
  begun : ∀ i, s.threadId = some i → i = loopThread

omit [AbslDuration D] in
theorem inUserCode_iff {s : State D} :
    s.inUserCode = true ↔ ∀ f fs, s.stack = f :: fs → f.userCode = true := by
  unfold inUserCode
  split <;> simp_all

omit [AbslDuration D] in
theorem inUserCode_congr {s s' : State D} (h : s'.stack = s.stack) : s'.inUserCode = s.inUserCode := by
  simp only [inUserCode, h]

namespace Control

omit [AbslDuration D] in
/-- The frames below the innermost one. -/
theorem userCode_of_mem {s : State D} {f : Frame D} {fs : List (Frame D)} (hc : Control s)
    (hs : s.stack = f :: fs) : ∀ g ∈ fs, g.userCode = true :=
  fun g hg => hc.below g (by simpa [hs] using hg)

omit [AbslDuration D] in
/-- While the loop thread is in a public call, every frame is one of user code. -/
theorem inUserCode_of_ne_outside {s : State D} (hc : Control s) (h : s.threads loopThread ≠ .outside) :
    s.inUserCode = true := by
  by_contra hn
  exact h (hc.outside (by simpa using hn))

omit [AbslDuration D] in
theorem all_userCode {s : State D} (hc : Control s) (h : s.inUserCode = true) :
    ∀ f ∈ s.stack, f.userCode = true := by
  intro f hf
  cases hs : s.stack with
  | nil => simp [hs] at hf
  | cons g fs =>
    rw [hs, List.mem_cons] at hf
    rcases hf with rfl | hf
    · exact inUserCode_iff.mp h _ _ hs
    · exact hc.userCode_of_mem hs f hf

end Control

/-- A public call that is not the loop thread's own blocking call leaves the stack alone; that one
    finds the loop thread in user code and adds a frame. -/
theorem resume_stack_cases {s s' : State D} {i : Tid} {o : Outcome} (hc : Control s)
    (h : s.resume i o = some s') :
    s'.stack = s.stack ∨
      ∃ c, i = loopThread ∧ s.threads i = .callChecked c ∧ s.inUserCode = true ∧
        s'.stack = .inlineCall c :: s.stack := by
  rcases resume_stack h with hs | ⟨c, hpc, hcur, hs⟩
  · exact .inl hs
  · have hi : i = loopThread := hc.begun i (by simpa [isCurrent] using hcur)
    subst hi
    exact .inr ⟨c, rfl, hpc, hc.inUserCode_of_ne_outside (by simp [hpc]), hs⟩

omit [AbslDuration D] in
theorem control_init : Control (State.init : State D) where
  below := by simp [State.init]
  outside := by simp [State.init]
  begun := by simp [State.init]

/-- The loop thread is where `Control` says after a step of a frame. -/
theorem control_frameStep {s s' : State D} {o : Outcome} {f : Frame D} {fs : List (Frame D)}
    (hc : Control s) (hout : s.threads loopThread = .outside) (hs : s.stack = f :: fs)
    (h : s.frameStep o fs f = some s') : Control s' where
  below := by
    have hfs := hc.userCode_of_mem hs
    rcases frameStep_stack h with hs' | ⟨g, -, -, hs'⟩
    · rw [hs']
      exact fun g hg => hfs g (List.mem_of_mem_tail hg)
    · rw [hs']
      exact hfs
  outside := by
    intro hn
    rcases frameStep_threads h with ht | ⟨c, -, hs', -⟩
    · rw [ht]
      exact hout
    · have huser : s'.inUserCode = true :=
        inUserCode_iff.mpr fun g gs hg => hc.userCode_of_mem hs g (by simp [← hs', hg])
      rw [huser] at hn
      cases hn
  begun := by
    intro i hi
    rw [frameStep_frame h] at hi
    exact hc.begun i hi

theorem control_resume {s s' : State D} {i : Tid} {o : Outcome} (hc : Control s)
    (h : s.resume i o = some s') : Control s' where
  below := by
    rcases resume_stack_cases hc h with hs | ⟨c, -, -, huser, hs⟩
    · rw [hs]; exact hc.below
    · rw [hs]; exact hc.all_userCode huser
  outside := by
    intro hn
    rcases resume_stack_cases hc h with hs | ⟨c, -, -, -, hs⟩
    · rw [inUserCode_congr hs] at hn
      have hi : loopThread ≠ i := by
        intro he
        subst he
        exact threads_ne_outside h (hc.outside hn)
      rw [resume_frame h]
      exact (Function.update_of_ne hi _ _).trans (hc.outside hn)
    · simp [inUserCode, hs, Frame.userCode] at hn
  begun := by
    intro j hj
    rw [resume_frame h] at hj
    exact hc.begun j hj

theorem control_step {s s' : State D} {a : Action D} (hc : Control s) (h : step s a = some s') :
    Control s' := by
  cases step_cases h with
  | begin =>
    refine ⟨hc.below, hc.outside, fun i hi => ?_⟩
    exact (Option.some.inj hi).symm
  | call hm he =>
    have hloop : ∀ {i : Tid}, s.mayCall i = true → s.inUserCode = false → loopThread ≠ i := by
      intro i hm hn he
      subst he
      rw [(mayCall_iff.mp hm).2 rfl] at hn
      cases hn
    rw [enter_frame he]
    refine ⟨hc.below, fun hn => ?_, hc.begun⟩
    exact (Function.update_of_ne (hloop hm hn) _ _).trans (hc.outside hn)
  | resume hr => exact control_resume hc hr
  | runEventLoopOnce hm =>
    obtain ⟨hout, huser⟩ := mayCall_iff.mp hm
    exact ⟨hc.all_userCode (huser rfl), fun _ => hout, hc.begun⟩
  | processPendingTasks hm =>
    obtain ⟨hout, huser⟩ := mayCall_iff.mp hm
    exact ⟨hc.all_userCode (huser rfl), fun _ => hout, hc.begun⟩
  | loop hout hs hf => exact control_frameStep hc hout hs hf
  | wakeUp | socket | arrive | expire | tick => exact ⟨hc.below, hc.outside, hc.begun⟩

theorem control_of_reaches {ok : State D → Action D → Prop} {s : State D} (h : ReachesIf ok s) :
    Control s :=
  h.invariant (fun _ _ _ _ hstep hc => control_step hc hstep) control_init

omit [AbslDuration D]

def Action.startsIteration : Action D → Bool
  | .runEventLoopOnce _ => true
  | .processPendingTasks => true
  | _ => false

/-- The loop thread is inside `RunEventLoopOnce` or `ProcessPendingTasks`. -/
def State.inIteration (s : State D) : Bool := s.stack.any Frame.isIteration

end IoBase
