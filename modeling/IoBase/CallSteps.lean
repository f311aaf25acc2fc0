import IoBase.CallLifecycle
import IoBase.Control

/- The phase of a blocking call in a state of the loop, and what a step does to it.

   `CallAt s c p` says that in the state `s` the call `c` is in the phase `p`: its
   record is the phase's, its caller and no other thread is doing what the phase
   says, and its task is in the one place the phase names and nowhere else. Every
   step keeps the phase of a call or takes it to the next one of
   `CallLifecycle.lean` (`call_step`): a step of the caller by what it is doing for
   the call, a step of the loop thread by the frame it is in. -/
namespace IoBase
open Transition State

variable {D : Type}

/-! ## The phase of a call in a state -/

def Task.isCall (c : CallId) : Task D → Bool
  | .call c' => c' == c
  | _ => false

/-- What a thread in this position is doing for the call. -/
def ThreadPc.role (c : CallId) : ThreadPc D → CallRole
  | .callEntered c' => if c' = c then .entered else .none
  | .callChecked c' => if c' = c then .checked else .none
  | .postEntered t => if t.isCall c then .posting else .none
  | .postChecked t => if t.isCall c then .posting else .none
  | .postPushed t => if t.isCall c then .awaiting else .none
  | .callWaiting c' => if c' = c then .awaiting else .none
  | .callReturning c' => if c' = c then .returning else .none
  | _ => .none

/-- How often a frame holds the call in a place. -/
def Frame.count (c : CallId) : CallPlace → Frame D → Nat
  | .queued, f => f.rest.countP (Task.isCall c)
  | .running, .running t _ => if t.isCall c then 1 else 0
  | .ran, .ran t _ => if t.isCall c then 1 else 0
  | .inline, .inlineCall c' => if c' = c then 1 else 0
  | _, _ => 0

/-- The tasks that `Quit` has swapped out and not yet destroyed. -/
def QuitPhase.discarded : QuitPhase D → List (Task D)
  | .swapped discarded => discarded
  | _ => []

namespace State

/-- How often the two queues hold the call in a place. -/
def queueCount (s : State D) (c : CallId) : CallPlace → Nat
  | .queued => s.pending.countP (Task.isCall c) + s.quit.discarded.countP (Task.isCall c)
  | _ => 0

/-- How often the loop holds the call in a place. -/
def count (s : State D) (c : CallId) (pl : CallPlace) : Nat :=
  s.queueCount c pl + (s.stack.map (Frame.count c pl)).sum

end State

structure CallAt (s : State D) (c : CallId) (p : CallPhase) : Prop where
  record : s.calls c = p.record
  role : ∀ i, (s.threads i).role c = if i = p.record.caller then p.role else .none
  count : ∀ pl, s.count c pl = p.count pl
  fresh : s.nextCall ≤ c ↔ p = .unused
  begun : p.afterBegin = true → s.threadId ≠ none
  quitCalled : p.afterQuit = true → s.quit ≠ .notCalled

/-- `running_` is true only after `Begin`, and false after it only once `Quit` has returned. -/
structure RunningInv (s : State D) : Prop where
  begun : s.running = true → s.threadId ≠ none
  stopped : s.threadId ≠ none → s.running = false → s.quit = .returned

/-- Between the two states no call but `c` is entered, `Begin` does not run, and `Quit` stays called. -/
structure Around (c : CallId) (s s' : State D) : Prop where
  fresh : s'.nextCall ≤ c ↔ s.nextCall ≤ c
  threadId : s.threadId ≠ none → s'.threadId ≠ none
  quit : s.quit ≠ .notCalled → s'.quit ≠ .notCalled

namespace CallAt
variable {s s' : State D} {c : CallId} {p p' : CallPhase}

/-- A thread that is doing something for the call is its caller. -/
theorem caller_eq (h : CallAt s c p) {i : Tid} (hne : (s.threads i).role c ≠ .none) :
    i = p.record.caller ∧ p.role = (s.threads i).role c := by
  have hr := h.role i
  split at hr
  · rename_i hi; exact ⟨hi, hr.symm⟩
  · exact absurd hr hne

/-- A step that does not touch the call. -/
theorem keep (h : CallAt s c p) (ha : Around c s s') (hrecord : s'.calls c = s.calls c)
    (hrole : ∀ i, (s'.threads i).role c = (s.threads i).role c)
    (hcount : ∀ pl, s'.count c pl = s.count c pl) : CallAt s' c p where
  record := hrecord.trans h.record
  role := fun i => (hrole i).trans (h.role i)
  count := fun pl => (hcount pl).trans (h.count pl)
  fresh := ha.fresh.trans h.fresh
  begun := fun hp => ha.threadId (h.begun hp)
  quitCalled := fun hp => ha.quit (h.quitCalled hp)

/-- A step that takes the call to its next phase: the caller does what that phase says, and the task
    goes to the place of that phase. -/
theorem advance (h : CallAt s c p) (ha : Around c s s') (hused : p ≠ .unused) (e : CallEvent)
    (hnext : p.next e = some p') (hrole : ∀ i, (s'.threads i).role c =
      if i = p.record.caller then p'.role else (s.threads i).role c)
    (hrecord : s'.calls c = p'.record)
    (hcount : ∀ pl, s'.count c pl + p.count pl = s.count c pl + p'.count pl)
    (hbegun : e = .check → s.threadId ≠ none)
    (hquit : e.skips = true → s'.quit ≠ .notCalled) : CallAt s' c p' where
  record := hrecord
  role := by
    intro i
    rw [hrole, CallPhase.next_caller hnext hused]
    split
    · rfl
    · rename_i hi
      rw [h.role, if_neg hi]
  count := fun pl => by
    have hold := h.count pl
    have hmove := hcount pl
    omega
  fresh := by
    have hused' := CallPhase.next_ne_unused hnext
    rw [ha.fresh, h.fresh]
    simp [hused, hused']
  begun := fun hp => by
    rcases CallPhase.next_afterBegin hnext hp with hp | he
    · exact ha.threadId (h.begun hp)
    · exact ha.threadId (hbegun he)
  quitCalled := fun hp => by
    rcases CallPhase.next_afterQuit hnext hp with hp | he
    · exact ha.quit (h.quitCalled hp)
    · exact hquit he

/-- The threads stay, and the caller does the same in both phases. -/
theorem role_in_place (h : CallAt s c p) (hthreads : s'.threads = s.threads) (hrole : p'.role = p.role)
    (i : Tid) : (s'.threads i).role c = if i = p.record.caller then p'.role else (s.threads i).role c := by
  rw [hthreads]
  split
  · rename_i hi
    rw [hrole, h.role, if_pos hi]
  · rfl

/-- A place that holds the call is the place of its phase. -/
theorem place_eq (h : CallAt s c p) (pl : CallPlace) (hpos : 0 < s.count c pl) :
    p.place = some pl := by
  rw [h.count pl, CallPhase.count] at hpos
  by_contra hne
  rw [if_neg hne] at hpos
  exact Nat.lt_irrefl _ hpos

end CallAt

theorem isCall_iff {t : Task D} {c : CallId} : t.isCall c = true ↔ t = .call c := by
  cases t <;> simp [Task.isCall]

/-! ## Steps -/

/-- The start, end and destruction of a task are seen by its own call only. -/
theorem startTask_calls {s : State D} {t : Task D} {c : CallId} (ht : ¬t.isCall c = true) :
    (s.startTask t).calls c = s.calls c := by
  cases t with
  | call c₀ => exact Function.update_of_ne (fun he => ht (by simp [Task.isCall, he])) _ _
  | _ => rfl

theorem finishTask_calls [AbslDuration D] {s : State D} {o : Outcome} {t : Task D} {c : CallId}
    (ht : ¬t.isCall c = true) : (s.finishTask o t).calls c = s.calls c := by
  cases t with
  | call c₀ => exact Function.update_of_ne (fun he => ht (by simp [Task.isCall, he])) _ _
  | _ => rfl

theorem destroyTask_calls {s : State D} {t : Task D} {c : CallId} (ht : ¬t.isCall c = true) :
    (s.destroyTask t).calls c = s.calls c := by
  cases t with
  | call c₀ => exact Function.update_of_ne (fun he => ht (by simp [Task.isCall, he])) _ _
  | _ => rfl

theorem afterPost_role {t : Task D} {c : CallId} :
    t.afterPost.role c = if t.isCall c then .awaiting else .none := by
  cases t <;> simp [Task.afterPost, ThreadPc.role, Task.isCall]

/-- A thread moves to a position in which it does `r` for the call. -/
theorem role_update {s : State D} {i : Tid} {pc : ThreadPc D} {c : CallId} {r : CallRole}
    (h : pc.role c = r) (j : Tid) :
    (Function.update s.threads i pc j).role c = if j = i then r else (s.threads j).role c := by
  by_cases hj : j = i
  · subst hj
    simpa using h
  · rw [Function.update_of_ne hj, if_neg hj]

/-- A thread moves to a position in which it does the same for the call. -/
theorem role_update_same {s : State D} {i : Tid} {pc : ThreadPc D} {c : CallId}
    (h : pc.role c = (s.threads i).role c) (j : Tid) :
    (Function.update s.threads i pc j).role c = (s.threads j).role c := by
  rw [role_update h]
  split
  · rename_i hj; rw [hj]
  · rfl

/-- The step of the loop behind an event that destroys the task of the call. -/
def Performs (s : State D) (a : Action D) (c : CallId) : CallEvent → Prop
  | .drop =>
    (∃ i o, a = .resume i o ∧ s.threads i = .postEntered (.call c) ∧ s.isQuitting = true) ∨
    ∃ i o rest, a = .resume i o ∧ s.quit = .swapped (.call c :: rest)
  | .destroy => ∃ o rest fs, a = .loop o ∧ s.stack = .ran (.call c) rest :: fs
  | _ => True

/-- The step keeps the phase of the call, or takes it to the next one. -/
def CallStep (s : State D) (a : Action D) (s' : State D) (c : CallId) (p : CallPhase) : Prop :=
  CallAt s' c p ∨ ∃ e p', Performs s a c e ∧ p.next e = some p' ∧ CallAt s' c p'

variable [AbslDuration D]

/-! ### A thread in a public function -/

theorem around_resume {s s' : State D} {i : Tid} {o : Outcome} (c : CallId)
    (h : s.resume i o = some s') : Around c s s' := by
  cases resumed h with
  | refuse => rw [destroyTask_eq]; exact ⟨.rfl, id, id⟩
  | quitSwap | quitStore => exact ⟨.rfl, id, by simp⟩
  | quitDestroy => rw [destroyTask_eq]; exact ⟨.rfl, id, by simp⟩
  | _ => exact ⟨.rfl, id, id⟩

/-- The thread does nothing for the call, and does not destroy its task. -/
theorem call_resume_other {s s' : State D} {i : Tid} {o : Outcome} {c : CallId} {p : CallPhase}
    (h : s.resume i o = some s') (hrole : (s.threads i).role c = .none)
    (hdrop : ∀ rest, s.threads i = .quitting → s.quit ≠ .swapped (.call c :: rest))
    (hat : CallAt s c p) : CallAt s' c p := by
  have haround := around_resume c h
  have hkeep : ∀ pc : ThreadPc D, s'.threads = Function.update s.threads i pc → pc.role c = .none →
      s'.calls c = s.calls c → (∀ pl, s'.count c pl = s.count c pl) → CallAt s' c p := by
    intro pc hthreads hpc hcalls hcount
    refine hat.keep haround hcalls (fun j => ?_) hcount
    rw [hthreads]
    exact role_update_same (hpc.trans hrole.symm) j
  cases resumed h with
  | @refuse t hpc =>
    have ht : ¬t.isCall c = true := by simpa [hpc, ThreadPc.role] using hrole
    have hcalls := destroyTask_calls (s := s) ht
    rw [destroyTask_eq] at hkeep ⊢
    exact hkeep _ rfl (by simp [afterPost_role, ht]) hcalls fun _ => rfl
  | @check t hpc =>
    exact hkeep _ rfl (by simpa [hpc, ThreadPc.role] using hrole) rfl fun _ => rfl
  | @push t hpc =>
    have ht : ¬t.isCall c = true := by simpa [hpc, ThreadPc.role] using hrole
    refine hkeep _ rfl (by simp [ThreadPc.role, ht]) rfl fun pl => ?_
    cases pl <;> simp [State.count, queueCount, ht]
  | @wake t hpc =>
    have ht : ¬t.isCall c = true := by simpa [hpc, ThreadPc.role] using hrole
    exact hkeep _ rfl (by simp [afterPost_role, ht]) rfl fun _ => rfl
  | refuseDelayed | checkDelayed | postNow | postTimer | postHop =>
    exact hkeep _ rfl (by simp [ThreadPc.role, Task.isCall]) rfl fun _ => rfl
  | @refuseCall c₀ hpc | @wakeCaller c₀ hpc | @returnCall c₀ hpc =>
    have hne : c₀ ≠ c := by simpa [hpc, ThreadPc.role] using hrole
    exact hkeep _ rfl rfl (Function.update_of_ne (Ne.symm hne) _ _) fun _ => rfl
  | @checkCall c₀ hpc => exact hkeep _ rfl (by simpa [hpc, ThreadPc.role] using hrole) rfl fun _ => rfl
  | @postCall c₀ hpc =>
    have hne : c₀ ≠ c := by simpa [hpc, ThreadPc.role] using hrole
    exact hkeep _ rfl (by simp [ThreadPc.role, Task.isCall, hne]) rfl fun _ => rfl
  | @inline c₀ hpc =>
    have hne : c₀ ≠ c := by simpa [hpc, ThreadPc.role] using hrole
    refine hkeep _ rfl rfl (Function.update_of_ne (Ne.symm hne) _ _) fun pl => ?_
    cases pl <;> simp [State.count, queueCount, setThread, startFunctor, updateCall, Frame.count,
      Frame.rest, hne]
  | quitSwap hpc hphase =>
    refine hkeep .quitting (by simp [← hpc]) rfl rfl fun pl => ?_
    cases pl <;> simp [State.count, queueCount, QuitPhase.discarded, hphase]
  | @quitDestroy t rest hpc hphase =>
    have ht : ¬t.isCall c = true := by
      intro ht
      exact hdrop rest hpc (isCall_iff.mp ht ▸ hphase)
    have hcalls := destroyTask_calls (s := s) ht
    rw [destroyTask_eq] at hkeep ⊢
    refine hkeep .quitting (by simp [← hpc]) rfl hcalls fun pl => ?_
    cases pl <;> simp [State.count, queueCount, QuitPhase.discarded, hphase, ht]
  | quitStore hpc hphase =>
    refine hkeep _ rfl rfl rfl fun pl => ?_
    cases pl <;> simp [State.count, queueCount, QuitPhase.discarded, hphase]

/-- The caller takes its call to the next phase. -/
theorem call_own {s s' : State D} {i : Tid} {o : Outcome} {c : CallId} {p p' : CallPhase}
    (h : s.resume i o = some s') (hat : CallAt s c p) (hi : i = p.record.caller) (hused : p ≠ .unused)
    (e : CallEvent) (pc : ThreadPc D) (hperf : Performs s (.resume i o) c e) (hnext : p.next e = some p')
    (hthreads : s'.threads = Function.update s.threads i pc) (hpc : pc.role c = p'.role)
    (hrecord : s'.calls c = p'.record)
    (hcount : ∀ pl, s'.count c pl + p.count pl = s.count c pl + p'.count pl)
    (hbegun : e = .check → s.threadId ≠ none) (hquit : e.skips = true → s'.quit ≠ .notCalled) :
    CallStep s (.resume i o) s' c p := by
  refine .inr ⟨e, p', hperf, hnext, ?_⟩
  refine hat.advance (around_resume c h) hused e hnext (fun j => ?_) hrecord hcount hbegun hquit
  rw [hthreads, role_update hpc, hi]

/-- The caller is in `BlockingCallImpl`, before the `IsQuitting` check. -/
theorem call_entered {s s' : State D} {i : Tid} {o : Outcome} {c : CallId} (hq : RunningInv s)
    (hpc : s.threads i = .callEntered c) (h : s.resume i o = some s') (hat : CallAt s c (.entered i)) :
    CallStep s (.resume i o) s' c (.entered i) := by
  have hs' := h
  simp only [resume, hpc] at hs'
  split at hs'
  · rename_i hquit
    cases hs'
    refine call_own h hat rfl (by simp) (.refuse s.threadId.isNone) .outside trivial rfl rfl rfl ?_
      (fun _ => rfl) (by simp) fun hskips => ?_
    · simp [setThread, updateCall, hat.record, CallPhase.record, CallPhase.ranOn]
    · have hid : s.threadId ≠ none := by simpa [CallEvent.skips, Option.isSome_iff_ne_none] using hskips
      have hret := hq.stopped hid (by simpa [isQuitting] using hquit)
      simp [setThread, updateCall, hret]
  · rename_i hrunning
    cases hs'
    refine call_own h hat rfl (by simp) .check (.callChecked c) trivial rfl rfl ?_ hat.record
      (fun _ => rfl) (fun _ => hq.begun (by simpa [isQuitting] using hrunning)) (by simp [CallEvent.skips])
    simp [ThreadPc.role, CallPhase.role]

/-- The caller is past the check: the functor runs in place, or its task is posted. -/
theorem call_checked {s s' : State D} {i : Tid} {o : Outcome} {c : CallId} (hc : Control s)
    (hpc : s.threads i = .callChecked c) (h : s.resume i o = some s') (hat : CallAt s c (.checked i)) :
    CallStep s (.resume i o) s' c (.checked i) := by
  have hs' := h
  simp only [resume, hpc] at hs'
  split at hs'
  · rename_i hcur
    obtain rfl : i = loopThread := hc.begun i (by simpa [isCurrent] using hcur)
    cases hs'
    refine call_own h hat rfl (by simp) .runInline .outside trivial rfl rfl rfl ?_ (fun pl => ?_)
      (by simp) (by simp [CallEvent.skips])
    · simp [setThread, startFunctor, updateCall, hat.record, CallPhase.record]
    · cases pl <;> simp [State.count, queueCount, CallPhase.count, CallPhase.place, setThread,
        startFunctor, updateCall, Frame.count, Frame.rest]
      omega
  · cases hs'
    refine call_own h hat rfl (by simp) .post (.postEntered (.call c)) trivial rfl rfl ?_ hat.record
      (fun _ => rfl) (by simp) (by simp [CallEvent.skips])
    simp [ThreadPc.role, Task.isCall, CallPhase.role]

/-- The caller is in `PostTaskImpl`, before the check that drops the task or before the push. -/
theorem call_posting {s s' : State D} {i : Tid} {o : Outcome} {c : CallId} (hq : RunningInv s)
    (hpc : s.threads i = .postEntered (.call c) ∨ s.threads i = .postChecked (.call c))
    (h : s.resume i o = some s') (hat : CallAt s c (.posting i)) :
    CallStep s (.resume i o) s' c (.posting i) := by
  have hs' := h
  rcases hpc with hpc | hpc <;> simp only [resume, hpc] at hs'
  · split at hs'
    · rename_i hquit
      cases hs'
      refine call_own h hat rfl (by simp) .drop (.callWaiting c) (.inl ⟨i, o, rfl, hpc, hquit⟩) rfl rfl ?_
        ?_ (fun _ => rfl) (by simp) fun _ => ?_
      · simp [ThreadPc.role, CallPhase.role]
      · simp [setThread, destroyTask, updateCall, hat.record, CallPhase.record, CallPhase.ranOn]
      · have hret := hq.stopped (hat.begun rfl) (by simpa [isQuitting] using hquit)
        simp [setThread, destroyTask, updateCall, hret]
    · -- past the check the thread does the same for the call
      cases hs'
      refine .inl (hat.keep (around_resume c h) rfl (role_update_same ?_) fun _ => rfl)
      simp [hpc, ThreadPc.role]
  · cases hs'
    refine call_own h hat rfl (by simp) .push (.postPushed (.call c)) trivial rfl rfl ?_ hat.record
      (fun pl => ?_) (by simp) (by simp [CallEvent.skips])
    · simp [ThreadPc.role, Task.isCall, CallPhase.role]
    · cases pl <;> simp [State.count, queueCount, CallPhase.count, CallPhase.place, Task.isCall]
      omega

/-- The caller has posted: it is before `WakeUp`, or in `done.Wait`, from which it returns once the
    task is destroyed. -/
theorem call_awaiting {s s' : State D} {i : Tid} {o : Outcome} {c : CallId} {p : CallPhase}
    (hpc : s.threads i = .postPushed (.call c) ∨ s.threads i = .callWaiting c)
    (h : s.resume i o = some s') (hat : CallAt s c p) (hi : i = p.record.caller)
    (hrole : p.role = .awaiting) : CallStep s (.resume i o) s' c p := by
  have hs' := h
  rcases hpc with hpc | hpc <;> simp only [resume, hpc] at hs'
  · cases hs'
    refine .inl (hat.keep (around_resume c h) rfl (role_update_same ?_) fun _ => rfl)
    simp [hpc, ThreadPc.role, Task.afterPost, Task.isCall]
  · split at hs'
    · rename_i hdone
      cases hs'
      rw [hat.record] at hdone
      cases p with
      | destroyed j hasRun =>
        refine call_own h hat hi (by simp) .leave .outside trivial rfl rfl rfl ?_ (fun _ => rfl)
          (by simp) (by simp [CallEvent.skips])
        simp [setThread, updateCall, hat.record, CallPhase.record]
      | queued | running | ran => cases hdone
      | _ => cases hrole
    · cases hs'

/-- The functor of a call made on the loop thread has run, and the call returns. -/
theorem call_returning {s s' : State D} {o : Outcome} {c : CallId}
    (hpc : s.threads loopThread = .callReturning c) (h : s.resume loopThread o = some s')
    (hat : CallAt s c .returning) : CallStep s (.resume loopThread o) s' c .returning := by
  have hs' := h
  simp only [resume, hpc] at hs'
  cases hs'
  refine call_own h hat rfl (by simp) .leave .outside trivial rfl rfl rfl ?_ (fun _ => rfl)
    (by simp) (by simp [CallEvent.skips])
  simp [setThread, updateCall, hat.record, CallPhase.record, CallPhase.ranOn]

/-- `Quit` destroys the task of the call, which it has swapped out of `pending_`. -/
theorem call_quitDestroy {s s' : State D} {i : Tid} {o : Outcome} {c : CallId} {p : CallPhase}
    {rest : List (Task D)} (hphase : s.quit = .swapped (.call c :: rest))
    (hpc : s.threads i = .quitting) (h : s.resume i o = some s') (hat : CallAt s c p) :
    CallStep s (.resume i o) s' c p := by
  have hs' := h
  simp only [resume, hpc, hphase] at hs'
  cases hs'
  have hplace := hat.place_eq .queued (by
    simp only [State.count, queueCount, hphase, QuitPhase.discarded, List.countP_cons, Task.isCall,
      beq_self_eq_true, if_true]
    omega)
  cases p with
  | queued j =>
    refine .inr ⟨.drop, .destroyed j false, .inr ⟨i, o, rest, rfl, hphase⟩, rfl, ?_⟩
    refine hat.advance (around_resume c h) (by simp) .drop rfl (hat.role_in_place rfl rfl) ?_
      (fun pl => ?_) (by simp) (by simp)
    · simp [destroyTask, updateCall, hat.record, CallPhase.record, CallPhase.ranOn]
    · cases pl <;> simp [State.count, queueCount, CallPhase.count, CallPhase.place, destroyTask,
        updateCall, hphase, QuitPhase.discarded, Task.isCall]
      omega
  | _ => cases hplace

/-- A thread in a public function, by what it is doing for the call. -/
theorem call_resume {s s' : State D} {i : Tid} {o : Outcome} {c : CallId} {p : CallPhase}
    (hc : Control s) (hq : RunningInv s) (h : s.resume i o = some s') (hat : CallAt s c p) :
    CallStep s (.resume i o) s' c p := by
  by_cases hrole : (s.threads i).role c = .none
  · by_cases hdrop : ∃ rest, s.threads i = .quitting ∧ s.quit = .swapped (.call c :: rest)
    · obtain ⟨rest, hpc, hphase⟩ := hdrop
      exact call_quitDestroy hphase hpc h hat
    · refine .inl (call_resume_other h hrole (fun rest hpc hphase => ?_) hat)
      exact hdrop ⟨rest, hpc, hphase⟩
  obtain ⟨hi, hp⟩ := hat.caller_eq hrole
  cases hpc : s.threads i with
  | callEntered c₀ =>
    obtain rfl : c₀ = c := by simpa [hpc, ThreadPc.role] using hrole
    simp only [hpc, ThreadPc.role, if_true] at hp
    cases p with
    | entered j => obtain rfl : i = j := hi; exact call_entered hq hpc h hat
    | _ => cases hp
  | callChecked c₀ =>
    obtain rfl : c₀ = c := by simpa [hpc, ThreadPc.role] using hrole
    simp only [hpc, ThreadPc.role, if_true] at hp
    cases p with
    | checked j => obtain rfl : i = j := hi; exact call_checked hc hpc h hat
    | _ => cases hp
  | postEntered t =>
    have ht : t.isCall c = true := by simpa [hpc, ThreadPc.role] using hrole
    simp only [hpc, ThreadPc.role, ht, if_true] at hp
    cases p with
    | posting j =>
      obtain rfl : i = j := hi
      exact call_posting hq (.inl (isCall_iff.mp ht ▸ hpc)) h hat
    | _ => cases hp
  | postChecked t =>
    have ht : t.isCall c = true := by simpa [hpc, ThreadPc.role] using hrole
    simp only [hpc, ThreadPc.role, ht, if_true] at hp
    cases p with
    | posting j =>
      obtain rfl : i = j := hi
      exact call_posting hq (.inr (isCall_iff.mp ht ▸ hpc)) h hat
    | _ => cases hp
  | postPushed t =>
    have ht : t.isCall c = true := by simpa [hpc, ThreadPc.role] using hrole
    simp only [hpc, ThreadPc.role, ht, if_true] at hp
    exact call_awaiting (.inl (isCall_iff.mp ht ▸ hpc)) h hat hi hp
  | callWaiting c₀ =>
    obtain rfl : c₀ = c := by simpa [hpc, ThreadPc.role] using hrole
    simp only [hpc, ThreadPc.role, if_true] at hp
    exact call_awaiting (.inr hpc) h hat hi hp
  | callReturning c₀ =>
    obtain rfl : c₀ = c := by simpa [hpc, ThreadPc.role] using hrole
    simp only [hpc, ThreadPc.role, if_true] at hp
    cases p with
    | returning => obtain rfl : i = loopThread := hi; exact call_returning hpc h hat
    | _ => cases hp
  | outside | delayedEntered | delayedChecked | quitting => simp [hpc, ThreadPc.role] at hrole

/-! ### The loop thread -/

/-- The innermost frame `f` gives way to `g`; neither the queues nor the threads are touched. -/
structure Replaced (f g : Frame D) (s s' : State D) : Prop where
  stack : ∃ fs, s.stack = f :: fs ∧ s'.stack = g :: fs
  threads : s'.threads = s.threads
  pending : s'.pending = s.pending
  quit : s'.quit = s.quit

namespace Replaced
variable {f g : Frame D} {s s' : State D}

omit [AbslDuration D] in
theorem queueCount_eq (h : Replaced f g s s') (c : CallId) (pl : CallPlace) :
    s'.queueCount c pl = s.queueCount c pl := by
  cases pl <;> simp [queueCount, h.pending, h.quit]

omit [AbslDuration D] in
theorem count_eq (h : Replaced f g s s') (c : CallId) (pl : CallPlace) :
    s'.count c pl + f.count c pl = s.count c pl + g.count c pl := by
  obtain ⟨fs, hs, hs'⟩ := h.stack
  simp only [State.count, h.queueCount_eq, hs, hs', List.map_cons, List.sum_cons]
  omega

omit [AbslDuration D] in
/-- The frame holds the call as the other one did. -/
theorem keep (h : Replaced f g s s') {c : CallId} {p : CallPhase} (hat : CallAt s c p)
    (ha : Around c s s') (hrecord : s'.calls c = s.calls c) (hfg : ∀ pl, g.count c pl = f.count c pl) :
    CallAt s' c p := by
  refine hat.keep ha hrecord (fun i => by rw [h.threads]) fun pl => ?_
  have hcount := h.count_eq c pl
  rw [hfg pl] at hcount
  omega

omit [AbslDuration D] in
/-- The frame takes the call, whose place it was, to the next phase. -/
theorem advance (h : Replaced f g s s') {c : CallId} {p p' : CallPhase} (hat : CallAt s c p)
    (ha : Around c s s') (hused : p ≠ .unused) (e : CallEvent) (hnext : p.next e = some p')
    (hrole : p'.role = p.role) (hrecord : s'.calls c = p'.record)
    (hfg : ∀ pl, g.count c pl + p.count pl = f.count c pl + p'.count pl)
    (hcheck : e ≠ .check) (hskips : e.skips = false) : CallAt s' c p' := by
  refine hat.advance ha hused e hnext (hat.role_in_place h.threads hrole) hrecord (fun pl => ?_)
    (fun he => absurd he hcheck) (by simp [hskips])
  have hcount := h.count_eq c pl
  have hmove := hfg pl
  omega

end Replaced

theorem around_frameStep {s s' : State D} {o : Outcome} {f : Frame D} {fs : List (Frame D)} (c : CallId)
    (h : s.frameStep o fs f = some s') : Around c s s' := by
  rw [frameStep_frame h]
  exact ⟨.rfl, id, id⟩

/-- The frame is in the loop over a batch, or runs the functor of a call in place. -/
def Frame.holdsCalls : Frame D → Bool
  | .batch _ => true
  | .running _ _ => true
  | .ran _ _ => true
  | .inlineCall _ => true
  | _ => false

omit [AbslDuration D] in
theorem count_eq_zero {f : Frame D} (h : f.holdsCalls = false) (c : CallId) (pl : CallPlace) :
    f.count c pl = 0 := by
  cases f with
  | batch | running | ran | inlineCall => cases h
  | _ => cases pl <;> rfl

omit [AbslDuration D] in
/-- The place of a call that the innermost frame holds. -/
theorem CallAt.place_of_frame {s : State D} {f : Frame D} {fs : List (Frame D)} {c : CallId}
    {p : CallPhase} (hat : CallAt s c p) (hs : s.stack = f :: fs) (pl : CallPlace)
    (hpos : 0 < f.count c pl) : p.place = some pl := by
  refine hat.place_eq pl ?_
  simp only [State.count, hs, List.map_cons, List.sum_cons]
  omega

/-- A task of the batch starts, runs to its end or is destroyed. -/
theorem call_batchStep {s s' : State D} {o : Outcome} {f : Frame D} {fs : List (Frame D)} {c : CallId}
    {p : CallPhase} (hf : f.holdsCalls = true) (hout : s.threads loopThread = .outside)
    (hs : s.stack = f :: fs)
    (h : s.frameStep o fs f = some s') (hat : CallAt s c p) : CallStep s (.loop o) s' c p := by
  have haround := around_frameStep c h
  cases framed h with
  | @start t rest =>
    have hr : Replaced (.batch (t :: rest)) (.running t rest) s
        { s.startTask t with started := s.started ++ [t], stack := .running t rest :: fs } := by
      rw [startTask_eq]
      exact ⟨⟨fs, hs, rfl⟩, rfl, rfl, rfl⟩
    by_cases ht : t.isCall c = true
    · have hplace := hat.place_of_frame hs .queued (by simp [Frame.count, Frame.rest, ht])
      obtain rfl := isCall_iff.mp ht
      cases p with
      | queued j =>
        refine .inr ⟨.start, .running j, trivial, rfl, ?_⟩
        refine hr.advance hat haround (by simp) .start rfl rfl ?_ (fun pl => ?_) (by simp) rfl
        · simp [startTask, startFunctor, updateCall, hat.record, CallPhase.record]
        · cases pl <;> simp [CallPhase.count, CallPhase.place, Frame.count, Frame.rest, ht]
      | _ => cases hplace
    · refine .inl (hr.keep hat haround (startTask_calls ht) fun pl => ?_)
      cases pl <;> simp [Frame.count, Frame.rest, ht]
  | @finish t rest =>
    have hr : Replaced (.running t rest) (.ran t rest) s
        { s.finishTask o t with stack := .ran t rest :: fs } := by
      rw [finishTask_eq]
      exact ⟨⟨fs, hs, rfl⟩, rfl, rfl, rfl⟩
    by_cases ht : t.isCall c = true
    · have hplace := hat.place_of_frame hs .running (by simp [Frame.count, ht])
      obtain rfl := isCall_iff.mp ht
      cases p with
      | running j =>
        refine .inr ⟨.finish, .ran j, trivial, rfl, ?_⟩
        refine hr.advance hat haround (by simp) .finish rfl rfl ?_ (fun pl => ?_) (by simp) rfl
        · simp [finishTask, finishFunctor, updateCall, hat.record, CallPhase.record]
        · cases pl <;> simp [CallPhase.count, CallPhase.place, Frame.count, Frame.rest, ht]
      | _ => cases hplace
    · refine .inl (hr.keep hat haround (finishTask_calls ht) fun pl => ?_)
      cases pl <;> simp [Frame.count, Frame.rest, ht]
  | @destroy t rest =>
    have hr : Replaced (.ran t rest) (.batch rest) s
        { s.destroyTask t with stack := .batch rest :: fs } := by
      rw [destroyTask_eq]
      exact ⟨⟨fs, hs, rfl⟩, rfl, rfl, rfl⟩
    by_cases ht : t.isCall c = true
    · have hplace := hat.place_of_frame hs .ran (by simp [Frame.count, ht])
      obtain rfl := isCall_iff.mp ht
      cases p with
      | ran j =>
        refine .inr ⟨.destroy, .destroyed j true, ⟨o, rest, fs, rfl, hs⟩, rfl, ?_⟩
        refine hr.advance hat haround (by simp) .destroy rfl rfl ?_ (fun pl => ?_) (by simp) rfl
        · simp [destroyTask, updateCall, hat.record, CallPhase.record, CallPhase.ranOn]
        · cases pl <;> simp [CallPhase.count, CallPhase.place, Frame.count, Frame.rest, ht]
      | _ => cases hplace
    · refine .inl (hr.keep hat haround (destroyTask_calls ht) fun pl => ?_)
      cases pl <;> simp [Frame.count, Frame.rest, ht]
  | batchDone =>
    refine .inl (hat.keep haround rfl (fun _ => rfl) fun pl => ?_)
    cases pl <;> simp [State.count, queueCount, hs, Frame.count, Frame.rest]
  | @inlineDone c₀ =>
    by_cases hcc : c₀ = c
    · subst hcc
      have hplace := hat.place_of_frame hs .inline (by simp [Frame.count])
      cases p with
      | inline =>
        refine .inr ⟨.finish, .returning, trivial, rfl, ?_⟩
        refine hat.advance haround (by simp) .finish rfl (role_update ?_) ?_ (fun pl => ?_) (by simp)
          (by simp [CallEvent.skips])
        · simp [ThreadPc.role, CallPhase.role]
        · simp [setThread, finishFunctor, updateCall, hat.record, CallPhase.record]
        · cases pl <;> simp [State.count, queueCount, hs, CallPhase.count, CallPhase.place, Frame.count,
            Frame.rest, setThread, finishFunctor, updateCall]
          omega
      | _ => cases hplace
    · refine .inl (hat.keep haround ?_ (role_update_same ?_) fun pl => ?_)
      · simp [setThread, finishFunctor, updateCall, Function.update_of_ne (Ne.symm hcc)]
      · have hrole : (s.threads loopThread).role c = .none := by rw [hout]; rfl
        exact (if_neg hcc).trans hrole.symm
      · cases pl <;> simp [State.count, queueCount, hs, Frame.count, Frame.rest, setThread,
          finishFunctor, updateCall, hcc]
  | _ => cases hf

theorem call_frameStep {s s' : State D} {o : Outcome} {f : Frame D} {fs : List (Frame D)} {c : CallId}
    {p : CallPhase} (hout : s.threads loopThread = .outside) (hs : s.stack = f :: fs)
    (h : s.frameStep o fs f = some s') (hat : CallAt s c p) : CallStep s (.loop o) s' c p := by
  have haround := around_frameStep c h
  -- frames that hold no call
  have hplain : ∀ g : Frame D, Replaced f g s s' → s'.calls = s.calls → f.holdsCalls = false →
      g.holdsCalls = false → CallStep s (.loop o) s' c p := by
    intro g hr hcalls hf hg
    refine .inl (hr.keep hat haround (by rw [hcalls]) fun pl => ?_)
    rw [count_eq_zero hf, count_eq_zero hg]
  have hpop : s' = { s with sockets := s'.sockets, stack := fs } → f.holdsCalls = false →
      CallStep s (.loop o) s' c p := by
    intro hs' hf
    rw [hs'] at haround ⊢
    refine .inl (hat.keep haround rfl (fun _ => rfl) fun pl => ?_)
    cases pl <;> simp [State.count, queueCount, hs, count_eq_zero hf]
  cases framed h with
  | wait =>
    rcases dispatch_stack s o.wait fs with ⟨hd, -⟩ | ⟨hd, -⟩ | ⟨hd, -⟩ | ⟨hd, -⟩ | hd
    · exact hpop (by rw [dispatch_eq, hd]) rfl
    all_goals
      refine hplain _ ⟨⟨fs, hs, hd⟩, ?_, ?_, ?_⟩ ?_ rfl rfl <;> rw [dispatch_eq]
  | swap =>
    -- the batch is what was pending
    refine .inl (hat.keep haround rfl (fun _ => rfl) fun pl => ?_)
    cases pl <;> simp [State.count, queueCount, hs, Frame.count, Frame.rest]
    omega
  | popDue _ hg =>
    rcases hg with ⟨rfl, -⟩ | ⟨rfl, -⟩
    all_goals exact hplain _ ⟨⟨fs, hs, rfl⟩, rfl, rfl, rfl⟩ rfl rfl rfl
  | start | finish | destroy | batchDone | inlineDone => exact call_batchStep rfl hout hs h hat
  | close => exact hpop rfl rfl
  | _ => exact hplain _ ⟨⟨fs, hs, rfl⟩, rfl, rfl, rfl⟩ rfl rfl rfl

/-! ### Steps of the system -/

omit [AbslDuration D] in
/-- Entering `BlockingCall` begins the life of a call. -/
theorem call_enter {s s' : State D} {i : Tid} {a : ApiCall D} {c : CallId} {p : CallPhase}
    (hout : s.threads i = .outside) (h : s.enter i a = some s') (hat : CallAt s c p) :
    CallStep s (.call i a) s' c p := by
  have hkeep : ∀ pc : ThreadPc D, Around c s s' → s'.threads = Function.update s.threads i pc →
      pc.role c = .none → s'.calls c = s.calls c → (∀ pl, s'.count c pl = s.count c pl) →
      CallStep s (.call i a) s' c p := by
    intro pc haround hthreads hpc hcalls hcount
    refine .inl (hat.keep haround hcalls (fun j => ?_) hcount)
    rw [hthreads]
    exact role_update_same (by rw [hpc, hout]; rfl) j
  cases a with
  | postTask =>
    cases h
    exact hkeep _ ⟨.rfl, id, id⟩ rfl (by simp [ThreadPc.role, Task.isCall]) rfl fun _ => rfl
  | postDelayedTask delay => cases h; exact hkeep _ ⟨.rfl, id, id⟩ rfl rfl rfl fun _ => rfl
  | blockingCall =>
    cases h
    by_cases hcc : s.nextCall = c
    · subst hcc
      obtain rfl : p = .unused := hat.fresh.mp (Nat.le_refl _)
      refine .inr ⟨.enter i, .entered i, trivial, rfl, ?_, fun j => ?_, hat.count, ?_, ?_, ?_⟩
      · simp [CallPhase.record]
      · have hold : (s.threads j).role s.nextCall = .none := by
          rw [hat.role j]
          exact ite_self _
        have hrole : (ThreadPc.callEntered s.nextCall : ThreadPc D).role s.nextCall = .entered := if_pos rfl
        rw [role_update hrole, hold]
        rfl
      · simp
      · simp [CallPhase.afterBegin]
      · simp [CallPhase.afterQuit]
    · refine hkeep _ ⟨?_, id, id⟩ rfl (by simp [ThreadPc.role, hcc])
        (Function.update_of_ne (Ne.symm hcc) _ _) fun _ => rfl
      exact ⟨Nat.le_of_succ_le, fun hle => Nat.lt_of_le_of_ne hle hcc⟩
  | quit =>
    simp only [enter] at h
    split at h
    · rename_i hq
      cases h
      refine hkeep _ ⟨.rfl, id, by simp⟩ rfl rfl rfl fun pl => ?_
      cases pl <;> simp [State.count, queueCount, QuitPhase.discarded, hq]
    · cases h

theorem call_step {s s' : State D} {a : Action D} {c : CallId} {p : CallPhase} (hc : Control s)
    (hq : RunningInv s) (h : step s a = some s') (hat : CallAt s c p) : CallStep s a s' c p := by
  cases step_cases h with
  | begin => exact .inl (hat.keep ⟨.rfl, by simp, id⟩ rfl (fun _ => rfl) fun _ => rfl)
  | call hm he => exact call_enter (mayCall_iff.mp hm).1 he hat
  | resume hr => exact call_resume hc hq hr hat
  | loop hout hs hf => exact call_frameStep hout hs hf hat
  | runEventLoopOnce | processPendingTasks =>
    refine .inl (hat.keep ⟨.rfl, id, id⟩ rfl (fun _ => rfl) fun pl => ?_)
    cases pl <;> simp [State.count, queueCount, Frame.count, Frame.rest]
  | wakeUp | socket | arrive | expire | tick =>
    exact .inl (hat.keep ⟨.rfl, id, id⟩ rfl (fun _ => rfl) fun _ => rfl)

end IoBase
