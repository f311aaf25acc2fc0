import IoBase.Control
import IoBase.DuePass
import IoBase.Signal

/- The loop does not spin.

   The three events of the wait are set by hand and are reset by hand, and some time passes
   between the return of a wait and the reset. Still no signal ends two waits: of the waits
   that one of the events has ended there are no more than times the event has been set.

   * `signalNotes`: which steps set one of the events, and which waits return for one.
   * `returns_le_sets`: the loop thread wakes up no more often than it is woken; for the timer's
     event in the runs in which no delayed task re-enters the loop and the times fit. -/
namespace IoBase
open Transition State Signal

variable {D : Type}

/-- An event of the wait is set, or a wait returns. -/
inductive SignalNote where
  | set (r : WaitResult)
  | returned (r : WaitResult)
  deriving DecidableEq, Repr

namespace State

/-- What a step shows of the events. -/
def signalNotes (s : State D) : Action D → List SignalNote
  | .wakeUp => [.set .wakeup]
  | .resume i _ =>
    match s.threads i with
    | .postPushed _ => [.set .wakeup]
    | _ => []
  | .socket (.notify fd events) =>
    if (SocketCall.run s.sockets s.isQuitting (.notify fd events)).1 then [.set .socket] else []
  | .arrive _ _ _ => [.set .socket]
  | .expire _ => [.set .timer]
  | .loop o =>
    match s.stack with
    | .waiting _ :: _ => [.returned o.wait]
    | _ => []
  | _ => []

/-- The event for which a wait returns `r`. -/
def signaled (s : State D) : WaitResult → Bool
  | .wakeup => s.wakeupEv
  | .timer => s.timers.timer.event
  | .socket => s.sockets.socketEv
  | _ => false

end State

/-- A wait has returned `r`, and the event has not been reset since. The enumeration of a socket that
    comes onto the ready list has reset `socket_ev_`. -/
def Frame.taken : WaitResult → Frame D → Bool
  | .wakeup, .woken => true
  | .timer, .timerFired => true
  | .socket, .enumerating r _ ready => r == .socket && ready.isEmpty
  | .socket, .callbacks r ready => r == .socket && ready.isEmpty
  | .socket, .closing r => r == .socket
  | _, _ => false

def State.taken (s : State D) (r : WaitResult) : Bool := s.stack.head?.any (Frame.taken r)

/-- The event has been set as often as it has ended a wait. -/
def Meters (r : WaitResult) (s : State D) (notes : List SignalNote) : Prop :=
  Metered (notes.count (.returned r)) (notes.count (.set r)) (s.signaled r) (s.taken r)

theorem taken_eq {s : State D} {f : Frame D} {fs : List (Frame D)} (hs : s.stack = f :: fs) (r : WaitResult) :
    s.taken r = f.taken r := by
  rw [State.taken, hs]
  rfl

theorem taken_waiting {timeoutMs : BitVec 32} {r : WaitResult} :
    Frame.taken r (.waiting timeoutMs : Frame D) = false := by
  cases r <;> rfl

/-- User code has no return to answer for. -/
theorem taken_of_inUserCode {s : State D} (h : s.inUserCode = true) (r : WaitResult) : s.taken r = false := by
  cases hs : s.stack with
  | nil =>
    rw [State.taken, hs]
    rfl
  | cons f fs =>
    rw [taken_eq hs]
    have huser := inUserCode_iff.mp h f fs hs
    cases f with
    | running | runningDue | inCallback | inlineCall => cases r <;> rfl
    | _ => cases huser

section Meters
variable {s s' : State D} {r : WaitResult} {notes : List SignalNote}

/-- A step that shows nothing of this event. -/
theorem Meters.quiet {new : List SignalNote} (h : Meters r s notes)
    (hset : SignalNote.set r ∉ new) (hreturned : SignalNote.returned r ∉ new)
    (hsignaled : s'.signaled r = true → s.signaled r = true)
    (htaken : s'.signaled r = true → s.taken r = true → s'.taken r = true) : Meters r s' (notes ++ new) := by
  rw [Meters, List.count_append, List.count_append, List.count_eq_zero.mpr hset, List.count_eq_zero.mpr hreturned]
  exact h.keep hsignaled htaken

theorem Meters.set (h : Meters r s notes) : Meters r s' (notes ++ [.set r]) := by
  have hother : List.count (SignalNote.returned r) [.set r] = 0 := by simp
  rw [Meters, List.count_append, List.count_append, List.count_singleton_self, hother]
  exact Metered.set h

theorem Meters.returned (h : Meters r s notes) (hsignaled : s.signaled r = true) (hnot : s.taken r = false)
    (htaken : s'.taken r = true) : Meters r s' (notes ++ [.returned r]) := by
  have hother : List.count (SignalNote.set r) [.returned r] = 0 := by simp
  rw [Meters, List.count_append, List.count_append, List.count_singleton_self, hother, htaken]
  rw [Meters, hsignaled, hnot] at h
  exact h.take

end Meters

/-! ## Nothing but the noted steps sets an event -/

section Timers
variable [AbslDuration D] {ts : Timers}

omit [AbslDuration D] in
theorem event_dcheck {c : Check} {holds : Bool} : (ts.dcheck c holds).timer = ts.timer := by
  unfold Timers.dcheck
  split <;> rfl

theorem event_scheduleNextTimer {now : Int} {o : TimerOutcome} :
    (ts.scheduleNextTimer D now o).timer.event = ts.timer.event := by
  simp only [Timers.scheduleNextTimer]
  split
  · rw [event_dcheck]
  · simp only [Timers.startOneShotTimer]
    cases o.timeSetEventOk <;> cases o.setTimerOk <;> simp [event_dcheck]

theorem event_postDelayedTaskOnTaskQueue {task : Closure} {start : Int} {delay : D} {now₁ now₂ now₃ : Int}
    {o : TimerOutcome}
    (h : (ts.postDelayedTaskOnTaskQueue task start delay now₁ now₂ now₃ o).timer.event = true) :
    ts.timer.event = true := by
  cases htop : BinaryHeap.top? ts.timerTasks with
  | none =>
    simp only [Timers.postDelayedTaskOnTaskQueue, htop, if_true, event_scheduleNextTimer] at h
    cases h
  | some top =>
    simp only [Timers.postDelayedTaskOnTaskQueue, htop] at h
    split at h
    · rw [event_scheduleNextTimer] at h
      cases h
    · exact h

end Timers

/-- An enumeration that leaves `socket_ev_` set has failed, or found nothing. -/
theorem enumerateSocket_signaled {s : Sockets} {ready : List ReadyListEntry} {fd : Fd} {enumOk : Bool}
    (h : (s.enumerateSocket ready fd enumOk).1.socketEv = true) :
    s.socketEv = true ∧ (s.enumerateSocket ready fd enumOk).2 = ready := by
  unfold Sockets.enumerateSocket at h ⊢
  split at h
  · rename_i hfail
    rw [if_pos hfail]
    exact ⟨h, rfl⟩
  · rename_i hsuccess
    rw [if_neg hsuccess]
    split at h
    · exact ⟨h, rfl⟩
    · simp only at h
      split at h
      · rw [(dispatchSocketEvent_frame _ _ _ _).1] at h
        cases h
      · cases h

/-- A socket call sets `socket_ev_` only if it is a notification that is taken. -/
theorem socketCall_signaled {s : Sockets} {quitting : Bool} {c : SocketCall}
    (hnotify : ∀ fd events, c = .notify fd events → (c.run s quitting).1 = false)
    (h : (c.run s quitting).2.socketEv = true) : s.socketEv = true := by
  generalize hout : c.run s quitting = out at h hnotify
  cases hout ▸ socket_cases s quitting c with
  | notify hlookup => cases hnotify _ _ rfl
  | _ => exact h

section Steps
variable [AbslDuration D] {s s' : State D} {r : WaitResult}

theorem resume_signaled {i : Tid} {o : Outcome} (h : s.resume i o = some s')
    (hnot : r ≠ .wakeup ∨ ∀ t, s.threads i ≠ .postPushed t) (hsignaled : s'.signaled r = true) :
    s.signaled r = true := by
  cases resumed h with
  | wake hpc =>
    cases r with
    | wakeup => exact absurd hpc ((hnot.resolve_left fun hne => hne rfl) _)
    | _ => exact hsignaled
  | postTimer =>
    cases r with
    | timer => exact event_postDelayedTaskOnTaskQueue hsignaled
    | _ => exact hsignaled
  | refuse | quitDestroy =>
    rw [destroyTask_eq] at hsignaled
    cases r <;> exact hsignaled
  | _ => cases r <;> exact hsignaled

theorem frameStep_signaled {o : Outcome} {f : Frame D} {fs : List (Frame D)} (h : s.frameStep o fs f = some s')
    (hsignaled : s'.signaled r = true) : s.signaled r = true := by
  cases framed h with
  | wait =>
    rw [dispatch_eq] at hsignaled
    cases r <;> exact hsignaled
  | start =>
    rw [startTask_eq] at hsignaled
    cases r <;> exact hsignaled
  | destroy =>
    rw [destroyTask_eq] at hsignaled
    cases r <;> exact hsignaled
  | @finish t rest =>
    cases t with
    | hop n start delay =>
      cases r with
      | timer => exact event_postDelayedTaskOnTaskQueue hsignaled
      | _ => exact hsignaled
    | user n => cases r <;> exact hsignaled
    | call c => cases r <;> exact hsignaled
  | resetWakeup =>
    cases r with
    | wakeup => cases hsignaled
    | _ => exact hsignaled
  | cancelTimer =>
    cases r with
    | timer =>
      have hset : (s.timers.cancel.dcheck .runDueTasksNonEmpty (!s.timers.timerTasks.isEmpty)).timer.event = true :=
        hsignaled
      rw [event_dcheck] at hset
      cases hset
    | _ => exact hsignaled
  | runDue =>
    cases r with
    | timer => exact (congrArg MultimediaTimer.event event_dcheck).symm.trans hsignaled
    | _ => exact hsignaled
  | schedule =>
    cases r with
    | timer => exact event_scheduleNextTimer.symm.trans hsignaled
    | _ => exact hsignaled
  | enumerate =>
    cases r with
    | socket => exact (enumerateSocket_signaled hsignaled).1
    | _ => exact hsignaled
  | @close q =>
    cases r with
    | socket =>
      have hset : (if q = .socket then false else s.sockets.socketEv) = true := hsignaled
      split at hset
      · cases hset
      · exact hset
    | _ => exact hsignaled
  | _ => cases r <;> exact hsignaled

/-- What has been taken and is not reset goes on to the reset. -/
theorem frameStep_taken {o : Outcome} {f : Frame D} {fs : List (Frame D)}
    (hsane : r = .timer → s.timers.timer.event = true → s.timers.timerTasks ≠ [])
    (h : s.frameStep o fs f = some s') (hsignaled : s'.signaled r = true) (htaken : f.taken r = true) :
    s'.taken r = true := by
  cases r with
  | failed | timeout => cases hsignaled
  | wakeup =>
    cases f with
    | woken =>
      cases framed h with
      | resetWakeup => cases hsignaled
    | _ => cases htaken
  | timer =>
    have hevent := frameStep_signaled h hsignaled
    cases f with
    | timerFired =>
      cases framed h with
      | noTimerTask hnone => exact absurd (List.isEmpty_iff.mp hnone) (hsane rfl hevent)
      | cancelTimer =>
        have hset : (s.timers.cancel.dcheck .runDueTasksNonEmpty (!s.timers.timerTasks.isEmpty)).timer.event =
          true := hsignaled
        rw [event_dcheck] at hset
        cases hset
    | _ => cases htaken
  | socket =>
    cases f with
    | enumerating q todo ready =>
      cases framed h with
      | enumerated => exact htaken
      | enumerate =>
        rw [taken_eq rfl, (enumerateSocket_signaled hsignaled).2]
        exact htaken
    | callbacks q ready =>
      cases framed h with
      | callbacksDone => exact (Bool.and_eq_true_iff.mp htaken).1
      | callback | skip => cases (Bool.and_eq_true_iff.mp htaken).2
    | closing q =>
      cases framed h with
      | close =>
        have hset : (if q = .socket then false else s.sockets.socketEv) = true := hsignaled
        rw [if_pos (beq_iff_eq.mp htaken)] at hset
        cases hset
    | _ => cases htaken

/-! ## Runs -/

variable {notes : List SignalNote}

omit [AbslDuration D] in
/-- A wait that returns for an event finds it signaled. -/
theorem signaled_of_mayReturn {timeoutMs : BitVec 32} (hr : r = .wakeup ∨ r = .timer ∨ r = .socket)
    (h : s.mayReturn timeoutMs r = true) : s.signaled r = true := by
  rcases hr with rfl | rfl | rfl
  · exact h
  · exact (Bool.and_eq_true_iff.mp h).2
  · exact (Bool.and_eq_true_iff.mp h).2

omit [AbslDuration D] in
/-- What the wait leads to is yet to reset the event. -/
theorem taken_dispatch {fs : List (Frame D)} (hr : r = .wakeup ∨ r = .timer ∨ r = .socket) :
    (s.dispatch r fs).taken r = true := by
  rcases hr with rfl | rfl | rfl
  · rfl
  · rfl
  · simp only [dispatch, processSocketEvents]
    split <;> rfl

theorem meters_frameStep {o : Outcome} {f : Frame D} {fs : List (Frame D)}
    (hr : r = .wakeup ∨ r = .timer ∨ r = .socket)
    (hsane : r = .timer → s.timers.timer.event = true → s.timers.timerTasks ≠ [])
    (hs : s.stack = f :: fs) (h : s.frameStep o fs f = some s') (hm : Meters r s notes) :
    Meters r s' (notes ++ s.signalNotes (.loop o)) := by
  have htaken := frameStep_taken hsane h
  rw [← taken_eq hs] at htaken
  cases hf : f with
  | waiting timeoutMs =>
    subst hf
    have hnotes : s.signalNotes (.loop o) = [.returned o.wait] := by
      rw [signalNotes, hs]
    rw [hnotes]
    by_cases hwait : o.wait = r
    · subst hwait
      cases framed h with
      | wait hmay => exact hm.returned (signaled_of_mayReturn hr hmay) ((taken_eq hs _).trans taken_waiting) (taken_dispatch hr)
    · refine hm.quiet (by simp) ?_ (frameStep_signaled h) htaken
      intro hmem
      exact hwait (SignalNote.returned.inj (List.mem_singleton.mp hmem)).symm
  | _ =>
    have hnotes : s.signalNotes (.loop o) = [] := by
      rw [signalNotes, hs, hf]
    rw [hnotes]
    exact hm.quiet List.not_mem_nil List.not_mem_nil (frameStep_signaled h) htaken

theorem meters_resume {i : Tid} {o : Outcome} (hc : Control s) (h : s.resume i o = some s') (hm : Meters r s notes) :
    Meters r s' (notes ++ s.signalNotes (.resume i o)) := by
  have htaken : s.taken r = true → s'.taken r = true := by
    intro htaken
    rcases resume_stack_cases hc h with hstack | ⟨c, -, -, huser, -⟩
    · rw [State.taken, hstack]
      exact htaken
    · rw [taken_of_inUserCode huser] at htaken
      cases htaken
  cases hpc : s.threads i with
  | postPushed t =>
    have hnotes : s.signalNotes (.resume i o) = [.set .wakeup] := by
      rw [signalNotes, hpc]
    rw [hnotes]
    by_cases hr : r = .wakeup
    · subst hr
      exact hm.set
    · refine hm.quiet (fun hmem => ?_) (by simp) (resume_signaled h (.inl hr)) fun _ => htaken
      exact hr (SignalNote.set.inj (List.mem_singleton.mp hmem))
  | _ =>
    have hnotes : s.signalNotes (.resume i o) = [] := by
      rw [signalNotes, hpc]
    rw [hnotes]
    refine hm.quiet List.not_mem_nil List.not_mem_nil (resume_signaled h (.inr fun t ht => ?_)) fun _ => htaken
    cases hpc.symm.trans ht

omit [AbslDuration D] in
/-- A step that sets this event at most, and leaves the frames alone. -/
theorem Meters.event {r' : WaitResult} (hm : Meters r s notes) (hstack : s'.stack = s.stack)
    (hsignaled : r ≠ r' → s'.signaled r = true → s.signaled r = true) : Meters r s' (notes ++ [.set r']) := by
  by_cases hr : r = r'
  · subst hr
    exact hm.set
  · refine hm.quiet (fun hmem => ?_) (by simp) (hsignaled hr) fun _ htaken => ?_
    · exact hr (SignalNote.set.inj (List.mem_singleton.mp hmem))
    · rw [State.taken, hstack]
      exact htaken

omit [AbslDuration D] in
/-- A step that adds a frame above user code. -/
theorem Meters.call (hm : Meters r s notes) (huser : s.inUserCode = true)
    (hsignaled : s'.signaled r = s.signaled r) : Meters r s' (notes ++ []) := by
  refine hm.quiet List.not_mem_nil List.not_mem_nil (fun h => hsignaled ▸ h) fun _ htaken => ?_
  rw [taken_of_inUserCode huser] at htaken
  cases htaken

omit [AbslDuration D] in
theorem meters_socket {c : SocketCall} (hmay : s.mayCall loopThread = true) (hm : Meters r s notes) :
    Meters r { s with sockets := (c.run s.sockets s.isQuitting).2 } (notes ++ s.signalNotes (.socket c)) := by
  have hother : r ≠ .socket → State.signaled { s with sockets := (c.run s.sockets s.isQuitting).2 } r = true →
      s.signaled r = true := by
    intro hr h
    cases r with
    | socket => exact absurd rfl hr
    | _ => exact h
  by_cases hnotify : ∃ fd events, c = .notify fd events ∧ (c.run s.sockets s.isQuitting).1 = true
  · obtain ⟨fd, events, rfl, htrue⟩ := hnotify
    have hnotes : s.signalNotes (.socket (.notify fd events)) = [.set .socket] := by
      rw [signalNotes, if_pos htrue]
    rw [hnotes]
    exact hm.event rfl hother
  · have hnotes : s.signalNotes (.socket c) = [] := by
      cases c with
      | notify fd events =>
        rw [signalNotes, if_neg fun htrue => hnotify ⟨fd, events, rfl, htrue⟩]
      | _ => rfl
    rw [hnotes]
    refine hm.quiet List.not_mem_nil List.not_mem_nil (fun h => ?_) fun _ htaken => ?_
    · by_cases hr : r = .socket
      · subst hr
        refine socketCall_signaled (fun fd events hc => ?_) h
        exact Bool.eq_false_iff.mpr fun htrue => hnotify ⟨fd, events, hc, htrue⟩
      · exact hother hr h
    · rw [taken_of_inUserCode ((mayCall_iff.mp hmay).2 rfl)] at htaken
      cases htaken

theorem meters_step {a : Action D} (hr : r = .wakeup ∨ r = .timer ∨ r = .socket) (hc : Control s)
    (hsane : r = .timer → s.timers.timer.event = true → s.timers.timerTasks ≠ [])
    (h : step s a = some s') (hm : Meters r s notes) : Meters r s' (notes ++ s.signalNotes a) := by
  cases step_cases h with
  | wakeUp =>
    refine hm.event rfl fun hne hset => ?_
    cases r with
    | wakeup => exact absurd rfl hne
    | _ => exact hset
  | arrive =>
    refine hm.event rfl fun hne hset => ?_
    cases r with
    | socket => exact absurd rfl hne
    | _ => exact hset
  | expire =>
    refine hm.event rfl fun hne hset => ?_
    cases r with
    | timer => exact absurd rfl hne
    | _ => exact hset
  | call hmay he =>
    refine hm.quiet List.not_mem_nil List.not_mem_nil (fun hset => ?_) fun _ htaken => ?_ <;> rw [enter_frame he] at *
    · cases r <;> exact hset
    · exact htaken
  | resume hresume => exact meters_resume hc hresume hm
  | runEventLoopOnce hmay => exact hm.call ((mayCall_iff.mp hmay).2 rfl) (by cases r <;> rfl)
  | processPendingTasks hmay => exact hm.call ((mayCall_iff.mp hmay).2 rfl) (by cases r <;> rfl)
  | socket hmay => exact meters_socket hmay hm
  | loop hout hs hf => exact meters_frameStep hr hsane hs hf hm
  | begin | tick =>
    refine hm.quiet List.not_mem_nil List.not_mem_nil (fun hset => ?_) fun _ htaken => htaken
    cases r <;> exact hset

end Steps

section Runs
variable [LawfulDuration D]

/-- **The loop does not spin.** In every run, the waits that have ended for the wake-up event are no more
    than the times it has been set, and so for the socket event; and for the timer's event if no delayed
    task re-enters the loop and the times fit. -/
theorem returns_le_sets {ok : State D → Action D → Prop} {s : State D} {notes : List SignalNote}
    (h : Reaches (observe step signalNotes) (fun p a => ok p.1 a) (State.init, []) (s, notes)) :
    notes.count (.returned .wakeup) ≤ notes.count (.set .wakeup) ∧
    notes.count (.returned .socket) ≤ notes.count (.set .socket) ∧
    ((∀ s a, ok s a → TimersFit s a) → notes.count (.returned .timer) ≤ notes.count (.set .timer)) := by
  have hrun : ∀ r, (r = .wakeup ∨ r = .timer ∨ r = .socket) →
      (r = .timer → ∀ s a, ok s a → TimersFit s a) → Meters r s notes := by
    intro r hr hok
    refine h.invariant_with (P := fun p => Meters r p.1 p.2) (Q := fun p => ReachesIf ok p.1)
      (fun _ hp => hp.unobserved) (fun p a q ha hstep hreach hm => ?_) ⟨Nat.le_refl _, fun hset => ?_⟩
    · obtain ⟨hnext, hnotes⟩ := observe_eq_some.mp hstep
      rw [hnotes]
      refine meters_step hr (control_of_reaches hreach) (fun htimer hevent => ?_) hnext hm
      have hsane := (inLoop_of_reaches (hreach.mono (hok htimer))).sound.sane
      exact hsane.armed fun hzero => by
        have hoff := (hsane.unset hzero).2
        exact absurd (hevent.symm.trans hoff) (fun h => by cases h)
    · cases r <;> cases hset
  exact ⟨(hrun .wakeup (.inl rfl) (fun h => by cases h)).le, (hrun .socket (.inr (.inr rfl)) (fun h => by cases h)).le,
    fun hok => (hrun .timer (.inr (.inl rfl)) fun _ => hok).le⟩

end Runs

/-- A delayed task is posted from another thread and expires; `WakeUp` is called twice before the loop
    thread waits, and a socket is notified. -/
def eachEventRun : List (Action Ticks) :=
  [.begin, .socket (.register 1 kEventReadable 0 true), .call 1 (.postDelayedTask oneMs), .resume 1 {},
    .resume 1 {}, .resume 1 {}, .resume 1 {}, .resume 1 {}, .wakeUp, .socket (.notify 1 kEventReadable),
    .runEventLoopOnce .posInf, .loop { wait := .wakeup }] ++ List.replicate 6 (.loop {}) ++
  [.tick 1000, .expire 1, .runEventLoopOnce .posInf, .loop { wait := .timer }] ++ List.replicate 5 (.loop {}) ++
  [.runEventLoopOnce .posInf, .loop { wait := .socket }] ++ List.replicate 6 (.loop {})

theorem returns_le_sets_eachEvent :
    ∃ (s : State Ticks) (notes : List SignalNote),
      Reaches (observe step signalNotes) (fun p a => TimersFit p.1 a) (State.init, []) (s, notes) ∧
      s.stack = [] ∧ notes.count (.returned .wakeup) = 1 ∧ notes.count (.set .wakeup) = 2 ∧
      notes.count (.returned .timer) = 1 ∧ notes.count (.returned .socket) = 1 ∧
      notes.count (.returned .timer) ≤ notes.count (.set .timer) := by
  have hrun : (runWhile (observe step signalNotes) (fun p a => TimersFit p.1 a)
      ((State.init : State Ticks), []) eachEventRun).isSome = true := by decide
  have hreach := reaches_get hrun
  obtain ⟨-, -, htimer⟩ := returns_le_sets hreach
  exact ⟨_, _, hreach, rfl, rfl, rfl, rfl, rfl, htimer fun _ _ => id⟩

end IoBase
