import IoBase.ArtificialRequest
import IoBase.KnownEvents

/- When an artificial notification arrives.

   `ArtificiallyNotifyEvent` also sets `socket_ev_`. The next `RunEventLoopOnce`
   looks at one of the three events only, the wake-up event first and the timer
   second, so the notification waits while one of these two is signaled; and if
   `socket_ev_` has been reset since, only a timeout of the wait gets to it.

   * `artificial_event_arrives`: the iteration delivers the notification exactly
     when it is for kinds of events that there are (`KnownEvents`) and the wait finds
     neither the wake-up event nor the timer event signaled; and such a wait returns
     if the socket event is signaled or the timeout finite.
   * `artificial_event_late`: a notification behind a wake-up. -/
namespace IoBase
open Transition State OrderedMap

variable {D : Type} [AbslDuration D]

/-! ## From the wait to the listener -/

/-- A call of the listener of `fd`, registered as `reg`, with all of `events`. -/
def Callback.Covers (fd : Fd) (reg : Nat) (events : EventMask) (cb : Callback) : Prop :=
  cb.fd = fd ∧ cb.registration = reg ∧ Within events cb.events

/-- The listener has been called so since there were the calls `called₀`. -/
def NotifiedSince (called₀ : List Callback) (fd : Fd) (reg : Nat) (events : EventMask) (s : State D) :
    Prop :=
  ∃ new, s.called = called₀ ++ new ∧ ∃ cb ∈ new, cb.Covers fd reg events

/-- In the iteration above the frames `fs`, the listener is yet to be called: its socket is still to
    be enumerated, or its entry is on the part of the ready list that is left. -/
inductive Due (fd : Fd) (reg : Nat) (events : EventMask) (fs : List (Frame D)) (s : State D) : Prop where
  | enumerating {r : WaitResult} {todo : List Fd} {ready : List ReadyListEntry} :
      s.stack = .enumerating r todo ready :: fs →
      (fd ∈ todo ∧ s.sockets.Requested fd reg events ∨ ∃ entry ∈ ready, entry.Covers fd reg events) →
      Due fd reg events fs s
  | callbacks {r : WaitResult} {ready : List ReadyListEntry} :
      s.stack = .callbacks r ready :: fs → (∃ entry ∈ ready, entry.Covers fd reg events) →
      Due fd reg events fs s
  | inCallback {r : WaitResult} {entry : ReadyListEntry} {rest : List ReadyListEntry}
      (above : List (Frame D)) :
      s.stack = above ++ .inCallback r entry rest :: fs → (∃ entry ∈ rest, entry.Covers fd reg events) →
      Due fd reg events fs s

namespace Due
variable {fd : Fd} {reg : Nat} {events : EventMask} {fs : List (Frame D)} {s s' : State D}

omit [AbslDuration D] in
/-- The iteration has not returned. -/
theorem length_lt (h : Due fd reg events fs s) : fs.length < s.stack.length := by
  cases h with
  | enumerating hs => simp [hs]
  | callbacks hs => simp [hs]
  | inCallback above hs => simp only [hs, List.length_append, List.length_cons]; omega

omit [AbslDuration D] in
theorem congr (h : Due fd reg events fs s) (hstack : s'.stack = s.stack)
    (hreq : s.sockets.Requested fd reg events → s'.sockets.Requested fd reg events) :
    Due fd reg events fs s' := by
  cases h with
  | enumerating hs hcover => exact .enumerating (hstack.trans hs) (hcover.imp (.imp id hreq) id)
  | callbacks hs hcover => exact .callbacks (hstack.trans hs) hcover
  | inCallback above hs hcover => exact .inCallback above (hstack.trans hs) hcover

omit [AbslDuration D] in
/-- User code of the iteration enters a public call that adds a frame. -/
theorem push {f : Frame D} (h : Due fd reg events fs s) (huser : s.inUserCode = true)
    (hstack : s'.stack = f :: s.stack) : Due fd reg events fs s' := by
  cases h with
  | enumerating hs => cases inUserCode_iff.mp huser _ _ hs
  | callbacks hs => cases inUserCode_iff.mp huser _ _ hs
  | inCallback above hs hcover =>
    exact .inCallback (f :: above) (by rw [hstack, hs, List.cons_append]) hcover

end Due

omit [AbslDuration D] in
/-- The object of a registered socket is alive. -/
theorem locked_of_covers {s : Sockets} {fd : Fd} {reg : Nat} {events : EventMask} {entry : ReadyListEntry}
    (hreg : s.RegisteredAs fd reg) (h : entry.Covers fd reg events) : s.locked entry = true := by
  obtain ⟨r, hr, hid⟩ := hreg
  obtain ⟨hfd, hentry, -⟩ := h
  unfold Sockets.locked
  rw [hfd, hr]
  simp [hid, hentry]

/-- The loop thread only adds to the calls of the listeners. -/
theorem frameStep_called {s s' : State D} {o : Outcome} {fs : List (Frame D)} {f : Frame D}
    (h : s.frameStep o fs f = some s') : ∃ new, s'.called = s.called ++ new := by
  cases framed h with
  | wait => rw [dispatch_eq]; exact ⟨[], (List.append_nil _).symm⟩
  | start => rw [startTask_eq]; exact ⟨[], (List.append_nil _).symm⟩
  | finish => rw [finishTask_eq]; exact ⟨[], (List.append_nil _).symm⟩
  | destroy => rw [destroyTask_eq]; exact ⟨[], (List.append_nil _).symm⟩
  | callback => exact ⟨_, rfl⟩
  | _ => exact ⟨[], (List.append_nil _).symm⟩

/-- A step of the loop thread while the listener is yet to be called: it still is, or it is called. -/
theorem due_frameStep {fd : Fd} {reg : Nat} {events : EventMask} {fs gs : List (Frame D)} {s s' : State D}
    {o : Outcome} {f : Frame D} (hne : events ≠ 0) (hkinds : Within events allEvents)
    (ho : o.enumOk = true) (hreg : s.sockets.RegisteredAs fd reg) (hs : s.stack = f :: gs)
    (h : s.frameStep o gs f = some s') (hdue : Due fd reg events fs s) :
    Due fd reg events fs s' ∨ NotifiedSince s.called fd reg events s' := by
  cases hdue with
  | enumerating hstack hcover =>
    rw [hs, List.cons.injEq] at hstack
    obtain ⟨rfl, rfl⟩ := hstack
    cases framed h with
    | enumerated =>
      rcases hcover with ⟨hmem, -⟩ | hcover
      · cases hmem
      · exact .inl (.callbacks rfl hcover)
    | @enumerate _ fd' =>
      refine .inl (.enumerating rfl ?_)
      rw [ho]
      rcases hcover with ⟨hmem, hreq⟩ | ⟨entry, hmem, hentry⟩
      · by_cases hfd : fd = fd'
        · subst hfd
          exact .inr (covers_enumerateSocket hne hkinds hreq)
        · exact .inl ⟨(List.mem_cons.mp hmem).resolve_left hfd, requested_enumerateSocket hfd hreq⟩
      · exact .inr ⟨entry, mem_enumerateSocket hmem, hentry⟩
  | callbacks hstack hcover =>
    rw [hs, List.cons.injEq] at hstack
    obtain ⟨rfl, rfl⟩ := hstack
    obtain ⟨entry, hmem, hentry⟩ := hcover
    cases framed h with
    | callbacksDone => cases hmem
    | callback =>
      rcases List.mem_cons.mp hmem with rfl | hmem
      · exact .inr ⟨_, rfl, _, List.mem_singleton.mpr rfl, hentry⟩
      · exact .inl (.inCallback [] rfl ⟨entry, hmem, hentry⟩)
    | skip hlocked =>
      rcases List.mem_cons.mp hmem with rfl | hmem
      · rw [State.locked, locked_of_covers hreg hentry, Bool.true_or] at hlocked
        cases hlocked
      · exact .inl (.callbacks rfl ⟨entry, hmem, hentry⟩)
  | inCallback above hstack hcover =>
    rw [hs] at hstack
    cases above with
    | nil =>
      rw [List.nil_append, List.cons.injEq] at hstack
      obtain ⟨rfl, rfl⟩ := hstack
      cases framed h with
      | callbackDone => exact .inl (.callbacks rfl hcover)
    | cons g above =>
      rw [List.cons_append, List.cons.injEq] at hstack
      obtain ⟨rfl, rfl⟩ := hstack
      rcases frameStep_stack h with hs' | ⟨g, -, -, hs'⟩
      · exact .inl (.inCallback above hs' hcover)
      · exact .inl (.inCallback (g :: above) hs' hcover)

/-- The listener is yet to be called in the iteration above `fs`, or has been. -/
structure Arriving (fd : Fd) (reg : Nat) (events : EventMask) (fs : List (Frame D))
    (called₀ : List Callback) (s : State D) : Prop where
  control : Control s
  registered : s.sockets.RegisteredAs fd reg
  called : ∃ new, s.called = called₀ ++ new
  arriving : Due fd reg events fs s ∨ NotifiedSince called₀ fd reg events s

theorem arriving_step {fd : Fd} {reg : Nat} {events : EventMask} {fs : List (Frame D)}
    {called₀ : List Callback} {s s' : State D} {a : Action D} (hne : events ≠ 0)
    (hkinds : Within events allEvents) (hok : a.keeps fd) (h : step s a = some s')
    (hs : Arriving fd reg events fs called₀ s) : Arriving fd reg events fs called₀ s' := by
  have hcontrol := control_step hs.control h
  have hreg : s'.sockets.RegisteredAs fd reg :=
    sockets_step (registeredAs_kept fd reg) (fun c hc => by rw [hc] at hok; exact hok) h hs.registered
  -- a step other than the loop thread's in its innermost frame
  have hother : s'.called = s.called →
      (Due fd reg events fs s → Due fd reg events fs s') → Arriving fd reg events fs called₀ s' := by
    intro hcalled hdue
    refine ⟨hcontrol, hreg, hcalled ▸ hs.called, hs.arriving.imp hdue ?_⟩
    intro hx
    obtain ⟨new, hnew, hcb⟩ := hx
    exact ⟨new, hcalled.trans hnew, hcb⟩
  cases step_cases h with
  | begin | wakeUp | arrive | expire | tick => exact hother rfl fun hdue => hdue.congr rfl id
  | call hm he => rw [enter_frame he] at hother ⊢; exact hother rfl fun hdue => hdue.congr rfl id
  | socket =>
    exact hother rfl fun hdue => hdue.congr rfl (requested_socketCall (socket_cases _ _ _) hok)
  | runEventLoopOnce hm => exact hother rfl fun hdue => hdue.push ((mayCall_iff.mp hm).2 rfl) rfl
  | processPendingTasks hm => exact hother rfl fun hdue => hdue.push ((mayCall_iff.mp hm).2 rfl) rfl
  | resume hr =>
    have hsock : s'.sockets = s.sockets := by rw [resume_frame hr]
    refine hother (by rw [resume_frame hr]) fun hdue => ?_
    rcases resume_stack_cases hs.control hr with hstack | ⟨c, -, -, huser, hstack⟩
    · exact hdue.congr hstack (hsock ▸ id)
    · exact hdue.push huser hstack
  | loop hout hstack hf =>
    obtain ⟨new, hnew⟩ := hs.called
    obtain ⟨more, hmore⟩ := frameStep_called hf
    have hcalled : s'.called = called₀ ++ (new ++ more) := by rw [hmore, hnew, List.append_assoc]
    refine ⟨hcontrol, hreg, ⟨_, hcalled⟩, ?_⟩
    rcases hs.arriving with hdue | ⟨new', hnew', cb, hcb, hcovers⟩
    · rcases due_frameStep hne hkinds hok hs.registered hstack hf hdue with
        hdue' | ⟨new', hnew', cb, hcb, hcovers⟩
      · exact .inl hdue'
      · refine .inr ⟨new ++ new', by rw [hnew', hnew, List.append_assoc], cb, ?_, hcovers⟩
        exact List.mem_append_right _ hcb
    · refine .inr ⟨new' ++ more, by rw [hmore, hnew', List.append_assoc], cb, ?_, hcovers⟩
      exact List.mem_append_left _ hcb

/-! ## An iteration that another event takes -/

/-- In the iteration above `fs`, begun as number `k`, no listener has been called, unless the loop was
    entered again. -/
structure Elsewhere (fs : List (Frame D)) (k : Nat) (called₀ : List Callback) (s : State D) : Prop where
  iterations : k ≤ s.iterations
  elsewhere : s.iterations = k → s.called = called₀ ∧
    ∃ above, s.stack = above ++ fs ∧ ∀ f ∈ above, f.handlesSockets = false

theorem elsewhere_step {fs : List (Frame D)} {k : Nat} {called₀ : List Callback} {s s' : State D}
    {a : Action D} (hlt : fs.length < s.stack.length) (h : step s a = some s')
    (hs : Elsewhere fs k called₀ s) : Elsewhere fs k called₀ s' := by
  have hsame : s'.iterations = s.iterations → s'.called = s.called → s'.stack = s.stack →
      Elsewhere fs k called₀ s' := by
    intro hi hcalled hstack
    exact ⟨hi ▸ hs.iterations, fun hk => hcalled ▸ hstack ▸ hs.elsewhere (hi ▸ hk)⟩
  have hpush : ∀ {f : Frame D}, f.handlesSockets = false → s'.iterations = s.iterations →
      s'.called = s.called → s'.stack = f :: s.stack → Elsewhere fs k called₀ s' := by
    intro f hf hi hcalled hstack
    refine ⟨hi ▸ hs.iterations, fun hk => ?_⟩
    obtain ⟨hold, above, habove, hall⟩ := hs.elsewhere (hi ▸ hk)
    exact ⟨hcalled.trans hold, f :: above, by rw [hstack, habove, List.cons_append],
      List.forall_mem_cons.mpr ⟨hf, hall⟩⟩
  cases step_cases h with
  | begin | wakeUp | socket | arrive | expire | tick => exact hsame rfl rfl rfl
  | call hm he => rw [enter_frame he] at hsame ⊢; exact hsame rfl rfl rfl
  | resume hr =>
    have hi : s'.iterations = s.iterations := by rw [resume_frame hr]
    have hcalled : s'.called = s.called := by rw [resume_frame hr]
    rcases resume_stack hr with hstack | ⟨c, -, -, hstack⟩
    · exact hsame hi hcalled hstack
    · exact hpush rfl hi hcalled hstack
  | processPendingTasks => exact hpush rfl rfl rfl rfl
  | runEventLoopOnce =>
    refine ⟨Nat.le_succ_of_le hs.iterations, fun hk => ?_⟩
    have := hs.iterations
    simp only at hk
    omega
  | @loop o f gs _ hout hstack hf =>
    have hi : s'.iterations = s.iterations := by rw [frameStep_frame hf]
    refine ⟨hi ▸ hs.iterations, fun hk => ?_⟩
    obtain ⟨hold, above, habove, hall⟩ := hs.elsewhere (hi ▸ hk)
    cases above with
    | nil => simp [habove] at hlt
    | cons g above =>
      rw [hstack, List.cons_append, List.cons.injEq] at habove
      obtain ⟨rfl, rfl⟩ := habove
      obtain ⟨hf', hall⟩ := List.forall_mem_cons.mp hall
      obtain ⟨hcalled, hs' | ⟨g, hg, hs'⟩⟩ := frameStep_handlesSockets hf hf'
      · exact ⟨hcalled.trans hold, above, hs', hall⟩
      · exact ⟨hcalled.trans hold, g :: above, hs', List.forall_mem_cons.mpr ⟨hg, hall⟩⟩

/-! ## The iteration runs to its end -/

/-- A step of the loop thread in the iteration above the frames `fs`. -/
def InIteration (fs : List (Frame D)) (s : State D) : Action D → Prop
  | .loop o => o.enumOk = true ∧ fs.length < s.stack.length
  | _ => False

/-- One step of the loop thread, and what follows. -/
theorem loop_head {fs gs : List (Frame D)} {s s' t : State D} {f : Frame D} (o : Outcome)
    (ho : o.enumOk = true) (hlt : fs.length < s.stack.length) (hout : s.threads loopThread = .outside)
    (hstack : s.stack = f :: gs) (h : s.frameStep o gs f = some s')
    (hrun : Reaches step (InIteration fs) s' t) : Reaches step (InIteration fs) s t := by
  have hstep : step s (.loop o) = some s' := by
    simp only [step, hout, ThreadPc.isOutside, if_true, loopStep, hstack]
    exact h
  exact hrun.head (a := .loop o) ⟨ho, hlt⟩ hstep

/-- The loop of `RunReadyCallbacks` ends, if the callbacks do. -/
theorem callbacks_return {fs : List (Frame D)} {r : WaitResult} {ready : List ReadyListEntry} :
    ∀ {s : State D}, s.threads loopThread = .outside → s.stack = .callbacks r ready :: fs →
      ∃ t, Reaches step (InIteration fs) s t ∧ t.stack = fs := by
  induction ready with
  | nil =>
    intro s hout hs
    have hclose : Reaches step (InIteration fs) { s with stack := .closing r :: fs }
        { s with
          sockets := { s.sockets with socketEv := if r = .socket then false else s.sockets.socketEv }
          stack := fs } :=
      loop_head {} rfl (by simp) hout rfl rfl .refl
    exact ⟨_, loop_head {} rfl (by simp [hs]) hout hs rfl hclose, rfl⟩
  | cons entry rest ih =>
    intro s hout hs
    cases hlocked : s.locked fs entry with
    | true =>
      let called := s.called ++ [⟨s.iterations, entry.fd, entry.registration, entry.events⟩]
      obtain ⟨t, hrun, ht⟩ := ih (s := { s with called, stack := .callbacks r rest :: fs }) hout rfl
      have hcall : s.frameStep {} fs (.callbacks r (entry :: rest)) =
          some { s with called, stack := .inCallback r entry rest :: fs } := by
        simp only [frameStep, hlocked, if_true, called]
      refine ⟨t, loop_head {} rfl (by simp [hs]) hout hs hcall ?_, ht⟩
      exact loop_head {} rfl (by simp) hout rfl rfl hrun
    | false =>
      obtain ⟨t, hrun, ht⟩ := ih (s := { s with stack := .callbacks r rest :: fs }) hout rfl
      exact ⟨t, loop_head {} rfl (by simp [hs]) hout hs (by simp [frameStep, hlocked]) hrun, ht⟩

/-- The loop over `registrations_` ends, and what follows it. -/
theorem enumeration_returns {fs : List (Frame D)} {r : WaitResult} {todo : List Fd} :
    ∀ {ready : List ReadyListEntry} {s : State D}, s.threads loopThread = .outside →
      s.stack = .enumerating r todo ready :: fs →
      ∃ t, Reaches step (InIteration fs) s t ∧ t.stack = fs := by
  induction todo with
  | nil =>
    intro ready s hout hs
    obtain ⟨t, hrun, ht⟩ := callbacks_return (s := { s with
      sockets := { s.sockets with hasArtificialEventsPending := false }
      stack := .callbacks r ready :: fs }) hout rfl
    exact ⟨t, loop_head {} rfl (by simp [hs]) hout hs rfl hrun, ht⟩
  | cons fd todo ih =>
    intro ready s hout hs
    obtain ⟨t, hrun, ht⟩ := ih (s := { s with
      sockets := (s.sockets.enumerateSocket ready fd true).1
      stack := .enumerating r todo (s.sockets.enumerateSocket ready fd true).2 :: fs }) hout rfl
    exact ⟨t, loop_head {} rfl (by simp [hs]) hout hs rfl hrun, ht⟩

/-! ## The next iteration -/

/-- `ArtificiallyNotifyEvent(fd, events)` returns true for the registration `r` of `fd`, armed for all
    of `events`, and leaves `s₁`. -/
structure Notify (fd : Fd) (r : Registration) (events : EventMask) (s s₁ : State D) : Prop where
  registered : s.sockets.registrations.lookup fd = some r
  armed : Within events r.events
  returnsTrue : (s.sockets.artificiallyNotifyEvent s.isQuitting fd events).1 = true
  step : step s (.socket (.notify fd events)) = some s₁

/-- `s₂` is in the wait of the first `RunEventLoopOnce` called after `s₁`, above the frames `fs`. -/
structure NextWait (fd : Fd) (timeoutMs : BitVec 32) (fs : List (Frame D)) (s₁ s₂ : State D) : Prop where
  run : Reaches IoBase.step (fun _ a => a.keeps fd) s₁ s₂
  next : s₂.iterations = s₁.iterations + 1
  stack : s₂.stack = .waiting timeoutMs :: fs

/-- The wait returns in `s₂`, not with a failure, and the call of `RunEventLoopOnce` in `s₃`. -/
def Returns (fd : Fd) (fs : List (Frame D)) (s₂ s₃ : State D) : Prop :=
  s₃.stack = fs ∧ ∃ o s', o.wait ≠ .failed ∧ step s₂ (.loop o) = some s' ∧
    Reaches step (fun s a => a.keeps fd ∧ fs.length < s.stack.length) s' s₃

/-- Neither the wake-up event nor the timer event is signaled. -/
def Undisturbed (s : State D) : Prop := s.wakeupEv = false ∧ s.timers.timer.event = false

theorem requested_of_nextWait {fd : Fd} {r : Registration} {events : EventMask} {timeoutMs : BitVec 32}
    {fs : List (Frame D)} {s s₁ s₂ : State D} (h : Reachable s) (hnotify : Notify fd r events s s₁)
    (hnext : NextWait fd timeoutMs fs s₁ s₂) : Control s₂ ∧ s₂.sockets.Requested fd r.id events := by
  have hcontrol := control_of_reaches h
  have hstart : Coming fd r.id events s₁.iterations s₁ := by
    refine ⟨control_step hcontrol hnotify.step, Nat.le_refl _, fun _ => ?_, fun hk => by omega⟩
    cases step_cases hnotify.step with
    | socket hm =>
      refine ⟨requested_notify hnotify.returnsTrue hnotify.registered hnotify.armed, fun f hf => ?_⟩
      exact Frame.enumerates_of_userCode (hcontrol.all_userCode ((mayCall_iff.mp hm).2 rfl) f hf)
  have hcoming := hnext.run.invariant (fun _ _ _ hok hstep hs => coming_step hok hstep hs) hstart
  exact ⟨hcoming.control, hcoming.inWait hnext.next timeoutMs fs hnext.stack⟩

omit [AbslDuration D] in
theorem Sockets.Requested.mem_keys {fd : Fd} {reg : Nat} {events : EventMask} {s : Sockets}
    (h : s.Requested fd reg events) : fd ∈ s.registrations.keys := by
  obtain ⟨-, r, hr, -⟩ := h
  exact AList.mem_keys.mp (AList.lookup_isSome.mp (by simp [hr]))

omit [AbslDuration D] in
/-- A wait that the socket event or a timeout ends leads to the enumeration of the socket. -/
theorem dispatch_requested {fd : Fd} {reg : Nat} {events : EventMask} {s : State D} {r : WaitResult}
    (fs : List (Frame D)) (h : s.sockets.Requested fd reg events) (hr : r = .socket ∨ r = .timeout) :
    (s.dispatch r fs).stack = .enumerating r s.sockets.registrations.keys [] :: fs := by
  have hmem := h.mem_keys
  have hprocess : (s.processSocketEvents r fs).stack =
      .enumerating r s.sockets.registrations.keys [] :: fs := by
    unfold processSocketEvents
    split
    · rename_i hkeys
      rw [hkeys] at hmem
      cases hmem
    · rfl
  rcases hr with rfl | rfl
  · exact hprocess
  · simp only [dispatch, h.1, if_true]
    exact hprocess

/-- A step of the loop thread in a wait. -/
theorem wait_cases {s s' : State D} {o : Outcome} {timeoutMs : BitVec 32} {fs : List (Frame D)}
    (hs : s.stack = .waiting timeoutMs :: fs) (h : step s (.loop o) = some s') :
    s.mayReturn timeoutMs o.wait = true ∧ s' = s.dispatch o.wait fs := by
  cases step_cases h with
  | loop hout hstack hf =>
    rw [hs, List.cons.injEq] at hstack
    obtain ⟨rfl, rfl⟩ := hstack
    cases framed hf with
    | wait hmay => exact ⟨hmay, rfl⟩

omit [AbslDuration D] in
/-- A wait that finds neither of the two events is ended by the socket event or by a timeout. -/
theorem wait_undisturbed {s : State D} {r : WaitResult} {timeoutMs : BitVec 32}
    (hmay : s.mayReturn timeoutMs r = true) (hfail : r ≠ .failed) (hu : Undisturbed s) :
    r = .socket ∧ s.sockets.socketEv = true ∨ r = .timeout ∧ timeoutMs ≠ infinite := by
  obtain ⟨hwake, htimer⟩ := hu
  cases r with
  | failed => exact absurd rfl hfail
  | wakeup => rw [mayReturn, hwake] at hmay; cases hmay
  | timer => simp [mayReturn, htimer] at hmay
  | socket => exact .inl ⟨rfl, by simpa [mayReturn, hwake, htimer] using hmay⟩
  | timeout =>
    simp only [mayReturn, Bool.and_eq_true, bne_iff_ne] at hmay
    exact .inr ⟨rfl, hmay.2⟩

omit [AbslDuration D] in
/-- A wait that finds one of the two events goes to its branch. -/
theorem elsewhere_dispatch {s : State D} {r : WaitResult} {timeoutMs : BitVec 32} {fs : List (Frame D)}
    (hmay : s.mayReturn timeoutMs r = true) (hfail : r ≠ .failed) (hu : ¬Undisturbed s) :
    Elsewhere fs s.iterations s.called (s.dispatch r fs) := by
  have hbranch : r = .wakeup ∨ r = .timer := by
    cases r with
    | failed => exact absurd rfl hfail
    | wakeup => exact .inl rfl
    | timer => exact .inr rfl
    | socket | timeout =>
      refine absurd ⟨?_, ?_⟩ hu <;> simp only [mayReturn, Bool.and_eq_true, Bool.not_eq_true'] at hmay
      all_goals tauto
  rcases hbranch with rfl | rfl
  · exact ⟨Nat.le_refl _, fun _ => ⟨rfl, [.woken], rfl, by simp [Frame.handlesSockets]⟩⟩
  · exact ⟨Nat.le_refl _, fun _ => ⟨rfl, [.timerFired], rfl, by simp [Frame.handlesSockets]⟩⟩

theorem Sockets.Requested.notifiedSince {fd : Fd} {reg : Nat} {events : EventMask} {timeoutMs : BitVec 32}
    {fs : List (Frame D)} {s₂ s₃ : State D} (hcontrol : Control s₂)
    (hreq : s₂.sockets.Requested fd reg events) (hne : events ≠ 0) (hkinds : Within events allEvents)
    (hstack : s₂.stack = .waiting timeoutMs :: fs) (hret : Returns fd fs s₂ s₃) (hu : Undisturbed s₂) :
    NotifiedSince s₂.called fd reg events s₃ := by
  obtain ⟨hdone, o, s', hfail, hstep, hrun⟩ := hret
  obtain ⟨hmay, rfl⟩ := wait_cases hstack hstep
  have hbranch := (wait_undisturbed hmay hfail hu).imp And.left And.left
  have hstart : Arriving fd reg events fs s₂.called (s₂.dispatch o.wait fs) := by
    refine ⟨control_step hcontrol hstep, ?_, ⟨[], ?_⟩, .inl ?_⟩
    · rw [dispatch_eq]
      exact hreq.registeredAs
    · rw [dispatch_eq, List.append_nil]
    · refine .enumerating (dispatch_requested fs hreq hbranch) (.inl ⟨hreq.mem_keys, ?_⟩)
      rw [dispatch_eq]
      exact hreq
  have hend := hrun.invariant (fun _ _ _ hok hstep hs => arriving_step hne hkinds hok.1 hstep hs) hstart
  refine hend.arriving.resolve_left fun hdue => ?_
  have hlt := hdue.length_lt
  rw [hdone] at hlt
  exact Nat.lt_irrefl _ hlt

theorem Returns.undisturbed {fd : Fd} {reg : Nat} {events : EventMask} {timeoutMs : BitVec 32}
    {fs : List (Frame D)} {s₂ s₃ : State D} (hstack : s₂.stack = .waiting timeoutMs :: fs)
    (hret : Returns fd fs s₂ s₃) (hi : s₃.iterations = s₂.iterations)
    (hn : NotifiedSince s₂.called fd reg events s₃) : Undisturbed s₂ := by
  obtain ⟨-, o, s', hfail, hstep, hrun⟩ := hret
  obtain ⟨hmay, rfl⟩ := wait_cases hstack hstep
  by_contra hu
  have hend := hrun.invariant (fun _ _ _ hok hstep hs => elsewhere_step hok.2 hstep hs)
    (elsewhere_dispatch hmay hfail hu)
  obtain ⟨new, hnew, cb, hcb, -⟩ := hn
  obtain rfl : new = [] := by simpa [(hend.elsewhere hi).1] using hnew
  cases hcb

theorem returns_iff {fd : Fd} {reg : Nat} {events : EventMask} {timeoutMs : BitVec 32}
    {fs : List (Frame D)} {s₂ : State D} (hcontrol : Control s₂)
    (hreq : s₂.sockets.Requested fd reg events) (hstack : s₂.stack = .waiting timeoutMs :: fs)
    (hu : Undisturbed s₂) :
    (∃ s₃, Returns fd fs s₂ s₃) ↔ s₂.sockets.socketEv = true ∨ timeoutMs ≠ infinite := by
  constructor
  · intro hx
    obtain ⟨s₃, -, o, s', hfail, hstep, -⟩ := hx
    exact (wait_undisturbed (wait_cases hstack hstep).1 hfail hu).imp And.right And.right
  · intro hwakes
    have hmay : ∃ r, r ≠ .failed ∧ s₂.mayReturn timeoutMs r = true := by
      cases hev : s₂.sockets.socketEv with
      | true => exact ⟨.socket, by decide, by simp [mayReturn, hu.1, hu.2, hev]⟩
      | false =>
        have hfinite : timeoutMs ≠ infinite := hwakes.resolve_left (by simp [hev])
        exact ⟨.timeout, by decide, by simp [mayReturn, hu.1, hu.2, hev, hfinite]⟩
    obtain ⟨r, hfail, hmay⟩ := hmay
    have hout : s₂.threads loopThread = .outside :=
      hcontrol.outside (by simp [inUserCode, hstack, Frame.userCode])
    have hstep : step s₂ (.loop { wait := r }) = some (s₂.dispatch r fs) := by
      simp only [step, hout, ThreadPc.isOutside, if_true, loopStep, hstack, frameStep, hmay]
    have hbranch := (wait_undisturbed hmay hfail hu).imp And.left And.left
    obtain ⟨s₃, hrun, hdone⟩ :=
      enumeration_returns (by rw [dispatch_eq]; exact hout) (dispatch_requested fs hreq hbranch)
    refine ⟨s₃, hdone, _, _, hfail, hstep, hrun.mono fun s a ha => ?_⟩
    cases a with
    | loop o => exact ha
    | _ => exact ha.elim

theorem NotifiedSince.within {called₀ : List Callback} {fd : Fd} {reg : Nat} {events : EventMask}
    {s : State D} (h : Reachable s) (hn : NotifiedSince called₀ fd reg events s) :
    Within events allEvents := by
  obtain ⟨new, hnew, cb, hcb, -, -, hevents⟩ := hn
  have hmem : cb ∈ s.called := by
    rw [hnew]
    exact List.mem_append_right _ hcb
  exact hevents.trans ((knownEvents_of_reachable h).called cb hmem)

/-- **When an artificial notification arrives.** The next iteration delivers it if it is for some of
    the three kinds of events and the wait finds neither the wake-up event nor the timer event signaled.
    Otherwise it does not: never a mask with other bits, and not behind one of the two events, unless
    the loop is entered again. And a wait that finds neither returns exactly if the socket event is
    signaled or the timeout is finite. -/
theorem artificial_event_arrives {fd : Fd} {r : Registration} {events : EventMask}
    {timeoutMs : BitVec 32} {fs : List (Frame D)} {s s₁ s₂ : State D} (h : Reachable s)
    (hnotify : Notify fd r events s s₁) (hnext : NextWait fd timeoutMs fs s₁ s₂) :
    (∀ s₃, Returns fd fs s₂ s₃ → events ≠ 0 → Within events allEvents → Undisturbed s₂ →
      NotifiedSince s₂.called fd r.id events s₃) ∧
    (∀ s₃, Returns fd fs s₂ s₃ → NotifiedSince s₂.called fd r.id events s₃ →
      Within events allEvents ∧ (s₃.iterations = s₂.iterations → Undisturbed s₂)) ∧
    (Undisturbed s₂ →
      ((∃ s₃, Returns fd fs s₂ s₃) ↔ s₂.sockets.socketEv = true ∨ timeoutMs ≠ infinite)) := by
  obtain ⟨hcontrol, hreq⟩ := requested_of_nextWait h hnotify hnext
  have hreach : Reachable s₂ := (h.tail trivial hnotify.step).trans hnext.run.always
  refine ⟨fun s₃ hret hne hkinds hu => ?_, fun s₃ hret hn => ⟨?_, fun hi => ?_⟩, ?_⟩
  · exact hreq.notifiedSince hcontrol hne hkinds hnext.stack hret hu
  · obtain ⟨-, o, s', -, hstep, hrun⟩ := hret
    exact hn.within ((hreach.tail trivial hstep).trans hrun.always)
  · exact hret.undisturbed hnext.stack hi hn
  · exact returns_iff hcontrol hreq hnext.stack

/-- A listener is called for a notification, and asks for another one before it returns. -/
def renotifyRun : List (Action Ticks) :=
  [.begin, .socket (.register 1 kEventReadable 0 true), .socket (.notify 1 kEventReadable),
    .runEventLoopOnce .posInf, .loop { wait := .socket }, .loop {}, .loop {}, .loop {},
    .socket (.rearm 1 kEventReadable true)]

theorem artificial_event_arrives_renotify :
    ∃ s₂ s₃ : State Ticks, s₂.sockets.socketEv = false ∧ s₂.called.length = 1 ∧
      Returns 1 [] s₂ s₃ ∧ NotifiedSince s₂.called 1 0 kEventReadable s₃ := by
  have hrun : (runWhile step Always State.init renotifyRun).isSome = true := by decide
  have hnotify : (step ((runWhile step Always State.init renotifyRun).get hrun)
      (.socket (.notify 1 kEventReadable))).isSome = true := rfl
  have hwait : (runWhile step (fun _ a => a.keeps 1)
      ((step ((runWhile step Always State.init renotifyRun).get hrun)
        (.socket (.notify 1 kEventReadable))).get hnotify)
      [.loop {}, .loop {}, .loop {}, .runEventLoopOnce (.finite 0)]).isSome = true := rfl
  obtain ⟨harrives, -, hreturns⟩ := artificial_event_arrives (r := ⟨0, kEventReadable, some 0, 0⟩)
    (reaches_get hrun) ⟨rfl, by decide, rfl, (Option.some_get hnotify).symm⟩
    ⟨reaches_get hwait, rfl, rfl⟩
  obtain ⟨s₃, hret⟩ := (hreturns ⟨rfl, rfl⟩).mpr (.inr (by decide))
  exact ⟨_, s₃, rfl, rfl, hret, harrives s₃ hret (by decide) (by decide) ⟨rfl, rfl⟩⟩

/-- A socket is registered, and the loop is woken up. -/
def wokenRun : List (Action Ticks) :=
  [.begin, .socket (.register 1 kEventReadable 0 true), .wakeUp]

/-- **A notification is late**: a wake-up is signaled too, so the next iteration goes to the pending
    tasks, and returns without a call of the listener. -/
theorem artificial_event_late :
    ¬∀ (fd : Fd) (r : Registration) (events : EventMask) (timeoutMs : BitVec 32)
      (fs : List (Frame Ticks)) (s s₁ s₂ s₃ : State Ticks), Reachable s → Notify fd r events s s₁ →
      events ≠ 0 → Within events allEvents → NextWait fd timeoutMs fs s₁ s₂ → Returns fd fs s₂ s₃ →
      NotifiedSince s₂.called fd r.id events s₃ := by
  intro hclaim
  have hrun : (runWhile step Always State.init wokenRun).isSome = true := by decide
  let s := (runWhile step Always State.init wokenRun).get hrun
  have hnotify : (step s (.socket (.notify 1 kEventReadable))).isSome = true := rfl
  let s₁ := (step s (.socket (.notify 1 kEventReadable))).get hnotify
  have hwait : (runWhile step (fun _ a => a.keeps 1) s₁ [.runEventLoopOnce .posInf]).isSome = true := rfl
  let s₂ := (runWhile step (fun _ a => a.keeps 1) s₁ [.runEventLoopOnce .posInf]).get hwait
  have hwoken : (step s₂ (.loop { wait := .wakeup })).isSome = true := rfl
  let s' := (step s₂ (.loop { wait := .wakeup })).get hwoken
  have hback : (runWhile step (fun s a => a.keeps 1 ∧ ([] : List (Frame Ticks)).length < s.stack.length)
      s' [.loop {}, .loop {}, .loop {}]).isSome = true := rfl
  have hnotified : Notify 1 ⟨0, kEventReadable, some 0, 0⟩ kEventReadable s s₁ :=
    ⟨rfl, by decide, rfl, (Option.some_get hnotify).symm⟩
  obtain ⟨new, hnew, cb, hcb, -⟩ := hclaim _ _ _ _ [] s s₁ s₂ _ (reaches_get hrun) hnotified
    (by decide) (by decide) ⟨reaches_get hwait, rfl, rfl⟩
    ⟨rfl, { wait := .wakeup }, s', by decide, (Option.some_get hwoken).symm, reaches_get hback⟩
  obtain rfl : [] = new := hnew
  cases hcb

end IoBase
