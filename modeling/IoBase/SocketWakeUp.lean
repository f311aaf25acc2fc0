import IoBase.Control

/- No recorded network event is left behind while the loop thread sleeps.

   One manual-reset event, `socket_ev_`, stands for the records of all sockets. It
   is set when an event is recorded, and reset by every enumeration and, after an
   iteration that a socket event started, once more at the end. That last reset
   comes after the enumerations, and so does the reset by the enumeration of a
   later socket: an event recorded behind its own enumeration can lose its signal.

   * `no_lost_socket_wakeUp`: if every event on a registered socket arrives while
     no such reset is still to come (`ArrivesInTime`), a wait begins with
     `socket_ev_` signaled whenever some registered socket has a record.
   * `socket_wakeUp_lost`: an event that arrives after its socket was enumerated and
     before the reset at the end of the iteration. -/
namespace IoBase
open Transition State OrderedMap

variable {D : Type}

/-- The socket is registered and has a record that no enumeration has returned. -/
def Sockets.Unreported (s : Sockets) (fd : Fd) : Prop :=
  fd ∈ s.registrations ∧ (s.recorded fd).lNetworkEvents ≠ 0

/-- What is left of the frame does not reset `socket_ev_` behind the enumeration of `fd`. -/
def Frame.keepsSignalOf (fd : Fd) : Frame D → Bool
  | .enumerating r todo _ => todo.contains fd || (todo.isEmpty && r != .socket)
  | .callbacks r _ => r != .socket
  | .inCallback r _ _ => r != .socket
  | .closing r => r != .socket
  | _ => true

/-- An event on a registered socket arrives when no frame will reset `socket_ev_` behind the
    socket's own enumeration. -/
def ArrivesInTime (s : State D) : Action D → Prop
  | .arrive fd _ _ =>
    fd ∈ s.sockets.registrations → s.stack.all (Frame.keepsSignalOf fd) = true
  | _ => True

/-- `WSAEnumNetworkEvents` returns and clears the record, as is assumed of it here. -/
def EnumSucceeds : Action D → Prop
  | .loop o => o.enumOk = true
  | _ => True

def SocketTiming (s : State D) (a : Action D) : Prop := EnumSucceeds a ∧ ArrivesInTime s a

instance : (a : Action D) → Decidable (EnumSucceeds a)
  | .loop o => inferInstanceAs (Decidable (o.enumOk = true))
  | .begin | .wakeUp | .call .. | .resume .. | .runEventLoopOnce _ | .processPendingTasks
  | .socket _ | .arrive .. | .expire _ | .tick _ => .isTrue trivial

instance (s : State D) : (a : Action D) → Decidable (ArrivesInTime s a)
  | .arrive _ _ _ => inferInstanceAs (Decidable (_ → _))
  | .begin | .wakeUp | .call .. | .resume .. | .runEventLoopOnce _ | .processPendingTasks
  | .socket _ | .loop _ | .expire _ | .tick _ => .isTrue trivial

instance (s : State D) (a : Action D) : Decidable (SocketTiming s a) :=
  inferInstanceAs (Decidable (_ ∧ _))

/-- A record is signaled, or about to be enumerated; and no reset will come behind it. -/
def Signaled (s : State D) : Prop :=
  ∀ fd, s.sockets.Unreported fd →
    s.stack.all (Frame.keepsSignalOf fd) = true ∧
    (s.sockets.socketEv = true ∨
      ∃ r todo ready fs, s.stack = .enumerating r todo ready :: fs ∧ fd ∈ todo)

/-- The innermost frame is not in the loop over `registrations_`. -/
def State.NotEnumerating (s : State D) : Prop :=
  ∀ r todo ready fs, s.stack ≠ .enumerating r todo ready :: fs

theorem notEnumerating_of_inUserCode {s : State D} (h : s.inUserCode = true) : s.NotEnumerating := by
  intro r todo ready fs hs
  have huser := inUserCode_iff.mp h _ _ hs
  cases huser

theorem Signaled.socketEv {s : State D} (h : Signaled s) (hnot : s.NotEnumerating) {fd : Fd}
    (hfd : s.sockets.Unreported fd) : s.sockets.socketEv = true := by
  rcases (h fd hfd).2 with hev | ⟨r, todo, ready, fs, hs, -⟩
  · exact hev
  · exact absurd hs (hnot r todo ready fs)

/-- Outside the loop over `registrations_`, a step that makes no new record and keeps the event
    signaled, and whose new frames will not reset it. -/
theorem Signaled.keep {s s' : State D} (h : Signaled s) (hnot : s.NotEnumerating)
    (hsub : ∀ fd, s'.sockets.Unreported fd → s.sockets.Unreported fd)
    (hev : s.sockets.socketEv = true → s'.sockets.socketEv = true)
    (hstack : ∀ fd, s'.sockets.Unreported fd → s.stack.all (Frame.keepsSignalOf fd) = true →
      s'.stack.all (Frame.keepsSignalOf fd) = true) : Signaled s' :=
  fun fd hfd => ⟨hstack fd hfd (h fd (hsub fd hfd)).1, .inl (hev (h.socketEv hnot (hsub fd hfd)))⟩

/-! ## The socket calls and the enumeration -/

theorem unreported_wsaEventSelect {s : Sockets} {fd fd' : Fd} {mask : NetMask} {ok : Bool}
    (h : (s.wsaEventSelect fd' mask ok).Unreported fd) :
    s.Unreported fd ∧ (ok = true → fd ≠ fd') := by
  obtain ⟨hmem, hrec⟩ := h
  simp only [Sockets.wsaEventSelect] at hmem hrec
  cases ok with
  | false => exact ⟨⟨hmem, hrec⟩, by simp⟩
  | true =>
    have hne : fd ≠ fd' := by
      intro he
      subst he
      simp [NetworkEvents.none] at hrec
    rw [if_pos rfl, Function.update_of_ne hne] at hrec
    exact ⟨⟨hmem, hrec⟩, fun _ => hne⟩

/-- A socket call makes no new record: a new registration starts with its record cleared. -/
theorem unreported_socketCall {s : Sockets} {c : SocketCall} {out : Bool × Sockets} {fd : Fd}
    (hc : SocketStepped s c out) (h : out.2.Unreported fd) : s.Unreported fd := by
  cases hc with
  | refused => exact h
  | register hmem =>
    obtain ⟨⟨hreg, hrec⟩, hne⟩ := unreported_wsaEventSelect h
    exact ⟨((mem_insertBack hmem).mp hreg).resolve_right (hne rfl), hrec⟩
  | registerFailed => exact (unreported_wsaEventSelect h).1
  | unregister =>
    obtain ⟨hreg, hrec⟩ := (unreported_wsaEventSelect h).1
    exact ⟨(AList.mem_erase.mp hreg).2, hrec⟩
  | rearm =>
    obtain ⟨hreg, hrec⟩ := (unreported_wsaEventSelect h).1
    exact ⟨mem_modify.mp hreg, hrec⟩
  | notify => exact ⟨mem_modify.mp h.1, h.2⟩

theorem socketEv_socketCall {s : Sockets} {c : SocketCall} {out : Bool × Sockets}
    (hc : SocketStepped s c out) (h : s.socketEv = true) : out.2.socketEv = true := by
  cases hc with
  | notify => rfl
  | _ => exact h

/-- A successful enumeration of `fd'` clears its record and leaves the others. -/
theorem unreported_enumerateSocket {s : Sockets} {ready : List ReadyListEntry} {fd fd' : Fd}
    (h : (s.enumerateSocket ready fd' true).1.Unreported fd) : s.Unreported fd ∧ fd ≠ fd' := by
  simp only [Sockets.enumerateSocket, Bool.not_true, Bool.false_eq_true, if_false] at h
  split at h
  · rename_i hnone
    refine ⟨h, ?_⟩
    intro he
    subst he
    exact AList.lookup_eq_none.mp hnone h.1
  · have hcleared : ∀ {t : Sockets},
        t.registrations.keys = s.registrations.keys →
        t.recorded = Function.update s.recorded fd' .none →
        t.Unreported fd → s.Unreported fd ∧ fd ≠ fd' := by
      intro t hkeys hrec hx
      obtain ⟨hmem, hne⟩ := hx
      rw [hrec] at hne
      have hfd : fd ≠ fd' := by
        intro he
        subst he
        simp [NetworkEvents.none] at hne
      rw [Function.update_of_ne hfd] at hne
      exact ⟨⟨AList.mem_keys.mpr (hkeys ▸ AList.mem_keys.mp hmem), hne⟩, hfd⟩
    split at h
    · refine hcleared ?_ ?_ h
      · exact (dispatchSocketEvent_frame _ _ _ _).2.trans keys_modify
      · rw [(dispatchSocketEvent_frame _ _ _ _).1]
    · exact hcleared (t := _) keys_modify rfl h

/-! ## Steps -/

variable [AbslDuration D]

theorem signaled_frameStep {s s' : State D} {o : Outcome} {f : Frame D} {fs : List (Frame D)}
    (ho : o.enumOk = true) (hs : s.stack = f :: fs)
    (h : s.frameStep o fs f = some s') (hsig : Signaled s) : Signaled s' := by
  -- every frame but those of the socket branch: nothing is reset, and nothing will be
  have hquiet : s.NotEnumerating → s'.sockets = s.sockets →
      (s'.stack = fs ∨ ∃ g : Frame D, s'.stack = g :: fs ∧
        ∀ fd, s.sockets.Unreported fd → f.keepsSignalOf fd = true → g.keepsSignalOf fd = true) →
      Signaled s' := by
    intro hnot hsock hst
    refine hsig.keep hnot (by rw [hsock]; exact fun _ => id) (by rw [hsock]; exact id) fun fd hfd hall => ?_
    rw [hs, List.all_cons, Bool.and_eq_true] at hall
    rw [hsock] at hfd
    rcases hst with hs' | ⟨g, hs', hg⟩
    · rw [hs']; exact hall.2
    · rw [hs', List.all_cons, Bool.and_eq_true]
      exact ⟨hg fd hfd hall.1, hall.2⟩
  have hnot : (∀ r todo ready, f ≠ .enumerating r todo ready) → s.NotEnumerating := by
    intro hf r todo ready gs hgs
    rw [hs, List.cons.injEq] at hgs
    exact hf r todo ready hgs.1
  cases framed h with
  | wait =>
    refine hquiet (hnot (by simp)) (by rw [dispatch_eq]) ?_
    rcases dispatch_stack s o.wait fs with ⟨hd, -⟩ | ⟨hd, -⟩ | ⟨hd, -⟩ | ⟨hd, hkeys⟩ | hd
    · exact .inl hd
    · exact .inr ⟨_, hd, fun _ _ _ => rfl⟩
    · exact .inr ⟨_, hd, fun _ _ _ => rfl⟩
    · refine .inr ⟨_, hd, fun fd hfd _ => ?_⟩
      have hmem := AList.mem_keys.mp hfd.1
      rw [hkeys] at hmem
      cases hmem
    · refine .inr ⟨_, hd, fun fd hfd _ => ?_⟩
      have hmem := AList.mem_keys.mp hfd.1
      simp [Frame.keepsSignalOf, hmem]
  | enumerated =>
    intro fd hfd
    obtain ⟨hall, hev⟩ := hsig fd hfd
    rw [hs, List.all_cons, Bool.and_eq_true] at hall
    refine ⟨?_, .inl ?_⟩
    · rw [List.all_cons, Bool.and_eq_true]
      exact ⟨by simpa [Frame.keepsSignalOf] using hall.1, hall.2⟩
    · rcases hev with hev | ⟨r, todo, ready, gs, hgs, hmem⟩
      · exact hev
      · rw [hs, List.cons.injEq, Frame.enumerating.injEq] at hgs
        rw [← hgs.1.2.1] at hmem
        cases hmem
  | @enumerate r fd' todo ready =>
    -- the event is reset; what is recorded is what the rest of the loop will come to
    intro fd hfd
    rw [ho] at hfd
    obtain ⟨hfd, hne⟩ := unreported_enumerateSocket hfd
    obtain ⟨hall, -⟩ := hsig fd hfd
    rw [hs, List.all_cons, Bool.and_eq_true] at hall
    have hmem : fd ∈ todo := by
      have hkeeps := hall.1
      simp only [Frame.keepsSignalOf, List.contains_cons, List.isEmpty_cons, Bool.false_and,
        Bool.or_false, Bool.or_eq_true, beq_iff_eq, List.contains_iff_mem] at hkeeps
      exact hkeeps.resolve_left hne
    refine ⟨?_, .inr ⟨_, _, _, _, rfl, hmem⟩⟩
    rw [List.all_cons, Bool.and_eq_true]
    exact ⟨by simp [Frame.keepsSignalOf, hmem], hall.2⟩
  | @close r =>
    intro fd hfd
    have hev : s.sockets.socketEv = true :=
      hsig.socketEv (hnot (by simp)) (show s.sockets.Unreported fd from hfd)
    obtain ⟨hall, -⟩ := hsig fd hfd
    rw [hs, List.all_cons, Bool.and_eq_true] at hall
    have hr : r ≠ .socket := by simpa [Frame.keepsSignalOf] using hall.1
    exact ⟨hall.2, .inl (by simp [hr, hev])⟩
  | inlineDone => exact hquiet (hnot (by simp)) rfl (.inl rfl)
  | batchDone => exact hquiet (hnot (by simp)) rfl (.inl rfl)
  | start =>
    rw [startTask_eq] at hquiet ⊢
    exact hquiet (hnot (by simp)) rfl (.inr ⟨_, rfl, fun _ _ _ => rfl⟩)
  | finish =>
    rw [finishTask_eq] at hquiet ⊢
    exact hquiet (hnot (by simp)) rfl (.inr ⟨_, rfl, fun _ _ _ => rfl⟩)
  | destroy =>
    rw [destroyTask_eq] at hquiet ⊢
    exact hquiet (hnot (by simp)) rfl (.inr ⟨_, rfl, fun _ _ _ => rfl⟩)
  | popDue _ hg =>
    refine hquiet (hnot (by simp)) rfl (.inr ⟨_, rfl, fun _ _ _ => ?_⟩)
    rcases hg with ⟨rfl, -⟩ | ⟨rfl, -⟩ <;> rfl
  | noTimerTask | schedule => exact hquiet (hnot (by simp)) rfl (.inr ⟨_, rfl, fun _ _ _ => rfl⟩)
  | callbacksDone | callback | skip | callbackDone =>
    exact hquiet (hnot (by simp)) rfl (.inr ⟨_, rfl, fun _ _ => id⟩)
  | _ => exact hquiet (hnot (by simp)) rfl (.inr ⟨_, rfl, fun _ _ _ => rfl⟩)

theorem signaled_step {s s' : State D} {a : Action D} (hc : Control s) (hok : SocketTiming s a)
    (h : step s a = some s') (hsig : Signaled s) : Signaled s' := by
  obtain ⟨ho, harr⟩ := hok
  -- a frame is only added above user code, and none of the added frames resets the event
  have hpush : ∀ {s' : State D} {f : Frame D}, s.inUserCode = true → s'.sockets = s.sockets →
      s'.stack = f :: s.stack → (∀ fd, f.keepsSignalOf fd = true) → Signaled s' := by
    intro s' f huser hsock hs' hf
    refine hsig.keep (notEnumerating_of_inUserCode huser) (by rw [hsock]; exact fun _ => id)
      (by rw [hsock]; exact id) fun fd _ hall => ?_
    rw [hs', List.all_cons, Bool.and_eq_true]
    exact ⟨hf fd, hall⟩
  cases step_cases h with
  | call hm he => rw [enter_frame he]; exact hsig
  | resume hr =>
    have hsock : s'.sockets = s.sockets := by rw [resume_frame hr]
    rcases resume_stack_cases hc hr with hs | ⟨c, -, -, huser, hs⟩
    · simpa only [Signaled, hsock, hs] using hsig
    · exact hpush huser hsock hs fun _ => rfl
  | runEventLoopOnce hm => exact hpush ((mayCall_iff.mp hm).2 rfl) rfl rfl fun _ => rfl
  | processPendingTasks hm => exact hpush ((mayCall_iff.mp hm).2 rfl) rfl rfl fun _ => rfl
  | socket hm =>
    have hstep := socket_cases s.sockets s.isQuitting ‹SocketCall›
    exact hsig.keep (notEnumerating_of_inUserCode ((mayCall_iff.mp hm).2 rfl))
      (fun _ => unreported_socketCall hstep) (socketEv_socketCall hstep) fun _ _ => id
  | loop hout hs hf => exact signaled_frameStep ho hs hf hsig
  | @arrive fd' event e =>
    intro fd hfd
    refine ⟨?_, .inl rfl⟩
    by_cases hne : fd = fd'
    · subst hne
      exact harr hfd.1
    · refine (hsig fd ⟨hfd.1, ?_⟩).1
      simpa [Sockets.record, Function.update_of_ne hne] using hfd.2
  | begin | wakeUp | expire | tick => exact hsig

theorem signaled_of_reaches {s : State D} (h : ReachesIf SocketTiming s) : Signaled s :=
  h.invariant_with (fun _ hr => control_of_reaches hr)
    (fun _ _ _ hok hstep hc hsig => signaled_step hc hok hstep hsig)
    (by rintro fd ⟨hmem, -⟩; exact absurd hmem (AList.notMem_empty fd))

/-- **No lost socket wake-up** in a run whose events arrive in time: in a wait, a registered socket
    with a record that no enumeration has returned has `socket_ev_` signaled. -/
theorem no_lost_socket_wakeUp {s : State D} (h : ReachesIf SocketTiming s) {timeoutMs : BitVec 32}
    {fs : List (Frame D)} (hs : s.stack = .waiting timeoutMs :: fs) :
    ∀ fd, s.sockets.Unreported fd → s.sockets.socketEv = true := by
  have hnot : s.NotEnumerating := by
    intro r todo ready gs hgs
    rw [hs] at hgs
    cases hgs
  exact fun fd hfd => (signaled_of_reaches h).socketEv hnot hfd

/-- Two sockets wait for their connections. That of socket 1 completes in the wait, that of socket 2
    before the enumeration comes to it; another event of socket 1 is recorded in the next wait. -/
def inTimeRun : List (Action Ticks) :=
  [.begin, .socket (.register 1 kEventWritable 0 true), .socket (.register 2 kEventWritable 0 true),
    .runEventLoopOnce .posInf, .arrive 1 fdConnect 0, .loop { wait := .socket }, .loop {},
    .arrive 2 fdConnect 0, .loop {}, .loop {}, .loop {}, .loop {}, .loop {}, .loop {}, .loop {}, .loop {},
    .runEventLoopOnce .posInf, .arrive 1 fdConnect 0]

theorem no_lost_socket_wakeUp_inTime :
    ∃ s : State Ticks, ReachesIf SocketTiming s ∧ s.stack = [.waiting infinite] ∧
      s.called.length = 2 ∧ s.sockets.Unreported 1 ∧ s.sockets.socketEv = true := by
  have hrun : (runWhile step SocketTiming State.init inTimeRun).isSome = true := by decide
  have hreach := reaches_get hrun
  have hrec : Sockets.Unreported ((runWhile step SocketTiming State.init inTimeRun).get hrun).sockets 1 :=
    ⟨AList.lookup_isSome.mp rfl, fun h => absurd (show (0x10 : NetMask) = 0 from h) (by decide)⟩
  exact ⟨_, hreach, rfl, rfl, hrec, no_lost_socket_wakeUp hreach rfl 1 hrec⟩

/-- The connection of socket 2 completes while the callback of socket 1 runs. -/
def behindEnumerationRun : List (Action Ticks) :=
  [.begin, .socket (.register 1 kEventWritable 0 true), .socket (.register 2 kEventWritable 0 true),
    .runEventLoopOnce .posInf, .arrive 1 fdConnect 0, .loop { wait := .socket }, .loop {}, .loop {},
    .loop {}, .loop {}, .arrive 2 fdConnect 0, .loop {}, .loop {}, .loop {},
    .runEventLoopOnce .posInf]

/-- **A wake-up is lost**: the reset at the end of the iteration takes back the signal of an event
    that was recorded during the callbacks. -/
theorem socket_wakeUp_lost :
    ¬∀ s : State Ticks, ReachesIf (fun _ a => EnumSucceeds a) s →
      ∀ timeoutMs fs, s.stack = .waiting timeoutMs :: fs →
        ∀ fd, s.sockets.Unreported fd → s.sockets.socketEv = true := by
  intro hclaim
  have hrun : (runWhile step (fun _ a => EnumSucceeds a) State.init behindEnumerationRun).isSome =
      true := by decide
  have hrec : Sockets.Unreported ((runWhile step (fun _ a => EnumSucceeds a) State.init
      behindEnumerationRun).get hrun).sockets 2 :=
    ⟨AList.lookup_isSome.mp rfl, fun h => absurd (show (0x10 : NetMask) = 0 from h) (by decide)⟩
  have hev : false = true := hclaim _ (reaches_get hrun) _ _ rfl 2 hrec
  cases hev

end IoBase
