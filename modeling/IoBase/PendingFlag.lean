import IoBase.ArtificialRequest

/- The flag for artificial notifications.

   `has_artificial_events_pending_` is one flag for the bits of all registrations:
   with it set, an iteration that times out processes the sockets all the same. It is
   set with the first bit and cleared after the loop over `registrations_`, which
   clears the bits socket by socket but passes over one whose `WSAEnumNetworkEvents`
   fails. While the loop is being run, the bits still set are those of sockets it has
   yet to come to (`FlagKept`).

   * `flag_covers_pending`: the flag is set while some bit is, in a run in which no
     enumeration of a socket with such bits fails.
   * `flag_lost`: one that fails. -/
namespace IoBase
open Transition State OrderedMap

variable {D : Type}

/-- The registration of `fd` has an artificial notification pending. -/
def Sockets.Pending (s : Sockets) (fd : Fd) : Prop :=
  ∃ r, s.registrations.lookup fd = some r ∧ r.artificiallyNotifyAtNextIteration ≠ 0

/-- The step of the frame does not fail to enumerate a socket with an artificial notification pending. -/
def Frame.EnumeratesPending (sockets : Sockets) (enumOk : Bool) : Frame D → Prop
  | .enumerating _ (fd :: _) _ =>
    enumOk = true ∨ ∀ r ∈ sockets.registrations.lookup fd, r.artificiallyNotifyAtNextIteration = 0
  | _ => True

/-- No enumeration fails for a socket with an artificial notification pending. -/
def EnumeratesPending (s : State D) : Action D → Prop
  | .loop o => ∀ f ∈ s.stack.head?, f.EnumeratesPending s.sockets o.enumOk
  | _ => True

instance (sockets : Sockets) (enumOk : Bool) : (f : Frame D) → Decidable (f.EnumeratesPending sockets enumOk)
  | .enumerating _ (fd :: _) _ => inferInstanceAs (Decidable (_ ∨ ∀ r ∈ sockets.registrations.lookup fd, _))
  | .enumerating _ [] _ | .waiting _ | .woken | .draining | .batch _ | .running .. | .ran .. | .timerFired
  | .due _ | .runningDue _ | .scheduling | .callbacks .. | .inCallback .. | .closing _
  | .inlineCall _ => .isTrue trivial

instance (s : State D) : (a : Action D) → Decidable (EnumeratesPending s a)
  | .loop o => inferInstanceAs (Decidable (∀ f ∈ s.stack.head?, f.EnumeratesPending s.sockets o.enumOk))
  | .begin | .wakeUp | .call .. | .resume .. | .runEventLoopOnce _ | .processPendingTasks
  | .socket _ | .arrive .. | .expire _ | .tick _ => .isTrue trivial

/-! ## What sets and clears the bits -/

theorem not_pending_iff {s : Sockets} {fd : Fd} : ¬s.Pending fd ↔ ∀ r ∈ s.registrations.lookup fd,
    r.artificiallyNotifyAtNextIteration = 0 := by
  simp only [Sockets.Pending, not_exists, not_and, not_not, Option.mem_def]

/-- After a socket call the flag is set, or no more notifications are pending than before. -/
theorem pending_socketCall {s : Sockets} {c : SocketCall} {out : Bool × Sockets} (hc : SocketStepped s c out) :
    out.2.hasArtificialEventsPending = true ∨
      out.2.hasArtificialEventsPending = s.hasArtificialEventsPending ∧
        ∀ fd, out.2.Pending fd → s.Pending fd := by
  cases hc with
  | refused | registerFailed => exact .inr ⟨rfl, fun _ => id⟩
  | @register fd' events listener hmem =>
    refine .inr ⟨rfl, fun fd hx => ?_⟩
    obtain ⟨r, hr, hbits⟩ := hx
    simp only [Sockets.wsaEventSelect, lookup_insertBack hmem] at hr
    split at hr
    · cases hr
      exact absurd rfl hbits
    · exact ⟨r, hr, hbits⟩
  | @unregister fd' =>
    refine .inr ⟨rfl, fun fd hx => ?_⟩
    obtain ⟨r, hr, hbits⟩ := hx
    by_cases he : fd = fd'
    · subst he
      simp [Sockets.wsaEventSelect] at hr
    · simp only [Sockets.wsaEventSelect, AList.lookup_erase_ne he] at hr
      exact ⟨r, hr, hbits⟩
  | rearm =>
    refine .inr ⟨rfl, fun fd hx => ?_⟩
    obtain ⟨r, hr, hbits⟩ := hx
    simp only [Sockets.wsaEventSelect, lookup_modify, Option.map_eq_some_iff] at hr
    obtain ⟨r', hr', rfl⟩ := hr
    refine ⟨r', hr', ?_⟩
    split at hbits <;> exact hbits
  | notify => exact .inl rfl

/-- An enumeration that succeeds clears the bits of its socket. -/
theorem enumerateSocket_clears (s : Sockets) (ready : List ReadyListEntry) (fd : Fd) :
    ∃ f : Registration → Registration, (∀ r, (f r).artificiallyNotifyAtNextIteration = 0) ∧
      (s.enumerateSocket ready fd true).1.registrations = modify fd f s.registrations := by
  unfold Sockets.enumerateSocket
  cases hr : s.registrations.lookup fd with
  | none =>
    refine ⟨fun r => { r with artificiallyNotifyAtNextIteration := 0 }, fun _ => rfl, ?_⟩
    rw [modify_eq_self fun v hv => by rw [hr] at hv; cases hv]
    rfl
  | some r =>
    simp only [Bool.not_true, Bool.false_eq_true, if_false]
    split
    · unfold Sockets.dispatchSocketEvent
      split
      · exact ⟨_, fun _ => rfl, rfl⟩
      · simp only
        split
        · exact ⟨_, fun _ => rfl, rfl⟩
        · exact ⟨_, fun _ => rfl, modify_modify⟩
    · exact ⟨_, fun _ => rfl, rfl⟩

/-- After an enumeration, other sockets have the notifications they had, and its own has none unless
    the enumeration has failed. -/
theorem pending_enumerateSocket {s : Sockets} {ready : List ReadyListEntry} {fd fd' : Fd} {enumOk : Bool}
    (h : (s.enumerateSocket ready fd enumOk).1.Pending fd') :
    s.Pending fd' ∧ (fd' = fd → enumOk = false) := by
  cases enumOk with
  | false => exact ⟨h, fun _ => rfl⟩
  | true =>
    obtain ⟨r, hr, hbits⟩ := h
    obtain ⟨f, hf, hmodify⟩ := enumerateSocket_clears s ready fd
    rw [hmodify, lookup_modify, Option.map_eq_some_iff] at hr
    obtain ⟨r', hr', rfl⟩ := hr
    by_cases he : fd' = fd
    · rw [if_pos he] at hbits
      exact absurd (hf r') hbits
    · rw [if_neg he] at hbits
      exact ⟨⟨r', hr', hbits⟩, fun h => absurd h he⟩

/-! ## Runs -/

/-- The flag covers every pending notification; in the loop over `registrations_` the pending ones are
    those of sockets still to come. -/
structure FlagKept (s : State D) : Prop where
  flag : ∀ fd, s.sockets.Pending fd → s.sockets.hasArtificialEventsPending = true
  ahead : ∀ w todo ready fs, s.stack = .enumerating w todo ready :: fs →
    ∀ fd, s.sockets.Pending fd → fd ∈ todo

/-- A step that leaves `registrations_` and the flag alone and does not enter the loop. -/
theorem FlagKept.congr {s s' : State D} (hk : FlagKept s)
    (hregistrations : s'.sockets.registrations = s.sockets.registrations)
    (hflag : s'.sockets.hasArtificialEventsPending = s.sockets.hasArtificialEventsPending)
    (hstack : ∀ w todo ready fs, s'.stack = .enumerating w todo ready :: fs → s.stack = s'.stack) :
    FlagKept s' := by
  have hpending : ∀ fd, s'.sockets.Pending fd → s.sockets.Pending fd := by
    intro fd hx
    rwa [Sockets.Pending, hregistrations] at hx
  constructor
  · intro fd hx
    rw [hflag]
    exact hk.flag fd (hpending fd hx)
  · intro w todo ready fs hs fd hx
    exact hk.ahead w todo ready fs ((hstack w todo ready fs hs).trans hs) fd (hpending fd hx)

variable [AbslDuration D]

theorem flagKept_frameStep {s s' : State D} {o : Outcome} {f : Frame D} {fs : List (Frame D)}
    (hc : Control s) (hs : s.stack = f :: fs) (hok : EnumeratesPending s (.loop o))
    (h : s.frameStep o fs f = some s') (hk : FlagKept s) : FlagKept s' := by
  -- no frame below is in the loop
  have hbelow : ∀ w todo ready gs, fs ≠ .enumerating w todo ready :: gs := by
    intro w todo ready gs he
    have huser := hc.userCode_of_mem hs (.enumerating w todo ready) (by rw [he]; exact List.mem_cons_self)
    cases huser
  by_cases hf : f.enumerates = true
  · cases framed h with
    | wait =>
      rw [dispatch_eq]
      refine ⟨hk.flag, fun w todo ready gs hd fd hx => ?_⟩
      rcases dispatch_stack s o.wait fs with he | he | he | he | he
      · exact absurd (he.1.symm.trans hd) (hbelow _ _ _ _)
      · cases he.1.symm.trans hd
      · cases he.1.symm.trans hd
      · cases he.1.symm.trans hd
      · cases he.symm.trans hd
        obtain ⟨r, hr, -⟩ := hx
        exact AList.mem_keys.mp (AList.lookup_isSome.mp (by rw [hr]; rfl))
    | enumerated =>
      have hnone : ∀ fd, ¬s.sockets.Pending fd := fun fd hx =>
        absurd (hk.ahead _ _ _ _ hs fd hx) List.not_mem_nil
      exact ⟨fun fd hx => absurd hx (hnone fd), fun w todo ready gs he => by cases he⟩
    | @enumerate w fd todo ready =>
      have hnext := hok (.enumerating w (fd :: todo) ready) (by rw [hs]; rfl)
      constructor
      · intro fd' hx
        rw [enumerateSocket_frame]
        exact hk.flag fd' (pending_enumerateSocket hx).1
      · intro w' todo' ready' gs he fd' hx
        obtain ⟨hx, hfailed⟩ := pending_enumerateSocket hx
        cases he
        rcases List.mem_cons.mp (hk.ahead _ _ _ _ hs fd' hx) with hsame | hmem
        · rcases hnext with hok | hnone
          · exact absurd (hok.symm.trans (hfailed hsame)) (by simp)
          · exact absurd (hsame ▸ hx) (not_pending_iff.mpr hnone)
        · exact hmem
    | _ => cases hf
  · obtain ⟨hsockets, hnew⟩ := frameStep_enumerates h (by simpa using hf)
    refine hk.congr (by rw [hsockets]) (by rw [hsockets]) fun w todo ready gs he => ?_
    rcases hnew (.enumerating w todo ready) (by rw [he]; exact List.mem_cons_self) with hmem | hmem
    · cases hc.userCode_of_mem hs _ hmem
    · cases hmem

theorem flagKept_step {s s' : State D} {a : Action D} (hc : Control s) (hok : EnumeratesPending s a)
    (h : step s a = some s') (hk : FlagKept s) : FlagKept s' := by
  cases step_cases h with
  | call hm he => rw [enter_frame he]; exact hk.congr rfl rfl fun _ _ _ _ _ => rfl
  | resume hr =>
    refine hk.congr (by rw [resume_frame hr]) (by rw [resume_frame hr]) fun w todo ready fs hs => ?_
    rcases resume_stack_cases hc hr with hstack | ⟨c, -, -, -, hstack⟩
    · exact hstack.symm
    · cases hstack.symm.trans hs
  | runEventLoopOnce | processPendingTasks => exact hk.congr rfl rfl fun _ _ _ _ hs => by cases hs
  | @socket c hm =>
    refine ⟨fun fd hx => ?_, fun w todo ready fs hs => ?_⟩
    · rcases pending_socketCall (socket_cases s.sockets s.isQuitting c) with hset | ⟨hsame, hold⟩
      · exact hset
      · rw [hsame]
        exact hk.flag fd (hold fd hx)
    · have huser := inUserCode_iff.mp ((mayCall_iff.mp hm).2 rfl) _ _ hs
      cases huser
  | loop hout hs hf => exact flagKept_frameStep hc hs hok hf hk
  | begin | wakeUp | arrive | expire | tick => exact hk.congr rfl rfl fun _ _ _ _ _ => rfl

omit [AbslDuration D] in
theorem flagKept_init : FlagKept (State.init : State D) where
  flag := by
    intro fd hx
    obtain ⟨r, hr, -⟩ := hx
    cases hr
  ahead := by
    intro w todo ready fs hs
    cases hs

/-- **The flag covers every pending notification** in a run in which no enumeration of a socket with one
    fails; an iteration that times out then processes the sockets. -/
theorem flag_covers_pending {s : State D} (h : ReachesIf EnumeratesPending s) {fd : Fd}
    (hpending : s.sockets.Pending fd) :
    s.sockets.hasArtificialEventsPending = true ∧
      ∀ fs, s.dispatch .timeout fs = s.processSocketEvents .timeout fs := by
  have hkept : FlagKept s :=
    h.invariant_with (fun _ hr => control_of_reaches hr)
      (fun _ _ _ hok hstep hc hk => flagKept_step hc hok hstep hk) flagKept_init
  have hflag := hkept.flag fd hpending
  exact ⟨hflag, fun fs => by rw [dispatch, if_pos hflag]⟩

/-- A listener asks for a notification of another socket while the notifications before it are handled. -/
theorem flag_covers_pending_inCallback :
    ∃ s : State Ticks, ReachesIf EnumeratesPending s ∧ s.called = [⟨1, 1, 0, kEventReadable⟩] ∧ s.sockets.Pending 2 ∧
      s.sockets.hasArtificialEventsPending = true ∧
      ∀ fs, s.dispatch .timeout fs = s.processSocketEvents .timeout fs := by
  have hrun : (runWhile step EnumeratesPending (State.init : State Ticks)
      [.begin, .socket (.register 1 kEventReadable 7 true), .socket (.register 2 kEventReadable 8 true),
        .socket (.notify 1 kEventReadable), .runEventLoopOnce .posInf, .loop { wait := .socket }, .loop {},
        .loop { enumOk := false }, .loop {}, .loop {},
        .socket (.notify 2 kEventReadable)]).isSome = true := by decide
  have hreach := reaches_get hrun
  have hpending : ((runWhile step EnumeratesPending (State.init : State Ticks) _).get hrun).sockets.Pending 2 :=
    ⟨⟨1, kEventReadable, some 8, kEventReadable⟩, rfl, by decide⟩
  exact ⟨_, hreach, rfl, hpending, flag_covers_pending hreach hpending⟩

/-- The enumeration of the socket that is to be notified fails. -/
theorem flag_lost : ¬∀ s : State Ticks, Reachable s → ∀ fd, s.sockets.Pending fd →
    s.sockets.hasArtificialEventsPending = true := by
  intro hclaim
  have hrun : (runWhile step Always (State.init : State Ticks)
      [.begin, .socket (.register 1 kEventReadable 7 true), .socket (.notify 1 kEventReadable),
        .runEventLoopOnce .posInf, .loop { wait := .socket }, .loop { enumOk := false },
        .loop {}]).isSome = true := by decide
  have hflag : false = true :=
    hclaim _ (reaches_get hrun) 1 ⟨⟨0, kEventReadable, some 7, kEventReadable⟩, rfl, by decide⟩
  cases hflag

end IoBase
