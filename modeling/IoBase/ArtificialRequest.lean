import IoBase.SocketInvariant

/- The request that an artificial notification leaves, until the loop waits again.

   `ArtificiallyNotifyEvent` notes the events on the registration and sets the
   pending flag. Until an enumeration comes to the socket the request stands
   (`Sockets.Requested`), whatever else is done to the sockets short of unregistering
   it; and no enumeration comes before the next wait of the loop, as there is none on
   the stack when user code makes the request (`Coming`). -/
namespace IoBase
open Transition State OrderedMap

variable {D : Type}

/-! ## The notification on the sockets -/

/-- `fd` is registered as the object `reg`. -/
def Sockets.RegisteredAs (fd : Fd) (reg : Nat) (s : Sockets) : Prop :=
  ∃ r, s.registrations.lookup fd = some r ∧ r.id = reg

/-- A notification of `events` is noted on the registration `reg` of `fd`, which is armed for them. -/
def Sockets.Requested (fd : Fd) (reg : Nat) (events : EventMask) (s : Sockets) : Prop :=
  s.hasArtificialEventsPending = true ∧ ∃ r, s.registrations.lookup fd = some r ∧ r.id = reg ∧
    Within events r.events ∧ Within events r.artificiallyNotifyAtNextIteration

theorem Sockets.Requested.registeredAs {fd : Fd} {reg : Nat} {events : EventMask} {s : Sockets}
    (h : s.Requested fd reg events) : s.RegisteredAs fd reg := by
  obtain ⟨-, r, hr, hid, -⟩ := h
  exact ⟨r, hr, hid⟩

/-- The call does not unregister `fd`. -/
def SocketCall.keeps (fd : Fd) : SocketCall → Prop
  | .unregister fd' _ => fd' ≠ fd
  | _ => True

/-- A socket call that does not unregister `fd` only adds to its registration. -/
theorem lookup_socketCall {s : Sockets} {c : SocketCall} {out : Bool × Sockets} {fd : Fd}
    {r : Registration} (hc : SocketStepped s c out) (hkeeps : c.keeps fd)
    (hr : s.registrations.lookup fd = some r) :
    ∃ r', out.2.registrations.lookup fd = some r' ∧ r'.id = r.id ∧ Within r.events r'.events ∧
      Within r.artificiallyNotifyAtNextIteration r'.artificiallyNotifyAtNextIteration := by
  have hsame : ∃ r', s.registrations.lookup fd = some r' ∧ r'.id = r.id ∧
      Within r.events r'.events ∧
      Within r.artificiallyNotifyAtNextIteration r'.artificiallyNotifyAtNextIteration :=
    ⟨r, hr, rfl, Within.refl, Within.refl⟩
  cases hc with
  | refused | registerFailed => exact hsame
  | @register fd' events listener hmem =>
    have hne : fd ≠ fd' := by
      intro he
      subst he
      exact hmem (AList.lookup_isSome.mp (by simp [hr]))
    simpa [Sockets.wsaEventSelect, lookup_insertBack hmem, hne] using hsame
  | @unregister fd' =>
    have hne : fd ≠ fd' := fun h => hkeeps h.symm
    simpa [Sockets.wsaEventSelect, AList.lookup_erase_ne hne] using hsame
  | rearm =>
    refine ⟨_, lookup_modify_of_lookup hr, ?_⟩
    split
    · exact ⟨rfl, Within.refl.or_left, Within.refl⟩
    · exact ⟨rfl, Within.refl, Within.refl⟩
  | notify =>
    refine ⟨_, lookup_modify_of_lookup hr, ?_⟩
    split
    · exact ⟨rfl, Within.refl, Within.refl.or_left⟩
    · exact ⟨rfl, Within.refl, Within.refl⟩

theorem requested_socketCall {s : Sockets} {c : SocketCall} {out : Bool × Sockets} {fd : Fd} {reg : Nat}
    {events : EventMask} (hc : SocketStepped s c out) (hkeeps : c.keeps fd)
    (h : s.Requested fd reg events) : out.2.Requested fd reg events := by
  obtain ⟨hpending, r, hr, hid, hevents, hartificial⟩ := h
  obtain ⟨r', hr', hid', hevents', hartificial'⟩ := lookup_socketCall hc hkeeps hr
  refine ⟨?_, r', hr', hid'.trans hid, hevents.trans hevents', hartificial.trans hartificial'⟩
  cases hc with
  | notify => rfl
  | _ => exact hpending

/-- `ArtificiallyNotifyEvent` returns true for a registered socket, and leaves the request. -/
theorem requested_notify {s : Sockets} {quitting : Bool} {fd : Fd} {events : EventMask}
    {r : Registration} (htrue : (s.artificiallyNotifyEvent quitting fd events).1 = true)
    (hr : s.registrations.lookup fd = some r) (harmed : Within events r.events) :
    (s.artificiallyNotifyEvent quitting fd events).2.Requested fd r.id events := by
  unfold Sockets.artificiallyNotifyEvent at htrue ⊢
  cases quitting with
  | true => cases htrue
  | false =>
    simp only [Bool.false_eq_true, if_false, hr]
    refine ⟨rfl, _, lookup_modify_of_lookup hr, ?_⟩
    rw [if_pos rfl]
    exact ⟨rfl, harmed, Within.refl.or_right⟩

/-! ## The enumeration -/

/-- An entry for `fd`, registered as `reg`, with all of `events`. -/
def ReadyListEntry.Covers (fd : Fd) (reg : Nat) (events : EventMask) (entry : ReadyListEntry) : Prop :=
  entry.fd = fd ∧ entry.registration = reg ∧ Within events entry.events

/-- An enumeration of another socket leaves the request. -/
theorem requested_enumerateSocket {s : Sockets} {ready : List ReadyListEntry} {fd fd' : Fd} {reg : Nat}
    {events : EventMask} {enumOk : Bool} (hne : fd ≠ fd') (h : s.Requested fd reg events) :
    (s.enumerateSocket ready fd' enumOk).1.Requested fd reg events := by
  obtain ⟨hpending, r, hr, hrest⟩ := h
  obtain ⟨f, -, hmodify⟩ := enumerateSocket_registrations s ready fd' enumOk
  refine ⟨by rw [enumerateSocket_frame]; exact hpending, r, ?_, hrest⟩
  rw [hmodify, lookup_modify_ne hne, hr]

theorem registeredAs_kept (fd : Fd) (reg : Nat) :
    SocketsKept (Sockets.RegisteredAs fd reg) (SocketCall.keeps fd) where
  call := by
    intro s c out hkeeps hstep hx
    obtain ⟨r, hr, hid⟩ := hx
    obtain ⟨r', hr', hid', -⟩ := lookup_socketCall hstep hkeeps hr
    exact ⟨r', hr', hid'.trans hid⟩
  enumerate := by
    intro s ready fd' enumOk hx
    obtain ⟨r, hr, hid⟩ := hx
    obtain ⟨f, hf, hmodify⟩ := enumerateSocket_registrations s ready fd' enumOk
    refine ⟨_, by rw [hmodify, lookup_modify_of_lookup hr], ?_⟩
    split
    · exact (hf r).1.trans hid
    · exact hid
  pending := fun _ h => h
  event := fun _ _ h => h
  record := fun _ _ _ _ h => h

/-- An enumeration only adds to the ready list. -/
theorem mem_enumerateSocket {s : Sockets} {ready : List ReadyListEntry} {fd : Fd} {enumOk : Bool}
    {entry : ReadyListEntry} (h : entry ∈ ready) : entry ∈ (s.enumerateSocket ready fd enumOk).2 := by
  unfold Sockets.enumerateSocket Sockets.dispatchSocketEvent
  grind

/-- The enumeration of `fd` puts the events asked for on the ready list. -/
theorem covers_enumerateSocket {s : Sockets} {ready : List ReadyListEntry} {fd : Fd} {reg : Nat}
    {events : EventMask} (hne : events ≠ 0) (hkinds : Within events allEvents)
    (h : s.Requested fd reg events) :
    ∃ entry ∈ (s.enumerateSocket ready fd true).2, entry.Covers fd reg events := by
  obtain ⟨-, r, hr, hid, hevents, hartificial⟩ := h
  have hrevents : Within ((getPollMask events).setWidth 16) (toRevents (s.recorded fd) |||
      (getPollMask r.artificiallyNotifyAtNextIteration).setWidth 16) :=
    (getPollMask_mono hartificial).setWidth.or_right
  obtain ⟨hmask, hcovered⟩ := within_dispatched hne hkinds hrevents hevents
  have hrevents0 : toRevents (s.recorded fd) |||
      (getPollMask r.artificiallyNotifyAtNextIteration).setWidth 16 ≠ 0 := by
    intro h0
    rw [h0] at hmask
    exact hmask BitVec.zero_and
  have hlookup : (modify fd (fun r => { r with artificiallyNotifyAtNextIteration := 0 })
      s.registrations).lookup fd = some { r with artificiallyNotifyAtNextIteration := 0 } := by
    rw [lookup_modify_of_lookup hr, if_pos rfl]
  simp only [Sockets.enumerateSocket, Bool.not_true, Bool.false_eq_true, if_false, hr, ne_eq, hrevents0,
    not_false_eq_true, if_true, Sockets.dispatchSocketEvent, hlookup, hmask]
  exact ⟨_, List.mem_append_right _ (List.mem_singleton.mpr rfl), rfl, hid, hcovered⟩

/-! ## Until the wait -/

/-- The action neither unregisters `fd` nor lets an enumeration fail. -/
def Action.keeps (fd : Fd) : Action D → Prop
  | .socket c => c.keeps fd
  | .loop o => o.enumOk = true
  | _ => True

instance (fd : Fd) : (c : SocketCall) → Decidable (c.keeps fd)
  | .unregister fd' _ => inferInstanceAs (Decidable (fd' ≠ fd))
  | .register _ _ _ _ | .rearm _ _ _ | .notify _ _ => .isTrue trivial

instance (fd : Fd) : (a : Action D) → Decidable (a.keeps fd)
  | .socket c => inferInstanceAs (Decidable (c.keeps fd))
  | .loop o => inferInstanceAs (Decidable (o.enumOk = true))
  | .begin | .wakeUp | .call .. | .resume .. | .runEventLoopOnce _ | .processPendingTasks
  | .arrive .. | .expire _ | .tick _ => .isTrue trivial

/-- The frame is in the loop over `registrations_`, or may yet come to it. -/
def Frame.enumerates : Frame D → Bool
  | .waiting _ => true
  | .enumerating _ _ _ => true
  | _ => false

theorem Frame.enumerates_of_userCode {f : Frame D} (h : f.userCode = true) : f.enumerates = false := by
  cases f with
  | waiting | enumerating => cases h
  | _ => rfl

variable [AbslDuration D]

/-- Away from the loop over `registrations_` only `socket_ev_` changes, and that loop is not entered. -/
theorem frameStep_enumerates {s s' : State D} {o : Outcome} {fs : List (Frame D)} {f : Frame D}
    (h : s.frameStep o fs f = some s') (hf : f.enumerates = false) :
    s'.sockets = { s.sockets with socketEv := s'.sockets.socketEv } ∧
      ∀ g ∈ s'.stack, g ∈ fs ∨ g.enumerates = false := by
  have htop : ∀ {g : Frame D}, g.enumerates = false → ∀ g' ∈ g :: fs, g' ∈ fs ∨ g'.enumerates = false := by
    intro g hg g' hg'
    rcases List.mem_cons.mp hg' with rfl | hmem
    · exact .inr hg
    · exact .inl hmem
  cases framed h with
  | wait | enumerate | enumerated => cases hf
  | start => rw [startTask_eq]; exact ⟨rfl, htop rfl⟩
  | finish => rw [finishTask_eq]; exact ⟨rfl, htop rfl⟩
  | destroy => rw [destroyTask_eq]; exact ⟨rfl, htop rfl⟩
  | popDue _ hg => refine ⟨rfl, ?_⟩; rcases hg with ⟨rfl, -⟩ | ⟨rfl, -⟩ <;> exact htop rfl
  | batchDone | close | inlineDone => exact ⟨rfl, fun g hg => .inl hg⟩
  | _ => exact ⟨rfl, htop rfl⟩

/-- A request made when `k` calls of `RunEventLoopOnce` had begun, up to the wait of the next one. -/
structure Coming (fd : Fd) (reg : Nat) (events : EventMask) (k : Nat) (s : State D) : Prop where
  control : Control s
  iterations : k ≤ s.iterations
  before : s.iterations = k →
    s.sockets.Requested fd reg events ∧ ∀ f ∈ s.stack, f.enumerates = false
  inWait : s.iterations = k + 1 → ∀ timeoutMs fs, s.stack = .waiting timeoutMs :: fs →
    s.sockets.Requested fd reg events

theorem coming_step {fd : Fd} {reg : Nat} {events : EventMask} {k : Nat} {s s' : State D} {a : Action D}
    (hok : a.keeps fd) (h : step s a = some s') (hs : Coming fd reg events k s) :
    Coming fd reg events k s' := by
  have hcontrol := control_step hs.control h
  -- a step that leaves the loop thread where it is
  have hsame : s'.iterations = s.iterations → s'.stack = s.stack →
      (s.sockets.Requested fd reg events → s'.sockets.Requested fd reg events) →
      Coming fd reg events k s' := by
    intro hi hstack hreq
    refine ⟨hcontrol, hi ▸ hs.iterations, fun hk => ?_, fun hk t fs hw => ?_⟩
    · rw [hi] at hk
      rw [hstack]
      exact ⟨hreq (hs.before hk).1, (hs.before hk).2⟩
    · rw [hi] at hk
      rw [hstack] at hw
      exact hreq (hs.inWait hk t fs hw)
  -- a step that puts a frame of another kind on the stack
  have hpush : ∀ {f : Frame D}, f.enumerates = false → s'.iterations = s.iterations →
      s'.sockets = s.sockets → s'.stack = f :: s.stack → Coming fd reg events k s' := by
    intro f hf hi hsock hstack
    refine ⟨hcontrol, hi ▸ hs.iterations, fun hk => ?_, fun _ t fs hw => ?_⟩
    · rw [hi] at hk
      rw [hstack, hsock]
      exact ⟨(hs.before hk).1, List.forall_mem_cons.mpr ⟨hf, (hs.before hk).2⟩⟩
    · rw [hstack, List.cons.injEq] at hw
      rw [hw.1] at hf
      cases hf
  cases step_cases h with
  | begin | wakeUp | arrive | expire | tick => exact hsame rfl rfl id
  | call hm he => rw [enter_frame he] at hsame ⊢; exact hsame rfl rfl id
  | resume hr =>
    have hsock : s'.sockets = s.sockets := by rw [resume_frame hr]
    have hi : s'.iterations = s.iterations := by rw [resume_frame hr]
    rcases resume_stack_cases hs.control hr with hstack | ⟨c, -, -, -, hstack⟩
    · exact hsame hi hstack (hsock ▸ id)
    · exact hpush rfl hi hsock hstack
  | processPendingTasks => exact hpush rfl rfl rfl rfl
  | socket => exact hsame rfl rfl (requested_socketCall (socket_cases _ _ _) hok)
  | runEventLoopOnce hm =>
    refine ⟨hcontrol, Nat.le_succ_of_le hs.iterations, fun hk => ?_, fun hk _ _ _ => ?_⟩
    · have := hs.iterations
      simp only at hk
      omega
    · exact (hs.before (Nat.succ.inj hk)).1
  | @loop o f fs _ hout hstack hf =>
    have hi : s'.iterations = s.iterations := by rw [frameStep_frame hf]
    refine ⟨hcontrol, hi ▸ hs.iterations, fun hk => ?_, fun _ t gs hw => ?_⟩
    · rw [hi] at hk
      obtain ⟨⟨hpending, r, hr⟩, hall⟩ := hs.before hk
      rw [hstack, List.forall_mem_cons] at hall
      obtain ⟨hsock, hnew⟩ := frameStep_enumerates hf hall.1
      rw [hsock]
      exact ⟨⟨hpending, r, hr⟩, fun g hg => (hnew g hg).elim (hall.2 g) id⟩
    · have hnot : ∀ g gs, s'.stack = g :: gs → g.isWaiting = false := by
        intro g gs hg
        rcases frameStep_stack hf with hs' | ⟨g', hg', -, hs'⟩
        · have huser := hs.control.userCode_of_mem hstack g (by rw [← hs', hg]; exact List.mem_cons_self)
          cases g with
          | waiting => cases huser
          | _ => rfl
        · rw [hg, List.cons.injEq] at hs'
          rw [hs'.1]
          exact hg'
      cases hnot _ _ hw

end IoBase
