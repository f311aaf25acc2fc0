import IoBase.ArtificialRequest

/- The history of the sockets, and what one step can add to it.

   `socketNotes` is what a step of the loop lets be seen of the sockets: a socket is
   registered, rearmed or unregistered, an event is dispatched to the ready list, a
   listener is called. `Delivery` is the part of the state these depend on, with the
   place of the loop in `ProcessSocketEvents`, and `Delivers` says what a step can do
   to it and which notes it adds.

   There is one such place as long as no listener enters the loop again
   (`NoListenerReentry`, `OneListing`). Then every step does to the sockets what
   `Delivers` says (`delivery_step`), and what `Delivers` keeps holds in every run
   (`delivery_invariant`); the threads, the tasks and the timers need not be looked
   at. Without re-entry a listener's object has no other owner than `registrations_`
   when its entry is looked at, which is why `Delivers.call` asks for it there. -/
namespace IoBase
open Transition State OrderedMap

/-- `dispatched` has the events the registration was armed for when the entry was made; `called` has
    the listener of the registration. -/
inductive SocketNote where
  | registered (fd : Fd) (registration : Nat) (events : EventMask) (listener : Nat)
  | unregistered (fd : Fd) (registration : Nat)
  | rearmed (registration : Nat) (events : EventMask)
  | dispatched (iteration : Nat) (entry : ReadyListEntry) (armed : EventMask)
  | called (iteration : Nat) (entry : ReadyListEntry) (listener : Option Nat)
  deriving DecidableEq, Repr

/-- The note of a socket call. `RearmSocket` arms the events also when its `WSAEventSelect` fails. -/
def SocketCall.notes (s : Sockets) (quitting : Bool) (c : SocketCall) : List SocketNote :=
  match c with
  | .register fd events listener _ =>
    if (c.run s quitting).1 then [.registered fd s.nextRegistration events listener] else []
  | .unregister fd _ =>
    match s.registrations.lookup fd with
    | none => []
    | some r => if (c.run s quitting).1 then [.unregistered fd r.id] else []
  | .rearm fd events _ =>
    match s.registrations.lookup fd with
    | none => []
    | some r => if quitting then [] else [.rearmed r.id events]
  | .notify _ _ => []

variable {D : Type}

def State.socketNotes (s : State D) : Action D → List SocketNote
  | .socket c => c.notes s.sockets s.isQuitting
  | .loop o =>
    match s.stack with
    | .enumerating _ (fd :: _) ready :: _ =>
      match s.sockets.registrations.lookup fd with
      | none => []
      | some r =>
        ((s.sockets.enumerateSocket ready fd o.enumOk).2.drop ready.length).map
          fun entry => .dispatched s.iterations entry r.events
    | .callbacks _ (entry :: _) :: fs =>
      if s.locked fs entry then
        [.called s.iterations entry
          ((s.sockets.registrations.lookup entry.fd).bind fun r => r.listener)]
      else []
    | _ => []
  | _ => []

/-- The loop with the history of its sockets. -/
abbrev noted (D : Type) [AbslDuration D] :=
  observe (step (D := D)) State.socketNotes

/-! ## What a step can do -/

/-- Where the loop is in `ProcessSocketEvents`: before it, in the loop over `registrations_`, and in
    `RunReadyCallbacks` with the entries it has not come to. -/
inductive SocketPhase where
  | idle
  | waiting
  | enumerating (todo : List Fd) (ready : List ReadyListEntry)
  | calling (ready : List ReadyListEntry)

/-- The entries of the ready list that are left. -/
def SocketPhase.ready : SocketPhase → List ReadyListEntry
  | .enumerating _ ready => ready
  | .calling ready => ready
  | _ => []

/-- The phases in which user code runs. -/
def SocketPhase.userCode : SocketPhase → Bool
  | .idle => true
  | .calling _ => true
  | _ => false

structure Delivery where
  registrations : Map Fd Registration
  nextRegistration : Nat
  iterations : Nat
  phase : SocketPhase
  called : List Callback

/-- A change of a registration that keeps the object and its listener, and does `g` to its events. -/
def ChangesEvents (f : Registration → Registration) (g : EventMask → EventMask) : Prop :=
  ∀ r, (f r).id = r.id ∧ (f r).listener = r.listener ∧ (f r).events = g r.events

/-- What one step does to the sockets, with the notes it adds. -/
inductive Delivers (d : Delivery) : List SocketNote → Delivery → Prop where
  | quiet : Delivers d [] d
  -- the registration calls, made by user code
  | register {fd : Fd} {events : EventMask} {listener : Nat} : d.phase.userCode = true →
      fd ∉ d.registrations →
      Delivers d [.registered fd d.nextRegistration events listener] { d with
        registrations := (insertBack fd ⟨d.nextRegistration, events, some listener, 0⟩ d.registrations).1
        nextRegistration := d.nextRegistration + 1 }
  | registerFailed : Delivers d [] { d with nextRegistration := d.nextRegistration + 1 }
  | unregister {fd : Fd} {r : Registration} : d.phase.userCode = true →
      d.registrations.lookup fd = some r →
      Delivers d [.unregistered fd r.id] { d with registrations := d.registrations.erase fd }
  | rearm {fd : Fd} {r : Registration} {events : EventMask} {f : Registration → Registration} :
      d.phase.userCode = true → d.registrations.lookup fd = some r →
      ChangesEvents f (fun armed => armed ||| events) →
      Delivers d [.rearmed r.id events] { d with registrations := modify fd f d.registrations }
  | notify {fd : Fd} {f : Registration → Registration} : d.phase.userCode = true →
      ChangesEvents f id → Delivers d [] { d with registrations := modify fd f d.registrations }
  -- RunEventLoopOnce, and ProcessSocketEvents in it
  | begin : d.phase = .idle →
      Delivers d [] { d with iterations := d.iterations + 1, phase := .waiting }
  | leave : Delivers d [] { d with phase := .idle }
  | enter : d.phase = .waiting →
      Delivers d [] { d with phase := .enumerating d.registrations.keys [] }
  | pass {fd : Fd} {todo : List Fd} {ready : List ReadyListEntry} {f : Registration → Registration} :
      d.phase = .enumerating (fd :: todo) ready → ChangesEvents f id →
      Delivers d [] { d with
        registrations := modify fd f d.registrations, phase := .enumerating todo ready }
  | dispatch {fd : Fd} {todo : List Fd} {ready : List ReadyListEntry} {r : Registration}
      {events : EventMask} {f : Registration → Registration} :
      d.phase = .enumerating (fd :: todo) ready → d.registrations.lookup fd = some r →
      events ≠ 0 → Within events r.events → ChangesEvents f (fun armed => armed &&& ~~~events) →
      Delivers d [.dispatched d.iterations ⟨fd, r.id, events⟩ r.events] { d with
        registrations := modify fd f d.registrations
        phase := .enumerating todo (ready ++ [⟨fd, r.id, events⟩]) }
  | enumerated {ready : List ReadyListEntry} : d.phase = .enumerating [] ready →
      Delivers d [] { d with phase := .calling ready }
  -- RunReadyCallbacks
  | call {entry : ReadyListEntry} {rest : List ReadyListEntry} {r : Registration} :
      d.phase = .calling (entry :: rest) → d.registrations.lookup entry.fd = some r →
      r.id = entry.registration →
      Delivers d [.called d.iterations entry r.listener] { d with
        called := d.called ++ [⟨d.iterations, entry.fd, entry.registration, entry.events⟩]
        phase := .calling rest }
  | skip {entry : ReadyListEntry} {rest : List ReadyListEntry} : d.phase = .calling (entry :: rest) →
      (∀ r, d.registrations.lookup entry.fd = some r → r.id ≠ entry.registration) →
      Delivers d [] { d with phase := .calling rest }

/-! ## The sockets' own steps -/

theorem changesEvents_id : ChangesEvents id id := fun _ => ⟨rfl, rfl, rfl⟩

theorem changesEvents_clear :
    ChangesEvents (fun r => { r with artificiallyNotifyAtNextIteration := 0 }) id :=
  fun _ => ⟨rfl, rfl, rfl⟩

/-- What `DispatchSocketEvent` takes of a poll mask is armed. -/
theorem dispatched_within (mask : BitVec 16) (events : EventMask) :
    Within (getEventMask ((mask &&& (getPollMask events).setWidth 16).signExtend 32)) events :=
  (getEventMask_mono (Within.and_right.signExtend (v := 32))).trans
    (getEventMask_getPollMask_within events)

theorem dispatched_ne_zero {mask : BitVec 16} {events : EventMask}
    (h : mask &&& (getPollMask events).setWidth 16 ≠ 0) :
    getEventMask ((mask &&& (getPollMask events).setWidth 16).signExtend 32) ≠ 0 :=
  getEventMask_ne_zero h (Within.and_right.trans (getPollMask_within events).setWidth)

/-- An enumeration of a socket puts some of its armed events on the ready list and disarms them, or
    leaves the armed events and the list alone. -/
theorem enumerateSocket_cases (s : Sockets) (ready : List ReadyListEntry) (fd : Fd) (enumOk : Bool) :
    (∃ f, ChangesEvents f id ∧
      (s.enumerateSocket ready fd enumOk).1.registrations = modify fd f s.registrations ∧
      (s.enumerateSocket ready fd enumOk).2 = ready) ∨
    ∃ r events f, s.registrations.lookup fd = some r ∧ events ≠ 0 ∧ Within events r.events ∧
      ChangesEvents f (fun armed => armed &&& ~~~events) ∧
      (s.enumerateSocket ready fd enumOk).1.registrations = modify fd f s.registrations ∧
      (s.enumerateSocket ready fd enumOk).2 = ready ++ [⟨fd, r.id, events⟩] := by
  unfold Sockets.enumerateSocket
  split
  · exact .inl ⟨id, changesEvents_id, modify_id.symm, rfl⟩
  · split
    · exact .inl ⟨id, changesEvents_id, modify_id.symm, rfl⟩
    · rename_i r hr
      have hlookup := lookup_modify_of_lookup (k := fd)
        (f := fun r : Registration => { r with artificiallyNotifyAtNextIteration := 0 }) hr
      rw [if_pos rfl] at hlookup
      simp only
      split
      · simp only [Sockets.dispatchSocketEvent, hlookup]
        split
        · exact .inl ⟨_, changesEvents_clear, rfl, rfl⟩
        · rename_i hmask
          refine .inr ⟨r, _, _, hr, dispatched_ne_zero hmask, dispatched_within _ _, ?_, modify_modify, rfl⟩
          exact fun _ => ⟨rfl, rfl, rfl⟩
      · exact .inl ⟨_, changesEvents_clear, rfl, rfl⟩

/-! ## The place in `ProcessSocketEvents` -/

def Frame.socketPhase : Frame D → Option SocketPhase
  | .waiting _ => some .waiting
  | .enumerating _ todo ready => some (.enumerating todo ready)
  | .callbacks _ ready => some (.calling ready)
  | .inCallback _ _ rest => some (.calling rest)
  | _ => none

/-- What the notes depend on. -/
def State.delivery (s : State D) : Delivery where
  registrations := s.sockets.registrations
  nextRegistration := s.sockets.nextRegistration
  iterations := s.iterations
  phase := (s.stack.findSome? Frame.socketPhase).getD .idle
  called := s.called

def Frame.isListener : Frame D → Bool
  | .inCallback _ _ _ => true
  | _ => false

/-- A listener is running, or has called what is running. -/
def State.inListener (s : State D) : Bool := s.stack.any Frame.isListener

/-- No listener enters the loop again. -/
def NoListenerReentry (s : State D) : Action D → Prop
  | .runEventLoopOnce _ => s.inListener = false
  | _ => True

instance (s : State D) : (a : Action D) → Decidable (NoListenerReentry s a)
  | .runEventLoopOnce _ => inferInstanceAs (Decidable (_ = _))
  | .begin | .wakeUp | .call .. | .resume .. | .processPendingTasks | .socket _ | .loop _
  | .arrive .. | .expire _ | .tick _ => .isTrue trivial

/-- No other frame that handles the sockets is above one. -/
def OneListing (s : State D) : Prop :=
  s.stack.Pairwise fun f g => g.handlesSockets = true → f.handlesSockets = false

theorem handlesSockets_eq {f : Frame D} : f.handlesSockets = f.socketPhase.isSome := by
  cases f <;> rfl

theorem isListener_of_userCode {f : Frame D} (huser : f.userCode = true) (h : f.handlesSockets = true) :
    f.isListener = true := by
  cases f with
  | inCallback => rfl
  | waiting | enumerating | callbacks => cases huser
  | _ => cases h

theorem findSome?_socketPhase_eq_none {fs : List (Frame D)} (h : ∀ g ∈ fs, g.handlesSockets = false) :
    fs.findSome? Frame.socketPhase = none := by
  rw [List.findSome?_eq_none_iff]
  intro g hg
  have hnot := h g hg
  rw [handlesSockets_eq] at hnot
  simpa using hnot

/-- Below a frame that handles the sockets no other does. -/
theorem OneListing.below {s : State D} {f : Frame D} {fs : List (Frame D)} (h : OneListing s)
    (hs : s.stack = f :: fs) (hf : f.handlesSockets = true) : ∀ g ∈ fs, g.handlesSockets = false := by
  rw [OneListing, hs, List.pairwise_cons] at h
  intro g hg
  by_contra hhandles
  rw [Bool.not_eq_false] at hhandles
  rw [h.1 g hg hhandles] at hf
  cases hf

/-- With `f` on top the place is `f`'s, or that of the frames below. -/
theorem phase_cons {s : State D} {f : Frame D} {fs : List (Frame D)} (hs : s.stack = f :: fs) :
    s.delivery.phase = f.socketPhase.getD ((fs.findSome? Frame.socketPhase).getD .idle) := by
  unfold State.delivery
  rw [hs, List.findSome?_cons]
  cases f.socketPhase <;> rfl

variable [AbslDuration D]

theorem oneListing_step {s s' : State D} {a : Action D} (hc : Control s) (ha : NoListenerReentry s a)
    (h : step s a = some s') (hone : OneListing s) : OneListing s' := by
  have hpush : ∀ {f : Frame D}, f.handlesSockets = false →
      (f :: s.stack).Pairwise fun f g => g.handlesSockets = true → f.handlesSockets = false :=
    fun hf => List.pairwise_cons.mpr ⟨fun _ _ _ => hf, hone⟩
  cases step_cases h with
  | call hm he => rw [enter_frame he]; exact hone
  | resume hr =>
    unfold OneListing
    rcases resume_stack_cases hc hr with hs | ⟨c, -, -, -, hs⟩
    · rw [hs]
      exact hone
    · rw [hs]
      exact hpush rfl
  | runEventLoopOnce hm =>
    refine List.pairwise_cons.mpr ⟨fun g hg hhandles => ?_, hone⟩
    have huser := hc.all_userCode ((mayCall_iff.mp hm).2 rfl) g hg
    have hnot : s.inListener = false := ha
    rw [inListener, List.any_eq_false] at hnot
    exact absurd (isListener_of_userCode huser hhandles) (hnot g hg)
  | processPendingTasks => exact hpush rfl
  | @loop o f fs s' hout hs hf =>
    have hpair := hone
    rw [OneListing, hs, List.pairwise_cons] at hpair
    obtain ⟨htop, hrest⟩ := hpair
    unfold OneListing
    cases hhandles : f.handlesSockets with
    | false =>
      obtain ⟨-, hs' | ⟨g, hg, hs'⟩⟩ := frameStep_handlesSockets hf hhandles
      · rw [hs']
        exact hrest
      · rw [hs']
        exact List.pairwise_cons.mpr ⟨fun _ _ _ => hg, hrest⟩
    | true =>
      have hbelow := hone.below hs hhandles
      rcases frameStep_stack hf with hs' | ⟨g, -, -, hs'⟩
      · rw [hs']
        exact hrest
      · rw [hs']
        refine List.pairwise_cons.mpr ⟨fun g' hg' htrue => ?_, hrest⟩
        rw [hbelow g' hg'] at htrue
        cases htrue
  | begin | wakeUp | socket | arrive | expire | tick => exact hone

/-! ## Every step is one of these -/

theorem locked_iff {s : Sockets} {entry : ReadyListEntry} :
    s.locked entry = true ↔ ∃ r, s.registrations.lookup entry.fd = some r ∧ r.id = entry.registration := by
  unfold Sockets.locked
  split
  · rename_i r hr
    simp [hr]
  · rename_i hr
    simp [hr]

omit [AbslDuration D] in
/-- Where no frame below handles the sockets, only `registrations_` owns an object. -/
theorem locked_eq {s : State D} {fs : List (Frame D)} {entry : ReadyListEntry}
    (h : ∀ g ∈ fs, g.handlesSockets = false) : s.locked fs entry = s.sockets.locked entry := by
  have hnone : fs.any (Frame.owns entry.registration) = false := by
    rw [List.any_eq_false]
    intro g hg howns
    have hhandles := h g hg
    cases g with
    | inCallback => cases hhandles
    | _ => cases howns
  rw [State.locked, hnone, Bool.or_false]

omit [AbslDuration D] in
/-- Two states that look the same to the sockets. -/
theorem delivery_congr {s s' : State D} (hsock : s'.sockets.registrations = s.sockets.registrations)
    (hnext : s'.sockets.nextRegistration = s.sockets.nextRegistration) (hi : s'.iterations = s.iterations)
    (hcalled : s'.called = s.called)
    (hphase : s'.stack.findSome? Frame.socketPhase = s.stack.findSome? Frame.socketPhase) :
    s'.delivery = s.delivery := by
  simp only [State.delivery, hsock, hnext, hi, hcalled, hphase]

omit [AbslDuration D] in
theorem socketNotes_of_not_handles {s : State D} {o : Outcome} {f : Frame D} {fs : List (Frame D)}
    (hs : s.stack = f :: fs) (hf : f.handlesSockets = false) : s.socketNotes (.loop o) = [] := by
  unfold State.socketNotes
  rw [hs]
  cases f with
  | waiting | enumerating | callbacks => cases hf
  | _ => rfl

/-- A step of the loop thread away from `ProcessSocketEvents`. -/
theorem delivery_quiet {s s' : State D} {o : Outcome} {f : Frame D} {fs : List (Frame D)}
    (hs : s.stack = f :: fs) (h : s.frameStep o fs f = some s') (hf : f.handlesSockets = false) :
    s'.delivery = s.delivery := by
  have henum : f.enumerates = false := by
    cases f with
    | waiting | enumerating => cases hf
    | _ => rfl
  have hsock := (frameStep_enumerates h henum).1
  obtain ⟨hcalled, hstack⟩ := frameStep_handlesSockets h hf
  refine delivery_congr (by rw [hsock]) (by rw [hsock]) (by rw [frameStep_frame h]) hcalled ?_
  have hnone : ∀ {g : Frame D}, g.handlesSockets = false → g.socketPhase = none := fun hg => by
    rw [handlesSockets_eq] at hg
    simpa using hg
  rw [hs, List.findSome?_cons, hnone hf]
  rcases hstack with hs' | ⟨g, hg, hs'⟩
  · rw [hs']
  · rw [hs', List.findSome?_cons, hnone hg]

omit [AbslDuration D] in
theorem socketNotes_callbacks {s : State D} {o : Outcome} {r : WaitResult} {entry : ReadyListEntry}
    {rest : List ReadyListEntry} {fs : List (Frame D)} (hs : s.stack = .callbacks r (entry :: rest) :: fs) :
    s.socketNotes (.loop o) = if s.locked fs entry then
      [.called s.iterations entry ((s.sockets.registrations.lookup entry.fd).bind fun r => r.listener)]
    else [] := by
  rw [State.socketNotes, hs]

omit [AbslDuration D] in
/-- The enumeration of one socket. -/
theorem delivery_enumerate {s : State D} {o : Outcome} {w : WaitResult} {fd : Fd} {todo : List Fd}
    {ready : List ReadyListEntry} {fs : List (Frame D)} (hs : s.stack = .enumerating w (fd :: todo) ready :: fs)
    (hphase : s.delivery.phase = .enumerating (fd :: todo) ready) :
    Delivers s.delivery (s.socketNotes (.loop o))
      ({ s with
        sockets := (s.sockets.enumerateSocket ready fd o.enumOk).1
        stack := .enumerating w todo (s.sockets.enumerateSocket ready fd o.enumOk).2 :: fs } :
        State D).delivery := by
  have hnotes : s.socketNotes (.loop o) = match s.sockets.registrations.lookup fd with
      | none => []
      | some r =>
        ((s.sockets.enumerateSocket ready fd o.enumOk).2.drop ready.length).map
          fun entry => .dispatched s.iterations entry r.events := by
    rw [State.socketNotes, hs]
  have hd : ({ s with
        sockets := (s.sockets.enumerateSocket ready fd o.enumOk).1
        stack := .enumerating w todo (s.sockets.enumerateSocket ready fd o.enumOk).2 :: fs } :
        State D).delivery = { s.delivery with
        registrations := (s.sockets.enumerateSocket ready fd o.enumOk).1.registrations
        phase := .enumerating todo (s.sockets.enumerateSocket ready fd o.enumOk).2 } := by
    have hnext : (s.sockets.enumerateSocket ready fd o.enumOk).1.nextRegistration =
        s.sockets.nextRegistration := by rw [enumerateSocket_frame]
    simp only [State.delivery, hnext]
    rfl
  rw [hd, hnotes]
  rcases enumerateSocket_cases s.sockets ready fd o.enumOk with
    ⟨f, hf, hmodify, hready⟩ | ⟨r, events, f, hr, hne, hwithin, hf, hmodify, hready⟩
  · rw [hmodify, hready, List.drop_length]
    split <;> exact .pass hphase hf
  · rw [hmodify, hready, hr, List.drop_left]
    exact .dispatch hphase hr hne hwithin hf

omit [AbslDuration D] in
/-- While user code runs, the loop is in `RunReadyCallbacks` or outside `ProcessSocketEvents`. -/
theorem delivery_userCode {s : State D} (hc : Control s) (huser : s.inUserCode = true) :
    s.delivery.phase.userCode = true := by
  have hall := hc.all_userCode huser
  cases hfind : s.stack.findSome? Frame.socketPhase with
  | none => simp [State.delivery, hfind, SocketPhase.userCode]
  | some phase =>
    obtain ⟨g, hg, hphase⟩ := List.exists_of_findSome?_eq_some hfind
    have hguser := hall g hg
    simp only [State.delivery, hfind, Option.getD_some]
    cases g with
    | inCallback => cases hphase; rfl
    | waiting | enumerating | callbacks => cases hguser
    | _ => cases hphase

omit [AbslDuration D] in
theorem idle_of_not_inListener {s : State D} (hc : Control s) (huser : s.inUserCode = true)
    (h : s.inListener = false) : s.delivery.phase = .idle := by
  have hnone : s.stack.findSome? Frame.socketPhase = none := by
    refine findSome?_socketPhase_eq_none fun g hg => ?_
    rw [inListener, List.any_eq_false] at h
    by_contra hhandles
    rw [Bool.not_eq_false] at hhandles
    exact h g hg (isListener_of_userCode (hc.all_userCode huser g hg) hhandles)
  simp [State.delivery, hnone]

/-- A registration call. -/
theorem delivers_socketCall {s : Sockets} {d : Delivery} {quitting : Bool} {c : SocketCall}
    (hreg : d.registrations = s.registrations) (hnext : d.nextRegistration = s.nextRegistration)
    (huser : d.phase.userCode = true) :
    Delivers d (c.notes s quitting) { d with
      registrations := (c.run s quitting).2.registrations
      nextRegistration := (c.run s quitting).2.nextRegistration } := by
  obtain ⟨registrations, nextRegistration, iterations, phase, called⟩ := d
  simp only at hreg hnext
  subst hreg hnext
  cases quitting with
  | true =>
    cases c with
    | register | notify => exact .quiet
    | unregister fd =>
      simp only [SocketCall.notes]
      split <;> exact .quiet
    | rearm fd =>
      simp only [SocketCall.notes]
      split <;> exact .quiet
  | false =>
    cases c with
    | register fd events listener selectOk =>
      have hstep := socket_cases s false (.register fd events listener selectOk)
      simp only [SocketCall.notes]
      generalize SocketCall.run s false (.register fd events listener selectOk) = out at hstep ⊢
      cases hstep with
      | refused => exact .quiet
      | register hmem => exact .register huser hmem
      | registerFailed => exact .registerFailed
    | unregister fd selectOk =>
      cases hr : s.registrations.lookup fd with
      | none =>
        simp only [SocketCall.notes, SocketCall.run, Sockets.unregisterSocket, hr]
        exact .quiet
      | some r =>
        simp only [SocketCall.notes, SocketCall.run, Sockets.unregisterSocket, hr]
        exact .unregister huser hr
    | rearm fd events selectOk =>
      cases hr : s.registrations.lookup fd with
      | none =>
        simp only [SocketCall.notes, SocketCall.run, Sockets.rearmSocket, hr]
        exact .quiet
      | some r =>
        simp only [SocketCall.notes, SocketCall.run, Sockets.rearmSocket, hr]
        exact .rearm huser hr fun _ => ⟨rfl, rfl, rfl⟩
    | notify fd events =>
      cases hr : s.registrations.lookup fd with
      | none =>
        simp only [SocketCall.notes, SocketCall.run, Sockets.artificiallyNotifyEvent, hr]
        exact .quiet
      | some r =>
        simp only [SocketCall.notes, SocketCall.run, Sockets.artificiallyNotifyEvent, hr]
        exact .notify huser fun _ => ⟨rfl, rfl, rfl⟩

theorem delivery_frameStep {s s' : State D} {o : Outcome} {f : Frame D} {fs : List (Frame D)}
    (hone : OneListing s) (hs : s.stack = f :: fs) (h : s.frameStep o fs f = some s') :
    Delivers s.delivery (s.socketNotes (.loop o)) s'.delivery := by
  cases hf : f.handlesSockets with
  | false =>
    rw [socketNotes_of_not_handles hs hf, delivery_quiet hs h hf]
    exact .quiet
  | true =>
    have hbelow := hone.below hs hf
    have hidle : (fs.findSome? Frame.socketPhase).getD .idle = SocketPhase.idle := by
      rw [findSome?_socketPhase_eq_none hbelow]
      rfl
    have hphase := phase_cons hs
    have hleave : ∀ {t : State D},
        t.delivery = { s.delivery with phase := (fs.findSome? Frame.socketPhase).getD .idle } →
        Delivers s.delivery [] t.delivery := by
      intro t ht
      rw [ht, hidle]
      exact .leave
    cases framed h with
    | wait hm =>
      have hnotes : s.socketNotes (.loop o) = [] := by rw [State.socketNotes, hs]
      rw [hnotes, dispatch_eq]
      rcases dispatch_stack s o.wait fs with ⟨hd, -⟩ | ⟨hd, -⟩ | ⟨hd, -⟩ | ⟨hd, -⟩ | hd <;> rw [hd]
      · exact hleave rfl
      · exact hleave rfl
      · exact hleave rfl
      · exact hleave rfl
      · exact .enter hphase
    | enumerated =>
      have hnotes : s.socketNotes (.loop o) = [] := by rw [State.socketNotes, hs]
      rw [hnotes]
      exact .enumerated hphase
    | @enumerate r fd todo ready => exact delivery_enumerate hs hphase
    | callbacksDone =>
      have hnotes : s.socketNotes (.loop o) = [] := by rw [State.socketNotes, hs]
      rw [hnotes]
      exact hleave rfl
    | callback hlocked =>
      have hnotes := socketNotes_callbacks (o := o) hs
      rw [hlocked, if_pos rfl] at hnotes
      rw [locked_eq hbelow, locked_iff] at hlocked
      obtain ⟨r, hr, hid⟩ := hlocked
      rw [hr, Option.bind_some] at hnotes
      rw [hnotes]
      exact .call hphase hr hid
    | skip hlocked =>
      have hnotes := socketNotes_callbacks (o := o) hs
      rw [hlocked, if_neg Bool.false_ne_true] at hnotes
      rw [hnotes]
      refine .skip hphase fun r hr hid => ?_
      rw [locked_eq hbelow, locked_iff.mpr ⟨r, hr, hid⟩] at hlocked
      cases hlocked
    | @callbackDone r entry rest =>
      have hnotes : s.socketNotes (.loop o) = [] := by rw [State.socketNotes, hs]
      have hd : ({ s with stack := .callbacks r rest :: fs } : State D).delivery = s.delivery :=
        delivery_congr rfl rfl rfl rfl (by rw [hs]; rfl)
      rw [hnotes, hd]
      exact .quiet
    | _ => cases hf

/-- Every step does to the sockets what `Delivers` says. -/
theorem delivery_step {s s' : State D} {a : Action D} (hc : Control s) (hone : OneListing s)
    (ha : NoListenerReentry s a) (h : step s a = some s') :
    Delivers s.delivery (s.socketNotes a) s'.delivery := by
  have hquiet : s.socketNotes a = [] → s'.delivery = s.delivery →
      Delivers s.delivery (s.socketNotes a) s'.delivery := by
    intro hnotes hd
    rw [hnotes, hd]
    exact .quiet
  have hnone : ∀ {f : Frame D}, f.handlesSockets = false → s'.stack = f :: s.stack →
      s'.stack.findSome? Frame.socketPhase = s.stack.findSome? Frame.socketPhase := by
    intro f hf hs
    rw [handlesSockets_eq, Option.isSome_eq_false_iff, Option.isNone_iff_eq_none] at hf
    rw [hs, List.findSome?_cons, hf]
  cases step_cases h with
  | begin | wakeUp | arrive | expire | tick => exact hquiet rfl rfl
  | call hm he => refine hquiet rfl ?_; rw [enter_frame he]; rfl
  | resume hr =>
    refine hquiet rfl (delivery_congr ?_ ?_ ?_ ?_ ?_)
    · rw [resume_frame hr]
    · rw [resume_frame hr]
    · rw [resume_frame hr]
    · rw [resume_frame hr]
    · rcases resume_stack_cases hc hr with hs | ⟨c, -, -, -, hs⟩
      · rw [hs]
      · exact hnone rfl hs
  | processPendingTasks => exact hquiet rfl (delivery_congr rfl rfl rfl rfl (hnone rfl rfl))
  | runEventLoopOnce hm => exact .begin (idle_of_not_inListener hc ((mayCall_iff.mp hm).2 rfl) ha)
  | socket hm => exact delivers_socketCall rfl rfl (delivery_userCode hc ((mayCall_iff.mp hm).2 rfl))
  | loop hout hs hf => exact delivery_frameStep hone hs hf

/-- What holds at the start and is kept by what a step can do to the sockets holds in every run in which
    no listener enters the loop again. -/
theorem delivery_invariant {P : Delivery → List SocketNote → Prop}
    (hinit : P (State.init : State D).delivery [])
    (keeps : ∀ d d' notes h, Delivers d notes d' → P d h → P d' (h ++ notes))
    {p : State D × List SocketNote}
    (hrun : Reaches (noted D) (fun p a => NoListenerReentry p.1 a) (State.init, []) p) :
    Control p.1 ∧ OneListing p.1 ∧ P p.1.delivery p.2 := by
  refine hrun.invariant (P := fun p => Control p.1 ∧ OneListing p.1 ∧ P p.1.delivery p.2) ?_
    ⟨control_init, by simp [OneListing, State.init], hinit⟩
  intro p a q ha hstepₕ hx
  obtain ⟨hc, hone, hp⟩ := hx
  obtain ⟨hstep, hnotes⟩ := observe_eq_some.mp hstepₕ
  refine ⟨control_step hc hstep, oneListing_step hc ha hstep hone, ?_⟩
  rw [hnotes]
  exact keeps _ _ _ _ (delivery_step hc hone ha hstep) hp

end IoBase
