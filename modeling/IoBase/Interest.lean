import IoBase.SocketInvariant

/- Which network events the kernel is asked to watch.

   `WSAEventSelect` takes a mask of `FD_*` bits; `RegisterSocket` and `RearmSocket`
   give it the `POLL*` bits of `GetPollMask`. The values of the two sets of bits do
   not agree, so what is asked for is not what `ProcessSocketEvents` translates: no
   call ever asks for `FD_WRITE` or `FD_ACCEPT`, and `FD_CONNECT`, which a connect
   error makes an error too, is asked for only under the name of writable.

   * `watches_iff`: the kernel watches what the registrations ask for exactly when
     they ask for nothing, but for the errors of a socket whose writable bit has been
     taken away since its mask was passed; so a run keeps to it exactly if no call of it
     arms a socket.
   * `fdRead_not_watched`: a socket registered as readable. -/
namespace IoBase
open Transition State OrderedMap

variable {D : Type}

/-- The network events that `ProcessSocketEvents` translates. -/
def networkEvents : List NetMask := [fdRead, fdWrite, fdAccept, fdConnect, fdClose]

/-- `ProcessSocketEvents` translates the event into the bit, where a record of it has the connect
    error. -/
def translates (event : NetMask) (connectError : Int) (bit : EventMask) : Bool :=
  meets (getEventMask ((toRevents ⟨event, connectError⟩).signExtend 32)) bit

/-- Of the connect error, `ProcessSocketEvents` asks only whether there is one. -/
theorem toRevents_congr {event : NetMask} {e e' : Int} (h : e ≠ 0 ↔ e' ≠ 0) :
    toRevents ⟨event, e⟩ = toRevents ⟨event, e'⟩ := by
  simp only [toRevents, if_congr h rfl rfl]

/-- `FD_READ` and `FD_ACCEPT` are translated into readable, `FD_WRITE` and `FD_CONNECT` into
    writable, an `FD_CONNECT` with an error also into error, and `FD_CLOSE` into nothing. -/
theorem translates_iff : ∀ event ∈ networkEvents, ∀ connectError : Int,
    (translates event connectError kEventReadable = true ↔ event = fdRead ∨ event = fdAccept) ∧
    (translates event connectError kEventWritable = true ↔ event = fdWrite ∨ event = fdConnect) ∧
    (translates event connectError kEventError = true ↔ event = fdConnect ∧ connectError ≠ 0) := by
  intro event hevent connectError
  simp only [networkEvents, List.mem_cons, List.not_mem_nil, or_false] at hevent
  -- the record is that of no error or that of the error 1
  by_cases he : connectError = 0
  · subst he
    rcases hevent with rfl | rfl | rfl | rfl | rfl <;> decide +kernel
  · have hrevents : toRevents ⟨event, connectError⟩ = toRevents ⟨event, 1⟩ :=
      toRevents_congr (by simp [he])
    simp only [translates, hrevents, he, ne_eq, not_false_eq_true, and_true]
    rcases hevent with rfl | rfl | rfl | rfl | rfl <;> decide +kernel

/-- Every event that is translated into an armed bit of a registered socket, with a connect error or
    without, is in the mask most recently passed to `WSAEventSelect` for it. -/
def Watches (s : Sockets) : Prop :=
  ∀ fd r, s.registrations.lookup fd = some r →
    ∀ bit ∈ [kEventReadable, kEventWritable, kEventError], meets r.events bit = true →
      ∀ event ∈ networkEvents, ∀ connectError : Int, translates event connectError bit = true →
        ∃ mask, s.passed fd = some mask ∧ mask &&& event = event

/-- No registered socket is armed for any event. -/
def Unarmed (s : Sockets) : Prop :=
  ∀ fd r, s.registrations.lookup fd = some r → meets r.events allEvents = false

/-- No registered socket is armed for readable or writable, and one that is armed for error had its
    mask last passed from events with writable: the `POLLOUT` in it has the value of `FD_CONNECT`. -/
def ArmedForConnectErrors (s : Sockets) : Prop :=
  ∀ fd r, s.registrations.lookup fd = some r →
    meets r.events kEventReadable = false ∧ meets r.events kEventWritable = false ∧
    (meets r.events kEventError = true →
      ∃ events, s.passed fd = some (getPollMask events) ∧ meets events kEventWritable = true)

/-- The call arms a socket: one that it registers, or one that is registered. -/
def SocketCall.arms (s : Sockets) : SocketCall → Prop
  | .register fd events _ selectOk =>
    fd ∉ s.registrations ∧ selectOk = true ∧ meets events allEvents = true
  | .rearm fd events _ => fd ∈ s.registrations ∧ meets events allEvents = true
  | .unregister _ _ | .notify _ _ => False

instance (s : Sockets) : (c : SocketCall) → Decidable (c.arms s)
  | .register _ _ _ _ | .rearm _ _ _ => inferInstanceAs (Decidable (_ ∧ _))
  | .unregister _ _ | .notify _ _ => .isFalse id

theorem meets_allEvents {events : EventMask} :
    meets events allEvents = false ↔
      meets events kEventReadable = false ∧ meets events kEventWritable = false ∧
        meets events kEventError = false := by
  rw [← Bool.not_eq_true, ← Bool.not_eq_true, ← Bool.not_eq_true, ← Bool.not_eq_true, allEvents, meets_bits,
    meets_bits]
  tauto

/-! ## What is passed to the kernel -/

/-- `GetPollMask` never has the bits of `FD_ACCEPT` and `FD_WRITE`, and that of `FD_CONNECT` exactly
    for writable. -/
theorem getPollMask_and (events : EventMask) :
    getPollMask events &&& fdAccept = 0 ∧ getPollMask events &&& fdWrite = 0 ∧
      (getPollMask events &&& fdConnect = fdConnect ↔ meets events kEventWritable = true) := by
  unfold getPollMask
  split <;> split <;> split <;> simp_all <;> decide

/-- The masks passed to `WSAEventSelect` were made by `GetPollMask`; unregistering passes what no events
    make. -/
def PassedMasks (s : Sockets) : Prop :=
  ∀ fd mask, s.passed fd = some mask → ∃ events, mask = getPollMask events

theorem passedMasks_wsaEventSelect {s : Sockets} {fd : Fd} (events : EventMask) {ok : Bool}
    (h : PassedMasks s) : PassedMasks (s.wsaEventSelect fd (getPollMask events) ok) := by
  intro fd' mask hpassed
  by_cases hfd : fd' = fd
  · subst hfd
    simp only [Sockets.wsaEventSelect, Function.update_self, Option.some.injEq] at hpassed
    exact ⟨events, hpassed.symm⟩
  · simp only [Sockets.wsaEventSelect, Function.update_of_ne hfd] at hpassed
    exact h fd' mask hpassed

theorem passedMasks_invariant : SocketsInvariant PassedMasks fun _ => True where
  init := by intro fd mask h; cases h
  call := by
    intro s c out _ hstep h
    cases hstep with
    | register => exact passedMasks_wsaEventSelect _ h
    | registerFailed => exact passedMasks_wsaEventSelect _ h
    | unregister => exact passedMasks_wsaEventSelect 0 h
    | rearm => exact passedMasks_wsaEventSelect _ h
    | refused | notify => exact h
  enumerate := by
    intro s ready fd enumOk h
    rw [enumerateSocket_frame]
    exact h
  pending := fun _ h => h
  event := fun _ _ h => h
  record := fun _ _ _ _ h => h

/-! ## What is armed -/

/-- An enumeration arms nothing. -/
theorem armed_enumerateSocket {s : Sockets} {ready : List ReadyListEntry} {fd fd' : Fd}
    {enumOk : Bool} {r' : Registration}
    (h : (s.enumerateSocket ready fd enumOk).1.registrations.lookup fd' = some r') :
    ∃ r bits, s.registrations.lookup fd' = some r ∧ r'.events = r.events &&& bits := by
  obtain ⟨f, hf, hmodify⟩ := enumerateSocket_registrations s ready fd enumOk
  rw [hmodify, lookup_modify, Option.map_eq_some_iff] at h
  obtain ⟨r, hr, rfl⟩ := h
  split
  · obtain ⟨bits, hbits⟩ := (hf r).2
    exact ⟨r, bits, hr, hbits⟩
  · exact ⟨r, r.events, hr, BitVec.and_self.symm⟩

/-- A call that arms no socket. -/
theorem unarmed_call {s : Sockets} {c : SocketCall} {out : Bool × Sockets} (hc : ¬c.arms s)
    (hstep : SocketStepped s c out) (h : Unarmed s) : Unarmed out.2 := by
  cases hstep with
  | refused => exact h
  | @register fd events listener hmem =>
    intro fd' r hr
    simp only [Sockets.wsaEventSelect, lookup_insertBack hmem] at hr
    split at hr
    · cases hr
      exact Bool.eq_false_iff.mpr fun hevents => hc ⟨hmem, rfl, hevents⟩
    · exact h fd' r hr
  | registerFailed => exact h
  | @unregister fd selectOk =>
    intro fd' r hr
    by_cases hfd : fd' = fd
    · subst hfd
      simp [Sockets.wsaEventSelect] at hr
    · simp only [Sockets.wsaEventSelect, AList.lookup_erase_ne hfd] at hr
      exact h fd' r hr
  | @rearm fd events selectOk r hregistered =>
    intro fd' r hr
    simp only [Sockets.wsaEventSelect, lookup_modify, Option.map_eq_some_iff] at hr
    obtain ⟨r₀, hr₀, rfl⟩ := hr
    have hold := h fd' r₀ hr₀
    have hmem : fd ∈ s.registrations := AList.lookup_isSome.mp (Option.isSome_of_eq_some hregistered)
    split
    · exact meets_or.mpr ⟨hold, Bool.eq_false_iff.mpr fun hevents => hc ⟨hmem, hevents⟩⟩
    · exact hold
  | notify =>
    intro fd' r hr
    simp only [lookup_modify, Option.map_eq_some_iff] at hr
    obtain ⟨r₀, hr₀, rfl⟩ := hr
    have hold := h fd' r₀ hr₀
    split <;> exact hold

theorem unarmed_kept : SocketsKept Unarmed fun c => ∀ s, ¬c.arms s where
  call := fun s _ _ hc hstep h => unarmed_call (hc s) hstep h
  enumerate := by
    intro s ready fd enumOk h fd' r' hlookup
    obtain ⟨r, bits, hr, hevents⟩ := armed_enumerateSocket hlookup
    rw [hevents]
    exact meets_and (h fd' r hr)
  pending := fun _ h => h
  event := fun _ _ h => h
  record := fun _ _ _ _ h => h

/-! ## What the kernel watches -/

/-- Where nothing is armed, there is nothing to watch. -/
theorem armedForConnectErrors_of_unarmed {s : Sockets} (h : Unarmed s) : ArmedForConnectErrors s := by
  intro fd r hr
  obtain ⟨hreadable, hwritable, herror⟩ := meets_allEvents.mp (h fd r hr)
  refine ⟨hreadable, hwritable, fun hmeets => ?_⟩
  rw [herror] at hmeets
  cases hmeets

/-- With masks made by `GetPollMask`, only the errors of a socket that was armed for writable are
    watched for. -/
theorem watches_iff_of_passedMasks {s : Sockets} (h : PassedMasks s) :
    Watches s ↔ ArmedForConnectErrors s := by
  constructor
  · intro hw fd r hr
    -- what the mask for an armed bit has of an event that is translated into the bit
    have hmask : ∀ bit ∈ [kEventReadable, kEventWritable, kEventError], meets r.events bit = true →
        ∀ event ∈ networkEvents, ∀ connectError, translates event connectError bit = true →
          ∃ events, s.passed fd = some (getPollMask events) ∧ getPollMask events &&& event = event := by
      intro bit hbit hmeets event hevent connectError htr
      obtain ⟨mask, hpassed, hmask⟩ := hw fd r hr bit hbit hmeets event hevent connectError htr
      obtain ⟨events, rfl⟩ := h fd mask hpassed
      exact ⟨events, hpassed, hmask⟩
    refine ⟨?_, ?_, fun herror => ?_⟩
    · by_contra hn
      rw [Bool.not_eq_false] at hn
      obtain ⟨events, -, hacc⟩ := hmask kEventReadable (by simp) hn fdAccept (by decide) 0 (by decide)
      rw [(getPollMask_and events).1] at hacc
      exact absurd hacc (by decide)
    · by_contra hn
      rw [Bool.not_eq_false] at hn
      obtain ⟨events, -, hwrite⟩ := hmask kEventWritable (by simp) hn fdWrite (by decide) 0 (by decide)
      rw [(getPollMask_and events).2.1] at hwrite
      exact absurd hwrite (by decide)
    · obtain ⟨events, hpassed, hconnect⟩ :=
        hmask kEventError (by simp) herror fdConnect (by decide) 1 (by decide)
      exact ⟨events, hpassed, (getPollMask_and events).2.2.mp hconnect⟩
  · intro ha fd r hr bit hbit hmeets event hevent connectError htr
    obtain ⟨hreadable, hwritable, herror⟩ := ha fd r hr
    simp only [List.mem_cons, List.not_mem_nil, or_false] at hbit
    rcases hbit with rfl | rfl | rfl
    · rw [hreadable] at hmeets
      cases hmeets
    · rw [hwritable] at hmeets
      cases hmeets
    · obtain ⟨events, hpassed, hwritten⟩ := herror hmeets
      obtain ⟨rfl, -⟩ := (translates_iff event hevent connectError).2.2.mp htr
      exact ⟨_, hpassed, (getPollMask_and events).2.2.mpr hwritten⟩

/-- A socket whose mask was passed from just the events it is armed for is watched only if it is armed for
    none. -/
theorem unarmed_of_passed {s : Sockets} (fd : Fd) (r : Registration)
    (ha : ArmedForConnectErrors s) (hr : s.registrations.lookup fd = some r)
    (hpassed : s.passed fd = some (getPollMask r.events)) : meets r.events allEvents = false := by
  obtain ⟨hreadable, hwritable, herror⟩ := ha fd r hr
  refine meets_allEvents.mpr ⟨hreadable, hwritable, ?_⟩
  by_contra hn
  rw [Bool.not_eq_false] at hn
  obtain ⟨events, hpassed', hwritten⟩ := herror hn
  -- events with one mask agree on writable
  have hmask : getPollMask r.events = getPollMask events := Option.some.inj (hpassed.symm.trans hpassed')
  have hconnect := (getPollMask_and events).2.2.mpr hwritten
  rw [← hmask, (getPollMask_and r.events).2.2, hwritable] at hconnect
  cases hconnect

/-- A call that arms a socket passes the mask of what it is armed for. -/
theorem not_armedForConnectErrors_of_arms {s : Sockets} {c : SocketCall} (hc : c.arms s) :
    ¬ArmedForConnectErrors (c.run s false).2 := by
  intro h
  cases c with
  | register fd events listener selectOk =>
    obtain ⟨hmem, rfl, hevents⟩ := hc
    rw [SocketCall.run, registerSocket_new hmem] at h
    have hself := unarmed_of_passed fd ⟨s.nextRegistration, events, some listener, 0⟩ h
      (by simp [Sockets.wsaEventSelect, lookup_insertBack hmem]) (by simp [Sockets.wsaEventSelect])
    rw [hevents] at hself
    cases hself
  | rearm fd events selectOk =>
    obtain ⟨hmem, hevents⟩ := hc
    obtain ⟨r, hr⟩ := Option.isSome_iff_exists.mp (AList.lookup_isSome.mpr hmem)
    simp only [SocketCall.run, Sockets.rearmSocket, Bool.false_eq_true, if_false, hr] at h
    have hself := unarmed_of_passed fd { r with events := r.events ||| events } h
      (by simp [Sockets.wsaEventSelect, hr]) (by simp [Sockets.wsaEventSelect])
    rw [(meets_or.mp hself).2] at hevents
    cases hevents
  | unregister | notify => exact hc

variable [AbslDuration D]

/-- The run reaches only states in which the kernel watches what the registrations ask for. -/
def KeepsWatching (s : State D) (a : Action D) : Prop := ∀ s', step s a = some s' → Watches s'.sockets

/-- The run reaches only states in which no registered socket is armed. -/
def KeepsUnarmed (s : State D) (a : Action D) : Prop := ∀ s', step s a = some s' → Unarmed s'.sockets

/-- The action is no call that arms a socket, but one that is refused as the loop is quitting. -/
def ArmsNothing (s : State D) : Action D → Prop
  | .socket c => s.isQuitting = false → ¬c.arms s.sockets
  | _ => True

instance (s : State D) : (a : Action D) → Decidable (ArmsNothing s a)
  | .socket c => inferInstanceAs (Decidable (s.isQuitting = false → ¬c.arms s.sockets))
  | .begin | .wakeUp | .call .. | .resume .. | .runEventLoopOnce _ | .processPendingTasks
  | .loop _ | .arrive .. | .expire _ | .tick _ => .isTrue trivial

theorem unarmed_step {s s' : State D} {a : Action D} (ha : ArmsNothing s a) (hstep : step s a = some s')
    (hs : Unarmed s.sockets) : Unarmed s'.sockets := by
  by_cases hsocket : ∃ c, a = .socket c
  · obtain ⟨c, rfl⟩ := hsocket
    cases step_cases hstep with
    | socket =>
      cases hquitting : s.isQuitting with
      | true => cases c <;> exact hs
      | false =>
        have hcases := socket_cases s.sockets false c
        exact unarmed_call (ha hquitting) hcases hs
  · exact sockets_step unarmed_kept (fun c hc => absurd ⟨c, hc⟩ hsocket) hstep hs

theorem armsNothing_of_step {s s' : State D} {a : Action D} (hstep : step s a = some s')
    (hs' : ArmedForConnectErrors s'.sockets) : ArmsNothing s a := by
  cases a with
  | socket c =>
    intro hquitting hc
    cases step_cases hstep with
    | socket =>
      rw [hquitting] at hs'
      exact not_armedForConnectErrors_of_arms hc hs'
  | _ => exact trivial

/-- **What the kernel watches.** In every reachable state the kernel watches what the registrations ask
    for exactly when none of them asks for readable or writable, and one that asks for errors had its
    mask passed while it asked for writable. A run reaches only such states exactly if it reaches only
    states in which no socket is armed at all, and exactly if none of its calls arms one. -/
theorem watches_iff :
    (∀ s : State D, Reachable s → (Watches s.sockets ↔ ArmedForConnectErrors s.sockets)) ∧
    (∀ s : State D, ReachesIf KeepsWatching s ↔ ReachesIf KeepsUnarmed s) ∧
    (∀ s : State D, ReachesIf KeepsWatching s ↔ ReachesIf ArmsNothing s) ∧
    ∀ s : State D, ReachesIf ArmsNothing s → Unarmed s.sockets ∧ Watches s.sockets := by
  have hwatches : ∀ s : State D, Reachable s → (Watches s.sockets ↔ ArmedForConnectErrors s.sockets) :=
    fun s h => watches_iff_of_passedMasks
      (sockets_of_reaches passedMasks_invariant (fun _ _ _ => trivial) h)
  have hunarmed : ∀ s : State D, Reachable s → Unarmed s.sockets → Watches s.sockets :=
    fun s h hs => (hwatches s h).mpr (armedForConnectErrors_of_unarmed hs)
  -- round: what keeps watching arms nothing, what arms nothing keeps unarmed, and that keeps watching
  have harms : ∀ s : State D, ReachesIf KeepsWatching s → ReachesIf ArmsNothing s := fun s h =>
    h.mono_of_reaches fun t a u hr ha hstep =>
      armsNothing_of_step hstep ((hwatches u (hr.always.tail trivial hstep)).mp (ha u hstep))
  have hrun : ∀ s : State D, ReachesIf ArmsNothing s → Unarmed s.sockets := fun s h =>
    h.invariant (P := fun s => Unarmed s.sockets) (fun _ _ _ => unarmed_step) (by intro fd r hr; cases hr)
  have hkeeps : ∀ s : State D, ReachesIf ArmsNothing s → ReachesIf KeepsUnarmed s := fun s h =>
    h.mono_of_reaches fun t a u hr ha _ s' hs' => hrun s' (hr.tail ha hs')
  have hwatching : ∀ s : State D, ReachesIf KeepsUnarmed s → ReachesIf KeepsWatching s := fun s h =>
    h.mono_of_reaches fun t a u hr ha _ s' hs' => hunarmed s' (hr.always.tail trivial hs') (ha s' hs')
  refine ⟨hwatches, fun s => ⟨fun h => hkeeps s (harms s h), hwatching s⟩,
    fun s => ⟨harms s, fun h => hwatching s (hkeeps s h)⟩, fun s h => ⟨hrun s h, ?_⟩⟩
  exact hunarmed s h.always (hrun s h)

/-- A socket is registered for nothing and re-armed for nothing, and the registration of another one for
    readable fails. -/
def unarmedRun : List (Action Ticks) :=
  [.begin, .socket (.register 1 0 0 true), .socket (.rearm 1 0 true),
    .socket (.register 2 kEventReadable 0 false), .socket (.unregister 1 true), .socket (.register 1 0 0 true)]

/-- A socket is registered for writable and errors, and its connection succeeds: it is left armed for
    errors. -/
def connectedRun : List (Action Ticks) :=
  [.begin, .socket (.register 1 (kEventWritable ||| kEventError) 0 true), .runEventLoopOnce .posInf,
    .arrive 1 fdConnect 0, .loop { wait := .socket }, .loop {}]

theorem watches_iff_unarmed :
    (∃ s : State Ticks, Reachable s ∧ (s.sockets.registrations.lookup 1).map (·.events) = some kEventError ∧
      Watches s.sockets) ∧
    ∃ s : State Ticks, ReachesIf ArmsNothing s ∧
      (s.sockets.registrations.lookup 1).map (·.events) = some 0 ∧ Unarmed s.sockets ∧ Watches s.sockets := by
  refine ⟨?_, ?_⟩
  · have hrun : (runWhile step Always State.init connectedRun).isSome = true := by decide
    have hreach := reaches_get hrun
    refine ⟨_, hreach, rfl, (watches_iff.1 _ hreach).mpr fun fd r hr => ?_⟩
    have hmem : fd ∈ [1] := AList.lookup_isSome.mp (Option.isSome_of_eq_some hr)
    obtain rfl := List.mem_singleton.mp hmem
    obtain rfl : (⟨0, kEventError, some 0, 0⟩ : Registration) = r := Option.some.inj hr
    exact ⟨by decide, by decide, fun _ => ⟨kEventWritable ||| kEventError, rfl, by decide⟩⟩
  · have hrun : (runWhile step ArmsNothing State.init unarmedRun).isSome = true := by decide
    have hreach := reaches_get hrun
    exact ⟨_, hreach, rfl, watches_iff.2.2.2 _ hreach⟩

/-- **What is asked for is not watched**: a socket is registered as readable, and the mask passed for
    it lacks `FD_READ`. -/
theorem fdRead_not_watched : ¬∀ s : State Ticks, Reachable s → Watches s.sockets := by
  intro hclaim
  have hrun : (runWhile step Always (State.init : State Ticks)
      [.begin, .socket (.register 1 kEventReadable 0 true)]).isSome = true := by decide
  obtain ⟨mask, hpassed, hmask⟩ := hclaim _ (reaches_get hrun) 1 ⟨0, kEventReadable, some 0, 0⟩ rfl
    kEventReadable (by simp) (by decide) fdRead (by decide) 0 (by decide)
  obtain rfl : (0x300 : NetMask) = mask := Option.some.inj hpassed
  revert hmask
  decide

end IoBase
