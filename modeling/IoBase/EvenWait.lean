import IoBase.EvenLoop
import IoBase.Transition
import Mathlib.Data.List.AList

/- The Windows `EvenLoop::Wait`, in `event_loop_temp.cc`, and how long it waits.

   An iteration takes a snapshot of the dispatchers, asks for their events, waits, and
   tells the dispatcher of the event. A step is one pass of one of its loops, or what stands
   between them; at any moment time passes, and the table changes under the hands of other
   threads and of the handlers. A call of `WSAWaitForMultipleEvents` lasts at most the
   timeout it is given.

   Correspondence (C++ ↔ Lean):
     `dispatcher_by_key_`, `current_dispatcher_keys_` ↔ the fields of these names
     the loop over the snapshot, with `WSAEventSelect` ↔ `EvenWaitAction.visit`
     `WSAWaitForMultipleEvents`, its start and its result ↔ `call`, `wake`
     what is done with the result, down to `continue` ↔ `EvenWaitAction.dispatch`
     the loop with `WSAEnumNetworkEvents`             ↔ `EvenWaitAction.enumerate`
     from `WSAResetEvent` to the end of the iteration ↔ `EvenWaitAction.account`

   * `evenWait_bounded`: the time spent in the calls, in a run whose `continue` loses no
     millisecond.
   * `evenWait_overruns`: the event of a removed dispatcher starts the wait anew. -/
namespace IoBase
open Transition AbslDuration

/-- A dispatcher, by what it returns: `signal_wakeup_`, one with an event of its own, or one with a
    socket and the events it requests. -/
inductive WinDispatcher where
  | wakeup
  | event
  | socket (s : Nat) (requestedEvents : BitVec 32)
  deriving DecidableEq, Repr

/-- `GetSocket`; `none` is `INVALID_SOCKET`. -/
def WinDispatcher.getSocket : WinDispatcher → Option Nat
  | .wakeup | .event => none
  | .socket s _ => some s

/-- What `WSAWaitForMultipleEvents` returns. -/
inductive EvenWaitResult where
  | failed
  | timeout
  | event (index : Nat)
  deriving DecidableEq, Repr

/-- Where the loop thread is in `Wait`. -/
inductive EvenWaitPhase where
  | head
  | selecting (todo : List Nat)
  /-- In the call, since this reading of the clock. -/
  | waiting (timeout : BitVec 32) (since : Int)
  | signaled (index : Nat)
  | enumerating (todo : List Nat)
  | accounting
  | returned (ok : Bool)
  deriving DecidableEq, Repr

/-- The times of a `Wait`. -/
structure EvenWaitTimes where
  cmsWait : Int
  msStart : Int
  cmsElapsed : Int
  now : Int
  /-- The last reading of the clock. -/
  lastRead : Int
  /-- The time in the calls, on the clock of `TimeMillis` and on that of `TimeNanos`. -/
  spentMs : Int
  spentNs : Int

structure EvenWait extends EvenWaitTimes where
  processIo : Bool
  fWait : Bool
  dispatcherByKey : AList fun _ : Nat => WinDispatcher
  currentDispatcherKeys : List Nat
  eventOwners : List Nat
  phase : EvenWaitPhase
  /-- The calls of `WSAEventSelect`. -/
  eventSelects : List (Nat × NetMask)
  /-- The calls of `OnEvent`, with the dispatcher's key. -/
  onEvents : List (Nat × BitVec 32 × Int)

inductive EvenWaitAction where
  | tick (ns : Nat)
  | table (dispatchers : AList fun _ : Nat => WinDispatcher)
  | begin
  | visit (signalClose : Bool)
  | call
  | wake (dw : EvenWaitResult)
  | dispatch
  | enumerate (wsaEvents : Option CloseEvents)
  | account

namespace EvenWait

/-- `Wait`, when the clock reads `now`. -/
def start {D : Type} [AbslDuration D] (maxWaitDuration : D) (processIo : Bool)
    (dispatchers : AList fun _ : Nat => WinDispatcher) (now : Int) : EvenWait where
  cmsWait := EvenLoop.toCmsWait maxWaitDuration
  processIo := processIo
  msStart := timeMillis now
  cmsElapsed := 0
  fWait := true
  dispatcherByKey := dispatchers
  currentDispatcherKeys := []
  eventOwners := []
  phase := .head
  eventSelects := []
  onEvents := []
  now := now
  lastRead := timeMillis now
  spentMs := 0
  spentNs := 0

/-- The int64 that the call's timeout is made of. -/
def cmsNext (s : EvenWait) : Int :=
  if s.cmsWait = EvenLoop.kForeverMs then s.cmsWait else max 0 (s.cmsWait - s.cmsElapsed)

/-- `OnEvent`; that of the Signaler clears `fWait_`. -/
def onEvent (s : EvenWait) (key : Nat) (disp : WinDispatcher) (ff : BitVec 32) (err : Int) : EvenWait :=
  { s with
    onEvents := s.onEvents ++ [(key, ff, err)]
    fWait := if disp = .wakeup then false else s.fWait }

/-- Whether a call that began at `since` can go on to `later`. -/
def mayLast (timeout : BitVec 32) (since later : Int) : Bool :=
  timeout == infinite || decide (later ≤ since + 1000000 * timeout.toNat)

/-- One dispatcher of the snapshot. -/
def visit (s : EvenWait) (key : Nat) (todo : List Nat) (signalClose : Bool) : Option EvenWait :=
  match s.dispatcherByKey.lookup key with
  | none => some { s with phase := .selecting todo }
  | some disp =>
    if !s.processIo && disp != .wakeup then some { s with phase := .selecting todo }
    else if signalClose then
      -- the Signaler never signals close
      if disp = .wakeup then none else some { s with phase := .selecting todo }
    else match disp with
      | .socket sock requestedEvents => some { s with
          eventSelects := s.eventSelects ++ [(sock, flagsToEvents requestedEvents)]
          phase := .selecting todo }
      | .wakeup | .event => some { s with
          eventOwners := s.eventOwners ++ [key]
          phase := .selecting todo }

/-- One dispatcher of the snapshot, after the socket event. -/
def enumerate (s : EvenWait) (key : Nat) (todo : List Nat) (wsaEvents : Option CloseEvents) : EvenWait :=
  match s.dispatcherByKey.lookup key with
  | none => { s with phase := .enumerating todo }
  | some disp =>
    match disp.getSocket, wsaEvents with
    | some _, some wsaEvents =>
      let (ff, errcode) := enumeratedEvents wsaEvents
      if ff = 0 then { s with phase := .enumerating todo }
      else { s.onEvent key disp ff errcode with phase := .enumerating todo }
    | _, _ => { s with phase := .enumerating todo }

/-- The end of an iteration. -/
def account (s : EvenWait) : EvenWait :=
  if !s.fWait then { s with phase := .returned true }
  else
    let cmsElapsed := timeSince s.now s.msStart
    { s with
      cmsElapsed := cmsElapsed
      lastRead := timeMillis s.now
      phase :=
        if s.cmsWait ≠ EvenLoop.kForeverMs ∧ s.cmsWait ≤ cmsElapsed then .returned true else .head }

def step (s : EvenWait) : EvenWaitAction → Option EvenWait
  | .tick ns =>
    match s.phase with
    | .waiting timeout since =>
      if mayLast timeout since (s.now + ns) then
        some { s with
          now := s.now + ns
          spentMs := s.spentMs + (timeMillis (s.now + ns) - timeMillis s.now)
          spentNs := s.spentNs + ns }
      else none
    | _ => some { s with now := s.now + ns }
  | .table dispatchers => some { s with dispatcherByKey := dispatchers }
  | .begin =>
    match s.phase with
    | .head =>
      if s.fWait then
        some { s with
          currentDispatcherKeys := s.dispatcherByKey.keys
          eventOwners := []
          phase := .selecting s.dispatcherByKey.keys }
      else some { s with phase := .returned true }
    | _ => none
  | .visit signalClose =>
    match s.phase with
    | .selecting (key :: todo) => s.visit key todo signalClose
    | _ => none
  | .call =>
    match s.phase with
    | .selecting [] => some { s with phase := .waiting (BitVec.ofInt 32 s.cmsNext) s.now }
    | _ => none
  | .wake dw =>
    match s.phase, dw with
    | .waiting _ _, .failed => some { s with phase := .returned false }
    | .waiting _ _, .timeout => some { s with phase := .returned true }
    | .waiting _ _, .event index =>
      -- the socket event and those of the owners
      if index ≤ s.eventOwners.length then some { s with phase := .signaled index } else none
    | _, _ => none
  | .dispatch =>
    match s.phase with
    | .signaled 0 =>
      some { s with phase := if s.processIo then .enumerating s.currentDispatcherKeys else .accounting }
    | .signaled (index + 1) =>
      match s.eventOwners[index]? with
      | none => none
      | some key =>
        match s.dispatcherByKey.lookup key with
        -- the dispatcher was removed while waiting: `continue`
        | none => some { s with phase := .head }
        | some disp => some { s.onEvent key disp 0 0 with phase := .accounting }
    | _ => none
  | .enumerate wsaEvents =>
    match s.phase with
    | .enumerating (key :: todo) => some (s.enumerate key todo wsaEvents)
    | .enumerating [] => some { s with phase := .accounting }
    | _ => none
  | .account =>
    match s.phase with
    | .accounting => some s.account
    | _ => none

/-- The step takes the `continue`. -/
def continues (s : EvenWait) : EvenWaitAction → Bool
  | .dispatch =>
    match s.phase with
    | .signaled (index + 1) => s.eventOwners[index]?.any fun key => (s.dispatcherByKey.lookup key).isNone
    | _ => false
  | _ => false

/-- No millisecond has passed since the clock was last read when the `continue` is taken. -/
def KeepsUp (s : EvenWait) (a : EvenWaitAction) : Prop := s.continues a = true → timeMillis s.now = s.lastRead

instance (s : EvenWait) (a : EvenWaitAction) : Decidable (KeepsUp s a) := inferInstanceAs (Decidable (_ → _))

/-! ## What a step can do -/

end EvenWait

/-- The loop is on its way to the next call. -/
def EvenWaitPhase.beforeCall : EvenWaitPhase → Bool
  | .head | .selecting _ => true
  | _ => false

def EvenWaitPhase.inCall : EvenWaitPhase → Bool
  | .waiting _ _ => true
  | _ => false

def EvenWaitPhase.ended : EvenWaitPhase → Bool
  | .returned _ => true
  | _ => false

namespace EvenWait

/-- The steps, by what they do to the times. -/
inductive Stepped (s : EvenWait) : EvenWaitAction → EvenWait → Prop where
  | tick {ns : Nat} : s.phase.inCall = false → Stepped s (.tick ns) { s with now := s.now + ns }
  | last {ns : Nat} {timeout : BitVec 32} {since : Int} : s.phase = .waiting timeout since →
      mayLast timeout since (s.now + ns) = true →
      Stepped s (.tick ns) { s with
        now := s.now + ns
        spentMs := s.spentMs + (timeMillis (s.now + ns) - timeMillis s.now)
        spentNs := s.spentNs + ns }
  /-- Between the calls, or in one that goes on. -/
  | quiet {a : EvenWaitAction} {s' : EvenWait} : s'.toEvenWaitTimes = s.toEvenWaitTimes →
      (s'.phase.beforeCall = true → s.phase.beforeCall = true) →
      (s'.phase.inCall = true → s'.phase = s.phase) →
      (s.phase.ended = true → s'.phase.ended = true) → Stepped s a s'
  | call : s.phase = .selecting [] →
      Stepped s .call { s with phase := .waiting (BitVec.ofInt 32 s.cmsNext) s.now }
  | removed {a : EvenWaitAction} : s.continues a = true → s.phase.ended = false →
      Stepped s a { s with phase := .head }
  | account : Stepped s .account s.account

theorem stepped_visit {s s' : EvenWait} {key : Nat} {todo : List Nat} {signalClose : Bool} {a : EvenWaitAction}
    (hs : s.phase = .selecting (key :: todo)) (h : s.visit key todo signalClose = some s') :
    Stepped s a s' := by
  have hquiet : ∀ {t : EvenWait}, t.toEvenWaitTimes = s.toEvenWaitTimes → t.phase = .selecting todo →
      Stepped s a t := by
    intro t htimes hphase
    refine .quiet htimes (fun _ => by rw [hs]; rfl) (fun hcall => ?_) fun hended => ?_
    · rw [hphase] at hcall
      cases hcall
    · rw [hs] at hended
      cases hended
  simp only [visit] at h
  split at h
  · cases h
    exact hquiet rfl rfl
  · split at h
    · cases h
      exact hquiet rfl rfl
    · split at h
      · split at h <;> cases h
        exact hquiet rfl rfl
      · split at h <;> cases h <;> exact hquiet rfl rfl

theorem stepped_enumerate {s : EvenWait} {key : Nat} {todo : List Nat} {wsaEvents : Option CloseEvents}
    {a : EvenWaitAction} (hs : s.phase = .enumerating (key :: todo)) :
    Stepped s a (s.enumerate key todo wsaEvents) := by
  have hquiet : ∀ {t : EvenWait}, t.toEvenWaitTimes = s.toEvenWaitTimes → t.phase = .enumerating todo →
      Stepped s a t := by
    intro t htimes hphase
    refine .quiet htimes (fun hbefore => ?_) (fun hcall => ?_) fun hended => ?_
    · rw [hphase] at hbefore
      cases hbefore
    · rw [hphase] at hcall
      cases hcall
    · rw [hs] at hended
      cases hended
  simp only [enumerate]
  split
  · exact hquiet rfl rfl
  · split
    · split <;> exact hquiet rfl rfl
    · exact hquiet rfl rfl

theorem step_cases {s s' : EvenWait} {a : EvenWaitAction} (h : s.step a = some s') : Stepped s a s' := by
  have hquiet : ∀ {t : EvenWait} {phase : EvenWaitPhase}, s.phase = phase → phase.ended = false →
      t.toEvenWaitTimes = s.toEvenWaitTimes → t.phase.beforeCall = false → t.phase.inCall = false →
      Stepped s a t := by
    intro t phase hs hrunning htimes hbefore hcall
    exact .quiet htimes (by simp [hbefore]) (by simp [hcall]) (by simp [hs, hrunning])
  cases a with
  | tick ns =>
    simp only [step] at h
    split at h
    · rename_i hs
      split at h
      · cases h
        exact .last hs (by assumption)
      · cases h
    · rename_i hs
      cases h
      refine .tick ?_
      cases hphase : s.phase with
      | waiting timeout since => exact absurd hphase (hs timeout since)
      | _ => rfl
  | table dispatchers =>
    cases h
    exact .quiet rfl id (fun _ => rfl) id
  | begin =>
    simp only [step] at h
    split at h
    · rename_i hs
      split at h <;> cases h
      · exact .quiet rfl (fun _ => by rw [hs]; rfl) (fun hcall => by cases hcall)
          (by simp [hs, EvenWaitPhase.ended])
      · exact hquiet hs rfl rfl rfl rfl
    · cases h
  | visit signalClose =>
    simp only [step] at h
    split at h
    · exact stepped_visit (by assumption) h
    · cases h
  | call =>
    simp only [step] at h
    split at h
    · cases h
      exact .call (by assumption)
    · cases h
  | wake dw =>
    simp only [step] at h
    split at h
    · cases h
      exact hquiet (by assumption) rfl rfl rfl rfl
    · cases h
      exact hquiet (by assumption) rfl rfl rfl rfl
    · rename_i hs
      split at h <;> cases h
      exact hquiet hs rfl rfl rfl rfl
    · cases h
  | dispatch =>
    simp only [step] at h
    split at h
    · rename_i hs
      cases h
      cases hio : s.processIo <;> exact hquiet hs rfl rfl rfl rfl
    · rename_i index hs
      split at h
      · cases h
      · rename_i key hkey
        split at h
        · rename_i hgone
          cases h
          exact .removed (by simp [continues, hs, hkey, hgone]) (by rw [hs]; rfl)
        · cases h
          exact hquiet hs rfl rfl rfl rfl
    · cases h
  | enumerate wsaEvents =>
    simp only [step] at h
    split at h
    · cases h
      exact stepped_enumerate (by assumption)
    · cases h
      exact hquiet (by assumption) rfl rfl rfl rfl
    · cases h
  | account =>
    simp only [step] at h
    split at h
    · cases h
      exact .account
    · cases h

/-! ## The time in the calls -/

/-- The time in the calls is within this many milliseconds, to the resolution of each clock. -/
def SpentWithin (t₀ ms : Int) (s : EvenWait) : Prop :=
  s.spentMs ≤ ms ∧ (0 ≤ t₀ → s.spentNs < 1000000 * (ms + 1))

/-- What is known of a `Wait` of `cmsWait` that began at `t₀`: on the way to a call, the elapsed time of
    the last reading covers the time spent; and a call is given what is left of the wait. -/
structure Budget (t₀ cmsWait : Int) (s : EvenWait) : Prop where
  asked : s.cmsWait = cmsWait ∧ 0 ≤ cmsWait ∧ cmsWait < 2 ^ 31
  started : s.msStart = timeMillis t₀
  read : s.lastRead = s.msStart + s.cmsElapsed
  elapsedMs : 0 ≤ s.spentMs ∧ s.spentMs ≤ timeMillis s.now - timeMillis t₀
  elapsedNs : 0 ≤ s.spentNs ∧ s.spentNs ≤ s.now - t₀
  running : s.phase.ended = false → 0 ≤ s.cmsElapsed ∧ s.cmsElapsed ≤ s.cmsWait
  covered : s.phase.beforeCall = true → SpentWithin t₀ s.cmsElapsed s
  inCall : ∀ timeout since, s.phase = .waiting timeout since →
    (timeout.toNat : Int) = s.cmsWait - s.cmsElapsed ∧
    s.now ≤ since + 1000000 * timeout.toNat ∧
    s.spentMs ≤ s.cmsElapsed + (timeMillis s.now - timeMillis since) ∧
    (0 ≤ t₀ → s.spentNs < 1000000 * (s.cmsElapsed + 1) + (s.now - since))
  within : SpentWithin t₀ s.cmsWait s

theorem Budget.of_start {D : Type} [AbslDuration D] {d : D} (hd : 0 ≤ EvenLoop.toCmsWait d)
    (processIo : Bool) (dispatchers : AList fun _ : Nat => WinDispatcher) (now : Int) :
    Budget now (EvenLoop.toCmsWait d) (start d processIo dispatchers now) where
  asked := ⟨rfl, hd, EvenLoop.toCmsWait_lt d⟩
  started := rfl
  read := (add_zero _).symm
  elapsedMs := ⟨le_rfl, by simp [start]⟩
  elapsedNs := ⟨le_rfl, by simp [start]⟩
  running := fun _ => ⟨le_rfl, hd⟩
  covered := fun _ => ⟨le_rfl, fun _ => by simp [start]⟩
  inCall := fun _ _ h => by cases h
  within := ⟨hd, fun _ => by simp only [start]; omega⟩

/-- What is left of the wait fits the DWORD, and is not `INFINITE`. -/
theorem timeout_of_cmsNext {s : EvenWait} (hasked : 0 ≤ s.cmsWait ∧ s.cmsWait < 2 ^ 31)
    (helapsed : 0 ≤ s.cmsElapsed ∧ s.cmsElapsed ≤ s.cmsWait) :
    ((BitVec.ofInt 32 s.cmsNext).toNat : Int) = s.cmsWait - s.cmsElapsed := by
  have hne : s.cmsWait ≠ EvenLoop.kForeverMs := by
    rw [EvenLoop.kForeverMs]
    omega
  rw [cmsNext, if_neg hne, dword_toNat]
  omega

/-- A call with such a timeout ends in time. -/
theorem le_of_mayLast {timeout : BitVec 32} {since later : Int} (hfinite : (timeout.toNat : Int) < 2 ^ 31)
    (h : mayLast timeout since later = true) : later ≤ since + 1000000 * timeout.toNat := by
  rw [mayLast, Bool.or_eq_true] at h
  rcases h with h | h
  · rw [beq_iff_eq] at h
    rw [h] at hfinite
    exact absurd hfinite (by decide)
  · exact of_decide_eq_true h

/-- The end of an iteration: the new reading covers all that was spent. -/
theorem Budget.account {t₀ cmsWait : Int} {s : EvenWait} (h : Budget t₀ cmsWait s) :
    Budget t₀ cmsWait s.account := by
  obtain ⟨hasked, hstarted, hread, helapsedMs, helapsedNs, hrunning, hcovered, hinCall, hwithin⟩ := h
  simp only [EvenWait.account]
  split
  · exact ⟨hasked, hstarted, hread, helapsedMs, helapsedNs, fun h => (by cases h), fun h => (by cases h),
      fun _ _ h => (by cases h), hwithin⟩
  · have hne : s.cmsWait ≠ EvenLoop.kForeverMs := by
      rw [EvenLoop.kForeverMs]
      omega
    refine ⟨hasked, hstarted, ?_, helapsedMs, helapsedNs, fun hended => ?_, fun _ => ⟨?_, fun h0 => ?_⟩,
      fun timeout since hphase => ?_, hwithin⟩
    · show timeMillis s.now = s.msStart + timeSince s.now s.msStart
      rw [timeSince]
      omega
    · have hleft : ¬ s.cmsWait ≤ timeSince s.now s.msStart := by
        intro hover
        simp only [if_pos (And.intro hne hover)] at hended
        cases hended
      show 0 ≤ timeSince s.now s.msStart ∧ timeSince s.now s.msStart ≤ s.cmsWait
      rw [timeSince] at *
      omega
    · show s.spentMs ≤ timeSince s.now s.msStart
      rw [timeSince]
      omega
    · have hround := sub_lt_timeMillis (b := s.now) h0
      show s.spentNs < 1000000 * (timeSince s.now s.msStart + 1)
      rw [timeSince]
      omega
    · simp only at hphase
      split at hphase <;> cases hphase

/-- A call that goes on, which its timeout ends in time. -/
theorem Budget.last {t₀ cmsWait since : Int} {s : EvenWait} {ns : Nat} {timeout : BitVec 32}
    (h : Budget t₀ cmsWait s) (hphase : s.phase = .waiting timeout since)
    (hlast : mayLast timeout since (s.now + ns) = true) :
    Budget t₀ cmsWait { s with
      now := s.now + ns
      spentMs := s.spentMs + (timeMillis (s.now + ns) - timeMillis s.now)
      spentNs := s.spentNs + ns } := by
  obtain ⟨hasked, hstarted, hread, helapsedMs, helapsedNs, hrunning, -, hinCall, -⟩ := h
  obtain ⟨htimeout, hnow, hms, hns⟩ := hinCall timeout since hphase
  obtain ⟨hnonneg, hle⟩ := hrunning (by rw [hphase]; rfl)
  have hend := le_of_mayLast (by omega) hlast
  have hmono := timeMillis_mono (show s.now ≤ s.now + ns by omega)
  have hcall := timeMillis_le_add (show 0 ≤ (timeout.toNat : Int) by omega) hend
  refine ⟨hasked, hstarted, hread, ?_, ?_, hrunning, fun hbefore => ?_, fun timeout' since' hphase' => ?_,
    ?_, ?_⟩
  all_goals simp only at *
  · omega
  · omega
  · rw [hphase] at hbefore
    cases hbefore
  · rw [hphase] at hphase'
    cases hphase'
    refine ⟨htimeout, hend, by omega, fun h0 => ?_⟩
    have hspent := hns h0
    omega
  · omega
  · intro h0
    have hspent := hns h0
    omega

/-- A call is given what is left of the wait. -/
theorem Budget.call {t₀ cmsWait : Int} {s : EvenWait} (h : Budget t₀ cmsWait s)
    (hphase : s.phase = .selecting []) :
    Budget t₀ cmsWait { s with phase := .waiting (BitVec.ofInt 32 s.cmsNext) s.now } := by
  obtain ⟨hasked, hstarted, hread, helapsedMs, helapsedNs, hrunning, hcovered, -, hwithin⟩ := h
  obtain ⟨hms, hns⟩ := hcovered (by rw [hphase]; rfl)
  have hrange := hrunning (by rw [hphase]; rfl)
  have htimeout := timeout_of_cmsNext (by omega) hrange
  refine ⟨hasked, hstarted, hread, helapsedMs, helapsedNs, fun _ => hrange,
    fun hbefore => (by cases hbefore), fun timeout since hcall => ?_, hwithin⟩
  cases hcall
  refine ⟨htimeout, ?_, ?_, fun h0 => ?_⟩
  · show s.now ≤ s.now + _
    omega
  · show s.spentMs ≤ s.cmsElapsed + (timeMillis s.now - timeMillis s.now)
    omega
  · have hspent := hns h0
    show s.spentNs < 1000000 * (s.cmsElapsed + 1) + (s.now - s.now)
    omega

/-- The `continue`, where the last reading is that of now and covers what was spent. -/
theorem Budget.removed {t₀ cmsWait : Int} {s : EvenWait} (h : Budget t₀ cmsWait s)
    (hcurrent : timeMillis s.now = s.lastRead) (hphase : s.phase.ended = false) :
    Budget t₀ cmsWait { s with phase := .head } := by
  obtain ⟨hasked, hstarted, hread, helapsedMs, helapsedNs, hrunning, -, -, hwithin⟩ := h
  refine ⟨hasked, hstarted, hread, helapsedMs, helapsedNs, fun _ => hrunning hphase,
    fun _ => ⟨?_, fun h0 => ?_⟩, fun _ _ h => (by cases h), hwithin⟩
  · show s.spentMs ≤ s.cmsElapsed
    omega
  · have hround := sub_lt_timeMillis (b := s.now) h0
    show s.spentNs < 1000000 * (s.cmsElapsed + 1)
    omega

theorem Budget.step {t₀ cmsWait : Int} {s s' : EvenWait} {a : EvenWaitAction} (hs : Stepped s a s')
    (hok : s.KeepsUp a) (h : Budget t₀ cmsWait s) : Budget t₀ cmsWait s' := by
  obtain ⟨hasked, hstarted, hread, helapsedMs, helapsedNs, hrunning, hcovered, hinCall, hwithin⟩ := id h
  cases hs with
  | @tick ns hout =>
    have hmono := timeMillis_mono (show s.now ≤ s.now + ns by omega)
    refine ⟨hasked, hstarted, hread, ⟨helapsedMs.1, ?_⟩, ⟨helapsedNs.1, ?_⟩, hrunning, hcovered,
      fun timeout since hphase => ?_, hwithin⟩
    · show s.spentMs ≤ timeMillis (s.now + ns) - timeMillis t₀
      omega
    · show s.spentNs ≤ s.now + ns - t₀
      omega
    · rw [show s.phase = .waiting timeout since from hphase] at hout
      cases hout
  | last hphase hlast => exact h.last hphase hlast
  | @quiet _ s' htimes hbefore hcall hended =>
    cases s'
    cases htimes
    refine ⟨hasked, hstarted, hread, helapsedMs, helapsedNs, fun he => hrunning ?_,
      fun hb => hcovered (hbefore hb), fun timeout since hphase => ?_, hwithin⟩
    · rw [Bool.eq_false_iff] at he ⊢
      exact fun h => he (hended h)
    · refine hinCall timeout since ((hcall ?_).symm.trans hphase)
      rw [hphase]
      rfl
  | call hphase => exact h.call hphase
  | removed hgone hphase => exact h.removed (hok hgone) hphase
  | account => exact h.account

/-- **A bounded wait.** In a run that never takes the `continue` of a removed dispatcher with a millisecond
    on the clock that `Wait` has not read, the calls of one `Wait` last at most the asked milliseconds
    together, and on the clock of the nanoseconds less than one millisecond more. -/
theorem evenWait_bounded {D : Type} [AbslDuration D] {d : D} {processIo : Bool}
    {dispatchers : AList fun _ : Nat => WinDispatcher} {now : Int} {s : EvenWait}
    (hd : 0 ≤ EvenLoop.toCmsWait d)
    (hrun : Reaches EvenWait.step KeepsUp (start d processIo dispatchers now) s) :
    s.spentMs ≤ EvenLoop.toCmsWait d ∧ (0 ≤ now → s.spentNs < 1000000 * (EvenLoop.toCmsWait d + 1)) := by
  have hbudget : Budget now (EvenLoop.toCmsWait d) s := by
    refine hrun.invariant (fun _ _ _ hok hstep h => h.step (step_cases hstep) hok) ?_
    exact .of_start hd processIo dispatchers now
  rw [← hbudget.asked.1]
  exact hbudget.within

/-- A table of one dispatcher, with an event of its own. -/
def oneDispatcher : AList fun _ : Nat => WinDispatcher := AList.singleton 7 .event

/-- A wait of a second: the dispatcher is removed and its event comes at once; after 400 ms a socket event
    comes, which takes 100 ms. -/
def sharedWaitRun : List EvenWaitAction :=
  [.begin, .visit false, .call, .table ∅, .wake (.event 1), .dispatch, .begin, .call, .tick 400000000,
    .wake (.event 0), .dispatch, .enumerate none, .tick 100000000, .account, .begin, .call, .tick 500000000,
    .wake .timeout]

theorem evenWait_bounded_second :
    ∃ s, Reaches EvenWait.step KeepsUp (start (Ticks.finite 4000000000) true oneDispatcher 5999999) s ∧
      s.phase = .returned true ∧ s.spentMs = 900 ∧ s.spentMs ≤ 1000 ∧ s.spentNs < 1001000000 := by
  have hrun : (runWhile EvenWait.step KeepsUp (start (Ticks.finite 4000000000) true oneDispatcher 5999999)
      sharedWaitRun).isSome = true := by decide
  have hreach := reaches_get hrun
  obtain ⟨hms, hns⟩ := evenWait_bounded (D := Ticks) (by decide) hreach
  exact ⟨_, hreach, rfl, rfl, hms, hns (by decide)⟩

/-- The event of the dispatcher comes after 900 ms, and the dispatcher is removed before it is told. -/
def removedRun : List EvenWaitAction :=
  [.begin, .visit false, .call, .tick 900000000, .wake (.event 1), .table ∅, .dispatch, .begin, .call,
    .tick 1000000000, .wake .timeout]

/-- **A wait that starts anew**: the `continue` passes the end of the iteration by, and the next call is
    given the whole second again. -/
theorem evenWait_overruns :
    ¬ (∀ (d : Ticks) (processIo : Bool) (dispatchers : AList fun _ : Nat => WinDispatcher) (now : Int)
        (s : EvenWait), 0 ≤ EvenLoop.toCmsWait d →
        Reaches EvenWait.step Always (start d processIo dispatchers now) s →
        s.spentMs ≤ EvenLoop.toCmsWait d) ∧
    ∃ s, Reaches EvenWait.step Always (start (Ticks.finite 4000000000) true oneDispatcher 5999999) s ∧
      s.phase = .returned true ∧ EvenLoop.toCmsWait (Ticks.finite 4000000000) = 1000 ∧ s.spentMs = 1900 := by
  have hrun : (runWhile EvenWait.step Always (start (Ticks.finite 4000000000) true oneDispatcher 5999999)
      removedRun).isSome = true := by decide
  have hreach := reaches_get hrun
  refine ⟨fun hall => ?_, _, hreach, rfl, rfl, rfl⟩
  have hle : (1900 : Int) ≤ 1000 := hall _ _ _ _ _ (by decide) hreach
  exact absurd hle (by decide)

end EvenWait

end IoBase
