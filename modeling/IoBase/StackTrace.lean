import IoBase.Transition
import Mathlib.Data.BitVec
import Mathlib.Logic.Function.Basic

/- The capture of another thread's stack, in `stacktrace.cc`.

   `CaptureRawStacktrace` installs `SignalHandler` for `kSignal`, interrupts the thread and
   waits for the handler. Its calls exclude each other by `mutex_`; what they share with
   the handler is the process's disposition for `kSignal` and `current_output_state_`. A
   `params` is known by the number of its call, so it can be told from one whose call has
   returned. A step is one statement of the call with the mutex, or one run of the handler,
   on any thread, for a `kSignal` from anywhere.

   Correspondence (C++ ↔ Lean):
     `SignalHandlerOutputState::UnwindBacktrace` ↔ `SignalHandlerOutputState.unwindBacktrace`
     `_Unwind_Backtrace`                         ↔ `SignalHandlerOutputState.backtrace`
     `GlobalStackUnwinder::SignalHandler`        ↔ `UnwinderAction.signal`
     `CaptureRawStacktrace`, in order            ↔ `enter`, `sigaction`, `tgkill`, `wait`, `restore`
     an iteration of `AsyncSafeWaitableEvent::Wait` ↔ `UnwinderAction.wait`

   * `addresses_bounded`: no run of the handler overflows an array.
   * `capture_leaves_trace`: what the calls leave in the shared state, and when the next
     `kSignal` writes into a dead frame.
   * `failed_capture_leaves_trace`: an exit that skips the restore, and the call after it. -/
namespace IoBase
open Transition

def kMaxStackSize : Nat := 100

/-- What the process does on `kSignal`. -/
inductive Disposition where
  | signalHandler
  | other (n : Nat)
  deriving DecidableEq, Repr

/-- The failures of `CaptureRawStacktrace`. -/
inductive CaptureError where
  | changeAction
  | interrupt
  | wait
  deriving DecidableEq, Repr

/-- What it returns then. -/
def CaptureError.text : CaptureError → String
  | .changeAction => "Failed to change signal action"
  | .interrupt => "Failed to interrupt thread"
  | .wait => "Failed to wait for thread to finish stack trace"

/-- `signal_handler_finish_event` is whether its futex is set. -/
structure SignalHandlerOutputState where
  signalHandlerFinishEvent : Bool
  addresses : List (BitVec 64)
  deriving DecidableEq, Repr

namespace SignalHandlerOutputState

def init : SignalHandlerOutputState := ⟨false, []⟩

/-- The state after the frame of `ip`, or `none` at the end of the array. -/
def unwindBacktrace (s : SignalHandlerOutputState) (ip : BitVec 64) : Option SignalHandlerOutputState :=
  if kMaxStackSize ≤ s.addresses.length then none
  else some { s with addresses := s.addresses ++ [ip - 2] }

/-- The frames of the interrupted thread, until one is refused. -/
def backtrace (s : SignalHandlerOutputState) : List (BitVec 64) → SignalHandlerOutputState
  | [] => s
  | ip :: frames =>
    match s.unwindBacktrace ip with
    | none => s
    | some s' => s'.backtrace frames

end SignalHandlerOutputState

/-- Where the call with the mutex is; `old_act` is what the handler replaced. -/
inductive CapturePhase where
  | stored
  | installed (oldAct : Disposition)
  | waiting (oldAct : Disposition)
  | captured (oldAct : Disposition)
  deriving DecidableEq, Repr

/-- What the call has to restore. -/
def CapturePhase.oldAct : CapturePhase → Option Disposition
  | .stored => none
  | .installed oldAct | .waiting oldAct | .captured oldAct => some oldAct

/-- A call that has returned, with the error string or null, and whether the disposition is as it found
    it. -/
structure CaptureReturn where
  call : Nat
  error : Option String
  undone : Bool
  deriving DecidableEq, Repr

structure Unwinder where
  disposition : Disposition
  currentOutputState : Option Nat
  outputStates : Nat → SignalHandlerOutputState
  /-- The call that has `mutex_`. -/
  holder : Option (Nat × CapturePhase)
  nextCall : Nat
  returned : List CaptureReturn

inductive UnwinderAction where
  | enter
  | sigaction (ok : Bool)
  | tgkill (ok : Bool)
  | signal (frames : List (BitVec 64))
  | wait (ok : Bool)
  | restore (ok : Bool)

namespace Unwinder

def init (before : Disposition) : Unwinder where
  disposition := before
  currentOutputState := none
  outputStates := fun _ => .init
  holder := none
  nextCall := 0
  returned := []

/-- The call returns, which releases the mutex. -/
def finish (s : Unwinder) (call : Nat) (error : Option String) (undone : Bool) : Unwinder :=
  { s with holder := none, returned := s.returned ++ [⟨call, error, undone⟩] }

/-- `SignalHandler`, on a thread with these frames. -/
def signalHandler (s : Unwinder) (frames : List (BitVec 64)) : Unwinder :=
  match s.currentOutputState with
  | none => s
  | some call => { s with
      outputStates := Function.update s.outputStates call
        { (s.outputStates call).backtrace frames with signalHandlerFinishEvent := true } }

def step (s : Unwinder) : UnwinderAction → Option Unwinder
  | .enter =>
    match s.holder with
    | none => some { s with
        currentOutputState := some s.nextCall
        outputStates := Function.update s.outputStates s.nextCall .init
        holder := some (s.nextCall, .stored)
        nextCall := s.nextCall + 1 }
    | some _ => none
  | .sigaction ok =>
    match s.holder with
    | some (call, .stored) =>
      if ok then
        some { s with disposition := .signalHandler, holder := some (call, .installed s.disposition) }
      else some (s.finish call (some CaptureError.changeAction.text) true)
    | _ => none
  | .tgkill ok =>
    match s.holder with
    | some (call, .installed oldAct) =>
      if ok then some { s with holder := some (call, .waiting oldAct) }
      else some (s.finish call (some CaptureError.interrupt.text) false)
    | _ => none
  | .wait ok =>
    match s.holder with
    | some (call, .waiting oldAct) =>
      if (s.outputStates call).signalHandlerFinishEvent then
        some { s with holder := some (call, .captured oldAct) }
      -- a wake-up without an error and without the signal waits again
      else if ok then some s
      else some (s.finish call (some CaptureError.wait.text) false)
    | _ => none
  | .restore ok =>
    match s.holder with
    | some (call, .captured oldAct) =>
      if ok then some ({ s with disposition := oldAct }.finish call none true)
      else some (s.finish call none false)
    | _ => none
  | .signal frames =>
    match s.disposition with
    | .signalHandler => some (s.signalHandler frames)
    | .other _ => some s

/-! ## What a step can do -/

/-- The steps, by what they do to the shared state. -/
inductive Stepped (s : Unwinder) : Unwinder → Prop where
  | enter : s.holder = none → Stepped s { s with
      currentOutputState := some s.nextCall
      outputStates := Function.update s.outputStates s.nextCall .init
      holder := some (s.nextCall, .stored)
      nextCall := s.nextCall + 1 }
  | install {call : Nat} : s.holder = some (call, .stored) → Stepped s { s with
      disposition := .signalHandler
      holder := some (call, .installed s.disposition) }
  | refused {call : Nat} : s.holder = some (call, .stored) →
      Stepped s (s.finish call (some CaptureError.changeAction.text) true)
  | proceed {call : Nat} {phase phase' : CapturePhase} : s.holder = some (call, phase) →
      phase'.oldAct = phase.oldAct → Stepped s { s with holder := some (call, phase') }
  /-- An exit that leaves the handler installed. -/
  | abandon {call : Nat} {phase : CapturePhase} {oldAct : Disposition} {error : Option String} :
      s.holder = some (call, phase) → phase.oldAct = some oldAct →
      Stepped s (s.finish call error false)
  | restore {call : Nat} {oldAct : Disposition} : s.holder = some (call, .captured oldAct) →
      Stepped s ({ s with disposition := oldAct }.finish call none true)
  | handle (frames : List (BitVec 64)) : s.disposition = .signalHandler → Stepped s (s.signalHandler frames)
  | idle : Stepped s s

theorem step_cases {s s' : Unwinder} {a : UnwinderAction} (h : s.step a = some s') :
    Stepped s s' := by
  cases a with
  | enter =>
    simp only [step] at h
    split at h
    · rename_i hfree
      cases h
      exact .enter hfree
    · cases h
  | sigaction ok =>
    simp only [step] at h
    split at h
    · rename_i hs
      cases ok <;> cases h
      · exact .refused hs
      · exact .install hs
    · cases h
  | tgkill ok =>
    simp only [step] at h
    split at h
    · rename_i hs
      cases ok <;> cases h
      · exact .abandon hs rfl
      · exact .proceed hs rfl
    · cases h
  | signal frames =>
    simp only [step] at h
    split at h <;> cases h
    · exact .handle frames (by assumption)
    · exact .idle
  | wait ok =>
    simp only [step] at h
    split at h
    · rename_i hs
      split at h
      · cases h
        exact .proceed hs rfl
      · cases ok <;> cases h
        · exact .abandon hs rfl
        · exact .idle
    · cases h
  | restore ok =>
    simp only [step] at h
    split at h
    · rename_i hs
      cases ok <;> cases h
      · exact .abandon hs rfl
      · exact .restore hs
    · cases h

end Unwinder

/-! ## The arrays -/

namespace SignalHandlerOutputState

theorem backtrace_length {frames : List (BitVec 64)} :
    ∀ {s : SignalHandlerOutputState}, s.addresses.length ≤ kMaxStackSize →
      (s.backtrace frames).addresses.length ≤ kMaxStackSize := by
  induction frames with
  | nil => exact fun h => h
  | cons ip frames ih =>
    intro s hs
    by_cases hfull : kMaxStackSize ≤ s.addresses.length
    · simpa [backtrace, unwindBacktrace, hfull] using hs
    · have hroom : (s.addresses ++ [ip - 2]).length ≤ kMaxStackSize := by
        simp only [List.length_append, List.length_singleton]
        omega
      simpa [backtrace, unwindBacktrace, hfull] using
        ih (s := { s with addresses := s.addresses ++ [ip - 2] }) hroom

end SignalHandlerOutputState

namespace Unwinder

/-- No run of the handler goes past the end of an array. -/
theorem addresses_bounded {before : Disposition} {s : Unwinder} (hrun : Reaches step Always (init before) s)
    (call : Nat) : (s.outputStates call).addresses.length ≤ kMaxStackSize := by
  have hkept : ∀ call, (s.outputStates call).addresses.length ≤ kMaxStackSize := by
    refine hrun.invariant (P := fun s => ∀ call, (s.outputStates call).addresses.length ≤ kMaxStackSize)
      (fun s a s' _ hstep hs call' => ?_) (fun _ => Nat.zero_le _)
    cases step_cases hstep with
    | enter =>
      by_cases hcall : call' = s.nextCall
      · subst hcall
        simp [SignalHandlerOutputState.init]
      · simpa [hcall] using hs call'
    | handle frames =>
      simp only [signalHandler]
      split
      · exact hs call'
      · rename_i call _
        by_cases hcall : call' = call
        · subst hcall
          simpa using SignalHandlerOutputState.backtrace_length (hs call')
        · simpa [hcall] using hs call'
    | _ => exact hs call'
  exact hkept call

/-! ## What the calls leave -/

/-- The calls that have entered, in order. -/
def calls (s : Unwinder) : List Nat := s.returned.map CaptureReturn.call ++ s.holder.toList.map Prod.fst

/-- The disposition that the returned calls leave. -/
def leaves (before : Disposition) (returned : List CaptureReturn) : Disposition :=
  if ∀ r ∈ returned, r.undone = true then before else .signalHandler

/-- The pointer is the last call's; and what a call is to restore is what the calls before it left. -/
structure Traced (before : Disposition) (s : Unwinder) : Prop where
  pointer : s.currentOutputState = s.calls.getLast?
  untouched : (∀ call phase, s.holder = some (call, phase) → phase.oldAct = none) →
    s.disposition = leaves before s.returned
  replaced : ∀ call phase oldAct, s.holder = some (call, phase) → phase.oldAct = some oldAct →
    s.disposition = .signalHandler ∧ oldAct = leaves before s.returned

theorem leaves_append_undone (before : Disposition) (returned : List CaptureReturn) (call : Nat)
    (error : Option String) :
    leaves before (returned ++ [⟨call, error, true⟩]) = leaves before returned := by
  simp [leaves, or_imp, forall_and]

theorem leaves_append_abandoned (before : Disposition) (returned : List CaptureReturn) (call : Nat)
    (error : Option String) :
    leaves before (returned ++ [⟨call, error, false⟩]) = .signalHandler := by
  simp [leaves, or_imp, forall_and]

theorem Traced.of_init (before : Disposition) : Traced before (init before) where
  pointer := rfl
  untouched := fun _ => rfl
  replaced := fun _ _ _ h => by cases h

theorem Traced.step {before : Disposition} {s s' : Unwinder} (hs : Stepped s s') (ht : Traced before s) :
    Traced before s' := by
  obtain ⟨hpointer, huntouched, hreplaced⟩ := ht
  cases hs with
  | enter hfree =>
    refine ⟨by simp [calls], fun _ => ?_, fun call phase oldAct h hold => ?_⟩
    · refine huntouched fun call phase h => ?_
      rw [hfree] at h
      cases h
    · cases h
      cases hold
  | install hstored =>
    refine ⟨?_, fun h => ?_, fun call phase oldAct h hold => ?_⟩
    · simpa [calls, hstored] using hpointer
    · exact absurd (h _ _ rfl) (by simp [CapturePhase.oldAct])
    · cases h
      cases hold
      refine ⟨rfl, huntouched fun call phase h => ?_⟩
      rw [hstored] at h
      cases h
      rfl
  | refused hstored =>
    refine ⟨?_, fun _ => ?_, fun call phase oldAct h => by cases h⟩
    · simpa [calls, finish, hstored] using hpointer
    · simp only [finish]
      rw [leaves_append_undone]
      refine huntouched fun call phase h => ?_
      rw [hstored] at h
      cases h
      rfl
  | proceed hphase hsame =>
    refine ⟨?_, fun h => ?_, fun call phase oldAct h hold => ?_⟩
    · simpa [calls, hphase] using hpointer
    · refine huntouched fun call phase hcall => ?_
      rw [hphase] at hcall
      cases hcall
      exact hsame.symm.trans (h _ _ rfl)
    · cases h
      exact hreplaced _ _ _ hphase (hsame.symm.trans hold)
  | abandon hphase hold =>
    refine ⟨?_, fun _ => ?_, fun call phase oldAct h => by cases h⟩
    · simpa [calls, finish, hphase] using hpointer
    · simp only [finish]
      rw [leaves_append_abandoned]
      exact (hreplaced _ _ _ hphase hold).1
  | restore hcaptured =>
    refine ⟨?_, fun _ => ?_, fun call phase oldAct h => by cases h⟩
    · simpa [calls, finish, hcaptured] using hpointer
    · simp only [finish]
      rw [leaves_append_undone]
      exact (hreplaced _ _ _ hcaptured rfl).2
  | handle frames _ =>
    simp only [signalHandler]
    split
    · exact ⟨hpointer, huntouched, hreplaced⟩
    · exact ⟨hpointer, huntouched, hreplaced⟩
  | idle => exact ⟨hpointer, huntouched, hreplaced⟩

theorem traced {before : Disposition} {s : Unwinder} (hrun : Reaches Unwinder.step Always (init before) s) :
    Traced before s :=
  hrun.invariant (fun _ _ _ _ hstep ht => ht.step (step_cases hstep)) (.of_init before)

/-- With no call in progress: the disposition of before the first call, and a pointer to no `params` of
    a call that has returned. -/
structure NoTrace (before : Disposition) (s : Unwinder) : Prop where
  disposition : s.disposition = before
  pointer : ∀ r ∈ s.returned, s.currentOutputState ≠ some r.call

/-- `SignalHandler` runs on `kSignal`, with the `params` of a call that has returned. -/
def WritesDeadFrame (s : Unwinder) : Prop :=
  s.disposition = .signalHandler ∧ ∃ r ∈ s.returned, s.currentOutputState = some r.call

/-- Then a `kSignal` sets the event of such a `params`, whatever the frames. -/
theorem signal_deadFrame {s : Unwinder} (hdead : s.WritesDeadFrame) (frames : List (BitVec 64)) :
    ∃ r ∈ s.returned, ∃ s', s.step (.signal frames) = some s' ∧
      s'.outputStates r.call =
        { (s.outputStates r.call).backtrace frames with signalHandlerFinishEvent := true } := by
  obtain ⟨hdisposition, r, hr, hpointer⟩ := hdead
  refine ⟨r, hr, s.signalHandler frames, by simp [step, hdisposition], ?_⟩
  simp [signalHandler, hpointer]

/-- Otherwise it leaves them all alone. -/
theorem signal_liveFrame {s s' : Unwinder} {frames : List (BitVec 64)} (hlive : ¬ s.WritesDeadFrame)
    (h : s.step (.signal frames) = some s') :
    ∀ r ∈ s.returned, s'.outputStates r.call = s.outputStates r.call := by
  intro r hr
  cases hdisposition : s.disposition with
  | other n =>
    simp only [step, hdisposition] at h
    cases h
    rfl
  | signalHandler =>
    have hne : s.currentOutputState ≠ some r.call := fun hpointer => hlive ⟨hdisposition, r, hr, hpointer⟩
    simp only [step, hdisposition] at h
    cases h
    simp only [signalHandler]
    split
    · rfl
    · rename_i call hcall
      have hother : r.call ≠ call := fun he => hne (he ▸ hcall)
      simp [hother]

/-- Once a call has returned, the pointer is to the `params` of one that has. -/
theorem pointer_dangles {before : Disposition} {s : Unwinder} (ht : Traced before s) (hfree : s.holder = none)
    (hret : s.returned ≠ []) : ∃ r ∈ s.returned, s.currentOutputState = some r.call := by
  refine ⟨s.returned.getLast hret, List.getLast_mem hret, ?_⟩
  rw [ht.pointer, calls, hfree]
  simp [List.getLast?_eq_some_getLast hret]

theorem leaves_undone {returned : List CaptureReturn} (h : ∀ r ∈ returned, r.undone = true)
    (before : Disposition) : leaves before returned = before :=
  if_pos h

theorem leaves_abandoned {returned : List CaptureReturn} (h : ∃ r ∈ returned, r.undone = false)
    (before : Disposition) : leaves before returned = .signalHandler := by
  obtain ⟨r, hr, hfalse⟩ := h
  refine if_neg fun hall => ?_
  rw [hall r hr] at hfalse
  cases hfalse

theorem undone_or_abandoned (returned : List CaptureReturn) :
    (∀ r ∈ returned, r.undone = true) ∨ ∃ r ∈ returned, r.undone = false := by
  by_contra hcon
  obtain ⟨hsome, hnone⟩ := not_or.mp hcon
  exact hsome fun r hr => by
    by_contra hfalse
    exact hnone ⟨r, hr, Bool.eq_false_iff.mpr hfalse⟩

theorem leaves_eq_before {before : Disposition} {returned : List CaptureReturn} :
    leaves before returned = before ↔ before = .signalHandler ∨ ∀ r ∈ returned, r.undone = true := by
  constructor
  · intro h
    rcases undone_or_abandoned returned with hundone | habandoned
    · exact .inr hundone
    · exact .inl (h.symm.trans (leaves_abandoned habandoned before))
  · intro h
    rcases undone_or_abandoned returned with hundone | habandoned
    · exact leaves_undone hundone before
    · rw [leaves_abandoned habandoned]
      rcases h with h | h
      · exact h.symm
      · exact (leaves_abandoned habandoned before).symm.trans (leaves_undone h before)

theorem leaves_eq_signalHandler {before : Disposition} {returned : List CaptureReturn} :
    leaves before returned = .signalHandler ↔
      before = .signalHandler ∨ ∃ r ∈ returned, r.undone = false := by
  constructor
  · intro h
    rcases undone_or_abandoned returned with hundone | habandoned
    · exact .inl ((leaves_undone hundone before).symm.trans h)
    · exact .inr habandoned
  · intro h
    rcases h with h | h
    · rw [leaves_eq_before.mpr (.inl h), h]
    · exact leaves_abandoned h before

/-- **The trace of a capture.** Whatever the calls and the outcomes of their steps, once one has returned
    and none is in progress the pointer is to the `params` of a call that has returned. The disposition is
    the one of before the first call exactly where that was `SignalHandler` already, or every call undid
    its change of it; and where that is not so, the next `kSignal` writes into a dead frame: it puts its
    frames into the `params` of a call that has returned, which it leaves alone elsewhere. -/
theorem capture_leaves_trace {before : Disposition} {s : Unwinder}
    (hrun : Reaches Unwinder.step Always (init before) s) (hfree : s.holder = none) (hret : s.returned ≠ []) :
    ¬ s.NoTrace before ∧
    (s.disposition = before ↔ before = .signalHandler ∨ ∀ r ∈ s.returned, r.undone = true) ∧
    (s.WritesDeadFrame ↔ before = .signalHandler ∨ ∃ r ∈ s.returned, r.undone = false) ∧
    (s.WritesDeadFrame → ∀ frames, ∃ r ∈ s.returned, ∃ s', s.step (.signal frames) = some s' ∧
      s'.outputStates r.call =
        { (s.outputStates r.call).backtrace frames with signalHandlerFinishEvent := true }) ∧
    (¬ s.WritesDeadFrame → ∀ frames s', s.step (.signal frames) = some s' →
      ∀ r ∈ s.returned, s'.outputStates r.call = s.outputStates r.call) := by
  have ht := traced hrun
  have hdangles := pointer_dangles ht hfree hret
  have hdisposition : s.disposition = leaves before s.returned := by
    refine ht.untouched fun call phase h => ?_
    rw [hfree] at h
    cases h
  refine ⟨fun hno => ?_, ?_, ?_, signal_deadFrame, fun hlive _ _ => signal_liveFrame hlive⟩
  · obtain ⟨r, hr, hpointer⟩ := hdangles
    exact hno.pointer r hr hpointer
  · rw [hdisposition]
    exact leaves_eq_before
  · rw [← leaves_eq_signalHandler, ← hdisposition]
    exact ⟨fun h => h.1, fun h => ⟨h, hdangles⟩⟩

/-- A thread of three frames is captured; its handler was another before and is so again. -/
def capturedRun : List UnwinderAction :=
  [.enter, .sigaction true, .tgkill true, .wait true, .signal [20, 40, 60], .wait true, .restore true]

theorem capture_leaves_trace_captured :
    ∃ s, Reaches Unwinder.step Always (init (.other 0)) s ∧ s.returned = [⟨0, none, true⟩] ∧
      s.outputStates 0 = ⟨true, [18, 38, 58]⟩ ∧ ¬ s.NoTrace (.other 0) ∧ s.disposition = .other 0 ∧
      ¬ s.WritesDeadFrame := by
  have hrun : (runWhile Unwinder.step Always (init (.other 0)) capturedRun).isSome = true := by decide
  obtain ⟨s, hreach, hfree, hret, haddresses⟩ : ∃ s, Reaches Unwinder.step Always (init (.other 0)) s ∧
      s.holder = none ∧ s.returned = [⟨0, none, true⟩] ∧ s.outputStates 0 = ⟨true, [18, 38, 58]⟩ :=
    ⟨_, reaches_get hrun, rfl, rfl, rfl⟩
  obtain ⟨htrace, hdisposition, hdead, -, -⟩ := capture_leaves_trace hreach hfree (by simp [hret])
  refine ⟨s, hreach, hret, haddresses, htrace, hdisposition.mpr (.inr (by simp [hret])), fun h => ?_⟩
  simpa [hret] using hdead.mp h

/-- The thread of the first call does not exist; the second call succeeds. -/
def failedRun : List UnwinderAction :=
  [.enter, .sigaction true, .tgkill false, .enter, .sigaction true, .tgkill true, .signal [20], .wait true,
    .restore true]

/-- **A failed call leaves the handler installed**, and the next one restores just that: a later `kSignal`
    writes into the `params` of a call that has returned. -/
theorem failed_capture_leaves_trace :
    ¬ (∀ (before : Disposition) (s : Unwinder), Reaches Unwinder.step Always (init before) s →
      s.holder = none → s.NoTrace before ∧ ¬ s.WritesDeadFrame) ∧
    ∃ s, Reaches Unwinder.step Always (init (.other 0)) s ∧ s.holder = none ∧
      s.returned = [⟨0, some CaptureError.interrupt.text, false⟩, ⟨1, none, true⟩] ∧
      s.disposition = .signalHandler ∧ s.currentOutputState = some 1 ∧
      (s.step (.signal [80])).map (fun s' => s'.outputStates 1) = some ⟨true, [18, 78]⟩ := by
  have hrun : (runWhile Unwinder.step Always (init (.other 0)) failedRun).isSome = true := by decide
  have hreach := reaches_get hrun
  refine ⟨fun hall => ?_, _, hreach, rfl, rfl, rfl, rfl, rfl⟩
  have hsame := (hall _ _ hreach rfl).1.disposition
  cases hsame

end Unwinder

end IoBase
