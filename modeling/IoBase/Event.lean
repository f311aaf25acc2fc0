import IoBase.Duration
import IoBase.Signal
import IoBase.Transition
import Mathlib.Logic.Function.Basic

/- The POSIX `Event`: a flag under a mutex, with a condition variable.

   A step is one thread's section with `event_mutex_` held, or the part of `Wait`
   before it takes the mutex. A section of `Wait` ends when the thread sleeps in
   `pthread_cond_wait` or `pthread_cond_timedwait`, which release the mutex, or when
   `Wait` returns. A sleeping thread may wake at any time, notified or not, with any
   result; only a thread that has a deadline can be told ETIMEDOUT.

   Correspondence (C++ ↔ Lean):
     `Event::Set`, `Event::Reset`     ↔ `EventAction.set`, `.reset`
     `Event::Wait`, up to the mutex   ↔ `EventAction.wait`, `warnDeadline`, `giveUpDeadline`
     from the mutex, and from a wake  ↔ `EventAction.lock`, `.wake`, `sectionEnd`
     the lambda `wait`                ↔ `waitLoop`
     `GetTimespec`                    ↔ `getTimespec`

   The history of an event is that of the flag `event_status_` (`follows_of_run`).

   * `event_handoff`: each true return of an auto-reset event has a `Set` of its own;
     no other return changes the flag; and nobody sleeps unnotified beside a set flag. -/
namespace IoBase
open Transition AbslDuration

def kNumMicrosecsPerSec : Int := 1000000
def kNumNanosecsPerSec : Int := 1000000000
def kNumNanosecsPerMicrosec : Int := kNumNanosecsPerSec / kNumMicrosecsPerSec

structure Timespec where
  tvSec : Int
  tvNsec : Int
  deriving DecidableEq, Repr

/-- `ts` is the reading of the clock. -/
def getTimespec {D : Type} [AbslDuration D] (ts : Timespec) (durationFromNow : D) : Timespec :=
  let microsecsFromNow := toInt64Microseconds durationFromNow
  let tvSec := ts.tvSec + microsecsFromNow.tdiv kNumMicrosecsPerSec
  let tvNsec := ts.tvNsec + microsecsFromNow.tmod kNumMicrosecsPerSec * kNumNanosecsPerMicrosec
  if tvNsec ≥ kNumNanosecsPerSec then ⟨tvSec + 1, tvNsec - kNumNanosecsPerSec⟩ else ⟨tvSec, tvNsec⟩

/-- `warn_ts`: no warning if giving up comes first. -/
def warnDeadline {D : Type} [AbslDuration D] (now : Timespec) (giveUpAfter warnAfter : D) : Option Timespec :=
  if le giveUpAfter warnAfter then none else some (getTimespec now warnAfter)

def giveUpDeadline {D : Type} [AbslDuration D] (now : Timespec) (giveUpAfter : D) : Option Timespec :=
  if eq giveUpAfter infiniteDuration then none else some (getTimespec now giveUpAfter)

/-- What a wait for the condition variable returns: 0, ETIMEDOUT, or another error. -/
inductive CondError where
  | ok
  | timedOut
  | other
  deriving DecidableEq, Repr

/-- The call of the lambda `wait` that a thread is in: `wait(warn_ts)`, with what is left to do after
    it, or `wait(give_up_ts)`. -/
inductive WaitCall where
  | warn (warnTs : Timespec) (giveUpTs : Option Timespec)
  | giveUp (giveUpTs : Option Timespec)
  deriving DecidableEq, Repr

def WaitCall.timeoutTs : WaitCall → Option Timespec
  | .warn warnTs _ => some warnTs
  | .giveUp giveUpTs => giveUpTs

/-- Where a thread is: outside, in `Wait` before the mutex, or asleep on `event_cond_`, notified by a
    broadcast or not. -/
inductive WaiterPc where
  | outside
  | entered (warnTs giveUpTs : Option Timespec)
  | asleep (call : WaitCall) (notified : Bool)
  deriving DecidableEq, Repr

structure Event where
  isManualReset : Bool
  eventStatus : Bool
  threads : Nat → WaiterPc

/-- The loop of the lambda `wait`, with the mutex held and `error` so far: the error it returns, or
    `none` when it sleeps. -/
def waitLoop (eventStatus : Bool) (error : CondError) : Option CondError :=
  if !eventStatus && error == .ok then none else some error

/-- How a section of `Wait` ends. -/
inductive SectionEnd where
  | sleep (call : WaitCall)
  | done (error : CondError)
  deriving DecidableEq, Repr

/-- The section of `Wait` that starts in `call` with `error`. -/
def sectionEnd (eventStatus : Bool) (call : WaitCall) (error : CondError) : SectionEnd :=
  match waitLoop eventStatus error with
  | none => .sleep call
  | some error =>
    match call with
    | .giveUp _ => .done error
    | .warn _ giveUpTs =>
      if error = .timedOut then
        -- the warning is logged, and `wait(give_up_ts)` starts with no error
        match waitLoop eventStatus .ok with
        | none => .sleep (.giveUp giveUpTs)
        | some error => .done error
      else .done error

inductive EventAction (D : Type) where
  | set (i : Nat)
  | reset (i : Nat)
  | wait (i : Nat) (giveUpAfter warnAfter : D) (now₁ now₂ : Timespec)
  | lock (i : Nat)
  | wake (i : Nat) (error : CondError)

inductive EventNote where
  | set (i : Nat)
  | reset (i : Nat)
  | returned (i : Nat) (result : Bool)
  deriving DecidableEq, Repr

/-- The call in which a thread that has taken the mutex starts. -/
def firstCall (warnTs giveUpTs : Option Timespec) : WaitCall :=
  match warnTs with
  | none => .giveUp giveUpTs
  | some warnTs => .warn warnTs giveUpTs

def WaiterPc.notify : WaiterPc → WaiterPc
  | .asleep call _ => .asleep call true
  | pc => pc

namespace Event

def init (manualReset initiallySignaled : Bool) : Event where
  isManualReset := manualReset
  eventStatus := initiallySignaled
  threads := fun _ => .outside

/-- The end of a section of `Wait`: an auto-reset event is reset by the thread that returns true. -/
def endSection (s : Event) (i : Nat) : SectionEnd → Event
  | .sleep call => { s with threads := Function.update s.threads i (.asleep call false) }
  | .done error => { s with
      eventStatus := if error = .ok ∧ s.isManualReset = false then false else s.eventStatus
      threads := Function.update s.threads i .outside }

variable {D : Type} [AbslDuration D]

def step (s : Event) : EventAction D → Option Event
  | .set i =>
    if s.threads i = .outside then
      some { s with eventStatus := true, threads := fun j => (s.threads j).notify }
    else none
  | .reset i => if s.threads i = .outside then some { s with eventStatus := false } else none
  | .wait i giveUpAfter warnAfter now₁ now₂ =>
    if s.threads i = .outside then
      some { s with
        threads := Function.update s.threads i
          (.entered (warnDeadline now₁ giveUpAfter warnAfter) (giveUpDeadline now₂ giveUpAfter)) }
    else none
  | .lock i =>
    match s.threads i with
    | .entered warnTs giveUpTs =>
      some (s.endSection i (sectionEnd s.eventStatus (firstCall warnTs giveUpTs) .ok))
    | _ => none
  | .wake i error =>
    match s.threads i with
    | .asleep call _ =>
      if error = .timedOut ∧ call.timeoutTs = none then none
      else some (s.endSection i (sectionEnd s.eventStatus call error))
    | _ => none

omit [AbslDuration D]

def endNotes (i : Nat) : SectionEnd → List EventNote
  | .sleep _ => []
  | .done error => [.returned i (error == .ok)]

/-- What a step adds to the history: the calls of `Set` and `Reset`, and what `Wait` returns. -/
def notes (s : Event) : EventAction D → List EventNote
  | .set i => [.set i]
  | .reset i => [.reset i]
  | .wait .. => []
  | .lock i =>
    match s.threads i with
    | .entered warnTs giveUpTs => endNotes i (sectionEnd s.eventStatus (firstCall warnTs giveUpTs) .ok)
    | _ => []
  | .wake i error =>
    match s.threads i with
    | .asleep call _ => endNotes i (sectionEnd s.eventStatus call error)
    | _ => []

end Event

/-- An event with its history. -/
abbrev eventNoted (D : Type) [AbslDuration D] := observe (Event.step (D := D)) Event.notes

/-! ## Sections -/

/-- A call that returns no error has found the flag set. -/
theorem eventStatus_of_done {eventStatus : Bool} {call : WaitCall} {error : CondError}
    (h : sectionEnd eventStatus call error = .done .ok) : eventStatus = true := by
  cases eventStatus with
  | true => rfl
  | false => cases call <;> cases error <;> simp [sectionEnd, waitLoop] at h

/-- A thread sleeps beside a flag that is not set. -/
theorem eventStatus_of_sleep {eventStatus : Bool} {call call' : WaitCall} {error : CondError}
    (h : sectionEnd eventStatus call error = .sleep call') : eventStatus = false := by
  cases eventStatus with
  | false => rfl
  | true => cases call <;> cases error <;> simp [sectionEnd, waitLoop] at h

namespace Event
variable {D : Type} [AbslDuration D]

/-- A step, by its action: `Set`, `Reset`, the start of `Wait`, or a section of it. -/
inductive Stepped (s : Event) : EventAction D → List EventNote → Event → Prop where
  | set {i : Nat} : Stepped s (.set i) [.set i]
      { s with eventStatus := true, threads := fun j => (s.threads j).notify }
  | reset {i : Nat} : Stepped s (.reset i) [.reset i] { s with eventStatus := false }
  | wait {i : Nat} {giveUpAfter warnAfter : D} {now₁ now₂ : Timespec} (warnTs giveUpTs : Option Timespec) :
      Stepped s (.wait i giveUpAfter warnAfter now₁ now₂) []
        { s with threads := Function.update s.threads i (.entered warnTs giveUpTs) }
  | sect {i : Nat} {a : EventAction D} {call : WaitCall} {error : CondError} :
      a = .lock i ∨ a = .wake i error →
      Stepped s a (endNotes i (sectionEnd s.eventStatus call error))
        (s.endSection i (sectionEnd s.eventStatus call error))

theorem step_cases {s s' : Event} {a : EventAction D} (h : s.step a = some s') :
    Stepped s a (s.notes a) s' := by
  cases a with
  | set i =>
    simp only [step] at h
    split at h
    · cases h; exact .set
    · cases h
  | reset i =>
    simp only [step] at h
    split at h
    · cases h; exact .reset
    · cases h
  | wait i giveUpAfter warnAfter now₁ now₂ =>
    simp only [step] at h
    split at h
    · cases h; exact .wait _ _
    · cases h
  | lock i =>
    simp only [step] at h
    split at h
    · rename_i warnTs giveUpTs hpc
      cases h
      simp only [notes, hpc]
      exact .sect (.inl rfl)
    · cases h
  | wake i error =>
    simp only [step] at h
    split at h
    · rename_i call notified hpc
      split at h
      · cases h
      · cases h
        simp only [notes, hpc]
        exact .sect (.inr rfl)
    · cases h

end Event

/-! ## The flag and its history -/

def EventNote.use : EventNote → Signal.Use
  | .set _ => .set
  | .reset _ => .clear
  | .returned _ true => .take
  | .returned _ false => .idle

variable {D : Type} [AbslDuration D] {isManualReset initiallySignaled : Bool}

/-- The history leads from the initial flag to the flag. -/
structure Follows (isManualReset initiallySignaled : Bool) (s : Event) (h : List EventNote) : Prop where
  manual : s.isManualReset = isManualReset
  flag : Signal.after (!isManualReset) initiallySignaled (h.map EventNote.use) = some s.eventStatus

theorem follows_step {s s' : Event} {a : EventAction D} {h : List EventNote} (hstep : s.step a = some s')
    (hf : Follows isManualReset initiallySignaled s h) :
    Follows isManualReset initiallySignaled s' (h ++ s.notes a) := by
  obtain ⟨rfl, hflag⟩ := hf
  have hnone : ∀ {notes : List EventNote}, notes = [] →
      Signal.after (!s.isManualReset) initiallySignaled ((h ++ notes).map EventNote.use) =
        some s.eventStatus := by
    rintro _ rfl
    rw [List.append_nil]
    exact hflag
  have hone : ∀ {note : EventNote},
      Signal.after (!s.isManualReset) initiallySignaled ((h ++ [note]).map EventNote.use) =
        Signal.use (!s.isManualReset) s.eventStatus note.use := by
    intro note
    rw [List.map_append]
    exact Signal.after_concat hflag
  have hcases := Event.step_cases hstep
  generalize s.notes a = notes at hcases ⊢
  cases hcases with
  | set => exact ⟨rfl, hone⟩
  | reset => exact ⟨rfl, hone⟩
  | wait => exact ⟨rfl, hnone rfl⟩
  | @sect _ _ call error =>
    cases hend : sectionEnd s.eventStatus call error with
    | sleep call' => exact ⟨rfl, hnone rfl⟩
    | done error =>
      refine ⟨rfl, hone.trans ?_⟩
      cases error with
      | ok =>
        have hset := eventStatus_of_done hend
        cases hm : s.isManualReset <;> simp [EventNote.use, Signal.use, Event.endSection, hset, hm]
      | timedOut | other => rfl

theorem follows_of_run {p : Event × List EventNote}
    (hrun : Reaches (eventNoted D) Always (Event.init isManualReset initiallySignaled, []) p) :
    Follows isManualReset initiallySignaled p.1 p.2 := by
  refine hrun.invariant (P := fun p => Follows isManualReset initiallySignaled p.1 p.2) ?_ ⟨rfl, rfl⟩
  intro p a q _ hstepₕ hf
  obtain ⟨hstep, hnotes⟩ := observe_eq_some.mp hstepₕ
  rw [hnotes]
  exact follows_step hstep hf

/-! ## The threads -/

/-- Beside a set flag nobody sleeps unnotified. -/
def NobodyForgotten (s : Event) : Prop :=
  s.eventStatus = true → ∀ i call notified, s.threads i = .asleep call notified → notified = true

theorem nobodyForgotten_step {s s' : Event} {a : EventAction D} (hstep : s.step a = some s')
    (h : NobodyForgotten s) : NobodyForgotten s' := by
  have hcases := Event.step_cases hstep
  generalize s.notes a = notes at hcases
  cases hcases with
  | set =>
    intro _ i call notified hpc
    simp only at hpc
    cases hi : s.threads i <;> simp_all [WaiterPc.notify]
  | reset => exact fun hset => by cases hset
  | @wait i =>
    intro hset j call notified hpc
    by_cases hji : j = i
    · simp [hji] at hpc
    · simp only [Function.update_of_ne hji] at hpc
      exact h hset j call notified hpc
  | @sect i _ call error =>
    cases hend : sectionEnd s.eventStatus call error with
    | sleep call' =>
      intro hset
      have hflag := eventStatus_of_sleep hend
      simp only [Event.endSection, hflag] at hset
      cases hset
    | done error =>
      intro hset j call' notified hpc
      have hflag : s.eventStatus = true := by
        simp only [Event.endSection] at hset
        split at hset
        · cases hset
        · exact hset
      by_cases hji : j = i
      · simp [Event.endSection, hji] at hpc
      · simp only [Event.endSection, Function.update_of_ne hji] at hpc
        exact h hflag j call' notified hpc

/-- A step of a thread in `Wait`. -/
def EventAction.inWait : EventAction D → Bool
  | .wait .. => true
  | .lock _ => true
  | .wake _ _ => true
  | _ => false

/-- A true return finds the flag set; a manual-reset event keeps it. -/
theorem flag_of_true {s s' : Event} {a : EventAction D} {i : Nat} (hstep : s.step a = some s')
    (hret : .returned i true ∈ s.notes a) : s.eventStatus = true ∧ s'.eventStatus = s.isManualReset := by
  have hcases := Event.step_cases hstep
  generalize s.notes a = notes at hcases hret
  cases hcases with
  | @sect _ _ call error =>
    cases hend : sectionEnd s.eventStatus call error with
    | sleep => simp [Event.endNotes, hend] at hret
    | done error =>
      obtain ⟨-, rfl⟩ : _ ∧ error = .ok := by simpa [Event.endNotes, hend] using hret
      have hset := eventStatus_of_done hend
      refine ⟨hset, ?_⟩
      cases hm : s.isManualReset <;> simp [Event.endSection, hset, hm]
  | set | reset | wait => simp at hret

/-- Nothing else in `Wait` changes the flag. -/
theorem flag_of_not_true {s s' : Event} {a : EventAction D} (hstep : s.step a = some s')
    (ha : a.inWait = true) (hret : ∀ i, .returned i true ∉ s.notes a) : s'.eventStatus = s.eventStatus := by
  have hcases := Event.step_cases hstep
  generalize s.notes a = notes at hcases hret
  cases hcases with
  | set | reset => cases ha
  | wait => rfl
  | @sect i _ call error =>
    cases hend : sectionEnd s.eventStatus call error with
    | sleep => rfl
    | done error =>
      cases error with
      | ok => exact absurd (by simp [Event.endNotes, hend]) (hret i)
      | timedOut | other => rfl

/-! ## The hand-off -/

/-- The note at `n` is a `Wait` that returned true. -/
def ReturnsTrue (h : List EventNote) (n : Nat) : Prop := ∃ i, h[n]? = some (.returned i true)

def Sets (h : List EventNote) (n : Nat) : Prop := ∃ i, h[n]? = some (.set i)

theorem use_of_returnsTrue {h : List EventNote} {n : Nat} (hn : ReturnsTrue h n) :
    (h.map EventNote.use)[n]? = some .take := by
  obtain ⟨i, hn⟩ := hn
  rw [List.getElem?_map, hn]
  rfl

theorem sets_of_use {h : List EventNote} {n : Nat} (hn : (h.map EventNote.use)[n]? = some .set) : Sets h n := by
  rw [List.getElem?_map, Option.map_eq_some_iff] at hn
  obtain ⟨note, hnote, huse⟩ := hn
  cases note with
  | set i => exact ⟨i, hnote⟩
  | reset => cases huse
  | returned _ result => cases result <;> cases huse

/-- **Hand-off.** In every run of the threads of an event: if it is auto-reset, each true return
    consumes a `Set` before it that no other one consumes, or the initial signal, and there is a `Set`
    between any two; a true return leaves a manual-reset event set; no other step of a `Wait` changes
    the flag; and while the flag is set every sleeper has been notified. -/
theorem event_handoff {p : Event × List EventNote}
    (hrun : Reaches (eventNoted D) Always (Event.init isManualReset initiallySignaled, []) p) :
    (isManualReset = false →
      (∃ consumed : Nat → Option Nat,
        (∀ n, ReturnsTrue p.2 n → consumed n = none ∧ initiallySignaled = true ∨
          ∃ k, consumed n = some k ∧ k < n ∧ Sets p.2 k) ∧
        ∀ n n', ReturnsTrue p.2 n → ReturnsTrue p.2 n' → consumed n = consumed n' → n = n') ∧
      ∀ n n', n < n' → ReturnsTrue p.2 n → ReturnsTrue p.2 n' → ∃ k, n < k ∧ k < n' ∧ Sets p.2 k) ∧
    (∀ (a : EventAction D) s' i, p.1.step a = some s' → .returned i true ∈ p.1.notes a →
      p.1.eventStatus = true ∧ s'.eventStatus = isManualReset) ∧
    (∀ (a : EventAction D) s', p.1.step a = some s' → a.inWait = true →
      (∀ i, .returned i true ∉ p.1.notes a) → s'.eventStatus = p.1.eventStatus) ∧
    (p.1.eventStatus = true → ∀ i call notified, p.1.threads i = .asleep call notified → notified = true) := by
  obtain ⟨hmanual, hflag⟩ := follows_of_run hrun
  have hforgotten : NobodyForgotten p.1 := by
    refine hrun.invariant (P := fun p => NobodyForgotten p.1)
      (fun p a q _ hstep h => nobodyForgotten_step (observe_eq_some.mp hstep).1 h) ?_
    intro _ i call notified hpc
    cases hpc
  refine ⟨?_, fun a s' i hstep hret => hmanual ▸ flag_of_true hstep hret,
    fun a s' hstep ha hret => flag_of_not_true hstep ha hret, hforgotten⟩
  intro he
  subst he
  refine ⟨⟨Signal.lastSet (p.2.map EventNote.use), fun n hn => ?_, fun n n' hn hn' hsame => ?_⟩,
    fun n n' hlt hn hn' => ?_⟩
  · cases hlast : Signal.lastSet (p.2.map EventNote.use) n with
    | none => exact .inl ⟨rfl, Signal.flag_of_lastSet hflag (use_of_returnsTrue hn) hlast⟩
    | some k =>
      obtain ⟨hlt, hk⟩ := Signal.lastSet_spec hlast
      exact .inr ⟨k, rfl, hlt, sets_of_use hk⟩
  · have htake := use_of_returnsTrue hn
    have htake' := use_of_returnsTrue hn'
    rcases Nat.lt_trichotomy n n' with hlt | heq | hgt
    · exact absurd hsame (Signal.lastSet_ne hflag hlt htake htake')
    · exact heq
    · exact absurd hsame.symm (Signal.lastSet_ne hflag hgt htake' htake)
  · obtain ⟨k, hnk, hkn, hk⟩ :=
      Signal.exists_set_between hflag hlt (use_of_returnsTrue hn) (use_of_returnsTrue hn')
    exact ⟨k, hnk, hkn, sets_of_use hk⟩

/-- One broadcast wakes two threads, and the second one to run sleeps again; it gives up, and a later
    `Set` lets it through. -/
def twoWaitersRun : List (EventAction Ticks) :=
  [.wait 1 (.finite 4000000) .posInf ⟨5, 0⟩ ⟨5, 0⟩, .lock 1,
    .wait 2 .posInf (.finite 12000000000) ⟨5, 7⟩ ⟨5, 7⟩, .lock 2, .set 3, .wake 2 .ok, .wake 1 .ok,
    .wake 1 .timedOut, .set 3, .wait 1 .posInf .posInf ⟨6, 0⟩ ⟨6, 0⟩, .lock 1]

theorem event_handoff_twoWaiters :
    ∃ p : Event × List EventNote,
      Reaches (eventNoted Ticks) Always (Event.init false false, []) p ∧
      p.2 = [.set 3, .returned 2 true, .returned 1 false, .set 3, .returned 1 true] ∧
      ∃ k, 1 < k ∧ k < 4 ∧ Sets p.2 k := by
  have hrun : (runWhile (eventNoted Ticks) Always (Event.init false false, []) twoWaitersRun).isSome = true := by
    decide
  have hreach := reaches_get hrun
  exact ⟨_, hreach, rfl, ((event_handoff hreach).1 rfl).2 1 4 (by decide) ⟨2, rfl⟩ ⟨1, rfl⟩⟩

end IoBase
