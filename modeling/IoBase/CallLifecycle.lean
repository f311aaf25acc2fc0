import IoBase.EventLoop

/- The life of one blocking call.

   A call is entered by its caller, refused or checked, and then run in place or
   posted; a posted task is dropped, or queued, run and destroyed; the caller
   leaves. `CallPhase.next` is that automaton, and `CallPhase.record` what a call
   looks like in each phase. What is to be shown of every call is read off the
   automaton here; `BlockingCall.lean` shows that every call of the loop follows it. -/
namespace IoBase
open Transition

/-- Where a call is in its life. `destroyed` is the phase between the destruction of the task and
    the return of the caller. -/
inductive CallPhase where
  | unused
  | entered (i : Tid)
  | checked (i : Tid)
  | posting (i : Tid)
  | queued (i : Tid)
  | running (i : Tid)
  | ran (i : Tid)
  | inline
  | returning
  | destroyed (i : Tid) (hasRun : Bool)
  | returned (i : Tid) (hasRun done foundNotBegun : Bool)
  deriving DecidableEq, Repr

inductive CallEvent where
  | enter (i : Tid)
  | refuse (foundNotBegun : Bool)
  | check
  | runInline
  | post
  | push
  | drop
  | start
  | finish
  | destroy
  | leave
  deriving DecidableEq, Repr

/-- After these the call returns without its functor having run, though the loop had begun. -/
def CallEvent.skips : CallEvent → Bool
  | .refuse foundNotBegun => !foundNotBegun
  | .drop => true
  | _ => false

/-- What the caller is doing for the call. -/
inductive CallRole where
  | none
  | entered
  | checked
  | posting
  | awaiting
  | returning
  deriving DecidableEq, Repr

/-- The places that hold a call: the queues, and the frames that run it. -/
inductive CallPlace where
  | queued
  | running
  | ran
  | inline
  deriving DecidableEq, Repr

namespace CallPhase

def next : CallPhase → CallEvent → Option CallPhase
  | .unused, .enter i => some (.entered i)
  | .entered i, .refuse foundNotBegun => some (.returned i false false foundNotBegun)
  | .entered i, .check => some (.checked i)
  | .checked i, .runInline => if i = loopThread then some .inline else none
  | .checked i, .post => some (.posting i)
  | .posting i, .push => some (.queued i)
  | .posting i, .drop => some (.destroyed i false)
  | .queued i, .start => some (.running i)
  | .queued i, .drop => some (.destroyed i false)
  | .running i, .finish => some (.ran i)
  | .ran i, .destroy => some (.destroyed i true)
  | .inline, .finish => some .returning
  | .returning, .leave => some (.returned loopThread true false false)
  | .destroyed i hasRun, .leave => some (.returned i hasRun true false)
  | _, _ => none

/-- The threads a functor that has run has run on. -/
def ranOn (hasRun : Bool) : List Tid := if hasRun then [loopThread] else []

def record : CallPhase → CallRecord
  | .unused => { caller := 0 }
  | .entered i => { caller := i }
  | .checked i => { caller := i }
  | .posting i => { caller := i }
  | .queued i => { caller := i }
  | .running i => { caller := i, ranOn := [loopThread], executing := true }
  | .ran i => { caller := i, ranOn := [loopThread] }
  | .inline => { caller := loopThread, ranOn := [loopThread], executing := true }
  | .returning => { caller := loopThread, ranOn := [loopThread] }
  | .destroyed i hasRun => { caller := i, ranOn := ranOn hasRun, done := true }
  | .returned i hasRun done foundNotBegun =>
    { caller := i, ranOn := ranOn hasRun, done, returned := true, foundNotBegun }

def role : CallPhase → CallRole
  | .entered _ => .entered
  | .checked _ => .checked
  | .posting _ => .posting
  | .queued _ => .awaiting
  | .running _ => .awaiting
  | .ran _ => .awaiting
  | .destroyed _ _ => .awaiting
  | .returning => .returning
  | _ => .none

def place : CallPhase → Option CallPlace
  | .queued _ => some .queued
  | .running _ => some .running
  | .ran _ => some .ran
  | .inline => some .inline
  | _ => none

def count (p : CallPhase) (pl : CallPlace) : Nat := if p.place = some pl then 1 else 0

/-- Phases that are only reached when `Begin` has run. -/
def afterBegin : CallPhase → Bool
  | .checked _ => true
  | .posting _ => true
  | _ => false

/-- Phases that are only reached when `Quit` has been called. -/
def afterQuit : CallPhase → Bool
  | .destroyed _ false => true
  | .returned _ false _ false => true
  | _ => false

/-! ## What holds of every call -/

/-- The transitions of the automaton, one by one. -/
inductive Nexted : CallPhase → CallEvent → CallPhase → Prop where
  | enter {i : Tid} : Nexted .unused (.enter i) (.entered i)
  | refuse {i : Tid} {b : Bool} : Nexted (.entered i) (.refuse b) (.returned i false false b)
  | check {i : Tid} : Nexted (.entered i) .check (.checked i)
  | runInline : Nexted (.checked loopThread) .runInline .inline
  | post {i : Tid} : Nexted (.checked i) .post (.posting i)
  | push {i : Tid} : Nexted (.posting i) .push (.queued i)
  | refusePost {i : Tid} : Nexted (.posting i) .drop (.destroyed i false)
  | start {i : Tid} : Nexted (.queued i) .start (.running i)
  | drop {i : Tid} : Nexted (.queued i) .drop (.destroyed i false)
  | finish {i : Tid} : Nexted (.running i) .finish (.ran i)
  | destroy {i : Tid} : Nexted (.ran i) .destroy (.destroyed i true)
  | finishInline : Nexted .inline .finish .returning
  | leaveInline : Nexted .returning .leave (.returned loopThread true false false)
  | leave {i : Tid} {hasRun : Bool} : Nexted (.destroyed i hasRun) .leave (.returned i hasRun true false)

theorem nexted {p p' : CallPhase} {e : CallEvent} (h : p.next e = some p') : Nexted p e p' := by
  unfold next at h
  split at h
  case h_4 =>
    split at h
    · rename_i hi
      cases hi
      cases h
      exact .runInline
    · cases h
  all_goals cases h
  all_goals constructor

theorem next_ne_unused {p p' : CallPhase} {e : CallEvent} (h : p.next e = some p') : p' ≠ .unused := by
  intro he
  subst he
  cases nexted h

/-- A call keeps its caller. -/
theorem next_caller {p p' : CallPhase} {e : CallEvent} (h : p.next e = some p') (hused : p ≠ .unused) :
    p'.record.caller = p.record.caller := by
  cases nexted h with
  | enter => exact absurd rfl hused
  | _ => rfl

theorem next_afterBegin {p p' : CallPhase} {e : CallEvent} (h : p.next e = some p')
    (hp : p'.afterBegin = true) : p.afterBegin = true ∨ e = .check := by
  cases nexted h with
  | check => exact .inr rfl
  | post => exact .inl rfl
  | _ => cases hp

theorem next_afterQuit {p p' : CallPhase} {e : CallEvent} (h : p.next e = some p')
    (hp : p'.afterQuit = true) : p.afterQuit = true ∨ e.skips = true := by
  cases nexted h with
  | @refuse i b =>
    cases b with
    | false => exact .inr rfl
    | true => cases hp
  | refusePost | drop => exact .inr rfl
  | @leave i hasRun =>
    cases hasRun with
    | false => exact .inl rfl
    | true => cases hp
  | _ => cases hp

/-- The functor runs at most once, on the loop thread, and is not executing once the call has
    returned. -/
theorem record_spec (p : CallPhase) :
    p.record.ranOn.length ≤ 1 ∧ (∀ i ∈ p.record.ranOn, i = loopThread) ∧
    (p.record.returned = true → p.record.executing = false) := by
  cases p with
  | destroyed i hasRun => cases hasRun <;> simp [record, ranOn]
  | returned i hasRun => cases hasRun <;> simp [record, ranOn]
  | _ => simp [record]

/-- A call that has returned has no next phase. -/
theorem next_returned {p p' : CallPhase} {e : CallEvent} (h : p.next e = some p') :
    p.record.returned = false := by
  cases nexted h <;> rfl

theorem eq_of_reaches {p p' : CallPhase} (h : Reaches next Always p p')
    (hp : p.record.returned = true) : p' = p :=
  h.invariant (P := fun q => q = p)
    (fun q e q' _ hnext hq => by
      have hnot := next_returned hnext
      rw [hq, hp] at hnot
      cases hnot) rfl

/-- `done` is set when the task is dropped without having run, or destroyed after it has. -/
theorem next_done {p p' : CallPhase} {e : CallEvent} (h : p.next e = some p')
    (hbefore : p.record.done = false) (hafter : p'.record.done = true) :
    p'.record = { p.record with done := true } ∧ p.record.executing = false ∧
    (e = .drop ∧ p.record.ranOn = [] ∨ e = .destroy ∧ p.record.ranOn = [loopThread]) := by
  cases nexted h with
  | refusePost | drop => exact ⟨rfl, rfl, .inl ⟨rfl, rfl⟩⟩
  | destroy => exact ⟨rfl, rfl, .inr ⟨rfl, rfl⟩⟩
  | leave => cases hbefore
  | _ => cases hafter

end CallPhase
end IoBase
