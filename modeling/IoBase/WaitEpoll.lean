import IoBase.WaitSelect
import IoBase.WaitTimes

/- The epoll wait of `EvenLoop`, in `event_loop_temp.cc`, and the interest list that it
   waits for.

   The kernel keeps the list: for each descriptor events, and data that is the dispatcher's
   key. Any thread adds, updates and removes descriptors, also while another one waits. The
   wait is one call of `epoll_wait`, which reports descriptors of the list with their data,
   and then a loop over what was reported, which tells the dispatchers that are still there.
   `GetEpollEvents` is defined elsewhere, and is a parameter. `epoll_ctl` fails where the
   descriptor is in the list and should not be, or the other way round, and wherever the
   kernel refuses it for another reason; that it does not (`Accepted`) is a condition of the
   results about the list.

   Correspondence (C++ ↔ Lean):
     `AddEpoll`, `UpdateEpoll`, `RemoveEpoll` ↔ `addEpoll`, `updateEpoll`, `removeEpoll`
     `WaitEpoll`, down to the loop            ↔ `WaitEpoll.start`
     `epoll_wait`, its start and its result   ↔ `WaitEpollAction.call`, `wake`
     the loop over `epoll_events_`            ↔ `WaitEpollAction.process`
     the rest of the iteration                ↔ `WaitEpollAction.recalc`

   * `interest_as_registered`: the list is what was last asked for, and no check fails.
   * `waitEpoll_on_time`: the wait is over when it was asked to be.
   * `waitEpoll_tells`: whom it tells. -/
namespace IoBase
open Transition

/-! ## The interest list -/

namespace Epoll

def epollIn : BitVec 32 := 0x0001
def epollPri : BitVec 32 := 0x0002
def epollOut : BitVec 32 := 0x0004
def epollErr : BitVec 32 := 0x0008
def epollHup : BitVec 32 := 0x0010
def epollRdHup : BitVec 32 := 0x2000
def epollOneShot : BitVec 32 := 0x40000000
def epollEt : BitVec 32 := 0x80000000

end Epoll

/-- An `epoll_event`, whose data is a key. -/
structure EpollEvent where
  events : BitVec 32
  key : Nat
  deriving DecidableEq, Repr

inductive EpollOp where
  | add
  | mod
  | del
  deriving DecidableEq, Repr

inductive EpollErrno where
  | eexist
  | enoent
  /-- Any other. -/
  | other
  deriving DecidableEq, Repr

abbrev InterestList := AList fun _ : Nat => EpollEvent

/-- What the kernel refuses whatever is in the list: a call with this operation, with this errno. -/
abbrev EpollRefusals := EpollOp → Option EpollErrno

/-- The kernel refuses nothing: `epoll_ctl` fails only where the descriptor is in the list and should not
    be, or the other way round. -/
def EpollRefusals.Accepted (refuses : EpollRefusals) : Prop :=
  refuses .add = none ∧ refuses .mod = none ∧ refuses .del = none

instance (refuses : EpollRefusals) : Decidable refuses.Accepted := inferInstanceAs (Decidable (_ ∧ _ ∧ _))

/-- Nothing is refused. -/
def accepts : EpollRefusals := fun _ => none

def epollCtl (refuses : EpollRefusals) (interest : InterestList) (op : EpollOp) (fd : Nat) (event : EpollEvent) :
    Except EpollErrno InterestList :=
  match refuses op with
  | some errno => .error errno
  | none =>
    match op, interest.lookup fd with
    | .add, none => .ok (interest.insert fd event)
    | .add, some _ => .error .eexist
    | .mod, some _ => .ok (interest.insert fd event)
    | .del, some _ => .ok (interest.erase fd)
    | .mod, none | .del, none => .error .enoent

section
variable (getEpollEvents : BitVec 32 → BitVec 32) (refuses : EpollRefusals)

/-- `AddEpoll`; `none` is `INVALID_SOCKET`. With the list comes whether the checks held. -/
def addEpoll (interest : InterestList) (fd : Option Nat) (requestedEvents : BitVec 32) (key : Nat) :
    InterestList × Bool :=
  match fd with
  | none => (interest, false)
  | some fd =>
    let events := getEpollEvents requestedEvents
    if events = 0 then (interest, true)
    else match epollCtl refuses interest .add fd ⟨events, key⟩ with
      | .ok interest => (interest, true)
      | .error _ => (interest, false)

def removeEpoll (interest : InterestList) (fd : Option Nat) : InterestList × Bool :=
  match fd with
  | none => (interest, false)
  | some fd =>
    match epollCtl refuses interest .del fd ⟨0, 0⟩ with
    | .ok interest => (interest, true)
    | .error errno => (interest, errno == .enoent)

def updateEpoll (interest : InterestList) (fd : Option Nat) (requestedEvents : BitVec 32) (key : Nat) :
    InterestList × Bool :=
  match fd with
  | none => (interest, false)
  | some fd =>
    let event : EpollEvent := ⟨getEpollEvents requestedEvents, key⟩
    if event.events = 0 then
      match epollCtl refuses interest .del fd event with
      | .ok interest => (interest, true)
      | .error _ => (interest, true)
    else match epollCtl refuses interest .mod fd event with
      | .ok interest => (interest, true)
      | .error .enoent =>
        match epollCtl refuses interest .add fd event with
        | .ok interest => (interest, true)
        | .error _ => (interest, true)
      | .error _ => (interest, false)

/-- What a dispatcher is registered for: its key, and the events it requests. -/
structure EpollRegistration where
  key : Nat
  requestedEvents : BitVec 32
  deriving DecidableEq, Repr

/-- What should be in the list for it. -/
def EpollRegistration.event (r : EpollRegistration) : Option EpollEvent :=
  if getEpollEvents r.requestedEvents = 0 then none else some ⟨getEpollEvents r.requestedEvents, r.key⟩

end

/-! ### What they leave in the list -/

variable {getEpollEvents : BitVec 32 → BitVec 32} {refuses : EpollRefusals} {interest : InterestList}
  {fd : Nat} {requestedEvents : BitVec 32} {key : Nat}

section
variable {β : Type} {table : AList fun _ : Nat => β} {fd : Nat}

theorem lookup_insert_eq (b : β) (fd' : Nat) :
    (table.insert fd b).lookup fd' = if fd' = fd then some b else table.lookup fd' := by
  split
  · rename_i heq
    rw [heq, AList.lookup_insert]
  · rename_i hne
    exact AList.lookup_insert_ne hne

theorem lookup_erase_eq (fd' : Nat) :
    (table.erase fd).lookup fd' = if fd' = fd then none else table.lookup fd' := by
  split
  · rename_i heq
    rw [heq, AList.lookup_erase]
  · rename_i hne
    exact AList.lookup_erase_ne hne

theorem lookup_absent_eq (h : table.lookup fd = none) (fd' : Nat) :
    table.lookup fd' = if fd' = fd then none else table.lookup fd' := by
  split
  · rename_i heq
    rw [heq, h]
  · rfl

end

/-- A descriptor that is not in the list is added, unless it is to be left out. -/
theorem addEpoll_fresh (haccepted : refuses.Accepted) (h : interest.lookup fd = none) :
    (addEpoll getEpollEvents refuses interest (some fd) requestedEvents key).2 = true ∧
    ∀ fd', (addEpoll getEpollEvents refuses interest (some fd) requestedEvents key).1.lookup fd' =
      if fd' = fd then (EpollRegistration.mk key requestedEvents).event getEpollEvents else interest.lookup fd' := by
  by_cases hnone : getEpollEvents requestedEvents = 0
  · simp only [addEpoll, if_pos hnone, EpollRegistration.event]
    exact ⟨trivial, lookup_absent_eq h⟩
  · simp only [addEpoll, if_neg hnone, epollCtl, haccepted.1, h, EpollRegistration.event]
    exact ⟨trivial, lookup_insert_eq _⟩

theorem removeEpoll_erases (haccepted : refuses.Accepted) :
    (removeEpoll refuses interest (some fd)).2 = true ∧
    ∀ fd', (removeEpoll refuses interest (some fd)).1.lookup fd' =
      if fd' = fd then none else interest.lookup fd' := by
  cases h : interest.lookup fd with
  | none =>
    simp only [removeEpoll, epollCtl, haccepted.2.2, h]
    exact ⟨rfl, lookup_absent_eq h⟩
  | some event =>
    simp only [removeEpoll, epollCtl, haccepted.2.2, h]
    exact ⟨trivial, lookup_erase_eq⟩

/-- Whether the descriptor is in the list or not, it is left there as it is requested. -/
theorem updateEpoll_sets (haccepted : refuses.Accepted) :
    (updateEpoll getEpollEvents refuses interest (some fd) requestedEvents key).2 = true ∧
    ∀ fd', (updateEpoll getEpollEvents refuses interest (some fd) requestedEvents key).1.lookup fd' =
      if fd' = fd then (EpollRegistration.mk key requestedEvents).event getEpollEvents else interest.lookup fd' := by
  obtain ⟨hadd, hmod, hdel⟩ := haccepted
  by_cases hnone : getEpollEvents requestedEvents = 0
  · cases h : interest.lookup fd with
    | none =>
      simp only [updateEpoll, hnone, epollCtl, hdel, h, EpollRegistration.event, if_true]
      exact ⟨trivial, lookup_absent_eq h⟩
    | some event =>
      simp only [updateEpoll, hnone, epollCtl, hdel, h, EpollRegistration.event, if_true]
      exact ⟨trivial, lookup_erase_eq⟩
  · have hinsert : updateEpoll getEpollEvents refuses interest (some fd) requestedEvents key =
        (interest.insert fd ⟨getEpollEvents requestedEvents, key⟩, true) := by
      cases h : interest.lookup fd <;> simp only [updateEpoll, if_neg hnone, epollCtl, hadd, hmod, h]
    rw [hinsert, EpollRegistration.event, if_neg hnone]
    exact ⟨rfl, lookup_insert_eq _⟩

/-! ## The wait -/

/-- What `epoll_wait` returns; a positive count comes with descriptors and their events. -/
inductive EpollResult where
  | failed
  | interrupted
  | timeout
  | ready (events : List (Nat × BitVec 32))

namespace EvenLoop

/-- The number of events to process with one call to `epoll_wait`. -/
def kNumEpollEvents : Nat := 128

end EvenLoop

/-- What `epoll_wait` reports of a descriptor of the list: its data, and some of its events, or an error. -/
def InterestList.report (interest : InterestList) (fd : Nat) (events : BitVec 32) : Option EpollEvent :=
  match interest.lookup fd with
  | none => none
  | some event =>
    if events ≠ 0 ∧ Within events (event.events ||| Epoll.epollErr ||| Epoll.epollHup) then
      some ⟨events, event.key⟩
    else none

/-- What it reports of several, each once. -/
def InterestList.reports (interest : InterestList) : List (Nat × BitVec 32) → Option (List EpollEvent)
  | [] => some []
  | (fd, events) :: ready =>
    if ready.any (·.1 == fd) then none
    else match interest.report fd events, interest.reports ready with
      | some event, some rest => some (event :: rest)
      | _, _ => none

/-- Where the loop thread is in `WaitEpoll`. -/
inductive EpollWaitPhase where
  | head
  /-- In `epoll_wait`, since this time. -/
  | waiting (since : Int)
  | processing (todo : List EpollEvent)
  | recalculating
  | returned (ok : Bool)
  deriving DecidableEq, Repr

/-- The same place, as that of a loop. -/
def EpollWaitPhase.loop : EpollWaitPhase → WaitPhase
  | .head => .head
  | .waiting since => .calling since
  | .processing _ | .recalculating => .dispatching
  | .returned ok => .returned ok

/-- A call of `OnEvent`: the event, with the dispatcher's key, that its arguments are made of. -/
structure EpollTold where
  event : EpollEvent
  ff : BitVec 32
  err : Int
  deriving DecidableEq, Repr

structure WaitEpoll extends WaitTimes where
  fWait : Bool
  dispatcherByKey : AList fun _ : Nat => PosixDispatcher
  interest : InterestList
  /-- Whether the checks of the functions that change the list have held. -/
  checked : Bool
  phase : EpollWaitPhase
  /-- What each descriptor is registered for. -/
  registered : AList fun _ : Nat => EpollRegistration
  /-- The same, when `epoll_wait` reported events, each time. -/
  reports : List (AList fun _ : Nat => EpollRegistration)
  told : List EpollTold

inductive WaitEpollAction where
  | tick (ns : Nat)
  | table (dispatchers : AList fun _ : Nat => PosixDispatcher)
  | add (fd : Option Nat) (requestedEvents : BitVec 32) (key : Nat) (refuses : EpollRefusals)
  | update (fd : Option Nat) (requestedEvents : BitVec 32) (key : Nat) (refuses : EpollRefusals)
  | remove (fd : Option Nat) (refuses : EpollRefusals)
  | call
  | wake (n : EpollResult)
  | process (closed : Bool) (res : SoError)
  | recalc

namespace WaitEpoll

def start (cmsWait : Int) (dispatchers : AList fun _ : Nat => PosixDispatcher) (now : Int) : WaitEpoll where
  toWaitTimes := .start cmsWait now
  fWait := true
  dispatcherByKey := dispatchers
  interest := ∅
  checked := true
  phase := .head
  registered := ∅
  reports := []
  told := []

/-- `OnEvent`; that of the Signaler clears `fWait_`. -/
def onEvent (s : WaitEpoll) (disp : PosixDispatcher) (told : EpollTold) : WaitEpoll :=
  { s with
    told := s.told ++ [told]
    fWait := if disp.isWakeup then false else s.fWait }

/-- One of the events that were reported, and `ProcessEvents`. -/
def process (s : WaitEpoll) (event : EpollEvent) (todo : List EpollEvent) (closed : Bool) (res : SoError) :
    WaitEpoll :=
  match s.dispatcherByKey.lookup event.key with
  | none => { s with phase := .processing todo }
  | some disp =>
    let readable := meets event.events (Epoll.epollIn ||| Epoll.epollPri)
    let writable := meets event.events Epoll.epollOut
    let error := meets event.events (Epoll.epollRdHup ||| Epoll.epollErr ||| Epoll.epollHup)
    let (ff, err) := processEvents disp.getRequestedEvents (disp.isDescriptorClosed closed) readable writable
      error error res
    let s := { s with phase := .processing todo }
    if ff = 0 then s else s.onEvent disp ⟨event, ff, err⟩

/-- The end of an iteration. -/
def recalc (s : WaitEpoll) : WaitEpoll :=
  let times := s.toWaitTimes.recalc
  { s with
    toWaitTimes := times
    phase := if s.cmsWait ≠ EvenLoop.kForeverMs ∧ times.msWait ≤ 0 then .returned true else .head }

/-- The list and the checks after one of the functions that change it. -/
def change (s : WaitEpoll) (result : InterestList × Bool)
    (registered : AList fun _ : Nat => EpollRegistration) : WaitEpoll :=
  { s with interest := result.1, checked := s.checked && result.2, registered := registered }

def step (getEpollEvents : BitVec 32 → BitVec 32) (s : WaitEpoll) : WaitEpollAction → Option WaitEpoll
  | .tick ns =>
    match s.phase with
    | .waiting since =>
      if s.mayLast since (s.now + ns) then some { s with toWaitTimes := s.spend ns } else none
    | _ => some { s with now := s.now + ns }
  | .table dispatchers => some { s with dispatcherByKey := dispatchers }
  | .add fd requestedEvents key refuses =>
    some (s.change (addEpoll getEpollEvents refuses s.interest fd requestedEvents key)
      (fd.elim s.registered fun fd => s.registered.insert fd ⟨key, requestedEvents⟩))
  | .update fd requestedEvents key refuses =>
    some (s.change (updateEpoll getEpollEvents refuses s.interest fd requestedEvents key)
      (fd.elim s.registered fun fd => s.registered.insert fd ⟨key, requestedEvents⟩))
  | .remove fd refuses =>
    some (s.change (removeEpoll refuses s.interest fd) (fd.elim s.registered fun fd => s.registered.erase fd))
  | .call =>
    match s.phase with
    | .head => some (if s.fWait then { s with phase := .waiting s.now } else { s with phase := .returned true })
    | _ => none
  | .wake n =>
    match s.phase, n with
    | .waiting _, .failed => some { s with phase := .returned false }
    | .waiting _, .interrupted => some { s with phase := .recalculating }
    | .waiting since, .timeout => if s.timedOut since then some { s with phase := .returned true } else none
    | .waiting _, .ready ready =>
      if ready = [] ∨ EvenLoop.kNumEpollEvents < ready.length then none
      else match s.interest.reports ready with
        | none => none
        | some events => some { s with phase := .processing events, reports := s.reports ++ [s.registered] }
    | _, _ => none
  | .process closed res =>
    match s.phase with
    | .processing (event :: todo) => some (s.process event todo closed res)
    | .processing [] => some { s with phase := .recalculating }
    | _ => none
  | .recalc =>
    match s.phase with
    | .recalculating => some s.recalc
    | _ => none

variable {t₀ cmsWait : Int} {s s' : WaitEpoll}

/-! ## The list is what was asked for -/

/-- A descriptor is added while it is not registered; all three functions are called with a descriptor, and
    what they ask of the kernel is not refused. -/
def Registers (s : WaitEpoll) : WaitEpollAction → Prop
  | .add (some fd) _ _ refuses => fd ∉ s.registered ∧ refuses.Accepted
  | .update (some _) _ _ refuses | .remove (some _) refuses => refuses.Accepted
  | .add none _ _ _ | .update none _ _ _ | .remove none _ => False
  | _ => True

instance (s : WaitEpoll) : (a : WaitEpollAction) → Decidable (Registers s a)
  | .add (some fd) _ _ refuses => inferInstanceAs (Decidable (fd ∉ s.registered ∧ refuses.Accepted))
  | .update (some _) _ _ refuses | .remove (some _) refuses => inferInstanceAs (Decidable refuses.Accepted)
  | .add none _ _ _ | .update none _ _ _ | .remove none _ => inferInstanceAs (Decidable False)
  | .tick _ | .table _ | .call | .wake _ | .process _ _ | .recalc => inferInstanceAs (Decidable True)

/-- The checks have held, and the list is made of the registrations. -/
structure AsRegistered (getEpollEvents : BitVec 32 → BitVec 32) (s : WaitEpoll) : Prop where
  checked : s.checked = true
  interest : ∀ fd, s.interest.lookup fd = (s.registered.lookup fd).bind fun r => r.event getEpollEvents

/-- The steps that change the list, and the others. -/
theorem step_frame {a : WaitEpollAction} (h : s.step getEpollEvents a = some s') :
    (∃ fd r key refuses, a = .add fd r key refuses) ∨ (∃ fd r key refuses, a = .update fd r key refuses) ∨
    (∃ fd refuses, a = .remove fd refuses) ∨
    s'.interest = s.interest ∧ s'.checked = s.checked ∧ s'.registered = s.registered := by
  have hprocess : ∀ (event : EpollEvent) (todo : List EpollEvent) (closed : Bool) (res : SoError),
      (s.process event todo closed res).interest = s.interest ∧
      (s.process event todo closed res).checked = s.checked ∧
      (s.process event todo closed res).registered = s.registered := by
    intro event todo closed res
    simp only [process]
    split
    · exact ⟨rfl, rfl, rfl⟩
    · split <;> exact ⟨rfl, rfl, rfl⟩
  cases a with
  | add fd r key refuses => exact .inl ⟨fd, r, key, refuses, rfl⟩
  | update fd r key refuses => exact .inr (.inl ⟨fd, r, key, refuses, rfl⟩)
  | remove fd refuses => exact .inr (.inr (.inl ⟨fd, refuses, rfl⟩))
  | tick ns =>
    refine .inr (.inr (.inr ?_))
    simp only [step] at h
    split at h
    · split at h <;> cases h
      exact ⟨rfl, rfl, rfl⟩
    · cases h
      exact ⟨rfl, rfl, rfl⟩
  | table dispatchers =>
    cases h
    exact .inr (.inr (.inr ⟨rfl, rfl, rfl⟩))
  | call =>
    refine .inr (.inr (.inr ?_))
    simp only [step] at h
    split at h <;> cases h
    split <;> exact ⟨rfl, rfl, rfl⟩
  | wake n =>
    refine .inr (.inr (.inr ?_))
    simp only [step] at h
    split at h
    · cases h
      exact ⟨rfl, rfl, rfl⟩
    · cases h
      exact ⟨rfl, rfl, rfl⟩
    · split at h <;> cases h
      exact ⟨rfl, rfl, rfl⟩
    · split at h
      · cases h
      · split at h <;> cases h
        exact ⟨rfl, rfl, rfl⟩
    · cases h
  | process closed res =>
    refine .inr (.inr (.inr ?_))
    simp only [step] at h
    split at h <;> cases h
    · exact hprocess _ _ _ _
    · exact ⟨rfl, rfl, rfl⟩
  | recalc =>
    refine .inr (.inr (.inr ?_))
    simp only [step] at h
    split at h <;> cases h
    exact ⟨rfl, rfl, rfl⟩

/-- A function that leaves a descriptor in the list as it is registered keeps the list. -/
theorem AsRegistered.change {fd : Nat} {result : InterestList × Bool} {r : Option EpollRegistration}
    {registered : AList fun _ : Nat => EpollRegistration} (h : AsRegistered getEpollEvents s)
    (hregistered : ∀ fd', registered.lookup fd' = if fd' = fd then r else s.registered.lookup fd')
    (hresult : result.2 = true ∧ ∀ fd', result.1.lookup fd' =
      if fd' = fd then r.bind fun r => r.event getEpollEvents else s.interest.lookup fd') :
    AsRegistered getEpollEvents (s.change result registered) where
  checked := by
    show (s.checked && result.2) = true
    rw [h.checked, hresult.1]
    rfl
  interest := fun fd' => by
    show result.1.lookup fd' = (registered.lookup fd').bind _
    rw [hresult.2, hregistered]
    split
    · rfl
    · exact h.interest fd'

theorem asRegistered_step {a : WaitEpollAction} (hok : Registers s a) (hstep : s.step getEpollEvents a = some s')
    (h : AsRegistered getEpollEvents s) : AsRegistered getEpollEvents s' := by
  obtain ⟨fd, r, key, refuses, rfl⟩ | ⟨fd, r, key, refuses, rfl⟩ | ⟨fd, refuses, rfl⟩ |
    ⟨hinterest, hchecked, hregistered⟩ := step_frame hstep
  · cases fd with
    | none => exact False.elim hok
    | some fd =>
      cases hstep
      refine h.change (r := some ⟨key, r⟩) (fun fd' => lookup_insert_eq _ fd') (addEpoll_fresh hok.2 ?_)
      -- what is not registered is not in the list
      rw [h.interest, AList.lookup_eq_none.mpr hok.1]
      rfl
  · cases fd with
    | none => exact False.elim hok
    | some fd =>
      cases hstep
      exact h.change (r := some ⟨key, r⟩) (fun fd' => lookup_insert_eq _ fd') (updateEpoll_sets hok)
  · cases fd with
    | none => exact False.elim hok
    | some fd =>
      cases hstep
      exact h.change (r := none) lookup_erase_eq (removeEpoll_erases hok)
  · exact ⟨hchecked.trans h.checked, fun fd => by rw [hinterest, hregistered, h.interest]⟩

theorem asRegistered_run {dispatchers : AList fun _ : Nat => PosixDispatcher}
    (h : Reaches (WaitEpoll.step getEpollEvents) Registers (start cmsWait dispatchers t₀) s) :
    AsRegistered getEpollEvents s := by
  refine h.invariant (fun _ _ _ hok hstep ih => asRegistered_step hok hstep ih) ⟨rfl, fun fd => ?_⟩
  rfl

/-- **The list is what was asked for.** In every run in which descriptors are added while they are not
    registered, and the kernel refuses nothing, the list has for each descriptor the key and the events it
    was last added or updated with, if these are any, until it is removed; and no check of the functions that
    change it fails. -/
theorem interest_as_registered {dispatchers : AList fun _ : Nat => PosixDispatcher}
    (h : Reaches (WaitEpoll.step getEpollEvents) Registers (start cmsWait dispatchers t₀) s) :
    s.checked = true ∧
    ∀ fd event, s.interest.lookup fd = some event ↔ ∃ r, s.registered.lookup fd = some r ∧ r.key = event.key ∧
      getEpollEvents r.requestedEvents = event.events ∧ event.events ≠ 0 := by
  obtain ⟨hchecked, hinterest⟩ := asRegistered_run h
  refine ⟨hchecked, fun fd event => ?_⟩
  rw [hinterest, Option.bind_eq_some_iff]
  refine exists_congr fun r => and_congr_right fun _ => ?_
  rw [EpollRegistration.event]
  split
  · rename_i hnone
    refine ⟨fun h => (by cases h), fun h => ?_⟩
    exact absurd (h.2.1.symm.trans hnone) h.2.2
  · rename_i hsome
    refine ⟨fun h => ?_, fun h => ?_⟩
    · cases h
      exact ⟨rfl, rfl, hsome⟩
    · rw [h.1, h.2.1]

/-! ## The deadline -/

/-- The same wait, as one that is only seen to pass its time. -/
def loop (s : WaitEpoll) : WaitLoop := ⟨s.toWaitTimes, s.fWait, s.phase.loop⟩

theorem loop_of_phase {phase : EpollWaitPhase} (h : s.phase = phase) :
    s.loop = ⟨s.toWaitTimes, s.fWait, phase.loop⟩ := by
  rw [loop, h]

theorem stepped_loop {a : WaitEpollAction} (h : s.step getEpollEvents a = some s') :
    WaitLoop.Stepped s.loop s'.loop := by
  cases a with
  | tick ns =>
    simp only [step] at h
    split at h
    · rename_i since hphase
      split at h
      · rename_i hlasts
        cases h
        exact .last ns (congrArg EpollWaitPhase.loop hphase) hlasts
      · cases h
    · rename_i hphase
      cases h
      refine .pass ns fun since hcalling => ?_
      -- only `epoll_wait` is a call
      revert hcalling
      simp only [loop]
      cases hp : s.phase with
      | waiting since' => exact absurd hp (hphase since')
      | _ => exact fun hcalling => by cases hcalling
  | table _ | add _ _ _ _ | update _ _ _ _ | remove _ _ =>
    cases h
    exact .quiet
  | call =>
    simp only [step] at h
    split at h
    · rename_i hphase
      cases h
      rw [loop_of_phase hphase]
      split
      · rename_i hwait
        exact .call rfl hwait
      · rename_i hwoken
        exact .woken rfl (Bool.not_eq_true _ ▸ hwoken)
    · cases h
  | wake n =>
    simp only [step] at h
    split at h
    · rename_i hphase
      cases h
      exact .failed (congrArg EpollWaitPhase.loop hphase)
    · rename_i hphase
      cases h
      exact .back (congrArg EpollWaitPhase.loop hphase)
    · rename_i since hphase
      split at h
      · rename_i hpassed
        cases h
        exact .timeout (congrArg EpollWaitPhase.loop hphase) hpassed
      · cases h
    · rename_i hphase
      split at h
      · cases h
      · split at h <;> cases h
        exact .back (congrArg EpollWaitPhase.loop hphase)
    · cases h
  | process closed res =>
    simp only [step] at h
    split at h
    · rename_i event todo hphase
      cases h
      rw [loop_of_phase hphase]
      simp only [process]
      split
      · exact .quiet
      · split
        · exact .quiet
        · exact .dispatch _ rfl
    · rename_i hphase
      cases h
      rw [loop_of_phase hphase]
      exact .quiet
    · cases h
  | recalc =>
    simp only [step] at h
    split at h
    · rename_i hphase
      cases h
      rw [loop_of_phase hphase]
      simp only [loop, recalc]
      split
      · rename_i hover
        exact .ended rfl hover.1 hover.2
      · rename_i hleft
        refine .next rfl ?_
        exact (not_and_or.mp hleft).imp not_not.mp fun h => le_of_lt (not_le.mp h)
    · cases h

/-- **`WaitEpoll` is on time**, as `WaitPoll` is, though it ends its loop when nothing is left. -/
theorem waitEpoll_on_time (hpos : 1 ≤ cmsWait) (hmax : cmsWait ≤ int32Max) (ht₀ : 0 ≤ t₀)
    {dispatchers : AList fun _ : Nat => PosixDispatcher}
    (h : Reaches (WaitEpoll.step getEpollEvents) Always (start cmsWait dispatchers t₀) s) :
    s.spentNs < 1000000 * (cmsWait + 1) ∧
    (s.phase = .returned true → s.fWait = true → timeMillis t₀ + cmsWait ≤ timeMillis s.now) := by
  have honTime : WaitLoop.OnTime t₀ cmsWait s.loop := by
    refine h.invariant (P := fun s => WaitLoop.OnTime t₀ cmsWait s.loop) (fun _ _ _ _ hstep ho => ?_)
      (WaitLoop.onTime_start hpos ht₀)
    exact ho.step hpos hmax ht₀ (stepped_loop hstep)
  obtain ⟨hspent, hended⟩ := honTime.bounds hpos
  exact ⟨hspent, fun hphase => hended (congrArg EpollWaitPhase.loop hphase)⟩

/-! ## Whom it tells -/

/-- An event of a descriptor that was registered for it, or an error of one that was. -/
def EventOf (getEpollEvents : BitVec 32 → BitVec 32) (registered : AList fun _ : Nat => EpollRegistration)
    (event : EpollEvent) : Prop :=
  ∃ fd r, registered.lookup fd = some r ∧ r.key = event.key ∧ getEpollEvents r.requestedEvents ≠ 0 ∧
    Within event.events (getEpollEvents r.requestedEvents ||| Epoll.epollErr ||| Epoll.epollHup)

/-- What holds of whom the wait tells, between any two steps. -/
structure Tells (getEpollEvents : BitVec 32 → BitVec 32) (s : WaitEpoll) : Prop where
  processing : ∀ todo, s.phase = .processing todo →
    ∃ registered ∈ s.reports, ∀ event ∈ todo, EventOf getEpollEvents registered event
  told : ∀ told ∈ s.told, told.ff ≠ 0 ∧ (∃ registered ∈ s.reports, EventOf getEpollEvents registered told.event) ∧
    (meets told.ff (deRead ||| deAccept) = true → meets told.event.events (Epoll.epollIn ||| Epoll.epollPri) = true) ∧
    (meets told.ff (deWrite ||| deConnect) = true → meets told.event.events Epoll.epollOut = true) ∧
    (told.err ≠ 0 → meets told.ff deClose = true)

/-- What `epoll_wait` reports is of descriptors of the list. -/
theorem eventOf_reports {registered : AList fun _ : Nat => EpollRegistration} {interest : InterestList}
    (h : ∀ fd, interest.lookup fd = (registered.lookup fd).bind fun r => r.event getEpollEvents)
    {ready : List (Nat × BitVec 32)} {events : List EpollEvent} (hreports : interest.reports ready = some events) :
    ∀ event ∈ events, EventOf getEpollEvents registered event := by
  induction ready generalizing events with
  | nil =>
    cases hreports
    exact fun _ hmem => absurd hmem (List.not_mem_nil)
  | cons p ready ih =>
    obtain ⟨fd, bits⟩ := p
    simp only [InterestList.reports] at hreports
    split at hreports
    · cases hreports
    · split at hreports <;> cases hreports
      rename_i event rest hreport hrest
      refine List.forall_mem_cons.mpr ⟨?_, ih hrest⟩
      simp only [InterestList.report] at hreport
      split at hreport
      · cases hreport
      · rename_i inList hlookup
        split at hreport
        · rename_i hbits
          cases hreport
          rw [h, Option.bind_eq_some_iff] at hlookup
          obtain ⟨r, hr, hevent⟩ := hlookup
          rw [EpollRegistration.event] at hevent
          split at hevent <;> cases hevent
          rename_i hsome
          exact ⟨fd, r, hr, rfl, hsome, hbits.2⟩
        · cases hreport

/-- Where the dispatcher is no longer there, its event is left out. -/
theorem process_removed {event : EpollEvent} (todo : List EpollEvent) (closed : Bool) (res : SoError)
    (h : event.key ∉ s.dispatcherByKey) :
    s.process event todo closed res = { s with phase := .processing todo } := by
  simp only [process, AList.lookup_eq_none.mpr h]

theorem tells_process {event : EpollEvent} {todo : List EpollEvent} (closed : Bool) (res : SoError)
    (h : Tells getEpollEvents s) (hphase : s.phase = .processing (event :: todo)) :
    Tells getEpollEvents (s.process event todo closed res) ∧
    (meets event.events Epoll.epollIn = true → event.key ∈ s.dispatcherByKey →
      ∃ told, (s.process event todo closed res).told = s.told ++ [told] ∧ told.event = event) := by
  obtain ⟨registered, hmem, hof⟩ := h.processing _ hphase
  obtain ⟨hhead, htail⟩ := List.forall_mem_cons.mp hof
  have hleft : ∀ todo', EpollWaitPhase.processing todo = .processing todo' →
      ∃ registered ∈ s.reports, ∀ event ∈ todo', EventOf getEpollEvents registered event := by
    intro todo' heq
    cases heq
    exact ⟨registered, hmem, htail⟩
  cases hlookup : s.dispatcherByKey.lookup event.key with
  | none =>
    have hgone := AList.lookup_eq_none.mp hlookup
    rw [process_removed todo closed res hgone]
    exact ⟨⟨hleft, h.told⟩, fun _ hin => absurd hin hgone⟩
  | some disp =>
    generalize hcall : processEvents disp.getRequestedEvents (disp.isDescriptorClosed closed)
      (meets event.events (Epoll.epollIn ||| Epoll.epollPri)) (meets event.events Epoll.epollOut)
      (meets event.events (Epoll.epollRdHup ||| Epoll.epollErr ||| Epoll.epollHup))
      (meets event.events (Epoll.epollRdHup ||| Epoll.epollErr ||| Epoll.epollHup)) res = call
    obtain ⟨ff, err⟩ := call
    have hprocess : s.process event todo closed res =
        if ff = 0 then { s with phase := .processing todo }
          else { s with phase := .processing todo }.onEvent disp ⟨event, ff, err⟩ := by
      simp only [process, hlookup, hcall]
    obtain ⟨hread, hwrite, herr⟩ := processEvents_told hcall
    rw [hprocess]
    by_cases hff : ff = 0
    · rw [if_pos hff]
      refine ⟨⟨hleft, h.told⟩, fun hin _ => ?_⟩
      have hreadable : meets event.events (Epoll.epollIn ||| Epoll.epollPri) = true := meets_bits.mpr (.inl hin)
      rw [hreadable] at hcall
      exact absurd hff (processEvents_ne_zero hcall)
    · rw [if_neg hff]
      refine ⟨⟨hleft, List.forall_mem_append.mpr ⟨h.told, fun told hlast => ?_⟩⟩, fun _ _ => ⟨_, rfl, rfl⟩⟩
      cases List.mem_singleton.mp hlast
      exact ⟨hff, ⟨registered, hmem, hhead⟩, hread, hwrite, fun hne => (herr hne).2⟩

theorem tells_step {a : WaitEpollAction} (hlist : AsRegistered getEpollEvents s)
    (hstep : s.step getEpollEvents a = some s') (h : Tells getEpollEvents s) : Tells getEpollEvents s' := by
  -- where nothing has been told, and nothing is processed
  have hquiet : ∀ {t : WaitEpoll}, t.reports = s.reports → t.told = s.told →
      (∀ todo, t.phase ≠ .processing todo) → Tells getEpollEvents t := by
    intro t hreports htold hp
    refine ⟨fun todo hphase => absurd hphase (hp todo), ?_⟩
    rw [hreports, htold]
    exact h.told
  cases a with
  | tick ns =>
    simp only [step] at hstep
    split at hstep
    · split at hstep <;> cases hstep
      exact ⟨h.processing, h.told⟩
    · cases hstep
      exact ⟨h.processing, h.told⟩
  | table _ | add _ _ _ _ | update _ _ _ _ | remove _ _ =>
    cases hstep
    exact ⟨h.processing, h.told⟩
  | call =>
    simp only [step] at hstep
    split at hstep <;> cases hstep
    split <;> exact hquiet rfl rfl (by simp)
  | wake n =>
    simp only [step] at hstep
    split at hstep
    · cases hstep
      exact hquiet rfl rfl (by simp)
    · cases hstep
      exact hquiet rfl rfl (by simp)
    · split at hstep <;> cases hstep
      exact hquiet rfl rfl (by simp)
    · split at hstep
      · cases hstep
      · split at hstep <;> cases hstep
        rename_i hreports
        refine ⟨fun todo hphase => ?_, fun told hmem => ?_⟩
        · cases hphase
          exact ⟨s.registered, List.mem_append_right _ (List.mem_singleton_self _),
            eventOf_reports hlist.interest hreports⟩
        · obtain ⟨hff, ⟨registered, hin, hof⟩, hbits⟩ := h.told told hmem
          exact ⟨hff, ⟨registered, List.mem_append_left _ hin, hof⟩, hbits⟩
    · cases hstep
  | process closed res =>
    simp only [step] at hstep
    split at hstep
    · rename_i event todo hphase
      cases hstep
      exact (tells_process _ _ h hphase).1
    · cases hstep
      exact hquiet rfl rfl (by simp)
    · cases hstep
  | recalc =>
    simp only [step] at hstep
    split at hstep <;> cases hstep
    refine hquiet rfl rfl fun todo hphase => ?_
    revert hphase
    simp only [recalc]
    split <;> intro hphase <;> cases hphase

/-- **Whom the wait tells, and of what.** In every run in which descriptors are added while they are not
    registered, and the kernel refuses nothing, a dispatcher is told by its key of an event that its
    descriptor was registered for when `epoll_wait` reported it, or of an error; of reading and writing only
    where these were reported. Of the dispatchers that are reported readable and are still there none is
    passed over, and where the dispatcher is no longer there nobody is told. -/
theorem waitEpoll_tells {dispatchers : AList fun _ : Nat => PosixDispatcher}
    (h : Reaches (WaitEpoll.step getEpollEvents) Registers (start cmsWait dispatchers t₀) s) :
    (∀ told ∈ s.told, told.ff ≠ 0 ∧ (∃ registered ∈ s.reports, EventOf getEpollEvents registered told.event) ∧
      (meets told.ff (deRead ||| deAccept) = true →
        meets told.event.events (Epoll.epollIn ||| Epoll.epollPri) = true) ∧
      (meets told.ff (deWrite ||| deConnect) = true → meets told.event.events Epoll.epollOut = true) ∧
      (told.err ≠ 0 → meets told.ff deClose = true)) ∧
    ∀ event todo closed res, s.phase = .processing (event :: todo) →
      (meets event.events Epoll.epollIn = true → event.key ∈ s.dispatcherByKey →
        ∃ s' told, s.step getEpollEvents (.process closed res) = some s' ∧ s'.told = s.told ++ [told] ∧
          told.event = event) ∧
      (event.key ∉ s.dispatcherByKey →
        ∀ s', s.step getEpollEvents (.process closed res) = some s' →
          s'.told = s.told ∧ s'.phase = .processing todo) := by
  have htells : Tells getEpollEvents s := by
    refine h.invariant_with (fun t hrun => asRegistered_run hrun)
      (fun _ _ _ _ hstep hlist ht => tells_step hlist hstep ht) ⟨fun _ hphase => ?_, fun _ hmem => ?_⟩
    · cases hphase
    · exact absurd hmem (List.not_mem_nil)
  refine ⟨htells.told, fun event todo closed res hphase => ⟨fun hin hthere => ?_, fun hgone s' hstep => ?_⟩⟩
  · obtain ⟨told, htold, hevent⟩ := (tells_process closed res htells hphase).2 hin hthere
    exact ⟨_, told, by simp only [step, hphase], htold, hevent⟩
  · simp only [step, hphase, Option.some.injEq, process_removed todo closed res hgone] at hstep
    exact hstep ▸ ⟨rfl, rfl⟩

/-! ### A run -/

/-- Of the events the bits of `DE_READ` and `DE_WRITE` alone. -/
def readWriteEvents (requestedEvents : BitVec 32) : BitVec 32 :=
  (if meets requestedEvents (deRead ||| deAccept) then Epoll.epollIn else 0) |||
  (if meets requestedEvents (deWrite ||| deConnect) then Epoll.epollOut else 0)

/-- A socket that requests nothing is registered, and then is to be read; it is removed when it has been
    reported, and its descriptor is that of the next one, while the Signaler ends the wait. -/
def removedSocketRun : List WaitEpollAction :=
  [.add (some 3) deRead 7 accepts, .add (some 5) 0 9 accepts, .update (some 5) deRead 9 accepts, .call,
    .tick 1000000, .wake (.ready [(5, Epoll.epollIn), (3, Epoll.epollIn)]), .remove (some 5) accepts,
    .add (some 5) deRead 11 accepts,
    .table ((AList.singleton 11 (.other 5 deRead)).insert 7 (.wakeup 3)),
    .process false (.value 0), .process false (.value 0), .process false (.value 0), .tick 500000, .recalc, .call]

theorem removedSocket_run : (runWhile (WaitEpoll.step readWriteEvents) Registers (start 100 ∅ 5999999)
    removedSocketRun).map (fun s => (s.phase, s.spentNs, s.interest.lookup 5, s.told)) =
    some (.returned true, 1000000, some ⟨Epoll.epollIn, 11⟩, [⟨⟨Epoll.epollIn, 7⟩, deRead, 0⟩]) := by
  decide

theorem interest_as_registered_removed :
    ∃ s, Reaches (WaitEpoll.step readWriteEvents) Registers (start 100 ∅ 5999999) s ∧ s.checked = true ∧
      ∃ r, s.registered.lookup 5 = some r ∧ r.key = 11 := by
  obtain ⟨s, hs, hfields⟩ := Option.map_eq_some_iff.mp removedSocket_run
  have hreach := runWhile_reaches hs
  obtain ⟨hchecked, hlist⟩ := interest_as_registered hreach
  obtain ⟨r, hr, hkey, -⟩ := (hlist 5 ⟨Epoll.epollIn, 11⟩).mp (congrArg (·.2.2.1) hfields)
  exact ⟨s, hreach, hchecked, r, hr, hkey⟩

theorem waitEpoll_on_time_removed :
    ∃ s, Reaches (WaitEpoll.step readWriteEvents) Always (start 100 ∅ 5999999) s ∧ s.phase = .returned true ∧
      s.spentNs < 101000000 := by
  obtain ⟨s, hs, hfields⟩ := Option.map_eq_some_iff.mp removedSocket_run
  have hreach := (runWhile_reaches hs).always
  have hpos : (1 : Int) ≤ 100 := by decide
  obtain ⟨hspent, -⟩ := waitEpoll_on_time hpos (by decide) (by decide) hreach
  exact ⟨s, hreach, congrArg (·.1) hfields, hspent⟩

theorem waitEpoll_tells_removed :
    ∃ s, Reaches (WaitEpoll.step readWriteEvents) Registers (start 100 ∅ 5999999) s ∧
      ∃ told, s.told = [told] ∧ told.event.key = 7 ∧
        ∃ registered ∈ s.reports, EventOf readWriteEvents registered told.event := by
  obtain ⟨s, hs, hfields⟩ := Option.map_eq_some_iff.mp removedSocket_run
  have htold : s.told = [⟨⟨Epoll.epollIn, 7⟩, deRead, 0⟩] := congrArg (·.2.2.2) hfields
  have hreach := runWhile_reaches hs
  obtain ⟨hof, -⟩ := waitEpoll_tells hreach
  exact ⟨s, hreach, _, htold, rfl, (hof _ (htold ▸ List.mem_singleton_self _)).2.1⟩

end WaitEpoll

end IoBase
