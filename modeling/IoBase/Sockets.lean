import IoBase.EventMask
import IoBase.OrderedMap
import Mathlib.Logic.Function.Basic

/- The socket half of `EventLoopWin`: the registrations and what Winsock keeps.

   `Sockets` is the state: `registrations_`, the pending flag, the shared event
   `socket_ev_`, and on Winsock's side, for each socket, the interest mask most
   recently passed to `WSAEventSelect`, the mask in force, and the record of
   network events not yet enumerated. The operations are the four registration
   calls and the pieces of `ProcessSocketEvents`; each Winsock call takes its
   outcome as an argument. `RunEventLoopOnce` composes the pieces step by step
   in `EventLoop.lean`, since events arrive between them.

   What is assumed of Winsock: a successful `WSAEventSelect` puts the mask in
   force and clears the socket's record; a recorded event sets `socket_ev_`; a
   successful `WSAEnumNetworkEvents` returns and clears the record and resets
   `socket_ev_`; a call that fails changes nothing. -/
namespace IoBase
open OrderedMap

abbrev Fd := Nat

/-- A `Registration` object. `id` is the object the `shared_ptr` of `registrations_` owns:
    every `make_shared` makes a new one. -/
structure Registration where
  id : Nat
  events : EventMask
  listener : Option Nat
  artificiallyNotifyAtNextIteration : EventMask
  deriving DecidableEq, Repr

/-- An entry of the ready list: `registration` is the object its `weak_ptr` refers to. -/
structure ReadyListEntry where
  fd : Fd
  registration : Nat
  events : EventMask
  deriving DecidableEq, Repr

structure Sockets where
  registrations : Map Fd Registration
  hasArtificialEventsPending : Bool
  socketEv : Bool
  nextRegistration : Nat
  passed : Fd → Option NetMask
  selected : Fd → NetMask
  recorded : Fd → NetworkEvents

namespace Sockets

def init : Sockets where
  registrations := ∅
  hasArtificialEventsPending := false
  socketEv := false
  nextRegistration := 0
  passed := fun _ => none
  selected := fun _ => 0
  recorded := fun _ => .none

/-! ## Winsock -/

/-- `WSAEventSelect(fd, socket_ev_, mask)`, which returns 0 exactly when `ok`. -/
def wsaEventSelect (s : Sockets) (fd : Fd) (mask : NetMask) (ok : Bool) : Sockets :=
  { s with
    passed := Function.update s.passed fd (some mask)
    selected := if ok then Function.update s.selected fd mask else s.selected
    recorded := if ok then Function.update s.recorded fd .none else s.recorded }

/-- A selected network event happens on `fd`: Winsock records it and sets `socket_ev_`. -/
def record (s : Sockets) (fd : Fd) (event : NetMask) (connectError : Int) : Sockets :=
  let old := s.recorded fd
  { s with
    recorded := Function.update s.recorded fd
      ⟨old.lNetworkEvents ||| event, if meets event fdConnect then connectError else old.connectError⟩
    socketEv := true }

/-! ## The registration calls

Each returns what the C++ function returns. `quitting` is `IsQuitting()`. -/

def registerSocket (s : Sockets) (quitting : Bool) (fd : Fd) (events : EventMask)
    (listener : Nat) (selectOk : Bool) : Bool × Sockets :=
  if quitting then (false, s)
  else
    match insertBack fd ⟨s.nextRegistration, 0, none, 0⟩ s.registrations with
    | (_, false) => (false, s)
    | (registrations, true) =>
      let registrations := modify fd
        (fun r => { r with events := events, listener := some listener }) registrations
      let s := { s with registrations, nextRegistration := s.nextRegistration + 1 }
      let s := s.wsaEventSelect fd (getPollMask events) selectOk
      if selectOk then (true, s)
      else (false, { s with registrations := s.registrations.erase fd })

def unregisterSocket (s : Sockets) (quitting : Bool) (fd : Fd) (selectOk : Bool) : Bool × Sockets :=
  if quitting then (false, s)
  else
    match s.registrations.lookup fd with
    | none => (false, s)
    | some _ =>
      let s := s.wsaEventSelect fd 0 selectOk
      (true, { s with registrations := s.registrations.erase fd })

def rearmSocket (s : Sockets) (quitting : Bool) (fd : Fd) (events : EventMask) (selectOk : Bool) :
    Bool × Sockets :=
  if quitting then (false, s)
  else
    match s.registrations.lookup fd with
    | none => (false, s)
    | some r =>
      let s := { s with
        registrations := modify fd (fun r => { r with events := r.events ||| events }) s.registrations }
      (selectOk, s.wsaEventSelect fd (getPollMask (r.events ||| events)) selectOk)

def artificiallyNotifyEvent (s : Sockets) (quitting : Bool) (fd : Fd) (events : EventMask) :
    Bool × Sockets :=
  if quitting then (false, s)
  else
    match s.registrations.lookup fd with
    | none => (false, s)
    | some _ =>
      (true, { s with
        hasArtificialEventsPending := true
        registrations := modify fd
          (fun r => { r with
            artificiallyNotifyAtNextIteration := r.artificiallyNotifyAtNextIteration ||| events })
          s.registrations
        socketEv := true })

/-! ## The pieces of `ProcessSocketEvents` -/

def dispatchSocketEvent (s : Sockets) (readyList : List ReadyListEntry) (fd : Fd) (mask : BitVec 16) :
    Sockets × List ReadyListEntry :=
  match s.registrations.lookup fd with
  | none => (s, readyList)
  | some r =>
    let mask := mask &&& (getPollMask r.events).setWidth 16
    if mask = 0 then (s, readyList)
    else
      let events := getEventMask (mask.signExtend 32)
      ({ s with
          registrations := modify fd (fun r => { r with events := r.events &&& ~~~events })
            s.registrations },
        readyList ++ [⟨fd, r.id, events⟩])

/-- The body of the loop over `registrations_`, for the socket `fd`; `enumOk` is whether
    `WSAEnumNetworkEvents` returned 0. -/
def enumerateSocket (s : Sockets) (readyList : List ReadyListEntry) (fd : Fd) (enumOk : Bool) :
    Sockets × List ReadyListEntry :=
  if !enumOk then (s, readyList)
  else
    match s.registrations.lookup fd with
    | none => (s, readyList)
    | some r =>
      let revents := toRevents (s.recorded fd) |||
        (getPollMask r.artificiallyNotifyAtNextIteration).setWidth 16
      let s := { s with
        recorded := Function.update s.recorded fd .none
        socketEv := false
        registrations := modify fd
          (fun r => { r with artificiallyNotifyAtNextIteration := 0 }) s.registrations }
      if revents ≠ 0 then s.dispatchSocketEvent readyList fd revents else (s, readyList)

/-- `registrations_` still owns the object that the entry refers to. -/
def locked (s : Sockets) (entry : ReadyListEntry) : Bool :=
  match s.registrations.lookup entry.fd with
  | some r => r.id == entry.registration
  | none => false

end Sockets

end IoBase
