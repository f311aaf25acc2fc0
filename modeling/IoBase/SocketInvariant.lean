import IoBase.Control

/- Invariants of the sockets.

   A property of the socket half of the loop that every registration call, every
   enumeration and every recorded event keeps is kept by every step of the system
   (`sockets_step`), and holds in every state of every run if it holds at the start
   (`sockets_of_reaches`); the rest of the loop need not be looked at. -/
namespace IoBase
open Transition State

variable {D : Type} [AbslDuration D]

/-- `P` is kept by what happens to the sockets. -/
structure SocketsKept (P : Sockets → Prop) (okCall : SocketCall → Prop) : Prop where
  call : ∀ s c out, okCall c → SocketStepped s c out → P s → P out.2
  enumerate : ∀ s ready fd enumOk, P s → P (Sockets.enumerateSocket s ready fd enumOk).1
  pending : ∀ s : Sockets, P s → P { s with hasArtificialEventsPending := false }
  event : ∀ (s : Sockets) socketEv, P s → P { s with socketEv }
  record : ∀ s fd event e, P s → P (Sockets.record s fd event e)

structure SocketsInvariant (P : Sockets → Prop) (okCall : SocketCall → Prop) : Prop extends
    SocketsKept P okCall where
  init : P Sockets.init

theorem sockets_step {P : Sockets → Prop} {okCall : SocketCall → Prop} (hP : SocketsKept P okCall)
    {s s' : State D} {a : Action D} (hok : ∀ c, a = .socket c → okCall c) (h : step s a = some s')
    (hs : P s.sockets) : P s'.sockets := by
  cases step_cases h with
  | call hm he => rw [enter_frame he]; exact hs
  | resume hr => rw [resume_frame hr]; exact hs
  | socket hm => exact hP.call _ _ _ (hok _ rfl) (socket_cases _ _ _) hs
  | arrive => exact hP.record _ _ _ _ hs
  | loop hout hstack hf =>
    cases framed hf with
    | wait => rw [dispatch_eq]; exact hs
    | start => rw [startTask_eq]; exact hs
    | finish => rw [finishTask_eq]; exact hs
    | destroy => rw [destroyTask_eq]; exact hs
    | enumerated => exact hP.pending _ hs
    | enumerate => exact hP.enumerate _ _ _ _ hs
    | close => exact hP.event _ _ hs
    | _ => exact hs
  | begin | wakeUp | runEventLoopOnce | processPendingTasks | expire | tick => exact hs

theorem sockets_of_reaches {P : Sockets → Prop} {okCall : SocketCall → Prop}
    (hP : SocketsInvariant P okCall) {ok : State D → Action D → Prop}
    (hok : ∀ s c, ok s (.socket c) → okCall c) {s : State D} (h : ReachesIf ok s) : P s.sockets :=
  h.invariant (P := fun s => P s.sockets)
    (fun s _ _ ha hstep hs => sockets_step hP.toSocketsKept (fun c hc => hok s c (hc ▸ ha)) hstep hs) hP.init

end IoBase
