import IoBase.Steps

/- Socket calls that return false.

   `RegisterSocket` takes its insertion back when `WSAEventSelect` fails.
   `RearmSocket` does not take back the events it has added to the registration, so
   after a failure the socket is armed for events that Winsock was not told of.

   * `failed_call_unchanged`: a call that returns false leaves `registrations_` and
     the pending flag alone unless it is such a rearming.
   * `failed_rearm_arms`: a rearming that fails. -/
namespace IoBase
open Transition OrderedMap

/-- The call adds events to a registration, and its `WSAEventSelect` fails. -/
def SocketCall.RearmsInVain (s : Sockets) (quitting : Bool) : SocketCall → Prop
  | .rearm fd events selectOk =>
    quitting = false ∧ selectOk = false ∧ ∃ r, s.registrations.lookup fd = some r ∧ ¬Within events r.events
  | _ => False

/-- Adding events to a registration changes it exactly if one of them is new. -/
theorem modify_events_eq_iff {m : Map Fd Registration} {fd : Fd} {r : Registration} {events : EventMask}
    (hr : m.lookup fd = some r) :
    modify fd (fun r => { r with events := r.events ||| events }) m = m ↔ Within events r.events := by
  constructor
  · intro hsame
    have hlookup := lookup_modify_of_lookup (k := fd)
      (f := fun r : Registration => { r with events := r.events ||| events }) hr
    rw [hsame, hr, if_pos rfl, Option.some.injEq] at hlookup
    exact Within.or_eq_iff.mp (congrArg Registration.events hlookup).symm
  · intro hwithin
    refine modify_eq_self fun r' hr' => ?_
    rw [hr, Option.some.injEq] at hr'
    rw [← hr', Within.or_eq_iff.mpr hwithin]

/-- **A socket call that returns false changes nothing**, neither the sockets that are registered, their
    order and their registrations, nor the pending flag, unless it is a rearming for a new event whose
    `WSAEventSelect` fails. -/
theorem failed_call_unchanged (s : Sockets) (quitting : Bool) (c : SocketCall) :
    ((c.run s quitting).1 = false → (c.run s quitting).2.registrations = s.registrations ∧
      (c.run s quitting).2.hasArtificialEventsPending = s.hasArtificialEventsPending) ↔
    ¬c.RearmsInVain s quitting := by
  constructor
  · intro hclean hvain
    cases c with
    | rearm fd events selectOk =>
      obtain ⟨rfl, rfl, r, hr, hnew⟩ := hvain
      simp only [SocketCall.run, Sockets.rearmSocket, Bool.false_eq_true, if_false, hr] at hclean
      exact hnew ((modify_events_eq_iff hr).mp (hclean trivial).1)
    | register | unregister | notify => exact hvain
  · intro hnot hfalse
    cases quitting with
    | true => cases c <;> exact ⟨rfl, rfl⟩
    | false =>
      have hstep := socket_cases s false c
      generalize c.run s false = out at hstep hfalse ⊢
      cases hstep with
      | refused | registerFailed => exact ⟨rfl, rfl⟩
      | register | unregister | notify => cases hfalse
      | @rearm fd events selectOk r hr =>
        refine ⟨(modify_events_eq_iff hr).mpr ?_, rfl⟩
        by_contra hnew
        exact hnot ⟨rfl, hfalse, r, hr, hnew⟩

/-- A socket is registered for reading and then rearmed for writing, where `WSAEventSelect` fails. -/
theorem failed_rearm_arms :
    ¬∀ (s : State Ticks) (c : SocketCall), Reachable s → (c.run s.sockets s.isQuitting).1 = false →
      (c.run s.sockets s.isQuitting).2.registrations = s.sockets.registrations ∧
      (c.run s.sockets s.isQuitting).2.hasArtificialEventsPending = s.sockets.hasArtificialEventsPending := by
  intro hclaim
  have hrun : (runWhile step Always (State.init : State Ticks)
      [.begin, .socket (.register 1 kEventReadable 7 true)]).isSome = true := by decide
  have hsame := (hclaim _ (.rearm 1 kEventWritable false) (reaches_get hrun) rfl).1
  have harmed : some (kEventReadable ||| kEventWritable) = some kEventReadable :=
    congrArg (fun m : Map Fd Registration => (m.lookup 1).map Registration.events) hsame
  exact absurd harmed (by decide)

end IoBase
