import IoBase.SocketHistory

/- Which listeners are called.

   A registration is an object: registering a socket again under the same descriptor
   makes a new one, with a new number. `Registry` says how `registrations_` and the
   history agree: an object is owned as long as it has been registered and not been
   unregistered, under the descriptor and with the listener it was registered with.
   `Dispatches` says where the entries of the ready list and the calls come from.

   * `run_ready_callbacks`: the turn of an entry calls the listener of the object it
     was dispatched for if `registrations_` still owns the object, and no listener
     otherwise. -/
namespace IoBase
open Transition State OrderedMap

/-! ## The objects of `registrations_` -/

/-- The objects that the map owns, in its order. -/
def registrationIds (m : Map Fd Registration) : List Nat := m.entries.map fun e => e.2.id

theorem registrationIds_insertBack {fd : Fd} {r : Registration} {m : Map Fd Registration} (h : fd ∉ m) :
    registrationIds (insertBack fd r m).1 = registrationIds m ++ [r.id] := by
  simp [registrationIds, entries_insertBack h]

theorem registrationIds_modify {fd : Fd} {f : Registration → Registration} {g : EventMask → EventMask}
    {m : Map Fd Registration} (hf : ChangesEvents f g) :
    registrationIds (modify fd f m) = registrationIds m := by
  simp only [registrationIds, OrderedMap.modify, List.map_map]
  refine List.map_congr_left fun e _ => ?_
  by_cases he : e.1 = fd <;> simp [Sigma.map, he, (hf e.2).1]

theorem registrationIds_erase {fd : Fd} {m : Map Fd Registration} :
    (registrationIds (m.erase fd)).Sublist (registrationIds m) :=
  (List.kerase_sublist fd m.entries).map _

theorem mem_registrationIds {m : Map Fd Registration} {n : Nat} :
    n ∈ registrationIds m ↔ ∃ fd r, m.lookup fd = some r ∧ r.id = n := by
  simp only [registrationIds, List.mem_map]
  constructor
  · intro hx
    obtain ⟨⟨fd, r⟩, hmem, rfl⟩ := hx
    exact ⟨fd, r, AList.mem_lookup_iff.mpr hmem, rfl⟩
  · intro hx
    obtain ⟨fd, r, hr, rfl⟩ := hx
    exact ⟨⟨fd, r⟩, AList.mem_lookup_iff.mp hr, rfl⟩

/-- An object is owned under one descriptor. -/
theorem fd_unique {m : Map Fd Registration} {fd fd' : Fd} {r r' : Registration}
    (hsorted : (registrationIds m).Pairwise (· < ·)) (hr : m.lookup fd = some r)
    (hr' : m.lookup fd' = some r') (hid : r.id = r'.id) : fd = fd' := by
  have hnodup : (m.entries.map fun e => e.2.id).Nodup := hsorted.imp fun h => Nat.ne_of_lt h
  have heq := List.inj_on_of_nodup_map hnodup (AList.mem_lookup_iff.mp hr) (AList.mem_lookup_iff.mp hr') hid
  exact congrArg Sigma.fst heq

theorem lookup_erase {m : Map Fd Registration} {fd a : Fd} {r : Registration}
    (h : (m.erase fd).lookup a = some r) : a ≠ fd ∧ m.lookup a = some r := by
  by_cases ha : a = fd
  · rw [ha, AList.lookup_erase] at h
    cases h
  · rw [AList.lookup_erase_ne ha] at h
    exact ⟨ha, h⟩

/-! ## The objects and the history -/

/-- The objects registered, in order. -/
def registeredIds (h : List SocketNote) : List Nat :=
  h.filterMap fun
    | .registered _ n _ _ => some n
    | _ => none

@[simp] theorem registeredIds_append (h notes : List SocketNote) :
    registeredIds (h ++ notes) = registeredIds h ++ registeredIds notes := List.filterMap_append

theorem mem_registeredIds {h : List SocketNote} {n : Nat} :
    n ∈ registeredIds h ↔ ∃ fd events listener, SocketNote.registered fd n events listener ∈ h := by
  simp only [registeredIds, List.mem_filterMap]
  constructor
  · intro hx
    obtain ⟨note, hmem, hn⟩ := hx
    cases note with
    | registered => cases hn; exact ⟨_, _, _, hmem⟩
    | _ => cases hn
  · intro hx
    obtain ⟨fd, events, listener, hmem⟩ := hx
    exact ⟨_, hmem, rfl⟩

/-- `registrations_` and `make_shared`'s next object, against the history. -/
structure Registry (m : Map Fd Registration) (next : Nat) (h : List SocketNote) : Prop where
  sorted : (registrationIds m).Pairwise (· < ·)
  below : ∀ n ∈ registeredIds h, n < next
  increasing : (registeredIds h).Pairwise (· < ·)
  registered : ∀ fd r, m.lookup fd = some r →
    ∃ events listener, r.listener = some listener ∧ .registered fd r.id events listener ∈ h
  present : ∀ fd n events listener, .registered fd n events listener ∈ h →
    (∃ r, m.lookup fd = some r ∧ r.id = n) ∨ .unregistered fd n ∈ h
  absent : ∀ fd n, .unregistered fd n ∈ h → n ∈ registeredIds h ∧ n ∉ registrationIds m

def SocketNote.isRegistration : SocketNote → Bool
  | .registered .. => true
  | .unregistered .. => true
  | _ => false

namespace Registry
variable {m : Map Fd Registration} {next : Nat} {h notes : List SocketNote}

theorem owned_mem (hr : Registry m next h) {n : Nat} (hn : n ∈ registrationIds m) : n ∈ registeredIds h := by
  obtain ⟨fd, r, hlookup, rfl⟩ := mem_registrationIds.mp hn
  obtain ⟨events, listener, -, hmem⟩ := hr.registered fd r hlookup
  exact mem_registeredIds.mpr ⟨fd, events, listener, hmem⟩

/-- A change of the events that one registration is armed for. -/
theorem change {fd : Fd} {f : Registration → Registration} {g : EventMask → EventMask}
    (hr : Registry m next h) (hf : ChangesEvents f g) (hnotes : ∀ note ∈ notes, note.isRegistration = false) :
    Registry (modify fd f m) next (h ++ notes) := by
  have hnew : ∀ {note : SocketNote}, note.isRegistration = true → note ∈ h ++ notes → note ∈ h := by
    intro note hreg hmem
    refine (List.mem_append.mp hmem).resolve_right fun hmem => ?_
    rw [hnotes note hmem] at hreg
    cases hreg
  have hids : registeredIds (h ++ notes) = registeredIds h := by
    have hnone : registeredIds notes = [] := by
      rw [List.eq_nil_iff_forall_not_mem]
      intro n hn
      obtain ⟨fd, events, listener, hmem⟩ := mem_registeredIds.mp hn
      cases hnotes _ hmem
    rw [registeredIds_append, hnone, List.append_nil]
  refine ⟨?_, ?_, ?_, fun a r hlookup => ?_, fun a n events listener hmem => ?_, fun a n hmem => ?_⟩
  · rw [registrationIds_modify hf]
    exact hr.sorted
  · rw [hids]
    exact hr.below
  · rw [hids]
    exact hr.increasing
  · rw [lookup_modify, Option.map_eq_some_iff] at hlookup
    obtain ⟨r, hlookup, rfl⟩ := hlookup
    obtain ⟨events, listener, hlistener, hmem⟩ := hr.registered a r hlookup
    refine ⟨events, listener, ?_, List.mem_append_left _ ?_⟩
    · split
      · rw [(hf r).2.1, hlistener]
      · exact hlistener
    · split
      · rw [(hf r).1]
        exact hmem
      · exact hmem
  · rcases hr.present a n events listener (hnew rfl hmem) with ⟨r, hlookup, rfl⟩ | hgone
    · refine .inl ⟨_, lookup_modify_of_lookup hlookup, ?_⟩
      split
      · exact (hf r).1
      · rfl
    · exact .inr (List.mem_append_left _ hgone)
  · rw [hids, registrationIds_modify hf]
    exact hr.absent a n (hnew rfl hmem)

/-- A step that leaves the map alone. -/
theorem keep (hr : Registry m next h) (hnotes : ∀ note ∈ notes, note.isRegistration = false) :
    Registry m next (h ++ notes) := by
  rw [← modify_id (k := 0) (m := m)]
  exact hr.change changesEvents_id hnotes

theorem make (hr : Registry m next h) : Registry m (next + 1) h :=
  { hr with below := fun n hn => Nat.lt_succ_of_lt (hr.below n hn) }

theorem register {fd : Fd} {events : EventMask} {listener : Nat} (hr : Registry m next h) (hfd : fd ∉ m) :
    Registry (insertBack fd ⟨next, events, some listener, 0⟩ m).1 (next + 1)
      (h ++ [.registered fd next events listener]) := by
  have hids : registeredIds (h ++ [.registered fd next events listener]) = registeredIds h ++ [next] := by
    rw [registeredIds_append]
    rfl
  have hbelow : ∀ n ∈ registrationIds m, n < next := fun n hn => hr.below n (hr.owned_mem hn)
  refine ⟨?_, ?_, ?_, fun a r hlookup => ?_, fun a n events' listener' hmem => ?_, fun a n hmem => ?_⟩
  · rw [registrationIds_insertBack hfd, List.pairwise_append]
    refine ⟨hr.sorted, List.pairwise_singleton _ _, fun n hn n' hn' => ?_⟩
    rw [List.mem_singleton.mp hn']
    exact hbelow n hn
  · rw [hids]
    intro n hn
    rcases List.mem_append.mp hn with hn | hn
    · exact Nat.lt_succ_of_lt (hr.below n hn)
    · rw [List.mem_singleton.mp hn]
      exact Nat.lt_succ_self _
  · rw [hids, List.pairwise_append]
    refine ⟨hr.increasing, List.pairwise_singleton _ _, fun n hn n' hn' => ?_⟩
    rw [List.mem_singleton.mp hn']
    exact hr.below n hn
  · rw [lookup_insertBack hfd] at hlookup
    split at hlookup
    · rename_i ha
      cases hlookup
      exact ⟨events, listener, rfl, by simp [ha]⟩
    · obtain ⟨events', listener', hlistener, hmem⟩ := hr.registered a r hlookup
      exact ⟨events', listener', hlistener, List.mem_append_left _ hmem⟩
  · rcases List.mem_append.mp hmem with hmem | hmem
    · rcases hr.present a n events' listener' hmem with ⟨r, hlookup, rfl⟩ | hgone
      · refine .inl ⟨r, ?_, rfl⟩
        rw [lookup_insertBack hfd, if_neg, hlookup]
        intro he
        subst he
        exact hfd (AList.lookup_isSome.mp (by simp [hlookup]))
      · exact .inr (List.mem_append_left _ hgone)
    · cases List.mem_singleton.mp hmem
      exact .inl ⟨_, by rw [lookup_insertBack hfd, if_pos rfl], rfl⟩
  · have hold : SocketNote.unregistered a n ∈ h :=
      (List.mem_append.mp hmem).resolve_right (by simp)
    obtain ⟨hreg, hnot⟩ := hr.absent a n hold
    rw [hids, registrationIds_insertBack hfd]
    refine ⟨List.mem_append_left _ hreg, ?_⟩
    have hlt := hr.below n hreg
    simp only [List.mem_append, List.mem_singleton, not_or]
    exact ⟨hnot, Nat.ne_of_lt hlt⟩

theorem unregister {fd : Fd} {r : Registration} (hr : Registry m next h) (hlookup : m.lookup fd = some r) :
    Registry (m.erase fd) next (h ++ [.unregistered fd r.id]) := by
  have hids : registeredIds (h ++ [.unregistered fd r.id]) = registeredIds h := by
    rw [registeredIds_append]
    exact List.append_nil _
  refine ⟨hr.sorted.sublist registrationIds_erase, ?_, ?_, fun a r' ha => ?_,
    fun a n events listener hmem => ?_, fun a n hmem => ?_⟩
  · rw [hids]
    exact hr.below
  · rw [hids]
    exact hr.increasing
  · obtain ⟨events, listener, hlistener, hmem⟩ := hr.registered a r' (lookup_erase ha).2
    exact ⟨events, listener, hlistener, List.mem_append_left _ hmem⟩
  · have hold : SocketNote.registered a n events listener ∈ h :=
      (List.mem_append.mp hmem).resolve_right (by simp)
    rcases hr.present a n events listener hold with ⟨r', ha, rfl⟩ | hgone
    · by_cases hafd : a = fd
      · subst hafd
        rw [hlookup, Option.some.injEq] at ha
        subst ha
        exact .inr (List.mem_append_right _ (List.mem_singleton.mpr rfl))
      · exact .inl ⟨r', by rw [AList.lookup_erase_ne hafd, ha], rfl⟩
    · exact .inr (List.mem_append_left _ hgone)
  · rw [hids]
    rcases List.mem_append.mp hmem with hmem | hmem
    · obtain ⟨hreg, hnot⟩ := hr.absent a n hmem
      exact ⟨hreg, fun hn => hnot (registrationIds_erase.subset hn)⟩
    · cases List.mem_singleton.mp hmem
      refine ⟨hr.owned_mem (mem_registrationIds.mpr ⟨_, r, hlookup, rfl⟩), fun hn => ?_⟩
      obtain ⟨a, r', ha, hid⟩ := mem_registrationIds.mp hn
      obtain ⟨hne, ha⟩ := lookup_erase ha
      exact hne (fd_unique hr.sorted ha hlookup hid)

end Registry

theorem registry_step {d d' : Delivery} {h notes : List SocketNote} (hd : Delivers d notes d')
    (hr : Registry d.registrations d.nextRegistration h) :
    Registry d'.registrations d'.nextRegistration (h ++ notes) := by
  cases hd with
  | register _ hfd => exact hr.register hfd
  | registerFailed => exact hr.make.keep (by simp)
  | unregister _ hlookup => exact hr.unregister hlookup
  | rearm _ _ hf => exact hr.change hf (by simp [SocketNote.isRegistration])
  | notify _ hf => exact hr.change hf (by simp)
  | pass _ hf => exact hr.change hf (by simp)
  | dispatch _ _ _ _ hf => exact hr.change hf (by simp [SocketNote.isRegistration])
  | call => exact hr.keep (by simp [SocketNote.isRegistration])
  | quiet | begin | leave | enter | enumerated | skip => exact hr.keep (by simp)

/-! ## Where entries and calls come from -/

/-- The entries of the ready list have been dispatched in this iteration, and those that a listener
    has been called for in the iteration of the call. -/
structure Dispatches (d : Delivery) (h : List SocketNote) : Prop where
  noted : ∀ k entry armed, .dispatched k entry armed ∈ h → entry.events ≠ 0 ∧ Within entry.events armed ∧
    ∃ events listener, .registered entry.fd entry.registration events listener ∈ h
  ready : ∀ entry ∈ d.phase.ready, ∃ armed, .dispatched d.iterations entry armed ∈ h
  called : ∀ cb ∈ d.called,
    ∃ armed, .dispatched cb.iteration ⟨cb.fd, cb.registration, cb.events⟩ armed ∈ h

namespace Dispatches
variable {d d' : Delivery} {h notes : List SocketNote}

/-- A step that adds nothing to the ready list or to the calls. -/
theorem keep (hd : Dispatches d h) (hnotes : ∀ k entry armed, SocketNote.dispatched k entry armed ∉ notes)
    (hready : ∀ entry ∈ d'.phase.ready, entry ∈ d.phase.ready ∧ d'.iterations = d.iterations)
    (hcalled : d'.called = d.called) : Dispatches d' (h ++ notes) where
  noted := by
    intro k entry armed hmem
    obtain ⟨hne, hwithin, events, listener, hreg⟩ :=
      hd.noted k entry armed ((List.mem_append.mp hmem).resolve_right (hnotes _ _ _))
    exact ⟨hne, hwithin, events, listener, List.mem_append_left _ hreg⟩
  ready := by
    intro entry hentry
    obtain ⟨hold, hi⟩ := hready entry hentry
    obtain ⟨armed, hmem⟩ := hd.ready entry hold
    rw [hi]
    exact ⟨armed, List.mem_append_left _ hmem⟩
  called := by
    intro cb hcb
    rw [hcalled] at hcb
    obtain ⟨armed, hmem⟩ := hd.called cb hcb
    exact ⟨armed, List.mem_append_left _ hmem⟩

/-- A step that leaves the phase alone. -/
theorem same (hd : Dispatches d h) (hnotes : ∀ k entry armed, SocketNote.dispatched k entry armed ∉ notes)
    (hphase : d'.phase = d.phase) (hi : d'.iterations = d.iterations) (hcalled : d'.called = d.called) :
    Dispatches d' (h ++ notes) :=
  hd.keep hnotes (fun _ hentry => ⟨hphase ▸ hentry, hi⟩) hcalled

end Dispatches

theorem dispatches_step {d d' : Delivery} {h notes : List SocketNote} (hstep : Delivers d notes d')
    (hr : Registry d.registrations d.nextRegistration h) (hd : Dispatches d h) :
    Dispatches d' (h ++ notes) := by
  cases hstep with
  | quiet | registerFailed | notify => exact hd.same (by simp) rfl rfl rfl
  | register | unregister | rearm => exact hd.same (by simp) rfl rfl rfl
  | begin | leave | enter => exact hd.keep (by simp) (by simp [SocketPhase.ready]) rfl
  | pass hphase | enumerated hphase =>
    refine hd.keep (by simp) (fun entry hentry => ⟨?_, rfl⟩) rfl
    rw [hphase]
    exact hentry
  | skip hphase =>
    refine hd.keep (by simp) (fun entry hentry => ⟨?_, rfl⟩) rfl
    rw [hphase]
    exact List.mem_cons_of_mem _ hentry
  | @dispatch fd todo ready r events f hphase hlookup hne hwithin hf =>
    refine ⟨fun k entry armed hmem => ?_, fun entry hentry => ?_, fun cb hcb => ?_⟩
    · rcases List.mem_append.mp hmem with hmem | hmem
      · obtain ⟨hne', hwithin', events', listener, hreg⟩ := hd.noted k entry armed hmem
        exact ⟨hne', hwithin', events', listener, List.mem_append_left _ hreg⟩
      · cases List.mem_singleton.mp hmem
        obtain ⟨events', listener, -, hreg⟩ := hr.registered fd r hlookup
        exact ⟨hne, hwithin, events', listener, List.mem_append_left _ hreg⟩
    · rcases List.mem_append.mp hentry with hentry | hentry
      · have hold := hd.ready entry
        rw [hphase] at hold
        obtain ⟨armed, hmem⟩ := hold hentry
        exact ⟨armed, List.mem_append_left _ hmem⟩
      · rw [List.mem_singleton.mp hentry]
        exact ⟨r.events, List.mem_append_right _ (List.mem_singleton.mpr rfl)⟩
    · obtain ⟨armed, hmem⟩ := hd.called cb hcb
      exact ⟨armed, List.mem_append_left _ hmem⟩
  | @call entry rest r hphase =>
    have hready := hd.ready
    rw [hphase] at hready
    refine ⟨fun k entry armed hmem => ?_, fun entry hentry => ?_, fun cb hcb => ?_⟩
    · obtain ⟨hne, hwithin, events, listener, hreg⟩ :=
        hd.noted k entry armed ((List.mem_append.mp hmem).resolve_right (by simp))
      exact ⟨hne, hwithin, events, listener, List.mem_append_left _ hreg⟩
    · obtain ⟨armed, hmem⟩ := hready entry (List.mem_cons_of_mem _ hentry)
      exact ⟨armed, List.mem_append_left _ hmem⟩
    · rcases List.mem_append.mp hcb with hcb | hcb
      · obtain ⟨armed, hmem⟩ := hd.called cb hcb
        exact ⟨armed, List.mem_append_left _ hmem⟩
      · rw [List.mem_singleton.mp hcb]
        obtain ⟨armed, hmem⟩ := hready entry List.mem_cons_self
        exact ⟨armed, List.mem_append_left _ hmem⟩

variable {D : Type} [AbslDuration D]

omit [AbslDuration D] in
theorem registry_init : Registry (State.init : State D).delivery.registrations
    (State.init : State D).delivery.nextRegistration [] := by
  constructor <;> simp [State.delivery, State.init, Sockets.init, registrationIds, registeredIds]

theorem registry_of_run {p : State D × List SocketNote}
    (hrun : Reaches (noted D) (fun p a => NoListenerReentry p.1 a) (State.init, []) p) :
    Control p.1 ∧ OneListing p.1 ∧ Registry p.1.sockets.registrations p.1.sockets.nextRegistration p.2 ∧
      Dispatches p.1.delivery p.2 := by
  refine delivery_invariant
    (P := fun d h => Registry d.registrations d.nextRegistration h ∧ Dispatches d h) ?_
    (fun d d' notes h hd hp => ⟨registry_step hd hp.1, dispatches_step hd hp.1 hp.2⟩) hrun
  refine ⟨registry_init, ?_⟩
  constructor <;> simp [State.delivery, State.init, SocketPhase.ready]

/-! ## The calls -/

/-- `registrations_` owns the object. -/
def Sockets.Owns (s : Sockets) (registration : Nat) : Prop :=
  ∃ fd r, s.registrations.lookup fd = some r ∧ r.id = registration

/-- The step calls the listener for the entry, and notes it. -/
def CallsListener (s s' : State D) (o : Outcome) (entry : ReadyListEntry) (listener : Nat) : Prop :=
  s.socketNotes (.loop o) = [.called s.iterations entry (some listener)] ∧
    s'.called = s.called ++ [⟨s.iterations, entry.fd, entry.registration, entry.events⟩]

/-- An object that the map owns is owned under the descriptor it was registered with. -/
theorem Registry.owns_iff {s : Sockets} {next : Nat} {h : List SocketNote}
    (hr : Registry s.registrations next h) {fd : Fd} {n : Nat} {events : EventMask} {listener : Nat}
    (hmem : .registered fd n events listener ∈ h) :
    s.Owns n ↔ ∃ r, s.registrations.lookup fd = some r ∧ r.id = n := by
  constructor
  · intro howns
    rcases hr.present fd n events listener hmem with hlookup | hgone
    · exact hlookup
    · exact absurd (mem_registrationIds.mpr howns) (hr.absent fd n hgone).2
  · intro hx
    obtain ⟨r, hlookup, hid⟩ := hx
    exact ⟨fd, r, hlookup, hid⟩

/-- The notes about one object name one descriptor and one listener. -/
theorem registered_unique {h : List SocketNote} (hinc : (registeredIds h).Pairwise (· < ·)) {n : Nat}
    {fd fd' : Fd} {events events' : EventMask} {listener listener' : Nat}
    (hmem : SocketNote.registered fd n events listener ∈ h)
    (hmem' : SocketNote.registered fd' n events' listener' ∈ h) :
    fd = fd' ∧ events = events' ∧ listener = listener' := by
  induction h with
  | nil => cases hmem
  | cons note h ih =>
    have hfresh : ∀ {fd events listener}, note = .registered fd n events listener → n ∉ registeredIds h := by
      intro fd events listener he hn
      subst he
      exact Nat.lt_irrefl n ((List.pairwise_cons.mp hinc).1 n hn)
    have hrest : (registeredIds h).Pairwise (· < ·) :=
      hinc.sublist ((List.sublist_cons_self note h).filterMap _)
    rcases List.mem_cons.mp hmem with rfl | hmem <;> rcases List.mem_cons.mp hmem' with heq | hmem'
    · cases heq
      exact ⟨rfl, rfl, rfl⟩
    · exact absurd (mem_registeredIds.mpr ⟨_, _, _, hmem'⟩) (hfresh rfl)
    · exact absurd (mem_registeredIds.mpr ⟨_, _, _, hmem⟩) (hfresh heq.symm)
    · exact ih hrest hmem hmem'

/-- An entry whose turn it is: the listener it was registered with is called if the object is still
    owned, and no listener is called otherwise. -/
theorem callbacks_turn {p : State D × List SocketNote} {s' : State D} {o : Outcome} {w : WaitResult}
    {entry : ReadyListEntry} {rest : List ReadyListEntry} {fs : List (Frame D)}
    (hone : OneListing p.1) (hr : Registry p.1.sockets.registrations p.1.sockets.nextRegistration p.2)
    (hs : p.1.stack = .callbacks w (entry :: rest) :: fs) (hstep : step p.1 (.loop o) = some s')
    {events : EventMask} {listener : Nat}
    (hmem : .registered entry.fd entry.registration events listener ∈ p.2) :
    (p.1.sockets.Owns entry.registration →
      CallsListener p.1 s' o entry listener ∧ s'.stack = .inCallback w entry rest :: fs) ∧
    (¬p.1.sockets.Owns entry.registration →
      s'.called = p.1.called ∧ s'.stack = .callbacks w rest :: fs) := by
  have hlocked : p.1.locked fs entry = true ↔ p.1.sockets.Owns entry.registration := by
    rw [locked_eq (hone.below hs rfl), locked_iff, hr.owns_iff hmem]
  cases step_cases hstep with
  | loop hout hs₂ hf =>
    rw [hs, List.cons.injEq] at hs₂
    obtain ⟨rfl, rfl⟩ := hs₂
    cases framed hf with
    | callback hl =>
      refine ⟨fun howns => ⟨⟨?_, rfl⟩, rfl⟩, fun hnot => absurd (hlocked.mp hl) hnot⟩
      obtain ⟨r, hlookup, hid⟩ := (hr.owns_iff hmem).mp howns
      obtain ⟨events', listener', hlistener, hmem'⟩ := hr.registered _ _ hlookup
      rw [hid] at hmem'
      obtain ⟨-, -, rfl⟩ := registered_unique hr.increasing hmem hmem'
      rw [socketNotes_callbacks hs, hl, if_pos rfl, hlookup, Option.bind_some, hlistener]
    | skip hl =>
      refine ⟨fun howns => ?_, fun _ => ⟨rfl, rfl⟩⟩
      rw [hlocked.mpr howns] at hl
      cases hl

/-- A listener is called where its entry has its turn, and nowhere else. -/
theorem called_step {s s' : State D} {a : Action D} (h : step s a = some s') :
    s'.called = s.called ∨
      ∃ w entry rest fs o, a = .loop o ∧ s.stack = .callbacks w (entry :: rest) :: fs := by
  cases step_cases h with
  | call hm he => rw [enter_frame he]; exact .inl rfl
  | resume hr => rw [resume_frame hr]; exact .inl rfl
  | loop hout hs hf =>
    cases framed hf with
    | wait => rw [dispatch_eq]; exact .inl rfl
    | start => rw [startTask_eq]; exact .inl rfl
    | finish => rw [finishTask_eq]; exact .inl rfl
    | destroy => rw [destroyTask_eq]; exact .inl rfl
    | callback => exact .inr ⟨_, _, _, _, _, rfl, hs⟩
    | _ => exact .inl rfl
  | begin | wakeUp | runEventLoopOnce | processPendingTasks | socket | arrive | expire | tick => exact .inl rfl

/-- **`RunReadyCallbacks`.** Each entry was dispatched in this iteration, for an object registered
    under its descriptor; its turn calls that object's listener if `registrations_` still owns it,
    and no listener otherwise; no other step calls a listener; and an object is owned exactly until
    it is unregistered. -/
theorem run_ready_callbacks {p : State D × List SocketNote}
    (hrun : Reaches (noted D) (fun p a => NoListenerReentry p.1 a) (State.init, []) p) :
    (∀ w entry rest fs, p.1.stack = .callbacks w (entry :: rest) :: fs →
      (∃ armed, .dispatched p.1.iterations entry armed ∈ p.2) ∧
      ∃ events listener, .registered entry.fd entry.registration events listener ∈ p.2 ∧
        ∀ o s', step p.1 (.loop o) = some s' →
          (p.1.sockets.Owns entry.registration →
            CallsListener p.1 s' o entry listener ∧ s'.stack = .inCallback w entry rest :: fs) ∧
          (¬p.1.sockets.Owns entry.registration →
            s'.called = p.1.called ∧ s'.stack = .callbacks w rest :: fs)) ∧
    (∀ a s', step p.1 a = some s' → s'.called = p.1.called ∨
      ∃ w entry rest fs o, a = .loop o ∧ p.1.stack = .callbacks w (entry :: rest) :: fs) ∧
    (∀ fd n events listener, .registered fd n events listener ∈ p.2 →
      (p.1.sockets.Owns n ↔ .unregistered fd n ∉ p.2)) ∧
    (registeredIds p.2).Pairwise (· < ·) := by
  obtain ⟨-, hone, hr, hd⟩ := registry_of_run hrun
  refine ⟨fun w entry rest fs hs => ?_, fun a s' hstep => called_step hstep,
    fun fd n events listener hmem => ?_, hr.increasing⟩
  · have hready : entry ∈ p.1.delivery.phase.ready := by
      rw [phase_cons hs]
      exact List.mem_cons_self
    obtain ⟨armed, hdispatched⟩ := hd.ready entry hready
    obtain ⟨-, -, events, listener, hmem⟩ := hd.noted _ _ _ hdispatched
    exact ⟨⟨armed, hdispatched⟩, events, listener, hmem,
      fun o s' hstep => callbacks_turn hone hr hs hstep hmem⟩
  · constructor
    · intro howns hgone
      exact (hr.absent fd n hgone).2 (mem_registrationIds.mpr howns)
    · intro hnot
      exact (hr.owns_iff hmem).mpr ((hr.present fd n events listener hmem).resolve_right hnot)

/-- Two sockets have events, and the listener of the first one registers the second anew, with another
    listener. -/
def reregisteringRun : List (Action Ticks) :=
  [.begin, .socket (.register 1 kEventReadable 7 true), .socket (.register 2 kEventReadable 8 true),
    .socket (.notify 1 kEventReadable), .socket (.notify 2 kEventReadable), .runEventLoopOnce .posInf,
    .loop { wait := .socket }, .loop {}, .loop {}, .loop {}, .loop {}, .socket (.unregister 2 true),
    .socket (.register 2 kEventReadable 9 true), .loop {}]

theorem run_ready_callbacks_reregistered :
    ∃ p : State Ticks × List SocketNote,
      Reaches (noted Ticks) (fun p a => NoListenerReentry p.1 a) (State.init, []) p ∧
      p.1.stack = [.callbacks .socket [⟨2, 1, kEventReadable⟩]] ∧
      (p.1.sockets.registrations.lookup 2).map (fun r => (r.id, r.listener)) = some (2, some 9) ∧
      ∀ s', step p.1 (.loop {}) = some s' → s'.called = p.1.called := by
  have hrun : (runWhile (noted Ticks) (fun p a => NoListenerReentry p.1 a) (State.init, [])
      reregisteringRun).isSome = true := by decide
  have hreach := reaches_get hrun
  have hregistered : SocketNote.registered 2 1 kEventReadable 8 ∈ (Option.get _ hrun).2 :=
    List.mem_of_getElem? (i := 1) rfl
  have hunregistered : SocketNote.unregistered 2 1 ∈ (Option.get _ hrun).2 :=
    List.mem_of_getElem? (i := 5) rfl
  obtain ⟨hturn, -, howned, -⟩ := run_ready_callbacks hreach
  obtain ⟨-, events, listener, -, hcalls⟩ := hturn .socket ⟨2, 1, kEventReadable⟩ [] [] rfl
  refine ⟨_, hreach, rfl, rfl, fun s' hstep => ((hcalls {} s' hstep).2 fun howns => ?_).1⟩
  exact (howned _ _ _ _ hregistered).mp howns hunregistered

end IoBase
