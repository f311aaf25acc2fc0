import IoBase.SignaledWait
import IoBase.WaitEpoll

/- A wake-up of the epoll wait of `EvenLoop`, in `event_loop_temp.cc`.

   `WaitEpoll` serves its Signaler in the sense of `SignaledWait.lean`. The eventfd has been
   added to the interest list under the Signaler's key, and stays there; the other
   descriptors come and go. `epoll_wait` reports no more than `kNumEpollEvents` descriptors, so
   the Signaler may be missing from an answer that is full. A descriptor that is asked for at a
   change, or once, may be missing from any answer.

   Correspondence (C++ ↔ Lean):
     `WaitEpoll`, `ProcessEvents`               ↔ `WaitEpoll.step`
     what `epoll_wait` reports of the eventfd   ↔ `mayAnswer` of `WaitEpoll.io`
     the next call of `Wait`                    ↔ `enter` of `WaitEpoll.io`

   * `wakeUp_ends_waitEpoll`: after a `WakeUp` the wait ends with its next answer that is not
     full. -/
namespace IoBase
open Transition SignaledWait

namespace WaitEpoll

/-- The keys of the dispatchers that have been told. -/
def toldKeys (s : WaitEpoll) : List Nat := s.told.map fun told => told.event.key

/-- The descriptor is in the list to be reported for as long as it is ready, neither at a change only nor
    only once. -/
def levelTriggered (s : WaitEpoll) (fd : Nat) : Bool :=
  match s.interest.lookup fd with
  | some event => !meets event.events (Epoll.epollEt ||| Epoll.epollOneShot)
  | none => false

/-- `WaitEpoll`, with the Signaler's descriptor in the list under this key. -/
def io (getEpollEvents : BitVec 32 → BitVec 32) (fd : Nat) : IoWait WaitEpoll WaitEpollAction where
  step := WaitEpoll.step getEpollEvents
  external a := match a with
    | .tick _ | .table _ | .add _ _ _ _ | .update _ _ _ _ | .remove _ _ => true
    | _ => false
  mayAnswer s a readable := match a with
    | .wake .timeout => !(readable && s.levelTriggered fd)
    | .wake (.ready ready) =>
      (ready.all fun p => p.1 != fd || meets p.2 Epoll.epollIn == readable) &&
        (!(readable && s.levelTriggered fd) || ready.any (·.1 == fd) ||
          ready.length == EvenLoop.kNumEpollEvents)
    | _ => true
  told := toldKeys
  returned s := match s.phase with
    | .returned ok => some ok
    | _ => none
  enter s cmsWait _ := { start cmsWait s.dispatcherByKey s.now with
    interest := s.interest, checked := s.checked, registered := s.registered }

/-- The Signaler stays in the table, and its descriptor in the list. -/
def KeepsSignaler (key fd : Nat) (_ : WaitEpoll) : WaitEpollAction → Prop
  | .table dispatchers => dispatchers.lookup key = some (.wakeup fd)
  | .add (some fd') _ _ _ | .update (some fd') _ _ _ | .remove (some fd') _ => fd' ≠ fd
  | _ => True

instance (key fd : Nat) (s : WaitEpoll) : (a : WaitEpollAction) → Decidable (KeepsSignaler key fd s a)
  | .table dispatchers => inferInstanceAs (Decidable (dispatchers.lookup key = some (.wakeup fd)))
  | .add (some fd') _ _ _ | .update (some fd') _ _ _ | .remove (some fd') _ => inferInstanceAs (Decidable (fd' ≠ fd))
  | .add none _ _ _ | .update none _ _ _ | .remove none _ => inferInstanceAs (Decidable True)
  | .tick _ | .call | .wake _ | .process _ _ | .recalc => inferInstanceAs (Decidable True)

/-- The wait is entered with the Signaler added to the list. -/
def startSignaled (getEpollEvents : BitVec 32 → BitVec 32) (key fd : Nat) (cmsWait : Int)
    (dispatchers : AList fun _ : Nat => PosixDispatcher) (now : Int) : WaitEpoll :=
  (start cmsWait dispatchers now).change (addEpoll getEpollEvents accepts ∅ (some fd) deRead key)
    ((∅ : AList fun _ : Nat => EpollRegistration).insert fd ⟨key, deRead⟩)

/-- The Signaler is in the table, and its descriptor in the list, to be read. -/
structure HasSignaler (getEpollEvents : BitVec 32 → BitVec 32) (key fd : Nat) (s : WaitEpoll) : Prop where
  lookup : s.dispatcherByKey.lookup key = some (.wakeup fd)
  interest : s.interest.lookup fd = some ⟨getEpollEvents deRead, key⟩

/-- The Signaler is readable in what was reported and is left. -/
def Coming (key : Nat) (s : WaitEpoll) : Prop :=
  ∃ todo, s.phase = .processing todo ∧ ∃ event ∈ todo, event.key = key ∧ meets event.events Epoll.epollIn = true

/-- With `fWait_` cleared, in the pass or on the way from it to the end. -/
def Leaving (s : WaitEpoll) : Prop :=
  s.fWait = false ∧ ((∃ todo, s.phase = .processing todo) ∨ s.phase = .recalculating ∨ s.phase = .head ∨
    s.phase = .returned true)

variable {getEpollEvents : BitVec 32 → BitVec 32} {key fd : Nat} {s s' : WaitEpoll}

/-- What the loop does with an event. -/
theorem process_cases (event : EpollEvent) (todo : List EpollEvent) (closed : Bool) (res : SoError) :
    (s.process event todo closed res).phase = .processing todo ∧
    (s.process event todo closed res).dispatcherByKey = s.dispatcherByKey ∧
    ((s.process event todo closed res).fWait = true → s.fWait = true) ∧
    ((s.process event todo closed res).toldKeys = s.toldKeys ∨
      (s.process event todo closed res).toldKeys = s.toldKeys ++ [event.key]) ∧
    (∀ fd, s.dispatcherByKey.lookup event.key = some (.wakeup fd) → meets event.events Epoll.epollIn = true →
      (s.process event todo closed res).fWait = false ∧
      (s.process event todo closed res).toldKeys = s.toldKeys ++ [event.key]) := by
  cases hlookup : s.dispatcherByKey.lookup event.key with
  | none =>
    have hprocess : s.process event todo closed res = { s with phase := .processing todo } := by
      simp only [process, hlookup]
    rw [hprocess]
    exact ⟨rfl, rfl, id, .inl rfl, fun _ hthere => by cases hthere⟩
  | some disp =>
    generalize hcall : processEvents disp.getRequestedEvents (disp.isDescriptorClosed closed)
      (meets event.events (Epoll.epollIn ||| Epoll.epollPri)) (meets event.events Epoll.epollOut)
      (meets event.events (Epoll.epollRdHup ||| Epoll.epollErr ||| Epoll.epollHup))
      (meets event.events (Epoll.epollRdHup ||| Epoll.epollErr ||| Epoll.epollHup)) res = call
    obtain ⟨ff, err⟩ := call
    have hprocess : s.process event todo closed res =
        if ff = 0 then { s with phase := .processing todo }
          else { s with phase := .processing todo }.onEvent disp ⟨event, ff, err⟩ := by
      simp only [process, hlookup, hcall]
    rw [hprocess]
    by_cases hff : ff = 0
    · rw [if_pos hff]
      refine ⟨rfl, rfl, id, .inl rfl, fun _ _ hin => ?_⟩
      -- what is readable is told
      have hreadable : meets event.events (Epoll.epollIn ||| Epoll.epollPri) = true := meets_bits.mpr (.inl hin)
      rw [hreadable] at hcall
      exact absurd hff (processEvents_ne_zero hcall)
    · have hkeys : (s.told ++ [EpollTold.mk event ff err]).map (fun told => told.event.key) =
          s.told.map (fun told => told.event.key) ++ [event.key] := by
        rw [List.map_append, List.map_cons, List.map_nil]
      rw [if_neg hff]
      refine ⟨rfl, rfl, fun h => ?_, .inr hkeys, fun _ hthere _ => ?_⟩
      · simp only [onEvent] at h
        split at h
        · cases h
        · exact h
      · cases hthere
        exact ⟨rfl, hkeys⟩

/-! ## The Signaler's descriptor -/

theorem epollCtl_frame {refuses : EpollRefusals} {interest interest' : InterestList} {op : EpollOp} {fd' : Nat}
    {event : EpollEvent} (hne : fd ≠ fd') (h : epollCtl refuses interest op fd' event = .ok interest') :
    interest'.lookup fd = interest.lookup fd := by
  simp only [epollCtl] at h
  split at h
  · cases h
  · split at h <;> cases h
    · exact AList.lookup_insert_ne hne
    · exact AList.lookup_insert_ne hne
    · exact AList.lookup_erase_ne hne

/-- The functions that change the list leave the other descriptors alone, whatever the kernel refuses. -/
theorem change_frame {fd' : Nat} (refuses : EpollRefusals) (interest : InterestList)
    (requestedEvents : BitVec 32) (key' : Nat) (hne : fd ≠ fd') :
    (addEpoll getEpollEvents refuses interest (some fd') requestedEvents key').1.lookup fd = interest.lookup fd ∧
    (updateEpoll getEpollEvents refuses interest (some fd') requestedEvents key').1.lookup fd =
      interest.lookup fd := by
  constructor
  · simp only [addEpoll]
    split
    · rfl
    · split
      · exact epollCtl_frame hne (by assumption)
      · rfl
  · simp only [updateEpoll]
    split
    · split
      · exact epollCtl_frame hne (by assumption)
      · rfl
    · split
      · exact epollCtl_frame hne (by assumption)
      · split
        · exact epollCtl_frame hne (by assumption)
        · rfl
      · rfl

theorem remove_frame {fd' : Nat} (refuses : EpollRefusals) (interest : InterestList) (hne : fd ≠ fd') :
    (removeEpoll refuses interest (some fd')).1.lookup fd = interest.lookup fd := by
  simp only [removeEpoll]
  split
  · exact epollCtl_frame hne (by assumption)
  · rfl

theorem hasSignaler_start {dispatchers : AList fun _ : Nat => PosixDispatcher} (cmsWait now : Int)
    (hread : meets (getEpollEvents deRead) Epoll.epollIn = true)
    (h : dispatchers.lookup key = some (.wakeup fd)) :
    HasSignaler getEpollEvents key fd (startSignaled getEpollEvents key fd cmsWait dispatchers now) := by
  have hsome : getEpollEvents deRead ≠ 0 := by
    intro hnone
    rw [hnone] at hread
    cases hread
  refine ⟨h, ?_⟩
  show (addEpoll getEpollEvents accepts ∅ (some fd) deRead key).1.lookup fd = _
  rw [(addEpoll_fresh ⟨rfl, rfl, rfl⟩ (AList.lookup_empty fd)).2 fd, if_pos rfl, EpollRegistration.event, if_neg hsome]

theorem hasSignaler_step {a : WaitEpollAction} (hok : KeepsSignaler key fd s a)
    (hstep : s.step getEpollEvents a = some s') (h : HasSignaler getEpollEvents key fd s) :
    HasSignaler getEpollEvents key fd s' := by
  constructor
  · -- only `table` changes the table
    cases a with
    | table dispatchers =>
      cases hstep
      exact hok
    | process closed res =>
      simp only [step] at hstep
      split at hstep <;> cases hstep
      · rename_i event todo _
        rw [(process_cases event todo closed res).2.1]
        exact h.lookup
      · exact h.lookup
    | tick ns =>
      simp only [step] at hstep
      split at hstep
      · split at hstep <;> cases hstep
        exact h.lookup
      · cases hstep
        exact h.lookup
    | add _ _ _ _ | update _ _ _ _ | remove _ _ =>
      cases hstep
      exact h.lookup
    | call =>
      simp only [step] at hstep
      split at hstep <;> cases hstep
      split <;> exact h.lookup
    | wake n =>
      simp only [step] at hstep
      split at hstep
      · cases hstep
        exact h.lookup
      · cases hstep
        exact h.lookup
      · split at hstep <;> cases hstep
        exact h.lookup
      · split at hstep
        · cases hstep
        · split at hstep <;> cases hstep
          exact h.lookup
      · cases hstep
    | recalc =>
      simp only [step] at hstep
      split at hstep <;> cases hstep
      exact h.lookup
  · obtain ⟨fd', r, key', refuses, rfl⟩ | ⟨fd', r, key', refuses, rfl⟩ | ⟨fd', refuses, rfl⟩ | ⟨hinterest, -⟩ :=
      step_frame hstep
    · cases hstep
      cases fd' with
      | none => exact h.interest
      | some fd' => exact (change_frame refuses s.interest r key' (Ne.symm hok)).1.trans h.interest
    · cases hstep
      cases fd' with
      | none => exact h.interest
      | some fd' => exact (change_frame refuses s.interest r key' (Ne.symm hok)).2.trans h.interest
    · cases hstep
      cases fd' with
      | none => exact h.interest
      | some fd' => exact (remove_frame refuses s.interest (Ne.symm hok)).trans h.interest
    · rw [hinterest]
      exact h.interest

/-! ## The pass -/

/-- Only the loop over what was reported tells anyone. -/
theorem step_told {a : WaitEpollAction} (h : s.step getEpollEvents a = some s') :
    s'.told = s.told ∨ ∃ closed res event todo, a = .process closed res ∧ s.phase = .processing (event :: todo) ∧
      s' = s.process event todo closed res := by
  cases a with
  | process closed res =>
    simp only [step] at h
    split at h <;> cases h
    · exact .inr ⟨closed, res, _, _, rfl, by assumption, rfl⟩
    · exact .inl rfl
  | table _ | add _ _ _ _ | update _ _ _ _ | remove _ _ =>
    cases h
    exact .inl rfl
  | tick ns =>
    refine .inl ?_
    simp only [step] at h
    split at h
    · split at h <;> cases h
      rfl
    · cases h
      rfl
  | call =>
    refine .inl ?_
    simp only [step] at h
    split at h <;> cases h
    split <;> rfl
  | wake n =>
    refine .inl ?_
    simp only [step] at h
    split at h
    · cases h
      rfl
    · cases h
      rfl
    · split at h <;> cases h
      rfl
    · split at h
      · cases h
      · split at h <;> cases h
        rfl
    · cases h
  | recalc =>
    refine .inl ?_
    simp only [step] at h
    split at h <;> cases h
    rfl

/-- Time and other threads leave the loop where it is. -/
theorem external_frame {a : WaitEpollAction} (hexternal : (io getEpollEvents fd).external a = true)
    (h : s.step getEpollEvents a = some s') : s'.phase = s.phase ∧ s'.fWait = s.fWait := by
  cases a with
  | tick ns =>
    simp only [step] at h
    split at h
    · split at h <;> cases h
      exact ⟨rfl, rfl⟩
    · cases h
      exact ⟨rfl, rfl⟩
  | table _ | add _ _ _ _ | update _ _ _ _ | remove _ _ =>
    cases h
    exact ⟨rfl, rfl⟩
  | _ => cases hexternal

/-- What `ProcessEvents` tells the Signaler of an event. -/
def signalerFf (event : EpollEvent) (res : SoError) : BitVec 32 :=
  let error := meets event.events (Epoll.epollRdHup ||| Epoll.epollErr ||| Epoll.epollHup)
  (processEvents deRead false (meets event.events (Epoll.epollIn ||| Epoll.epollPri))
    (meets event.events Epoll.epollOut) error error res).1

/-- The loop has come to the Signaler, and there is something to tell it. -/
def ComesTo (key : Nat) (res : SoError) (s : WaitEpoll) : Prop :=
  ∃ event todo, s.phase = .processing (event :: todo) ∧ event.key = key ∧ signalerFf event res ≠ 0

theorem process_signaler {event : EpollEvent} (todo : List EpollEvent) (closed : Bool) (res : SoError)
    (hthere : s.dispatcherByKey.lookup event.key = some (.wakeup fd)) :
    (s.process event todo closed res).toldKeys =
      s.toldKeys ++ (if signalerFf event res = 0 then [] else [event.key]) := by
  generalize hcall : processEvents deRead false (meets event.events (Epoll.epollIn ||| Epoll.epollPri))
    (meets event.events Epoll.epollOut)
    (meets event.events (Epoll.epollRdHup ||| Epoll.epollErr ||| Epoll.epollHup))
    (meets event.events (Epoll.epollRdHup ||| Epoll.epollErr ||| Epoll.epollHup)) res = call
  obtain ⟨ff, err⟩ := call
  have hprocess : s.process event todo closed res =
      if ff = 0 then { s with phase := .processing todo }
        else { s with phase := .processing todo }.onEvent (.wakeup fd) ⟨event, ff, err⟩ := by
    simp only [process, hthere, PosixDispatcher.getRequestedEvents, PosixDispatcher.isDescriptorClosed, hcall]
  simp only [hprocess, signalerFf, hcall]
  split
  · exact (List.append_nil _).symm
  · simp only [toldKeys, onEvent, List.map_append, List.map_cons, List.map_nil]

theorem ComesTo.told {res : SoError} (h : ComesTo key res s) (closed : Bool)
    (hthere : s.dispatcherByKey.lookup key = some (.wakeup fd)) :
    ∃ s', s.step getEpollEvents (.process closed res) = some s' ∧ s'.toldKeys = s.toldKeys ++ [key] := by
  obtain ⟨event, todo, hphase, rfl, hff⟩ := h
  refine ⟨s.process event todo closed res, by simp only [step, hphase], ?_⟩
  rw [process_signaler todo closed res hthere, if_neg hff]

theorem comesTo_of_told {a : WaitEpollAction} (hthere : s.dispatcherByKey.lookup key = some (.wakeup fd))
    (hstep : s.step getEpollEvents a = some s') (htold : s'.toldKeys = s.toldKeys ++ [key]) :
    ∃ closed res, a = .process closed res ∧ ComesTo key res s := by
  obtain hsame | ⟨closed, res, event, todo, rfl, hphase, rfl⟩ := step_told hstep
  · have hlength := congrArg List.length htold
    simp only [toldKeys, hsame, List.length_append, List.length_singleton] at hlength
    omega
  · refine ⟨closed, res, rfl, event, todo, hphase, ?_⟩
    have hkey : event.key = key := by
      obtain ⟨-, -, -, hsame | htells, -⟩ := process_cases (s := s) event todo closed res
      · have hlength := congrArg List.length (hsame.symm.trans htold)
        simp only [List.length_append, List.length_singleton] at hlength
        omega
      · exact (List.cons.inj (List.append_inj_right' (htells.symm.trans htold) rfl)).1
    refine ⟨hkey, fun hff => ?_⟩
    have hlength := congrArg List.length htold
    rw [process_signaler todo closed res (hkey.symm ▸ hthere), if_pos hff] at hlength
    simp only [List.length_append, List.length_singleton, List.length_nil] at hlength
    omega

theorem coming_step {a : WaitEpollAction} (h : HasSignaler getEpollEvents key fd s)
    (hstep : s.step getEpollEvents a = some s') (hcoming : Coming key s) :
    Coming key s' ∨ Leaving s' ∧ s'.toldKeys = s.toldKeys ++ [key] := by
  obtain ⟨todo, hphase, event, hmem, hkey, hin⟩ := hcoming
  cases hexternal : (io getEpollEvents fd).external a with
  | true => exact .inl ⟨todo, (external_frame hexternal hstep).1.trans hphase, event, hmem, hkey, hin⟩
  | false =>
    cases a with
    | process closed res =>
      cases todo with
      | nil => cases hmem
      | cons head todo =>
        simp only [step, hphase] at hstep
        cases hstep
        obtain ⟨hphase', -, -, -, htells⟩ := process_cases (s := s) head todo closed res
        obtain rfl | htail := List.mem_cons.mp hmem
        · -- it is the Signaler's turn
          obtain ⟨hwait, htold⟩ := htells fd (hkey.symm ▸ h.lookup) hin
          exact .inr ⟨⟨hwait, .inl ⟨todo, hphase'⟩⟩, hkey ▸ htold⟩
        · exact .inl ⟨todo, hphase', event, htail, hkey, hin⟩
    | tick _ | table _ | add _ _ _ _ | update _ _ _ _ | remove _ _ => cases hexternal
    | call | wake _ | recalc =>
      simp only [step, hphase] at hstep
      cases hstep

theorem leaving_step {a : WaitEpollAction} (hstep : s.step getEpollEvents a = some s') (hleaving : Leaving s) :
    Leaving s' := by
  obtain ⟨hwait, hplace⟩ := hleaving
  cases hexternal : (io getEpollEvents 0).external a with
  | true =>
    obtain ⟨hphase', hwait'⟩ := external_frame hexternal hstep
    exact ⟨hwait'.trans hwait, by rw [hphase']; exact hplace⟩
  | false =>
    obtain ⟨todo, hphase⟩ | hphase | hphase | hphase := hplace
    · cases a with
      | process closed res =>
        cases todo with
        | nil =>
          simp only [step, hphase] at hstep
          cases hstep
          exact ⟨hwait, .inr (.inl rfl)⟩
        | cons event todo =>
          simp only [step, hphase] at hstep
          cases hstep
          obtain ⟨hphase', -, hcleared, -⟩ := process_cases (s := s) event todo closed res
          refine ⟨?_, .inl ⟨todo, hphase'⟩⟩
          rw [← Bool.not_eq_true]
          exact fun h => by cases hwait.symm.trans (hcleared h)
      | tick _ | table _ | add _ _ _ _ | update _ _ _ _ | remove _ _ => cases hexternal
      | call | wake _ | recalc =>
        simp only [step, hphase] at hstep
        cases hstep
    · cases a with
      | recalc =>
        simp only [step, hphase] at hstep
        cases hstep
        refine ⟨hwait, .inr (.inr ?_)⟩
        simp only [recalc]
        split
        · exact .inr rfl
        · exact .inl rfl
      | tick _ | table _ | add _ _ _ _ | update _ _ _ _ | remove _ _ => cases hexternal
      | call | wake _ | process _ _ =>
        simp only [step, hphase] at hstep
        cases hstep
    · cases a with
      | call =>
        simp only [step, hphase, hwait] at hstep
        cases hstep
        exact ⟨rfl, .inr (.inr (.inr rfl))⟩
      | tick _ | table _ | add _ _ _ _ | update _ _ _ _ | remove _ _ => cases hexternal
      | recalc | wake _ | process _ _ =>
        simp only [step, hphase] at hstep
        cases hstep
    · cases a with
      | tick _ | table _ | add _ _ _ _ | update _ _ _ _ | remove _ _ => cases hexternal
      | call | recalc | wake _ | process _ _ =>
        simp only [step, hphase] at hstep
        cases hstep

/-- In the pass, the wait can go on. -/
theorem mayGoOn_processing {todo : List EpollEvent} (hphase : s.phase = .processing todo) :
    MayGoOn (io getEpollEvents fd) s := by
  cases todo with
  | nil => exact ⟨.process false (.value 0), _, rfl, fun _ => rfl, by simp only [io, step, hphase]; rfl⟩
  | cons event todo =>
    exact ⟨.process false (.value 0), _, rfl, fun _ => rfl, by simp only [io, step, hphase]; rfl⟩

theorem serves (getEpollEvents : BitVec 32 → BitVec 32) (key fd : Nat) :
    ServesSignaler (io getEpollEvents fd) key (KeepsSignaler key fd) (HasSignaler getEpollEvents key fd) (Coming key)
      Leaving where
  registered hok hstep h := hasSignaler_step hok hstep h
  entered h := ⟨h.lookup, h.interest⟩
  grows := by
    intro s a s' hstep
    obtain hsame | ⟨_, _, event, todo, _, _, rfl⟩ := step_told hstep
    · exact ⟨[], by simp only [io, toldKeys, hsame, List.append_nil]⟩
    · obtain ⟨-, -, -, hsame | htells, -⟩ := process_cases (s := s) event todo _ _
      · exact ⟨[], hsame.trans (List.append_nil _).symm⟩
      · exact ⟨[event.key], htells⟩
  stops := by
    intro s a hreturned hexternal
    cases hphase : s.phase with
    | returned ok =>
      cases a with
      | tick _ | table _ | add _ _ _ _ | update _ _ _ _ | remove _ _ => cases hexternal
      | call | wake _ | process _ _ | recalc => simp only [io, step, hphase]
    | _ => simp [io, hphase] at hreturned
  turn := by
    intro s a s' h hok hexternal hstep hturn
    obtain ⟨b, t, -, -, hb, htold⟩ := hturn
    obtain ⟨closed, res, -, event, todo, hphase, hkey, hff⟩ := comesTo_of_told h.lookup hb htold
    have hcomes : ComesTo key res s' :=
      ⟨event, todo, (external_frame hexternal hstep).1.trans hphase, hkey, hff⟩
    obtain ⟨u, hu, htold'⟩ : ∃ u, s'.step getEpollEvents (.process closed res) = some u ∧
        u.toldKeys = s'.toldKeys ++ [key] := hcomes.told closed (hasSignaler_step hok hstep h).lookup
    exact ⟨.process closed res, u, rfl, fun _ => rfl, hu, htold'⟩
  tells := by
    intro s a s' _ hstep htold readable
    obtain hsame | ⟨closed, res, _, _, rfl, -⟩ := step_told hstep
    · have hlength := congrArg List.length htold
      simp only [io, toldKeys, hsame, List.length_append, List.length_singleton] at hlength
      omega
    · rfl
  coming h _ hstep hcoming := coming_step h hstep hcoming
  leaving _ _ hstep hleaving := leaving_step hstep hleaving
  coming_on _ hcoming := by
    obtain ⟨todo, hphase, -⟩ := hcoming
    exact mayGoOn_processing hphase
  leaving_on := by
    intro s _ hleaving
    obtain ⟨hwait, ⟨todo, hphase⟩ | hphase | hphase | hphase⟩ := hleaving
    · exact .inr (mayGoOn_processing hphase)
    · exact .inr ⟨.recalc, _, rfl, fun _ => rfl, by simp only [io, step, hphase]; rfl⟩
    · exact .inr ⟨.call, _, rfl, fun _ => rfl, by simp only [io, step, hphase]; rfl⟩
    · exact .inl (by simp only [io, hphase])

/-! ## The answer -/

/-- What is reported of a descriptor is among the events. -/
theorem mem_reports {interest : InterestList} {bits : BitVec 32} {ready : List (Nat × BitVec 32)}
    {events : List EpollEvent} (h : interest.reports ready = some events) (hmem : (fd, bits) ∈ ready) :
    ∃ event ∈ events, interest.report fd bits = some event := by
  induction ready generalizing events with
  | nil => cases hmem
  | cons p ready ih =>
    simp only [InterestList.reports] at h
    split at h
    · cases h
    · split at h <;> cases h
      rename_i event rest hreport hrest
      obtain rfl | htail := List.mem_cons.mp hmem
      · exact ⟨event, List.mem_cons_self .., hreport⟩
      · obtain ⟨event', hin, hreport'⟩ := ih hrest htail
        exact ⟨event', List.mem_cons_of_mem _ hin, hreport'⟩

/-- The Signaler's descriptor is reported for as long as it is readable, if it was asked for so. -/
theorem HasSignaler.levelTriggered (h : HasSignaler getEpollEvents key fd s)
    (hlevel : meets (getEpollEvents deRead) (Epoll.epollEt ||| Epoll.epollOneShot) = false) :
    s.levelTriggered fd = true := by
  simp only [WaitEpoll.levelTriggered, h.interest, hlevel]
  rfl

/-- An answer of a readable Signaler brings its event, if it has its descriptor. -/
theorem coming_of_ready {since : Int} {ready : List (Nat × BitVec 32)}
    (hlevel : meets (getEpollEvents deRead) (Epoll.epollEt ||| Epoll.epollOneShot) = false)
    (h : HasSignaler getEpollEvents key fd s) (hphase : s.phase = .waiting since)
    (hanswer : (io getEpollEvents fd).mayAnswer s (.wake (.ready ready)) true = true)
    (hreported : ready.length < EvenLoop.kNumEpollEvents ∨ ready.any (·.1 == fd) = true)
    (hstep : s.step getEpollEvents (.wake (.ready ready)) = some s') : Coming key s' := by
  simp only [io, h.levelTriggered hlevel, Bool.and_self, Bool.and_eq_true, Bool.not_true, Bool.false_or,
    Bool.or_eq_true, beq_iff_eq] at hanswer
  obtain ⟨hall, hfull⟩ := hanswer
  have hany : ready.any (·.1 == fd) = true := by
    obtain hless | hany := hreported
    · exact hfull.resolve_right (Nat.ne_of_lt hless)
    · exact hany
  obtain ⟨⟨fd', bits⟩, hmem, hfd⟩ := List.any_eq_true.mp hany
  obtain rfl := beq_iff_eq.mp hfd
  have hin : meets bits Epoll.epollIn = true := by
    have hpair := List.all_eq_true.mp hall _ hmem
    simpa using hpair
  simp only [step, hphase] at hstep
  split at hstep
  · cases hstep
  · split at hstep <;> cases hstep
    rename_i events hreports
    obtain ⟨event, hevent, hreport⟩ := mem_reports hreports hmem
    refine ⟨events, rfl, event, hevent, ?_⟩
    simp only [InterestList.report, h.interest] at hreport
    split at hreport <;> cases hreport
    exact ⟨rfl, hin⟩

/-- **A `WakeUp` ends the epoll wait.** In every run of any number of threads in `WakeUp` and one in the
    wait, again and again, with the Signaler in the table and its descriptor in the list, to be reported for
    as long as it is readable: while a completed `WakeUp` has not been taken, `epoll_wait` does not time out;
    and once it has answered with fewer events than it may report, or with the Signaler's, the wait neither
    calls it again nor fails, the loop thread or the thread that has `mutex_` can go on until it returns, and
    by then it has told the Signaler. -/
theorem wakeUp_ends_waitEpoll {cmsWait t₀ since : Int} {dispatchers : AList fun _ : Nat => PosixDispatcher}
    {s : SignaledWait WaitEpoll} (hread : meets (getEpollEvents deRead) Epoll.epollIn = true)
    (hlevel : meets (getEpollEvents deRead) (Epoll.epollEt ||| Epoll.epollOneShot) = false)
    (hthere : dispatchers.lookup key = some (.wakeup fd))
    (h : Reaches (SignaledWait.step (io getEpollEvents fd) key) (Where (KeepsSignaler key fd))
      (SignaledWait.start (startSignaled getEpollEvents key fd cmsWait dispatchers t₀)) s)
    (hpos : 0 < s.signaler.unconsumed) (hwaiting : s.wait.phase = .waiting since) :
    SignaledWait.step (io getEpollEvents fd) key s (.wait (.wake .timeout)) = none ∧
    ∀ ready s₁, (ready.length < EvenLoop.kNumEpollEvents ∨ ready.any (·.1 == fd) = true) →
      SignaledWait.step (io getEpollEvents fd) key s (.wait (.wake (.ready ready))) = some s₁ →
      ∀ s₂, Reaches (SignaledWait.step (io getEpollEvents fd) key) (WhereOnce (KeepsSignaler key fd)) s₁ s₂ →
        (∀ since, s₂.wait.phase ≠ .waiting since) ∧ s₂.wait.phase ≠ .returned false ∧
        (s₂.wait.phase = .returned true ∨ ∃ a s₃, a.goesOn (io getEpollEvents fd) = true ∧
          SignaledWait.step (io getEpollEvents fd) key s₂ a = some s₃) ∧
        (s₂.wait.phase = .returned true →
          s₂.wait.fWait = false ∧ ∃ told ∈ s₂.wait.told.drop s₁.wait.told.length, told.event.key = key) := by
  have hin := inTurn_of_reaches (serves getEpollEvents key fd) (hasSignaler_start cmsWait t₀ hread hthere) h
  have hturn : ¬Turn (io getEpollEvents fd) key s.wait := by
    intro hturn
    obtain ⟨b, t, -, -, hb, htold⟩ := hturn
    obtain ⟨_, _, -, event, todo, hphase, -⟩ := comesTo_of_told hin.registered.lookup hb htold
    cases hwaiting.symm.trans hphase
  have hquiet : ∀ (n : EpollResult) (w : WaitEpoll), s.wait.step getEpollEvents (.wake n) = some w →
      (io getEpollEvents fd).told w = (io getEpollEvents fd).told s.wait := by
    intro n w hw
    obtain hsame | ⟨_, _, _, _, hprocess, -⟩ := step_told hw
    · simp only [io, toldKeys, hsame]
    · cases hprocess
  constructor
  · rw [Option.eq_none_iff_forall_ne_some]
    intro t hstep
    obtain ⟨hanswer, -⟩ := hin.answer (a := .wake .timeout) hturn hpos rfl (hquiet _) hstep
    simp only [io, hin.registered.levelTriggered hlevel] at hanswer
    cases hanswer
  · intro ready s₁ hreported hstep s₂ hrun
    obtain ⟨⟨keys, htold, hplace⟩, hgo⟩ :=
      (serves getEpollEvents key fd).wakeUp_ends (a := .wake (.ready ready)) hin hturn hpos trivial rfl (hquiet _)
        (fun _ hanswer hw => coming_of_ready hlevel hin.registered hwaiting hanswer hreported hw) hstep hrun
    have hphase : (∃ todo, s₂.wait.phase = .processing todo) ∨ Leaving s₂.wait ∧ key ∈ keys := by
      refine hplace.imp (fun hc => ?_) id
      obtain ⟨todo, hphase, -⟩ := hc
      exact ⟨todo, hphase⟩
    refine ⟨fun since hp => ?_, fun hfailed => ?_, hgo.imp (fun hr => ?_) id, fun hended => ?_⟩
    · obtain ⟨i, hphase⟩ | ⟨⟨-, ⟨i, hphase⟩ | hphase | hphase | hphase⟩, -⟩ := hphase <;> cases hp.symm.trans hphase
    · obtain ⟨i, hphase⟩ | ⟨⟨-, ⟨i, hphase⟩ | hphase | hphase | hphase⟩, -⟩ := hphase <;>
        cases hfailed.symm.trans hphase
    · simp only [io] at hr
      split at hr <;> cases hr
      assumption
    · obtain ⟨i, hphase⟩ | ⟨⟨hwait, -⟩, hmem⟩ := hphase
      · cases hended.symm.trans hphase
      · exact ⟨hwait, exists_told_since htold hmem⟩

/-- The Signaler, and a socket that is to be read. -/
def listedDispatchers : AList fun _ : Nat => PosixDispatcher :=
  (AList.singleton 9 (.other 5 deRead)).insert 7 (.wakeup 3)

/-- The socket is added, and a thread wakes the loop thread while it waits. -/
def wokenEpollRun : List (SignaledAction WaitEpollAction) :=
  [.wait (.add (some 5) deRead 9 accepts), .wait .call, .wakeUp 1, .wait (.tick 2000000), .lock 1, .critical, .critical,
    .critical]

/-- The socket is removed before the loop comes to the Signaler, which is told nevertheless. -/
def wokenEventsRun : List (SignaledAction WaitEpollAction) :=
  [.wait (.process false (.value 0)), .wait (.remove (some 5) accepts), .wait (.table (AList.singleton 7 (.wakeup 3))),
    .wait (.process false (.value 0)), .onEvent, .critical, .critical, .critical, .critical,
    .wait (.process false (.value 0)), .wait (.process false (.value 0)), .wait .recalc, .wait .call]

theorem wakeUp_ends_waitEpoll_removed :
    ∃ s s₁ s₂ : SignaledWait WaitEpoll,
      Reaches (SignaledWait.step (io readWriteEvents 3) 7) (Where (KeepsSignaler 7 3))
        (SignaledWait.start (startSignaled readWriteEvents 7 3 100 listedDispatchers 5999999)) s ∧
      s.signaler.unconsumed = 1 ∧ SignaledWait.step (io readWriteEvents 3) 7 s (.wait (.wake .timeout)) = none ∧
      Reaches (SignaledWait.step (io readWriteEvents 3) 7) (WhereOnce (KeepsSignaler 7 3)) s₁ s₂ ∧
      s₂.wait.phase = .returned true ∧ s₂.wait.fWait = false ∧
      ∃ told ∈ s₂.wait.told.drop s₁.wait.told.length, told.event.key = 7 := by
  have hrun : (runWhile (SignaledWait.step (io readWriteEvents 3) 7) (Where (KeepsSignaler 7 3))
      (SignaledWait.start (startSignaled readWriteEvents 7 3 100 listedDispatchers 5999999)) wokenEpollRun).isSome =
        true := by decide
  have hreach := reaches_get hrun
  obtain ⟨htimeout, hends⟩ := wakeUp_ends_waitEpoll (by decide) (by decide) (by decide) hreach Nat.one_pos rfl
  have hanswer : (SignaledWait.step (io readWriteEvents 3) 7
      ((runWhile (SignaledWait.step (io readWriteEvents 3) 7) (Where (KeepsSignaler 7 3))
        (SignaledWait.start (startSignaled readWriteEvents 7 3 100 listedDispatchers 5999999)) wokenEpollRun).get
        (by decide)) (.wait (.wake (.ready [(5, Epoll.epollIn), (3, Epoll.epollIn)])))).isSome = true := by decide
  have hpass : (runWhile (SignaledWait.step (io readWriteEvents 3) 7) (WhereOnce (KeepsSignaler 7 3))
      ((SignaledWait.step (io readWriteEvents 3) 7
        ((runWhile (SignaledWait.step (io readWriteEvents 3) 7) (Where (KeepsSignaler 7 3))
          (SignaledWait.start (startSignaled readWriteEvents 7 3 100 listedDispatchers 5999999)) wokenEpollRun).get
          (by decide)) (.wait (.wake (.ready [(5, Epoll.epollIn), (3, Epoll.epollIn)])))).get (by decide))
      wokenEventsRun).isSome = true := by decide
  have hreach' := reaches_get hpass
  obtain ⟨-, -, -, hended⟩ := hends _ _ (.inl (by decide)) (Option.some_get hanswer).symm _ hreach'
  exact ⟨_, _, _, hreach, rfl, htimeout, hreach', rfl, hended rfl⟩

end WaitEpoll

end IoBase
