import IoBase.SignaledWait
import IoBase.WaitSelect

/- A wake-up of the `select` wait of `EvenLoop`, in `event_loop_temp.cc`.

   `WaitSelect` serves its Signaler in the sense of `SignaledWait.lean`. Here a dispatcher is
   told by what its descriptor is in the sets, and the pass takes the descriptor from them, so
   the Signaler relies on no other dispatcher having its descriptor.

   Correspondence (C++ ↔ Lean):
     `WaitSelect`, `ProcessEvents`              ↔ `SelectWait.step`
     what `select` leaves of the eventfd        ↔ `mayAnswer` of `SelectWait.io`
     the next call of `Wait`                    ↔ `enter` of `SelectWait.io`

   * `wakeUp_ends_waitSelect`: after a `WakeUp` the wait ends with its next answer. -/
namespace IoBase
open Transition SignaledWait

namespace SelectWait

/-- The keys of the dispatchers that have been told. -/
def toldKeys (s : SelectWait) : List Nat := s.onEvents.map Prod.fst

/-- `WaitSelect`, with this descriptor of the Signaler: it stays in the set exactly while it is readable, and
    there is no timeout then. -/
def io (fd : Nat) : IoWait SelectWait SelectWaitAction where
  step := SelectWait.step
  external a := match a with
    | .tick _ | .table _ => true
    | _ => false
  mayAnswer s a readable := match a with
    | .wake .timeout => !(readable && s.fdsRead.contains fd)
    | .wake (.ready fdsRead _) => fdsRead.contains fd == (readable && s.fdsRead.contains fd)
    | _ => true
  told := toldKeys
  returned s := match s.phase with
    | .returned ok => some ok
    | _ => none
  enter s cmsWait processIo := start cmsWait processIo s.dispatcherByKey s.now

/-- The Signaler is in the table, and its descriptor is its own. -/
structure Listed (key fd : Nat) (dispatchers : AList fun _ : Nat => PosixDispatcher) : Prop where
  lookup : dispatchers.lookup key = some (.wakeup fd)
  own : ∀ kv ∈ dispatchers.entries, kv.2.getDescriptor = fd → kv.1 = key

instance (key fd : Nat) (dispatchers : AList fun _ : Nat => PosixDispatcher) :
    Decidable (Listed key fd dispatchers) :=
  decidable_of_iff (dispatchers.lookup key = some (.wakeup fd) ∧
      ∀ kv ∈ dispatchers.entries, kv.2.getDescriptor = fd → kv.1 = key)
    ⟨fun h => ⟨h.1, h.2⟩, fun h => ⟨h.lookup, h.own⟩⟩

/-- The Signaler stays in the table. -/
def KeepsSignaler (key fd : Nat) (_ : SelectWait) : SelectWaitAction → Prop
  | .table dispatchers => Listed key fd dispatchers
  | _ => True

instance (key fd : Nat) (s : SelectWait) : (a : SelectWaitAction) → Decidable (KeepsSignaler key fd s a)
  | .table dispatchers => inferInstanceAs (Decidable (Listed key fd dispatchers))
  | .tick _ | .select | .wake _ | .process _ _ | .recalc => inferInstanceAs (Decidable True)

/-- The Signaler is in the table, and its descriptor is among those that are selected for reading. -/
structure HasSignaler (key fd : Nat) (s : SelectWait) : Prop where
  listed : Listed key fd s.dispatcherByKey
  selecting : s.phase = .selecting → key ∈ s.currentDispatcherKeys ∧ fd ∈ s.fdsRead

/-- The Signaler's descriptor is left in the set, and its key in the pass. -/
def Coming (key fd : Nat) (s : SelectWait) : Prop :=
  ∃ todo, s.phase = .processing todo ∧ key ∈ todo ∧ fd ∈ s.fdsRead

/-- With `fWait_` cleared, in the pass or on the way from it to the end. -/
def Leaving (s : SelectWait) : Prop :=
  s.fWait = false ∧ ((∃ todo, s.phase = .processing todo) ∨ s.phase = .recalculating ∨ s.phase = .head ∨
    s.phase = .returned true)

variable {key fd : Nat} {s s' : SelectWait}

/-- What `ProcessEvents` tells the Signaler, as the sets are. -/
def signalerFf (fd : Nat) (res : SoError) (s : SelectWait) : BitVec 32 :=
  (processEvents deRead false (s.fdsRead.contains fd) (s.fdsWrite.contains fd) false
    (s.fdsRead.contains fd || s.fdsWrite.contains fd) res).1

/-- What the pass does with the Signaler. -/
theorem process_signaler (todo : List Nat) (closed : Bool) (res : SoError)
    (hthere : s.dispatcherByKey.lookup key = some (.wakeup fd)) :
    (s.process key todo closed res).toldKeys = s.toldKeys ++ (if signalerFf fd res s = 0 then [] else [key]) ∧
    (signalerFf fd res s ≠ 0 → (s.process key todo closed res).fWait = false) := by
  generalize hcall : processEvents deRead false (s.fdsRead.contains fd) (s.fdsWrite.contains fd) false
    (s.fdsRead.contains fd || s.fdsWrite.contains fd) res = call
  obtain ⟨ff, err⟩ := call
  have hprocess : s.process key todo closed res =
      if ff = 0 then { s with
          fdsRead := s.fdsRead.filter (· != fd)
          fdsWrite := s.fdsWrite.filter (· != fd)
          phase := .processing todo }
        else { s with
          fdsRead := s.fdsRead.filter (· != fd)
          fdsWrite := s.fdsWrite.filter (· != fd)
          phase := .processing todo }.onEvent key (.wakeup fd) ff err := by
    simp only [process, hthere, PosixDispatcher.getRequestedEvents, PosixDispatcher.isDescriptorClosed,
      PosixDispatcher.getDescriptor, hcall]
  simp only [hprocess, signalerFf, hcall]
  split
  · exact ⟨(List.append_nil _).symm, fun hne => absurd (by assumption) hne⟩
  · refine ⟨?_, fun _ => rfl⟩
    simp only [toldKeys, onEvent, List.map_append, List.map_cons, List.map_nil]

/-- What the pass does with any key. -/
theorem process_cases (key' : Nat) (todo : List Nat) (closed : Bool) (res : SoError) :
    (s.process key' todo closed res).phase = .processing todo ∧
    (s.process key' todo closed res).dispatcherByKey = s.dispatcherByKey ∧
    ((s.process key' todo closed res).fWait = true → s.fWait = true) ∧
    ((s.process key' todo closed res).toldKeys = s.toldKeys ∨
      (s.process key' todo closed res).toldKeys = s.toldKeys ++ [key']) ∧
    (∀ fd, fd ∈ s.fdsRead →
      (∀ disp, s.dispatcherByKey.lookup key' = some disp → disp.getDescriptor ≠ fd) →
      fd ∈ (s.process key' todo closed res).fdsRead) := by
  cases hlookup : s.dispatcherByKey.lookup key' with
  | none =>
    have hprocess : s.process key' todo closed res = { s with phase := .processing todo } := by
      simp only [process, hlookup]
    rw [hprocess]
    exact ⟨rfl, rfl, id, .inl rfl, fun _ hin _ => hin⟩
  | some disp =>
    generalize hcall : processEvents disp.getRequestedEvents (disp.isDescriptorClosed closed)
      (s.fdsRead.contains disp.getDescriptor) (s.fdsWrite.contains disp.getDescriptor) false
      (s.fdsRead.contains disp.getDescriptor || s.fdsWrite.contains disp.getDescriptor) res = call
    obtain ⟨ff, err⟩ := call
    have hprocess : s.process key' todo closed res =
        if ff = 0 then { s with
            fdsRead := s.fdsRead.filter (· != disp.getDescriptor)
            fdsWrite := s.fdsWrite.filter (· != disp.getDescriptor)
            phase := .processing todo }
          else { s with
            fdsRead := s.fdsRead.filter (· != disp.getDescriptor)
            fdsWrite := s.fdsWrite.filter (· != disp.getDescriptor)
            phase := .processing todo }.onEvent key' disp ff err := by
      simp only [process, hlookup, hcall]
    have hkept : ∀ fd, fd ∈ s.fdsRead → (∀ disp', some disp = some disp' → disp'.getDescriptor ≠ fd) →
        fd ∈ s.fdsRead.filter (· != disp.getDescriptor) := by
      intro fd hin hother
      exact List.mem_filter.mpr ⟨hin, bne_iff_ne.mpr (Ne.symm (hother disp rfl))⟩
    rw [hprocess]
    split
    · exact ⟨rfl, rfl, id, .inl rfl, hkept⟩
    · refine ⟨rfl, rfl, fun h => ?_, .inr ?_, hkept⟩
      · simp only [onEvent] at h
        split at h
        · cases h
        · exact h
      · simp only [toldKeys, onEvent, List.map_append, List.map_cons, List.map_nil]

/-! ## The table -/

/-- The Signaler is always among those that are selected, for reading. -/
theorem selected_signaler (h : s.dispatcherByKey.lookup key = some (.wakeup fd)) :
    key ∈ s.selected.map Prod.fst ∧ fd ∈ requesting s.selected (deRead ||| deAccept) := by
  have hmem : (key, PosixDispatcher.wakeup fd) ∈ s.selected := by
    refine List.mem_filter.mpr ⟨?_, Bool.or_true _⟩
    exact List.mem_map.mpr ⟨⟨key, .wakeup fd⟩, AList.mem_lookup_iff.mp h, rfl⟩
  refine ⟨List.mem_map.mpr ⟨_, hmem, rfl⟩, List.mem_map.mpr ⟨_, List.mem_filter.mpr ⟨hmem, ?_⟩, rfl⟩⟩
  show meets deRead (deRead ||| deAccept) = true
  decide

theorem hasSignaler_start {dispatchers : AList fun _ : Nat => PosixDispatcher} (cmsWait : Int) (processIo : Bool)
    (now : Int) (h : Listed key fd dispatchers) :
    HasSignaler key fd (start cmsWait processIo dispatchers now) :=
  ⟨h, fun hphase => by cases hphase⟩

theorem hasSignaler_step {a : SelectWaitAction} (hok : KeepsSignaler key fd s a) (hstep : s.step a = some s')
    (h : HasSignaler key fd s) : HasSignaler key fd s' := by
  cases a with
  | tick ns =>
    cases hstep
    exact ⟨h.listed, h.selecting⟩
  | table dispatchers =>
    cases hstep
    exact ⟨hok, h.selecting⟩
  | select =>
    simp only [step] at hstep
    split at hstep <;> cases hstep
    split
    · exact ⟨h.listed, fun _ => selected_signaler h.listed.lookup⟩
    · exact ⟨h.listed, fun hphase => by cases hphase⟩
  | wake n =>
    simp only [step] at hstep
    split at hstep
    · cases hstep
      exact ⟨h.listed, fun hphase => by cases hphase⟩
    · cases hstep
      exact ⟨h.listed, fun hphase => by cases hphase⟩
    · cases hstep
      exact ⟨h.listed, fun hphase => by cases hphase⟩
    · split at hstep <;> cases hstep
      exact ⟨h.listed, fun hphase => by cases hphase⟩
    · cases hstep
  | process closed res =>
    simp only [step] at hstep
    split at hstep <;> cases hstep
    · rename_i key' todo _
      obtain ⟨hphase', htable, -⟩ := process_cases (s := s) key' todo closed res
      exact ⟨htable.symm ▸ h.listed, fun hphase => by cases hphase'.symm.trans hphase⟩
    · exact ⟨h.listed, fun hphase => by cases hphase⟩
  | recalc =>
    simp only [step] at hstep
    split at hstep <;> cases hstep
    exact ⟨h.listed, fun hphase => by cases hphase⟩

/-! ## The pass -/

/-- Only the pass over the keys tells anyone. -/
theorem step_told {a : SelectWaitAction} (h : s.step a = some s') :
    s'.onEvents = s.onEvents ∨ ∃ closed res key' todo, a = .process closed res ∧
      s.phase = .processing (key' :: todo) ∧ s' = s.process key' todo closed res := by
  cases a with
  | process closed res =>
    simp only [step] at h
    split at h <;> cases h
    · exact .inr ⟨closed, res, _, _, rfl, by assumption, rfl⟩
    · exact .inl rfl
  | tick _ | table _ =>
    cases h
    exact .inl rfl
  | select =>
    refine .inl ?_
    simp only [step] at h
    split at h <;> cases h
    split <;> rfl
  | wake n =>
    refine .inl ?_
    simp only [step] at h
    split at h
    · cases h
      rfl
    · cases h
      rfl
    · cases h
      rfl
    · split at h <;> cases h
      rfl
    · cases h
  | recalc =>
    refine .inl ?_
    simp only [step] at h
    split at h <;> cases h
    rfl

/-- Time and other threads leave the loop where it is. -/
theorem external_frame {a : SelectWaitAction} (hexternal : (io fd).external a = true) (h : s.step a = some s') :
    s'.phase = s.phase ∧ s'.fWait = s.fWait ∧ s'.fdsRead = s.fdsRead ∧ s'.fdsWrite = s.fdsWrite := by
  cases a with
  | tick _ | table _ =>
    cases h
    exact ⟨rfl, rfl, rfl, rfl⟩
  | _ => cases hexternal

/-- The pass has come to the Signaler, and there is something to tell it. -/
def ComesTo (key fd : Nat) (res : SoError) (s : SelectWait) : Prop :=
  ∃ todo, s.phase = .processing (key :: todo) ∧ signalerFf fd res s ≠ 0

theorem ComesTo.told {res : SoError} (h : ComesTo key fd res s) (closed : Bool)
    (hthere : s.dispatcherByKey.lookup key = some (.wakeup fd)) :
    ∃ s', s.step (.process closed res) = some s' ∧ s'.toldKeys = s.toldKeys ++ [key] := by
  obtain ⟨todo, hphase, hff⟩ := h
  refine ⟨s.process key todo closed res, by simp only [step, hphase], ?_⟩
  rw [(process_signaler todo closed res hthere).1, if_neg hff]

theorem comesTo_of_told {a : SelectWaitAction} (hthere : s.dispatcherByKey.lookup key = some (.wakeup fd))
    (hstep : s.step a = some s') (htold : s'.toldKeys = s.toldKeys ++ [key]) :
    ∃ closed res, a = .process closed res ∧ ComesTo key fd res s := by
  obtain hsame | ⟨closed, res, key', todo, rfl, hphase, rfl⟩ := step_told hstep
  · have hlength := congrArg List.length htold
    simp only [toldKeys, hsame, List.length_append, List.length_singleton] at hlength
    omega
  · refine ⟨closed, res, rfl, ?_⟩
    have hkey : key' = key := by
      obtain ⟨-, -, -, hsame | htells, -⟩ := process_cases (s := s) key' todo closed res
      · have hlength := congrArg List.length (hsame.symm.trans htold)
        simp only [List.length_append, List.length_singleton] at hlength
        omega
      · exact (List.cons.inj (List.append_inj_right' (htells.symm.trans htold) rfl)).1
    subst hkey
    refine ⟨todo, hphase, fun hff => ?_⟩
    have hlength := congrArg List.length htold
    rw [(process_signaler todo closed res hthere).1, if_pos hff] at hlength
    simp only [List.length_append, List.length_singleton, List.length_nil] at hlength
    omega

theorem coming_step {a : SelectWaitAction} (h : HasSignaler key fd s) (hstep : s.step a = some s')
    (hcoming : Coming key fd s) :
    Coming key fd s' ∨ Leaving s' ∧ s'.toldKeys = s.toldKeys ++ [key] := by
  obtain ⟨todo, hphase, hmem, hin⟩ := hcoming
  cases hexternal : (io fd).external a with
  | true =>
    obtain ⟨hphase', -, hread, -⟩ := external_frame hexternal hstep
    exact .inl ⟨todo, hphase'.trans hphase, hmem, hread ▸ hin⟩
  | false =>
    cases a with
    | process closed res =>
      cases todo with
      | nil => cases hmem
      | cons key' todo =>
        simp only [step, hphase] at hstep
        cases hstep
        obtain ⟨hphase', -, -, -, hkept⟩ := process_cases (s := s) key' todo closed res
        by_cases hkey : key' = key
        · -- it is the Signaler's turn
          subst hkey
          obtain ⟨htold, hcleared⟩ := process_signaler todo closed res h.listed.lookup
          have hff : signalerFf fd res s ≠ 0 := by
            rw [signalerFf, List.contains_iff_mem.mpr hin]
            exact processEvents_of_readable _ _ _ _ _ _
          rw [if_neg hff] at htold
          exact .inr ⟨⟨hcleared hff, .inl ⟨todo, hphase'⟩⟩, htold⟩
        · -- another dispatcher has another descriptor
          obtain hhead | htail := List.mem_cons.mp hmem
          · exact absurd hhead.symm hkey
          · refine .inl ⟨todo, hphase', htail, hkept fd hin fun disp hdisp hsame => ?_⟩
            exact hkey (h.listed.own ⟨key', disp⟩ (AList.mem_lookup_iff.mp hdisp) hsame)
    | tick _ | table _ => cases hexternal
    | select | wake _ | recalc =>
      simp only [step, hphase] at hstep
      cases hstep

theorem leaving_step {a : SelectWaitAction} (hstep : s.step a = some s') (hleaving : Leaving s) : Leaving s' := by
  obtain ⟨hwait, hplace⟩ := hleaving
  cases hexternal : (io 0).external a with
  | true =>
    obtain ⟨hphase', hwait', -⟩ := external_frame hexternal hstep
    exact ⟨hwait'.trans hwait, by rw [hphase']; exact hplace⟩
  | false =>
    obtain ⟨todo, hphase⟩ | hphase | hphase | hphase := hplace
    · cases a with
      | process closed res =>
        cases todo with
        | nil =>
          simp only [step, hphase] at hstep
          cases hstep
          exact ⟨hwait, .inr (.inl rfl)⟩
        | cons key' todo =>
          simp only [step, hphase] at hstep
          cases hstep
          obtain ⟨hphase', -, hcleared, -⟩ := process_cases (s := s) key' todo closed res
          refine ⟨?_, .inl ⟨todo, hphase'⟩⟩
          rw [← Bool.not_eq_true]
          exact fun h => by cases hwait.symm.trans (hcleared h)
      | tick _ | table _ => cases hexternal
      | select | wake _ | recalc =>
        simp only [step, hphase] at hstep
        cases hstep
    · cases a with
      | recalc =>
        simp only [step, hphase] at hstep
        cases hstep
        exact ⟨hwait, .inr (.inr (.inl rfl))⟩
      | tick _ | table _ => cases hexternal
      | select | wake _ | process _ _ =>
        simp only [step, hphase] at hstep
        cases hstep
    · cases a with
      | select =>
        simp only [step, hphase, hwait] at hstep
        cases hstep
        exact ⟨rfl, .inr (.inr (.inr rfl))⟩
      | tick _ | table _ => cases hexternal
      | recalc | wake _ | process _ _ =>
        simp only [step, hphase] at hstep
        cases hstep
    · cases a with
      | tick _ | table _ => cases hexternal
      | select | recalc | wake _ | process _ _ =>
        simp only [step, hphase] at hstep
        cases hstep

/-- In the pass, the wait can go on. -/
theorem mayGoOn_processing {todo : List Nat} (hphase : s.phase = .processing todo) : MayGoOn (io fd) s := by
  cases todo with
  | nil => exact ⟨.process false (.value 0), _, rfl, fun _ => rfl, by simp only [io, step, hphase]; rfl⟩
  | cons key' todo => exact ⟨.process false (.value 0), _, rfl, fun _ => rfl, by simp only [io, step, hphase]; rfl⟩

theorem serves (key fd : Nat) :
    ServesSignaler (io fd) key (KeepsSignaler key fd) (HasSignaler key fd) (Coming key fd) Leaving where
  registered hok hstep h := hasSignaler_step hok hstep h
  entered h := hasSignaler_start _ _ _ h.listed
  grows := by
    intro s a s' hstep
    obtain hsame | ⟨_, _, key', todo, _, _, rfl⟩ := step_told hstep
    · exact ⟨[], by simp only [io, toldKeys, hsame, List.append_nil]⟩
    · obtain ⟨-, -, -, hsame | htells, -⟩ := process_cases (s := s) key' todo _ _
      · exact ⟨[], hsame.trans (List.append_nil _).symm⟩
      · exact ⟨[key'], htells⟩
  stops := by
    intro s a hreturned hexternal
    cases hphase : s.phase with
    | returned ok =>
      cases a with
      | tick _ | table _ => cases hexternal
      | select | wake _ | process _ _ | recalc => simp only [io, step, hphase]
    | _ => simp [io, hphase] at hreturned
  turn := by
    intro s a s' h hok hexternal hstep hturn
    obtain ⟨b, t, -, -, hb, htold⟩ := hturn
    obtain ⟨closed, res, -, todo, hphase, hff⟩ := comesTo_of_told h.listed.lookup hb htold
    obtain ⟨hphase', -, hread, hwrite⟩ := external_frame hexternal hstep
    have hsame : signalerFf fd res s' = signalerFf fd res s := by
      rw [signalerFf, signalerFf, hread, hwrite]
    have hcomes : ComesTo key fd res s' := ⟨todo, hphase'.trans hphase, hsame.symm ▸ hff⟩
    obtain ⟨u, hu, htold'⟩ := hcomes.told closed (hasSignaler_step hok hstep h).listed.lookup
    exact ⟨.process closed res, u, rfl, fun _ => rfl, hu, htold'⟩
  tells := by
    intro s a s' _ hstep htold readable
    obtain hsame | ⟨closed, res, _, _, rfl, -⟩ := step_told hstep
    · have hlength := congrArg List.length htold
      simp only [io, toldKeys, hsame, List.length_append, List.length_singleton] at hlength
      omega
    · rfl
  coming h _ hstep hcoming := coming_step h hstep hcoming
  leaving _ _ hstep hleaving := leaving_step hstep hleaving
  coming_on _ hcoming := by
    obtain ⟨todo, hphase, -⟩ := hcoming
    exact mayGoOn_processing hphase
  leaving_on := by
    intro s _ hleaving
    obtain ⟨hwait, ⟨todo, hphase⟩ | hphase | hphase | hphase⟩ := hleaving
    · exact .inr (mayGoOn_processing hphase)
    · exact .inr ⟨.recalc, _, rfl, fun _ => rfl, by simp only [io, step, hphase]; rfl⟩
    · exact .inr ⟨.select, _, rfl, fun _ => rfl, by simp only [io, step, hphase]; rfl⟩
    · exact .inl (by simp only [io, hphase])

/-! ## The answer -/

/-- An answer of a readable Signaler leaves its descriptor in the set. -/
theorem coming_of_ready {fdsRead fdsWrite : List Nat} (h : HasSignaler key fd s) (hphase : s.phase = .selecting)
    (hanswer : (io fd).mayAnswer s (.wake (.ready fdsRead fdsWrite)) true = true)
    (hstep : s.step (.wake (.ready fdsRead fdsWrite)) = some s') : Coming key fd s' := by
  obtain ⟨hmem, hread⟩ := h.selecting hphase
  simp only [io, List.contains_iff_mem.mpr hread, Bool.and_self, beq_iff_eq] at hanswer
  simp only [step, hphase] at hstep
  split at hstep <;> cases hstep
  exact ⟨_, rfl, hmem, List.contains_iff_mem.mp hanswer⟩

/-- **A `WakeUp` ends the `select` wait.** In every run of any number of threads in `WakeUp` and one in the
    wait, again and again, with the Signaler in the table and no other dispatcher of its descriptor: while a
    completed `WakeUp` has not been taken, `select` does not time out, and once it has answered with what is
    ready, the wait neither selects again nor fails; the loop thread, or the thread that has `mutex_`, can go
    on until it returns, and by then it has told the Signaler. -/
theorem wakeUp_ends_waitSelect {cmsWait t₀ : Int} {processIo : Bool}
    {dispatchers : AList fun _ : Nat => PosixDispatcher} {s : SignaledWait SelectWait}
    (hthere : Listed key fd dispatchers)
    (h : Reaches (SignaledWait.step (io fd) key) (Where (KeepsSignaler key fd))
      (SignaledWait.start (start cmsWait processIo dispatchers t₀)) s)
    (hpos : 0 < s.signaler.unconsumed) (hselecting : s.wait.phase = .selecting) :
    SignaledWait.step (io fd) key s (.wait (.wake .timeout)) = none ∧
    ∀ fdsRead fdsWrite s₁, SignaledWait.step (io fd) key s (.wait (.wake (.ready fdsRead fdsWrite))) = some s₁ →
      ∀ s₂, Reaches (SignaledWait.step (io fd) key) (WhereOnce (KeepsSignaler key fd)) s₁ s₂ →
        s₂.wait.phase ≠ .selecting ∧ s₂.wait.phase ≠ .returned false ∧
        (s₂.wait.phase = .returned true ∨
          ∃ a s₃, a.goesOn (io fd) = true ∧ SignaledWait.step (io fd) key s₂ a = some s₃) ∧
        (s₂.wait.phase = .returned true →
          s₂.wait.fWait = false ∧ ∃ told ∈ s₂.wait.onEvents.drop s₁.wait.onEvents.length, told.1 = key) := by
  have hin := inTurn_of_reaches (serves key fd) (hasSignaler_start cmsWait processIo t₀ hthere) h
  have hturn : ¬Turn (io fd) key s.wait := by
    intro hturn
    obtain ⟨b, t, -, -, hb, htold⟩ := hturn
    obtain ⟨_, _, -, todo, hphase, -⟩ := comesTo_of_told hin.registered.listed.lookup hb htold
    cases hselecting.symm.trans hphase
  have hquiet : ∀ (n : SelectResult) (w : SelectWait), s.wait.step (.wake n) = some w →
      (io fd).told w = (io fd).told s.wait := by
    intro n w hw
    obtain hsame | ⟨_, _, _, _, hprocess, -⟩ := step_told hw
    · simp only [io, toldKeys, hsame]
    · cases hprocess
  constructor
  · rw [Option.eq_none_iff_forall_ne_some]
    intro t hstep
    obtain ⟨hanswer, -⟩ := hin.answer (a := .wake .timeout) hturn hpos rfl (hquiet _) hstep
    have hcontains := List.contains_iff_mem.mpr (hin.registered.selecting hselecting).2
    simp only [io, hcontains, Bool.and_self, Bool.not_true, Bool.false_eq_true] at hanswer
  · intro fdsRead fdsWrite s₁ hstep s₂ hrun
    obtain ⟨⟨keys, htold, hplace⟩, hgo⟩ :=
      (serves key fd).wakeUp_ends (a := .wake (.ready fdsRead fdsWrite)) hin hturn hpos trivial rfl (hquiet _)
        (fun _ hanswer hw => coming_of_ready hin.registered hselecting hanswer hw) hstep hrun
    have hphase : (∃ todo, s₂.wait.phase = .processing todo) ∨ Leaving s₂.wait ∧ key ∈ keys := by
      refine hplace.imp (fun hc => ?_) id
      obtain ⟨todo, hphase, -⟩ := hc
      exact ⟨todo, hphase⟩
    refine ⟨fun hs => ?_, fun hfailed => ?_, hgo.imp (fun hr => ?_) id, fun hended => ?_⟩
    · obtain ⟨i, hphase⟩ | ⟨⟨-, ⟨i, hphase⟩ | hphase | hphase | hphase⟩, -⟩ := hphase <;> cases hs.symm.trans hphase
    · obtain ⟨i, hphase⟩ | ⟨⟨-, ⟨i, hphase⟩ | hphase | hphase | hphase⟩, -⟩ := hphase <;>
        cases hfailed.symm.trans hphase
    · simp only [io] at hr
      split at hr <;> cases hr
      assumption
    · obtain ⟨i, hphase⟩ | ⟨⟨hwait, -⟩, hmem⟩ := hphase
      · cases hended.symm.trans hphase
      · exact ⟨hwait, exists_told_since htold hmem⟩

/-- The Signaler, and a socket that is to be read. -/
def selectedDispatchers : AList fun _ : Nat => PosixDispatcher :=
  (AList.singleton 9 (.other 5 deRead)).insert 7 (.wakeup 3)

/-- A thread wakes the loop thread between two calls of `select`. -/
def wokenSelectRun : List (SignaledAction SelectWaitAction) :=
  [.wait .select, .wakeUp 1, .wait (.tick 2000000), .wait (.wake .interrupted), .lock 1, .critical, .critical,
    .wait .recalc, .wait .select, .critical]

def wokenSetsRun : List (SignaledAction SelectWaitAction) :=
  [.wait (.process false (.value 0)), .onEvent, .critical, .critical, .critical, .critical,
    .wait (.process false (.value 0)), .wait (.table (AList.singleton 7 (.wakeup 3))),
    .wait (.process false (.value 0)), .wait (.process false (.value 0)), .wait .recalc, .wait .select]

theorem wakeUp_ends_waitSelect_interrupted :
    ∃ s s₁ s₂ : SignaledWait SelectWait,
      Reaches (SignaledWait.step (io 3) 7) (Where (KeepsSignaler 7 3))
        (SignaledWait.start (start 100 true selectedDispatchers 5999999)) s ∧
      s.signaler.unconsumed = 1 ∧ SignaledWait.step (io 3) 7 s (.wait (.wake .timeout)) = none ∧
      Reaches (SignaledWait.step (io 3) 7) (WhereOnce (KeepsSignaler 7 3)) s₁ s₂ ∧
      s₂.wait.phase = .returned true ∧ s₂.wait.fWait = false ∧
      ∃ told ∈ s₂.wait.onEvents.drop s₁.wait.onEvents.length, told.1 = 7 := by
  have hrun : (runWhile (SignaledWait.step (io 3) 7) (Where (KeepsSignaler 7 3))
      (SignaledWait.start (start 100 true selectedDispatchers 5999999)) wokenSelectRun).isSome = true := by decide
  have hreach := reaches_get hrun
  obtain ⟨htimeout, hends⟩ := wakeUp_ends_waitSelect (by decide) hreach Nat.one_pos rfl
  have hanswer : (SignaledWait.step (io 3) 7 ((runWhile (SignaledWait.step (io 3) 7) (Where (KeepsSignaler 7 3))
      (SignaledWait.start (start 100 true selectedDispatchers 5999999)) wokenSelectRun).get (by decide))
      (.wait (.wake (.ready [3, 5] [])))).isSome = true := by decide
  have hpass : (runWhile (SignaledWait.step (io 3) 7) (WhereOnce (KeepsSignaler 7 3))
      ((SignaledWait.step (io 3) 7 ((runWhile (SignaledWait.step (io 3) 7) (Where (KeepsSignaler 7 3))
        (SignaledWait.start (start 100 true selectedDispatchers 5999999)) wokenSelectRun).get (by decide))
        (.wait (.wake (.ready [3, 5] [])))).get (by decide)) wokenSetsRun).isSome = true := by decide
  have hreach' := reaches_get hpass
  obtain ⟨-, -, -, hended⟩ := hends _ _ _ (Option.some_get hanswer).symm _ hreach'
  exact ⟨_, _, _, hreach, rfl, htimeout, hreach', rfl, hended rfl⟩

end SelectWait

end IoBase
