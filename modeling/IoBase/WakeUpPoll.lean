import IoBase.SignaledWait
import IoBase.WaitPoll

/- A wake-up of the `poll` wait of `EvenLoop`, in `event_loop_temp.cc`.

   `WaitPoll` serves its Signaler in the sense of `SignaledWait.lean`. The Signaler is in the
   table throughout; other dispatchers come and go, also in the middle of a pass.

   Correspondence (C++ ↔ Lean):
     `WaitPoll`, `ProcessPollEvents`      ↔ `WaitPoll.step`
     what `poll` reports of the eventfd   ↔ `mayAnswer` of `WaitPoll.io`
     the next call of `Wait`              ↔ `enter` of `WaitPoll.io`

   * `wakeUp_ends_waitPoll`: after a `WakeUp` the wait ends with its next answer. -/
namespace IoBase
open Transition SignaledWait

namespace WaitPoll

/-- `WaitPoll`, with the Signaler under this key: a timeout is not reported while a descriptor is readable,
    and readable is what is reported of it then. -/
def io (key : Nat) : IoWait WaitPoll WaitPollAction where
  step := WaitPoll.step
  external a := match a with
    | .tick _ | .table _ => true
    | _ => false
  mayAnswer s a readable := match a with
    | .wake .timeout => !(readable && s.currentDispatcherKeys.contains key)
    | .wake (.ready revents) =>
      (s.currentDispatcherKeys.zip revents).all fun p => p.1 != key || meets p.2 Pollfd.pollIn == readable
    | _ => true
  told s := s.told.map PollTold.key
  returned s := match s.phase with
    | .returned ok => some ok
    | _ => none
  enter s cmsWait processIo := start cmsWait processIo s.dispatcherByKey s.now

/-- The Signaler stays in the table. -/
def KeepsSignaler (key fd : Nat) (_ : WaitPoll) : WaitPollAction → Prop
  | .table dispatchers => dispatchers.lookup key = some (.wakeup fd)
  | _ => True

instance (key fd : Nat) (s : WaitPoll) : (a : WaitPollAction) → Decidable (KeepsSignaler key fd s a)
  | .table dispatchers => inferInstanceAs (Decidable (dispatchers.lookup key = some (.wakeup fd)))
  | .tick _ | .poll | .wake _ | .process _ _ | .recalc => inferInstanceAs (Decidable True)

/-- The Signaler is in the table, and is polled with the others. -/
structure HasSignaler (key fd : Nat) (s : WaitPoll) : Prop where
  lookup : s.dispatcherByKey.lookup key = some (.wakeup fd)
  tells : Tells s.processIo s
  polled : ∀ since, s.phase = .polling since → key ∈ s.currentDispatcherKeys

/-- The Signaler is readable in what was reported, at an index that the pass has not come to. -/
def Coming (key : Nat) (s : WaitPoll) : Prop :=
  ∃ i k pfd, s.phase = .processing i ∧ i ≤ k ∧ s.currentDispatcherKeys[k]? = some key ∧ s.pollfds[k]? = some pfd ∧
    meets pfd.revents Pollfd.pollIn = true

/-- With `fWait_` cleared, in the pass or on the way from it to the end. -/
def Leaving (s : WaitPoll) : Prop :=
  s.fWait = false ∧ ((∃ i, s.phase = .processing i) ∨ s.phase = .recalculating ∨ s.phase = .head ∨
    s.phase = .returned true)

variable {key fd : Nat} {s s' : WaitPoll}

/-- What a pass over the snapshot does at an index. -/
theorem process_cases {i key' : Nat} {closed : Bool} {res : SoError} (h : s.process i key' closed res = some s') :
    s'.phase = .processing (i + 1) ∧ s'.dispatcherByKey = s.dispatcherByKey ∧
    s'.currentDispatcherKeys = s.currentDispatcherKeys ∧ s'.pollfds = s.pollfds ∧
    (s'.fWait = true → s.fWait = true) ∧
    (s'.told.map PollTold.key = s.told.map PollTold.key ∨
      s'.told.map PollTold.key = s.told.map PollTold.key ++ [key']) ∧
    (∀ fd pfd, s.dispatcherByKey.lookup key' = some (.wakeup fd) → s.pollfds[i]? = some pfd →
      meets pfd.revents Pollfd.pollIn = true →
      s'.fWait = false ∧ s'.told.map PollTold.key = s.told.map PollTold.key ++ [key']) := by
  simp only [process] at h
  split at h
  · rename_i hlookup
    cases h
    refine ⟨rfl, rfl, rfl, rfl, id, .inl rfl, fun _ _ hthere => ?_⟩
    cases hlookup.symm.trans hthere
  · rename_i disp hlookup
    split at h
    · cases h
    · rename_i pfd hpfd
      generalize hcall : processPollEvents disp.getRequestedEvents (disp.isDescriptorClosed closed) pfd.revents res =
        call at h
      obtain ⟨ff, err⟩ := call
      cases h
      by_cases hff : ff = 0
      · rw [if_pos hff]
        refine ⟨rfl, rfl, rfl, rfl, id, .inl rfl, fun _ pfd' _ hpfd' hin => ?_⟩
        cases hpfd.symm.trans hpfd'
        -- what is readable is told
        have hreadable : meets pfd.revents (Pollfd.pollIn ||| Pollfd.pollPri) = true := meets_bits.mpr (.inl hin)
        rw [processPollEvents, hreadable] at hcall
        exact absurd hff (processEvents_ne_zero hcall)
      · have hkeys : (s.told ++ [PollTold.mk key' pfd ff err]).map PollTold.key =
            s.told.map PollTold.key ++ [key'] := by
          rw [List.map_append, List.map_cons, List.map_nil]
        rw [if_neg hff]
        refine ⟨rfl, rfl, rfl, rfl, fun h => ?_, .inr hkeys, fun _ _ hthere _ _ => ?_⟩
        · simp only [onEvent] at h
          split at h
          · cases h
          · exact h
        · cases hlookup.symm.trans hthere
          exact ⟨rfl, hkeys⟩

/-- A step that is not the table's leaves the table; what is polled is made of it. -/
theorem step_table {a : WaitPollAction} (h : s.step a = some s') :
    (∃ dispatchers, a = .table dispatchers ∧ s' = { s with dispatcherByKey := dispatchers }) ∨
    s'.dispatcherByKey = s.dispatcherByKey ∧
      (∀ since, s'.phase = .polling since → s'.currentDispatcherKeys = s.selected.map Prod.fst ∨
        (∃ since, s.phase = .polling since) ∧ s'.currentDispatcherKeys = s.currentDispatcherKeys) := by
  cases a with
  | table dispatchers =>
    cases h
    exact .inl ⟨dispatchers, rfl, rfl⟩
  | tick ns =>
    refine .inr ?_
    simp only [step] at h
    split at h
    · rename_i since hphase
      split at h <;> cases h
      exact ⟨rfl, fun _ _ => .inr ⟨⟨since, hphase⟩, rfl⟩⟩
    · cases h
      exact ⟨rfl, fun since hphase => .inr ⟨⟨since, hphase⟩, rfl⟩⟩
  | poll =>
    refine .inr ?_
    simp only [step] at h
    split at h <;> cases h
    split
    · exact ⟨rfl, fun _ _ => .inl rfl⟩
    · exact ⟨rfl, fun _ hphase => by cases hphase⟩
  | wake n =>
    refine .inr ?_
    simp only [step] at h
    split at h
    · cases h
      exact ⟨rfl, fun _ hphase => by cases hphase⟩
    · cases h
      exact ⟨rfl, fun _ hphase => by cases hphase⟩
    · split at h <;> cases h
      exact ⟨rfl, fun _ hphase => by cases hphase⟩
    · split at h <;> cases h
      exact ⟨rfl, fun _ hphase => by cases hphase⟩
    · cases h
  | process closed res =>
    refine .inr ?_
    simp only [step] at h
    split at h
    · split at h
      · cases h
        exact ⟨rfl, fun _ hphase => by cases hphase⟩
      · obtain ⟨hphase, htable, -⟩ := process_cases h
        exact ⟨htable, fun _ hpolling => by cases hphase.symm.trans hpolling⟩
    · cases h
  | recalc =>
    refine .inr ?_
    simp only [step] at h
    split at h <;> cases h
    refine ⟨rfl, fun _ hphase => ?_⟩
    revert hphase
    simp only [recalc]
    split <;> exact fun hphase => by cases hphase

/-- The Signaler is always among those that are polled. -/
theorem mem_selected (h : s.dispatcherByKey.lookup key = some (.wakeup fd)) : key ∈ s.selected.map Prod.fst := by
  refine List.mem_map.mpr ⟨(key, .wakeup fd), List.mem_filter.mpr ⟨?_, ?_⟩, rfl⟩
  · exact List.mem_map.mpr ⟨⟨key, .wakeup fd⟩, AList.mem_lookup_iff.mp h, rfl⟩
  · exact Bool.or_true _

theorem hasSignaler_start {dispatchers : AList fun _ : Nat => PosixDispatcher} (cmsWait : Int) (processIo : Bool)
    (now : Int) (h : dispatchers.lookup key = some (.wakeup fd)) :
    HasSignaler key fd (start cmsWait processIo dispatchers now) :=
  ⟨h, tells_start _ _ _ _, fun _ hphase => by cases hphase⟩

theorem hasSignaler_step {a : WaitPollAction} (hok : KeepsSignaler key fd s a) (hstep : s.step a = some s')
    (h : HasSignaler key fd s) : HasSignaler key fd s' := by
  have htells : Tells s.processIo s' := tells_step hstep h.tells
  refine ⟨?_, htells.io.symm ▸ htells, fun since hphase => ?_⟩
  · obtain ⟨dispatchers, rfl, rfl⟩ | ⟨htable, -⟩ := step_table hstep
    · exact hok
    · rw [htable]
      exact h.lookup
  · obtain ⟨dispatchers, rfl, rfl⟩ | ⟨-, hpolling⟩ := step_table hstep
    · exact h.polled since hphase
    · obtain hkeys | ⟨⟨since', hbefore⟩, hkeys⟩ := hpolling since hphase
      · rw [hkeys]
        exact mem_selected h.lookup
      · rw [hkeys]
        exact h.polled since' hbefore

/-- Only the pass over the snapshot tells anyone. -/
theorem step_told {a : WaitPollAction} (h : s.step a = some s') :
    s'.told = s.told ∨ ∃ closed res i key', a = .process closed res ∧ s.phase = .processing i ∧
      s.currentDispatcherKeys[i]? = some key' ∧ s.process i key' closed res = some s' := by
  cases a with
  | process closed res =>
    simp only [step] at h
    split at h
    · split at h
      · cases h
        exact .inl rfl
      · exact .inr ⟨closed, res, _, _, rfl, by assumption, by assumption, h⟩
    · cases h
  | table dispatchers =>
    cases h
    exact .inl rfl
  | tick ns =>
    refine .inl ?_
    simp only [step] at h
    split at h
    · split at h <;> cases h
      rfl
    · cases h
      rfl
  | poll =>
    refine .inl ?_
    simp only [step] at h
    split at h <;> cases h
    split <;> rfl
  | wake n =>
    refine .inl ?_
    simp only [step] at h
    split at h
    · cases h
      rfl
    · cases h
      rfl
    · split at h <;> cases h
      rfl
    · split at h <;> cases h
      rfl
    · cases h
  | recalc =>
    refine .inl ?_
    simp only [step] at h
    split at h <;> cases h
    rfl

/-- The pass has come to the Signaler, and there is something to tell it. -/
def ComesTo (key : Nat) (res : SoError) (s : WaitPoll) : Prop :=
  ∃ i pfd, s.phase = .processing i ∧ s.currentDispatcherKeys[i]? = some key ∧ s.pollfds[i]? = some pfd ∧
    (processPollEvents deRead false pfd.revents res).1 ≠ 0

theorem ComesTo.told {res : SoError} (h : ComesTo key res s) (closed : Bool)
    (hthere : s.dispatcherByKey.lookup key = some (.wakeup fd)) :
    ∃ s', s.step (.process closed res) = some s' ∧ (io key).told s' = (io key).told s ++ [key] := by
  obtain ⟨i, pfd, hphase, hkey, hpfd, hff⟩ := h
  generalize hcall : processPollEvents deRead false pfd.revents res = call at hff
  obtain ⟨ff, err⟩ := call
  have hprocess : s.process i key closed res =
      some ({ s with phase := .processing (i + 1) }.onEvent (.wakeup fd) ⟨key, pfd, ff, err⟩) := by
    simp only [process, hthere, hpfd, PosixDispatcher.getRequestedEvents, PosixDispatcher.isDescriptorClosed, hcall]
    rw [if_neg hff]
  refine ⟨_, by simp only [step, hphase, hkey]; exact hprocess, ?_⟩
  simp only [io, onEvent, List.map_append, List.map_cons, List.map_nil]

theorem comesTo_of_told {a : WaitPollAction} (hthere : s.dispatcherByKey.lookup key = some (.wakeup fd))
    (hstep : s.step a = some s') (htold : (io key).told s' = (io key).told s ++ [key]) :
    ∃ closed res, a = .process closed res ∧ ComesTo key res s := by
  have hother : ∀ keys : List Nat, keys ≠ keys ++ [key] := by
    intro keys h
    have hlength := congrArg List.length h
    rw [List.length_append, List.length_singleton] at hlength
    omega
  obtain hsame | ⟨closed, res, i, key', rfl, hphase, hkey, hprocess⟩ := step_told hstep
  · exact absurd (by rw [← htold]; simp only [io, hsame]) (hother ((io key).told s))
  · refine ⟨closed, res, rfl, ?_⟩
    have hsame : key' = key := by
      obtain ⟨-, -, -, -, -, hsame | htells, -⟩ := process_cases hprocess
      · exact absurd (hsame.symm.trans htold) (hother _)
      · have hlast := List.append_inj_right' (htells.symm.trans htold) rfl
        exact (List.cons.inj hlast).1
    subst hsame
    simp only [process, hthere] at hprocess
    split at hprocess
    · cases hprocess
    · rename_i pfd hpfd
      refine ⟨i, pfd, hphase, hkey, hpfd, fun hff => ?_⟩
      simp only [PosixDispatcher.getRequestedEvents, PosixDispatcher.isDescriptorClosed, hff, if_true] at hprocess
      cases hprocess
      exact absurd htold (hother _)

/-- Time and other threads leave the loop where it is. -/
theorem external_frame {a : WaitPollAction} (hexternal : (io key).external a = true) (h : s.step a = some s') :
    s'.phase = s.phase ∧ s'.currentDispatcherKeys = s.currentDispatcherKeys ∧ s'.pollfds = s.pollfds ∧
    s'.fWait = s.fWait := by
  cases a with
  | tick ns =>
    simp only [step] at h
    split at h
    · split at h <;> cases h
      exact ⟨rfl, rfl, rfl, rfl⟩
    · cases h
      exact ⟨rfl, rfl, rfl, rfl⟩
  | table dispatchers =>
    cases h
    exact ⟨rfl, rfl, rfl, rfl⟩
  | _ => cases hexternal

theorem coming_step {a : WaitPollAction} (h : HasSignaler key fd s) (hstep : s.step a = some s')
    (hcoming : Coming key s) :
    Coming key s' ∨ Leaving s' ∧ (io key).told s' = (io key).told s ++ [key] := by
  obtain ⟨i, k, pfd, hphase, hle, hkey, hpfd, hin⟩ := hcoming
  cases hexternal : (io key).external a with
  | true =>
    obtain ⟨hphase', hkeys, hpollfds, -⟩ := external_frame hexternal hstep
    exact .inl ⟨i, k, pfd, hphase'.trans hphase, hle, hkeys ▸ hkey, hpollfds ▸ hpfd, hin⟩
  | false =>
    cases a with
    | process closed res =>
      obtain ⟨hlt, -⟩ := List.getElem?_eq_some_iff.mp hkey
      have hkey' : s.currentDispatcherKeys[i]? = some s.currentDispatcherKeys[i] := List.getElem?_eq_getElem _
      simp only [step, hphase, hkey'] at hstep
      obtain ⟨hphase', -, hkeys, hpollfds, -, -, htells⟩ := process_cases hstep
      obtain hlater | rfl := Nat.lt_or_eq_of_le hle
      · exact .inl ⟨i + 1, k, pfd, hphase', hlater, hkeys ▸ hkey, hpollfds ▸ hpfd, hin⟩
      · -- it is the Signaler's turn
        have hsame : s.currentDispatcherKeys[i] = key := Option.some.inj (hkey'.symm.trans hkey)
        rw [hsame] at htells
        obtain ⟨hwait, htold⟩ := htells fd pfd h.lookup hpfd hin
        exact .inr ⟨⟨hwait, .inl ⟨i + 1, hphase'⟩⟩, htold⟩
    | tick _ | table _ => cases hexternal
    | poll | wake _ | recalc =>
      simp only [step, hphase] at hstep
      cases hstep

theorem leaving_step {a : WaitPollAction} (hstep : s.step a = some s') (hleaving : Leaving s) : Leaving s' := by
  obtain ⟨hwait, hplace⟩ := hleaving
  cases hexternal : (io 0).external a with
  | true =>
    obtain ⟨hphase', -, -, hwait'⟩ := external_frame hexternal hstep
    exact ⟨hwait'.trans hwait, by rw [hphase']; exact hplace⟩
  | false =>
    obtain ⟨i, hphase⟩ | hphase | hphase | hphase := hplace
    · cases a with
      | process closed res =>
        simp only [step, hphase] at hstep
        split at hstep
        · cases hstep
          exact ⟨hwait, .inr (.inl rfl)⟩
        · obtain ⟨hphase', -, -, -, hcleared, -⟩ := process_cases hstep
          refine ⟨?_, .inl ⟨i + 1, hphase'⟩⟩
          rw [← Bool.not_eq_true]
          exact fun h => by cases hwait.symm.trans (hcleared h)
      | tick _ | table _ => cases hexternal
      | poll | wake _ | recalc =>
        simp only [step, hphase] at hstep
        cases hstep
    · cases a with
      | recalc =>
        simp only [step, hphase] at hstep
        cases hstep
        refine ⟨hwait, .inr (.inr ?_)⟩
        simp only [recalc]
        split
        · exact .inr rfl
        · exact .inl rfl
      | tick _ | table _ => cases hexternal
      | poll | wake _ | process _ _ =>
        simp only [step, hphase] at hstep
        cases hstep
    · cases a with
      | poll =>
        simp only [step, hphase, hwait] at hstep
        cases hstep
        exact ⟨rfl, .inr (.inr (.inr rfl))⟩
      | tick _ | table _ => cases hexternal
      | recalc | wake _ | process _ _ =>
        simp only [step, hphase] at hstep
        cases hstep
    · cases a with
      | tick _ | table _ => cases hexternal
      | poll | recalc | wake _ | process _ _ =>
        simp only [step, hphase] at hstep
        cases hstep

/-- In the pass, the wait can go on. -/
theorem mayGoOn_processing {i : Nat} (h : HasSignaler key fd s) (hphase : s.phase = .processing i) :
    MayGoOn (io key) s := by
  refine ⟨.process false (.value 0), ?_⟩
  cases hkey : s.currentDispatcherKeys[i]? with
  | none => exact ⟨_, rfl, fun _ => rfl, by simp only [io, step, hphase, hkey]; rfl⟩
  | some key' =>
    obtain ⟨t, hprocess, -⟩ := process_told false (.value 0) (h.tells.processing i hphase) hkey
    exact ⟨t, rfl, fun _ => rfl, by simp only [io, step, hphase, hkey]; exact hprocess⟩

theorem serves (key fd : Nat) :
    ServesSignaler (io key) key (KeepsSignaler key fd) (HasSignaler key fd) (Coming key) Leaving where
  registered hok hstep h := hasSignaler_step hok hstep h
  entered h := hasSignaler_start _ _ _ h.lookup
  grows := by
    intro s a s' hstep
    obtain hsame | ⟨_, _, _, key', _, _, _, hprocess⟩ := step_told hstep
    · exact ⟨[], by simp only [io, hsame, List.append_nil]⟩
    · obtain ⟨-, -, -, -, -, hsame | htells, -⟩ := process_cases hprocess
      · exact ⟨[], hsame.trans (List.append_nil _).symm⟩
      · exact ⟨[key'], htells⟩
  stops := by
    intro s a hreturned hexternal
    cases hphase : s.phase with
    | returned ok =>
      cases a with
      | tick _ | table _ => cases hexternal
      | poll | wake _ | process _ _ | recalc => simp only [io, step, hphase]
    | _ => simp [io, hphase] at hreturned
  turn := by
    intro s a s' h hok hexternal hstep hturn
    obtain ⟨b, t, -, -, hb, htold⟩ := hturn
    obtain ⟨closed, res, -, i, pfd, hphase, hkey, hpfd, hff⟩ := comesTo_of_told h.lookup hb htold
    obtain ⟨hphase', hkeys, hpollfds, -⟩ := external_frame hexternal hstep
    have hcomes : ComesTo key res s' :=
      ⟨i, pfd, hphase'.trans hphase, hkeys ▸ hkey, hpollfds ▸ hpfd, hff⟩
    obtain ⟨u, hu, htold'⟩ := hcomes.told closed (hasSignaler_step hok hstep h).lookup
    exact ⟨.process closed res, u, rfl, fun _ => rfl, hu, htold'⟩
  tells := by
    intro s a s' _ hstep htold readable
    obtain hsame | ⟨closed, res, _, _, rfl, -⟩ := step_told hstep
    · have hlength := congrArg List.length htold
      simp only [io, hsame, List.length_append, List.length_singleton] at hlength
      omega
    · rfl
  coming h _ hstep hcoming := coming_step h hstep hcoming
  leaving _ _ hstep hleaving := leaving_step hstep hleaving
  coming_on h hcoming := by
    obtain ⟨i, -, -, hphase, -⟩ := hcoming
    exact mayGoOn_processing h hphase
  leaving_on := by
    intro s h hleaving
    obtain ⟨hwait, ⟨i, hphase⟩ | hphase | hphase | hphase⟩ := hleaving
    · exact .inr (mayGoOn_processing h hphase)
    · exact .inr ⟨.recalc, _, rfl, fun _ => rfl, by simp only [io, step, hphase]; rfl⟩
    · exact .inr ⟨.poll, _, rfl, fun _ => rfl, by simp only [io, step, hphase]; rfl⟩
    · exact .inl (by simp only [io, hphase])

/-- An answer of a readable Signaler brings its event. -/
theorem coming_of_ready {since : Int} {revents : List (BitVec 16)} (h : HasSignaler key fd s)
    (hphase : s.phase = .polling since) (hanswer : (io key).mayAnswer s (.wake (.ready revents)) true = true)
    (hstep : s.step (.wake (.ready revents)) = some s') : Coming key s' := by
  simp only [step, hphase] at hstep
  split at hstep
  · rename_i hreported
    cases hstep
    obtain ⟨snapshot, -, hkeys, hof⟩ := h.tells.polling since hphase
    have hlength : s.currentDispatcherKeys.length = s.pollfds.length := by
      rw [hkeys, List.length_map, hof.length_eq]
    obtain ⟨k, hk, hkey⟩ := List.getElem_of_mem (h.polled since hphase)
    have hk' : k < s.pollfds.length := hlength ▸ hk
    have hr : k < revents.length := hreported.1.symm ▸ hk'
    -- what is reported at the Signaler's index
    have hpair : (key, revents[k]) ∈ s.currentDispatcherKeys.zip revents := by
      have hzip : k < (s.currentDispatcherKeys.zip revents).length := by
        rw [List.length_zip]
        omega
      have hget : (s.currentDispatcherKeys.zip revents)[k] = (key, revents[k]) := by
        rw [List.getElem_zip, hkey]
      rw [← hget]
      exact List.getElem_mem hzip
    have hin : meets revents[k] Pollfd.pollIn = true := by
      have hall := List.all_eq_true.mp hanswer _ hpair
      simpa using hall
    refine ⟨0, k, { s.pollfds[k] with revents := revents[k] }, rfl, Nat.zero_le _, ?_, ?_, hin⟩
    · rw [List.getElem?_eq_getElem hk, hkey]
    · rw [List.getElem?_map, Option.map_eq_some_iff]
      exact ⟨(s.pollfds[k], revents[k]),
        List.getElem?_zip_eq_some.mpr ⟨List.getElem?_eq_getElem hk', List.getElem?_eq_getElem hr⟩, rfl⟩
  · cases hstep

/-- **A `WakeUp` ends the `poll` wait.** In every run of any number of threads in `WakeUp` and one in the
    wait, again and again: while a completed `WakeUp` has not been taken, `poll` does not time out, and once
    it has answered with what is ready, the wait neither polls again nor fails; the loop thread, or the
    thread that has `mutex_`, can go on until it returns, and by then it has told the Signaler. -/
theorem wakeUp_ends_waitPoll {cmsWait t₀ since : Int} {processIo : Bool}
    {dispatchers : AList fun _ : Nat => PosixDispatcher} {s : SignaledWait WaitPoll}
    (hthere : dispatchers.lookup key = some (.wakeup fd))
    (h : Reaches (SignaledWait.step (io key) key) (Where (KeepsSignaler key fd))
      (SignaledWait.start (start cmsWait processIo dispatchers t₀)) s)
    (hpos : 0 < s.signaler.unconsumed) (hpolling : s.wait.phase = .polling since) :
    SignaledWait.step (io key) key s (.wait (.wake .timeout)) = none ∧
    ∀ revents s₁, SignaledWait.step (io key) key s (.wait (.wake (.ready revents))) = some s₁ →
      ∀ s₂, Reaches (SignaledWait.step (io key) key) (WhereOnce (KeepsSignaler key fd)) s₁ s₂ →
        (∀ since, s₂.wait.phase ≠ .polling since) ∧ s₂.wait.phase ≠ .returned false ∧
        (s₂.wait.phase = .returned true ∨
          ∃ a s₃, a.goesOn (io key) = true ∧ SignaledWait.step (io key) key s₂ a = some s₃) ∧
        (s₂.wait.phase = .returned true →
          s₂.wait.fWait = false ∧ ∃ told ∈ s₂.wait.told.drop s₁.wait.told.length, told.key = key) := by
  have hin := inTurn_of_reaches (serves key fd) (hasSignaler_start cmsWait processIo t₀ hthere) h
  have hturn : ¬Turn (io key) key s.wait := by
    intro hturn
    obtain ⟨b, t, -, -, hb, htold⟩ := hturn
    obtain ⟨_, _, -, i, -, hphase, -⟩ := comesTo_of_told hin.registered.lookup hb htold
    cases hpolling.symm.trans hphase
  have hquiet : ∀ (n : PollsResult) (w : WaitPoll), s.wait.step (.wake n) = some w →
      (io key).told w = (io key).told s.wait := by
    intro n w hw
    obtain hsame | ⟨_, _, _, _, hprocess, -⟩ := step_told hw
    · simp only [io, hsame]
    · cases hprocess
  constructor
  · rw [Option.eq_none_iff_forall_ne_some]
    intro t hstep
    obtain ⟨hanswer, -⟩ := hin.answer (a := .wake .timeout) hturn hpos rfl (hquiet _) hstep
    have hcontains := List.contains_iff_mem.mpr (hin.registered.polled since hpolling)
    simp only [io, hcontains, Bool.and_self, Bool.not_true, Bool.false_eq_true] at hanswer
  · intro revents s₁ hstep s₂ hrun
    obtain ⟨⟨keys, htold, hplace⟩, hgo⟩ :=
      (serves key fd).wakeUp_ends (a := .wake (.ready revents)) hin hturn hpos trivial rfl (hquiet _)
        (fun _ hanswer hw => coming_of_ready hin.registered hpolling hanswer hw) hstep hrun
    have hphase : (∃ i, s₂.wait.phase = .processing i) ∨ Leaving s₂.wait ∧ key ∈ keys := by
      refine hplace.imp (fun hc => ?_) id
      obtain ⟨i, -, -, hphase, -⟩ := hc
      exact ⟨i, hphase⟩
    refine ⟨fun since hp => ?_, fun hfailed => ?_, hgo.imp (fun hr => ?_) id, fun hended => ?_⟩
    · obtain ⟨i, hphase⟩ | ⟨⟨-, ⟨i, hphase⟩ | hphase | hphase | hphase⟩, -⟩ := hphase <;> cases hp.symm.trans hphase
    · obtain ⟨i, hphase⟩ | ⟨⟨-, ⟨i, hphase⟩ | hphase | hphase | hphase⟩, -⟩ := hphase <;>
        cases hfailed.symm.trans hphase
    · simp only [io] at hr
      split at hr <;> cases hr
      assumption
    · obtain ⟨i, hphase⟩ | ⟨⟨hwait, -⟩, hmem⟩ := hphase
      · cases hended.symm.trans hphase
      · exact ⟨hwait, exists_told_since htold hmem⟩

/-- A thread wakes the loop thread while it polls the Signaler and a socket. -/
def wokenPollRun : List (SignaledAction WaitPollAction) :=
  [.wait .poll, .wakeUp 1, .wait (.tick 2000000), .lock 1, .critical, .critical, .critical]

/-- Both are reported; another thread is in `Signal` when the loop thread comes to `OnEvent`. -/
def wokenPassRun : List (SignaledAction WaitPollAction) :=
  [.wakeUp 2, .lock 2, .wait (.process false (.value 0)), .critical, .critical, .onEvent, .critical, .critical,
    .critical, .critical, .wait (.process false (.value 0)), .wait (.process false (.value 0)),
    .wait (.process false (.value 0)), .wait .recalc, .wait .poll]

theorem wakeUp_ends_waitPoll_contended :
    ∃ s s₁ s₂ : SignaledWait WaitPoll,
      Reaches (SignaledWait.step (io 7) 7) (Where (KeepsSignaler 7 3))
        (SignaledWait.start (start 100 true twoDispatchers 5999999)) s ∧
      s.signaler.unconsumed = 1 ∧ SignaledWait.step (io 7) 7 s (.wait (.wake .timeout)) = none ∧
      Reaches (SignaledWait.step (io 7) 7) (WhereOnce (KeepsSignaler 7 3)) s₁ s₂ ∧
      s₂.wait.phase = .returned true ∧ s₂.wait.fWait = false ∧
      ∃ told ∈ s₂.wait.told.drop s₁.wait.told.length, told.key = 7 := by
  have hrun : (runWhile (SignaledWait.step (io 7) 7) (Where (KeepsSignaler 7 3))
      (SignaledWait.start (start 100 true twoDispatchers 5999999)) wokenPollRun).isSome = true := by decide
  have hreach := reaches_get hrun
  obtain ⟨htimeout, hends⟩ := wakeUp_ends_waitPoll (by decide) hreach Nat.one_pos rfl
  have hanswer : (SignaledWait.step (io 7) 7 ((runWhile (SignaledWait.step (io 7) 7) (Where (KeepsSignaler 7 3))
      (SignaledWait.start (start 100 true twoDispatchers 5999999)) wokenPollRun).get (by decide))
      (.wait (.wake (.ready [Pollfd.pollIn, Pollfd.pollIn])))).isSome = true := by decide
  have hpass : (runWhile (SignaledWait.step (io 7) 7) (WhereOnce (KeepsSignaler 7 3))
      ((SignaledWait.step (io 7) 7 ((runWhile (SignaledWait.step (io 7) 7) (Where (KeepsSignaler 7 3))
        (SignaledWait.start (start 100 true twoDispatchers 5999999)) wokenPollRun).get (by decide))
        (.wait (.wake (.ready [Pollfd.pollIn, Pollfd.pollIn])))).get (by decide)) wokenPassRun).isSome = true := by
    decide
  have hreach' := reaches_get hpass
  obtain ⟨-, -, -, hended⟩ := hends _ _ (Option.some_get hanswer).symm _ hreach'
  exact ⟨_, _, _, hreach, rfl, htimeout, hreach', rfl, hended rfl⟩

end WaitPoll

end IoBase
