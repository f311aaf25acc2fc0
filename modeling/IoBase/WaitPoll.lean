import IoBase.Signaler
import IoBase.WaitSelect
import IoBase.WaitTimes

/- The `poll` wait of `EvenLoop`, in `event_loop_temp.cc`.

   An iteration takes a snapshot of the dispatchers, one key and one `pollfd` each, polls
   these, and tells the dispatchers that are still there. A step is one pass of one of its
   loops, or what stands between them; at any moment time passes, and the table changes under
   the hands of other threads and of the handlers. `poll` lasts at most the timeout it is
   given, and times out only when that has passed.

   Correspondence (C++ ↔ Lean):
     `msWait`, `msStop`                       ↔ `WaitTimes`, which the epoll wait has too
     `WaitPoll`, down to the loop             ↔ `WaitPoll.start`
     the loop over the table, and `poll`      ↔ `WaitPollAction.poll`
     the result of `poll`                     ↔ `WaitPollAction.wake`
     the loop over `current_dispatcher_keys_` ↔ `WaitPollAction.process`
     the rest of the iteration                ↔ `WaitPollAction.recalc`

   * `waitPoll_on_time`: the wait is over when it was asked to be, neither later nor before.
   * `waitPoll_tells`: whom it tells, and of what. -/
namespace IoBase
open Transition

/-! ## The wait -/

structure PollFd where
  fd : Nat
  events : BitVec 16
  revents : BitVec 16
  deriving DecidableEq, Repr

/-- `DispatcherToPollfd`. -/
def PosixDispatcher.toPollfd (disp : PosixDispatcher) : PollFd :=
  ⟨disp.getDescriptor, dispatcherToPollfd disp.getRequestedEvents, 0⟩

/-- What `poll` returns; a positive count comes with the `revents` of all descriptors. -/
inductive PollsResult where
  | failed
  | interrupted
  | timeout
  | ready (revents : List (BitVec 16))

/-- What `poll` fills in: of each descriptor, events it was asked for or errors, and of one at least. -/
def PollReported (pollfds : List PollFd) (revents : List (BitVec 16)) : Prop :=
  revents.length = pollfds.length ∧
    (∀ p ∈ pollfds.zip revents,
      Within p.2 (p.1.events ||| Pollfd.pollErr ||| Pollfd.pollHup ||| Pollfd.pollNval)) ∧
    revents.any (· != 0) = true

instance (pollfds : List PollFd) (revents : List (BitVec 16)) : Decidable (PollReported pollfds revents) :=
  inferInstanceAs (Decidable (_ ∧ _ ∧ _))

/-- Where the loop thread is in `WaitPoll`. -/
inductive PollWaitPhase where
  | head
  /-- In `poll`, since this time. -/
  | polling (since : Int)
  | processing (i : Nat)
  | recalculating
  | returned (ok : Bool)
  deriving DecidableEq, Repr

/-- The same place, as that of a loop. -/
def PollWaitPhase.loop : PollWaitPhase → WaitPhase
  | .head => .head
  | .polling since => .calling since
  | .processing _ | .recalculating => .dispatching
  | .returned ok => .returned ok

/-- A call of `OnEvent`: the dispatcher's key, and the `pollfd` that its arguments are made of. -/
structure PollTold where
  key : Nat
  pollfd : PollFd
  ff : BitVec 32
  err : Int
  deriving DecidableEq, Repr

structure WaitPoll extends WaitTimes where
  processIo : Bool
  fWait : Bool
  dispatcherByKey : AList fun _ : Nat => PosixDispatcher
  currentDispatcherKeys : List Nat
  pollfds : List PollFd
  phase : PollWaitPhase
  /-- What has been polled, a list for each call. -/
  polls : List (List (Nat × PosixDispatcher))
  told : List PollTold

inductive WaitPollAction where
  | tick (ns : Nat)
  | table (dispatchers : AList fun _ : Nat => PosixDispatcher)
  | poll
  | wake (n : PollsResult)
  | process (closed : Bool) (res : SoError)
  | recalc

namespace WaitPoll

def start (cmsWait : Int) (processIo : Bool) (dispatchers : AList fun _ : Nat => PosixDispatcher)
    (now : Int) : WaitPoll where
  toWaitTimes := .start cmsWait now
  processIo := processIo
  fWait := true
  dispatcherByKey := dispatchers
  currentDispatcherKeys := []
  pollfds := []
  phase := .head
  polls := []
  told := []

/-- The dispatchers whose descriptors are polled. -/
def selected (s : WaitPoll) : List (Nat × PosixDispatcher) :=
  (s.dispatcherByKey.entries.map fun kv => (kv.1, kv.2)).filter fun kv => s.processIo || kv.2.isWakeup

/-- The start of an iteration, down to the call of `poll`. -/
def callPoll (s : WaitPoll) : WaitPoll :=
  { s with
    currentDispatcherKeys := s.selected.map Prod.fst
    pollfds := s.selected.map fun kv => kv.2.toPollfd
    phase := .polling s.now
    polls := s.polls ++ [s.selected] }

/-- `OnEvent`; that of the Signaler clears `fWait_`. -/
def onEvent (s : WaitPoll) (disp : PosixDispatcher) (told : PollTold) : WaitPoll :=
  { s with
    told := s.told ++ [told]
    fWait := if disp.isWakeup then false else s.fWait }

/-- One dispatcher of the snapshot, and `ProcessPollEvents`. -/
def process (s : WaitPoll) (i key : Nat) (closed : Bool) (res : SoError) : Option WaitPoll :=
  match s.dispatcherByKey.lookup key with
  | none => some { s with phase := .processing (i + 1) }
  | some disp =>
    match s.pollfds[i]? with
    -- out of range
    | none => none
    | some pfd =>
      let (ff, err) := processPollEvents disp.getRequestedEvents (disp.isDescriptorClosed closed) pfd.revents res
      let s := { s with phase := .processing (i + 1) }
      some (if ff = 0 then s else s.onEvent disp ⟨key, pfd, ff, err⟩)

/-- The end of an iteration. -/
def recalc (s : WaitPoll) : WaitPoll :=
  let times := s.toWaitTimes.recalc
  { s with
    toWaitTimes := times
    phase := if s.cmsWait ≠ EvenLoop.kForeverMs ∧ times.msWait < 0 then .returned true else .head }

def step (s : WaitPoll) : WaitPollAction → Option WaitPoll
  | .tick ns =>
    match s.phase with
    | .polling since =>
      if s.mayLast since (s.now + ns) then some { s with toWaitTimes := s.spend ns } else none
    | _ => some { s with now := s.now + ns }
  | .table dispatchers => some { s with dispatcherByKey := dispatchers }
  | .poll =>
    match s.phase with
    | .head => some (if s.fWait then s.callPoll else { s with phase := .returned true })
    | _ => none
  | .wake n =>
    match s.phase, n with
    | .polling _, .failed => some { s with phase := .returned false }
    | .polling _, .interrupted => some { s with phase := .recalculating }
    | .polling since, .timeout => if s.timedOut since then some { s with phase := .returned true } else none
    | .polling _, .ready revents =>
      if PollReported s.pollfds revents then
        some { s with
          pollfds := (s.pollfds.zip revents).map fun p => { p.1 with revents := p.2 }
          phase := .processing 0 }
      else none
    | _, _ => none
  | .process closed res =>
    match s.phase with
    | .processing i =>
      match s.currentDispatcherKeys[i]? with
      | none => some { s with phase := .recalculating }
      | some key => s.process i key closed res
    | _ => none
  | .recalc =>
    match s.phase with
    | .recalculating => some s.recalc
    | _ => none

/-! ## The deadline -/

/-- The same wait, as one that is only seen to pass its time. -/
def loop (s : WaitPoll) : WaitLoop := ⟨s.toWaitTimes, s.fWait, s.phase.loop⟩

variable {t₀ cmsWait : Int} {s s' : WaitPoll}

theorem loop_of_phase {phase : PollWaitPhase} (h : s.phase = phase) :
    s.loop = ⟨s.toWaitTimes, s.fWait, phase.loop⟩ := by
  rw [loop, h]

/-- The loop over the snapshot takes no time, and does not end the wait. -/
theorem stepped_process {i key : Nat} {closed : Bool} {res : SoError} (hphase : s.phase = .processing i)
    (h : s.process i key closed res = some s') : WaitLoop.Stepped s.loop s'.loop := by
  rw [loop_of_phase hphase]
  simp only [process] at h
  split at h
  · cases h
    exact .quiet
  · split at h
    · cases h
    · cases h
      split
      · exact .quiet
      · exact .dispatch _ rfl

theorem stepped_loop {a : WaitPollAction} (h : s.step a = some s') : WaitLoop.Stepped s.loop s'.loop := by
  cases a with
  | tick ns =>
    simp only [step] at h
    split at h
    · rename_i since hphase
      split at h
      · rename_i hlasts
        cases h
        exact .last ns (congrArg PollWaitPhase.loop hphase) hlasts
      · cases h
    · rename_i hphase
      cases h
      refine .pass ns fun since hcalling => ?_
      -- only a poll is a call
      revert hcalling
      simp only [loop]
      cases hp : s.phase with
      | polling since' => exact absurd hp (hphase since')
      | _ => exact fun hcalling => by cases hcalling
  | table dispatchers =>
    cases h
    exact .quiet
  | poll =>
    simp only [step] at h
    split at h
    · rename_i hphase
      cases h
      rw [loop_of_phase hphase]
      split
      · rename_i hwait
        exact .call rfl hwait
      · rename_i hwoken
        exact .woken rfl (Bool.not_eq_true _ ▸ hwoken)
    · cases h
  | wake n =>
    simp only [step] at h
    split at h
    · rename_i hphase
      cases h
      exact .failed (congrArg PollWaitPhase.loop hphase)
    · rename_i hphase
      cases h
      exact .back (congrArg PollWaitPhase.loop hphase)
    · rename_i since hphase
      split at h
      · rename_i hpassed
        cases h
        exact .timeout (congrArg PollWaitPhase.loop hphase) hpassed
      · cases h
    · rename_i hphase
      split at h
      · cases h
        exact .back (congrArg PollWaitPhase.loop hphase)
      · cases h
    · cases h
  | process closed res =>
    simp only [step] at h
    split at h
    · rename_i i hphase
      split at h
      · cases h
        rw [loop_of_phase hphase]
        exact .quiet
      · exact stepped_process hphase h
    · cases h
  | recalc =>
    simp only [step] at h
    split at h
    · rename_i hphase
      cases h
      rw [loop_of_phase hphase]
      simp only [loop, recalc]
      split
      · rename_i hover
        exact .ended rfl hover.1 (le_of_lt hover.2)
      · rename_i hleft
        refine .next rfl ?_
        exact (not_and_or.mp hleft).imp not_not.mp not_lt.mp
    · cases h

/-- **`WaitPoll` is on time.** In every run of a wait of `cmsWait` milliseconds, whatever the table, the
    clock and what `poll` returns, the calls of `poll` last less than a millisecond longer together than
    that; and a wait that ends without a wake-up of its Signaler has come to the deadline. -/
theorem waitPoll_on_time (hpos : 1 ≤ cmsWait) (hmax : cmsWait ≤ int32Max) (ht₀ : 0 ≤ t₀) {processIo : Bool}
    {dispatchers : AList fun _ : Nat => PosixDispatcher}
    (h : Reaches WaitPoll.step Always (start cmsWait processIo dispatchers t₀) s) :
    s.spentNs < 1000000 * (cmsWait + 1) ∧
    (s.phase = .returned true → s.fWait = true → timeMillis t₀ + cmsWait ≤ timeMillis s.now) := by
  have honTime : WaitLoop.OnTime t₀ cmsWait s.loop := by
    refine h.invariant (P := fun s => WaitLoop.OnTime t₀ cmsWait s.loop) (fun _ _ _ _ hstep ho => ?_)
      (WaitLoop.onTime_start hpos ht₀)
    exact ho.step hpos hmax ht₀ (stepped_loop hstep)
  obtain ⟨hspent, hended⟩ := honTime.bounds hpos
  exact ⟨hspent, fun hphase => hended (congrArg PollWaitPhase.loop hphase)⟩

/-- The Signaler, and a socket that is to be read. -/
def twoDispatchers : AList fun _ : Nat => PosixDispatcher :=
  (AList.singleton 9 (.other 5 deRead)).insert 7 (.wakeup 3)

/-- A wait of 100 ms: a signal comes after 60 ms and a half, and the next call times out. -/
def interruptedPollRun : List WaitPollAction :=
  [.poll, .tick 60500000, .wake .interrupted, .tick 1000000, .recalc, .poll, .tick 38000000, .wake .timeout]

theorem waitPoll_on_time_interrupted :
    ∃ s, Reaches WaitPoll.step Always (start 100 true twoDispatchers 5999999) s ∧ s.phase = .returned true ∧
      s.spentNs = 98500000 ∧ s.spentNs < 101000000 ∧ 105 ≤ timeMillis s.now := by
  have hrun : (runWhile WaitPoll.step Always (start 100 true twoDispatchers 5999999)
      interruptedPollRun).isSome = true := by decide
  have hreach := reaches_get hrun
  have hpos : (1 : Int) ≤ 100 := by decide
  obtain ⟨hspent, hended⟩ := waitPoll_on_time hpos (by decide) (by decide) hreach
  exact ⟨_, hreach, rfl, rfl, hspent, hended rfl rfl⟩

/-! ## Whom it tells -/

/-- A `pollfd` of this dispatcher, in which is reported what it asked for, or an error. -/
structure ReportOf (disp : PosixDispatcher) (pfd : PollFd) : Prop where
  fd : pfd.fd = disp.getDescriptor
  events : pfd.events = dispatcherToPollfd disp.getRequestedEvents
  reported : Within pfd.revents (pfd.events ||| Pollfd.pollErr ||| Pollfd.pollHup ||| Pollfd.pollNval)

/-- The keys and the `pollfd`s are those of a list that was polled. -/
def Aligned (s : WaitPoll) : Prop :=
  ∃ snapshot ∈ s.polls, s.currentDispatcherKeys = snapshot.map Prod.fst ∧
    List.Forall₂ (fun kv pfd => ReportOf kv.2 pfd) snapshot s.pollfds

/-- A dispatcher was told by the `pollfd` that was made for it, of what it had asked for when it was polled,
    or of a close. -/
def ToldOf (polls : List (List (Nat × PosixDispatcher))) (told : PollTold) : Prop :=
  told.ff ≠ 0 ∧ ∃ snapshot ∈ polls, ∃ disp, (told.key, disp) ∈ snapshot ∧ told.pollfd.fd = disp.getDescriptor ∧
    (meets told.ff (deRead ||| deAccept) = true → meets disp.getRequestedEvents (deRead ||| deAccept) = true) ∧
    (meets told.ff (deWrite ||| deConnect) = true → meets disp.getRequestedEvents (deWrite ||| deConnect) = true) ∧
    (told.err ≠ 0 → meets told.ff deClose = true)

/-- What holds of whom the wait tells, between any two steps. -/
structure Tells (processIo : Bool) (s : WaitPoll) : Prop where
  io : s.processIo = processIo
  polled : ∀ snapshot ∈ s.polls, ∀ kv ∈ snapshot, processIo = true ∨ kv.2.isWakeup = true
  polling : ∀ since, s.phase = .polling since → Aligned s
  processing : ∀ i, s.phase = .processing i → Aligned s
  told : ∀ told ∈ s.told, ToldOf s.polls told

theorem reportOf_toPollfd (disp : PosixDispatcher) : ReportOf disp disp.toPollfd :=
  ⟨rfl, rfl, Within.zero⟩

/-- What is reported as readable, and is not an error, was asked for as `DE_READ` or `DE_ACCEPT`. -/
theorem ReportOf.readable {disp : PosixDispatcher} {pfd : PollFd} (h : ReportOf disp pfd)
    (hread : meets pfd.revents (Pollfd.pollIn ||| Pollfd.pollPri) = true) :
    meets disp.getRequestedEvents (deRead ||| deAccept) = true := by
  have hevents := h.reported.meets hread
  rw [h.events, dispatcherToPollfd] at hevents
  revert hevents
  cases meets disp.getRequestedEvents (deRead ||| deAccept) with
  | true => exact fun _ => rfl
  | false => cases meets disp.getRequestedEvents (deWrite ||| deConnect) <;> decide

theorem ReportOf.writable {disp : PosixDispatcher} {pfd : PollFd} (h : ReportOf disp pfd)
    (hwrite : meets pfd.revents Pollfd.pollOut = true) :
    meets disp.getRequestedEvents (deWrite ||| deConnect) = true := by
  have hevents := h.reported.meets hwrite
  rw [h.events, dispatcherToPollfd] at hevents
  revert hevents
  cases meets disp.getRequestedEvents (deWrite ||| deConnect) with
  | true => exact fun _ => rfl
  | false => cases meets disp.getRequestedEvents (deRead ||| deAccept) <;> decide

theorem tells_start (cmsWait : Int) (processIo : Bool) (dispatchers : AList fun _ : Nat => PosixDispatcher)
    (now : Int) : Tells processIo (start cmsWait processIo dispatchers now) where
  io := rfl
  polled := fun _ h => absurd h (List.not_mem_nil)
  polling := fun _ h => by cases h
  processing := fun _ h => by cases h
  told := fun _ h => absurd h (List.not_mem_nil)

/-- The list that is polled next. -/
theorem Tells.callPoll {processIo : Bool} (h : Tells processIo s) : Tells processIo s.callPoll where
  io := h.io
  polled := by
    intro snapshot hmem kv hkv
    obtain hmem | hmem := List.mem_append.mp hmem
    · exact h.polled snapshot hmem kv hkv
    · rw [List.mem_singleton.mp hmem] at hkv
      have hselected := (List.mem_filter.mp hkv).2
      rwa [h.io, Bool.or_eq_true] at hselected
  polling := by
    intro since _
    refine ⟨s.selected, List.mem_append_right _ (List.mem_singleton_self _), rfl, ?_⟩
    refine List.forall₂_map_right_iff.mpr (List.forall₂_same.mpr fun kv _ => ?_)
    exact reportOf_toPollfd kv.2
  processing := fun _ h => by cases h
  told := by
    intro told hmem
    obtain ⟨hff, snapshot, hpolled, htold⟩ := h.told told hmem
    exact ⟨hff, snapshot, List.mem_append_left _ hpolled, htold⟩

/-- `poll` fills in the events of each. -/
theorem forall₂_reported {snapshot : List (Nat × PosixDispatcher)} {pollfds : List PollFd}
    {revents : List (BitVec 16)} (hof : List.Forall₂ (fun kv pfd => ReportOf kv.2 pfd) snapshot pollfds)
    (hlength : revents.length = pollfds.length)
    (hwithin : ∀ p ∈ pollfds.zip revents,
      Within p.2 (p.1.events ||| Pollfd.pollErr ||| Pollfd.pollHup ||| Pollfd.pollNval)) :
    List.Forall₂ (fun kv pfd => ReportOf kv.2 pfd) snapshot
      ((pollfds.zip revents).map fun p => { p.1 with revents := p.2 }) := by
  induction hof generalizing revents with
  | nil => exact .nil
  | @cons kv pfd snapshot pollfds hhead _ ih =>
    cases revents with
    | nil => cases hlength
    | cons r revents =>
      refine .cons ?_ (ih (Nat.succ.inj hlength) fun p hp => hwithin p (List.mem_cons_of_mem _ hp))
      exact ⟨hhead.fd, hhead.events, hwithin (pfd, r) (List.mem_cons_self ..)⟩

/-- At each key of an aligned wait stands the `pollfd` of the same dispatcher. -/
theorem Aligned.at {i key : Nat} (h : Aligned s) (hkey : s.currentDispatcherKeys[i]? = some key) :
    ∃ snapshot ∈ s.polls, ∃ disp pfd, (key, disp) ∈ snapshot ∧ s.pollfds[i]? = some pfd ∧ ReportOf disp pfd := by
  obtain ⟨snapshot, hmem, hkeys, hof⟩ := h
  rw [hkeys, List.getElem?_map, Option.map_eq_some_iff] at hkey
  obtain ⟨⟨key', disp⟩, hkv, rfl⟩ := hkey
  obtain ⟨hlt, hget⟩ := List.getElem?_eq_some_iff.mp hkv
  have hlt' : i < s.pollfds.length := by
    rw [← hof.length_eq]
    exact hlt
  refine ⟨snapshot, hmem, disp, s.pollfds[i], ?_, List.getElem?_eq_getElem hlt', ?_⟩
  · rw [← hget]
    exact List.getElem_mem hlt
  · have hreport := hof.get hlt hlt'
    simpa only [List.get_eq_getElem, hget] using hreport

/-- What `ProcessPollEvents` makes of such a `pollfd`, whatever the dispatcher requests by then. -/
theorem ReportOf.told {disp : PosixDispatcher} {pfd : PollFd} {requestedEvents : BitVec 32} {closed : Bool}
    {res : SoError} {ff : BitVec 32} {err : Int} (hreport : ReportOf disp pfd)
    (h : processPollEvents requestedEvents closed pfd.revents res = (ff, err)) :
    (meets ff (deRead ||| deAccept) = true → meets disp.getRequestedEvents (deRead ||| deAccept) = true) ∧
    (meets ff (deWrite ||| deConnect) = true → meets disp.getRequestedEvents (deWrite ||| deConnect) = true) ∧
    (err ≠ 0 → meets ff deClose = true) ∧
    (meets pfd.revents Pollfd.pollIn = true → ff ≠ 0) := by
  obtain ⟨hread, hwrite, herr⟩ := processEvents_told h
  refine ⟨fun hff => hreport.readable (hread hff), fun hff => hreport.writable (hwrite hff),
    fun hne => (herr hne).2, fun hin => ?_⟩
  have hreadable : meets pfd.revents (Pollfd.pollIn ||| Pollfd.pollPri) = true := meets_bits.mpr (.inl hin)
  simp only [processPollEvents, hreadable] at h
  exact processEvents_ne_zero h

/-- A dispatcher that is passed over leaves all as it is; one that is told is told by its own `pollfd`. -/
theorem process_told {i key : Nat} (closed : Bool) (res : SoError) (haligned : Aligned s)
    (hkey : s.currentDispatcherKeys[i]? = some key) :
    ∃ s', s.process i key closed res = some s' ∧ s'.phase = .processing (i + 1) ∧ s'.polls = s.polls ∧
      s'.currentDispatcherKeys = s.currentDispatcherKeys ∧ s'.pollfds = s.pollfds ∧ s'.processIo = s.processIo ∧
      (s'.told = s.told ∨ ∃ told, s'.told = s.told ++ [told] ∧ ToldOf s.polls told) ∧
      ∀ pfd, s.pollfds[i]? = some pfd → meets pfd.revents Pollfd.pollIn = true → key ∈ s.dispatcherByKey →
        ∃ told, s'.told = s.told ++ [told] ∧ told.key = key ∧ told.pollfd = pfd := by
  obtain ⟨snapshot, hmem, disp, pfd, hsnap, hpfd, hreport⟩ := haligned.at hkey
  cases hlookup : s.dispatcherByKey.lookup key with
  | none =>
    have hprocess : s.process i key closed res = some { s with phase := .processing (i + 1) } := by
      simp only [process, hlookup]
    refine ⟨_, hprocess, rfl, rfl, rfl, rfl, rfl, .inl rfl, fun _ _ _ hin => ?_⟩
    exact absurd (AList.lookup_eq_none.mp hlookup) (not_not_intro hin)
  | some now =>
    generalize hcall : processPollEvents now.getRequestedEvents (now.isDescriptorClosed closed) pfd.revents res = call
    obtain ⟨ff, err⟩ := call
    obtain ⟨hread, hwrite, herr, hin⟩ := hreport.told hcall
    have hprocess : s.process i key closed res =
        some (if ff = 0 then { s with phase := .processing (i + 1) }
          else { s with phase := .processing (i + 1) }.onEvent now ⟨key, pfd, ff, err⟩) := by
      simp only [process, hlookup, hpfd, hcall]
    by_cases hff : ff = 0
    · rw [if_pos hff] at hprocess
      refine ⟨_, hprocess, rfl, rfl, rfl, rfl, rfl, .inl rfl, fun pfd' hpfd' hreadable _ => ?_⟩
      cases hpfd.symm.trans hpfd'
      exact absurd hff (hin hreadable)
    · rw [if_neg hff] at hprocess
      refine ⟨_, hprocess, rfl, rfl, rfl, rfl, rfl, .inr ⟨_, rfl, hff, ?_⟩, fun pfd' hpfd' _ _ => ?_⟩
      · exact ⟨snapshot, hmem, disp, hsnap, hreport.fd, hread, hwrite, herr⟩
      · cases hpfd.symm.trans hpfd'
        exact ⟨_, rfl, rfl, rfl⟩

theorem tells_step {processIo : Bool} {a : WaitPollAction} (h : s.step a = some s') (ht : Tells processIo s) :
    Tells processIo s' := by
  -- where the dispatchers have not been told, and nothing is polled or processed
  have hquiet : ∀ {t : WaitPoll}, t.polls = s.polls → t.processIo = s.processIo → t.told = s.told →
      (∀ since, t.phase ≠ .polling since) → (∀ i, t.phase ≠ .processing i) → Tells processIo t := by
    intro t hpolls hio htold hp hq
    refine ⟨hio.trans ht.io, ?_, fun since h => absurd h (hp since), fun i h => absurd h (hq i), ?_⟩
    · rw [hpolls]
      exact ht.polled
    · rw [hpolls, htold]
      exact ht.told
  cases a with
  | tick ns =>
    simp only [step] at h
    split at h
    · rename_i since hphase
      split at h
      · cases h
        exact ⟨ht.io, ht.polled, ht.polling, ht.processing, ht.told⟩
      · cases h
    · cases h
      exact ⟨ht.io, ht.polled, ht.polling, ht.processing, ht.told⟩
  | table dispatchers =>
    cases h
    exact ⟨ht.io, ht.polled, ht.polling, ht.processing, ht.told⟩
  | poll =>
    simp only [step] at h
    split at h
    · cases h
      split
      · exact ht.callPoll
      · exact hquiet rfl rfl rfl (by simp) (by simp)
    · cases h
  | wake n =>
    simp only [step] at h
    split at h
    · cases h
      exact hquiet rfl rfl rfl (by simp) (by simp)
    · cases h
      exact hquiet rfl rfl rfl (by simp) (by simp)
    · split at h
      · cases h
        exact hquiet rfl rfl rfl (by simp) (by simp)
      · cases h
    · rename_i since revents hphase
      split at h
      · rename_i hreported
        cases h
        obtain ⟨hlength, hwithin, -⟩ := hreported
        obtain ⟨snapshot, hmem, hkeys, hof⟩ := ht.polling since hphase
        refine ⟨ht.io, ht.polled, fun _ h => (by cases h), fun _ _ => ⟨snapshot, hmem, hkeys, ?_⟩, ht.told⟩
        exact forall₂_reported hof hlength hwithin
      · cases h
    · cases h
  | process closed res =>
    simp only [step] at h
    split at h
    · rename_i i hphase
      have haligned := ht.processing i hphase
      split at h
      · cases h
        exact hquiet rfl rfl rfl (by simp) (by simp)
      · rename_i key hkey
        obtain ⟨t, hprocess, hphase', hpolls, hkeys, hpollfds, hio, htold, -⟩ :=
          process_told closed res haligned hkey
        cases hprocess.symm.trans h
        refine ⟨hio.trans ht.io, ?_, fun _ h => (by cases hphase'.symm.trans h), fun _ _ => ?_, ?_⟩
        · rw [hpolls]
          exact ht.polled
        · rw [Aligned, hpolls, hkeys, hpollfds]
          exact haligned
        · rw [hpolls]
          obtain htold | ⟨told, htold, hof⟩ := htold
          · rw [htold]
            exact ht.told
          · rw [htold]
            exact List.forall_mem_append.mpr ⟨ht.told, fun t hmem => List.mem_singleton.mp hmem ▸ hof⟩
    · cases h
  | recalc =>
    simp only [step] at h
    split at h
    · rename_i hphase
      cases h
      refine hquiet rfl rfl rfl (fun since h => ?_) (fun i h => ?_)
      · revert h
        simp only [recalc]
        split <;> intro h <;> cases h
      · revert h
        simp only [recalc]
        split <;> intro h <;> cases h
    · cases h

/-- **Whom the wait tells, and of what.** In every run, a dispatcher that is told has been polled under its
    key, is told by the `pollfd` that was made for it, and of nothing that it had not asked for then but a
    close; without `process_io` it is the Signaler. No index is out of range, a pass goes on to the next
    index until it has come to the end of what was polled, and of the dispatchers that are reported readable
    and are still there none is passed over. -/
theorem waitPoll_tells {processIo : Bool} {dispatchers : AList fun _ : Nat => PosixDispatcher}
    (h : Reaches WaitPoll.step Always (start cmsWait processIo dispatchers t₀) s) :
    (∀ told ∈ s.told, ToldOf s.polls told) ∧
    (∀ snapshot ∈ s.polls, ∀ kv ∈ snapshot, processIo = true ∨ kv.2.isWakeup = true) ∧
    ∀ i closed res, s.phase = .processing i → ∃ s', s.step (.process closed res) = some s' ∧
      s'.phase = (if i < s.currentDispatcherKeys.length then .processing (i + 1) else .recalculating) ∧
      s'.currentDispatcherKeys = s.currentDispatcherKeys ∧ s'.pollfds = s.pollfds ∧
      ∀ key pfd, s.currentDispatcherKeys[i]? = some key → s.pollfds[i]? = some pfd →
        meets pfd.revents Pollfd.pollIn = true → key ∈ s.dispatcherByKey →
        ∃ told, s'.told = s.told ++ [told] ∧ told.key = key ∧ told.pollfd = pfd := by
  have htells : Tells processIo s := h.invariant (fun _ _ _ _ hstep ht => tells_step hstep ht) (tells_start _ _ _ _)
  refine ⟨htells.told, htells.polled, fun i closed res hphase => ?_⟩
  cases hkey : s.currentDispatcherKeys[i]? with
  | none =>
    have hend : ¬i < s.currentDispatcherKeys.length := not_lt.mpr (List.getElem?_eq_none_iff.mp hkey)
    rw [if_neg hend]
    refine ⟨{ s with phase := .recalculating }, by simp only [step, hphase, hkey], rfl, rfl, rfl,
      fun _ _ h => ?_⟩
    cases h
  | some key =>
    obtain ⟨s', hprocess, hnext, -, hkeys, hpollfds, -, -, hreadable⟩ :=
      process_told closed res (htells.processing i hphase) hkey
    rw [if_pos (List.getElem?_eq_some_iff.mp hkey).1]
    refine ⟨s', by simp only [step, hphase, hkey]; exact hprocess, hnext, hkeys, hpollfds,
      fun key' pfd hkey' hpfd hin hthere => ?_⟩
    cases hkey'
    exact hreadable pfd hpfd hin hthere

/-- While the two are polled the socket is closed, and the next one that is opened has its descriptor. -/
def reusedDescriptorRun : List WaitPollAction :=
  [.poll, .table ((AList.singleton 11 (.other 5 deRead)).insert 7 (.wakeup 3)),
    .wake (.ready [Pollfd.pollIn, Pollfd.pollIn ||| Pollfd.pollHup]), .process false (.failed true),
    .process false (.value 0), .process false (.value 0), .tick 1000000, .recalc, .poll]

theorem waitPoll_tells_reusedDescriptor :
    ∃ s, Reaches WaitPoll.step Always (start 100 true twoDispatchers 5999999) s ∧ s.phase = .returned true ∧
      ∃ told, s.told = [told] ∧ told.key = 7 ∧ told.ff = deRead ∧ ToldOf s.polls told := by
  have hrun : (runWhile WaitPoll.step Always (start 100 true twoDispatchers 5999999) reusedDescriptorRun).map
      (fun s => (s.phase, s.told)) =
      some (.returned true, [⟨7, ⟨3, Pollfd.pollIn, Pollfd.pollIn⟩, deRead, 0⟩]) := by decide
  obtain ⟨s, hs, hfields⟩ := Option.map_eq_some_iff.mp hrun
  obtain ⟨hphase, htold⟩ := Prod.mk.inj hfields
  have hreach := runWhile_reaches hs
  obtain ⟨hof, -, -⟩ := waitPoll_tells hreach
  exact ⟨s, hreach, hphase, _, htold, rfl, rfl, hof _ (htold ▸ List.mem_singleton_self _)⟩

end WaitPoll

end IoBase
