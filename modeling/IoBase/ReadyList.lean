import IoBase.ArtificialRequest

/- The ready list that `ProcessSocketEvents` makes.

   The loop over `registrations_` takes each socket's record from Winsock, adds the
   artificial notification, and cuts the sum to the events the socket is armed for.
   What is left goes on the ready list, in the order of the registrations
   (`readyList_eq`). FD_CLOSE becomes POLLHUP, which stands for no event: the cut takes
   it away, and the record is gone.

   * `armed_sockets_ready`: which sockets armed for all three events are put on the list
     with what happened on them.
   * `fdClose_swallowed`: a socket on which nothing but FD_CLOSE happened.
   * `readyList_of_run`: the steps of the loop give this list, whatever the other threads
     and Winsock do in between. -/
namespace IoBase
open Transition State OrderedMap

variable {D : Type}

/-! ## The loop over `registrations_` -/

/-- The rest of the loop, all enumerations succeeding; `returned fd` is the record that
    `WSAEnumNetworkEvents` returns for `fd`. -/
def Sockets.enumerateAll (returned : Fd → NetworkEvents) :
    Sockets → List ReadyListEntry → List Fd → Sockets × List ReadyListEntry
  | s, readyList, [] => (s, readyList)
  | s, readyList, fd :: todo =>
    match { s with recorded := Function.update s.recorded fd (returned fd) }.enumerateSocket readyList fd true with
    | (s, readyList) => enumerateAll returned s readyList todo

/-- `ProcessSocketEvents`, up to the callbacks. -/
def Sockets.processSocketEvents (returned : Fd → NetworkEvents) (s : Sockets) :
    Sockets × List ReadyListEntry :=
  match s.registrations.keys with
  | [] => (s, [])
  | todo =>
    match s.enumerateAll returned [] todo with
    | (s, readyList) => ({ s with hasArtificialEventsPending := false }, readyList)

/-- The mask that `DispatchSocketEvent` is left with. -/
def dispatchedMask (networkEvents : NetworkEvents) (r : Registration) : BitVec 16 :=
  (toRevents networkEvents ||| (getPollMask r.artificiallyNotifyAtNextIteration).setWidth 16) &&&
    (getPollMask r.events).setWidth 16

/-- The entry for a socket, if there is one. -/
def readyEntry (networkEvents : NetworkEvents) (fd : Fd) (r : Registration) : Option ReadyListEntry :=
  if dispatchedMask networkEvents r = 0 then none
  else some ⟨fd, r.id, getEventMask ((dispatchedMask networkEvents r).signExtend 32)⟩

theorem fd_of_readyEntry {networkEvents : NetworkEvents} {fd : Fd} {r : Registration} {entry : ReadyListEntry}
    (h : readyEntry networkEvents fd r = some entry) : entry.fd = fd := by
  unfold readyEntry at h
  split at h
  · cases h
  · cases h
    rfl

/-- An enumeration adds the entry of its socket. -/
theorem enumerateSocket_readyList {s : Sockets} {readyList : List ReadyListEntry} {fd : Fd} :
    (s.enumerateSocket readyList fd true).2 =
      readyList ++ ((s.registrations.lookup fd).bind (readyEntry (s.recorded fd) fd)).toList := by
  unfold Sockets.enumerateSocket
  cases hr : s.registrations.lookup fd with
  | none => exact (List.append_nil _).symm
  | some r =>
    have hlookup : (modify fd (fun r => { r with artificiallyNotifyAtNextIteration := 0 })
        s.registrations).lookup fd = some { r with artificiallyNotifyAtNextIteration := 0 } := by
      rw [lookup_modify_of_lookup hr, if_pos rfl]
    simp only [Bool.not_true, Bool.false_eq_true, if_false, Option.bind_some, readyEntry]
    split
    · simp only [Sockets.dispatchSocketEvent, hlookup]
      split
      · rename_i hzero
        have hmask : dispatchedMask (s.recorded fd) r = 0 := hzero
        rw [if_pos hmask]
        exact (List.append_nil _).symm
      · rename_i hne
        have hmask : dispatchedMask (s.recorded fd) r ≠ 0 := hne
        rw [if_neg hmask]
        rfl
    · rename_i hzero
      have hmask : dispatchedMask (s.recorded fd) r = 0 := by
        unfold dispatchedMask
        rw [not_not.mp hzero]
        exact BitVec.zero_and
      rw [if_pos hmask]
      exact (List.append_nil _).symm

/-- An enumeration changes no other socket's registration. -/
theorem lookup_enumerateSocket_ne {s : Sockets} {readyList : List ReadyListEntry} {fd fd' : Fd} {enumOk : Bool}
    (hne : fd' ≠ fd) :
    (s.enumerateSocket readyList fd enumOk).1.registrations.lookup fd' = s.registrations.lookup fd' := by
  obtain ⟨f, -, hmodify⟩ := enumerateSocket_registrations s readyList fd enumOk
  rw [hmodify, lookup_modify_ne hne]

/-- The entries of the sockets `fds`, in their order, from the registrations `m`. -/
def readyEntries (returned : Fd → NetworkEvents) (m : Map Fd Registration) (fds : List Fd) :
    List ReadyListEntry :=
  fds.filterMap fun fd => (m.lookup fd).bind (readyEntry (returned fd) fd)

/-- Only the registrations of the sockets themselves matter, and the records returned for them. -/
theorem readyEntries_congr {returned returned' : Fd → NetworkEvents} {m m' : Map Fd Registration}
    {fds : List Fd} (hreturned : ∀ fd ∈ fds, returned fd = returned' fd)
    (hlookup : ∀ fd ∈ fds, m.lookup fd = m'.lookup fd) :
    readyEntries returned m fds = readyEntries returned' m' fds :=
  List.filterMap_congr fun fd hmem => by rw [hreturned fd hmem, hlookup fd hmem]

theorem readyEntries_cons {returned : Fd → NetworkEvents} {m : Map Fd Registration} {fd : Fd} {fds : List Fd} :
    readyEntries returned m (fd :: fds) =
      ((m.lookup fd).bind (readyEntry (returned fd) fd)).toList ++ readyEntries returned m fds := by
  unfold readyEntries
  rw [List.filterMap_cons]
  cases (m.lookup fd).bind (readyEntry (returned fd) fd) <;> rfl

theorem readyEntries_append {returned : Fd → NetworkEvents} {m : Map Fd Registration} {fds fds' : List Fd} :
    readyEntries returned m (fds ++ fds') = readyEntries returned m fds ++ readyEntries returned m fds' :=
  List.filterMap_append

theorem enumerateAll_readyList (returned : Fd → NetworkEvents) {todo : List Fd} (hnodup : todo.Nodup) :
    ∀ (s : Sockets) (readyList : List ReadyListEntry),
      (s.enumerateAll returned readyList todo).2 = readyList ++ readyEntries returned s.registrations todo := by
  induction todo with
  | nil => exact fun _ _ => (List.append_nil _).symm
  | cons fd todo ih =>
    intro s readyList
    obtain ⟨hfd, hrest⟩ := List.nodup_cons.mp hnodup
    simp only [Sockets.enumerateAll]
    rw [ih hrest, enumerateSocket_readyList, readyEntries_cons, List.append_assoc]
    simp only [Function.update_self]
    congr 2
    refine readyEntries_congr (fun _ _ => rfl) fun fd' hmem => ?_
    rw [lookup_enumerateSocket_ne]
    intro he
    exact hfd (he ▸ hmem)

/-- **The ready list** has an entry for each registration that has one, in their order. -/
theorem readyList_eq (returned : Fd → NetworkEvents) (s : Sockets) :
    (s.processSocketEvents returned).2 = readyEntries returned s.registrations s.registrations.keys := by
  unfold Sockets.processSocketEvents
  split
  · rename_i hnil
    rw [hnil]
    rfl
  · exact enumerateAll_readyList returned s.registrations.keys_nodup s []

/-- The entries of one socket in the ready list. -/
theorem readyEntries_filter {returned : Fd → NetworkEvents} {m : Map Fd Registration} {fds : List Fd} {fd : Fd}
    (hnodup : fds.Nodup) (hmem : fd ∈ fds) :
    (readyEntries returned m fds).filter (fun entry => entry.fd == fd) =
      ((m.lookup fd).bind (readyEntry (returned fd) fd)).toList := by
  have hfd : ∀ fd' entry, (m.lookup fd').bind (readyEntry (returned fd') fd') = some entry → entry.fd = fd' := by
    intro fd' entry h
    obtain ⟨r, -, hentry⟩ := Option.bind_eq_some_iff.mp h
    exact fd_of_readyEntry hentry
  have hothers : ∀ fds : List Fd, fd ∉ fds →
      (readyEntries returned m fds).filter (fun entry => entry.fd == fd) = [] := by
    intro fds hnot
    refine List.filter_eq_nil_iff.mpr fun entry hentry he => ?_
    obtain ⟨fd', hmem', hsome⟩ := List.mem_filterMap.mp hentry
    rw [hfd fd' entry hsome, beq_iff_eq] at he
    exact hnot (he ▸ hmem')
  induction fds with
  | nil => cases hmem
  | cons fd' fds ih =>
    obtain ⟨hnot, hrest⟩ := List.nodup_cons.mp hnodup
    rw [readyEntries_cons, List.filter_append]
    by_cases he : fd' = fd
    · subst he
      rw [hothers fds hnot, List.append_nil, List.filter_eq_self]
      intro entry hentry
      rw [beq_iff_eq]
      exact hfd fd' entry (Option.mem_toList.mp hentry)
    · have hnone : ((m.lookup fd').bind (readyEntry (returned fd') fd')).toList.filter
          (fun entry => entry.fd == fd) = [] := by
        refine List.filter_eq_nil_iff.mpr fun entry hentry h => ?_
        rw [hfd fd' entry (Option.mem_toList.mp hentry), beq_iff_eq] at h
        exact he h
      rw [hnone, List.nil_append]
      exact ih hrest (List.mem_of_ne_of_mem (Ne.symm he) hmem)

/-! ## The masks -/

/-- The network events that stand for an event of the loop's. -/
def fdEvents : NetMask := fdRead ||| fdWrite ||| fdAccept ||| fdConnect

/-- What a record without any of them becomes is POLLHUP at most, which no socket is armed for. -/
theorem toRevents_of_not_meets {networkEvents : NetworkEvents} {armed : EventMask}
    (h : ¬meets networkEvents.lNetworkEvents fdEvents = true) :
    toRevents networkEvents &&& (getPollMask armed).setWidth 16 = 0 := by
  simp only [fdEvents, meets_bits, not_or] at h
  obtain ⟨⟨⟨hread, hwrite⟩, haccept⟩, hconnect⟩ := h
  have harmed : Within ((getPollMask armed).setWidth 16) (pollEvents.setWidth 16) :=
    (getPollMask_within armed).setWidth
  have hhup : pollHup.setWidth 16 &&& pollEvents.setWidth 16 = 0 := by decide
  unfold Within at harmed
  rw [toRevents, ← harmed, BitVec.and_comm ((getPollMask armed).setWidth 16), ← BitVec.and_assoc,
    if_neg hread, if_neg hwrite, if_neg haccept, if_neg hconnect]
  split
  · simp [hhup]
  · simp

/-! ## One socket -/

/-- A network event is recorded, or an artificial notification is pending. -/
def Happened (networkEvents : NetworkEvents) (r : Registration) : Prop :=
  meets networkEvents.lNetworkEvents (fdEvents ||| fdClose) = true ∨ r.artificiallyNotifyAtNextIteration ≠ 0

/-- The list has one entry for the socket, with the notifications it is armed for and with what is
    recorded. -/
def OnReadyList (readyList : List ReadyListEntry) (networkEvents : NetworkEvents) (fd : Fd) (r : Registration) :
    Prop :=
  ∃ entry, readyList.filter (fun entry => entry.fd == fd) = [entry] ∧ entry.registration = r.id ∧
    Within (r.artificiallyNotifyAtNextIteration &&& r.events) entry.events ∧
    (meets networkEvents.lNetworkEvents (fdRead ||| fdAccept) = true → Within kEventReadable entry.events) ∧
    (meets networkEvents.lNetworkEvents (fdWrite ||| fdConnect) = true → Within kEventWritable entry.events)

/-- What happened on the socket stands for events. -/
def Reported (networkEvents : NetworkEvents) (r : Registration) : Prop :=
  (meets networkEvents.lNetworkEvents fdEvents = true ∨
    meets r.artificiallyNotifyAtNextIteration allEvents = true) ∧
  Within (r.artificiallyNotifyAtNextIteration &&& r.events) allEvents

theorem dispatched_readable {networkEvents : NetworkEvents} {r : Registration}
    (harmed : Within allEvents r.events) (h : meets networkEvents.lNetworkEvents (fdRead ||| fdAccept) = true) :
    dispatchedMask networkEvents r ≠ 0 ∧
      Within kEventReadable (getEventMask ((dispatchedMask networkEvents r).signExtend 32)) := by
  refine within_dispatched (by decide) (by decide) ?_ (Within.trans (by decide) harmed)
  refine Within.or_left ?_
  have hin : (getPollMask kEventReadable).setWidth 16 = pollIn.setWidth 16 := by decide
  rw [hin, toRevents]
  rcases meets_bits.mp h with hread | haccept
  · rw [if_pos hread]
    exact Within.refl.or_left.or_left.or_left.or_left
  · rw [if_pos haccept]
    exact Within.refl.or_right.or_left

theorem dispatched_writable {networkEvents : NetworkEvents} {r : Registration}
    (harmed : Within allEvents r.events) (h : meets networkEvents.lNetworkEvents (fdWrite ||| fdConnect) = true) :
    dispatchedMask networkEvents r ≠ 0 ∧
      Within kEventWritable (getEventMask ((dispatchedMask networkEvents r).signExtend 32)) := by
  refine within_dispatched (by decide) (by decide) ?_ (Within.trans (by decide) harmed)
  refine Within.or_left ?_
  have hout : (getPollMask kEventWritable).setWidth 16 = pollOut.setWidth 16 := by decide
  rw [hout, toRevents]
  rcases meets_bits.mp h with hwrite | hconnect
  · rw [if_pos hwrite]
    exact Within.refl.or_right.or_left.or_left.or_left
  · rw [if_pos hconnect]
    exact Within.refl.or_left.or_right

/-- The notifications a socket is armed for come through. -/
theorem dispatched_artificial {networkEvents : NetworkEvents} {r : Registration}
    (hne : r.artificiallyNotifyAtNextIteration &&& r.events ≠ 0)
    (hkinds : Within (r.artificiallyNotifyAtNextIteration &&& r.events) allEvents) :
    dispatchedMask networkEvents r ≠ 0 ∧
      Within (r.artificiallyNotifyAtNextIteration &&& r.events)
        (getEventMask ((dispatchedMask networkEvents r).signExtend 32)) := by
  refine within_dispatched hne hkinds (getPollMask_mono ?_).setWidth.or_right Within.and_right
  rw [BitVec.and_comm]
  exact Within.and_right

theorem dispatchedMask_eq_zero {networkEvents : NetworkEvents} {r : Registration}
    (hnet : ¬meets networkEvents.lNetworkEvents fdEvents = true)
    (hartificial : ¬meets r.artificiallyNotifyAtNextIteration allEvents = true) :
    dispatchedMask networkEvents r = 0 := by
  simp only [allEvents, meets_bits, not_or] at hartificial
  obtain ⟨⟨hreadable, hwritable⟩, herror⟩ := hartificial
  have hpoll : getPollMask r.artificiallyNotifyAtNextIteration = 0 := by
    rw [getPollMask, if_neg hreadable, if_neg hwritable, if_neg herror]
    rfl
  rw [dispatchedMask, hpoll, BitVec.and_or_distrib_right, toRevents_of_not_meets hnet]
  simp

/-- A socket armed for all three events is scheduled if what happened on it stands for events. -/
theorem onReadyList_iff {returned : Fd → NetworkEvents} {s : Sockets} {fd : Fd} {r : Registration}
    (hr : s.registrations.lookup fd = some r) (harmed : Within allEvents r.events) :
    OnReadyList (s.processSocketEvents returned).2 (returned fd) fd r ↔ Reported (returned fd) r := by
  have hmem : fd ∈ s.registrations.keys := AList.mem_keys.mp (AList.lookup_isSome.mp (by rw [hr]; rfl))
  have hone : (s.processSocketEvents returned).2.filter (fun entry => entry.fd == fd) =
      (readyEntry (returned fd) fd r).toList := by
    rw [readyList_eq, readyEntries_filter s.registrations.keys_nodup hmem, hr, Option.bind_some]
  unfold OnReadyList
  rw [hone, readyEntry]
  constructor
  · intro hx
    obtain ⟨entry, hentry, -, hart, -, -⟩ := hx
    split at hentry
    · cases hentry
    · rename_i hmask
      cases hentry
      refine ⟨?_, hart.trans (getEventMask_within _)⟩
      by_contra hnone
      rw [not_or] at hnone
      exact hmask (dispatchedMask_eq_zero hnone.1 hnone.2)
  · intro hx
    obtain ⟨hevents, hkinds⟩ := hx
    have hmask : dispatchedMask (returned fd) r ≠ 0 := by
      rcases hevents with hnet | hart
      · have hcases : meets (returned fd).lNetworkEvents (fdRead ||| fdAccept) = true ∨
            meets (returned fd).lNetworkEvents (fdWrite ||| fdConnect) = true := by
          simp only [fdEvents, meets_bits] at hnet ⊢
          tauto
        rcases hcases with hin | hout
        · exact (dispatched_readable harmed hin).1
        · exact (dispatched_writable harmed hout).1
      · refine (dispatched_artificial ?_ hkinds).1
        intro hzero
        have hnone : r.artificiallyNotifyAtNextIteration &&& allEvents = 0 := by
          unfold Within at harmed
          rw [← harmed, BitVec.and_comm allEvents, ← BitVec.and_assoc, hzero]
          exact BitVec.zero_and
        exact absurd hart (by rw [meets_eq_false.mpr hnone]; simp)
    rw [if_neg hmask]
    refine ⟨_, rfl, rfl, ?_, fun hin => (dispatched_readable harmed hin).2,
      fun hout => (dispatched_writable harmed hout).2⟩
    by_cases hzero : r.artificiallyNotifyAtNextIteration &&& r.events = 0
    · rw [hzero]
      exact Within.zero
    · exact (dispatched_artificial hzero hkinds).2

/-- **No event is swallowed**: every socket that is armed for all three events and on which something
    happened is put on the ready list once, with what happened, exactly if that is not FD_CLOSE alone
    and no notification of an unknown event. -/
theorem armed_sockets_ready (returned : Fd → NetworkEvents) (s : Sockets) :
    (∀ fd r, s.registrations.lookup fd = some r → Within allEvents r.events → Happened (returned fd) r →
      OnReadyList (s.processSocketEvents returned).2 (returned fd) fd r) ↔
    (∀ fd r, s.registrations.lookup fd = some r → Within allEvents r.events → Happened (returned fd) r →
      Reported (returned fd) r) := by
  constructor
  · intro h fd r hr harmed hhappened
    exact (onReadyList_iff hr harmed).mp (h fd r hr harmed hhappened)
  · intro h fd r hr harmed hhappened
    exact (onReadyList_iff hr harmed).mpr (h fd r hr harmed hhappened)

/-- FD_CLOSE, and nothing else, is recorded on a socket armed for all three events. -/
theorem fdClose_swallowed :
    ¬∀ (s : State Ticks) (returned : Fd → NetworkEvents), Reachable s →
      ∀ fd r, s.sockets.registrations.lookup fd = some r → Within allEvents r.events →
        Happened (returned fd) r →
        OnReadyList (s.sockets.processSocketEvents returned).2 (returned fd) fd r := by
  intro hclaim
  have hrun : (runWhile step Always (State.init : State Ticks)
      [.begin, .socket (.register 1 allEvents 7 true)]).isSome = true := by decide
  have hlisted := hclaim _ (fun _ => ⟨fdClose, 0⟩) (reaches_get hrun) 1 ⟨0, allEvents, some 7, 0⟩
    rfl (by decide) (.inl (by decide))
  have hreported := ((onReadyList_iff rfl (by decide)).mp hlisted).1
  exact absurd hreported (by decide)

/-! ## The steps of the loop -/

/-- The loop thread is in the loop over `registrations_`, and no enumeration fails. -/
def InReadyLoop (w : WaitResult) (fs : List (Frame D)) (s : State D) (a : Action D) : Prop :=
  (∃ todo readyList, s.stack = .enumerating w todo readyList :: fs) ∧ ∀ o, a = .loop o → o.enumOk = true

/-- How far the loop has come: the sockets `done` are on the list as far as they have an entry, and the
    registrations of the others are as they were. -/
structure ReadySoFar (w : WaitResult) (fs : List (Frame D)) (m : Map Fd Registration)
    (returned : Fd → NetworkEvents) (done todo : List Fd) (s : State D) : Prop where
  keys : m.keys = done ++ todo
  same : ∀ fd ∈ todo, s.sockets.registrations.lookup fd = m.lookup fd
  stack : s.stack = .enumerating w todo (readyEntries returned m done) :: fs ∨
    todo = [] ∧ s.stack = .callbacks w (readyEntries returned m done) :: fs

variable [AbslDuration D]

theorem readySoFar_step {w : WaitResult} {fs : List (Frame D)} {m : Map Fd Registration}
    {returned : Fd → NetworkEvents} {done todo : List Fd} {s s' : State D} {a : Action D} (hc : Control s)
    (hok : InReadyLoop w fs s a) (h : step s a = some s') (hr : ReadySoFar w fs m returned done todo s) :
    ∃ returned' done' todo', ReadySoFar w fs m returned' done' todo' s' := by
  have hstack : s.stack = .enumerating w todo (readyEntries returned m done) :: fs := by
    rcases hr.stack with hstack | ⟨-, hstack⟩
    · exact hstack
    · obtain ⟨⟨todo', readyList, hin⟩, -⟩ := hok
      cases hstack.symm.trans hin
  have hnotUser : s.inUserCode = false := by
    rw [inUserCode, hstack]
    rfl
  have hnotCall : s.mayCall loopThread = true → False := by
    intro hm
    rw [(mayCall_iff.mp hm).2 rfl] at hnotUser
    cases hnotUser
  have hkeep : s'.sockets.registrations = s.sockets.registrations → s'.stack = s.stack →
      ∃ returned' done' todo', ReadySoFar w fs m returned' done' todo' s' := by
    intro hregistrations hsame
    refine ⟨returned, done, todo, hr.keys, fun fd hmem => ?_, ?_⟩
    · rw [hregistrations]
      exact hr.same fd hmem
    · rw [hsame]
      exact hr.stack
  cases step_cases h with
  | begin | wakeUp | arrive | expire | tick => exact hkeep rfl rfl
  | call hm he => rw [enter_frame he] at hkeep ⊢; exact hkeep rfl rfl
  | resume hres =>
    refine hkeep (by rw [resume_frame hres]) ?_
    rcases resume_stack_cases hc hres with hsame | ⟨c, -, -, huser, -⟩
    · exact hsame
    · rw [hnotUser] at huser
      cases huser
  | runEventLoopOnce hm | processPendingTasks hm | socket hm => exact absurd hm hnotCall
  | @loop o f fs' _ hout hs hf =>
    cases hs.symm.trans hstack
    cases framed hf with
    | enumerated => exact ⟨returned, done, [], hr.keys, hr.same, .inr ⟨rfl, rfl⟩⟩
    | @enumerate _ fd todo =>
      have hnodup : (done ++ fd :: todo).Nodup := hr.keys ▸ m.keys_nodup
      obtain ⟨-, hrest, hdisjoint⟩ := List.nodup_append.mp hnodup
      obtain ⟨hnot, -⟩ := List.nodup_cons.mp hrest
      refine ⟨Function.update returned fd (s.sockets.recorded fd), done ++ [fd], todo, ?_, ?_, .inl ?_⟩
      · rw [hr.keys, List.append_assoc]
        rfl
      · intro fd' hmem
        rw [← hr.same fd' (List.mem_cons_of_mem fd hmem)]
        refine lookup_enumerateSocket_ne fun he => ?_
        exact hnot (he ▸ hmem)
      · have hdone : readyEntries (Function.update returned fd (s.sockets.recorded fd)) m done =
            readyEntries returned m done := by
          refine readyEntries_congr (fun fd' hmem => Function.update_of_ne ?_ _ _) fun _ _ => rfl
          exact hdisjoint fd' hmem fd List.mem_cons_self
        rw [readyEntries_append, hdone, readyEntries_cons, Function.update_self, hok.2 o rfl,
          enumerateSocket_readyList, hr.same fd List.mem_cons_self]
        exact congrArg (fun l => Frame.enumerating w todo l :: fs) (by simp [readyEntries])

/-- **The steps of the loop give the ready list** of `processSocketEvents`, whatever happens between
    them. -/
theorem readyList_of_run {w : WaitResult} {fs : List (Frame D)} {s₀ s : State D}
    {readyList : List ReadyListEntry} (hc : Control s₀)
    (hstart : s₀.stack = .enumerating w s₀.sockets.registrations.keys [] :: fs)
    (h : Reaches step (InReadyLoop w fs) s₀ s) (hend : s.stack = .callbacks w readyList :: fs) :
    ∃ returned, readyList = (s₀.sockets.processSocketEvents returned).2 := by
  have hreach : Control s ∧ ∃ returned done todo,
      ReadySoFar w fs s₀.sockets.registrations returned done todo s := by
    refine h.invariant (P := fun s => Control s ∧ ∃ returned done todo,
      ReadySoFar w fs s₀.sockets.registrations returned done todo s) ?_ ⟨hc, fun _ => .none, [], _, rfl,
        fun _ _ => rfl, .inl hstart⟩
    intro s a s' hok hstep hp
    obtain ⟨hc, returned, done, todo, hr⟩ := hp
    exact ⟨control_step hc hstep, readySoFar_step hc hok hstep hr⟩
  obtain ⟨-, returned, done, todo, hr⟩ := hreach
  refine ⟨returned, ?_⟩
  rcases hr.stack with hstack | ⟨rfl, hstack⟩
  · cases hstack.symm.trans hend
  · cases hstack.symm.trans hend
    rw [readyList_eq, hr.keys, List.append_nil]

end IoBase
