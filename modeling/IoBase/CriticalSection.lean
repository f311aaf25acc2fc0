import IoBase.LockSimulation

/- What a `RecursiveCriticalSection` guarantees its callers, on POSIX.

   All of it holds in every run in which a thread leaves the section no more often than it
   has entered it, for any number of threads, and what it rests on is the reentrant lock that
   the section stands for (`follows_run`).

   * `section_exclusive`: one owner at a time, and no check ever fails.
   * `lockQueue_counts`: `lock_queue_` is the number of times the lock has been locked and of
     the threads waiting, and the semaphore counts to 1 at most.
   * `handed_over_once`: a lock that is left to waiting threads is signaled once.
   * `tryEnter_refused_iff`: when `TryEnter` fails.
   * `section_progress`: no deadlock; `call_steps`: how long a call can take. -/
namespace IoBase
open Transition ReentrantLock

namespace RecursiveCriticalSection
variable {T : Type} [DecidableEq T] {impl : LockImpl} {s s' : RecursiveCriticalSection T} {i : T}

/-- **One owner.** No two threads have the section at once, calls in progress counted, and none of the
    checks of `Enter`, `TryEnter` and `Leave` fails. -/
theorem section_exclusive (h : Run impl s) :
    (∀ i j, 0 < s.depth i → 0 < s.depth j → i = j) ∧ s.failed = [] := by
  obtain ⟨l, -, hfollows⟩ := follows_run h
  refine ⟨fun i j hi hj => ?_, hfollows.checked⟩
  rw [hfollows.depth] at hi hj
  exact l.owner_unique hi hj

/-- Thread 0 enters twice; then thread 1, which makes one pass, waits. -/
def contended : List (LockAction Nat) :=
  .enter 0 :: List.replicate 7 (.resume 0) ++ .enter 0 :: List.replicate 6 (.resume 0) ++
    .enter 1 :: List.replicate 5 (.resume 1)

theorem section_exclusive_contended :
    ∃ s : RecursiveCriticalSection Nat, Run (.semaphore 1) s ∧ s.depth 0 = 2 ∧ s.pcs 1 = .waiting ∧
      (∀ i j, 0 < s.depth i → 0 < s.depth j → i = j) ∧ s.failed = [] := by
  have hrun : (runWhile (step (.semaphore 1)) LeavesHeld init contended).isSome = true := by decide
  exact ⟨_, reaches_get hrun, rfl, rfl, section_exclusive (reaches_get hrun)⟩

/-- The threads that `lock_queue_` counts as waiting. -/
def Waits (s : RecursiveCriticalSection T) (i : T) : Prop := s.pcs i = .beforeWait ∨ s.pcs i = .waiting

omit [DecidableEq T] in
theorem queued_iff : (s.place i).queued = true ↔ s.Waits i := by
  rw [place, Waits]
  cases s.pcs i <;> simp [LockPc.place]

/-- **The count of `lock_queue_`** is the number of times the lock has been locked plus the number of
    threads that wait for it, and the semaphore never counts to more than 1. -/
theorem lockQueue_counts {spin : Nat} (h : Run (.semaphore spin) s) :
    s.semaphore ≤ 1 ∧ ∃ waiting : List T, waiting.Nodup ∧ (∀ i, i ∈ waiting ↔ s.Waits i) ∧
      ((∃ i, 0 < s.depth i ∧ s.lockQueue = s.depth i + waiting.length) ∨
        (∀ i, s.depth i = 0) ∧ s.lockQueue = waiting.length) := by
  obtain ⟨l, -, hfollows⟩ := follows_run h
  obtain ⟨hqueue, -, -, hbaton⟩ := hfollows.fields.semaphore rfl
  refine ⟨?_, l.waiting, l.nodup, fun i => (hfollows.queued i).symm.trans queued_iff, ?_⟩
  · rw [Baton] at hbaton
    split at hbaton <;> omega
  · rw [hqueue, Lock.count]
    cases hhold : l.hold with
    | held i again =>
      have hdepth : s.depth i = again + 1 := by rw [hfollows.depth, hhold, Hold.depth, if_pos rfl]
      refine .inl ⟨i, by omega, ?_⟩
      rw [hdepth]
      rfl
    | _ =>
      refine .inr ⟨fun i => ?_, ?_⟩
      · rw [hfollows.depth, hhold]
        rfl
      · exact congrArg Nat.cast (Nat.zero_add _)

theorem lockQueue_counts_contended :
    ∃ s : RecursiveCriticalSection Nat, Run (.semaphore 1) s ∧ s.lockQueue = 3 ∧ s.semaphore ≤ 1 ∧
      ∃ waiting : List Nat, waiting.Nodup ∧ (∀ i, i ∈ waiting ↔ s.Waits i) ∧
        ((∃ i, 0 < s.depth i ∧ s.lockQueue = s.depth i + waiting.length) ∨
          (∀ i, s.depth i = 0) ∧ s.lockQueue = waiting.length) := by
  have hrun : (runWhile (step (.semaphore 1)) LeavesHeld init contended).isSome = true := by decide
  exact ⟨_, reaches_get hrun, rfl, lockQueue_counts (reaches_get hrun)⟩

/-- `Leave` has left the lock to the waiting threads, and its signal is still to come. -/
def ToSignal (s : RecursiveCriticalSection T) (i : T) : Prop :=
  s.pcs i = .signal ∨ s.pcs i = .readRecursion ∧ s.recursion = 0

theorem Follows.toSignal_iff {l : Lock T} (h : Follows impl s l) : s.ToSignal i ↔ s.Releasing l.hold i := by
  have hdepth := h.depth i
  constructor
  · intro hsignal
    rcases hsignal with hpc | ⟨hpc, hzero⟩
    · rw [RecursiveCriticalSection.depth, place, hpc, (h.placed i).outermost (by rw [hpc]; rfl)] at hdepth
      exact ⟨by rw [place, hpc]; rfl, hdepth.symm⟩
    · refine ⟨by rw [place, hpc]; rfl, ?_⟩
      by_contra hpos
      obtain ⟨again, hhold⟩ := Lock.held_of_depth (Nat.pos_of_ne_zero hpos)
      have hrecursion := h.recursion_eq ((h.placed i).semaphore (by rw [hpc]; rfl)) hhold
      rw [hpc] at hrecursion
      have hone : s.recursion = again + 1 := hrecursion
      omega
  · intro hreleasing
    obtain ⟨hplace, hzero⟩ := hreleasing
    rw [place] at hplace
    cases hpc : s.pcs i with
    | signal => exact .inl hpc
    | readRecursion =>
      refine .inr ⟨hpc, ?_⟩
      obtain ⟨-, hrecursion, -, hbaton⟩ := h.fields.semaphore ((h.placed i).semaphore (by rw [hpc]; rfl))
      have hover : l.hold = .handedOver := by
        by_contra hne
        rw [Baton, if_neg hne] at hbaton
        exact hbaton.2 i ⟨by rw [place, hpc]; rfl, hzero⟩
      rw [hrecursion, hover]
      rfl
    | _ =>
      rw [hpc] at hplace
      cases hplace

/-- Nobody has the lock, and threads wait for it. -/
def LeftToOthers (s : RecursiveCriticalSection T) : Prop := (∀ i, s.depth i = 0) ∧ ∃ i, s.Waits i

/-- **A lock that is left to others is handed over once.** While threads wait and nobody has the lock,
    the semaphore has been signaled or exactly one thread is to signal it, and not both; at any other
    time there is no signal. -/
theorem handed_over_once {spin : Nat} (h : Run (.semaphore spin) s) :
    (s.LeftToOthers → s.semaphore = 1 ∧ (∀ i, ¬s.ToSignal i) ∨
      s.semaphore = 0 ∧ ∃ i, s.ToSignal i ∧ ∀ j, s.ToSignal j → j = i) ∧
    (¬s.LeftToOthers → s.semaphore = 0 ∧ ∀ i, ¬s.ToSignal i) := by
  obtain ⟨l, -, hfollows⟩ := follows_run h
  have hbaton := (hfollows.fields.semaphore rfl).baton
  have hover : l.hold = .handedOver ↔ s.LeftToOthers := by
    constructor
    · intro hover
      refine ⟨fun i => ?_, ?_⟩
      · rw [hfollows.depth, hover]
        rfl
      · obtain ⟨i, hi⟩ := List.exists_mem_of_ne_nil _ (l.waiting_of_handedOver hover)
        exact ⟨i, queued_iff.mp ((hfollows.queued i).mpr hi)⟩
    · intro hidle
      obtain ⟨hnobody, i, hi⟩ := hidle
      cases hhold : l.hold with
      | free =>
        have hmem := (hfollows.queued i).mp (queued_iff.mpr hi)
        rw [l.waiting_of_free hhold] at hmem
        cases hmem
      | held j again =>
        have hdepth := hnobody j
        rw [hfollows.depth, hhold, Hold.depth, if_pos rfl] at hdepth
        cases hdepth
      | handedOver => rfl
  simp only [Baton, ← hfollows.toSignal_iff] at hbaton
  split at hbaton
  · rename_i hleft
    exact ⟨fun _ => hbaton, fun hne => absurd (hover.mp hleft) hne⟩
  · rename_i hne
    exact ⟨fun hleft => absurd (hover.mpr hleft) hne, fun _ => hbaton⟩

/-- Thread 0 leaves twice, and is about to signal the semaphore for thread 1. -/
theorem handed_over_once_contended :
    ∃ s : RecursiveCriticalSection Nat, Run (.semaphore 1) s ∧ s.pcs 0 = .signal ∧ s.LeftToOthers ∧
      (s.semaphore = 1 ∧ (∀ i, ¬s.ToSignal i) ∨
        s.semaphore = 0 ∧ ∃ i, s.ToSignal i ∧ ∀ j, s.ToSignal j → j = i) := by
  have hrun : (runWhile (step (.semaphore 1)) LeavesHeld init (contended ++
      .leave 0 :: List.replicate 8 (.resume 0) ++ .leave 0 :: List.replicate 8 (.resume 0))).isSome = true := by
    decide
  obtain ⟨s, hreach, hsignal, hdepth, hwaits⟩ : ∃ s : RecursiveCriticalSection Nat, Run (.semaphore 1) s ∧
      s.pcs 0 = .signal ∧ (∀ i, s.depth i = 0) ∧ s.pcs 1 = .waiting :=
    ⟨_, reaches_get hrun, rfl, fun i => match i with | 0 => rfl | 1 => rfl | _ + 2 => rfl, rfl⟩
  have hleft : s.LeftToOthers := ⟨hdepth, 1, .inr hwaits⟩
  exact ⟨s, hreach, hsignal, hleft, (handed_over_once hreach).1 hleft⟩

/-- **When `TryEnter` fails**: exactly when another thread has the section or waits for it, as the thread
    comes to the swap of `lock_queue_` or to the native mutex. -/
theorem tryEnter_refused_iff (h : Run impl s) (hpc : s.pcs i = .trySwap ∨ s.pcs i = .mutexTryLock)
    (hstep : step impl s (.resume i) = some s') :
    s'.pcs i = .outside ↔ ∃ j, j ≠ i ∧ (0 < s.depth j ∨ s.Waits j) := by
  obtain ⟨l, -, hfollows⟩ := follows_run h
  have hplaced := hfollows.placed i
  have hdepth := hfollows.depth i
  have hwaits : ∀ j, s.Waits j → j ≠ i := by
    intro j hj hji
    rw [hji, Waits] at hj
    rcases hpc with hpc | hpc <;> rw [hpc] at hj <;> rcases hj with hj | hj <;> cases hj
  rcases hpc with hpc | hpc
  · have hn := hplaced.semaphore (by rw [hpc]; rfl)
    have houter := hplaced.outermost (by rw [hpc]; rfl)
    rw [depth, place, hpc, houter] at hdepth
    -- the lock is taken exactly when somebody else has it or waits
    have htaken : s.lockQueue ≠ 0 ↔ ∃ j, j ≠ i ∧ (0 < s.depth j ∨ s.Waits j) := by
      rw [Ne, hfollows.lockQueue_eq_zero hn]
      constructor
      · intro htaken
        cases hhold : l.hold with
        | free => exact absurd hhold htaken
        | held j again =>
          refine ⟨j, fun hji => ?_, .inl ?_⟩
          · rw [hhold, hji, Hold.depth, if_pos rfl] at hdepth
            cases hdepth
          · rw [hfollows.depth, hhold, Hold.depth, if_pos rfl]
            exact Nat.succ_pos again
        | handedOver =>
          obtain ⟨j, hj⟩ := List.exists_mem_of_ne_nil _ (l.waiting_of_handedOver hhold)
          have hj := queued_iff.mp ((hfollows.queued j).mpr hj)
          exact ⟨j, hwaits j hj, .inr hj⟩
      · intro hother hfree
        obtain ⟨j, -, hj | hj⟩ := hother
        · rw [hfollows.depth, hfree] at hj
          cases hj
        · have hmem := (hfollows.queued j).mp (queued_iff.mpr hj)
          rw [l.waiting_of_free hfree] at hmem
          cases hmem
    simp only [step, resume, hpc] at hstep
    rw [← htaken]
    split at hstep
    · rename_i hzero
      cases hstep
      rw [goto_pcs_self]
      exact ⟨fun h => (by cases h), fun hne => absurd hzero hne⟩
    · rename_i hne
      cases hstep
      rw [goto_pcs_self]
      exact ⟨fun _ => hne, fun _ => rfl⟩
  · have hn := hplaced.native (by rw [hpc]; rfl)
    have hmutex := hfollows.fields.native hn
    have hnowait : ∀ j, ¬s.Waits j := by
      intro j hj
      have hsem := (hfollows.placed j).semaphore (by rcases hj with hj | hj <;> rw [hj] <;> rfl)
      rw [hn] at hsem
      cases hsem
    -- the mutex is locked exactly when somebody else has the lock
    have htaken : s.lockMutex i = none ↔ ∃ j, j ≠ i ∧ (0 < s.depth j ∨ s.Waits j) := by
      cases hhold : l.hold with
      | held j again =>
        rw [hhold] at hmutex
        have hlock : s.lockMutex i = if j = i then some { s with mutex := some (i, again + 1 + 1) } else none := by
          rw [lockMutex, hmutex]
          rfl
        rw [hlock]
        split
        · rename_i hji
          refine ⟨fun h => (by cases h), fun hother => ?_⟩
          obtain ⟨k, hk, hdepth | hwait⟩ := hother
          · rw [hfollows.depth, hhold, hji, Hold.depth, if_neg (Ne.symm hk)] at hdepth
            cases hdepth
          · exact absurd hwait (hnowait k)
        · rename_i hji
          refine ⟨fun _ => ⟨j, hji, .inl ?_⟩, fun _ => rfl⟩
          rw [hfollows.depth, hhold, Hold.depth, if_pos rfl]
          exact Nat.succ_pos again
      | _ =>
        rw [hhold] at hmutex
        have hlock : s.lockMutex i = some { s with mutex := some (i, 1) } := by
          rw [lockMutex, hmutex]
          rfl
        rw [hlock]
        refine ⟨fun h => (by cases h), fun hother => ?_⟩
        obtain ⟨k, -, hdepth | hwait⟩ := hother
        · rw [hfollows.depth, hhold] at hdepth
          cases hdepth
        · exact absurd hwait (hnowait k)
    simp only [step, resume, hpc] at hstep
    cases hstep
    rw [← htaken]
    cases hlock : s.lockMutex i with
    | none =>
      rw [Option.elim_none, goto_pcs_self]
      exact ⟨fun _ => rfl, fun _ => rfl⟩
    | some t =>
      rw [Option.elim_some, goto_pcs_self]
      exact ⟨fun h => (by cases h), fun h => (by cases h)⟩

theorem tryEnter_refused_contended :
    ∃ s s' : RecursiveCriticalSection Nat, Run (.semaphore 1) s ∧ s.pcs 2 = .trySwap ∧
      step (.semaphore 1) s (.resume 2) = some s' ∧ s'.pcs 2 = .outside ∧
      ∃ j, j ≠ 2 ∧ (0 < s.depth j ∨ s.Waits j) := by
  have hrun : (runWhile (step (.semaphore 1)) LeavesHeld init
      (contended ++ [.tryEnter 2, .resume 2])).isSome = true := by decide
  obtain ⟨s, hreach, hpc, hqueue⟩ : ∃ s : RecursiveCriticalSection Nat, Run (.semaphore 1) s ∧
      s.pcs 2 = .trySwap ∧ s.lockQueue = 3 := ⟨_, reaches_get hrun, rfl, rfl⟩
  have hstep : step (.semaphore 1) s (.resume 2) = some (s.goto 2 .outside) := by
    simp [step, resume, hpc, hqueue]
  refine ⟨s, _, hreach, hpc, hstep, goto_pcs_self s 2 .outside, ?_⟩
  exact (tryEnter_refused_iff hreach (.inl hpc) hstep).mp (goto_pcs_self s 2 .outside)

/-! ## Progress -/

/-- The thread is blocked: the semaphore is not signaled, or another thread has the native mutex. -/
theorem blocked_cases (hpc : s.pcs i ≠ .outside) (hstep : s.resume impl i = none) :
    s.pcs i = .waiting ∧ s.semaphore = 0 ∨ s.pcs i = .mutexLock ∧ s.lockMutex i = none := by
  cases hat : s.pcs i with
  | outside => exact absurd hat hpc
  | waiting =>
    simp only [resume, hat] at hstep
    split at hstep
    · cases hstep
    · rename_i hzero
      exact .inl ⟨rfl, Nat.eq_zero_of_not_pos hzero⟩
  | mutexLock =>
    simp only [resume, hat, Option.map_eq_none_iff] at hstep
    exact .inr ⟨rfl, hstep⟩
  | swapQueue spin | trySwap | noteOwner =>
    simp only [resume, hat] at hstep
    split at hstep <;> cases hstep
  | _ =>
    simp only [resume, hat] at hstep
    cases hstep

/-- **No deadlock.** While a thread is in one of the functions, a thread that is in one of them can take
    its next step, or the section belongs to a thread that is in none of them. -/
theorem section_progress (h : Run impl s) (hin : s.pcs i ≠ .outside) :
    (∃ j, s.pcs j ≠ .outside ∧ (step impl s (.resume j)).isSome = true) ∨
      ∃ j, s.pcs j = .outside ∧ 0 < s.held j := by
  obtain ⟨l, -, hfollows⟩ := follows_run h
  by_contra hstuck
  obtain ⟨hnone, hnobody⟩ := not_or.mp hstuck
  have hblocked : ∀ j, s.pcs j ≠ .outside → s.pcs j = .waiting ∧ s.semaphore = 0 ∨
      s.pcs j = .mutexLock ∧ s.lockMutex j = none := by
    intro j hj
    refine blocked_cases hj (?_ : s.resume impl j = none)
    by_contra hsome
    exact hnone ⟨j, hj, Option.isSome_iff_ne_none.mpr hsome⟩
  -- a thread that has the lock is in none of the functions, or it could go on
  have hfree : ∀ j again, l.hold ≠ .held j again := by
    intro j again hhold
    have hdepth := hfollows.depth j
    rw [hhold, Hold.depth, if_pos rfl] at hdepth
    by_cases hj : s.pcs j = .outside
    · rw [depth, place, hj] at hdepth
      refine hnobody ⟨j, hj, ?_⟩
      have hheld : s.held j = again + 1 := hdepth
      omega
    · rcases hblocked j hj with ⟨hwait, -⟩ | ⟨hlock, hmutex⟩
      · rw [depth, place, hwait, (hfollows.placed j).outermost (by rw [hwait]; rfl)] at hdepth
        cases hdepth
      · have hnative := hfollows.fields.native ((hfollows.placed j).native (by rw [hlock]; rfl))
        rw [hhold] at hnative
        rw [lockMutex, hnative] at hmutex
        exact absurd ((if_pos rfl).symm.trans hmutex) (by simp)
  rcases hblocked i hin with ⟨hwait, hzero⟩ | ⟨hlock, hmutex⟩
  · have hn := (hfollows.placed i).semaphore (by rw [hwait]; rfl)
    obtain ⟨-, -, -, hbaton⟩ := hfollows.fields.semaphore hn
    have hmem := (hfollows.queued i).mp (by rw [place, hwait]; rfl)
    have hover : l.hold = .handedOver := by
      cases hhold : l.hold with
      | free =>
        rw [l.waiting_of_free hhold] at hmem
        cases hmem
      | held j again => exact absurd hhold (hfree j again)
      | handedOver => rfl
    rw [Baton, if_pos hover] at hbaton
    rcases hbaton with ⟨hone, -⟩ | ⟨-, j, hreleasing, -⟩
    · omega
    · rcases hfollows.toSignal_iff.mpr hreleasing with hpc | ⟨hpc, -⟩
      · rcases hblocked j (by rw [hpc]; decide) with ⟨h, -⟩ | ⟨h, -⟩ <;> cases hpc.symm.trans h
      · rcases hblocked j (by rw [hpc]; decide) with ⟨h, -⟩ | ⟨h, -⟩ <;> cases hpc.symm.trans h
  · have hnative := hfollows.fields.native ((hfollows.placed i).native (by rw [hlock]; rfl))
    have hnone : mutexOf l.hold = none := by
      cases hhold : l.hold with
      | held j again => exact absurd hhold (hfree j again)
      | _ => rfl
    rw [lockMutex, hnative, hnone] at hmutex
    cases hmutex

theorem section_progress_contended :
    ∃ s : RecursiveCriticalSection Nat, Run (.semaphore 1) s ∧ s.pcs 1 = .waiting ∧
      ((∃ j, s.pcs j ≠ .outside ∧ (step (.semaphore 1) s (.resume j)).isSome = true) ∨
        ∃ j, s.pcs j = .outside ∧ 0 < s.held j) := by
  have hrun : (runWhile (step (.semaphore 1)) LeavesHeld init contended).isSome = true := by decide
  obtain ⟨s, hreach, hwaits⟩ : ∃ s : RecursiveCriticalSection Nat, Run (.semaphore 1) s ∧
      s.pcs 1 = .waiting := ⟨_, reaches_get hrun, rfl⟩
  exact ⟨s, hreach, hwaits, section_progress hreach (by rw [hwaits]; decide)⟩

/-! ## How long a call can take -/

/-- The accesses that a thread at the place makes at most before it returns, one that waits apart. -/
def rank : LockPc → Nat
  | .outside => 0
  | .noteCount | .mutexUnlock | .signal => 1
  | .noteOwner | .readRecursion => 2
  | .deepen | .mutexLock | .mutexTryLock | .countLeave => 3
  | .setOwner | .trySetOwner | .tryCountOwned | .clearOwner => 4
  | .afterWait | .countOwned | .trySwap | .lessen => 5
  | .waiting | .tryCheckOwner | .checkHeld => 6
  | .beforeWait | .unnoteOwner => 7
  | .joinQueue | .unnoteCount => 8
  | .leaveCheck => 9
  | .yield spin => 4 * spin + 9
  | .swapQueue spin => 4 * spin + 10
  | .loadQueue spin => 4 * spin + 11
  | .checkOwner spin => 4 * spin + 12

/-- The accesses of a call of any of the three functions. -/
def mostSteps : LockImpl → Nat
  | .native => 9
  | .semaphore spin => 4 * spin + 12

/-- The accesses that `i` makes. -/
def ownSteps (i : T) (_ : RecursiveCriticalSection T) : LockAction T → List Unit
  | .resume j => if j = i then [()] else []
  | _ => []

/-- The thread does not call one of the functions anew. -/
def NoNewCall (i : T) (_ : RecursiveCriticalSection T) : LockAction T → Prop
  | .enter j | .tryEnter j | .leave j => j ≠ i
  | .resume _ => True

instance (i : T) (s : RecursiveCriticalSection T) (a : LockAction T) : Decidable (NoNewCall i s a) :=
  match a with
  | .enter j => inferInstanceAs (Decidable (j ≠ i))
  | .tryEnter j => inferInstanceAs (Decidable (j ≠ i))
  | .leave j => inferInstanceAs (Decidable (j ≠ i))
  | .resume _ => inferInstanceAs (Decidable True)

/-- Where a thread goes next; nobody else moves. -/
theorem resume_pcs (hstep : s.resume impl i = some s') :
    ∃ pc, s'.pcs = Function.update s.pcs i pc ∧ rank pc < rank (s.pcs i) := by
  cases hpc : s.pcs i with
  | outside =>
    simp only [resume, hpc] at hstep
    cases hstep
  | yield spin =>
    simp only [resume, hpc] at hstep
    cases hstep
    refine ⟨_, rfl, ?_⟩
    split
    · simp only [rank]
      omega
    · simp only [rank]
      omega
  | waiting =>
    simp only [resume, hpc] at hstep
    split at hstep <;> cases hstep
    exact ⟨_, rfl, by simp [rank]⟩
  | swapQueue spin | trySwap =>
    simp only [resume, hpc] at hstep
    split at hstep <;> cases hstep <;> exact ⟨_, rfl, by simp [rank]⟩
  | noteOwner =>
    simp only [resume, hpc] at hstep
    split at hstep <;> cases hstep <;> exact ⟨.noteCount, by simp [goto], by simp [rank]⟩
  | mutexLock =>
    simp only [resume, hpc, Option.map_eq_some_iff] at hstep
    obtain ⟨t, hlock, rfl⟩ := hstep
    exact ⟨.noteOwner, by rw [goto, lockMutex_pcs hlock], by simp [rank]⟩
  | mutexTryLock =>
    simp only [resume, hpc] at hstep
    cases hstep
    cases hlock : s.lockMutex i with
    | none => exact ⟨_, rfl, by simp [rank]⟩
    | some t => exact ⟨.noteOwner, by rw [Option.elim_some, goto, lockMutex_pcs hlock], by simp [rank]⟩
  | mutexUnlock =>
    simp only [resume, hpc] at hstep
    cases hstep
    exact ⟨.outside, by simp [goto], by simp [rank]⟩
  | checkOwner spin | loadQueue spin | joinQueue | tryCheckOwner | unnoteOwner | countLeave | readRecursion =>
    simp only [resume, hpc] at hstep
    cases hstep
    refine ⟨_, rfl, ?_⟩
    split <;> simp [rank]
  | beforeWait =>
    simp only [resume, hpc] at hstep
    cases hstep
    exact ⟨.waiting, by simp [goto], by simp [rank]⟩
  | afterWait =>
    simp only [resume, hpc] at hstep
    cases hstep
    exact ⟨.setOwner, by simp [goto], by simp [rank]⟩
  | trySetOwner =>
    simp only [resume, hpc] at hstep
    cases hstep
    exact ⟨.deepen, by simp [goto], by simp [rank]⟩
  | leaveCheck =>
    simp only [resume, hpc] at hstep
    cases hstep
    exact ⟨.unnoteCount, by simp [goto], by simp [rank]⟩
  | unnoteCount =>
    simp only [resume, hpc] at hstep
    cases hstep
    exact ⟨.unnoteOwner, by simp [goto], by simp [rank]⟩
  | checkHeld =>
    simp only [resume, hpc] at hstep
    cases hstep
    exact ⟨.lessen, by simp [goto], by simp [rank]⟩
  | _ =>
    simp only [resume, hpc] at hstep
    cases hstep
    exact ⟨_, rfl, by simp [rank]⟩

/-- What a thread does uses up its own rank only. -/
theorem rank_step {a : LockAction T} (ha : NoNewCall i s a) (hstep : step impl s a = some s') :
    rank (s'.pcs i) + (ownSteps i s a).length ≤ rank (s.pcs i) := by
  have hother : ∀ {j : T} {pc : LockPc}, j ≠ i → (s.goto j pc).pcs i = s.pcs i := fun hj => Function.update_of_ne (Ne.symm hj) _ _
  cases a with
  | resume j =>
    obtain ⟨pc, hpcs, hrank⟩ := resume_pcs hstep
    rw [hpcs, ownSteps]
    by_cases hj : j = i
    · rw [if_pos hj, ← hj, Function.update_self]
      exact hrank
    · rw [if_neg hj, Function.update_of_ne (Ne.symm hj)]
      exact Nat.le_refl _
  | enter j =>
    simp only [step] at hstep
    split at hstep <;> cases hstep
    rw [hother ha]
    exact Nat.le_refl _
  | tryEnter j =>
    simp only [step] at hstep
    split at hstep <;> cases hstep
    rw [hother ha]
    exact Nat.le_refl _
  | leave j =>
    simp only [step] at hstep
    split at hstep <;> cases hstep
    exact Nat.le_of_eq (congrArg rank (hother ha))

/-- The call of a function. -/
def Calls (i : T) (a : LockAction T) : Prop := a = .enter i ∨ a = .tryEnter i ∨ a = .leave i

/-- **A call is bounded.** From the call of `Enter`, `TryEnter` or `Leave` on, whatever the others do, the
    thread makes so many accesses at most before it returns; it may be kept waiting between two of them. -/
theorem call_steps {a : LockAction T} {s₀ t : RecursiveCriticalSection T} {own : List Unit} (hcall : Calls i a)
    (hstart : step impl s₀ a = some s)
    (h : Reaches (observe (step impl) (ownSteps i)) (fun p a => NoNewCall i p.1 a) (s, []) (t, own)) :
    own.length ≤ mostSteps impl := by
  have hrank : rank (s.pcs i) ≤ mostSteps impl := by
    rcases hcall with rfl | rfl | rfl
    all_goals
      simp only [step] at hstart
      split at hstart <;> cases hstart
    · rw [goto_pcs_self]
      cases impl <;> simp [rank, mostSteps]
    · rw [goto_pcs_self]
      cases impl <;> simp [rank, mostSteps]
    · show rank ((s₀.goto i .leaveCheck).pcs i) ≤ _
      rw [goto_pcs_self]
      cases impl <;> simp [rank, mostSteps]
  have hbound := h.bounded (fun s => rank (s.pcs i)) fun s a s' ha hstep => rank_step ha hstep
  simp only [List.length_nil] at hbound
  omega

/-- An `Enter` of the free section, which could have made 12012 accesses. -/
theorem call_steps_enter :
    ∃ (s t : RecursiveCriticalSection Nat) (own : List Unit), step (.semaphore kSpin) init (.enter 0) = some s ∧
      Reaches (observe (step (.semaphore kSpin)) (ownSteps 0)) (fun p a => NoNewCall 0 p.1 a) (s, []) (t, own) ∧
      own.length = 7 ∧ own.length ≤ 12012 := by
  have hrun : (runWhile (observe (step (.semaphore kSpin)) (ownSteps 0)) (fun p a => NoNewCall 0 p.1 a)
      ((init : RecursiveCriticalSection Nat).goto 0 (.checkOwner kSpin), [])
      (List.replicate 7 (.resume 0))).isSome = true := by decide
  have hstart : step (.semaphore kSpin) (init : RecursiveCriticalSection Nat) (.enter 0) =
      some (init.goto 0 (.checkOwner kSpin)) := rfl
  exact ⟨_, _, _, hstart, reaches_get hrun, rfl, call_steps (.inl rfl) hstart (reaches_get hrun)⟩

end RecursiveCriticalSection

end IoBase
