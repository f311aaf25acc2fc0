import IoBase.LockPlaces

/- A `RecursiveCriticalSection` is a reentrant lock that is handed over: the simulation.

   The lock changes hands at the accesses to `lock_queue_` and at the wait for the semaphore,
   or, with the native mutex, when that is locked and unlocked; the owner's other accesses
   write one field each. `simulates_resume` has a case for each place, and `follows_run` is
   what every run keeps. -/
namespace IoBase
open Transition ReentrantLock

namespace RecursiveCriticalSection
variable {T : Type} [DecidableEq T] {impl : LockImpl} {s s' : RecursiveCriticalSection T} {l l' : Lock T}
  {i : T} {pc : LockPc}

/-! ## Reading the fields -/

/-- A thread whose call has the lock has it once more than before the call. -/
theorem Follows.owner (h : Follows impl s l) (howning : (s.pcs i).place.owning = true) :
    ∃ again, l.hold = .held i again ∧ s.held i = again := by
  have hdepth := h.depth i
  rw [RecursiveCriticalSection.depth, place, howning] at hdepth
  obtain ⟨again, hhold⟩ := Lock.held_of_depth (l := l) (i := i) (by rw [← hdepth]; exact Nat.succ_pos _)
  rw [hhold, Hold.depth, if_pos rfl] at hdepth
  exact ⟨again, hhold, Nat.succ.inj hdepth⟩

/-- A thread that entered before its call has the lock. -/
theorem Follows.entered (h : Follows impl s l) (howning : (s.pcs i).place.owning = false)
    (hheld : 0 < s.held i) : ∃ again, l.hold = .held i again ∧ s.held i = again + 1 := by
  have hdepth := h.depth i
  rw [RecursiveCriticalSection.depth, place, howning] at hdepth
  obtain ⟨again, hhold⟩ := Lock.held_of_depth (l := l) (i := i) (by rw [← hdepth]; exact hheld)
  rw [hhold, Hold.depth, if_pos rfl] at hdepth
  exact ⟨again, hhold, hdepth⟩

theorem Follows.not_held (h : Follows impl s l) (howning : (s.pcs i).place.owning = false)
    (hheld : s.held i = 0) (again : Nat) : l.hold ≠ .held i again := by
  intro hhold
  have hdepth := h.depth i
  rw [RecursiveCriticalSection.depth, place, howning, hheld, hhold, Hold.depth, if_pos rfl] at hdepth
  cases hdepth

theorem Follows.count_eq {again : Nat} (h : Follows impl s l) (hhold : l.hold = .held i again) :
    s.recursionCount = if (s.pcs i).place.countBehind = true then (again : Int) else again + 1 := by
  rw [h.fields.recursionCount, hhold]
  rfl

theorem Follows.thread_eq {again : Nat} (h : Follows impl s l) (hhold : l.hold = .held i again) :
    s.thread = if again = 0 ∧ (s.pcs i).place.threadBehind = true then none else some i := by
  rw [h.fields.thread, hhold]
  rfl

theorem Follows.recursion_eq {again : Nat} (h : Follows impl s l) (hn : impl.isNative = false)
    (hhold : l.hold = .held i again) :
    s.recursion = if (s.pcs i).place.recursionBehind = true then (again : Int) else again + 1 := by
  rw [(h.fields.semaphore hn).recursion, hhold]
  rfl

theorem Follows.owningThread_eq {again : Nat} (h : Follows impl s l) (hn : impl.isNative = false)
    (hhold : l.hold = .held i again) :
    s.owningThread = if again = 0 ∧ (s.pcs i).place.ownerBehind = true then none else some i := by
  rw [(h.fields.semaphore hn).owningThread, hhold]
  rfl

/-- The owner is not taken for another. -/
theorem Follows.owningThread_ne (h : Follows impl s l) (hn : impl.isNative = false)
    (howning : (s.pcs i).place.owning = false) (houter : s.held i = 0) : s.owningThread ≠ some i := by
  have hnot := h.not_held howning houter
  rw [(h.fields.semaphore hn).owningThread]
  intro howner
  cases hhold : l.hold with
  | held j again =>
    rw [hhold, ownerOf] at howner
    split at howner
    · cases howner
    · obtain rfl := Option.some.inj howner
      exact hnot again hhold
  | _ =>
    rw [hhold] at howner
    cases howner

/-- `owning_thread_` is the thread that looks exactly where it has entered before. -/
theorem Follows.owningThread_iff (h : Follows impl s l) (hn : impl.isNative = false)
    (hplace : (s.pcs i).place = {}) : s.owningThread = some i ↔ 0 < s.held i := by
  have howning : (s.pcs i).place.owning = false := by rw [hplace]
  constructor
  · intro howner
    by_contra hheld
    exact h.owningThread_ne hn howning (Nat.eq_zero_of_not_pos hheld) howner
  · intro hheld
    obtain ⟨again, hhold, -⟩ := h.entered howning hheld
    rw [h.owningThread_eq hn hhold, hplace]
    simp

theorem Follows.lockQueue_eq_zero (h : Follows impl s l) (hn : impl.isNative = false) :
    s.lockQueue = 0 ↔ l.hold = .free := by
  rw [(h.fields.semaphore hn).lockQueue, Int.natCast_eq_zero]
  exact Lock.count_eq_zero_iff

/-! ## The owner's own writes -/

omit [DecidableEq T] in
theorem dcheck_of {check : LockCheck} {holds : Bool} (h : holds = true) : s.dcheck check holds = s := by
  rw [dcheck, if_pos h]

theorem follows_afterWait (h : Follows impl s l) (hpc : s.pcs i = .afterWait) :
    Follows impl (((s.dcheck .noOwner s.owningThread.isNone).dcheck .noRecursion (s.recursion == 0)).goto i
      .setOwner) l := by
  obtain ⟨again, hhold, hheld⟩ := h.owner (i := i) (by rw [hpc]; rfl)
  have hn := (h.placed i).semaphore (by rw [hpc]; rfl)
  obtain rfl : again = 0 := hheld.symm.trans ((h.placed i).outermost (by rw [hpc]; rfl))
  have hrecursion := h.recursion_eq hn hhold
  have howner := h.owningThread_eq hn hhold
  rw [hpc] at hrecursion howner
  rw [dcheck_of (s := s) (by rw [howner]; rfl), dcheck_of (by rw [hrecursion]; rfl)]
  exact h.goto (by rw [hpc]; rfl) (.of_neither rfl rfl (fun h => (by cases h)) fun _ => hn)

theorem follows_setOwner (h : Follows impl s l) (hpc : s.pcs i = .setOwner) :
    Follows impl ({ s with owningThread := some i }.goto i .deepen) l := by
  obtain ⟨again, hhold, hheld⟩ := h.owner (i := i) (by rw [hpc]; rfl)
  have hn := (h.placed i).semaphore (by rw [hpc]; rfl)
  refine h.own hhold rfl (fun _ _ => rfl) (.of_neither rfl rfl (fun h => (by cases h)) fun _ => hn)
    (congrArg (· + 1) hheld) rfl ?_ ?_ (fun _ => rfl) (fun _ => ⟨rfl, rfl, ?_, ?_⟩) h.checked
  · exact (h.count_eq hhold).trans (by rw [hpc]; rfl)
  · exact (h.thread_eq hhold).trans (by rw [hpc]; rfl)
  · exact (h.recursion_eq hn hhold).trans (by rw [hpc]; rfl)
  · simp [LockPc.place, RecursiveCriticalSection.goto]

theorem follows_trySetOwner (h : Follows impl s l) (hpc : s.pcs i = .trySetOwner) :
    Follows impl (({ s with owningThread := some i }.dcheck .noRecursion (s.recursion == 0)).goto i .deepen) l := by
  obtain ⟨again, hhold, hheld⟩ := h.owner (i := i) (by rw [hpc]; rfl)
  have hn := (h.placed i).semaphore (by rw [hpc]; rfl)
  obtain rfl : again = 0 := hheld.symm.trans ((h.placed i).outermost (by rw [hpc]; rfl))
  have hrecursion := h.recursion_eq hn hhold
  rw [hpc] at hrecursion
  rw [dcheck_of (by rw [hrecursion]; rfl)]
  refine h.own hhold rfl (fun _ _ => rfl) (.of_neither rfl rfl (fun h => (by cases h)) fun _ => hn)
    (congrArg (· + 1) hheld) rfl ?_ ?_ (fun _ => rfl) (fun _ => ⟨rfl, rfl, ?_, ?_⟩) h.checked
  · exact (h.count_eq hhold).trans (by rw [hpc]; rfl)
  · exact (h.thread_eq hhold).trans (by rw [hpc]; rfl)
  · exact (h.recursion_eq hn hhold).trans (by rw [hpc]; rfl)
  · simp [LockPc.place, RecursiveCriticalSection.goto]

theorem follows_deepen (h : Follows impl s l) (hpc : s.pcs i = .deepen) :
    Follows impl ({ s with recursion := s.recursion + 1 }.goto i .noteOwner) l := by
  obtain ⟨again, hhold, hheld⟩ := h.owner (i := i) (by rw [hpc]; rfl)
  have hn := (h.placed i).semaphore (by rw [hpc]; rfl)
  refine h.own hhold rfl (fun _ _ => rfl) (.of_neither rfl rfl (fun h => (by cases h)) fun h => (by cases h))
    (congrArg (· + 1) hheld) rfl ?_ ?_ (fun _ => rfl) (fun _ => ⟨rfl, rfl, ?_, ?_⟩) h.checked
  · exact (h.count_eq hhold).trans (by rw [hpc]; rfl)
  · exact (h.thread_eq hhold).trans (by rw [hpc]; rfl)
  · exact congrArg (· + 1) ((h.recursion_eq hn hhold).trans (by rw [hpc]; rfl))
  · exact (h.owningThread_eq hn hhold).trans (by rw [hpc]; rfl)

/-- The fields of the semaphore do not change with the debug fields. -/
theorem Follows.debug {again : Nat} (h : Follows impl s l) (pc : LockPc) (hhold : l.hold = .held i again)
    (hrecursion : pc.place.recursionBehind = (s.pcs i).place.recursionBehind)
    (howner : pc.place.ownerBehind = (s.pcs i).place.ownerBehind)
    (hsame : s'.lockQueue = s.lockQueue ∧ s'.semaphore = s.semaphore ∧ s'.recursion = s.recursion ∧
      s'.owningThread = s.owningThread) (hn : impl.isNative = false) :
    s'.lockQueue = s.lockQueue ∧ s'.semaphore = s.semaphore ∧
      s'.recursion = (if pc.place.recursionBehind = true then (again : Int) else again + 1) ∧
      s'.owningThread = if again = 0 ∧ pc.place.ownerBehind = true then none else some i := by
  obtain ⟨hqueue, hsem, hrecursion', howner'⟩ := hsame
  refine ⟨hqueue, hsem, ?_, ?_⟩
  · rw [hrecursion', hrecursion]
    exact h.recursion_eq hn hhold
  · rw [howner', howner]
    exact h.owningThread_eq hn hhold

theorem follows_noteOwner (h : Follows impl s l) (hpc : s.pcs i = .noteOwner)
    (hstep : s.resume impl i = some s') : Follows impl s' l := by
  obtain ⟨again, hhold, hheld⟩ := h.owner (i := i) (by rw [hpc]; rfl)
  have hcount := h.count_eq hhold
  have hthread := h.thread_eq hhold
  rw [hpc] at hcount hthread
  have hcount' : s.recursionCount = again := hcount
  have hsem : (s'.lockQueue = s.lockQueue ∧ s'.semaphore = s.semaphore ∧ s'.recursion = s.recursion ∧
      s'.owningThread = s.owningThread) → impl.isNative = false → _ :=
    h.debug .noteCount hhold (by rw [hpc]; rfl) (by rw [hpc]; rfl)
  simp only [resume, hpc] at hstep
  split at hstep
  · rename_i hzero
    obtain rfl : again = 0 := by
      rw [hcount'] at hzero
      exact Int.natCast_eq_zero.mp hzero
    rw [dcheck_of (s := s) (by rw [hthread]; rfl)] at hstep
    cases hstep
    exact h.own hhold rfl (fun _ _ => rfl) (.of_neither rfl rfl (fun h => (by cases h)) fun h => (by cases h))
      (congrArg (· + 1) hheld) rfl hcount rfl (fun _ => rfl) (hsem ⟨rfl, rfl, rfl, rfl⟩) h.checked
  · rename_i hne
    have hagain : again ≠ 0 := by
      intro hzero
      exact hne (hcount'.trans (Int.natCast_eq_zero.mpr hzero))
    have howner : s.thread = some i := hthread.trans (if_neg fun h => hagain h.1)
    rw [dcheck_of (s := s) (by rw [currentThreadIsOwner, howner]; exact beq_self_eq_true _)] at hstep
    cases hstep
    exact h.own hhold rfl (fun _ _ => rfl) (.of_neither rfl rfl (fun h => (by cases h)) fun h => (by cases h))
      (congrArg (· + 1) hheld) rfl hcount (howner.trans (if_neg fun h => hagain h.1).symm) (fun _ => rfl)
      (hsem ⟨rfl, rfl, rfl, rfl⟩) h.checked

theorem follows_noteCount (h : Follows impl s l) (hpc : s.pcs i = .noteCount) :
    Follows impl ({ s with recursionCount := s.recursionCount + 1 }.entered i) l := by
  obtain ⟨again, hhold, hheld⟩ := h.owner (i := i) (by rw [hpc]; rfl)
  refine h.own hhold rfl (fun j hj => Function.update_of_ne hj _ _)
    (.of_neither rfl rfl (fun h => (by cases h)) fun h => (by cases h)) ?_ rfl ?_ ?_ (fun _ => rfl)
    (h.debug _ hhold (by rw [hpc]; rfl) (by rw [hpc]; rfl) ⟨rfl, rfl, rfl, rfl⟩) h.checked
  · exact (Function.update_self i _ s.held).trans (congrArg (· + 1) hheld)
  · exact congrArg (· + 1) ((h.count_eq hhold).trans (by rw [hpc]; rfl))
  · exact (h.thread_eq hhold).trans (by rw [hpc]; rfl)

theorem follows_leaveCheck (h : Follows impl s l) (hpc : s.pcs i = .leaveCheck) :
    Follows impl ((s.dcheck .currentThreadIsOwner (s.currentThreadIsOwner i)).goto i .unnoteCount) l := by
  obtain ⟨again, hhold, hheld⟩ := h.owner (i := i) (by rw [hpc]; rfl)
  have hthread := h.thread_eq hhold
  rw [hpc] at hthread
  have howner : s.thread = some i := hthread.trans (if_neg fun h => by cases h.2)
  rw [dcheck_of (s := s) (by rw [currentThreadIsOwner, howner]; exact beq_self_eq_true _)]
  exact h.goto (by rw [hpc]; rfl) (.of_neither rfl rfl (fun h => (by cases h)) fun h => (by cases h))

theorem follows_unnoteCount (h : Follows impl s l) (hpc : s.pcs i = .unnoteCount) :
    Follows impl (({ s with recursionCount := s.recursionCount - 1 }.dcheck .countNotNegative
      (decide (0 ≤ s.recursionCount - 1))).goto i .unnoteOwner) l := by
  obtain ⟨again, hhold, hheld⟩ := h.owner (i := i) (by rw [hpc]; rfl)
  have hcount := h.count_eq hhold
  rw [hpc] at hcount
  have hless : s.recursionCount - 1 = again := by
    rw [hcount]
    exact Int.add_sub_cancel _ _
  rw [hless, dcheck_of (decide_eq_true (Int.natCast_nonneg again))]
  exact h.own hhold rfl (fun _ _ => rfl) (.of_neither rfl rfl (fun h => (by cases h)) fun h => (by cases h))
    (congrArg (· + 1) hheld) rfl rfl ((h.thread_eq hhold).trans (by rw [hpc]; rfl)) (fun _ => rfl)
    (h.debug _ hhold (by rw [hpc]; rfl) (by rw [hpc]; rfl) ⟨rfl, rfl, rfl, rfl⟩) h.checked

theorem follows_unnoteOwner (h : Follows impl s l) (hpc : s.pcs i = .unnoteOwner) :
    Follows impl ({ s with thread := if s.recursionCount = 0 then none else s.thread }.goto i
      (if impl.isNative then .mutexUnlock else .checkHeld)) l := by
  obtain ⟨again, hhold, hheld⟩ := h.owner (i := i) (by rw [hpc]; rfl)
  have hcount := h.count_eq hhold
  have hthread := h.thread_eq hhold
  rw [hpc] at hcount hthread
  have howner : s.thread = some i := hthread.trans (if_neg fun h => by cases h.2)
  have hcleared : (if s.recursionCount = 0 then none else s.thread) =
      if again = 0 ∧ true = true then none else some i := by
    rw [howner, hcount]
    simp [LockPc.place]
  rw [hcleared]
  cases hn : impl.isNative with
  | true =>
    refine h.own hhold rfl (fun _ _ => rfl) (.of_neither rfl rfl (fun _ => hn) fun h => (by cases h))
      (congrArg (· + 1) hheld) rfl hcount rfl (fun _ => rfl) (fun hs => ?_) h.checked
    rw [hn] at hs
    cases hs
  | false =>
    exact h.own hhold rfl (fun _ _ => rfl) (.of_neither rfl rfl (fun h => (by cases h)) fun _ => hn)
      (congrArg (· + 1) hheld) rfl hcount rfl (fun _ => rfl)
      (h.debug _ hhold (by rw [hpc]; rfl) (by rw [hpc]; rfl) ⟨rfl, rfl, rfl, rfl⟩) h.checked

theorem follows_checkHeld (h : Follows impl s l) (hpc : s.pcs i = .checkHeld) :
    Follows impl (((s.dcheck .owningThread (s.owningThread == some i)).dcheck .recursionNotNegative
      (decide (0 ≤ s.recursion))).goto i .lessen) l := by
  obtain ⟨again, hhold, hheld⟩ := h.owner (i := i) (by rw [hpc]; rfl)
  have hn := (h.placed i).semaphore (by rw [hpc]; rfl)
  have hrecursion := h.recursion_eq hn hhold
  have howner := h.owningThread_eq hn hhold
  rw [hpc] at hrecursion howner
  have howner' : s.owningThread = some i := howner.trans (if_neg fun h => by cases h.2)
  have hrecursion' : s.recursion = again + 1 := hrecursion
  rw [dcheck_of (s := s) (by rw [howner']; exact beq_self_eq_true _), dcheck_of (decide_eq_true (by omega))]
  exact h.goto (by rw [hpc]; rfl) (.of_neither rfl rfl (fun h => (by cases h)) fun _ => hn)

theorem follows_lessen (h : Follows impl s l) (hpc : s.pcs i = .lessen) :
    Follows impl ({ s with recursion := s.recursion - 1 }.goto i .clearOwner) l := by
  obtain ⟨again, hhold, hheld⟩ := h.owner (i := i) (by rw [hpc]; rfl)
  have hn := (h.placed i).semaphore (by rw [hpc]; rfl)
  have hrecursion := h.recursion_eq hn hhold
  rw [hpc] at hrecursion
  have hless : s.recursion - 1 = again := by
    rw [hrecursion]
    exact Int.add_sub_cancel _ _
  refine h.own hhold rfl (fun _ _ => rfl) (.of_neither rfl rfl (fun h => (by cases h)) fun _ => hn)
    (congrArg (· + 1) hheld) rfl ?_ ?_ (fun _ => rfl) (fun _ => ⟨rfl, rfl, hless, ?_⟩) h.checked
  · exact (h.count_eq hhold).trans (by rw [hpc]; rfl)
  · exact (h.thread_eq hhold).trans (by rw [hpc]; rfl)
  · exact (h.owningThread_eq hn hhold).trans (by rw [hpc]; rfl)

theorem follows_clearOwner (h : Follows impl s l) (hpc : s.pcs i = .clearOwner) :
    Follows impl ({ s with owningThread := if s.recursion = 0 then none else s.owningThread }.goto i
      .countLeave) l := by
  obtain ⟨again, hhold, hheld⟩ := h.owner (i := i) (by rw [hpc]; rfl)
  have hn := (h.placed i).semaphore (by rw [hpc]; rfl)
  have hrecursion := h.recursion_eq hn hhold
  have howner := h.owningThread_eq hn hhold
  rw [hpc] at hrecursion howner
  have hrecursion' : s.recursion = again := hrecursion
  have howner' : s.owningThread = some i := howner.trans (if_neg fun h => by cases h.2)
  refine h.own hhold rfl (fun _ _ => rfl) (.of_neither rfl rfl (fun h => (by cases h)) fun _ => hn)
    (congrArg (· + 1) hheld) rfl ?_ ?_ (fun _ => rfl) (fun _ => ⟨rfl, rfl, hrecursion, ?_⟩) h.checked
  · exact (h.count_eq hhold).trans (by rw [hpc]; rfl)
  · exact (h.thread_eq hhold).trans (by rw [hpc]; rfl)
  · show (if s.recursion = 0 then none else s.owningThread) = _
    rw [hrecursion', howner']
    simp [LockPc.place]

/-! ## The simulation -/

/-- The section goes on standing for the lock, or the lock takes a step with it. -/
def Simulates (impl : LockImpl) (l : Lock T) (s' : RecursiveCriticalSection T) : Prop :=
  Follows impl s' l ∨ ∃ op l', l.step op = some l' ∧ Follows impl s' l'

/-- The free lock is taken. -/
theorem simulates_acquire (h : Follows impl s l) (hfree : l.hold = .free)
    (hpcs : s'.pcs = Function.update s.pcs i pc) (hheld : s'.held = s.held) (houter : s.held i = 0)
    (hplaced : Placed impl pc 0) (hplace : pc.place.owning = true ∧ pc.place.queued = false ∧
      pc.place.countBehind = true ∧ pc.place.threadBehind = true)
    (hsame : s'.recursionCount = s.recursionCount ∧ s'.thread = s.thread ∧ s'.failed = s.failed)
    (hnative : impl.isNative = true → s'.mutex = some (i, 1))
    (hsemaphore : impl.isNative = false → s'.lockQueue = 1 ∧ s'.semaphore = s.semaphore ∧
      s'.recursion = s.recursion ∧ s'.owningThread = s.owningThread ∧
      pc.place.recursionBehind = true ∧ pc.place.ownerBehind = true) : Simulates impl l s' := by
  obtain ⟨l', hstep, hhold, hwaiting⟩ := Lock.acquired (i := i) hfree
  refine .inr ⟨_, l', hstep, h.take (fun j again hj => ?_) hhold (fun j _ => by rw [hwaiting]) hpcs hheld houter
    hplaced hplace.1 hplace.2.1 hplace.2.2 hsame.1 hsame.2.1 hnative (fun hn => ?_) hsame.2.2⟩
  · rw [hfree] at hj
    cases hj
  · obtain ⟨hqueue, hsem, hrest⟩ := hsemaphore hn
    have hbaton := (h.fields.semaphore hn).baton
    simp only [Baton, hfree, reduceCtorEq, if_false] at hbaton
    refine ⟨?_, hsem.trans hbaton.1, ?_, hrest⟩
    · rw [hqueue, Lock.count, hhold, hwaiting, l.waiting_of_free hfree]
      rfl
    · rw [hfree]
      exact hbaton.2

/-- The owner takes the lock once more. -/
theorem simulates_reenter (h : Follows impl s l) (hplace₀ : (s.pcs i).place = {}) (hheld₀ : 0 < s.held i)
    (hpcs : s'.pcs = Function.update s.pcs i pc) (hheld : s'.held = s.held)
    (hplaced : Placed impl pc (s.held i)) (hplace : pc.place.owning = true ∧ pc.place.queued = false ∧
      pc.place.countBehind = true)
    (hsame : s'.recursionCount = s.recursionCount ∧ s'.thread = s.thread ∧ s'.failed = s.failed)
    (hnative : impl.isNative = true → s'.mutex = some (i, s.held i + 1))
    (hsemaphore : impl.isNative = false → s'.lockQueue = s.lockQueue + 1 ∧ s'.semaphore = s.semaphore ∧
      s'.recursion = s.recursion ∧ s'.owningThread = s.owningThread ∧ pc.place.recursionBehind = true) :
    Simulates impl l s' := by
  obtain ⟨again, hhold, heq⟩ := h.entered (i := i) (by rw [hplace₀]) hheld₀
  obtain ⟨l', hstep, hhold', hwaiting⟩ := Lock.reentered hhold
  rw [heq] at hnative
  exact .inr ⟨_, l', hstep, h.takeAgain hhold hplace₀ hhold' hwaiting hpcs hheld hplaced hplace.1 hplace.2.1
    hplace.2.2 hsame.1 hsame.2.1 hnative hsemaphore hsame.2.2⟩

theorem simulates_joinQueue (h : Follows impl s l) (hpc : s.pcs i = .joinQueue) :
    Simulates impl l ({ s with lockQueue := s.lockQueue + 1 }.goto i
      (if s.lockQueue + 1 > 1 then .beforeWait else .setOwner)) := by
  have hn := (h.placed i).semaphore (by rw [hpc]; rfl)
  have houter := (h.placed i).outermost (by rw [hpc]; rfl)
  have hqueue := (h.fields.semaphore hn).lockQueue
  by_cases hfree : l.hold = .free
  · have hzero := (h.lockQueue_eq_zero hn).mpr hfree
    rw [if_neg (by omega)]
    refine simulates_acquire h hfree rfl rfl houter (.of_neither rfl rfl (fun h => (by cases h)) fun _ => hn)
      ⟨rfl, rfl, rfl, rfl⟩ ⟨rfl, rfl, rfl⟩ (fun hnat => ?_) fun _ => ⟨?_, rfl, rfl, rfl, rfl, rfl⟩
    · rw [hn] at hnat
      cases hnat
    · exact congrArg (· + 1) hzero
  · have hne : s.lockQueue ≠ 0 := fun hzero => hfree ((h.lockQueue_eq_zero hn).mp hzero)
    rw [if_pos (by omega)]
    have hdepth := h.depth i
    rw [RecursiveCriticalSection.depth, place, hpc, houter] at hdepth
    have hwaiting := h.queued i
    rw [place, hpc] at hwaiting
    obtain ⟨l', hstep, hhold, hwaiting'⟩ := Lock.enqueued (i := i) hfree hdepth.symm
      fun hi => (by cases hwaiting.mpr hi)
    exact .inr ⟨_, l', hstep, h.enqueue hn hpc hhold hwaiting'⟩

/-- The semaphore lets a thread through: the lock was handed over, to it. -/
theorem simulates_waiting (h : Follows impl s l) (hpc : s.pcs i = .waiting) (hsem : 0 < s.semaphore) :
    Simulates impl l ({ s with semaphore := s.semaphore - 1 }.goto i .afterWait) := by
  have hn := (h.placed i).semaphore (by rw [hpc]; rfl)
  have houter := (h.placed i).outermost (by rw [hpc]; rfl)
  have hwaiting := (h.queued i).mp (by rw [place, hpc]; rfl)
  obtain ⟨hqueue, -, -, hbaton⟩ := h.fields.semaphore hn
  have hover : l.hold = .handedOver := by
    by_contra hne
    rw [Baton, if_neg hne] at hbaton
    omega
  obtain ⟨hone, hquiet⟩ : s.semaphore = 1 ∧ ∀ j, ¬s.Releasing l.hold j := by
    rw [Baton, if_pos hover] at hbaton
    rcases hbaton with hone | ⟨hzero, -⟩
    · exact hone
    · omega
  obtain ⟨l', hstep, hhold, hwaiting'⟩ := Lock.granted hover hwaiting
  refine .inr ⟨_, l', hstep, h.take (fun j again hj => ?_) hhold (fun j hj => ?_) rfl rfl houter
    ⟨fun h => (by cases h), fun _ => rfl, fun h => (by cases h), fun _ => hn⟩ rfl rfl ⟨rfl, rfl⟩ rfl rfl
    (fun hnat => ?_) (fun _ => ⟨?_, ?_, hquiet, rfl, rfl, rfl, rfl⟩) rfl⟩
  · rw [hover] at hj
    cases hj
  · rw [hwaiting']
    exact List.mem_erase_of_ne hj
  · rw [hn] at hnat
    cases hnat
  · show s.lockQueue = _
    have hlength := List.length_erase_of_mem hwaiting
    have hpos := List.length_pos_of_mem hwaiting
    rw [hqueue, Lock.count, Lock.count, hover, hhold, hwaiting', hlength]
    show ((0 + l.waiting.length : Nat) : Int) = (0 + 1 + (l.waiting.length - 1) : Nat)
    omega
  · show s.semaphore - 1 = 0
    omega

/-- `Leave` counts the thread out. -/
theorem simulates_countLeave (h : Follows impl s l) (hpc : s.pcs i = .countLeave) :
    Simulates impl l ({ s with lockQueue := s.lockQueue - 1 }.goto i
      (if s.lockQueue - 1 > 0 then .readRecursion else .outside)) := by
  have hn := (h.placed i).semaphore (by rw [hpc]; rfl)
  obtain ⟨again, hhold, hheld⟩ := h.owner (i := i) (by rw [hpc]; rfl)
  have hqueue := (h.fields.semaphore hn).lockQueue
  rw [Lock.count, hhold, Hold.times] at hqueue
  obtain ⟨l', hstep, hwaiting, hhold'⟩ := Lock.released hhold
  have hplaced : ∀ {pc : LockPc}, pc = .readRecursion ∨ pc = .outside → Placed impl pc (s.held i) := by
    intro pc hcases
    rcases hcases with rfl | rfl
    · exact .of_neither rfl rfl (fun h => (by cases h)) fun _ => hn
    · exact .of_neither rfl rfl (fun h => (by cases h)) fun h => (by cases h)
  have hnative : ∀ {t : RecursiveCriticalSection T}, impl.isNative = true → t.mutex = mutexOf l'.hold := by
    intro t hnat
    rw [hn] at hnat
    cases hnat
  split
  · rename_i hpos
    refine .inr ⟨_, l', hstep, h.drop hhold (by rw [hpc]; exact ⟨rfl, rfl, rfl⟩) hhold' hwaiting rfl rfl
      (hplaced (.inl rfl)) ⟨rfl, rfl, rfl, rfl⟩ rfl rfl hnative (fun _ => ⟨rfl, rfl, rfl, rfl, ?_, ⟨rfl, rfl⟩,
      fun _ => rfl, fun hfree => ?_⟩) rfl⟩
    · rw [hpc]
      exact ⟨rfl, rfl⟩
    · rcases hhold' with ⟨less, -, hless⟩ | ⟨rfl, hlast⟩
      · rw [hless] at hfree
        cases hfree
      · have hnone : l.waiting = [] := by
          by_contra hsome
          rw [hlast, if_neg hsome] at hfree
          cases hfree
        rw [hnone, List.length_nil] at hqueue
        omega
  · rename_i hpos
    refine .inr ⟨_, l', hstep, h.drop hhold (by rw [hpc]; exact ⟨rfl, rfl, rfl⟩) hhold' hwaiting rfl rfl
      (hplaced (.inr rfl)) ⟨rfl, rfl, rfl, rfl⟩ rfl rfl hnative (fun _ => ⟨rfl, rfl, rfl, rfl, ?_, ⟨rfl, rfl⟩,
      fun hover => ?_, fun _ => rfl⟩) rfl⟩
    · rw [hpc]
      exact ⟨rfl, rfl⟩
    · rcases hhold' with ⟨less, -, hless⟩ | ⟨rfl, hlast⟩
      · rw [hless] at hover
        cases hover
      · have hnone : l.waiting = [] := List.eq_nil_of_length_eq_zero (by omega)
        rw [hlast, if_pos hnone] at hover
        cases hover

/-- The native mutex, when a thread has locked it. -/
theorem simulates_lockMutex (h : Follows impl s l) (hnat : impl.isNative = true) (hplace : (s.pcs i).place = {})
    {t : RecursiveCriticalSection T} (hlock : s.lockMutex i = some t) :
    Simulates impl l (t.goto i .noteOwner) := by
  have hmutex := h.fields.native hnat
  have hplaced : ∀ {held}, Placed impl .noteOwner held :=
    .of_neither rfl rfl (fun h => (by cases h)) fun h => (by cases h)
  have hsemaphore : impl.isNative ≠ false := by
    rw [hnat]
    decide
  simp only [lockMutex] at hlock
  split at hlock
  · rename_i hnone
    cases hlock
    rw [hnone] at hmutex
    -- with the native mutex nobody is in a queue, so the lock is not handed over
    have hfree : l.hold = .free := by
      cases hhold : l.hold with
      | free => rfl
      | held j again =>
        rw [hhold] at hmutex
        cases hmutex
      | handedOver =>
        obtain ⟨j, hj⟩ := List.exists_mem_of_ne_nil _ (l.waiting_of_handedOver hhold)
        have hqueued := (h.queued j).mpr hj
        have hsem := (h.placed j).semaphore
        rw [place] at hqueued
        cases hpc : s.pcs j with
        | beforeWait | waiting => exact absurd (hsem (by rw [hpc]; rfl)) hsemaphore
        | _ =>
          rw [hpc] at hqueued
          cases hqueued
    have houter : s.held i = 0 := by
      have hdepth := h.depth i
      rw [RecursiveCriticalSection.depth, place, hplace, hfree] at hdepth
      exact hdepth
    exact simulates_acquire h hfree rfl rfl houter hplaced ⟨rfl, rfl, rfl, rfl⟩ ⟨rfl, rfl, rfl⟩ (fun _ => rfl)
      fun hn => absurd hn hsemaphore
  · rename_i j n hsome
    split at hlock
    · rename_i hji
      cases hlock
      subst hji
      rw [hsome] at hmutex
      have hhold : ∃ again, l.hold = .held j again ∧ n = again + 1 := by
        cases hhold : l.hold with
        | held k again =>
          rw [hhold] at hmutex
          cases hmutex
          exact ⟨again, rfl, rfl⟩
        | _ =>
          rw [hhold] at hmutex
          cases hmutex
      obtain ⟨again, hhold, rfl⟩ := hhold
      have hdepth := h.depth j
      rw [RecursiveCriticalSection.depth, place, hplace, hhold, Hold.depth, if_pos rfl] at hdepth
      have hheld : s.held j = again + 1 := hdepth
      exact simulates_reenter h hplace (by omega) rfl rfl hplaced ⟨rfl, rfl, rfl⟩ ⟨rfl, rfl, rfl⟩
        (fun _ => by rw [hheld]; rfl) fun hn => absurd hn hsemaphore
    · cases hlock

/-- The native mutex, when its owner has unlocked it. -/
theorem simulates_mutexUnlock (h : Follows impl s l) (hpc : s.pcs i = .mutexUnlock) :
    Simulates impl l ((s.unlockMutex i).goto i .outside) := by
  have hnat := (h.placed i).native (by rw [hpc]; rfl)
  obtain ⟨again, hhold, hheld⟩ := h.owner (i := i) (by rw [hpc]; rfl)
  have hmutex := h.fields.native hnat
  rw [hhold] at hmutex
  obtain ⟨l', hstep, hwaiting, hhold'⟩ := Lock.released hhold
  have hunlock : s.unlockMutex i = { s with mutex := mutexOf l'.hold } := by
    rw [unlockMutex, hmutex]
    show (if i = i then _ else s) = _
    rw [if_pos rfl]
    rcases hhold' with ⟨less, rfl, hless⟩ | ⟨rfl, hlast⟩
    · rw [hless, if_neg (by omega)]
      rfl
    · rw [hlast, if_pos (by omega)]
      split <;> rfl
  rw [hunlock]
  refine .inr ⟨_, l', hstep, h.drop hhold (by rw [hpc]; exact ⟨rfl, rfl, rfl⟩) hhold' hwaiting rfl rfl
    (.of_neither rfl rfl (fun h => (by cases h)) fun h => (by cases h)) ⟨rfl, rfl, rfl, rfl⟩ rfl rfl (fun _ => rfl)
    (fun hn => ?_) rfl⟩
  rw [hnat] at hn
  cases hn

/-- A thread of the semaphore goes to a place that says the same of it. -/
theorem simulates_goto (h : Follows impl s l) (hn : impl.isNative = false) (hplace : pc.place = (s.pcs i).place)
    (hnat : pc.nativeOnly = false) (hre : pc.reentrant = true → 0 < s.held i)
    (hout : pc.outermost = true → s.held i = 0) : Simulates impl l (s.goto i pc) :=
  .inl (h.goto hplace ⟨hre, hout, fun h => absurd (hnat.symm.trans h) (by decide), fun _ => hn⟩)

/-- A thread returns from a function without having entered. -/
theorem simulates_return (h : Follows impl s l) (hplace : (s.pcs i).place = {}) :
    Simulates impl l (s.goto i .outside) :=
  .inl (h.goto hplace.symm (.of_neither rfl rfl (fun h => (by cases h)) fun h => (by cases h)))

/-- `lock_queue_` is swapped from 0 to 1. -/
theorem simulates_swap (h : Follows impl s l) (hn : impl.isNative = false) (houter : s.held i = 0)
    (hzero : s.lockQueue = 0) (hplace : pc.place = LockPc.setOwner.place) (hre : pc.reentrant = false)
    (hnat : pc.nativeOnly = false) : Simulates impl l ({ s with lockQueue := 1 }.goto i pc) := by
  refine simulates_acquire h ((h.lockQueue_eq_zero hn).mp hzero) rfl rfl houter
    ⟨fun h => absurd (hre.symm.trans h) (by decide), fun _ => rfl,
      fun h => absurd (hnat.symm.trans h) (by decide), fun _ => hn⟩
    (by rw [hplace]; exact ⟨rfl, rfl, rfl, rfl⟩) ⟨rfl, rfl, rfl⟩ (fun h => ?_)
    fun _ => ⟨rfl, rfl, rfl, rfl, by rw [hplace]; exact ⟨rfl, rfl⟩⟩
  rw [hn] at h
  cases h

/-- The owner increments `lock_queue_`. -/
theorem simulates_count (h : Follows impl s l) (hn : impl.isNative = false) (hheld : 0 < s.held i)
    (hplace₀ : (s.pcs i).place = {}) (hneither : pc.reentrant = false ∧ pc.outermost = false)
    (hnat : pc.nativeOnly = false)
    (hplace : pc.place.owning = true ∧ pc.place.queued = false ∧ pc.place.countBehind = true)
    (hbehind : pc.place.recursionBehind = true) :
    Simulates impl l ({ s with lockQueue := s.lockQueue + 1 }.goto i pc) := by
  refine simulates_reenter h hplace₀ hheld rfl rfl
    (.of_neither hneither.1 hneither.2 (fun h => absurd (hnat.symm.trans h) (by decide)) fun _ => hn) hplace
    ⟨rfl, rfl, rfl⟩ (fun h => ?_) fun _ => ⟨rfl, rfl, rfl, rfl, hbehind⟩
  rw [hn] at h
  cases h

/-- After a `Leave` the thread still has the lock, and is done, or it is to signal the semaphore. -/
theorem simulates_readRecursion (h : Follows impl s l) (hpc : s.pcs i = .readRecursion) :
    Simulates impl l (s.goto i (if s.recursion = 0 then .signal else .outside)) := by
  have hn := (h.placed i).semaphore (by rw [hpc]; rfl)
  obtain ⟨-, hrecursion, -, hbaton⟩ := h.fields.semaphore hn
  by_cases hheld : 0 < s.held i
  · obtain ⟨again, hhold, heq⟩ := h.entered (i := i) (by rw [hpc]; rfl) hheld
    have hrec := h.recursion_eq hn hhold
    have hown := h.owningThread_eq hn hhold
    have hcnt := h.count_eq hhold
    have hthr := h.thread_eq hhold
    rw [hpc] at hrec hown hcnt hthr
    have hpos : s.recursion = again + 1 := hrec
    rw [if_neg (by omega)]
    exact .inl (h.own hhold rfl (fun _ _ => rfl)
      (.of_neither rfl rfl (fun h => (by cases h)) fun h => (by cases h)) heq rfl hcnt hthr (fun _ => rfl)
      (fun _ => ⟨rfl, rfl, hrec, hown⟩) h.checked)
  · have houter := Nat.eq_zero_of_not_pos hheld
    have hdepth := h.depth i
    rw [RecursiveCriticalSection.depth, place, hpc, houter] at hdepth
    have hreleasing : s.Releasing l.hold i := ⟨by rw [place, hpc]; rfl, hdepth.symm⟩
    have hover : l.hold = .handedOver := by
      by_contra hne
      rw [Baton, if_neg hne] at hbaton
      exact hbaton.2 i hreleasing
    rw [if_pos (hrecursion.trans (by rw [hover]; rfl))]
    exact simulates_goto h hn (by rw [hpc]; rfl) rfl (fun h => (by cases h)) fun _ => houter

/-- A step of a thread that is in one of the functions. -/
theorem simulates_resume (h : Follows impl s l) (hstep : s.resume impl i = some s') : Simulates impl l s' := by
  have hsem := (h.placed i).semaphore
  have hout := (h.placed i).outermost
  have hre := (h.placed i).reentrant
  cases hpc : s.pcs i with
  | outside =>
    simp only [resume, hpc] at hstep
    cases hstep
  | checkOwner spin =>
    simp only [resume, hpc] at hstep
    cases hstep
    rw [hpc] at hsem
    have hn := hsem rfl
    have howner := h.owningThread_iff hn (i := i) (by rw [hpc]; rfl)
    split
    · rename_i hown
      exact simulates_goto h hn (by rw [hpc]; rfl) rfl (fun _ => howner.mp hown) fun h => (by cases h)
    · rename_i hown
      exact simulates_goto h hn (by rw [hpc]; rfl) rfl (fun h => (by cases h)) fun _ =>
        Nat.eq_zero_of_not_pos fun hpos => hown (howner.mpr hpos)
  | loadQueue spin =>
    simp only [resume, hpc] at hstep
    cases hstep
    rw [hpc] at hsem hout
    split
    · exact simulates_goto h (hsem rfl) (by rw [hpc]; rfl) rfl (fun h => (by cases h)) fun _ => hout rfl
    · exact simulates_goto h (hsem rfl) (by rw [hpc]; rfl) rfl (fun h => (by cases h)) fun _ => hout rfl
  | swapQueue spin =>
    simp only [resume, hpc] at hstep
    rw [hpc] at hsem hout
    split at hstep <;> cases hstep
    · exact simulates_swap h (hsem rfl) (hout rfl) (by assumption) rfl rfl rfl
    · exact simulates_goto h (hsem rfl) (by rw [hpc]; rfl) rfl (fun h => (by cases h)) fun _ => hout rfl
  | yield spin =>
    simp only [resume, hpc] at hstep
    cases hstep
    rw [hpc] at hsem hout
    split
    · exact simulates_goto h (hsem rfl) (by rw [hpc]; rfl) rfl (fun h => (by cases h)) fun _ => hout rfl
    · exact simulates_goto h (hsem rfl) (by rw [hpc]; rfl) rfl (fun h => (by cases h)) fun _ => hout rfl
  | countOwned =>
    simp only [resume, hpc] at hstep
    cases hstep
    rw [hpc] at hsem hre
    exact simulates_count h (hsem rfl) (hre rfl) (by rw [hpc]; rfl) ⟨rfl, rfl⟩ rfl ⟨rfl, rfl, rfl⟩ rfl
  | joinQueue =>
    simp only [resume, hpc] at hstep
    cases hstep
    exact simulates_joinQueue h hpc
  | beforeWait =>
    simp only [resume, hpc] at hstep
    cases hstep
    rw [hpc] at hsem hout
    have howner := h.owningThread_ne (hsem rfl) (i := i) (by rw [hpc]; rfl) (hout rfl)
    rw [dcheck_of (s := s) (bne_iff_ne.mpr howner)]
    exact simulates_goto h (hsem rfl) (by rw [hpc]; rfl) rfl (fun h => (by cases h)) fun _ => hout rfl
  | waiting =>
    simp only [resume, hpc] at hstep
    split at hstep <;> cases hstep
    exact simulates_waiting h hpc (by assumption)
  | afterWait =>
    simp only [resume, hpc] at hstep
    cases hstep
    exact .inl (follows_afterWait h hpc)
  | setOwner =>
    simp only [resume, hpc] at hstep
    cases hstep
    exact .inl (follows_setOwner h hpc)
  | deepen =>
    simp only [resume, hpc] at hstep
    cases hstep
    exact .inl (follows_deepen h hpc)
  | tryCheckOwner =>
    simp only [resume, hpc] at hstep
    cases hstep
    rw [hpc] at hsem
    have hn := hsem rfl
    have howner := h.owningThread_iff hn (i := i) (by rw [hpc]; rfl)
    split
    · rename_i hown
      exact simulates_goto h hn (by rw [hpc]; rfl) rfl (fun _ => howner.mp hown) fun h => (by cases h)
    · rename_i hown
      exact simulates_goto h hn (by rw [hpc]; rfl) rfl (fun h => (by cases h)) fun _ =>
        Nat.eq_zero_of_not_pos fun hpos => hown (howner.mpr hpos)
  | trySwap =>
    simp only [resume, hpc] at hstep
    rw [hpc] at hsem hout
    split at hstep <;> cases hstep
    · exact simulates_swap h (hsem rfl) (hout rfl) (by assumption) rfl rfl rfl
    · exact simulates_return h (by rw [hpc]; rfl)
  | trySetOwner =>
    simp only [resume, hpc] at hstep
    cases hstep
    exact .inl (follows_trySetOwner h hpc)
  | tryCountOwned =>
    simp only [resume, hpc] at hstep
    cases hstep
    rw [hpc] at hsem hre
    exact simulates_count h (hsem rfl) (hre rfl) (by rw [hpc]; rfl) ⟨rfl, rfl⟩ rfl ⟨rfl, rfl, rfl⟩ rfl
  | mutexLock =>
    simp only [resume, hpc, Option.map_eq_some_iff] at hstep
    obtain ⟨t, hlock, rfl⟩ := hstep
    exact simulates_lockMutex h ((h.placed i).native (by rw [hpc]; rfl)) (by rw [hpc]; rfl) hlock
  | mutexTryLock =>
    simp only [resume, hpc] at hstep
    cases hstep
    cases hlock : s.lockMutex i with
    | none => exact simulates_return h (by rw [hpc]; rfl)
    | some t =>
      exact simulates_lockMutex h ((h.placed i).native (by rw [hpc]; rfl)) (by rw [hpc]; rfl) hlock
  | noteOwner => exact .inl (follows_noteOwner h hpc hstep)
  | noteCount =>
    simp only [resume, hpc] at hstep
    cases hstep
    exact .inl (follows_noteCount h hpc)
  | leaveCheck =>
    simp only [resume, hpc] at hstep
    cases hstep
    exact .inl (follows_leaveCheck h hpc)
  | unnoteCount =>
    simp only [resume, hpc] at hstep
    cases hstep
    exact .inl (follows_unnoteCount h hpc)
  | unnoteOwner =>
    simp only [resume, hpc] at hstep
    cases hstep
    exact .inl (follows_unnoteOwner h hpc)
  | mutexUnlock =>
    simp only [resume, hpc] at hstep
    cases hstep
    exact simulates_mutexUnlock h hpc
  | checkHeld =>
    simp only [resume, hpc] at hstep
    cases hstep
    exact .inl (follows_checkHeld h hpc)
  | lessen =>
    simp only [resume, hpc] at hstep
    cases hstep
    exact .inl (follows_lessen h hpc)
  | clearOwner =>
    simp only [resume, hpc] at hstep
    cases hstep
    exact .inl (follows_clearOwner h hpc)
  | countLeave =>
    simp only [resume, hpc] at hstep
    cases hstep
    exact simulates_countLeave h hpc
  | readRecursion =>
    simp only [resume, hpc] at hstep
    cases hstep
    exact simulates_readRecursion h hpc
  | signal =>
    simp only [resume, hpc] at hstep
    cases hstep
    exact .inl (h.signal hpc)

theorem simulates_step {a : LockAction T} (hok : LeavesHeld s a) (hstep : step impl s a = some s')
    (h : Follows impl s l) : Simulates impl l s' := by
  cases a with
  | resume i => exact simulates_resume h hstep
  | enter i =>
    simp only [step] at hstep
    split at hstep <;> cases hstep
    rename_i hpc
    cases hi : impl with
    | native =>
      rw [hi] at h
      exact .inl (h.goto (by rw [hpc]; rfl) (.of_neither rfl rfl (fun _ => rfl) fun h => (by cases h)))
    | semaphore spin =>
      rw [hi] at h
      exact .inl (h.goto (by rw [hpc]; rfl) (.of_neither rfl rfl (fun h => (by cases h)) fun _ => rfl))
  | tryEnter i =>
    simp only [step] at hstep
    split at hstep <;> cases hstep
    rename_i hpc
    cases hi : impl with
    | native =>
      rw [hi] at h
      exact .inl (h.goto (by rw [hpc]; rfl) (.of_neither rfl rfl (fun _ => rfl) fun h => (by cases h)))
    | semaphore spin =>
      rw [hi] at h
      exact .inl (h.goto (by rw [hpc]; rfl) (.of_neither rfl rfl (fun h => (by cases h)) fun _ => rfl))
  | leave i =>
    simp only [step] at hstep
    split at hstep <;> cases hstep
    rename_i hpc
    obtain ⟨again, hhold, hheld⟩ := h.entered (i := i) (by rw [hpc]; rfl) hok
    have hless : s.held i - 1 = again := by omega
    refine .inl (h.own hhold rfl (fun j hj => Function.update_of_ne hj _ _)
      (.of_neither rfl rfl (fun h => (by cases h)) fun h => (by cases h)) ?_ rfl ?_ ?_ (fun _ => rfl)
      (h.debug _ hhold (by rw [hpc]; rfl) (by rw [hpc]; rfl) ⟨rfl, rfl, rfl, rfl⟩) h.checked)
    · exact (congrArg (· + 1) (Function.update_self i _ s.held)).trans (congrArg (· + 1) hless)
    · exact (h.count_eq hhold).trans (by rw [hpc]; rfl)
    · exact (h.thread_eq hhold).trans (by rw [hpc]; rfl)

/-- **The section is a reentrant lock**: it follows one through every run. -/
theorem follows_run (h : Run impl s) : ∃ l, Reaches Lock.step Always .init l ∧ Follows impl s l :=
  h.simulate (R := Follows impl) (fun _ _ _ _ hok hstep hfollows => simulates_step hok hstep hfollows)
    (follows_init impl)

end RecursiveCriticalSection

end IoBase
