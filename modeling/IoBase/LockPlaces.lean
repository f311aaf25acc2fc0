import IoBase.RecursiveCriticalSection

/- How the fields of a `RecursiveCriticalSection` stand for a reentrant lock.

   The fields run after the lock they stand for: a thread that has taken it has yet to write
   `owning_thread_`, `recursion_` and the debug fields, and one that leaves it has written
   them before it counts itself out. `LockPc.place` says which fields are behind at each
   place, and `Follows` ties the fields to a `ReentrantLock.Lock` by the place of the thread
   that has it.

   While the lock is handed over there is one signal of the semaphore, given or to be given
   (`Baton`). -/
namespace IoBase
open Transition ReentrantLock

/-- What a place in the functions says of the thread at it: whether its call has the lock, and which
    fields do not tell of that yet, or any more; whether it is counted as waiting; and whether it is to
    signal the semaphore unless it still has the lock. -/
structure LockPlace where
  owning : Bool := false
  ownerBehind : Bool := false
  recursionBehind : Bool := false
  threadBehind : Bool := false
  countBehind : Bool := false
  queued : Bool := false
  releasing : Bool := false
  deriving DecidableEq

def LockPc.place : LockPc → LockPlace
  | .beforeWait | .waiting => { queued := true }
  | .afterWait | .setOwner | .trySetOwner | .countLeave =>
    { owning := true, ownerBehind := true, recursionBehind := true, threadBehind := true, countBehind := true }
  | .deepen | .clearOwner =>
    { owning := true, recursionBehind := true, threadBehind := true, countBehind := true }
  | .noteOwner | .mutexUnlock | .checkHeld | .lessen =>
    { owning := true, threadBehind := true, countBehind := true }
  | .noteCount | .unnoteOwner => { owning := true, countBehind := true }
  | .leaveCheck | .unnoteCount => { owning := true }
  | .readRecursion | .signal => { releasing := true }
  | _ => {}

/-- Places that a thread comes to only when it has the lock already, or only when it does not. -/
def LockPc.reentrant : LockPc → Bool
  | .countOwned | .tryCountOwned => true
  | _ => false

def LockPc.outermost : LockPc → Bool
  | .loadQueue _ | .swapQueue _ | .yield _ | .joinQueue | .beforeWait | .waiting | .afterWait | .trySwap
  | .trySetOwner | .signal => true
  | _ => false

/-- The places of the native mutex, and those of the semaphore. -/
def LockPc.nativeOnly : LockPc → Bool
  | .mutexLock | .mutexTryLock | .mutexUnlock => true
  | _ => false

def LockPc.semaphoreOnly : LockPc → Bool
  | .outside | .noteOwner | .noteCount | .leaveCheck | .unnoteCount | .unnoteOwner | .mutexLock
  | .mutexTryLock | .mutexUnlock => false
  | _ => true

/-- A thread that had the section `held` times before its call can be at the place. -/
structure Placed (impl : LockImpl) (pc : LockPc) (held : Nat) : Prop where
  reentrant : pc.reentrant = true → 0 < held
  outermost : pc.outermost = true → held = 0
  native : pc.nativeOnly = true → impl.isNative = true
  semaphore : pc.semaphoreOnly = true → impl.isNative = false

/-- A place that both the owner and others come to. -/
theorem Placed.of_neither {impl : LockImpl} {pc : LockPc} {held : Nat} (hre : pc.reentrant = false)
    (hout : pc.outermost = false) (hnat : pc.nativeOnly = true → impl.isNative = true)
    (hsem : pc.semaphoreOnly = true → impl.isNative = false) : Placed impl pc held where
  reentrant := fun h => absurd (hre.symm.trans h) (by decide)
  outermost := fun h => absurd (hout.symm.trans h) (by decide)
  native := hnat
  semaphore := hsem

namespace RecursiveCriticalSection
variable {T : Type}

def place (s : RecursiveCriticalSection T) (i : T) : LockPlace := (s.pcs i).place

/-- How often a thread has the lock, with the call it is making. -/
def depth (s : RecursiveCriticalSection T) (i : T) : Nat := s.held i + (s.place i).owning.toNat

/-- What a counter of the lock's depth holds, which may be behind. -/
def timesOf (behind : T → Bool) : Hold T → Int
  | .held i again => if behind i = true then again else again + 1
  | _ => 0

/-- What a field for the lock's owner holds. -/
def ownerOf (behind : T → Bool) : Hold T → Option T
  | .held i again => if again = 0 ∧ behind i = true then none else some i
  | _ => none

def mutexOf : Hold T → Option (T × Nat)
  | .held i again => some (i, again + 1)
  | _ => none

variable [DecidableEq T]

/-- The thread has left the lock to others and has not signaled the semaphore. -/
def Releasing (s : RecursiveCriticalSection T) (hold : Hold T) (i : T) : Prop :=
  (s.place i).releasing = true ∧ hold.depth i = 0

/-- While the lock is handed over there is one signal, given or to be given. -/
def Baton (s : RecursiveCriticalSection T) (hold : Hold T) : Prop :=
  if hold = .handedOver then
    s.semaphore = 1 ∧ (∀ i, ¬s.Releasing hold i) ∨
      s.semaphore = 0 ∧ ∃ i, s.Releasing hold i ∧ ∀ j, s.Releasing hold j → j = i
  else s.semaphore = 0 ∧ ∀ i, ¬s.Releasing hold i

structure SemaphoreFields (s : RecursiveCriticalSection T) (l : Lock T) : Prop where
  lockQueue : s.lockQueue = l.count
  recursion : s.recursion = timesOf (fun i => (s.place i).recursionBehind) l.hold
  owningThread : s.owningThread = ownerOf (fun i => (s.place i).ownerBehind) l.hold
  baton : s.Baton l.hold

structure Fields (impl : LockImpl) (s : RecursiveCriticalSection T) (l : Lock T) : Prop where
  recursionCount : s.recursionCount = timesOf (fun i => (s.place i).countBehind) l.hold
  thread : s.thread = ownerOf (fun i => (s.place i).threadBehind) l.hold
  native : impl.isNative = true → s.mutex = mutexOf l.hold
  semaphore : impl.isNative = false → s.SemaphoreFields l

/-- The section stands for the lock, and no check has failed. -/
structure Follows (impl : LockImpl) (s : RecursiveCriticalSection T) (l : Lock T) : Prop where
  placed : ∀ i, Placed impl (s.pcs i) (s.held i)
  depth : ∀ i, s.depth i = l.hold.depth i
  queued : ∀ i, (s.place i).queued = true ↔ i ∈ l.waiting
  fields : s.Fields impl l
  checked : s.failed = []

theorem follows_init (impl : LockImpl) : Follows impl (init : RecursiveCriticalSection T) .init where
  placed := fun _ => ⟨by simp [init, LockPc.reentrant], by simp [init, LockPc.outermost],
    by simp [init, LockPc.nativeOnly], by simp [init, LockPc.semaphoreOnly]⟩
  depth := fun _ => rfl
  queued := fun _ => ⟨fun h => (by cases h), fun h => (by cases h)⟩
  fields := ⟨rfl, rfl, fun _ => rfl, fun _ => ⟨rfl, rfl, rfl, rfl, fun _ h => (by cases h.1)⟩⟩
  checked := rfl

variable {impl : LockImpl} {s s' : RecursiveCriticalSection T} {l l' : Lock T} {i : T} {pc : LockPc}

/-! ## What a thread's own step leaves alone -/

theorem place_of_pcs (hpcs : s'.pcs = Function.update s.pcs i pc) :
    s'.place = Function.update s.place i pc.place := by
  funext j
  by_cases hj : j = i
  · rw [hj, place, hpcs, Function.update_self, Function.update_self]
  · rw [place, hpcs, Function.update_of_ne hj, Function.update_of_ne hj, place]

theorem place_goto (s : RecursiveCriticalSection T) (i : T) (pc : LockPc) :
    (s.goto i pc).place = Function.update s.place i pc.place := place_of_pcs rfl

/-- The others keep their places, and what they have of the lock. -/
theorem Follows.step (h : Follows impl s l) (hpcs : s'.pcs = Function.update s.pcs i pc)
    (hheld : ∀ j, j ≠ i → s'.held j = s.held j) (hdepth : ∀ j, j ≠ i → l'.hold.depth j = l.hold.depth j)
    (hwaiting : ∀ j, j ≠ i → (j ∈ l'.waiting ↔ j ∈ l.waiting)) (hplaced : Placed impl pc (s'.held i))
    (howning : s'.held i + pc.place.owning.toNat = l'.hold.depth i)
    (hqueued : pc.place.queued = true ↔ i ∈ l'.waiting) (hfields : s'.Fields impl l')
    (hchecked : s'.failed = []) : Follows impl s' l' := by
  have hplace := place_of_pcs hpcs
  refine ⟨fun j => ?_, fun j => ?_, fun j => ?_, hfields, hchecked⟩
  all_goals by_cases hj : j = i
  · rw [hj, hpcs, Function.update_self]
    exact hplaced
  · rw [hpcs, Function.update_of_ne hj, hheld j hj]
    exact h.placed j
  · rw [hj, RecursiveCriticalSection.depth, hplace, Function.update_self]
    exact howning
  · rw [RecursiveCriticalSection.depth, hplace, Function.update_of_ne hj, hheld j hj, hdepth j hj]
    exact h.depth j
  · rw [hj, hplace, Function.update_self]
    exact hqueued
  · rw [hplace, Function.update_of_ne hj, hwaiting j hj]
    exact h.queued j

/-- A thread goes to a place that says the same of it. -/
theorem Follows.goto (h : Follows impl s l) (hplace : pc.place = (s.pcs i).place)
    (hplaced : Placed impl pc (s.held i)) : Follows impl (s.goto i pc) l := by
  have hsame : (s.goto i pc).place = s.place := by
    rw [place_goto, hplace]
    exact Function.update_eq_self i s.place
  have hdepth := h.depth i
  have hqueued := h.queued i
  rw [RecursiveCriticalSection.depth, place, ← hplace] at hdepth
  rw [place, ← hplace] at hqueued
  refine h.step rfl (fun _ _ => rfl) (fun _ _ => rfl) (fun _ _ => Iff.rfl) hplaced hdepth hqueued
    ⟨?_, ?_, h.fields.native, fun hn => ?_⟩ h.checked
  · rw [hsame]
    exact h.fields.recursionCount
  · rw [hsame]
    exact h.fields.thread
  · obtain ⟨hqueue, hrecursion, howner, hbaton⟩ := h.fields.semaphore hn
    refine ⟨hqueue, ?_, ?_, ?_⟩
    · rw [hsame]
      exact hrecursion
    · rw [hsame]
      exact howner
    · simp only [Baton, Releasing] at hbaton ⊢
      rw [hsame]
      exact hbaton

/-- The owner of the lock writes fields that only it writes. -/
theorem Follows.own {again : Nat} (h : Follows impl s l) (hhold : l.hold = .held i again)
    (hpcs : s'.pcs = Function.update s.pcs i pc) (hheld : ∀ j, j ≠ i → s'.held j = s.held j)
    (hplaced : Placed impl pc (s'.held i)) (howning : s'.held i + pc.place.owning.toNat = again + 1)
    (hqueued : pc.place.queued = false)
    (hcount : s'.recursionCount = if pc.place.countBehind = true then (again : Int) else again + 1)
    (hthread : s'.thread = if again = 0 ∧ pc.place.threadBehind = true then none else some i)
    (hnative : impl.isNative = true → s'.mutex = s.mutex)
    (hsemaphore : impl.isNative = false → s'.lockQueue = s.lockQueue ∧ s'.semaphore = s.semaphore ∧
      s'.recursion = (if pc.place.recursionBehind = true then (again : Int) else again + 1) ∧
      s'.owningThread = if again = 0 ∧ pc.place.ownerBehind = true then none else some i)
    (hchecked : s'.failed = []) : Follows impl s' l := by
  have hplace := place_of_pcs hpcs
  refine h.step hpcs hheld (fun _ _ => rfl) (fun _ _ => Iff.rfl) hplaced ?_ ?_ ⟨?_, ?_, ?_, fun hn => ?_⟩ hchecked
  · rw [howning, hhold, Hold.depth, if_pos rfl]
  · rw [hqueued]
    exact ⟨fun h => (by cases h), fun hi => absurd hi (l.owner_not_waiting i again hhold)⟩
  · simp only [hhold, timesOf, hplace, Function.update_self, hcount]
  · simp only [hhold, ownerOf, hplace, Function.update_self, hthread]
  · intro hn
    rw [hnative hn]
    exact h.fields.native hn
  · obtain ⟨hqueue, -, -, hbaton⟩ := h.fields.semaphore hn
    obtain ⟨hqueue', hsem, hrecursion, howner⟩ := hsemaphore hn
    refine ⟨hqueue'.trans hqueue, ?_, ?_, ?_⟩
    · simp only [hhold, timesOf, hplace, Function.update_self, hrecursion]
    · simp only [hhold, ownerOf, hplace, Function.update_self, howner]
    · simp only [Baton, hhold, reduceCtorEq, if_false, Releasing] at hbaton ⊢
      refine ⟨hsem.trans hbaton.1, fun j hj => ?_⟩
      by_cases hji : j = i
      · rw [hji, Hold.depth, if_pos rfl] at hj
        cases hj.2
      · rw [hplace, Function.update_of_ne hji] at hj
        exact hbaton.2 j hj

/-! ## The lock changes hands -/

omit [DecidableEq T] in
theorem timesOf_of_not_held {behind : T → Bool} {hold : Hold T} (h : ∀ j again, hold ≠ .held j again) :
    timesOf behind hold = 0 := by
  cases hold with
  | held j again => exact absurd rfl (h j again)
  | _ => rfl

omit [DecidableEq T] in
theorem ownerOf_of_not_held {behind : T → Bool} {hold : Hold T} (h : ∀ j again, hold ≠ .held j again) :
    ownerOf behind hold = none := by
  cases hold with
  | held j again => exact absurd rfl (h j again)
  | _ => rfl

theorem depth_of_not_held {hold : Hold T} (h : ∀ j again, hold ≠ .held j again) (i : T) :
    hold.depth i = 0 := by
  cases hold with
  | held j again => exact absurd rfl (h j again)
  | _ => rfl

/-- A thread takes the lock that nobody has: no field tells of it yet. -/
theorem Follows.take (h : Follows impl s l) (hnobody : ∀ j again, l.hold ≠ .held j again)
    (hhold : l'.hold = .held i 0) (hwaiting : ∀ j, j ≠ i → (j ∈ l'.waiting ↔ j ∈ l.waiting))
    (hpcs : s'.pcs = Function.update s.pcs i pc) (hheld : s'.held = s.held) (houter : s.held i = 0)
    (hplaced : Placed impl pc 0) (howning : pc.place.owning = true) (hqueued : pc.place.queued = false)
    (hbehind : pc.place.countBehind = true ∧ pc.place.threadBehind = true)
    (hcount : s'.recursionCount = s.recursionCount) (hthread : s'.thread = s.thread)
    (hnative : impl.isNative = true → s'.mutex = some (i, 1))
    (hsemaphore : impl.isNative = false → s'.lockQueue = l'.count ∧ s'.semaphore = 0 ∧
      (∀ j, ¬s.Releasing l.hold j) ∧ s'.recursion = s.recursion ∧ s'.owningThread = s.owningThread ∧
      pc.place.recursionBehind = true ∧ pc.place.ownerBehind = true)
    (hchecked : s'.failed = s.failed) : Follows impl s' l' := by
  have hplace := place_of_pcs hpcs
  have hnone := depth_of_not_held hnobody
  have hother : ∀ j, j ≠ i → l'.hold.depth j = 0 := fun j hj => by
    rw [hhold, Hold.depth, if_neg (Ne.symm hj)]
  refine h.step hpcs (fun j _ => by rw [hheld]) (fun j hj => by rw [hother j hj, hnone j]) hwaiting ?_ ?_ ?_
    ⟨?_, ?_, ?_, fun hn => ?_⟩ (hchecked.trans h.checked)
  · rw [hheld, houter]
    exact hplaced
  · rw [hheld, houter, howning, hhold, Hold.depth, if_pos rfl]
    rfl
  · rw [hqueued]
    exact ⟨fun h => (by cases h), fun hi => absurd hi (l'.owner_not_waiting i 0 hhold)⟩
  · rw [hcount, h.fields.recursionCount, timesOf_of_not_held hnobody]
    simp only [hhold, timesOf, hplace, Function.update_self, hbehind.1, if_true]
    rfl
  · rw [hthread, h.fields.thread, ownerOf_of_not_held hnobody]
    simp only [hhold, ownerOf, hplace, Function.update_self, hbehind.2, and_self, if_true]
  · intro hn
    rw [hnative hn, hhold]
    rfl
  · obtain ⟨hqueue, hsem, hquiet, hrecursion, howner, hbehind⟩ := hsemaphore hn
    obtain ⟨-, hrecursion₀, howner₀, -⟩ := h.fields.semaphore hn
    refine ⟨hqueue, ?_, ?_, ?_⟩
    · rw [hrecursion, hrecursion₀, timesOf_of_not_held hnobody]
      simp only [hhold, timesOf, hplace, Function.update_self, hbehind.1, if_true]
      rfl
    · rw [howner, howner₀, ownerOf_of_not_held hnobody]
      simp only [hhold, ownerOf, hplace, Function.update_self, hbehind.2, and_self, if_true]
    · simp only [Baton, hhold, reduceCtorEq, if_false]
      refine ⟨hsem, fun j hj => ?_⟩
      by_cases hji : j = i
      · rw [Releasing, hji, Hold.depth, if_pos rfl] at hj
        cases hj.2
      · rw [Releasing, hplace, Function.update_of_ne hji] at hj
        exact hquiet j ⟨hj.1, hnone j⟩

/-- The owner takes the lock once more: again no field tells of it yet. -/
theorem Follows.takeAgain {again : Nat} (h : Follows impl s l) (hhold : l.hold = .held i again)
    (hplace₀ : (s.pcs i).place = {}) (hhold' : l'.hold = .held i (again + 1)) (hwaiting : l'.waiting = l.waiting)
    (hpcs : s'.pcs = Function.update s.pcs i pc) (hheld : s'.held = s.held)
    (hplaced : Placed impl pc (s.held i)) (howning : pc.place.owning = true) (hqueued : pc.place.queued = false)
    (hbehind : pc.place.countBehind = true) (hcount : s'.recursionCount = s.recursionCount)
    (hthread : s'.thread = s.thread) (hnative : impl.isNative = true → s'.mutex = some (i, again + 2))
    (hsemaphore : impl.isNative = false → s'.lockQueue = s.lockQueue + 1 ∧ s'.semaphore = s.semaphore ∧
      s'.recursion = s.recursion ∧ s'.owningThread = s.owningThread ∧ pc.place.recursionBehind = true)
    (hchecked : s'.failed = s.failed) : Follows impl s' l' := by
  have hplace := place_of_pcs hpcs
  have hself : s'.place i = pc.place := by rw [hplace, Function.update_self]
  have hself₀ : s.place i = {} := hplace₀
  have hdepth := h.depth i
  rw [RecursiveCriticalSection.depth, hself₀, hhold, Hold.depth, if_pos rfl] at hdepth
  refine h.step hpcs (fun j _ => by rw [hheld]) (fun j hj => ?_) (fun j _ => by rw [hwaiting]) ?_ ?_ ?_
    ⟨?_, ?_, ?_, fun hn => ?_⟩ (hchecked.trans h.checked)
  · rw [hhold, hhold', Hold.depth, Hold.depth, if_neg (Ne.symm hj), if_neg (Ne.symm hj)]
  · rw [hheld]
    exact hplaced
  · rw [hheld, howning, hhold', Hold.depth, if_pos rfl, ← hdepth]
    rfl
  · rw [hqueued]
    exact ⟨fun h => (by cases h), fun hi => absurd hi (l'.owner_not_waiting i _ hhold')⟩
  · rw [hcount, h.fields.recursionCount]
    simp only [hhold, hhold', timesOf, hself, hself₀, hbehind]
    simp
  · rw [hthread, h.fields.thread]
    simp only [hhold, hhold', ownerOf, hself₀]
    simp
  · intro hn
    rw [hnative hn, hhold']
    rfl
  · obtain ⟨hqueue, hsem, hrecursion, howner, hbehind⟩ := hsemaphore hn
    obtain ⟨hqueue₀, hrecursion₀, howner₀, hbaton⟩ := h.fields.semaphore hn
    refine ⟨?_, ?_, ?_, ?_⟩
    · rw [hqueue, hqueue₀, Lock.count, Lock.count, hhold, hhold', hwaiting, Hold.times, Hold.times]
      push_cast
      omega
    · rw [hrecursion, hrecursion₀]
      simp only [hhold, hhold', timesOf, hself, hself₀, hbehind]
      simp
    · rw [howner, howner₀]
      simp only [hhold, hhold', ownerOf, hself₀]
      simp
    · simp only [Baton, hhold, hhold', reduceCtorEq, if_false] at hbaton ⊢
      refine ⟨hsem.trans hbaton.1, fun j hj => ?_⟩
      by_cases hji : j = i
      · rw [Releasing, hji, Hold.depth, if_pos rfl] at hj
        cases hj.2
      · rw [Releasing, hplace, Function.update_of_ne hji] at hj
        refine hbaton.2 j ⟨hj.1, ?_⟩
        rw [Hold.depth, if_neg (Ne.symm hji)]

/-- The owner leaves the lock once: every field told of that already. -/
theorem Follows.drop {again : Nat} (h : Follows impl s l) (hhold : l.hold = .held i again)
    (hplace₀ : (s.pcs i).place.owning = true ∧ (s.pcs i).place.countBehind = true ∧
      (s.pcs i).place.threadBehind = true)
    (hhold' : (∃ less, again = less + 1 ∧ l'.hold = .held i less) ∨
      again = 0 ∧ l'.hold = if l.waiting = [] then .free else .handedOver)
    (hwaiting : l'.waiting = l.waiting) (hpcs : s'.pcs = Function.update s.pcs i pc) (hheld : s'.held = s.held)
    (hplaced : Placed impl pc (s.held i))
    (hplace : pc.place.owning = false ∧ pc.place.countBehind = false ∧ pc.place.threadBehind = false ∧
      pc.place.queued = false)
    (hcount : s'.recursionCount = s.recursionCount) (hthread : s'.thread = s.thread)
    (hnative : impl.isNative = true → s'.mutex = mutexOf l'.hold)
    (hsemaphore : impl.isNative = false → s'.lockQueue = s.lockQueue - 1 ∧ s'.semaphore = s.semaphore ∧
      s'.recursion = s.recursion ∧ s'.owningThread = s.owningThread ∧
      ((s.pcs i).place.recursionBehind = true ∧ (s.pcs i).place.ownerBehind = true) ∧
      (pc.place.recursionBehind = false ∧ pc.place.ownerBehind = false) ∧
      (l'.hold = .handedOver → pc.place.releasing = true) ∧ (l'.hold = .free → pc.place.releasing = false))
    (hchecked : s'.failed = s.failed) : Follows impl s' l' := by
  have hplaces := place_of_pcs hpcs
  have hself : s'.place i = pc.place := by rw [hplaces, Function.update_self]
  obtain ⟨howning, hcountBehind, hthreadBehind, hqueued⟩ := hplace
  have hdepth := h.depth i
  rw [RecursiveCriticalSection.depth, place, hplace₀.1, hhold, Hold.depth, if_pos rfl] at hdepth
  have hheld_eq : s.held i = again := Nat.succ.inj hdepth
  have hdepth' : l'.hold.depth i = again := by
    rcases hhold' with ⟨less, rfl, hhold'⟩ | ⟨rfl, hhold'⟩
    · rw [hhold', Hold.depth, if_pos rfl]
    · rw [hhold']
      split <;> rfl
  have hother : ∀ j, j ≠ i → l'.hold.depth j = 0 := by
    intro j hj
    rcases hhold' with ⟨less, rfl, hhold'⟩ | ⟨rfl, hhold'⟩
    · rw [hhold', Hold.depth, if_neg (Ne.symm hj)]
    · rw [hhold']
      split <;> rfl
  -- a field that was behind before, and is not behind now
  have htimes : ∀ (behind : LockPlace → Bool), behind (s.place i) = true → behind pc.place = false →
      timesOf (fun j => behind (s.place j)) l.hold = timesOf (fun j => behind (s'.place j)) l'.hold := by
    intro behind hb hb'
    rcases hhold' with ⟨less, rfl, hhold'⟩ | ⟨rfl, hhold'⟩
    · simp only [hhold, hhold', timesOf, hself, hb, hb']
      simp
    · rw [hhold, hhold']
      split <;> simp [timesOf, hb]
  have howner : ∀ (behind : LockPlace → Bool), behind (s.place i) = true → behind pc.place = false →
      ownerOf (fun j => behind (s.place j)) l.hold = ownerOf (fun j => behind (s'.place j)) l'.hold := by
    intro behind hb hb'
    rcases hhold' with ⟨less, rfl, hhold'⟩ | ⟨rfl, hhold'⟩
    · simp only [hhold, hhold', ownerOf, hself, hb, hb']
      simp
    · rw [hhold, hhold']
      split <;> simp [ownerOf, hb]
  refine h.step hpcs (fun j _ => by rw [hheld]) (fun j hj => ?_) (fun j _ => by rw [hwaiting]) ?_ ?_ ?_
    ⟨?_, ?_, hnative, fun hn => ?_⟩ (hchecked.trans h.checked)
  · rw [hother j hj, hhold, Hold.depth, if_neg (Ne.symm hj)]
  · rw [hheld]
    exact hplaced
  · rw [hheld, howning, hdepth', hheld_eq]
    rfl
  · rw [hqueued, hwaiting]
    exact ⟨fun h => (by cases h), fun hi => absurd hi (l.owner_not_waiting i _ hhold)⟩
  · rw [hcount, h.fields.recursionCount]
    exact htimes LockPlace.countBehind hplace₀.2.1 hcountBehind
  · rw [hthread, h.fields.thread]
    exact howner LockPlace.threadBehind hplace₀.2.2 hthreadBehind
  · obtain ⟨hqueue, hsem, hrecursion, howning', hbefore, hafter, hreleasing, hfree⟩ := hsemaphore hn
    obtain ⟨hqueue₀, hrecursion₀, howner₀, hbaton⟩ := h.fields.semaphore hn
    refine ⟨?_, ?_, ?_, ?_⟩
    · rw [hqueue, hqueue₀, Lock.count, Lock.count, hhold, hwaiting, Hold.times]
      rcases hhold' with ⟨less, rfl, hhold'⟩ | ⟨rfl, hhold'⟩
      · rw [hhold', Hold.times]
        push_cast
        omega
      · have hnone : l'.hold.times = 0 := by
          rw [hhold']
          split <;> rfl
        rw [hnone]
        push_cast
        omega
    · rw [hrecursion, hrecursion₀]
      exact htimes LockPlace.recursionBehind hbefore.1 hafter.1
    · rw [howning', howner₀]
      exact howner LockPlace.ownerBehind hbefore.2 hafter.2
    · simp only [Baton, hhold, reduceCtorEq, if_false] at hbaton
      have hquiet : ∀ j, j ≠ i → ¬s'.Releasing l'.hold j := by
        intro j hj hrel
        rw [Releasing, hplaces, Function.update_of_ne hj] at hrel
        refine hbaton.2 j ⟨hrel.1, ?_⟩
        rw [Hold.depth, if_neg (Ne.symm hj)]
      rw [Baton]
      split
      · rename_i hover
        refine .inr ⟨hsem.trans hbaton.1, i, ⟨by rw [hself, hreleasing hover], ?_⟩, fun j hj => ?_⟩
        · rw [hover]
          rfl
        · by_contra hji
          exact hquiet j hji hj
      · rename_i hover
        refine ⟨hsem.trans hbaton.1, fun j hj => ?_⟩
        by_cases hji : j = i
        · obtain ⟨hrel, hzero⟩ := hj
          rw [hji, hself] at hrel
          rw [hji] at hzero
          rcases hhold' with ⟨less, rfl, hhold'⟩ | ⟨rfl, hhold'⟩
          · rw [hhold', Hold.depth, if_pos rfl] at hzero
            cases hzero
          · rw [hhold'] at hover
            split at hover
            · rename_i hnone
              rw [hfree (by rw [hhold', if_pos hnone])] at hrel
              cases hrel
            · exact hover rfl
        · exact hquiet j hji hj

/-- A thread that finds the lock taken counts itself as waiting. -/
theorem Follows.enqueue (h : Follows impl s l) (hn : impl.isNative = false) (hpc : s.pcs i = .joinQueue)
    (hhold : l'.hold = l.hold) (hwaiting : l'.waiting = l.waiting ++ [i]) :
    Follows impl ({ s with lockQueue := s.lockQueue + 1 }.goto i .beforeWait) l' := by
  have houter : s.held i = 0 := (h.placed i).outermost (by rw [hpc]; rfl)
  have hplace : ({ s with lockQueue := s.lockQueue + 1 }.goto i .beforeWait).place =
      Function.update s.place i { queued := true } := place_goto _ i .beforeWait
  have hdepth := h.depth i
  rw [RecursiveCriticalSection.depth, place, hpc, houter] at hdepth
  have hnot : ∀ again, l.hold ≠ .held i again := by
    intro again hi
    rw [hi, Hold.depth, if_pos rfl] at hdepth
    cases hdepth
  -- the fields of another thread are not touched
  have htimes : ∀ (behind : LockPlace → Bool), timesOf (fun j => behind (s.place j)) l.hold =
      timesOf (fun j => behind (({ s with lockQueue := s.lockQueue + 1 }.goto i .beforeWait).place j)) l.hold := by
    intro behind
    rw [hplace]
    cases hl : l.hold with
    | held j again =>
      have hj : j ≠ i := fun hj => hnot again (hj ▸ hl)
      simp only [timesOf, Function.update_of_ne hj]
    | _ => rfl
  have howner : ∀ (behind : LockPlace → Bool), ownerOf (fun j => behind (s.place j)) l.hold =
      ownerOf (fun j => behind (({ s with lockQueue := s.lockQueue + 1 }.goto i .beforeWait).place j)) l.hold := by
    intro behind
    rw [hplace]
    cases hl : l.hold with
    | held j again =>
      have hj : j ≠ i := fun hj => hnot again (hj ▸ hl)
      simp only [ownerOf, Function.update_of_ne hj]
    | _ => rfl
  have hreleasing : ∀ j, ({ s with lockQueue := s.lockQueue + 1 }.goto i .beforeWait).Releasing l.hold j ↔
      s.Releasing l.hold j := by
    intro j
    rw [Releasing, Releasing, hplace]
    by_cases hj : j = i
    · rw [hj, Function.update_self, place, hpc]
      exact ⟨fun h => (by cases h.1), fun h => (by cases h.1)⟩
    · rw [Function.update_of_ne hj]
  refine h.step rfl (fun _ _ => rfl) (fun j _ => by rw [hhold]) (fun j hj => ?_) ?_ ?_ ?_
    ⟨?_, ?_, fun hnat => ?_, fun _ => ?_⟩ h.checked
  · rw [hwaiting, List.mem_append, List.mem_singleton]
    exact ⟨fun h => h.resolve_right hj, .inl⟩
  · exact ⟨fun h => (by cases h), fun _ => houter, fun h => (by cases h), fun _ => hn⟩
  · rw [hhold, ← hdepth]
    exact congrArg (· + 0) houter
  · rw [hwaiting]
    exact ⟨fun _ => List.mem_append.mpr (.inr (List.mem_singleton.mpr rfl)), fun _ => rfl⟩
  · rw [hhold]
    exact h.fields.recursionCount.trans (htimes LockPlace.countBehind)
  · rw [hhold]
    exact h.fields.thread.trans (howner LockPlace.threadBehind)
  · rw [hn] at hnat
    cases hnat
  · obtain ⟨hqueue, hrecursion, howner₀, hbaton⟩ := h.fields.semaphore hn
    refine ⟨?_, ?_, ?_, ?_⟩
    · show s.lockQueue + 1 = _
      rw [hqueue, Lock.count, Lock.count, hhold, hwaiting, List.length_append, List.length_singleton]
      push_cast
      omega
    · rw [hhold]
      exact hrecursion.trans (htimes LockPlace.recursionBehind)
    · rw [hhold]
      exact howner₀.trans (howner LockPlace.ownerBehind)
    · rw [hhold]
      simp only [Baton, hreleasing] at hbaton ⊢
      exact hbaton

/-- The semaphore is signaled by the only thread that is to do so. -/
theorem Follows.signal (h : Follows impl s l) (hpc : s.pcs i = .signal) :
    Follows impl ({ s with semaphore := s.semaphore + 1 }.goto i .outside) l := by
  have hn : impl.isNative = false := (h.placed i).semaphore (by rw [hpc]; rfl)
  have houter : s.held i = 0 := (h.placed i).outermost (by rw [hpc]; rfl)
  have hplace : ({ s with semaphore := s.semaphore + 1 }.goto i .outside).place =
      Function.update s.place i {} := place_goto _ i .outside
  have hdepth := h.depth i
  rw [RecursiveCriticalSection.depth, place, hpc, houter] at hdepth
  obtain ⟨hqueue, hrecursion, howner, hbaton⟩ := h.fields.semaphore hn
  have hreleasing : s.Releasing l.hold i := ⟨by rw [place, hpc]; rfl, hdepth.symm⟩
  have hover : l.hold = .handedOver := by
    by_contra hne
    rw [Baton, if_neg hne] at hbaton
    exact hbaton.2 i hreleasing
  have hwaiting := h.queued i
  rw [place, hpc] at hwaiting
  rw [Baton, if_pos hover] at hbaton
  obtain ⟨hsem, hunique⟩ : s.semaphore = 0 ∧ ∀ j, s.Releasing l.hold j → j = i := by
    rcases hbaton with ⟨-, hnone⟩ | ⟨hsem, k, -, hunique⟩
    · exact absurd hreleasing (hnone i)
    · exact ⟨hsem, fun j hj => (hunique j hj).trans (hunique i hreleasing).symm⟩
  refine h.step rfl (fun _ _ => rfl) (fun _ _ => rfl) (fun _ _ => Iff.rfl) ?_ ?_ hwaiting
    ⟨?_, ?_, h.fields.native, fun _ => ⟨hqueue, ?_, ?_, ?_⟩⟩ h.checked
  · exact ⟨fun h => (by cases h), fun h => (by cases h), fun h => (by cases h), fun h => (by cases h)⟩
  · rw [← hdepth]
    exact congrArg (· + 0) houter
  · rw [hover]
    exact h.fields.recursionCount.trans (by rw [hover]; rfl)
  · rw [hover]
    exact h.fields.thread.trans (by rw [hover]; rfl)
  · rw [hover]
    exact hrecursion.trans (by rw [hover]; rfl)
  · rw [hover]
    exact howner.trans (by rw [hover]; rfl)
  · rw [Baton, if_pos hover]
    refine .inl ⟨congrArg (· + 1) hsem, fun j hj => ?_⟩
    by_cases hji : j = i
    · rw [Releasing, hplace, hji, Function.update_self] at hj
      cases hj.1
    · rw [Releasing, hplace, Function.update_of_ne hji] at hj
      exact hji (hunique j hj)

end RecursiveCriticalSection

end IoBase
