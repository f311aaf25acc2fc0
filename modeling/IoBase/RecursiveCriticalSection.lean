import IoBase.ReentrantLock

/- `RecursiveCriticalSection` on POSIX, in `recursive_critical_section.cc`.

   The section is a recursive pthread mutex, or, on macOS without
   `USE_NATIVE_MUTEX_ON_MAC`, a counter and a semaphore: `lock_queue_` counts how often the
   lock is held and how many threads wait; `Enter` first tries to take it from 0 to 1, a
   number of times, and then counts itself and waits; the `Leave` that leaves the lock to
   others signals the semaphore for one of them. Either way the debug build keeps the owner
   and the recursion a second time, in `thread_` and `recursion_count_`, for its checks.

   Any number of threads call `Enter`, `TryEnter` and `Leave`. A step is one access of one
   thread to the fields of the section or to its mutex or semaphore; checks that follow each
   other are made with the access after which they stand. A check that fails is recorded.

   Correspondence (C++ ↔ Lean):
     `Enter`, its loop                        ↔ `checkOwner`, `loadQueue`, `swapQueue`, `yield`, `countOwned`
     `Enter`, from the loop to `++recursion_` ↔ `joinQueue`, `beforeWait`, `waiting`, `afterWait`, `setOwner`, `deepen`
     `TryEnter`                               ↔ `tryCheckOwner`, `trySwap`, `trySetOwner`, `tryCountOwned`, `deepen`
     `pthread_mutex_lock`, `_trylock`, `_unlock` ↔ `mutexLock`, `mutexTryLock`, `mutexUnlock`
     the end of `Enter` and `TryEnter`        ↔ `noteOwner`, `noteCount`
     `Leave`, its debug part                  ↔ `leaveCheck`, `unnoteCount`, `unnoteOwner`
     `Leave`, the rest                        ↔ `checkHeld`, `lessen`, `clearOwner`, `countLeave`, `readRecursion`, `signal`
     `CritScope`                              ↔ an `enter` and the `leave` that `LeavesHeld` allows after it -/
namespace IoBase
open Transition ReentrantLock

/-- What the section is made of: a native mutex, or a semaphore and an `Enter` that makes this many
    passes before it waits. -/
inductive LockImpl where
  | native
  | semaphore (spin : Nat)
  deriving DecidableEq, Repr

/-- `int spin` in `Enter`. -/
def kSpin : Nat := 3000

def LockImpl.isNative : LockImpl → Bool
  | .native => true
  | .semaphore _ => false

/-- Where a thread is in the section's functions. -/
inductive LockPc where
  | outside
  | checkOwner (spin : Nat)
  | loadQueue (spin : Nat)
  | swapQueue (spin : Nat)
  | yield (spin : Nat)
  | countOwned
  | joinQueue
  | beforeWait
  | waiting
  | afterWait
  | setOwner
  | deepen
  | tryCheckOwner
  | trySwap
  | trySetOwner
  | tryCountOwned
  | mutexLock
  | mutexTryLock
  | noteOwner
  | noteCount
  | leaveCheck
  | unnoteCount
  | unnoteOwner
  | mutexUnlock
  | checkHeld
  | lessen
  | clearOwner
  | countLeave
  | readRecursion
  | signal
  deriving DecidableEq, Repr

/-- The checks of the three functions. -/
inductive LockCheck where
  | notOwner
  | noOwner
  | noRecursion
  | noThread
  | currentThreadIsOwner
  | countNotNegative
  | owningThread
  | recursionNotNegative
  deriving DecidableEq, Repr

/-- The section, and the threads in it. No thread is the reference 0, which is `none`. -/
structure RecursiveCriticalSection (T : Type) where
  lockQueue : Int
  recursion : Int
  semaphore : Nat
  owningThread : Option T
  /-- The owner of the native mutex, and how often it has locked it. -/
  mutex : Option (T × Nat)
  thread : Option T
  recursionCount : Int
  pcs : T → LockPc
  failed : List LockCheck
  /-- The calls of `Enter` and `TryEnter` that entered, less the calls of `Leave`. -/
  held : T → Nat

inductive LockAction (T : Type) where
  | enter (i : T)
  | tryEnter (i : T)
  | leave (i : T)
  /-- The next access of a thread that is in one of the functions. -/
  | resume (i : T)

namespace RecursiveCriticalSection
variable {T : Type}

def init : RecursiveCriticalSection T where
  lockQueue := 0
  recursion := 0
  semaphore := 0
  owningThread := none
  mutex := none
  thread := none
  recursionCount := 0
  pcs := fun _ => .outside
  failed := []
  held := fun _ => 0

def dcheck (s : RecursiveCriticalSection T) (check : LockCheck) (holds : Bool) : RecursiveCriticalSection T :=
  if holds then s else { s with failed := s.failed ++ [check] }

@[simp] theorem dcheck_pcs (s : RecursiveCriticalSection T) (check : LockCheck) (holds : Bool) :
    (s.dcheck check holds).pcs = s.pcs := by
  rw [dcheck]
  split <;> rfl

variable [DecidableEq T]

def goto (s : RecursiveCriticalSection T) (i : T) (pc : LockPc) : RecursiveCriticalSection T :=
  { s with pcs := Function.update s.pcs i pc }

@[simp] theorem goto_pcs_self (s : RecursiveCriticalSection T) (i : T) (pc : LockPc) :
    (s.goto i pc).pcs i = pc := by simp [goto]

/-- `Enter` or `TryEnter` returns to the caller that it has entered. -/
def entered (s : RecursiveCriticalSection T) (i : T) : RecursiveCriticalSection T :=
  { s.goto i .outside with held := Function.update s.held i (s.held i + 1) }

/-- `CurrentThreadIsOwner`. -/
def currentThreadIsOwner (s : RecursiveCriticalSection T) (i : T) : Bool := s.thread == some i

/-- The native mutex when `i` has locked it, unless another thread has it. -/
def lockMutex (s : RecursiveCriticalSection T) (i : T) : Option (RecursiveCriticalSection T) :=
  match s.mutex with
  | none => some { s with mutex := some (i, 1) }
  | some (j, n) => if j = i then some { s with mutex := some (i, n + 1) } else none

/-- The native mutex when `i` has unlocked it; it is an error if `i` does not have it. -/
def unlockMutex (s : RecursiveCriticalSection T) (i : T) : RecursiveCriticalSection T :=
  match s.mutex with
  | some (j, n) => if j = i then { s with mutex := if n ≤ 1 then none else some (i, n - 1) } else s
  | none => s

theorem lockMutex_pcs {s t : RecursiveCriticalSection T} {i : T} (h : s.lockMutex i = some t) :
    t.pcs = s.pcs := by
  rw [lockMutex] at h
  split at h
  · cases h
    rfl
  · split at h <;> cases h
    rfl

@[simp] theorem unlockMutex_pcs (s : RecursiveCriticalSection T) (i : T) : (s.unlockMutex i).pcs = s.pcs := by
  rw [unlockMutex]
  split
  · split <;> rfl
  · rfl

/-- The next access of `i`. -/
def resume (impl : LockImpl) (s : RecursiveCriticalSection T) (i : T) : Option (RecursiveCriticalSection T) :=
  match s.pcs i with
  | .outside => none
  -- Enter
  | .checkOwner spin => some (s.goto i (if s.owningThread = some i then .countOwned else .loadQueue spin))
  | .loadQueue spin => some (s.goto i (if s.lockQueue = 0 then .swapQueue spin else .yield spin))
  | .swapQueue spin =>
    if s.lockQueue = 0 then some ({ s with lockQueue := 1 }.goto i .setOwner) else some (s.goto i (.yield spin))
  | .yield spin => some (s.goto i (if spin - 1 = 0 then .joinQueue else .checkOwner (spin - 1)))
  | .countOwned => some ({ s with lockQueue := s.lockQueue + 1 }.goto i .setOwner)
  | .joinQueue =>
    some ({ s with lockQueue := s.lockQueue + 1 }.goto i (if s.lockQueue + 1 > 1 then .beforeWait else .setOwner))
  | .beforeWait => some ((s.dcheck .notOwner (s.owningThread != some i)).goto i .waiting)
  | .waiting => if 0 < s.semaphore then some ({ s with semaphore := s.semaphore - 1 }.goto i .afterWait) else none
  | .afterWait =>
    some (((s.dcheck .noOwner s.owningThread.isNone).dcheck .noRecursion (s.recursion == 0)).goto i .setOwner)
  | .setOwner => some ({ s with owningThread := some i }.goto i .deepen)
  | .deepen => some ({ s with recursion := s.recursion + 1 }.goto i .noteOwner)
  -- TryEnter
  | .tryCheckOwner => some (s.goto i (if s.owningThread = some i then .tryCountOwned else .trySwap))
  | .trySwap =>
    if s.lockQueue = 0 then some ({ s with lockQueue := 1 }.goto i .trySetOwner) else some (s.goto i .outside)
  | .trySetOwner => some (({ s with owningThread := some i }.dcheck .noRecursion (s.recursion == 0)).goto i .deepen)
  | .tryCountOwned => some ({ s with lockQueue := s.lockQueue + 1 }.goto i .deepen)
  -- the native mutex
  | .mutexLock => (s.lockMutex i).map fun s => s.goto i .noteOwner
  | .mutexTryLock => some ((s.lockMutex i).elim (s.goto i .outside) fun s => s.goto i .noteOwner)
  -- the debug part of both
  | .noteOwner =>
    if s.recursionCount = 0 then
      some ({ s.dcheck .noThread s.thread.isNone with thread := some i }.goto i .noteCount)
    else some ((s.dcheck .currentThreadIsOwner (s.currentThreadIsOwner i)).goto i .noteCount)
  | .noteCount => some ({ s with recursionCount := s.recursionCount + 1 }.entered i)
  -- Leave
  | .leaveCheck => some ((s.dcheck .currentThreadIsOwner (s.currentThreadIsOwner i)).goto i .unnoteCount)
  | .unnoteCount =>
    some (({ s with recursionCount := s.recursionCount - 1 }.dcheck .countNotNegative
      (decide (0 ≤ s.recursionCount - 1))).goto i .unnoteOwner)
  | .unnoteOwner =>
    some ({ s with thread := if s.recursionCount = 0 then none else s.thread }.goto i
      (if impl.isNative then .mutexUnlock else .checkHeld))
  | .mutexUnlock => some ((s.unlockMutex i).goto i .outside)
  | .checkHeld =>
    some (((s.dcheck .owningThread (s.owningThread == some i)).dcheck .recursionNotNegative
      (decide (0 ≤ s.recursion))).goto i .lessen)
  | .lessen => some ({ s with recursion := s.recursion - 1 }.goto i .clearOwner)
  | .clearOwner =>
    some ({ s with owningThread := if s.recursion = 0 then none else s.owningThread }.goto i .countLeave)
  | .countLeave =>
    some ({ s with lockQueue := s.lockQueue - 1 }.goto i (if s.lockQueue - 1 > 0 then .readRecursion else .outside))
  | .readRecursion => some (s.goto i (if s.recursion = 0 then .signal else .outside))
  | .signal => some ({ s with semaphore := s.semaphore + 1 }.goto i .outside)

def step (impl : LockImpl) (s : RecursiveCriticalSection T) :
    LockAction T → Option (RecursiveCriticalSection T)
  | .enter i =>
    if s.pcs i = .outside then
      some (s.goto i (match impl with | .native => .mutexLock | .semaphore spin => .checkOwner spin))
    else none
  | .tryEnter i =>
    if s.pcs i = .outside then
      some (s.goto i (match impl with | .native => .mutexTryLock | .semaphore _ => .tryCheckOwner))
    else none
  | .leave i =>
    if s.pcs i = .outside then
      some { s.goto i .leaveCheck with held := Function.update s.held i (s.held i - 1) }
    else none
  | .resume i => s.resume impl i

/-- `Leave` is called by a thread that has the section. -/
def LeavesHeld (s : RecursiveCriticalSection T) : LockAction T → Prop
  | .leave i => 0 < s.held i
  | _ => True

instance (s : RecursiveCriticalSection T) (a : LockAction T) : Decidable (LeavesHeld s a) :=
  match a with
  | .leave i => inferInstanceAs (Decidable (0 < s.held i))
  | .enter _ => inferInstanceAs (Decidable True)
  | .tryEnter _ => inferInstanceAs (Decidable True)
  | .resume _ => inferInstanceAs (Decidable True)

/-- The runs in which nobody leaves what it does not have. -/
abbrev Run (impl : LockImpl) (s : RecursiveCriticalSection T) : Prop :=
  Reaches (step impl) LeavesHeld init s

end RecursiveCriticalSection

end IoBase
