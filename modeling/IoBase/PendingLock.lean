import IoBase.EventLoop

/- `pending_lock_`, and the two halves of a push.

   `EventLoop.lean` makes a push to `pending_` one step. Here it is what the code
   does: read the current contents, write back the contents with the new task; and
   `pending_lock_` is a lock that only the threads that take it wait for. On a
   thread for which `IsCurrent()` holds, `PostTaskImpl` does not take it. The lock's
   holders exclude each other in every run (`MutexInv`).

   `Quit` is not called, `thread_id_` is the loop thread once `Begin` has run, and a
   task is a number, a new one for each post. -/
namespace IoBase.PendingLock
open Transition

/-- Where a thread is in `PostTaskImpl`. -/
inductive Pc where
  | outside
  /-- Before the `IsQuitting` check, and before `IsCurrent()`. -/
  | entered (t : Nat)
  | checked (t : Nat)
  /-- In `pending_.push_back(task)`: before the read, and between the read and the write. -/
  | ready (t : Nat)
  | halfway (t : Nat) (contents : List Nat)
  /-- After `push_back`, with the lock still held if it was taken; and before `WakeUp`. -/
  | written (t : Nat)
  | unlocked (t : Nat)
  deriving DecidableEq, Repr

/-- A frame of the loop thread: in `RunPendingTasks` before it has the lock, with the lock before
    and after the swap, in the loop over the batch, and in a task. -/
inductive Frame where
  | locking
  | locked
  | swapped (rest : List Nat)
  | batch (rest : List Nat)
  | running (t : Nat) (rest : List Nat)
  deriving DecidableEq, Repr

/-- `returned` are the tasks whose `PostTaskImpl` passed its check and returned; `pushed` are the
    tasks written back, in that order. -/
structure State where
  running : Bool
  owner : Option Tid
  pending : List Nat
  threads : Tid → Pc
  stack : List Frame
  nextTask : Nat
  pushed : List Nat
  started : List Nat
  returned : List Nat

inductive Action where
  | begin
  | postTask (i : Tid)
  | resume (i : Tid)
  | runPendingTasks
  | loop
  deriving DecidableEq, Repr

def Pc.isReady : Pc → Bool
  | .ready _ => true
  | _ => false

def Pc.isHalfway : Pc → Bool
  | .halfway _ _ => true
  | _ => false

def Frame.rest : Frame → List Nat
  | .swapped rest => rest
  | .batch rest => rest
  | .running _ rest => rest
  | _ => []

def Frame.isTask : Frame → Bool
  | .running _ _ => true
  | _ => false

namespace State

def init : State where
  running := false
  owner := none
  pending := []
  threads := fun _ => .outside
  stack := []
  nextTask := 0
  pushed := []
  started := []
  returned := []

def isQuitting (s : State) : Bool := s.running != true

def isCurrent (i : Tid) : Bool := i == loopThread

/-- The loop thread is in a task, or outside `RunPendingTasks`. -/
def inUserCode (s : State) : Bool :=
  match s.stack with
  | [] => true
  | f :: _ => f.isTask

def mayCall (s : State) (i : Tid) : Bool :=
  s.threads i == .outside && (!isCurrent i || s.inUserCode)

def setThread (s : State) (i : Tid) (pc : Pc) : State :=
  { s with threads := Function.update s.threads i pc }

/-- The tasks of the batches that have not started. -/
def unstarted (s : State) : List Nat := s.stack.flatMap Frame.rest

/-- The next step of `PostTaskImpl` on thread `i`. -/
def resume (s : State) (i : Tid) : Option State :=
  match s.threads i with
  | .outside => none
  | .entered t => some (s.setThread i (if s.isQuitting then .outside else .checked t))
  | .checked t =>
    if isCurrent i then some (s.setThread i (.ready t))
    else
      match s.owner with
      | none => some ({ s with owner := some i }.setThread i (.ready t))
      | some _ => none
  | .ready t => some (s.setThread i (.halfway t s.pending))
  | .halfway t contents =>
    some ({ s with pending := contents ++ [t], pushed := s.pushed ++ [t] }.setThread i (.written t))
  | .written t =>
    some ({ s with owner := if isCurrent i then s.owner else none }.setThread i (.unlocked t))
  | .unlocked t => some ({ s with returned := s.returned ++ [t] }.setThread i .outside)

/-- The next step of the innermost frame of the loop thread, above `fs`. -/
def frameStep (s : State) (fs : List Frame) : Frame → Option State
  | .locking =>
    match s.owner with
    | none => some { s with owner := some loopThread, stack := .locked :: fs }
    | some _ => none
  | .locked => some { s with pending := [], stack := .swapped s.pending :: fs }
  | .swapped rest => some { s with owner := none, stack := .batch rest :: fs }
  | .batch [] => some { s with stack := fs }
  | .batch (t :: rest) => some { s with started := s.started ++ [t], stack := .running t rest :: fs }
  | .running _ rest => some { s with stack := .batch rest :: fs }

end State

def step (s : State) : Action → Option State
  | .begin => if s.mayCall loopThread then some { s with running := true } else none
  | .postTask i =>
    if s.mayCall i then
      some ({ s with nextTask := s.nextTask + 1 }.setThread i (.entered s.nextTask))
    else none
  | .resume i => s.resume i
  | .runPendingTasks =>
    if s.mayCall loopThread then some { s with stack := .locking :: s.stack } else none
  | .loop =>
    if s.threads loopThread = .outside then
      match s.stack with
      | [] => none
      | f :: fs => s.frameStep fs f
    else none

abbrev ReachesIf (ok : State → Action → Prop) (s : State) : Prop := Reaches step ok State.init s

/-! ## Steps -/

/-- A step, by its branch. -/
inductive Stepped (s : State) : Action → State → Prop where
  | begin : Stepped s .begin { s with running := true }
  | postTask {i : Tid} : s.mayCall i = true →
      Stepped s (.postTask i)
        ({ s with nextTask := s.nextTask + 1 }.setThread i (.entered s.nextTask))
  | check {i : Tid} {t : Nat} {pc : Pc} : s.threads i = .entered t →
      (pc = .outside ∨ pc = .checked t) → Stepped s (.resume i) (s.setThread i pc)
  | isCurrent {i : Tid} {t : Nat} : s.threads i = .checked t → i = loopThread →
      Stepped s (.resume i) (s.setThread i (.ready t))
  | lock {i : Tid} {t : Nat} : s.threads i = .checked t → i ≠ loopThread → s.owner = none →
      Stepped s (.resume i) ({ s with owner := some i }.setThread i (.ready t))
  | read {i : Tid} {t : Nat} : s.threads i = .ready t →
      Stepped s (.resume i) (s.setThread i (.halfway t s.pending))
  | write {i : Tid} {t : Nat} {contents : List Nat} : s.threads i = .halfway t contents →
      Stepped s (.resume i)
        ({ s with pending := contents ++ [t], pushed := s.pushed ++ [t] }.setThread i (.written t))
  | unlock {i : Tid} {t : Nat} {owner : Option Tid} : s.threads i = .written t →
      (i = loopThread ∧ owner = s.owner ∨ i ≠ loopThread ∧ owner = none) →
      Stepped s (.resume i) ({ s with owner }.setThread i (.unlocked t))
  | wakeUp {i : Tid} {t : Nat} : s.threads i = .unlocked t →
      Stepped s (.resume i) ({ s with returned := s.returned ++ [t] }.setThread i .outside)
  | runPendingTasks : s.mayCall loopThread = true →
      Stepped s .runPendingTasks { s with stack := .locking :: s.stack }
  | loopLock {fs : List Frame} : s.threads loopThread = .outside → s.stack = .locking :: fs →
      s.owner = none →
      Stepped s .loop { s with owner := some loopThread, stack := .locked :: fs }
  | swap {fs : List Frame} : s.threads loopThread = .outside → s.stack = .locked :: fs →
      Stepped s .loop { s with pending := [], stack := .swapped s.pending :: fs }
  | loopUnlock {rest : List Nat} {fs : List Frame} : s.threads loopThread = .outside →
      s.stack = .swapped rest :: fs →
      Stepped s .loop { s with owner := none, stack := .batch rest :: fs }
  | batchDone {fs : List Frame} : s.threads loopThread = .outside → s.stack = .batch [] :: fs →
      Stepped s .loop { s with stack := fs }
  | start {t : Nat} {rest : List Nat} {fs : List Frame} : s.threads loopThread = .outside →
      s.stack = .batch (t :: rest) :: fs →
      Stepped s .loop { s with started := s.started ++ [t], stack := .running t rest :: fs }
  | finish {t : Nat} {rest : List Nat} {fs : List Frame} : s.threads loopThread = .outside →
      s.stack = .running t rest :: fs → Stepped s .loop { s with stack := .batch rest :: fs }

theorem resume_cases {s s' : State} {i : Tid} (h : s.resume i = some s') :
    Stepped s (.resume i) s' := by
  cases hpc : s.threads i with
  | outside => simp [State.resume, hpc] at h
  | entered t =>
    simp only [State.resume, hpc, Option.some.injEq] at h
    subst h
    refine .check hpc ?_
    split <;> simp
  | checked t =>
    simp only [State.resume, hpc] at h
    split at h
    · rename_i hi; cases h; exact .isCurrent hpc (by simpa [State.isCurrent] using hi)
    · rename_i hi
      split at h
      · rename_i ho; cases h; exact .lock hpc (by simpa [State.isCurrent] using hi) ho
      · cases h
  | ready t => simp only [State.resume, hpc] at h; cases h; exact .read hpc
  | halfway t contents => simp only [State.resume, hpc] at h; cases h; exact .write hpc
  | written t =>
    simp only [State.resume, hpc, Option.some.injEq] at h
    subst h
    refine .unlock hpc ?_
    simp only [State.isCurrent, beq_iff_eq]
    split
    · rename_i hi; exact .inl ⟨hi, rfl⟩
    · rename_i hi; exact .inr ⟨hi, rfl⟩
  | unlocked t => simp only [State.resume, hpc] at h; cases h; exact .wakeUp hpc

theorem loop_cases {s s' : State} (h : step s .loop = some s') : Stepped s .loop s' := by
  simp only [step] at h
  split at h
  · rename_i hout
    split at h
    · cases h
    · rename_i f fs hs
      cases f with
      | locking =>
        simp only [State.frameStep] at h
        split at h
        · rename_i ho; cases h; exact .loopLock hout hs ho
        · cases h
      | locked => cases h; exact .swap hout hs
      | swapped rest => cases h; exact .loopUnlock hout hs
      | batch rest =>
        cases rest with
        | nil => cases h; exact .batchDone hout hs
        | cons t rest => cases h; exact .start hout hs
      | running t rest => cases h; exact .finish hout hs
  · cases h

theorem step_cases {s s' : State} {a : Action} (h : step s a = some s') : Stepped s a s' := by
  cases a with
  | begin =>
    simp only [step] at h
    split at h
    · cases h; exact .begin
    · cases h
  | postTask i =>
    simp only [step] at h
    split at h
    · rename_i hm; cases h; exact .postTask hm
    · cases h
  | resume i => exact resume_cases h
  | runPendingTasks =>
    simp only [step] at h
    split at h
    · rename_i hm; cases h; exact .runPendingTasks hm
    · cases h
  | loop => exact loop_cases h

/-! ## Mutual exclusion -/

/-- The thread holds the lock, if it is not the loop thread. -/
def Pc.holds : Pc → Bool
  | .ready _ => true
  | .halfway _ _ => true
  | .written _ => true
  | _ => false

def Frame.holds : Frame → Bool
  | .locked => true
  | .swapped _ => true
  | _ => false

/-- The lock's holders: a thread other than the loop thread from its acquisition to its release,
    and the loop thread around the swap, when it is in no `PostTaskImpl`. -/
structure MutexInv (s : State) : Prop where
  below : ∀ f ∈ s.stack.tail, f.isTask = true
  outside : s.inUserCode = false → s.threads loopThread = .outside
  poster : ∀ i, i ≠ loopThread → (s.threads i).holds = true → s.owner = some i
  swapper : ∀ f ∈ s.stack, f.holds = true → s.owner = some loopThread

theorem mutexInv_init : MutexInv State.init where
  below := by simp [State.init]
  outside := by simp [State.init]
  poster := by simp [State.init, Pc.holds]
  swapper := by simp [State.init]

namespace MutexInv
variable {s : State}

theorem isTask_of_mem (h : MutexInv s) {f : Frame} {fs : List Frame} (hs : s.stack = f :: fs) :
    ∀ g ∈ fs, g.isTask = true :=
  fun g hg => h.below g (by simpa [hs] using hg)

/-- While the loop thread is in `PostTaskImpl`, every frame is a task. -/
theorem inUserCode_of_ne_outside (h : MutexInv s) (hpc : s.threads loopThread ≠ .outside) :
    s.inUserCode = true := by
  by_contra hn
  exact hpc (h.outside (by simpa using hn))

theorem all_isTask (h : MutexInv s) (huser : s.inUserCode = true) : ∀ f ∈ s.stack, f.isTask = true := by
  intro f hf
  cases hs : s.stack with
  | nil => simp [hs] at hf
  | cons g fs =>
    rw [hs, List.mem_cons] at hf
    rcases hf with rfl | hf
    · simpa [State.inUserCode, hs] using huser
    · exact h.isTask_of_mem hs f hf

end MutexInv

theorem not_holds_of_isTask {f : Frame} (h : f.isTask = true) : f.holds = false := by
  cases f <;> simp_all [Frame.isTask, Frame.holds]

/-- Two threads in the critical section are the same thread, unless one is the loop thread. -/
theorem MutexInv.eq_of_holds {s : State} (h : MutexInv s) {i j : Tid} (hi : i ≠ loopThread)
    (hj : j ≠ loopThread) (hih : (s.threads i).holds = true) (hjh : (s.threads j).holds = true) :
    i = j := by
  have howner := h.poster i hi hih
  rw [h.poster j hj hjh] at howner
  exact (Option.some.inj howner).symm

/-- A step of `PostTaskImpl` keeps the lock discipline, if it leaves the lock to its holders. -/
theorem MutexInv.move {s s' : State} (h : MutexInv s) {i : Tid} {pc : Pc}
    (hi : i = loopThread → s.inUserCode = true) (hstack : s'.stack = s.stack)
    (hthreads : s'.threads = Function.update s.threads i pc)
    (hothers : ∀ j, j ≠ i → j ≠ loopThread → (s.threads j).holds = true → s'.owner = some j)
    (hmine : i ≠ loopThread → pc.holds = true → s'.owner = some i)
    (hswapper : ∀ f ∈ s.stack, f.holds = true → s'.owner = some loopThread) : MutexInv s' where
  below := by rw [hstack]; exact h.below
  outside := by
    intro hn
    have hn' : s.inUserCode = false := by simpa only [State.inUserCode, hstack] using hn
    have hne : loopThread ≠ i := by
      intro he
      subst he
      rw [hi rfl] at hn'
      cases hn'
    rw [hthreads, Function.update_of_ne hne]
    exact h.outside hn'
  poster := by
    intro j hj hholds
    by_cases hji : j = i
    · subst hji
      rw [hthreads, Function.update_self] at hholds
      exact hmine hj hholds
    · rw [hthreads, Function.update_of_ne hji] at hholds
      exact hothers j hji hj hholds
  swapper := by rw [hstack]; exact hswapper

/-- A step of the loop thread keeps the lock discipline, if the frame it puts on the stack and the
    owner it leaves agree. -/
theorem MutexInv.loop {s s' : State} (h : MutexInv s) {f : Frame} {fs : List Frame}
    (hout : s.threads loopThread = .outside) (hs : s.stack = f :: fs)
    (hthreads : s'.threads = s.threads)
    (hstack : s'.stack = fs ∨ ∃ g : Frame, s'.stack = g :: fs ∧
      (g.holds = true → s'.owner = some loopThread))
    (hothers : ∀ j, j ≠ loopThread → (s.threads j).holds = true → s'.owner = some j) : MutexInv s' where
  below := by
    rcases hstack with hs' | ⟨g, hs', -⟩ <;> rw [hs']
    · exact fun g hg => h.isTask_of_mem hs g (List.mem_of_mem_tail hg)
    · exact h.isTask_of_mem hs
  outside := fun _ => by rw [hthreads]; exact hout
  poster := by rw [hthreads]; exact hothers
  swapper := by
    have hfs : ∀ g ∈ fs, g.holds = true → s'.owner = some loopThread := fun g hg hholds => by
      rw [not_holds_of_isTask (h.isTask_of_mem hs g hg)] at hholds
      cases hholds
    rcases hstack with hs' | ⟨g, hs', hg⟩ <;> rw [hs']
    · exact hfs
    · intro g' hg'
      rcases List.mem_cons.mp hg' with rfl | hg'
      · exact hg
      · exact hfs g' hg'

theorem mutexInv_step {s s' : State} {a : Action} (hstep : Stepped s a s') (h : MutexInv s) :
    MutexInv s' := by
  have hpost : ∀ j, j ≠ loopThread → (s.threads j).holds = true → s.owner = some j := h.poster
  have huser : ∀ {i : Tid}, s.threads i ≠ .outside → i = loopThread → s.inUserCode = true := by
    intro i hpc he
    subst he
    exact h.inUserCode_of_ne_outside hpc
  cases hstep with
  | begin => exact ⟨h.below, h.outside, h.poster, h.swapper⟩
  | @postTask i hm =>
    simp only [State.mayCall, Bool.and_eq_true, beq_iff_eq, Bool.or_eq_true] at hm
    refine h.move (fun hi => ?_) rfl rfl (fun j _ hj => hpost j hj) (fun _ hh => by cases hh) h.swapper
    simpa [State.isCurrent, hi] using hm.2
  | check hpc hpc' =>
    refine h.move (huser (by simp [hpc])) rfl rfl (fun j _ hj => hpost j hj) (fun _ hh => ?_) h.swapper
    rcases hpc' with rfl | rfl <;> cases hh
  | isCurrent hpc hi =>
    exact h.move (huser (by simp [hpc])) rfl rfl (fun j _ hj => hpost j hj) (absurd hi) h.swapper
  | lock hpc hi hown =>
    have hnone : ∀ {j : Tid}, s.owner ≠ some j := by simp [hown]
    refine h.move (huser (by simp [hpc])) rfl rfl (fun j _ hj hh => absurd (hpost j hj hh) hnone)
      (fun _ _ => rfl) fun f hf hh => absurd (h.swapper f hf hh) hnone
  | @read i t hpc =>
    exact h.move (huser (by simp [hpc])) rfl rfl (fun j _ hj => hpost j hj)
      (fun hi _ => hpost i hi (by simp [hpc, Pc.holds])) h.swapper
  | @write i t contents hpc =>
    exact h.move (huser (by simp [hpc])) rfl rfl (fun j _ hj => hpost j hj)
      (fun hi _ => hpost i hi (by simp [hpc, Pc.holds])) h.swapper
  | @unlock i t owner hpc howner =>
    have hholds : (s.threads i).holds = true := by simp [hpc, Pc.holds]
    rcases howner with ⟨rfl, rfl⟩ | ⟨hi, rfl⟩
    · exact h.move (huser (by simp [hpc])) rfl rfl (fun j _ hj => hpost j hj)
        (fun _ hh => by cases hh) h.swapper
    · refine h.move (huser (by simp [hpc])) rfl rfl (fun j hji hj hh => ?_)
        (fun _ hh => by cases hh) (fun f hf hh => ?_)
      · exact absurd (h.eq_of_holds hj hi hh hholds) hji
      · have howner := h.swapper f hf hh
        rw [hpost i hi hholds] at howner
        exact absurd (Option.some.inj howner) hi
  | wakeUp hpc =>
    exact h.move (huser (by simp [hpc])) rfl rfl (fun j _ hj => hpost j hj)
      (fun _ hh => by cases hh) h.swapper
  | runPendingTasks hm =>
    simp only [State.mayCall, Bool.and_eq_true, beq_iff_eq, Bool.or_eq_true] at hm
    have huser : s.inUserCode = true := by simpa [State.isCurrent] using hm.2
    refine ⟨h.all_isTask huser, fun _ => hm.1, h.poster, fun f hf hh => ?_⟩
    rcases List.mem_cons.mp hf with rfl | hf
    · cases hh
    · exact h.swapper f hf hh
  | loopLock hout hs hown =>
    exact h.loop hout hs rfl (.inr ⟨_, rfl, fun _ => rfl⟩)
      fun j hj hh => by rw [hpost j hj hh] at hown; cases hown
  | swap hout hs =>
    exact h.loop hout hs rfl (.inr ⟨_, rfl, fun _ => h.swapper .locked (by simp [hs]) rfl⟩) hpost
  | loopUnlock hout hs =>
    have howner := h.swapper _ (by rw [hs]; exact List.mem_cons_self) rfl
    refine h.loop hout hs rfl (.inr ⟨_, rfl, fun hh => by cases hh⟩) fun j hj hh => ?_
    rw [hpost j hj hh] at howner
    exact absurd (Option.some.inj howner) hj
  | batchDone hout hs => exact h.loop hout hs rfl (.inl rfl) hpost
  | start hout hs => exact h.loop hout hs rfl (.inr ⟨_, rfl, fun hh => by cases hh⟩) hpost
  | finish hout hs => exact h.loop hout hs rfl (.inr ⟨_, rfl, fun hh => by cases hh⟩) hpost

end IoBase.PendingLock
