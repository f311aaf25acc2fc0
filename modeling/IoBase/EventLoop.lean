import IoBase.Sockets
import IoBase.Timers
import IoBase.Transition

/- The event loop as a system: `EventLoop` and `EventLoopWin`, the threads that
   call them, and the operating system around them.

   A state holds the fields of the loop object, the position of every thread in
   the public call it is making (`ThreadPc`), and the call stack of the loop
   thread below that (`Frame`, innermost first). An action is one atomic step of
   one party: a thread entering a public function or taking the next step in it,
   the loop thread taking the next step of its innermost frame, or the system
   recording a network event, expiring a timer or moving the clock. Whatever is
   left to chance (what a wait returns, whether a system call succeeds, how far
   the clock has moved) is part of the action, so `step` is a function and every
   interleaving is a list of actions.

   Granularity. An access to `running_`, a push to `pending_`, a swap of
   `pending_`, the setting or resetting of an event and one task's start, end or
   destruction are one step each. `pending_lock_` only makes pushes and swaps
   atomic and is not modelled here; `PendingLock.lean` has the lock. The
   registration calls and the pieces of the timer code that only the loop thread
   runs are one step each. User code (a task, a socket callback, the functor of a
   call made on the loop thread, and whatever the loop thread does outside the
   loop) may make any public call, in any order, as often as it likes; it may also
   re-enter `RunEventLoopOnce`, which pushes a new frame.

   Correspondence (C++ ↔ Lean):
     `TaskQueueBase::IsCurrent`, `EventLoop::IsQuitting` ↔ `isCurrent`, `isQuitting`
     `EventLoop::PostTaskImpl`              ↔ `postEntered` → `postChecked` → `postPushed`
     `EventLoop::PostDelayedTaskImpl`       ↔ `delayedEntered` → `delayedChecked`
     `EventLoop::BlockingCallImpl`          ↔ `callEntered` → `callChecked` → ...
     `EventLoop::Quit`                      ↔ `QuitPhase`
     `EventLoopWin::RunEventLoopOnce`       ↔ `waiting`, then the frames of one branch
     `ProcessPendingTasks`, `RunPendingTasks` ↔ `woken`, `draining`, `batch`, `running`, `ran`
     `ProcessTimerTasksUpTo`, `RunDueTasks` ↔ `timerFired`, `due`, `runningDue`, `scheduling`
     `ProcessSocketEvents`                  ↔ `enumerating`
     `RunReadyCallbacks`                    ↔ `callbacks`, `inCallback` -/
namespace IoBase
open Transition

abbrev Tid := Nat
abbrev CallId := Nat

/-- The thread that calls `Begin` and runs the loop. -/
def loopThread : Tid := 0

/-- A posted task: a closure of the program, the closure `PostDelayedTaskImpl` posts to hop to
    the loop thread, or the closure `BlockingCallImpl` posts. Each post makes a new one. -/
inductive Task (D : Type) where
  | user (n : Closure)
  | hop (n : Closure) (startMicros : Int) (delay : D)
  | call (c : CallId)

/-- Where a thread is in the public call it is making. -/
inductive ThreadPc (D : Type) where
  | outside
  /-- In `PostTaskImpl`, before its `IsQuitting` check; then before its push; then before `WakeUp`. -/
  | postEntered (t : Task D)
  | postChecked (t : Task D)
  | postPushed (t : Task D)
  /-- In `PostDelayedTaskImpl`, before and after its `IsQuitting` check. -/
  | delayedEntered (n : Closure) (delay : D)
  | delayedChecked (n : Closure) (delay : D)
  /-- In `BlockingCallImpl`: before and after its `IsQuitting` check, in `done.Wait`, and after
      the functor ran on the loop thread itself. -/
  | callEntered (c : CallId)
  | callChecked (c : CallId)
  | callWaiting (c : CallId)
  | callReturning (c : CallId)
  | quitting

/-- What `WSAWaitForMultipleEvents` returned. -/
inductive WaitResult where
  | failed
  | timeout
  | wakeup
  | timer
  | socket
  deriving DecidableEq, Repr

/-- A frame of the loop thread's call stack. -/
inductive Frame (D : Type) where
  /-- In `WSAWaitForMultipleEvents`. -/
  | waiting (timeoutMs : BitVec 32)
  /-- In `ProcessPendingTasks`, before `WSAResetEvent(wakeup_ev_)`. -/
  | woken
  /-- In `RunPendingTasks`, before the swap. -/
  | draining
  /-- In the loop over the batch: before a task, in it, and before `task = nullptr`. -/
  | batch (rest : List (Task D))
  | running (t : Task D) (rest : List (Task D))
  | ran (t : Task D) (rest : List (Task D))
  /-- In `ProcessTimerTasksUpTo`, before `timer_.Cancel()`. -/
  | timerFired
  /-- In the loop of `RunDueTasks`: before `top()`, and in `top.Run()`. -/
  | due (now : Int)
  | runningDue (now : Int)
  /-- Before `ScheduleNextTimer`. -/
  | scheduling
  /-- In the loop of `ProcessSocketEvents`, with the sockets it has not come to. -/
  | enumerating (r : WaitResult) (todo : List Fd) (ready : List ReadyListEntry)
  /-- In the loop of `RunReadyCallbacks`: before an entry, and in its listener. -/
  | callbacks (r : WaitResult) (ready : List ReadyListEntry)
  | inCallback (r : WaitResult) (entry : ReadyListEntry) (rest : List ReadyListEntry)
  /-- At the end of `RunEventLoopOnce`, before `WSAResetEvent(socket_ev_)`. -/
  | closing (r : WaitResult)
  /-- The functor of a blocking call made on the loop thread. -/
  | inlineCall (c : CallId)

/-- `Quit()`, which at most one thread calls: before the swap, after it with the tasks still to
    be destroyed, and after the store of `running_`. -/
inductive QuitPhase (D : Type) where
  | notCalled
  | entered
  | swapped (discarded : List (Task D))
  | returned

/-- A blocking call. `done` is its event; the rest is history: who called, the threads that
    started the functor, whether it is executing, whether the call has returned, and whether it
    found the loop not begun. -/
structure CallRecord where
  caller : Tid
  done : Bool := false
  ranOn : List Tid := []
  executing : Bool := false
  returned : Bool := false
  foundNotBegun : Bool := false
  deriving DecidableEq, Repr

/-- A listener's `OnSocketEvent`, with the iteration it was called in. -/
structure Callback where
  iteration : Nat
  fd : Fd
  registration : Nat
  events : EventMask
  deriving DecidableEq, Repr

structure State (D : Type) where
  -- EventLoop
  running : Bool
  threadId : Option Tid
  pending : List (Task D)
  -- EventLoopWin
  wakeupEv : Bool
  sockets : Sockets
  timers : Timers
  -- the clock, the threads, the calls
  clock : Int
  threads : Tid → ThreadPc D
  stack : List (Frame D)
  quit : QuitPhase D
  calls : CallId → CallRecord
  nextClosure : Closure
  nextCall : CallId
  -- history: the tasks pushed and the tasks started, the delayed tasks started, the calls of
  -- RunEventLoopOnce, the listener calls
  pushed : List (Task D)
  started : List (Task D)
  startedDue : List DelayedTaskInfo
  iterations : Nat
  called : List Callback

/-- The public calls that take several steps. -/
inductive ApiCall (D : Type) where
  | postTask
  | postDelayedTask (delay : D)
  | blockingCall
  | quit

/-- The socket calls, with the outcome of their `WSAEventSelect`. -/
inductive SocketCall where
  | register (fd : Fd) (events : EventMask) (listener : Nat) (selectOk : Bool)
  | unregister (fd : Fd) (selectOk : Bool)
  | rearm (fd : Fd) (events : EventMask) (selectOk : Bool)
  | notify (fd : Fd) (events : EventMask)
  deriving DecidableEq, Repr

/-- What a step leaves to the system: the result of a wait, the outcomes of the calls that can
    fail, and how far the clock moves before each of its readings. -/
structure Outcome where
  wait : WaitResult := .failed
  enumOk : Bool := true
  timer : TimerOutcome := ⟨true, true⟩
  gap₁ : Nat := 0
  gap₂ : Nat := 0
  gap₃ : Nat := 0
  gap₄ : Nat := 0

inductive Action (D : Type) where
  | begin
  | wakeUp
  | call (i : Tid) (c : ApiCall D)
  | resume (i : Tid) (o : Outcome)
  | runEventLoopOnce (defaultTimeout : D)
  | processPendingTasks
  | socket (c : SocketCall)
  | loop (o : Outcome)
  | arrive (fd : Fd) (event : NetMask) (connectError : Int)
  | expire (id : Nat)
  | tick (micros : Nat)

def SocketCall.run (s : Sockets) (quitting : Bool) : SocketCall → Bool × Sockets
  | .register fd events listener selectOk => s.registerSocket quitting fd events listener selectOk
  | .unregister fd selectOk => s.unregisterSocket quitting fd selectOk
  | .rearm fd events selectOk => s.rearmSocket quitting fd events selectOk
  | .notify fd events => s.artificiallyNotifyEvent quitting fd events

/-- Frames in which user code runs. -/
def Frame.userCode {D : Type} : Frame D → Bool
  | .running (.user _) _ => true
  | .running (.call _) _ => true
  | .runningDue _ => true
  | .inCallback _ _ _ => true
  | .inlineCall _ => true
  | _ => false

/-- `RunReadyCallbacks` keeps the object alive while its listener runs. -/
def Frame.owns {D : Type} (registration : Nat) : Frame D → Bool
  | .inCallback _ entry _ => entry.registration == registration
  | _ => false

def ThreadPc.isOutside {D : Type} : ThreadPc D → Bool
  | .outside => true
  | _ => false

/-- Where `PostTask` returns to. -/
def Task.afterPost {D : Type} : Task D → ThreadPc D
  | .call c => .callWaiting c
  | _ => .outside

namespace State
variable {D : Type}

def init : State D where
  running := false
  threadId := none
  pending := []
  wakeupEv := false
  sockets := Sockets.init
  timers := Timers.init
  clock := 0
  threads := fun _ => .outside
  stack := []
  quit := .notCalled
  calls := fun _ => { caller := 0 }
  nextClosure := 0
  nextCall := 0
  pushed := []
  started := []
  startedDue := []
  iterations := 0
  called := []

def isQuitting (s : State D) : Bool := s.running != true

def isCurrent (s : State D) (i : Tid) : Bool := s.threadId == some i

/-- The loop thread is running user code. -/
def inUserCode (s : State D) : Bool :=
  match s.stack with
  | [] => true
  | f :: _ => f.userCode

/-- Thread `i` may enter a public function. -/
def mayCall (s : State D) (i : Tid) : Bool :=
  (s.threads i).isOutside && (i != loopThread || s.inUserCode)

def setThread (s : State D) (i : Tid) (pc : ThreadPc D) : State D :=
  { s with threads := Function.update s.threads i pc }

def updateCall (s : State D) (c : CallId) (f : CallRecord → CallRecord) : State D :=
  { s with calls := Function.update s.calls c (f (s.calls c)) }

/-- The functor of call `c` starts on thread `i`. -/
def startFunctor (s : State D) (c : CallId) (i : Tid) : State D :=
  s.updateCall c fun k => { k with ranOn := k.ranOn ++ [i], executing := true }

def finishFunctor (s : State D) (c : CallId) : State D :=
  s.updateCall c fun k => { k with executing := false }

/-- A task object is destroyed. That of a blocking call owns the cleanup that sets `done`. -/
def destroyTask (s : State D) : Task D → State D
  | .call c => s.updateCall c fun k => { k with done := true }
  | _ => s

/-- Thread `i` enters a public function. -/
def enter (s : State D) (i : Tid) : ApiCall D → Option (State D)
  | .postTask =>
    some { s with
      threads := Function.update s.threads i (.postEntered (.user s.nextClosure))
      nextClosure := s.nextClosure + 1 }
  | .postDelayedTask delay =>
    some { s with
      threads := Function.update s.threads i (.delayedEntered s.nextClosure delay)
      nextClosure := s.nextClosure + 1 }
  | .blockingCall =>
    some { s with
      threads := Function.update s.threads i (.callEntered s.nextCall)
      calls := Function.update s.calls s.nextCall { caller := i }
      nextCall := s.nextCall + 1 }
  | .quit =>
    match s.quit with
    | .notCalled => some { s with threads := Function.update s.threads i .quitting, quit := .entered }
    | _ => none

variable [AbslDuration D]

/-- Thread `i` takes the next step of the public function it is in. -/
def resume (s : State D) (i : Tid) (o : Outcome) : Option (State D) :=
  match s.threads i with
  | .outside => none
  -- PostTaskImpl: a refused task is destroyed with the argument that held it
  | .postEntered t =>
    if s.isQuitting then some ((s.destroyTask t).setThread i t.afterPost)
    else some (s.setThread i (.postChecked t))
  | .postChecked t =>
    some { s with
      pending := s.pending ++ [t]
      pushed := s.pushed ++ [t]
      threads := Function.update s.threads i (.postPushed t) }
  | .postPushed t =>
    some { s with wakeupEv := true, threads := Function.update s.threads i t.afterPost }
  -- PostDelayedTaskImpl
  | .delayedEntered n delay =>
    some (s.setThread i (if s.isQuitting then .outside else .delayedChecked n delay))
  | .delayedChecked n delay =>
    let start := s.clock + o.gap₁
    let now₁ := start + o.gap₂
    let now₂ := now₁ + o.gap₃
    let now₃ := now₂ + o.gap₄
    if AbslDuration.le delay AbslDuration.zeroDuration then
      some ({ s with clock := start }.setThread i (.postEntered (.user n)))
    else if s.isCurrent i then
      some ({ s with
        clock := now₃
        timers := s.timers.postDelayedTaskOnTaskQueue n start delay now₁ now₂ now₃ o.timer
        }.setThread i .outside)
    else some ({ s with clock := start }.setThread i (.postEntered (.hop n start delay)))
  -- BlockingCallImpl
  | .callEntered c =>
    if s.isQuitting then
      some ((s.updateCall c fun k =>
        { k with returned := true, foundNotBegun := s.threadId.isNone }).setThread i .outside)
    else some (s.setThread i (.callChecked c))
  | .callChecked c =>
    if s.isCurrent i then
      some ({ s.startFunctor c i with stack := .inlineCall c :: s.stack }.setThread i .outside)
    else some (s.setThread i (.postEntered (.call c)))
  | .callWaiting c =>
    if (s.calls c).done then
      some ((s.updateCall c fun k => { k with returned := true }).setThread i .outside)
    else none
  | .callReturning c =>
    some ((s.updateCall c fun k => { k with returned := true }).setThread i .outside)
  -- Quit: the swapped-out tasks are destroyed one by one, before the store
  | .quitting =>
    match s.quit with
    | .entered => some { s with pending := [], quit := .swapped s.pending }
    | .swapped (t :: rest) => some { s.destroyTask t with quit := .swapped rest }
    | .swapped [] =>
      some { s with
        running := false
        quit := .returned
        threads := Function.update s.threads i .outside }
    | _ => none

/-- Whether `WSAWaitForMultipleEvents` may return `r`: the first signaled event in the order of
    the array, or a timeout when no event is signaled. -/
def mayReturn (s : State D) (timeoutMs : BitVec 32) : WaitResult → Bool
  | .failed => true
  | .wakeup => s.wakeupEv
  | .timer => !s.wakeupEv && s.timers.timer.event
  | .socket => !s.wakeupEv && !s.timers.timer.event && s.sockets.socketEv
  | .timeout =>
    !s.wakeupEv && !s.timers.timer.event && !s.sockets.socketEv && timeoutMs != infinite

/-- `ProcessSocketEvents` is called, `fs` being the frames below. -/
def processSocketEvents (s : State D) (r : WaitResult) (fs : List (Frame D)) : State D :=
  match s.sockets.registrations.keys with
  | [] => { s with stack := .closing r :: fs }
  | todo => { s with stack := .enumerating r todo [] :: fs }

/-- The wait has returned `r`. -/
def dispatch (s : State D) (r : WaitResult) (fs : List (Frame D)) : State D :=
  match r with
  | .failed => { s with stack := fs }
  | .timeout =>
    if s.sockets.hasArtificialEventsPending then s.processSocketEvents r fs
    else { s with stack := fs }
  | .wakeup => { s with stack := .woken :: fs }
  | .timer => { s with stack := .timerFired :: fs }
  | .socket => s.processSocketEvents r fs

/-- A task of the batch starts. -/
def startTask (s : State D) : Task D → State D
  | .call c => s.startFunctor c loopThread
  | _ => s

/-- A task of the batch is run to its end: user code ends, the functor of a call ends, or the hop
    of a delayed task calls `PostDelayedTaskOnTaskQueue`. -/
def finishTask (s : State D) (o : Outcome) : Task D → State D
  | .user _ => s
  | .call c => s.finishFunctor c
  | .hop n start delay =>
    let now₁ := s.clock + o.gap₁
    let now₂ := now₁ + o.gap₂
    let now₃ := now₂ + o.gap₃
    { s with
      clock := now₃
      timers := s.timers.postDelayedTaskOnTaskQueue n start delay now₁ now₂ now₃ o.timer }

/-- `entry.registration.lock()` succeeds: the object is still owned, by `registrations_` or by one of
    the frames below, from whose listener the loop was entered again. -/
def locked (s : State D) (fs : List (Frame D)) (entry : ReadyListEntry) : Bool :=
  s.sockets.locked entry || fs.any (Frame.owns entry.registration)

/-- The loop thread takes the next step of its innermost frame `f`, above `fs`. -/
def frameStep (s : State D) (o : Outcome) (fs : List (Frame D)) : Frame D → Option (State D)
  | .waiting timeoutMs => if s.mayReturn timeoutMs o.wait then some (s.dispatch o.wait fs) else none
  -- ProcessPendingTasks and RunPendingTasks
  | .woken => some { s with wakeupEv := false, stack := .draining :: fs }
  | .draining => some { s with pending := [], stack := .batch s.pending :: fs }
  | .batch [] => some { s with stack := fs }
  | .batch (t :: rest) =>
    some { s.startTask t with started := s.started ++ [t], stack := .running t rest :: fs }
  | .running t rest => some { s.finishTask o t with stack := .ran t rest :: fs }
  | .ran t rest => some { s.destroyTask t with stack := .batch rest :: fs }
  -- ProcessTimerTasksUpTo and RunDueTasks
  | .timerFired =>
    if s.timers.timerTasks.isEmpty then some { s with stack := .closing .timer :: fs }
    else
      some { s with
        clock := s.clock + o.gap₁
        timers := s.timers.cancel.dcheck .runDueTasksNonEmpty (!s.timers.timerTasks.isEmpty)
        stack := .due (s.clock + o.gap₁) :: fs }
  | .due now =>
    match BinaryHeap.top? s.timers.timerTasks with
    | none => none
    | some top =>
      if top.dueTimeMicros > now then some { s with stack := .scheduling :: fs }
      else
        some { s with
          timers := s.timers.dcheck .runTaskNonEmpty top.task.isSome
          startedDue := s.startedDue ++ [top]
          stack := .runningDue now :: fs }
  | .runningDue now =>
    let timerTasks := BinaryHeap.pop DelayedTaskInfo.gt s.timers.timerTasks
    some { s with
      timers := { s.timers with timerTasks := timerTasks }
      stack := (if timerTasks.isEmpty then .scheduling else .due now) :: fs }
  | .scheduling =>
    some { s with
      clock := s.clock + o.gap₁
      timers := s.timers.scheduleNextTimer D (s.clock + o.gap₁) o.timer
      stack := .closing .timer :: fs }
  -- ProcessSocketEvents and RunReadyCallbacks
  | .enumerating r [] ready =>
    some { s with
      sockets := { s.sockets with hasArtificialEventsPending := false }
      stack := .callbacks r ready :: fs }
  | .enumerating r (fd :: todo) ready =>
    match s.sockets.enumerateSocket ready fd o.enumOk with
    | (sockets, ready) => some { s with sockets := sockets, stack := .enumerating r todo ready :: fs }
  | .callbacks r [] => some { s with stack := .closing r :: fs }
  | .callbacks r (entry :: rest) =>
    if s.locked fs entry then
      some { s with
        called := s.called ++ [⟨s.iterations, entry.fd, entry.registration, entry.events⟩]
        stack := .inCallback r entry rest :: fs }
    else some { s with stack := .callbacks r rest :: fs }
  | .inCallback r _ rest => some { s with stack := .callbacks r rest :: fs }
  | .closing r =>
    some { s with
      sockets := { s.sockets with socketEv := if r = .socket then false else s.sockets.socketEv }
      stack := fs }
  -- BlockingCallImpl on the loop thread: the functor ends
  | .inlineCall c =>
    some ({ s.finishFunctor c with stack := fs }.setThread loopThread (.callReturning c))

/-- The loop thread takes the next step of its innermost frame. -/
def loopStep (s : State D) (o : Outcome) : Option (State D) :=
  match s.stack with
  | [] => none
  | f :: fs => s.frameStep o fs f

end State

variable {D : Type} [AbslDuration D]

def step (s : State D) : Action D → Option (State D)
  | .begin =>
    if s.threadId.isNone && s.mayCall loopThread then
      some { s with threadId := some loopThread, running := true }
    else none
  | .wakeUp => some { s with wakeupEv := true }
  | .call i c => if s.mayCall i then s.enter i c else none
  | .resume i o => s.resume i o
  | .runEventLoopOnce defaultTimeout =>
    if s.mayCall loopThread then
      some { s with
        stack := .waiting (toCmsWait defaultTimeout) :: s.stack
        iterations := s.iterations + 1 }
    else none
  | .processPendingTasks =>
    if s.mayCall loopThread then some { s with stack := .woken :: s.stack } else none
  | .socket c =>
    if s.mayCall loopThread then some { s with sockets := (c.run s.sockets s.isQuitting).2 } else none
  | .loop o => if (s.threads loopThread).isOutside then s.loopStep o else none
  | .arrive fd event connectError =>
    if event != 0 && event &&& s.sockets.selected fd == event then
      some { s with sockets := s.sockets.record fd event connectError }
    else none
  | .expire id => (s.timers.expire id).map fun timers => { s with timers }
  | .tick micros => some { s with clock := s.clock + micros }

/-- The runs of the loop whose actions satisfy `ok`. -/
abbrev ReachesIf (ok : State D → Action D → Prop) (s : State D) : Prop :=
  Reaches step ok State.init s

/-- The states of all runs. -/
abbrev Reachable (s : State D) : Prop := ReachesIf Always s

end IoBase
