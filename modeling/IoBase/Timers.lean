import IoBase.BinaryHeap
import IoBase.Duration

/- The timer half of `EventLoopWin`: the delayed tasks and the timers armed for
   them.

   `Timers` is the state: `timer_tasks_`, the `MultimediaTimer`, the fallback
   `timer_id_`, and on the system's side the one-shot multimedia timers that have
   been set and have neither expired nor been killed. `timeSetEvent` and
   `SetTimer` take their outcome as an argument, and so does every clock reading.
   An `ABSL_DCHECK` that does not hold is noted in `failedChecks` and passed, as a
   release build passes it.

   What is assumed of the system: a successful `timeSetEvent` sets the event once
   when it expires, `timeKillEvent` prevents that, and `SetTimer(nullptr, ..)`
   only posts messages to the thread's message queue, which nothing here reads. -/
namespace IoBase
open AbslDuration

/-- A closure posted by the program. -/
abbrev Closure := Nat

structure DelayedTaskInfo where
  dueTimeMicros : Int
  task : Option Closure
  deriving DecidableEq, Repr

/-- `operator>`. -/
def DelayedTaskInfo.gt (a b : DelayedTaskInfo) : Bool := decide (a.dueTimeMicros > b.dueTimeMicros)

/-- `event_`, signaled or not, and `timer_id_`, 0 when no timer is set. -/
structure MultimediaTimer where
  event : Bool
  timerId : Nat
  deriving DecidableEq, Repr

/-- A one-shot timer of the system: its id, the delay asked for, and the clock when it was set. -/
structure OneShot where
  id : Nat
  delayMs : BitVec 32
  setAt : Int
  deriving DecidableEq, Repr

/-- The assertions of the timer code. -/
inductive Check where
  | startTimerIdZero
  | scheduleTimerIdZero
  | runDueTasksNonEmpty
  | runTaskNonEmpty
  deriving DecidableEq, Repr

structure Timers where
  timerTasks : List DelayedTaskInfo
  timer : MultimediaTimer
  timerId : Nat
  outstanding : List OneShot
  nextTimerId : Nat
  failedChecks : List Check
  deriving DecidableEq, Repr

/-- The outcomes of the two calls that set a timer. -/
structure TimerOutcome where
  timeSetEventOk : Bool
  setTimerOk : Bool
  deriving DecidableEq, Repr

namespace Timers

def init : Timers where
  timerTasks := []
  timer := ⟨false, 0⟩
  timerId := 0
  outstanding := []
  nextTimerId := 1
  failedChecks := []

def dcheck (ts : Timers) (c : Check) (holds : Bool) : Timers :=
  if holds then ts else { ts with failedChecks := ts.failedChecks ++ [c] }

/-- A one-shot timer expires: the system sets its event. -/
def expire (ts : Timers) (id : Nat) : Option Timers :=
  if ts.outstanding.any (·.id == id) then
    some { ts with
      outstanding := ts.outstanding.filter (·.id != id)
      timer := { ts.timer with event := true } }
  else none

/-! ## `MultimediaTimer` -/

def startOneShotTimer (ts : Timers) (delayMs : BitVec 32) (now : Int) (ok : Bool) : Bool × Timers :=
  let ts := ts.dcheck .startTimerIdZero (ts.timer.timerId == 0)
  if ok then
    (true, { ts with
      timer := { ts.timer with timerId := ts.nextTimerId }
      outstanding := ts.outstanding ++ [⟨ts.nextTimerId, delayMs, now⟩]
      nextTimerId := ts.nextTimerId + 1 })
  else (false, { ts with timer := { ts.timer with timerId := 0 } })

def cancel (ts : Timers) : Timers :=
  let ts :=
    if ts.timer.timerId ≠ 0 then
      { ts with
        outstanding := ts.outstanding.filter (·.id != ts.timer.timerId)
        timer := { ts.timer with timerId := 0 } }
    else ts
  { ts with timer := { ts.timer with event := false } }

/-! ## `EventLoopWin` -/

def scheduleNextTimer (D : Type) [AbslDuration D] (ts : Timers) (now : Int) (o : TimerOutcome) :
    Timers :=
  let ts := ts.dcheck .scheduleTimerIdZero (ts.timerId == 0)
  match BinaryHeap.top? ts.timerTasks with
  | none => ts
  | some nextTask =>
    let delay : D := stdMax zeroDuration (microseconds (nextTask.dueTimeMicros - now))
    let milliseconds := BitVec.ofInt 32 (toInt64Milliseconds delay)
    match ts.startOneShotTimer milliseconds now o.timeSetEventOk with
    | (true, ts) => ts
    | (false, ts) =>
      if o.setTimerOk then { ts with timerId := ts.nextTimerId, nextTimerId := ts.nextTimerId + 1 }
      else { ts with timerId := 0 }

def cancelTimers (ts : Timers) : Timers := { ts.cancel with timerId := 0 }

/-- `now₁`, `now₂` and `now₃` are the clock readings of this function, of the `DelayedTaskInfo`
    constructor and of `ScheduleNextTimer`. -/
def postDelayedTaskOnTaskQueue {D : Type} [AbslDuration D] (ts : Timers) (task : Closure)
    (startMicros : Int) (delay : D) (now₁ now₂ now₃ : Int) (o : TimerOutcome) : Timers :=
  let delay := sub delay (microseconds (now₁ - startMicros))
  let info : DelayedTaskInfo := ⟨now₂ + toInt64Microseconds delay, some task⟩
  let needToScheduleTimers :=
    match BinaryHeap.top? ts.timerTasks with
    | none => true
    | some top => decide (top.dueTimeMicros > info.dueTimeMicros)
  let ts := { ts with timerTasks := BinaryHeap.push DelayedTaskInfo.gt ts.timerTasks info }
  if needToScheduleTimers then scheduleNextTimer D ts.cancelTimers now₃ o else ts

/-! ## Only a post adds a task -/

section TimerTasks
variable {ts : Timers}

theorem timerTasks_dcheck {c : Check} {holds : Bool} :
    (ts.dcheck c holds).timerTasks = ts.timerTasks := by
  unfold dcheck
  split <;> rfl

theorem timerTasks_cancelTimers : ts.cancelTimers.timerTasks = ts.timerTasks := by
  simp only [cancelTimers, cancel]
  split <;> rfl

theorem timerTasks_scheduleNextTimer {D : Type} [AbslDuration D] {now : Int} {o : TimerOutcome} :
    (scheduleNextTimer D ts now o).timerTasks = ts.timerTasks := by
  simp only [scheduleNextTimer]
  split
  · exact timerTasks_dcheck
  · simp only [startOneShotTimer]
    cases o.timeSetEventOk <;> cases o.setTimerOk <;> simp [timerTasks_dcheck]

end TimerTasks

end Timers

end IoBase
