import IoBase.DueTime
import IoBase.Transition

/- The delayed tasks by themselves: what happens to `timer_tasks_` and its timers.

   The state is `Timers`, the clock, and where the loop thread is in
   `ProcessTimerTasksUpTo` (`DuePass`), if it is there; the actions are the posts,
   the steps of that function and the expiries of timers, with the clock readings
   they take. Of the loop there is only what these need: user code posts, a hop
   brings the reading of its post along, and no hop and no second pass comes while
   one is being made. `DelayedSteps.lean` shows that the loop does nothing else to
   its timers unless a delayed task re-enters it.

   `TimerNote` is the history: the posts, the tasks put into `timer_tasks_`, the
   passes and the tasks run. `Sound` is what every run keeps: the timers are `Sane`, the heap is in
   order, and while a pass is being made no timer is set. A post made by the running
   task cannot set one, as its task is due no earlier than the clock was at the post,
   and the running task, at the top of the heap, was due before. -/
namespace IoBase
open AbslDuration LawfulDuration Transition

/-- Where `ProcessTimerTasksUpTo` is, with the clock reading of `RunDueTasks`. -/
inductive DuePass where
  /-- At the head of the loop of `RunDueTasks`. -/
  | due (now : Int)
  /-- In `top.Run()`. -/
  | running (now : Int)
  /-- Before `ScheduleNextTimer`. -/
  | scheduling
  deriving DecidableEq, Repr

/-- A call of `PostDelayedTaskOnTaskQueue`, with the clock readings it takes. -/
structure Post (D : Type) where
  task : Closure
  delay : D
  startMicros : Int
  now₁ : Int
  now₂ : Int
  now₃ : Int
  deriving DecidableEq, Repr

inductive TimerNote (D : Type) where
  | posted (task : Closure) (delay : D) (startMicros : Int)
  /-- `direct` is whether the task was posted from the loop thread. -/
  | queued (direct : Bool) (p : Post D)
  /-- `RunDueTasks` reads the clock. -/
  | fired (now : Int)
  | ran (info : DelayedTaskInfo) (now : Int)
  deriving DecidableEq, Repr

namespace Post
variable {D : Type} [AbslDuration D]

def dueTime (p : Post D) : Int := IoBase.dueTime p.delay p.startMicros p.now₁ p.now₂

/-- What is put into `timer_tasks_` for the post. -/
def info (p : Post D) : DelayedTaskInfo := ⟨p.dueTime, some p.task⟩

/-- The delay is positive, as `PostDelayedTaskImpl` has checked, and the clock does not go back. -/
structure Timely (p : Post D) : Prop where
  positive : le p.delay zeroDuration = false
  readings : Readings p.startMicros p.now₁ p.now₂
  now_le : p.now₂ ≤ p.now₃

instance (p : Post D) : Decidable p.Timely :=
  decidable_of_iff (le p.delay zeroDuration = false ∧
      (0 ≤ p.startMicros ∧ p.startMicros ≤ p.now₁ ∧ p.now₁ ≤ p.now₂ ∧ p.now₂ ≤ int64Max) ∧ p.now₂ ≤ p.now₃)
    ⟨fun ⟨hp, ⟨h₀, h₁, h₂, h₃⟩, h⟩ => ⟨hp, ⟨h₀, h₁, h₂, h₃⟩, h⟩,
      fun ⟨hp, ⟨h₀, h₁, h₂, h₃⟩, h⟩ => ⟨hp, ⟨h₀, h₁, h₂, h₃⟩, h⟩⟩

end Post

/-- The due time of a task that is put into `timer_tasks_` fits in an int64. -/
def TimerNote.Fits {D : Type} [AbslDuration D] : TimerNote D → Prop
  | .queued _ p => p.dueTime ≤ int64Max
  | _ => True

instance {D : Type} [AbslDuration D] : (n : TimerNote D) → Decidable n.Fits
  | .queued _ p => inferInstanceAs (Decidable (p.dueTime ≤ int64Max))
  | .posted .. | .fired _ | .ran .. => .isTrue trivial

def Timers.post {D : Type} [AbslDuration D] (ts : Timers) (p : Post D) (o : TimerOutcome) : Timers :=
  ts.postDelayedTaskOnTaskQueue p.task p.startMicros p.delay p.now₁ p.now₂ p.now₃ o

structure DelayedTasks where
  timers : Timers
  clock : Int
  pass : Option DuePass

namespace DelayedTasks

def init : DelayedTasks where
  timers := Timers.init
  clock := 0
  pass := none

inductive Action (D : Type) where
  | tick (micros : Nat)
  /-- A post from another thread: its task is on its way to the loop thread. -/
  | depart (task : Closure) (delay : D) (startMicros : Int)
  | post (p : Post D) (o : TimerOutcome)
  | hop (p : Post D) (o : TimerOutcome)
  /-- `ProcessTimerTasksUpTo` cancels the timer; `RunDueTasks` reads the clock. -/
  | fire (now : Int)
  /-- The next step of the pass; `now` is the reading of `ScheduleNextTimer`. -/
  | loop (now : Int) (o : TimerOutcome)
  | expire (id : Nat)

/-- User code runs on the loop thread only when no step of the pass itself is next. -/
def mayPost (s : DelayedTasks) : Bool :=
  match s.pass with
  | none => true
  | some (.running _) => true
  | _ => false

variable {D : Type} [AbslDuration D]

/-- The next step of a pass. -/
def passStep (D : Type) [AbslDuration D] (s : DelayedTasks) (now : Int) (o : TimerOutcome) :
    DuePass → Option DelayedTasks
  | .due r =>
    match BinaryHeap.top? s.timers.timerTasks with
    | none => none
    | some top =>
      if top.dueTimeMicros > r then some { s with pass := some .scheduling }
      else
        some { s with
          timers := s.timers.dcheck .runTaskNonEmpty top.task.isSome
          pass := some (.running r) }
  | .running r =>
    let timerTasks := BinaryHeap.pop DelayedTaskInfo.gt s.timers.timerTasks
    some { s with
      timers := { s.timers with timerTasks := timerTasks }
      pass := some (if timerTasks.isEmpty then .scheduling else .due r) }
  | .scheduling =>
    if s.clock ≤ now then
      some { timers := s.timers.scheduleNextTimer D now o, clock := now, pass := none }
    else none

def step (s : DelayedTasks) : Action D → Option DelayedTasks
  | .tick micros => some { s with clock := s.clock + micros }
  | .depart _ _ startMicros => if s.clock ≤ startMicros then some { s with clock := startMicros } else none
  | .post p o =>
    if s.mayPost = true ∧ s.clock ≤ p.startMicros ∧ p.Timely then
      some { s with timers := s.timers.post p o, clock := p.now₃ }
    else none
  | .hop p o =>
    if s.pass = none ∧ s.clock ≤ p.now₁ ∧ p.Timely then
      some { s with timers := s.timers.post p o, clock := p.now₃ }
    else none
  | .fire now =>
    if s.pass = none ∧ s.timers.timer.event = true ∧ s.clock ≤ now ∧ s.timers.timerTasks ≠ [] then
      some {
        timers := s.timers.cancel.dcheck .runDueTasksNonEmpty (!s.timers.timerTasks.isEmpty)
        clock := now
        pass := some (.due now) }
    else none
  | .loop now o => s.pass.bind (passStep D s now o)
  | .expire id => (s.timers.expire id).map fun timers => { s with timers }

/-- What an action adds to the history. -/
def notes (s : DelayedTasks) : Action D → List (TimerNote D)
  | .depart task delay startMicros => [.posted task delay startMicros]
  | .post p _ => [.posted p.task p.delay p.startMicros, .queued true p]
  | .hop p _ => [.queued false p]
  | .fire now => [.fired now]
  | .loop _ _ =>
    match s.pass, BinaryHeap.top? s.timers.timerTasks with
    | some (.due r), some top => if top.dueTimeMicros > r then [] else [.ran top r]
    | _, _ => []
  | _ => []

/-- An int64 holds the readings of the clock and the due times. -/
structure Fits (s : DelayedTasks) (a : Action D) : Prop where
  clock : ∀ s', step s a = some s' → s'.clock ≤ int64Max
  notes : ∀ note ∈ s.notes a, note.Fits

end DelayedTasks

/-- The delayed tasks with their history. -/
abbrev delayed (D : Type) [AbslDuration D] : DelayedTasks × List (TimerNote D) → DelayedTasks.Action D →
    Option (DelayedTasks × List (TimerNote D)) := observe DelayedTasks.step DelayedTasks.notes

/-! ## The heap -/

theorem gt_iff {a b : DelayedTaskInfo} : a.gt b = true ↔ b.dueTimeMicros < a.dueTimeMicros := by
  simp [DelayedTaskInfo.gt]

theorem not_gt_iff {a b : DelayedTaskInfo} : a.gt b = false ↔ a.dueTimeMicros ≤ b.dueTimeMicros := by
  simp [DelayedTaskInfo.gt]

/-- `operator>` is an order of a heap. -/
theorem weakOrder_gt : BinaryHeap.WeakOrder DelayedTaskInfo.gt where
  asymm := by
    intro a b h
    rw [gt_iff] at h
    rw [not_gt_iff]
    omega
  trans := by
    intro a b c hab hbc
    rw [not_gt_iff] at *
    omega

namespace Timers
variable {ts : Timers}

/-! ## The timer code -/

/-- No timer is set, and the event is not signaled. -/
structure Idle (ts : Timers) : Prop where
  timer : ts.timer = ⟨false, 0⟩
  timerId : ts.timerId = 0
  outstanding : ts.outstanding = []

/-- What holds of the timers in every run: the assertions have held, at most one of the two timers is
    set, and the event is signaled by no other than the one that is. -/
structure Sane (ts : Timers) : Prop where
  checks : ts.failedChecks = []
  tasks : ∀ info ∈ ts.timerTasks, info.task.isSome = true
  exclusive : ts.timer.timerId = 0 ∨ ts.timerId = 0
  outstanding : ∀ t ∈ ts.outstanding, t.id = ts.timer.timerId
  unset : ts.timer.timerId = 0 → ts.outstanding = [] ∧ ts.timer.event = false
  armed : ts.timer.timerId ≠ 0 → ts.timerTasks ≠ []
  next : 0 < ts.nextTimerId

theorem dcheck_true {c : Check} : ts.dcheck c true = ts := rfl

/-- `timer_.Cancel()` leaves neither the timer set nor its event signaled. -/
theorem cancel_stops (h : ts.Sane) : ts.cancel.timer = ⟨false, 0⟩ ∧ ts.cancel.outstanding = [] := by
  have hfilter : ts.outstanding.filter (·.id != ts.timer.timerId) = [] :=
    List.filter_eq_nil_iff.mpr fun t ht => by simp [h.outstanding t ht]
  unfold cancel
  split
  · exact ⟨rfl, hfilter⟩
  · rename_i h0
    have h0' : ts.timer.timerId = 0 := by simpa using h0
    exact ⟨by simp [h0'], (h.unset h0').1⟩

/-- What cancelling leaves alone. -/
theorem cancel_frame : ts.cancel = { ts with
    timer := ts.cancel.timer, outstanding := ts.cancel.outstanding } := by
  unfold cancel
  split <;> rfl

theorem timerTasks_cancel : ts.cancel.timerTasks = ts.timerTasks := by rw [cancel_frame]

theorem cancel_idle (h : ts.Sane) (hid : ts.timerId = 0) : ts.cancel.Idle :=
  ⟨(cancel_stops h).1, by rw [cancel_frame]; exact hid, (cancel_stops h).2⟩

theorem cancelTimers_idle (h : ts.Sane) : ts.cancelTimers.Idle :=
  ⟨(cancel_stops h).1, rfl, (cancel_stops h).2⟩

/-- Idle timers are sane as far as the checks and the tasks are. -/
theorem Idle.sane (hi : ts.Idle) (hchecks : ts.failedChecks = [])
    (htasks : ∀ info ∈ ts.timerTasks, info.task.isSome = true) (hnext : 0 < ts.nextTimerId) : ts.Sane where
  checks := hchecks
  tasks := htasks
  exclusive := .inr hi.timerId
  outstanding := by rw [hi.outstanding]; exact fun _ ht => absurd ht List.not_mem_nil
  unset := fun _ => ⟨hi.outstanding, by rw [hi.timer]⟩
  armed := fun h => absurd (by rw [hi.timer]) h
  next := hnext

variable {D : Type} [AbslDuration D] {now : Int} {o : TimerOutcome}

/-- What `ScheduleNextTimer` asks the system for. -/
def delayMs (D : Type) [AbslDuration D] (dueTimeMicros now : Int) : BitVec 32 :=
  BitVec.ofInt 32 (toInt64Milliseconds (stdMax zeroDuration (microseconds (dueTimeMicros - now)) : D))

/-- `ScheduleNextTimer` sets one of the two timers for the top of the heap, or none. -/
theorem scheduleNextTimer_idle (hi : ts.Idle) {top : DelayedTaskInfo}
    (htop : BinaryHeap.top? ts.timerTasks = some top) :
    scheduleNextTimer D ts now o =
      if o.timeSetEventOk then
        { ts with
          timer := ⟨false, ts.nextTimerId⟩
          outstanding := [⟨ts.nextTimerId, delayMs D top.dueTimeMicros now, now⟩]
          nextTimerId := ts.nextTimerId + 1 }
      else if o.setTimerOk then { ts with timerId := ts.nextTimerId, nextTimerId := ts.nextTimerId + 1 }
      else ts := by
  obtain ⟨timerTasks, timer, timerId, outstanding, nextTimerId, failedChecks⟩ := ts
  obtain ⟨rfl, rfl, rfl⟩ := hi
  simp only [scheduleNextTimer, BEq.rfl, dcheck_true, htop, startOneShotTimer]
  cases o.timeSetEventOk <;> cases o.setTimerOk <;> rfl

theorem scheduleNextTimer_nil (hi : ts.Idle) (htop : ts.timerTasks = []) :
    scheduleNextTimer D ts now o = ts := by
  simp only [scheduleNextTimer, hi.timerId, BEq.rfl, dcheck_true, BinaryHeap.top?, htop, List.head?_nil]

theorem sane_scheduleNextTimer (h : ts.Sane) (hi : ts.Idle) : (scheduleNextTimer D ts now o).Sane := by
  cases htop : BinaryHeap.top? ts.timerTasks with
  | none =>
    rw [scheduleNextTimer_nil hi (List.head?_eq_none_iff.mp htop)]
    exact h
  | some top =>
    have hne : ts.timerTasks ≠ [] := fun hn => by simp [hn, BinaryHeap.top?] at htop
    have hnext := h.next
    rw [scheduleNextTimer_idle hi htop]
    split
    · exact {
        checks := h.checks
        tasks := h.tasks
        exclusive := .inr hi.timerId
        outstanding := fun t ht => by simp only [List.mem_singleton] at ht; rw [ht]
        unset := fun h0 => by simp only at h0; omega
        armed := fun _ => hne
        next := Nat.succ_pos _ }
    · split
      · exact { h with
          exclusive := .inl (by rw [hi.timer])
          next := Nat.succ_pos _ }
      · exact h

/-- `PostDelayedTaskOnTaskQueue`: the task goes into the heap, and the timer is set again if it comes
    before the top. -/
theorem post_eq (p : Post D) :
    ts.post p o =
      if (BinaryHeap.top? ts.timerTasks).all (·.gt p.info) then
        scheduleNextTimer D
          { ts with timerTasks := BinaryHeap.push DelayedTaskInfo.gt ts.timerTasks p.info }.cancelTimers p.now₃ o
      else { ts with timerTasks := BinaryHeap.push DelayedTaskInfo.gt ts.timerTasks p.info } := by
  simp only [post, postDelayedTaskOnTaskQueue]
  cases htop : BinaryHeap.top? ts.timerTasks with
  | none => rfl
  | some top =>
    simp only [Option.all_some, DelayedTaskInfo.gt]
    rfl

theorem timerTasks_post {p : Post D} :
    (ts.post p o).timerTasks = BinaryHeap.push DelayedTaskInfo.gt ts.timerTasks p.info := by
  rw [post_eq]
  split
  · rw [timerTasks_scheduleNextTimer, timerTasks_cancelTimers]
  · rfl

/-- A task that does not come before the top changes no timer. -/
theorem post_of_top {p : Post D} {top : DelayedTaskInfo} (htop : BinaryHeap.top? ts.timerTasks = some top)
    (hle : top.dueTimeMicros ≤ p.dueTime) :
    ts.post p o = { ts with timerTasks := BinaryHeap.push DelayedTaskInfo.gt ts.timerTasks p.info } := by
  have hgt : top.gt p.info = false := not_gt_iff.mpr hle
  rw [post_eq, htop, Option.all_some, hgt]
  rfl

theorem tasks_push (h : ∀ info ∈ ts.timerTasks, info.task.isSome = true) (p : Post D) :
    ∀ info ∈ BinaryHeap.push DelayedTaskInfo.gt ts.timerTasks p.info, info.task.isSome = true := by
  intro info hi
  rcases List.mem_cons.mp ((BinaryHeap.push_perm _ _ _).mem_iff.mp hi) with rfl | hi
  · rfl
  · exact h info hi

theorem sane_post (h : ts.Sane) (p : Post D) : (ts.post p o).Sane := by
  have hpush : { ts with timerTasks := BinaryHeap.push DelayedTaskInfo.gt ts.timerTasks p.info }.Sane :=
    { h with tasks := tasks_push h.tasks p, armed := fun _ => BinaryHeap.push_ne_nil _ _ _ }
  rw [post_eq]
  split
  · have hidle := cancelTimers_idle hpush
    refine sane_scheduleNextTimer (hidle.sane ?_ ?_ ?_) hidle
    · rw [cancelTimers, cancel_frame]
      exact h.checks
    · rw [timerTasks_cancelTimers]
      exact hpush.tasks
    · rw [cancelTimers, cancel_frame]
      exact h.next
  · exact hpush

omit [AbslDuration D]

theorem expire_frame {ts' : Timers} {id : Nat} (he : ts.expire id = some ts') :
    ts'.timerTasks = ts.timerTasks ∧ ts.outstanding ≠ [] := by
  simp only [expire] at he
  split at he
  · rename_i hany
    cases he
    refine ⟨rfl, fun hn => ?_⟩
    rw [hn] at hany
    cases hany
  · cases he

/-- A timer that expires is the one that is set. -/
theorem sane_expire {ts' : Timers} {id : Nat} (h : ts.Sane) (he : ts.expire id = some ts') : ts'.Sane := by
  simp only [expire] at he
  split at he
  · rename_i hany
    cases he
    obtain ⟨t, ht, -⟩ := List.any_eq_true.mp hany
    have hset : ts.timer.timerId ≠ 0 := fun h0 => by
      rw [(h.unset h0).1] at ht
      exact List.not_mem_nil ht
    exact { h with
      outstanding := fun t ht => h.outstanding t (List.mem_of_mem_filter ht)
      unset := fun h0 => absurd h0 hset }
  · cases he

end Timers

namespace DelayedTasks

/-! ## The invariant -/

/-- What a pass needs of the timers: none is set, and while a task runs, the top of the heap is a task
    that was due. -/
def PassOk (s : DelayedTasks) : DuePass → Prop
  | .due r => s.timers.Idle ∧ r ≤ s.clock ∧ s.timers.timerTasks ≠ []
  | .running r => s.timers.Idle ∧ r ≤ s.clock ∧
      ∃ top, BinaryHeap.top? s.timers.timerTasks = some top ∧ top.dueTimeMicros ≤ r
  | .scheduling => s.timers.Idle

structure Sound (s : DelayedTasks) : Prop where
  sane : s.timers.Sane
  ordered : BinaryHeap.Ordered DelayedTaskInfo.gt s.timers.timerTasks
  clock : 0 ≤ s.clock
  pass : ∀ p, s.pass = some p → s.PassOk p

theorem PassOk.idle {s : DelayedTasks} {p : DuePass} (h : s.PassOk p) : s.timers.Idle := by
  cases p with
  | due r => exact h.1
  | running r => exact h.1
  | scheduling => exact h

/-- A pass goes on while the clock moves. -/
theorem PassOk.later {s : DelayedTasks} {p : DuePass} {clock : Int} (h : s.PassOk p)
    (hle : s.clock ≤ clock) : PassOk { s with clock } p := by
  cases p with
  | due r => exact ⟨h.1, Int.le_trans h.2.1 hle, h.2.2⟩
  | running r => exact ⟨h.1, Int.le_trans h.2.1 hle, h.2.2⟩
  | scheduling => exact h

theorem sound_init : Sound init where
  sane := by constructor <;> simp [init, Timers.init]
  ordered := by intro i hi a b ha hb; simp [init, Timers.init] at ha
  clock := by simp [init]
  pass := by simp [init]

variable {D : Type} [LawfulDuration D] {s s' : DelayedTasks}

/-- While a task runs, nothing posted comes before it. -/
theorem running_post {p : Post D} {r : Int} (h : s.PassOk (.running r)) (hclock : s.clock ≤ p.startMicros)
    (hp : p.Timely) :
    ∃ top, BinaryHeap.top? s.timers.timerTasks = some top ∧ top.dueTimeMicros ≤ r ∧
      top.dueTimeMicros ≤ p.dueTime := by
  obtain ⟨-, hr, top, htop, hle⟩ := h
  have hpos : lt zeroDuration p.delay = true := by simpa [le] using hp.positive
  have hstart : p.startMicros ≤ p.dueTime := start_le_dueTime hp.readings hpos
  exact ⟨top, htop, hle, by omega⟩

theorem passOk_post {p : Post D} {o : TimerOutcome} {r : Int} (h : s.PassOk (.running r))
    (hclock : s.clock ≤ p.startMicros) (hp : p.Timely) :
    PassOk ⟨s.timers.post p o, p.now₃, s.pass⟩ (.running r) := by
  obtain ⟨top, htop, hle, hdue⟩ := running_post h hclock hp
  obtain ⟨hidle, hr, -⟩ := h
  obtain ⟨-, ⟨-, h₁, h₂, -⟩, h₃⟩ := hp
  simp only [PassOk]
  rw [Timers.post_of_top htop hdue]
  refine ⟨⟨hidle.timer, hidle.timerId, hidle.outstanding⟩, by omega, top, ?_, hle⟩
  exact BinaryHeap.top?_push htop (not_gt_iff.mpr hdue)

theorem ordered_post {p : Post D} {o : TimerOutcome} (h : s.Sound) :
    BinaryHeap.Ordered DelayedTaskInfo.gt (s.timers.post p o).timerTasks := by
  rw [Timers.timerTasks_post]
  exact BinaryHeap.ordered_push weakOrder_gt h.ordered _

theorem mem_of_top? {l : List DelayedTaskInfo} {top : DelayedTaskInfo} (h : BinaryHeap.top? l = some top) :
    top ∈ l :=
  List.mem_of_head? h

/-- The steps of a pass. -/
theorem sound_passStep {now : Int} {o : TimerOutcome} {p : DuePass} (h : s.Sound) (hp : s.pass = some p)
    (hstep : passStep D s now o p = some s') : s'.Sound := by
  have hpass := h.pass p hp
  cases p with
  | due r =>
    simp only [passStep] at hstep
    split at hstep
    · cases hstep
    · rename_i top htop
      split at hstep
      · cases hstep
        refine ⟨h.sane, h.ordered, h.clock, fun p hp => ?_⟩
        cases hp
        exact hpass.1
      · rename_i hdue
        cases hstep
        rw [h.sane.tasks top (mem_of_top? htop), Timers.dcheck_true]
        refine ⟨h.sane, h.ordered, h.clock, fun p hp => ?_⟩
        cases hp
        exact ⟨hpass.1, hpass.2.1, top, htop, by omega⟩
  | running r =>
    cases hstep
    obtain ⟨hidle, hr, top, htop, -⟩ := hpass
    have hidle' : { s.timers with
        timerTasks := BinaryHeap.pop DelayedTaskInfo.gt s.timers.timerTasks }.Idle :=
      ⟨hidle.timer, hidle.timerId, hidle.outstanding⟩
    refine ⟨hidle'.sane h.sane.checks (fun info hi => ?_) h.sane.next,
      BinaryHeap.ordered_pop weakOrder_gt h.ordered, h.clock, fun p hp => ?_⟩
    · have hmem := (BinaryHeap.cons_pop_perm DelayedTaskInfo.gt htop).mem_iff.mp (List.mem_cons_of_mem _ hi)
      exact h.sane.tasks info hmem
    · simp only [Option.some.injEq] at hp
      split at hp <;> subst hp
      · exact hidle'
      · rename_i hne
        exact ⟨hidle', hr, fun hn => hne (List.isEmpty_iff.mpr hn)⟩
  | scheduling =>
    simp only [passStep] at hstep
    split at hstep
    · rename_i hnow
      cases hstep
      have hclock := h.clock
      refine ⟨Timers.sane_scheduleNextTimer h.sane hpass, ?_, by simp only; omega, fun p hp => by cases hp⟩
      rw [Timers.timerTasks_scheduleNextTimer]
      exact h.ordered
    · cases hstep

theorem sound_step {a : Action D} (h : s.Sound) (hstep : step s a = some s') : s'.Sound := by
  have hclock := h.clock
  cases a with
  | tick micros =>
    cases hstep
    exact ⟨h.sane, h.ordered, by simp only; omega, fun p hp => (h.pass p hp).later (by omega)⟩
  | depart task delay startMicros =>
    simp only [step] at hstep
    split at hstep
    · rename_i hle
      cases hstep
      exact ⟨h.sane, h.ordered, by simp only; omega, fun p hp => (h.pass p hp).later hle⟩
    · cases hstep
  | post p o =>
    simp only [step] at hstep
    split at hstep
    · rename_i hguard
      obtain ⟨hmay, hle, hp⟩ := hguard
      cases hstep
      have hnow : 0 ≤ p.now₃ := by
        have := hp.readings.start_le
        have := hp.readings.now_le
        have := hp.now_le
        omega
      refine ⟨Timers.sane_post h.sane p, ordered_post h, hnow, fun q hq => ?_⟩
      have hpass := h.pass q hq
      simp only at hq
      cases q with
      | running r =>
        have hkeep := passOk_post (o := o) hpass hle hp
        exact hkeep
      | due r => simp [mayPost, hq] at hmay
      | scheduling => simp [mayPost, hq] at hmay
    · cases hstep
  | hop p o =>
    simp only [step] at hstep
    split at hstep
    · rename_i hguard
      obtain ⟨hnone, hle, hp⟩ := hguard
      cases hstep
      have hnow : 0 ≤ p.now₃ := by
        have := hp.readings.now_le
        have := hp.now_le
        omega
      refine ⟨Timers.sane_post h.sane p, ordered_post h, hnow, fun q hq => ?_⟩
      simp [hnone] at hq
    · cases hstep
  | fire now =>
    simp only [step] at hstep
    split at hstep
    · rename_i hguard
      obtain ⟨hnone, hevent, hle, hne⟩ := hguard
      cases hstep
      have hset : s.timers.timer.timerId ≠ 0 := fun h0 => by
        have hoff := (h.sane.unset h0).2
        rw [hevent] at hoff
        cases hoff
      have hid : s.timers.timerId = 0 := h.sane.exclusive.resolve_left hset
      have hidle := Timers.cancel_idle h.sane hid
      have hframe := @Timers.cancel_frame s.timers
      have htasks := @Timers.timerTasks_cancel s.timers
      rw [show (!s.timers.timerTasks.isEmpty) = true by simpa using hne, Timers.dcheck_true]
      refine ⟨hidle.sane ?_ (htasks ▸ h.sane.tasks) ?_, htasks ▸ h.ordered, by simp only; omega, fun p hp => ?_⟩
      · rw [hframe]
        exact h.sane.checks
      · rw [hframe]
        exact h.sane.next
      cases hp
      exact ⟨hidle, Int.le_refl _, htasks ▸ hne⟩
    · cases hstep
  | loop now o =>
    obtain ⟨p, hp, hstep⟩ := Option.bind_eq_some_iff.mp hstep
    exact sound_passStep h hp hstep
  | expire id =>
    simp only [step, Option.map_eq_some_iff] at hstep
    obtain ⟨timers, he, rfl⟩ := hstep
    obtain ⟨htasks, hout⟩ := Timers.expire_frame he
    refine ⟨Timers.sane_expire h.sane he, htasks ▸ h.ordered, h.clock, fun p hp => ?_⟩
    -- during a pass there is no timer to expire
    exact absurd (h.pass p hp).idle.outstanding hout

theorem sound_of_run {ok : DelayedTasks × List (TimerNote D) → Action D → Prop}
    {p q : DelayedTasks × List (TimerNote D)} (hp : p.1.Sound) (h : Reaches (delayed D) ok p q) : q.1.Sound :=
  h.invariant (P := fun q => q.1.Sound)
    (fun _ _ _ _ hstep hs => sound_step hs (observe_eq_some.mp hstep).1) hp

end DelayedTasks

end IoBase
