import IoBase.DelayedSteps

/- One pass of `RunDueTasks`.

   `Passing q r` is what holds during a pass that began with the heap `q` and the clock
   reading `r`: the tasks that have been run and those in the heap are those of `q`
   and those posted since, what has been run was due and comes before what waits,
   and what has been posted is not due. So the heap's top, once it is run, stays the
   top until it is popped; the pass runs the due tasks of `q` in the order of their
   due times, and ends when it has run them all (`run_due_tasks`). -/
namespace IoBase
open AbslDuration LawfulDuration Transition State

variable {D : Type}

/-- The tasks that have been run, in order. -/
def ranTasks (h : List (TimerNote D)) : List DelayedTaskInfo :=
  h.filterMap fun
    | .ran info _ => some info
    | _ => none

def DelayedTaskInfo.dueAt (r : Int) (info : DelayedTaskInfo) : Bool := decide (info.dueTimeMicros ≤ r)

section Queued
variable [AbslDuration D]

/-- The tasks that have been put into `timer_tasks_`. -/
def queuedTasks (h : List (TimerNote D)) : List DelayedTaskInfo :=
  h.filterMap fun
    | .queued _ p => some p.info
    | _ => none

/-- The delay of a post is a microsecond or more. -/
def TimerNote.FromMicrosecond : TimerNote D → Prop
  | .queued _ p => le (microseconds 1) p.delay = true
  | _ => True

instance : (n : TimerNote D) → Decidable n.FromMicrosecond
  | .queued _ p => inferInstanceAs (Decidable (le (microseconds 1) p.delay = true))
  | .posted .. | .fired _ | .ran .. => .isTrue trivial

/-- The pass has not ended, and what is posted in it has a delay of a microsecond or more. -/
def DuringPass (s : DelayedTasks) (a : DelayedTasks.Action D) : Prop :=
  s.pass ≠ some .scheduling ∧ ∀ note ∈ s.notes a, note.FromMicrosecond

/-- The tasks of the heap `q` that the pass began with, and those posted since: where they are. -/
def Balanced (q : List DelayedTaskInfo) (r : Int) (s : DelayedTasks) (h : List (TimerNote D)) :
    DuePass → Prop
  | .due r' => r' = r ∧ (ranTasks h ++ s.timers.timerTasks).Perm (q ++ queuedTasks h)
  | .running r' => r' = r ∧ ∃ ran top, ranTasks h = ran ++ [top] ∧
      BinaryHeap.top? s.timers.timerTasks = some top ∧ (ran ++ s.timers.timerTasks).Perm (q ++ queuedTasks h)
  | .scheduling => (ranTasks h ++ s.timers.timerTasks).Perm (q ++ queuedTasks h) ∧
      ∀ info ∈ s.timers.timerTasks, r < info.dueTimeMicros

structure Passing (q : List DelayedTaskInfo) (r : Int) (s : DelayedTasks) (h : List (TimerNote D)) : Prop where
  sound : s.Sound
  balanced : ∃ p, s.pass = some p ∧ Balanced q r s h p
  due : ∀ info ∈ ranTasks h, info.dueTimeMicros ≤ r
  later : ∀ info ∈ queuedTasks h, r < info.dueTimeMicros
  sorted : (ranTasks h).Pairwise (fun a b => a.dueTimeMicros ≤ b.dueTimeMicros)
  ahead : ∀ a ∈ ranTasks h, ∀ b ∈ s.timers.timerTasks, a.dueTimeMicros ≤ b.dueTimeMicros

end Queued

@[simp] theorem ranTasks_append (h notes : List (TimerNote D)) :
    ranTasks (h ++ notes) = ranTasks h ++ ranTasks notes := List.filterMap_append

@[simp] theorem queuedTasks_append [AbslDuration D] (h notes : List (TimerNote D)) :
    queuedTasks (h ++ notes) = queuedTasks h ++ queuedTasks notes := List.filterMap_append

theorem passing_init {s : DelayedTasks} {r : Int} [AbslDuration D] (hs : s.Sound) (hp : s.pass = some (.due r)) :
    Passing s.timers.timerTasks r s ([] : List (TimerNote D)) where
  sound := hs
  balanced := ⟨_, hp, rfl, by simp [ranTasks, queuedTasks]⟩
  due := by simp [ranTasks]
  later := by simp [queuedTasks]
  sorted := by simp [ranTasks]
  ahead := by simp [ranTasks]

variable [LawfulDuration D]

namespace DelayedTasks

/-- A post of the running task: its task is due later, and waits. -/
theorem passing_post {q : List DelayedTaskInfo} {r : Int} {s : DelayedTasks} {h : List (TimerNote D)}
    {p : Post D} {o : TimerOutcome}
    (hsound : Sound { s with timers := s.timers.post p o, clock := p.now₃ }) (hmay : s.mayPost = true)
    (hle : s.clock ≤ p.startMicros) (htimely : p.Timely) (hmicro : le (microseconds 1) p.delay = true)
    (hp : Passing q r s h) :
    Passing q r { s with timers := s.timers.post p o, clock := p.now₃ }
      (h ++ s.notes (.post p o)) := by
  obtain ⟨d, hpass, hbal⟩ := hp.balanced
  have hran : ranTasks (h ++ s.notes (.post p o)) = ranTasks h := by
    simp [notes, ranTasks]
  have hqueued : queuedTasks (h ++ s.notes (.post p o)) = queuedTasks h ++ [p.info] := by
    simp [notes, queuedTasks]
  obtain ⟨r', rfl⟩ : ∃ r', d = .running r' := by
    cases d with
    | running r' => exact ⟨r', rfl⟩
    | due r' => simp [mayPost, hpass] at hmay
    | scheduling => simp [mayPost, hpass] at hmay
  obtain ⟨rfl, ran, top, hr, htop, hperm⟩ := hbal
  have hlater : r' < p.dueTime := by
    have hclock := (hp.sound.pass _ hpass).2.1
    have hstart := start_lt_dueTime htimely.readings hmicro
    simp only [Post.dueTime]
    omega
  have htopdue : top.dueTimeMicros ≤ r' := hp.due top (by simp [hr])
  refine ⟨hsound, ⟨_, hpass, rfl, ran, top, hran.trans hr, ?_, ?_⟩, ?_, ?_, ?_, ?_⟩
  · rw [Timers.timerTasks_post]
    exact BinaryHeap.top?_push htop (not_gt_iff.mpr (by simp only [Post.info]; omega))
  · rw [Timers.timerTasks_post, hqueued, ← List.append_assoc]
    calc (ran ++ BinaryHeap.push DelayedTaskInfo.gt s.timers.timerTasks p.info).Perm
            (ran ++ p.info :: s.timers.timerTasks) := (BinaryHeap.push_perm _ _ _).append_left ran
      List.Perm _ (p.info :: (ran ++ s.timers.timerTasks)) := List.perm_middle
      List.Perm _ (p.info :: (q ++ queuedTasks h)) := hperm.cons p.info
      List.Perm _ (q ++ queuedTasks h ++ [p.info]) := (List.perm_append_singleton _ _).symm
  · rw [hran]
    exact hp.due
  · rw [hqueued]
    intro info hi
    rcases List.mem_append.mp hi with hi | hi
    · exact hp.later info hi
    · rw [List.mem_singleton.mp hi]
      exact hlater
  · rw [hran]
    exact hp.sorted
  · rw [hran, Timers.timerTasks_post]
    intro a ha b hb
    rcases List.mem_cons.mp ((BinaryHeap.push_perm _ _ _).mem_iff.mp hb) with rfl | hb
    · have hdue := hp.due a ha
      simp only [Post.info]
      omega
    · exact hp.ahead a ha b hb

/-- The steps of the loop of `RunDueTasks`. -/
theorem passing_passStep {q : List DelayedTaskInfo} {r : Int} {s s' : DelayedTasks} {h : List (TimerNote D)}
    {now : Int} {o : TimerOutcome} {p : DuePass} (hsound : s'.Sound) (hpass : s.pass = some p)
    (hnot : s.pass ≠ some .scheduling) (hbal : Balanced q r s h p) (hstep : passStep D s now o p = some s')
    (hp : Passing q r s h) : Passing q r s' (h ++ s.notes (.loop now o : Action D)) := by
  cases p with
  | due r' =>
    obtain ⟨rfl, hperm⟩ := hbal
    simp only [passStep] at hstep
    split at hstep
    · cases hstep
    · rename_i top htop
      have hfirst : ∀ info ∈ s.timers.timerTasks, top.dueTimeMicros ≤ info.dueTimeMicros := fun info hi =>
        not_gt_iff.mp (BinaryHeap.top?_before weakOrder_gt hp.sound.ordered htop hi)
      split at hstep
      · rename_i hgt
        cases hstep
        have hnotes : s.notes (.loop now o : Action D) = [] := by simp only [notes, hpass, htop, if_pos hgt]
        rw [hnotes, List.append_nil]
        refine ⟨hsound, ⟨_, rfl, hperm, fun info hi => ?_⟩, hp.due, hp.later, hp.sorted, hp.ahead⟩
        have hle := hfirst info hi
        omega
      · rename_i hle
        cases hstep
        have hnotes : s.notes (.loop now o : Action D) = [.ran top r'] := by
          simp only [notes, hpass, htop, if_neg hle]
        have hran : ranTasks (h ++ [.ran top r']) = ranTasks h ++ [top] := by simp [ranTasks]
        have hqueued : queuedTasks (h ++ [.ran top r']) = queuedTasks h := by simp [queuedTasks]
        have hmem := mem_of_top? htop
        rw [hnotes]
        refine ⟨hsound, ⟨_, rfl, rfl, ranTasks h, top, hran, ?_, ?_⟩, ?_, ?_, ?_, ?_⟩
        · rw [Timers.timerTasks_dcheck]
          exact htop
        · rw [Timers.timerTasks_dcheck, hqueued]
          exact hperm
        · rw [hran]
          intro info hi
          rcases List.mem_append.mp hi with hi | hi
          · exact hp.due info hi
          · rw [List.mem_singleton.mp hi]
            omega
        · rw [hqueued]
          exact hp.later
        · rw [hran, List.pairwise_append]
          refine ⟨hp.sorted, List.pairwise_singleton _ _, fun a ha b hb => ?_⟩
          rw [List.mem_singleton.mp hb]
          exact hp.ahead a ha top hmem
        · rw [hran, Timers.timerTasks_dcheck]
          intro a ha b hb
          rcases List.mem_append.mp ha with ha | ha
          · exact hp.ahead a ha b hb
          · rw [List.mem_singleton.mp ha]
            exact hfirst b hb
  | running r' =>
    obtain ⟨rfl, ran, top, hr, htop, hperm⟩ := hbal
    cases hstep
    have hnotes : s.notes (.loop now o : Action D) = [] := by simp only [notes, hpass]
    have hpop := BinaryHeap.cons_pop_perm DelayedTaskInfo.gt htop
    have hperm' : (ranTasks h ++ BinaryHeap.pop DelayedTaskInfo.gt s.timers.timerTasks).Perm
        (q ++ queuedTasks h) := by
      rw [hr, List.append_assoc, List.singleton_append]
      exact (hpop.append_left ran).trans hperm
    have hahead : ∀ a ∈ ranTasks h, ∀ b ∈ BinaryHeap.pop DelayedTaskInfo.gt s.timers.timerTasks,
        a.dueTimeMicros ≤ b.dueTimeMicros := fun a ha b hb =>
      hp.ahead a ha b (hpop.mem_iff.mp (List.mem_cons_of_mem _ hb))
    rw [hnotes, List.append_nil]
    refine ⟨hsound, ⟨_, rfl, ?_⟩, hp.due, hp.later, hp.sorted, hahead⟩
    split
    · rename_i hnil
      refine ⟨hperm', fun info hi => ?_⟩
      rw [List.isEmpty_iff.mp hnil] at hi
      exact absurd hi List.not_mem_nil
    · exact ⟨rfl, hperm'⟩
  | scheduling => exact absurd hpass hnot

theorem passing_step {q : List DelayedTaskInfo} {r : Int} {s s' : DelayedTasks} {h : List (TimerNote D)}
    {a : Action D} (hdur : DuringPass s a) (hstep : step s a = some s') (hp : Passing q r s h) :
    Passing q r s' (h ++ s.notes a) := by
  obtain ⟨hnot, hnotes⟩ := hdur
  obtain ⟨p, hpass, hbal⟩ := hp.balanced
  have hsound := sound_step hp.sound hstep
  -- a step that runs and queues nothing
  have hkeep : ranTasks (s.notes a) = [] → queuedTasks (s.notes a) = [] → s'.pass = s.pass →
      s'.timers.timerTasks = s.timers.timerTasks → Passing q r s' (h ++ s.notes a) := by
    intro hran hqueued hp' htasks
    have hran' : ranTasks (h ++ s.notes a) = ranTasks h := by simp [hran]
    have hqueued' : queuedTasks (h ++ s.notes a) = queuedTasks h := by simp [hqueued]
    refine ⟨hsound, ⟨p, hp'.trans hpass, ?_⟩, ?_, ?_, ?_, ?_⟩
    · cases p <;> simpa only [Balanced, hran', hqueued', htasks] using hbal
    · rw [hran']; exact hp.due
    · rw [hqueued']; exact hp.later
    · rw [hran']; exact hp.sorted
    · rw [hran', htasks]; exact hp.ahead
  cases a with
  | tick micros =>
    cases hstep
    exact hkeep rfl rfl rfl rfl
  | depart task delay startMicros =>
    simp only [step] at hstep
    split at hstep
    · cases hstep
      exact hkeep rfl rfl rfl rfl
    · cases hstep
  | post p o =>
    simp only [step] at hstep
    split at hstep
    · rename_i hguard
      obtain ⟨hmay, hle, htimely⟩ := hguard
      cases hstep
      exact passing_post hsound hmay hle htimely (hnotes (.queued true p) (by simp [notes])) hp
    · cases hstep
  | hop p o =>
    simp only [step] at hstep
    split at hstep
    · rename_i hguard
      rw [hguard.1] at hpass
      cases hpass
    · cases hstep
  | fire now =>
    simp only [step] at hstep
    split at hstep
    · rename_i hguard
      rw [hguard.1] at hpass
      cases hpass
    · cases hstep
  | loop now o =>
    obtain ⟨p', hpass', hstep⟩ := Option.bind_eq_some_iff.mp hstep
    rw [hpass, Option.some.injEq] at hpass'
    subst hpass'
    exact passing_passStep hsound hpass hnot hbal hstep hp
  | expire id =>
    simp only [step, Option.map_eq_some_iff] at hstep
    obtain ⟨timers, he, rfl⟩ := hstep
    exact absurd (hp.sound.pass p hpass).idle.outstanding (Timers.expire_frame he).2

end DelayedTasks

/-! ## What a pass has done -/

section Passing
variable {q : List DelayedTaskInfo} {r : Int} {s : DelayedTasks} {h : List (TimerNote D)}

theorem filter_dueAt_ran (hp : Passing q r s h) : (ranTasks h).filter (DelayedTaskInfo.dueAt r) = ranTasks h :=
  List.filter_eq_self.mpr fun info hi => decide_eq_true (hp.due info hi)

theorem filter_dueAt_queued (hp : Passing q r s h) : (queuedTasks h).filter (DelayedTaskInfo.dueAt r) = [] :=
  List.filter_eq_nil_iff.mpr fun info hi => by
    have hlater := hp.later info hi
    simp only [DelayedTaskInfo.dueAt, decide_eq_true_eq]
    omega

/-- What has been run is due, and what is still due is in the heap. -/
theorem Passing.ran_perm (hp : Passing q r s h) :
    ∃ rest, (ranTasks h ++ rest).Perm (q.filter (DelayedTaskInfo.dueAt r)) := by
  have hsplit : ∀ {xs : List DelayedTaskInfo}, (xs ++ s.timers.timerTasks).Perm (q ++ queuedTasks h) →
      (xs.filter (DelayedTaskInfo.dueAt r) ++ s.timers.timerTasks.filter (DelayedTaskInfo.dueAt r)).Perm
        (q.filter (DelayedTaskInfo.dueAt r)) := by
    intro xs hperm
    have hfilter := hperm.filter (DelayedTaskInfo.dueAt r)
    rwa [List.filter_append, List.filter_append, filter_dueAt_queued hp, List.append_nil] at hfilter
  obtain ⟨p, -, hbal⟩ := hp.balanced
  have hran := filter_dueAt_ran hp
  cases p with
  | due r' =>
    have hall := hsplit hbal.2
    rw [hran] at hall
    exact ⟨_, hall⟩
  | scheduling =>
    have hall := hsplit hbal.1
    rw [hran] at hall
    exact ⟨_, hall⟩
  | running r' =>
    -- the running task has been run and is still in the heap
    obtain ⟨rfl, ran, top, hr, htop, hperm⟩ := hbal
    have hdue : top.dueAt r' = true := decide_eq_true (hp.due top (by simp [hr]))
    obtain ⟨tasks, htasks⟩ : ∃ tasks, s.timers.timerTasks = top :: tasks := List.head?_eq_some_iff.mp htop
    have hran' : ran.filter (DelayedTaskInfo.dueAt r') = ran := by
      have hself := hran
      rw [hr, List.filter_append] at hself
      exact List.filter_eq_self.mpr fun info hi => decide_eq_true (hp.due info (by simp [hr, hi]))
    refine ⟨tasks.filter (DelayedTaskInfo.dueAt r'), ?_⟩
    have hall := hsplit hperm
    rw [hran', htasks, List.filter_cons_of_pos hdue] at hall
    rwa [hr, List.append_assoc, List.singleton_append]

/-- When the loop has ended, the due tasks have been run, and the others and the new ones wait. -/
theorem Passing.ended (hp : Passing q r s h) (hpass : s.pass = some .scheduling) :
    (ranTasks h).Perm (q.filter (DelayedTaskInfo.dueAt r)) ∧
      s.timers.timerTasks.Perm (q.filter (fun info => !info.dueAt r) ++ queuedTasks h) := by
  obtain ⟨p, hpass', hbal⟩ := hp.balanced
  rw [hpass, Option.some.injEq] at hpass'
  subst hpass'
  obtain ⟨hperm, hlater⟩ := hbal
  have hnone : s.timers.timerTasks.filter (DelayedTaskInfo.dueAt r) = [] :=
    List.filter_eq_nil_iff.mpr fun info hi => by
      have := hlater info hi
      simp only [DelayedTaskInfo.dueAt, decide_eq_true_eq]
      omega
  have hdue := hperm.filter (DelayedTaskInfo.dueAt r)
  have hwait := hperm.filter (fun info => !info.dueAt r)
  rw [List.filter_append, List.filter_append, filter_dueAt_ran hp, filter_dueAt_queued hp, hnone, List.append_nil,
    List.append_nil] at hdue
  have hran : (ranTasks h).filter (fun info => !info.dueAt r) = [] :=
    List.filter_eq_nil_iff.mpr fun info hi => by simp [DelayedTaskInfo.dueAt, hp.due info hi]
  have htasks : s.timers.timerTasks.filter (fun info => !info.dueAt r) = s.timers.timerTasks :=
    List.filter_eq_self.mpr fun info hi => by simpa [DelayedTaskInfo.dueAt] using hlater info hi
  have hqueued : (queuedTasks h).filter (fun info => !info.dueAt r) = queuedTasks h :=
    List.filter_eq_self.mpr fun info hi => by simpa [DelayedTaskInfo.dueAt] using hp.later info hi
  rw [List.filter_append, List.filter_append, hran, htasks, hqueued, List.nil_append] at hwait
  exact ⟨hdue, hwait⟩

/-- `pop` takes out the task that has just been run. -/
theorem Passing.pop_ran (hp : Passing q r s h) {r' : Int} (hpass : s.pass = some (.running r')) :
    ∃ top, (ranTasks h).getLast? = some top ∧
      (top :: BinaryHeap.pop DelayedTaskInfo.gt s.timers.timerTasks).Perm s.timers.timerTasks := by
  obtain ⟨p, hpass', hbal⟩ := hp.balanced
  rw [hpass, Option.some.injEq] at hpass'
  subst hpass'
  obtain ⟨-, ran, top, hr, htop, -⟩ := hbal
  exact ⟨top, by rw [hr, List.getLast?_concat], BinaryHeap.cons_pop_perm DelayedTaskInfo.gt htop⟩

end Passing

/-! ## The loop -/

/-- `RunDueTasks` is at the head of its loop, with the clock reading `r`; no pass is being made below,
    the heap is in order and no timer is set. -/
structure EntersPass (s : State D) (r : Int) : Prop where
  tracked : Tracked s
  sound : s.delayedTasks.Sound
  clock : s.clock ≤ int64Max
  pass : s.delayedTasks.pass = some (.due r)

/-- The loop of `RunDueTasks` is being run: its tasks post with delays of a microsecond or more and do
    not re-enter the loop. -/
def RunsDueTasks (s : State D) (a : Action D) : Prop :=
  TimersFit s a ∧ s.delayedTasks.pass ≠ some .scheduling ∧ ∀ note ∈ s.timerNotes a, note.FromMicrosecond

instance (s : State D) (a : Action D) : Decidable (RunsDueTasks s a) :=
  inferInstanceAs (Decidable (_ ∧ _ ∧ _))

/-- What a state in a run of the loop's steps needs. -/
structure InLoop (s : State D) : Prop where
  tracked : Tracked s
  sound : s.delayedTasks.Sound
  clock : s.clock ≤ int64Max

theorem inLoop_step {s s' : State D} {a : Action D} (ha : TimersFit s a) (hstep : step s a = some s')
    (hs : InLoop s) : InLoop s' := by
  obtain ⟨hre, hclock, -⟩ := ha
  refine ⟨tracked_step hre hstep hs.tracked, ?_, hclock _ hstep⟩
  have hdelayed := delayed_step hs.tracked.control hs.tracked.onePass hs.tracked.hops (hclock _ hstep) hstep
  unfold DelayedStep at hdelayed
  split at hdelayed
  · exact DelayedTasks.sound_step hs.sound hdelayed
  · rw [hdelayed]
    exact hs.sound

theorem inLoop_of_reaches {s : State D} (h : ReachesIf TimersFit s) : InLoop s :=
  h.invariant (fun _ _ _ ha hstep hs => inLoop_step ha hstep hs)
    ⟨tracked_init, DelayedTasks.sound_init, by simp [State.init, int64Max]⟩

/-- A loop that is reached is one. -/
theorem entersPass_of_reaches {s : State D} {r : Int} {fs : List (Frame D)} (h : ReachesIf TimersFit s)
    (hs : s.stack = .due r :: fs) : EntersPass s r :=
  have hloop := inLoop_of_reaches h
  ⟨hloop.tracked, hloop.sound, hloop.clock, by simp only [delayedTasks, hs]; rfl⟩

/-- A step of the loop itself neither posts nor moves the clock. -/
theorem runsDueTasks_loop {s : State D} {r : Int} {fs : List (Frame D)} (hs : InLoop s)
    (htop : s.stack = .due r :: fs ∨ s.stack = .runningDue r :: fs)
    (hclock : ∀ s', step s (.loop {}) = some s' → s'.clock = s.clock) : RunsDueTasks s (.loop {}) := by
  have hre : NoDueReentry s (.loop {}) := fun hi => by cases hi
  have hfits : ClockFits s (.loop {}) := fun s' hs' => (hclock s' hs').symm ▸ hs.clock
  have hnotes : ∀ note ∈ s.timerNotes (.loop {}), note.Fits ∧ note.FromMicrosecond := by
    intro note hn
    rcases htop with htop | htop
    · simp only [timerNotes, timerAct, htop, Option.elim_some, DelayedTasks.notes, delayedTasks,
        List.findSome?_cons, Frame.pass] at hn
      split at hn
      · split at hn
        · exact absurd hn List.not_mem_nil
        · rw [List.mem_singleton.mp hn]
          exact ⟨trivial, trivial⟩
      · exact absurd hn List.not_mem_nil
    · simp only [timerNotes, timerAct, htop, Option.elim_some, DelayedTasks.notes, delayedTasks,
        List.findSome?_cons, Frame.pass] at hn
      exact absurd hn List.not_mem_nil
  refine ⟨⟨hre, hfits, fun note hn => (hnotes note hn).1⟩, ?_, fun note hn => (hnotes note hn).2⟩
  rcases htop with htop | htop
  · simp only [delayedTasks, htop, List.findSome?_cons, Frame.pass]
    simp
  · simp only [delayedTasks, htop, List.findSome?_cons, Frame.pass]
    simp

omit [LawfulDuration D] in
theorem step_loop [AbslDuration D] {s : State D} {o : Outcome} {f : Frame D} {fs : List (Frame D)}
    (hout : s.threads loopThread = .outside) (hs : s.stack = f :: fs) :
    step s (.loop o) = s.frameStep o fs f := by
  simp only [step, hout, ThreadPc.isOutside, if_true, loopStep, hs]

/-- At its head the loop ends, or runs the top. -/
theorem loop_due {s : State D} {r : Int} {fs : List (Frame D)} (hs : InLoop s)
    (hout : s.threads loopThread = .outside) (htop : s.stack = .due r :: fs) :
    ∃ s', step s (.loop {}) = some s' ∧ s'.clock = s.clock ∧ s'.threads = s.threads ∧
      (s'.stack = .scheduling :: fs ∨
        s'.stack = .runningDue r :: fs ∧ s'.timers.timerTasks = s.timers.timerTasks) := by
  obtain ⟨-, -, hne⟩ := hs.sound.pass (.due r) (by simp only [delayedTasks, htop]; rfl)
  obtain ⟨top, tasks, htasks⟩ : ∃ top tasks, s.timers.timerTasks = top :: tasks := List.exists_cons_of_ne_nil hne
  have hhead : BinaryHeap.top? s.timers.timerTasks = some top := by rw [htasks]; rfl
  rw [step_loop hout htop]
  by_cases hdue : top.dueTimeMicros > r
  · exact ⟨{ s with stack := .scheduling :: fs }, by simp only [frameStep, hhead, if_pos hdue], rfl, rfl, .inl rfl⟩
  · exact ⟨{ s with
        timers := s.timers.dcheck .runTaskNonEmpty top.task.isSome
        startedDue := s.startedDue ++ [top]
        stack := .runningDue r :: fs },
      by simp only [frameStep, hhead, if_neg hdue], rfl, rfl, .inr ⟨rfl, Timers.timerTasks_dcheck⟩⟩

/-- After a task the loop pops it, and goes on while the heap is not empty. -/
theorem loop_pop {s : State D} {r : Int} {fs : List (Frame D)} (hs : InLoop s)
    (hout : s.threads loopThread = .outside) (htop : s.stack = .runningDue r :: fs) :
    ∃ s', step s (.loop {}) = some s' ∧ s'.clock = s.clock ∧ s'.threads = s.threads ∧
      s'.timers.timerTasks.length < s.timers.timerTasks.length ∧
      (s'.stack = .scheduling :: fs ∨ s'.stack = .due r :: fs) := by
  obtain ⟨-, -, top, hhead, -⟩ := hs.sound.pass (.running r) (by simp only [delayedTasks, htop]; rfl)
  have hpop := (BinaryHeap.cons_pop_perm DelayedTaskInfo.gt hhead).length_eq
  rw [List.length_cons] at hpop
  simp only [delayedTasks] at hpop
  rw [step_loop hout htop]
  refine ⟨_, rfl, rfl, rfl, by simp only; omega, ?_⟩
  simp only
  split
  · exact .inl rfl
  · exact .inr rfl

/-- Some run of the loop's steps leads from here to its end. -/
def Ends (fs : List (Frame D)) (p : State D × List (TimerNote D)) : Prop :=
  ∃ q, Reaches (timed D) (fun p a => RunsDueTasks p.1 a) p q ∧ q.1.stack = .scheduling :: fs

theorem Ends.head {r : Int} {fs : List (Frame D)} {s s' : State D} {h : List (TimerNote D)}
    (hs : InLoop s) (htop : s.stack = .due r :: fs ∨ s.stack = .runningDue r :: fs)
    (hstep : step s (.loop {}) = some s') (hclock : s'.clock = s.clock)
    (hend : InLoop s' → Ends fs (s', h ++ s.timerNotes (.loop {}))) : Ends fs (s, h) := by
  have hok : RunsDueTasks s (.loop {}) := runsDueTasks_loop hs htop fun t ht => by
    rw [hstep, Option.some.injEq] at ht
    rw [← ht, hclock]
  obtain ⟨q, hrun, hq⟩ := hend (inLoop_step hok.1 hstep hs)
  exact ⟨q, hrun.head hok (observe_eq_some.mpr ⟨hstep, rfl⟩), hq⟩

/-- The loop ends if its tasks return: each iteration takes a task from the heap. -/
theorem ends_of_running {r : Int} {fs : List (Frame D)} (n : Nat) :
    ∀ (s : State D) (h : List (TimerNote D)), s.timers.timerTasks.length ≤ n → InLoop s →
      s.threads loopThread = .outside → s.stack = .runningDue r :: fs → Ends fs (s, h) := by
  induction n with
  | zero =>
    intro s h hlen hs hout htop
    obtain ⟨s', -, -, -, hlt, -⟩ := loop_pop hs hout htop
    omega
  | succ n ih =>
    intro s h hlen hs hout htop
    obtain ⟨s₁, hstep, hclock, hthreads, hlt, hcases⟩ := loop_pop hs hout htop
    refine .head hs (.inr htop) hstep hclock fun hs₁ => ?_
    have hout₁ : s₁.threads loopThread = .outside := by rw [hthreads, hout]
    rcases hcases with hend | hdue
    · exact ⟨_, .refl, hend⟩
    · obtain ⟨s₂, hstep₂, hclock₂, hthreads₂, hcases₂⟩ := loop_due hs₁ hout₁ hdue
      refine .head hs₁ (.inl hdue) hstep₂ hclock₂ fun hs₂ => ?_
      rcases hcases₂ with hend | ⟨hrun, htasks⟩
      · exact ⟨_, .refl, hend⟩
      · exact ih s₂ _ (by rw [htasks]; omega) hs₂ (by rw [hthreads₂, hout₁]) hrun

theorem loop_ends {s : State D} {h : List (TimerNote D)} {r : Int} {fs : List (Frame D)} (hs : InLoop s)
    (hout : s.threads loopThread = .outside)
    (htop : s.stack = .due r :: fs ∨ s.stack = .runningDue r :: fs) : Ends fs (s, h) := by
  rcases htop with hdue | hrun
  · obtain ⟨s', hstep, hclock, hthreads, hcases⟩ := loop_due hs hout hdue
    refine .head hs (.inl hdue) hstep hclock fun hs' => ?_
    rcases hcases with hend | ⟨hrun, -⟩
    · exact ⟨_, .refl, hend⟩
    · exact ends_of_running _ s' _ (Nat.le_refl _) hs' (by rw [hthreads, hout]) hrun
  · exact ends_of_running _ s h (Nat.le_refl _) hs hout hrun

/-- **`RunDueTasks` runs the due tasks**, from any state at the head of its loop and whatever its tasks
    do: at any point it has run tasks that were due when it began, each once, in the order of their due
    times; `pop` takes out the task just run; when it ends it has run all of them, and the heap holds
    the others and the tasks posted meanwhile. It does end, if its tasks return. -/
theorem run_due_tasks {s₀ s : State D} {r : Int} {h : List (TimerNote D)} (hentry : EntersPass s₀ r)
    (hrun : Reaches (timed D) (fun p a => RunsDueTasks p.1 a) (s₀, []) (s, h)) :
    (∃ rest, (ranTasks h ++ rest).Perm (s₀.timers.timerTasks.filter (DelayedTaskInfo.dueAt r))) ∧
    (ranTasks h).Pairwise (fun a b => a.dueTimeMicros ≤ b.dueTimeMicros) ∧
    (∀ fs r' o s', s.stack = .runningDue r' :: fs → step s (.loop o) = some s' →
      ∃ top, (ranTasks h).getLast? = some top ∧ (top :: s'.timers.timerTasks).Perm s.timers.timerTasks) ∧
    (∀ fs, s.stack = .scheduling :: fs →
      (ranTasks h).Perm (s₀.timers.timerTasks.filter (DelayedTaskInfo.dueAt r)) ∧
      s.timers.timerTasks.Perm
        (s₀.timers.timerTasks.filter (fun info => !info.dueAt r) ++ queuedTasks h)) ∧
    (∀ fs r', s.threads loopThread = .outside → s.stack = .due r' :: fs ∨ s.stack = .runningDue r' :: fs →
      Ends fs (s, h)) := by
  have hdelayed := delayed_run (P := fun p b => DuringPass p.1 b) hentry.tracked (fun _ _ ha => ha.1)
    (fun p a b _ ha hb => by
      have hnotes := ha.2.2
      rw [timerNotes, hb] at hnotes
      exact ⟨ha.2.1, hnotes⟩) hrun
  have hinit : Passing s₀.timers.timerTasks r s₀.delayedTasks ([] : List (TimerNote D)) :=
    passing_init hentry.sound hentry.pass
  have hpassing : Passing s₀.timers.timerTasks r s.delayedTasks h :=
    hdelayed.invariant (P := fun p => Passing s₀.timers.timerTasks r p.1 p.2)
      (fun p b q hb hstepₕ hp => by
        obtain ⟨hstep, hnotes⟩ := observe_eq_some.mp hstepₕ
        rw [hnotes]
        exact DelayedTasks.passing_step hb.2 hstep hp)
      hinit
  have hloop : InLoop s :=
    hrun.invariant (P := fun p => InLoop p.1)
      (fun _ _ _ ha hstep hs => inLoop_step ha.1 (observe_eq_some.mp hstep).1 hs)
      ⟨hentry.tracked, hentry.sound, hentry.clock⟩
  refine ⟨hpassing.ran_perm, hpassing.sorted, fun fs r' o s' hs hstep => ?_, fun fs hs => ?_,
    fun fs r' hout hs => loop_ends hloop hout hs⟩
  · have hpass : s.delayedTasks.pass = some (.running r') := by simp only [delayedTasks, hs]; rfl
    obtain ⟨top, hlast, hpop⟩ := hpassing.pop_ran hpass
    have hout : s.threads loopThread = .outside := by
      by_contra hne
      simp [step, ThreadPc.isOutside_iff, hne] at hstep
    rw [step_loop hout hs] at hstep
    cases hstep
    exact ⟨top, hlast, hpop⟩
  · exact hpassing.ended (by simp only [delayedTasks, hs]; rfl)

/-- Two of three delayed tasks are due, the first of them was posted last. -/
def dueRun : List (Action Ticks) :=
  [.begin, .call 0 (.postDelayedTask (.finite 8000000)), .resume 0 {}, .resume 0 {},
    .call 0 (.postDelayedTask oneMs), .resume 0 {}, .resume 0 {},
    .call 0 (.postDelayedTask (.finite 40000000)), .resume 0 {}, .resume 0 {}, .runEventLoopOnce .posInf,
    .tick 2000, .expire 2, .loop { wait := .timer }, .loop {}]

theorem dueRun_isSome : (runWhile step TimersFit (State.init : State Ticks) dueRun).isSome = true := by decide

/-- While the first of them runs it posts another. -/
def postingPassRun : List (Action Ticks) :=
  [.loop {}, .call 0 (.postDelayedTask oneMs), .resume 0 {}, .resume 0 { gap₁ := 3 }, .loop {}, .loop {}, .loop {},
    .loop {}]

theorem run_due_tasks_posting :
    ∃ (s₀ s : State Ticks) (h : List (TimerNote Ticks)), EntersPass s₀ 2000 ∧
      Reaches (timed Ticks) (fun p a => RunsDueTasks p.1 a) (s₀, []) (s, h) ∧
      ranTasks h = [⟨1000, some 1⟩, ⟨2000, some 0⟩] ∧ queuedTasks h = [⟨3003, some 3⟩] ∧
      s₀.timers.timerTasks.filter (fun info => !info.dueAt 2000) = [⟨10000, some 2⟩] ∧
      s.timers.timerTasks.Perm
        (s₀.timers.timerTasks.filter (fun info => !info.dueAt 2000) ++ queuedTasks h) := by
  have hentry : EntersPass (Option.get _ dueRun_isSome) 2000 :=
    entersPass_of_reaches (reaches_get dueRun_isSome) rfl
  have hrun : (runWhile (timed Ticks) (fun p a => RunsDueTasks p.1 a) (Option.get _ dueRun_isSome, [])
      postingPassRun).isSome = true := by decide
  have hreach := reaches_get hrun
  exact ⟨_, _, _, hentry, hreach, rfl, rfl, rfl, ((run_due_tasks hentry hreach).2.2.2.1 _ rfl).2⟩

end IoBase
