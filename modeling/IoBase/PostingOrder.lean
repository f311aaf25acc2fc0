import IoBase.FreshClosures

/- The order in which delayed tasks with the same delay run.

   A later post with the same delay never gets an earlier due time, so the heap keeps
   two such tasks in order unless they get the same one: `operator>` does not tell
   them apart, and `pop` may then bring up either.

   * `posting_order`: if no post gets the due time of an earlier one with the same
     delay that is still waiting, the posts of the loop thread with the same delay
     run in order.
   * `posting_order_lost`: four tasks posted with the same delay in one microsecond;
     the third is run before the second. -/
namespace IoBase
open AbslDuration LawfulDuration Transition State

variable {D : Type}

/-- The posts from the loop thread, in order. -/
def directPosts (h : List (TimerNote D)) : List (Post D) :=
  h.filterMap fun
    | .queued true p => some p
    | _ => none

@[simp] theorem directPosts_append (h notes : List (TimerNote D)) :
    directPosts (h ++ notes) = directPosts h ++ directPosts notes := List.filterMap_append

section Apart
variable [AbslDuration D]

/-- The post gets another due time than the earlier ones with its delay that have not run. -/
def Apart (h : List (TimerNote D)) (p : Post D) : Prop :=
  ∀ q ∈ directPosts h, q.delay = p.delay → q.dueTime = p.dueTime → q.info ∈ ranTasks h

instance [DecidableEq D] (h : List (TimerNote D)) (p : Post D) : Decidable (Apart h p) :=
  inferInstanceAs (Decidable (∀ q ∈ directPosts h, q.delay = p.delay → q.dueTime = p.dueTime →
    q.info ∈ ranTasks h))

theorem mem_queuedTasks_of_directPosts {h : List (TimerNote D)} {p : Post D} (hp : p ∈ directPosts h) :
    p.info ∈ queuedTasks h := by
  obtain ⟨note, hn, he⟩ := List.mem_filterMap.mp hp
  refine List.mem_filterMap.mpr ⟨note, hn, ?_⟩
  split at he
  · cases he
    rfl
  · cases he

/-- The tasks that the loop thread has posted wait in the heap or have been run, and of two with the
    same delay the earlier one has been run or is due first. -/
structure Orderly (s : DelayedTasks) (h : List (TimerNote D)) : Prop where
  sound : s.Sound
  posts : ∀ p ∈ directPosts h, p.Timely ∧ p.now₂ ≤ s.clock
  waiting : ∀ p ∈ directPosts h, p.info ∈ s.timers.timerTasks ∨ p.info ∈ ranTasks h
  running : ∀ r, s.pass = some (.running r) →
    ∃ top, BinaryHeap.top? s.timers.timerTasks = some top ∧ top ∈ ranTasks h
  tasks : ∀ info ∈ s.timers.timerTasks, info ∈ queuedTasks h
  ran : ∀ info ∈ ranTasks h, info ∈ queuedTasks h
  distinct : ((directPosts h).map Post.task).Nodup
  first : ∀ p q, [p, q].Sublist (directPosts h) → p.delay = q.delay →
    p.info ∈ ranTasks h ∨ p.dueTime < q.dueTime
  order : ∀ p q xs ys, [p, q].Sublist (directPosts h) → p.delay = q.delay →
    ranTasks h = xs ++ q.info :: ys → p.info ∈ xs

theorem orderly_init : Orderly DelayedTasks.init ([] : List (TimerNote D)) where
  sound := DelayedTasks.sound_init
  posts := by simp [directPosts]
  waiting := by simp [directPosts]
  running := by simp [DelayedTasks.init]
  tasks := by simp [DelayedTasks.init, Timers.init]
  ran := by simp [ranTasks]
  distinct := by simp [directPosts]
  first := by simp [directPosts]
  order := by simp [directPosts]

/-- A step that queues and runs nothing of the loop thread's. -/
theorem Orderly.keep {s s' : DelayedTasks} {h notes : List (TimerNote D)} (ho : Orderly s h)
    (hsound : s'.Sound) (hposts : directPosts notes = []) (hran : ranTasks notes = [])
    (hclock : s.clock ≤ s'.clock)
    (htasks : ∀ info ∈ s'.timers.timerTasks, info ∈ s.timers.timerTasks ∨ info ∈ queuedTasks notes)
    (hwait : ∀ info ∈ s.timers.timerTasks, info ∈ s'.timers.timerTasks ∨ info ∈ ranTasks h)
    (hrunning : ∀ r, s'.pass = some (.running r) →
      ∃ top, BinaryHeap.top? s'.timers.timerTasks = some top ∧ top ∈ ranTasks h) :
    Orderly s' (h ++ notes) := by
  have hposts' : directPosts (h ++ notes) = directPosts h := by simp [hposts]
  have hran' : ranTasks (h ++ notes) = ranTasks h := by simp [hran]
  have hqueued : ∀ {info}, info ∈ queuedTasks h → info ∈ queuedTasks (h ++ notes) := fun hi => by
    simp [hi]
  refine ⟨hsound, ?_, ?_, ?_, ?_, ?_, ?_, ?_, ?_⟩
  · rw [hposts']
    exact fun p hp => ⟨(ho.posts p hp).1, Int.le_trans (ho.posts p hp).2 hclock⟩
  · rw [hposts', hran']
    exact fun p hp => (ho.waiting p hp).elim (hwait _) .inr
  · rw [hran']
    exact hrunning
  · intro info hi
    rcases htasks info hi with hi | hi
    · exact hqueued (ho.tasks info hi)
    · simp [hi]
  · rw [hran']
    exact fun info hi => hqueued (ho.ran info hi)
  · rw [hposts']
    exact ho.distinct
  · rw [hposts', hran']
    exact ho.first
  · rw [hposts', hran']
    exact ho.order

end Apart

theorem sublist_concat {α : Type} {l : List α} {a b c : α} (h : [a, b].Sublist (l ++ [c])) :
    [a, b].Sublist l ∨ b = c ∧ a ∈ l := by
  obtain ⟨l₁, l₂, hl, h₁, h₂⟩ := List.sublist_append_iff.mp h
  rcases List.eq_nil_or_concat' l₂ with rfl | ⟨l₂, d, rfl⟩
  · rw [List.append_nil] at hl
    exact .inl (hl ▸ h₁)
  · -- the second element is the last one, and the first is before it
    have hlen := h₂.length_le
    obtain rfl : l₂ = [] := by simpa using hlen
    have hd : d = c := by simpa using h₂
    rw [List.nil_append, show [a, b] = [a] ++ [b] from rfl] at hl
    obtain ⟨rfl, hbd⟩ := List.append_inj' hl rfl
    exact .inr ⟨(List.singleton_inj.mp hbd).trans hd, List.singleton_sublist.mp h₁⟩

variable [LawfulDuration D] {s s' : DelayedTasks} {h : List (TimerNote D)}

namespace DelayedTasks

/-- A post of the loop thread comes after the earlier ones with its delay. -/
theorem orderly_post {p : Post D} {o : TimerOutcome} (hapart : Apart h p) (hnew : NewClosure h p)
    (hstep : step s (.post p o) = some s') (ho : Orderly s h) : Orderly s' (h ++ s.notes (.post p o)) := by
  have hsound := sound_step ho.sound hstep
  simp only [step] at hstep
  split at hstep
  · rename_i hguard
    obtain ⟨hmay, hle, htimely⟩ := hguard
    cases hstep
    have hposts : directPosts (h ++ s.notes (.post p o)) = directPosts h ++ [p] := by
      simp [notes, directPosts]
    have hran : ranTasks (h ++ s.notes (.post p o)) = ranTasks h := by simp [notes, ranTasks]
    have hqueued : queuedTasks (h ++ s.notes (.post p o)) = queuedTasks h ++ [p.info] := by
      simp [notes, queuedTasks]
    have hpush : ∀ info, info ∈ (s.timers.post p o).timerTasks ↔ info = p.info ∨ info ∈ s.timers.timerTasks := by
      intro info
      rw [Timers.timerTasks_post, (BinaryHeap.push_perm _ _ _).mem_iff, List.mem_cons]
    obtain ⟨-, ⟨-, h₁, h₂, -⟩, h₃⟩ := id htimely
    -- the new task has not been run
    have hnotran : p.info ∉ ranTasks h := fun hi => hnew p.info (ho.ran _ hi) rfl
    have hlater : ∀ q ∈ directPosts h, q.delay = p.delay → q.info ∈ ranTasks h ∨ q.dueTime < p.dueTime := by
      intro q hq hdelay
      by_cases hdue : q.dueTime = p.dueTime
      · exact .inl (hapart q hq hdelay hdue)
      · obtain ⟨hqtimely, hqclock⟩ := ho.posts q hq
        have hpos : lt zeroDuration p.delay = true := by simpa [le] using htimely.positive
        have hmono : IoBase.dueTime p.delay q.startMicros q.now₁ q.now₂ ≤ p.dueTime :=
          dueTime_le_dueTime hqtimely.readings htimely.readings (by omega) hpos
        rw [← hdelay] at hmono
        exact .inr (lt_of_le_of_ne hmono hdue)
    refine ⟨hsound, ?_, ?_, fun r hr => ?_, fun info hi => ?_, ?_, ?_, ?_, ?_⟩
    · rw [hposts]
      intro q hq
      rcases List.mem_append.mp hq with hq | hq
      · exact ⟨(ho.posts q hq).1, by have := (ho.posts q hq).2; simp only; omega⟩
      · rw [List.mem_singleton.mp hq]
        exact ⟨htimely, h₃⟩
    · rw [hposts, hran]
      intro q hq
      rcases List.mem_append.mp hq with hq | hq
      · exact (ho.waiting q hq).imp_left fun hi => (hpush _).mpr (.inr hi)
      · rw [List.mem_singleton.mp hq]
        exact .inl ((hpush _).mpr (.inl rfl))
    · obtain ⟨top, htop, htopran⟩ := ho.running r hr
      obtain ⟨top', htop', -, hdue⟩ := running_post (ho.sound.pass _ hr) hle htimely
      rw [htop, Option.some.injEq] at htop'
      subst htop'
      refine ⟨top, ?_, hran ▸ htopran⟩
      rw [Timers.timerTasks_post]
      exact BinaryHeap.top?_push htop (not_gt_iff.mpr hdue)
    · rw [hqueued]
      rcases (hpush info).mp hi with rfl | hi
      · simp
      · exact List.mem_append_left _ (ho.tasks info hi)
    · rw [hran, hqueued]
      exact fun info hi => List.mem_append_left _ (ho.ran info hi)
    · rw [hposts, List.map_append, List.nodup_append]
      refine ⟨ho.distinct, by simp, fun n hn m hm he => ?_⟩
      obtain ⟨q, hq, rfl⟩ := List.mem_map.mp hn
      obtain rfl : m = p.task := by simpa using hm
      exact hnew q.info (mem_queuedTasks_of_directPosts hq) (by rw [← he]; rfl)
    · rw [hposts, hran]
      intro q q' hsub hdelay
      rcases sublist_concat hsub with hold | ⟨rfl, hq⟩
      · exact ho.first q q' hold hdelay
      · exact hlater q hq hdelay
    · rw [hposts, hran]
      intro q q' xs ys hsub hdelay hsplit
      rcases sublist_concat hsub with hold | ⟨rfl, hq⟩
      · exact ho.order q q' xs ys hold hdelay hsplit
      · exact absurd (by rw [hsplit]; simp) hnotran
  · cases hstep

/-- The loop runs the top: what was posted before it with its delay has been run. -/
theorem orderly_run {top : DelayedTaskInfo} {r : Int} (hsound : s'.Sound) (ho : Orderly s h)
    (htop : BinaryHeap.top? s.timers.timerTasks = some top) (htasks : s'.timers.timerTasks = s.timers.timerTasks)
    (hclock : s'.clock = s.clock) : Orderly s' (h ++ [.ran top r]) := by
  have hposts : directPosts (h ++ [.ran top r]) = directPosts h := by simp [directPosts]
  have hqueued : queuedTasks (h ++ [.ran top r]) = queuedTasks h := by simp [queuedTasks]
  have hran : ranTasks (h ++ [.ran top r]) = ranTasks h ++ [top] := by simp [ranTasks]
  refine ⟨hsound, ?_, ?_, fun _ _ => ⟨top, htasks ▸ htop, by simp [hran]⟩, ?_, ?_, ?_, ?_, ?_⟩
  · rw [hposts, hclock]
    exact ho.posts
  · rw [hposts, htasks, hran]
    exact fun p hp => (ho.waiting p hp).imp_right (List.mem_append_left _)
  · rw [htasks, hqueued]
    exact ho.tasks
  · rw [hran, hqueued]
    intro info hi
    rcases List.mem_append.mp hi with hi | hi
    · exact ho.ran info hi
    · rw [List.mem_singleton.mp hi]
      exact ho.tasks top (mem_of_top? htop)
  · rw [hposts]
    exact ho.distinct
  · rw [hposts, hran]
    exact fun p q hsub hdelay => (ho.first p q hsub hdelay).imp_left (List.mem_append_left _)
  · rw [hposts, hran]
    intro p q xs ys hsub hdelay hsplit
    rcases List.eq_nil_or_concat' ys with rfl | ⟨ys, last, rfl⟩
    · -- the new one: an earlier post is not due later, so it does not wait
      obtain ⟨rfl, hq⟩ := List.append_inj' hsplit rfl
      obtain rfl : top = q.info := List.singleton_inj.mp hq
      rcases ho.first p q hsub hdelay with hp | hlt
      · exact hp
      · have hmem : p ∈ directPosts h := hsub.subset List.mem_cons_self
        rcases ho.waiting p hmem with hwait | hp
        · have hle := not_gt_iff.mp (BinaryHeap.top?_before weakOrder_gt ho.sound.ordered htop hwait)
          simp only [Post.info] at hle
          omega
        · exact hp
    · have hsplit' : ranTasks h ++ [top] = (xs ++ q.info :: ys) ++ [last] := by simpa using hsplit
      exact ho.order p q xs ys hsub hdelay (List.append_inj' hsplit' rfl).1

omit [LawfulDuration D] in
theorem eq_post_of_directPosts [AbslDuration D] {a : Action D} {q : Post D} (hq : q ∈ directPosts (s.notes a)) :
    ∃ o, a = .post q o := by
  cases a with
  | post p o =>
    obtain rfl : q = p := by simpa [notes, directPosts] using hq
    exact ⟨o, rfl⟩
  | loop now o =>
    simp only [notes] at hq
    split at hq
    · split at hq <;> simp [directPosts] at hq
    · simp [directPosts] at hq
  | _ => simp [notes, directPosts] at hq

/-- What a post of the loop thread must meet. -/
def OrderlyPost (p : DelayedTasks × List (TimerNote D)) (a : Action D) : Prop :=
  ∀ q ∈ directPosts (p.1.notes a), Apart p.2 q ∧ NewClosure p.2 q

theorem orderly_passStep {now : Int} {o : TimerOutcome} {p : DuePass} (hsound : s'.Sound)
    (hpass : s.pass = some p) (hstep : passStep D s now o p = some s') (ho : Orderly s h) :
    Orderly s' (h ++ s.notes (.loop now o : Action D)) := by
  cases p with
  | due r =>
    simp only [passStep] at hstep
    split at hstep
    · cases hstep
    · rename_i top htop
      split at hstep
      · rename_i hgt
        cases hstep
        have hnotes : s.notes (.loop now o : Action D) = [] := by simp only [notes, hpass, htop, if_pos hgt]
        rw [hnotes]
        exact ho.keep hsound rfl rfl (Int.le_refl _) (fun _ hi => .inl hi) (fun _ hi => .inl hi)
          fun r hr => by cases hr
      · rename_i hle
        cases hstep
        have hnotes : s.notes (.loop now o : Action D) = [.ran top r] := by
          simp only [notes, hpass, htop, if_neg hle]
        rw [hnotes]
        exact orderly_run hsound ho htop Timers.timerTasks_dcheck rfl
  | running r =>
    obtain ⟨top, htop, htopran⟩ := ho.running r hpass
    have hpop := BinaryHeap.cons_pop_perm DelayedTaskInfo.gt htop
    cases hstep
    have hnotes : s.notes (.loop now o : Action D) = [] := by simp only [notes, hpass]
    rw [hnotes]
    refine ho.keep hsound rfl rfl (Int.le_refl _) (fun info hi => .inl ?_) (fun info hi => ?_) fun r hr => ?_
    · exact hpop.mem_iff.mp (List.mem_cons_of_mem _ hi)
    · rcases List.mem_cons.mp (hpop.mem_iff.mpr hi) with rfl | hi
      · exact .inr htopran
      · exact .inl hi
    · simp only [Option.some.injEq] at hr
      split at hr <;> cases hr
  | scheduling =>
    simp only [passStep] at hstep
    split at hstep
    · rename_i hle
      cases hstep
      have hnotes : s.notes (.loop now o : Action D) = [] := by simp only [notes, hpass]
      rw [hnotes]
      have htasks : (Timers.scheduleNextTimer D s.timers now o).timerTasks = s.timers.timerTasks :=
        Timers.timerTasks_scheduleNextTimer
      exact ho.keep hsound rfl rfl hle (fun _ hi => .inl (htasks ▸ hi)) (fun _ hi => .inl (htasks.symm ▸ hi))
        fun r hr => by cases hr
    · cases hstep

theorem orderly_step {a : Action D} (ha : OrderlyPost (s, h) a) (hstep : step s a = some s')
    (ho : Orderly s h) : Orderly s' (h ++ s.notes a) := by
  have hsound := sound_step ho.sound hstep
  have hstep₀ := hstep
  cases a with
  | tick micros =>
    cases hstep
    exact ho.keep hsound rfl rfl (by simp only; omega) (fun _ hi => .inl hi) (fun _ hi => .inl hi) ho.running
  | depart task delay startMicros =>
    simp only [step] at hstep
    split at hstep
    · rename_i hle
      cases hstep
      exact ho.keep hsound rfl rfl hle (fun _ hi => .inl hi) (fun _ hi => .inl hi) ho.running
    · cases hstep
  | post p o =>
    obtain ⟨hapart, hnew⟩ := ha p (by simp [notes, directPosts])
    exact orderly_post hapart hnew hstep₀ ho
  | hop p o =>
    simp only [step] at hstep
    split at hstep
    · rename_i hguard
      obtain ⟨hnone, hle, htimely⟩ := hguard
      cases hstep
      have h₂ := htimely.readings.now_le
      have h₃ := htimely.now_le
      have hpush : ∀ info, info ∈ (s.timers.post p o).timerTasks ↔ info = p.info ∨ info ∈ s.timers.timerTasks := by
        intro info
        rw [Timers.timerTasks_post, (BinaryHeap.push_perm _ _ _).mem_iff, List.mem_cons]
      refine ho.keep hsound rfl rfl (by simp only; omega) (fun info hi => ?_)
        (fun info hi => .inl ((hpush info).mpr (.inr hi))) fun r hr => ?_
      · rcases (hpush info).mp hi with rfl | hi
        · exact .inr (by simp [notes, queuedTasks])
        · exact .inl hi
      · simp [hnone] at hr
    · cases hstep
  | fire now =>
    simp only [step] at hstep
    split at hstep
    · rename_i hguard
      cases hstep
      refine ho.keep hsound rfl rfl hguard.2.2.1 (fun info hi => .inl ?_) (fun info hi => .inl ?_)
        fun r hr => by cases hr
      · rwa [Timers.timerTasks_dcheck, Timers.timerTasks_cancel] at hi
      · rwa [Timers.timerTasks_dcheck, Timers.timerTasks_cancel]
    · cases hstep
  | loop now o =>
    obtain ⟨p, hpass, hstep⟩ := Option.bind_eq_some_iff.mp hstep
    exact orderly_passStep hsound hpass hstep ho
  | expire id =>
    simp only [step, Option.map_eq_some_iff] at hstep
    obtain ⟨timers, he, rfl⟩ := hstep
    have htasks := (Timers.expire_frame he).1
    refine ho.keep hsound rfl rfl (Int.le_refl _) (fun _ hi => .inl (htasks ▸ hi))
      (fun _ hi => .inl (htasks.symm ▸ hi)) fun r hr => ?_
    rw [htasks]
    exact ho.running r hr

end DelayedTasks

/-- No delayed task re-enters the loop, and no post of the loop thread gets the due time of an earlier
    one with the same delay that is still waiting. -/
def PostsApart (p : State D × List (TimerNote D)) (a : Action D) : Prop :=
  TimersFit p.1 a ∧ ∀ q ∈ directPosts (p.1.timerNotes a), Apart p.2 q

instance [DecidableEq D] (p : State D × List (TimerNote D)) (a : Action D) : Decidable (PostsApart p a) :=
  inferInstanceAs (Decidable (_ ∧ _))

/-- **Equal delays run in posting order** as long as no post of the loop thread gets the due time of an
    earlier one with the same delay that is still waiting: if the later one of two such posts has been
    run, the earlier one was run before it. The tasks of the posts are all different. -/
theorem posting_order {s : State D} {h : List (TimerNote D)}
    (hrun : Reaches (timed D) PostsApart (State.init, []) (s, h)) :
    ((directPosts h).map Post.task).Nodup ∧
    ∀ p q, [p, q].Sublist (directPosts h) → p.delay = q.delay →
      ∀ xs ys, ranTasks h = xs ++ q.info :: ys → p.info ∈ xs := by
  have hdelayed := delayed_run (P := DelayedTasks.OrderlyPost) tracked_init (fun _ _ ha => ha.1)
    (fun p a b hreach ha hb q hq => by
      have hnotes : p.1.timerNotes a = p.1.delayedTasks.notes b := by rw [timerNotes, hb]; rfl
      refine ⟨ha.2 q (hnotes ▸ hq), fun info hi he => ?_⟩
      obtain ⟨o, rfl⟩ := DelayedTasks.eq_post_of_directPosts hq
      obtain ⟨i, oc, -, hpc⟩ := timerAct_post hb
      exact ((freshClosures_of_run hreach).threads i q.task (by rw [hpc]; rfl)).2.2.2 info hi he) hrun
  have horderly : Orderly s.delayedTasks h := by
    refine hdelayed.invariant (P := fun p => Orderly p.1 p.2) ?_ orderly_init
    rintro ⟨s, h⟩ a ⟨s', h'⟩ ha hstepₕ ho
    obtain ⟨hstep, hnotes⟩ := observe_eq_some.mp hstepₕ
    simp only at hstep hnotes
    subst hnotes
    exact DelayedTasks.orderly_step ha.2 hstep ho
  exact ⟨horderly.distinct, fun p q hsub hdelay xs ys hsplit => horderly.order p q xs ys hsub hdelay hsplit⟩

/-- The loop thread posts four tasks with the same delay, the clock moving by `gap` before each, and a
    millisecond after the last runs the ones that are due. -/
def fourPostsRun (gap : Nat) : List (Action Ticks) :=
  let post : List (Action Ticks) :=
    [.call 0 (.postDelayedTask oneMs), .resume 0 {}, .resume 0 { gap₁ := gap }]
  [.begin] ++ post ++ post ++ post ++ post ++
    [.runEventLoopOnce .posInf, .tick 1000, .expire 1, .loop { wait := .timer }, .loop {}, .loop {}, .loop {},
      .loop {}, .loop {}, .loop {}]

theorem posting_order_apart :
    ∃ p : State Ticks × List (TimerNote Ticks), Reaches (timed Ticks) PostsApart (State.init, []) p ∧
      (directPosts p.2).map Post.task = [0, 1, 2, 3] ∧ (ranTasks p.2).map (·.task) = [some 0, some 1, some 2] ∧
      ((directPosts p.2).map Post.task).Nodup := by
  have hrun : (runWhile (timed Ticks) PostsApart (State.init, []) (fourPostsRun 1)).isSome = true := by decide
  have hreach := reaches_get hrun
  exact ⟨_, hreach, rfl, rfl, (posting_order hreach).1⟩

/-- Posted in the same microsecond, the third task is run before the second. -/
theorem posting_order_lost :
    ¬∀ (s : State Ticks) (h : List (TimerNote Ticks)),
      Reaches (timed Ticks) (fun p a => TimersFit p.1 a) (State.init, []) (s, h) →
      ∀ p q, [p, q].Sublist (directPosts h) → p.delay = q.delay →
        ∀ xs ys, ranTasks h = xs ++ q.info :: ys → p.info ∈ xs := by
  intro hclaim
  have hrun : (runWhile (timed Ticks) (fun p a => TimersFit p.1 a) (State.init, [])
      (fourPostsRun 0)).isSome = true := by decide
  have hsub : [⟨1, oneMs, 0, 0, 0, 0⟩, ⟨2, oneMs, 0, 0, 0, 0⟩].Sublist (directPosts (Option.get _ hrun).2) :=
    .cons _ (.cons_cons _ (.cons_cons _ (.cons _ .slnil)))
  have hmem := hclaim _ _ (reaches_get hrun) _ _ hsub rfl [⟨1000, some 0⟩] [⟨1000, some 1⟩] rfl
  revert hmem
  decide

end IoBase
