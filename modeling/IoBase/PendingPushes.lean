import IoBase.PendingLock

/- Pushes that overlap, and pushes that do not.

   If no push starts between the two halves of another thread's push (`NoOverlap`),
   every push sees what it writes back to, and no task is lost or doubled
   (`returned_tasks_exactly_once`). Two pushes overlap only when one of them is the
   loop thread's own, which is the one made without the lock; in
   `self_post_loses_task` they do, and a task is lost. -/
namespace IoBase.PendingLock
open Transition

/-- Thread `i`'s push would start between the halves of another push: of the lock's holder for the
    loop thread, of the loop thread for the lock's holder. -/
def State.overlaps (s : State) (i : Tid) : Bool :=
  if State.isCurrent i then s.owner.any fun j => (s.threads j).isHalfway
  else (s.threads loopThread).isHalfway

/-- The action does not start a push between the two halves of another thread's push. -/
def NoOverlap (s : State) : Action → Prop
  | .resume i => (s.threads i).isReady = true → s.overlaps i = false
  | _ => True

instance (s : State) : (a : Action) → Decidable (NoOverlap s a)
  | .resume _ => inferInstanceAs (Decidable (_ → _))
  | .begin | .postTask _ | .runPendingTasks | .loop => .isTrue trivial

/-! ## What a push writes back to -/

/-- A thread between its halves has read the contents that are still there, and the loop thread is
    not between its halves while another thread is. -/
structure SnapshotInv (s : State) : Prop where
  contents : ∀ i t contents, s.threads i = .halfway t contents → contents = s.pending
  alone : (s.threads loopThread).isHalfway = true → ∀ i, (s.threads i).isHalfway = true → i = loopThread

theorem Pc.holds_of_isHalfway {pc : Pc} (h : pc.isHalfway = true) : pc.holds = true := by
  cases pc <;> simp_all [Pc.isHalfway, Pc.holds]

/-- At most one thread is between the halves of its push. -/
theorem SnapshotInv.eq_of_isHalfway {s : State} (hm : MutexInv s) (h : SnapshotInv s) {i j : Tid}
    (hi : (s.threads i).isHalfway = true) (hj : (s.threads j).isHalfway = true) : i = j := by
  by_cases hil : i = loopThread
  · exact hil.trans (h.alone (hil ▸ hi) j hj).symm
  · by_cases hjl : j = loopThread
    · exact absurd (h.alone (hjl ▸ hj) i hi) hil
    · exact hm.eq_of_holds hil hjl (Pc.holds_of_isHalfway hi) (Pc.holds_of_isHalfway hj)

/-- A step that leaves `pending_` alone and puts no thread between its halves. -/
theorem SnapshotInv.move {s s' : State} (h : SnapshotInv s) (hpending : s'.pending = s.pending)
    (hthreads : ∀ j, (s'.threads j).isHalfway = true → s'.threads j = s.threads j) : SnapshotInv s' where
  contents := by
    intro j t contents hj
    rw [hpending]
    refine h.contents j t contents ?_
    rw [← hthreads j (by simp [hj, Pc.isHalfway]), hj]
  alone := by
    intro hloop j hj
    rw [hthreads _ hloop] at hloop
    rw [hthreads j hj] at hj
    exact h.alone hloop j hj

/-- A step that changes `pending_` when no thread is between its halves any more. -/
theorem SnapshotInv.of_none {s : State} (h : ∀ j, (s.threads j).isHalfway = false) : SnapshotInv s where
  contents := fun j t contents hj => by
    have hnot := h j
    simp [hj, Pc.isHalfway] at hnot
  alone := fun hloop => by
    rw [h loopThread] at hloop
    cases hloop

theorem setThread_isHalfway {s : State} {i : Tid} {pc : Pc} (hpc : pc.isHalfway = false) (j : Tid)
    (hj : ((s.setThread i pc).threads j).isHalfway = true) :
    (s.setThread i pc).threads j = s.threads j := by
  by_cases hji : j = i
  · subst hji
    simp [State.setThread, hpc] at hj
  · exact Function.update_of_ne hji _ _

theorem snapshotInv_step {s s' : State} {a : Action} (hstep : Stepped s a s') (hok : NoOverlap s a)
    (hm : MutexInv s) (h : SnapshotInv s) : SnapshotInv s' := by
  cases hstep with
  | begin | runPendingTasks | loopLock | loopUnlock | batchDone | start | finish =>
    exact h.move rfl fun _ _ => rfl
  | postTask | isCurrent | lock | unlock | wakeUp => exact h.move rfl (setThread_isHalfway rfl)
  | check _ hpc => exact h.move rfl (setThread_isHalfway (by rcases hpc with rfl | rfl <;> rfl))
  | @read i t hpc =>
    -- the condition is what keeps two pushes apart
    have hnone : ∀ j, (s.threads j).isHalfway = true → i = loopThread ∨ j = loopThread → False := by
      intro j hj hloop
      have hover := hok (by simp [hpc, Pc.isReady])
      by_cases hi : i = loopThread
      · have hjl : j ≠ loopThread := by
          intro he
          subst he
          rw [← hi, hpc] at hj
          cases hj
        have howner := hm.poster j hjl (Pc.holds_of_isHalfway hj)
        simp [State.overlaps, State.isCurrent, hi, howner, hj] at hover
      · rcases hloop with hloop | rfl
        · exact hi hloop
        · simp [State.overlaps, State.isCurrent, hi, hj] at hover
    have hother : ∀ j, j ≠ i → (s.setThread i (.halfway t s.pending)).threads j = s.threads j :=
      fun j hj => Function.update_of_ne hj _ _
    constructor
    · intro j u contents hj
      by_cases hji : j = i
      · subst hji
        simp only [State.setThread, Function.update_self, Pc.halfway.injEq] at hj
        exact hj.2.symm
      · rw [hother j hji] at hj
        exact h.contents j u contents hj
    · intro hloop j hj
      by_cases hji : j = i <;> by_cases hli : loopThread = i
      · exact hji.trans hli.symm
      · rw [hother _ hli] at hloop
        exact (hnone _ hloop (.inr rfl)).elim
      · rw [hother j hji] at hj
        exact (hnone j hj (.inl hli.symm)).elim
      · rw [hother _ hli] at hloop
        exact (hnone _ hloop (.inr rfl)).elim
  | @write i t contents hpc =>
    refine .of_none fun j => ?_
    by_contra hj
    rw [Bool.not_eq_false] at hj
    have hne : j ≠ i := by
      intro he
      subst he
      simp [State.setThread, Pc.isHalfway] at hj
    have hj' : (s.threads j).isHalfway = true := by
      simpa [State.setThread, Function.update_of_ne hne] using hj
    exact hne (h.eq_of_isHalfway hm hj' (by simp [hpc, Pc.isHalfway]))
  | swap hout hs =>
    refine .of_none fun j => ?_
    by_contra hj
    rw [Bool.not_eq_false] at hj
    have hne : j ≠ loopThread := by
      intro he
      subst he
      simp [hout, Pc.isHalfway] at hj
    have howner := hm.swapper .locked (by simp [hs]) rfl
    rw [hm.poster j hne (Pc.holds_of_isHalfway hj)] at howner
    exact hne (Option.some.inj howner)

/-! ## Where the tasks are -/

/-- The task the thread has not written back yet, and the one it has. -/
def Pc.unpushed : Pc → Option Nat
  | .entered t => some t
  | .checked t => some t
  | .ready t => some t
  | .halfway t _ => some t
  | _ => none

def Pc.pushed : Pc → Option Nat
  | .written t => some t
  | .unlocked t => some t
  | _ => none

/-- Every pushed task is at one place, every task is pushed once, and a returned task is pushed. -/
structure PlacesInv (s : State) : Prop where
  places : (s.pending ++ s.unstarted ++ s.started).Perm s.pushed
  nodup : s.pushed.Nodup
  fresh : ∀ t ∈ s.pushed, t < s.nextTask
  unpushed : ∀ i t, (s.threads i).unpushed = some t → t < s.nextTask ∧ t ∉ s.pushed
  distinct : ∀ i j t, (s.threads i).unpushed = some t → (s.threads j).unpushed = some t → i = j
  written : ∀ i t, (s.threads i).pushed = some t → t ∈ s.pushed
  returned : ∀ t ∈ s.returned, t ∈ s.pushed

theorem placesInv_init : PlacesInv State.init where
  places := by simp [State.init, State.unstarted]
  nodup := by simp [State.init]
  fresh := by simp [State.init]
  unpushed := by simp [State.init, Pc.unpushed]
  distinct := by simp [State.init, Pc.unpushed]
  written := by simp [State.init, Pc.pushed]
  returned := by simp [State.init]

/-- A thread moves between two positions that have the same task unpushed, and pushes none. -/
theorem PlacesInv.move {s s' : State} (h : PlacesInv s) {i : Tid} {pc : Pc}
    (hplaces : (s'.pending ++ s'.unstarted ++ s'.started).Perm s'.pushed)
    (hpushed : s'.pushed = s.pushed) (hnext : s'.nextTask = s.nextTask)
    (hthreads : s'.threads = Function.update s.threads i pc)
    (hun : ∀ t, pc.unpushed = some t → (s.threads i).unpushed = some t)
    (hw : ∀ t, pc.pushed = some t → t ∈ s.pushed)
    (hret : ∀ t ∈ s'.returned, t ∈ s.pushed) : PlacesInv s' := by
  have hun' : ∀ j t, (s'.threads j).unpushed = some t → (s.threads j).unpushed = some t := by
    intro j t hj
    rw [hthreads] at hj
    by_cases hji : j = i
    · subst hji
      exact hun t (by simpa using hj)
    · rwa [Function.update_of_ne hji] at hj
  refine ⟨hplaces, hpushed ▸ h.nodup, ?_, ?_, ?_, ?_, ?_⟩
  · rw [hpushed, hnext]; exact h.fresh
  · intro j t hj
    rw [hpushed, hnext]
    exact h.unpushed j t (hun' j t hj)
  · exact fun j k t hj hk => h.distinct j k t (hun' j t hj) (hun' k t hk)
  · intro j t hj
    rw [hpushed]
    rw [hthreads] at hj
    by_cases hji : j = i
    · subst hji
      exact hw t (by simpa using hj)
    · rw [Function.update_of_ne hji] at hj
      exact h.written j t hj
  · rw [hpushed]; exact hret

/-- A step of the loop thread moves tasks from one place to the next. -/
theorem PlacesInv.loop {s s' : State} (h : PlacesInv s)
    (hplaces : (s'.pending ++ s'.unstarted ++ s'.started).Perm
      (s.pending ++ s.unstarted ++ s.started))
    (hpushed : s'.pushed = s.pushed) (hnext : s'.nextTask = s.nextTask)
    (hthreads : s'.threads = s.threads) (hret : s'.returned = s.returned) : PlacesInv s' := by
  have hself : s'.threads = Function.update s.threads loopThread (s.threads loopThread) := by
    simp [hthreads]
  refine h.move ?_ hpushed hnext hself (fun _ => id) (h.written _) (hret ▸ h.returned)
  rw [hpushed]
  exact hplaces.trans h.places

/-- A post makes a task that no thread and no place has. -/
theorem placesInv_postTask {s : State} {i : Tid} (h : PlacesInv s) :
    PlacesInv ({ s with nextTask := s.nextTask + 1 }.setThread i (.entered s.nextTask)) where
  places := h.places
  nodup := h.nodup
  fresh := fun t ht => (h.fresh t ht).trans (Nat.lt_succ_self _)
  unpushed := by
    intro j t hj
    by_cases hji : j = i
    · subst hji
      simp only [State.setThread, Function.update_self, Pc.unpushed, Option.some.injEq] at hj
      subst hj
      exact ⟨Nat.lt_succ_self _, fun hmem => Nat.lt_irrefl _ (h.fresh _ hmem)⟩
    · simp only [State.setThread, Function.update_of_ne hji] at hj
      have hold := h.unpushed j t hj
      exact ⟨hold.1.trans (Nat.lt_succ_self _), hold.2⟩
  distinct := by
    -- the new task is not one a thread had
    have hnew : ∀ j, (s.threads j).unpushed ≠ some s.nextTask := fun j hj =>
      Nat.lt_irrefl _ (h.unpushed j _ hj).1
    intro j k t hj hk
    by_cases hji : j = i <;> by_cases hki : k = i
    · exact hji.trans hki.symm
    · subst hji
      simp only [State.setThread, Function.update_self, Pc.unpushed, Option.some.injEq] at hj
      simp only [State.setThread, Function.update_of_ne hki] at hk
      exact absurd (hj ▸ hk) (hnew k)
    · subst hki
      simp only [State.setThread, Function.update_self, Pc.unpushed, Option.some.injEq] at hk
      simp only [State.setThread, Function.update_of_ne hji] at hj
      exact absurd (hk ▸ hj) (hnew j)
    · simp only [State.setThread, Function.update_of_ne hji] at hj
      simp only [State.setThread, Function.update_of_ne hki] at hk
      exact h.distinct j k t hj hk
  written := by
    intro j t hj
    by_cases hji : j = i
    · subst hji
      simp [State.setThread, Pc.pushed] at hj
    · simp only [State.setThread, Function.update_of_ne hji] at hj
      exact h.written j t hj
  returned := h.returned

/-- The write half puts its task behind the current contents. -/
theorem placesInv_write {s : State} {i : Tid} {t : Nat} (h : PlacesInv s)
    (hpc : s.threads i = .halfway t s.pending) :
    PlacesInv
      ({ s with pending := s.pending ++ [t], pushed := s.pushed ++ [t] }.setThread i (.written t)) := by
  have hmine := h.unpushed i t (by simp [hpc, Pc.unpushed])
  have hmem : ∀ {u : Nat}, u ∈ s.pushed → u ∈ s.pushed ++ [t] := List.mem_append_left _
  constructor
  · have hplaces : (s.pending ++ [t] ++ s.unstarted ++ s.started).Perm (s.pushed ++ [t]) := by
      have hold := h.places.append_right [t]
      have hmove : (t :: (s.unstarted ++ s.started)).Perm (s.unstarted ++ s.started ++ [t]) :=
        (List.perm_append_singleton t _).symm
      simp only [List.append_assoc, List.singleton_append] at hold hmove ⊢
      exact (hmove.append_left s.pending).trans hold
    exact hplaces
  · exact List.Nodup.append h.nodup (by simp) (by simpa using hmine.2)
  · intro u hu
    rcases List.mem_append.mp hu with hu | hu
    · exact h.fresh u hu
    · rw [List.mem_singleton.mp hu]
      exact hmine.1
  · intro j u hj
    by_cases hji : j = i
    · subst hji
      simp [State.setThread, Pc.unpushed] at hj
    · simp only [State.setThread, Function.update_of_ne hji] at hj
      have hold := h.unpushed j u hj
      refine ⟨hold.1, fun hu => ?_⟩
      rcases List.mem_append.mp hu with hu | hu
      · exact hold.2 hu
      · rw [List.mem_singleton.mp hu] at hj
        exact hji (h.distinct j i t hj (by simp [hpc, Pc.unpushed]))
  · intro j k u hj hk
    by_cases hji : j = i
    · subst hji
      simp [State.setThread, Pc.unpushed] at hj
    · by_cases hki : k = i
      · subst hki
        simp [State.setThread, Pc.unpushed] at hk
      · simp only [State.setThread, Function.update_of_ne hji] at hj
        simp only [State.setThread, Function.update_of_ne hki] at hk
        exact h.distinct j k u hj hk
  · intro j u hj
    by_cases hji : j = i
    · subst hji
      simp only [State.setThread, Function.update_self, Pc.pushed, Option.some.injEq] at hj
      subst hj
      simp [State.setThread]
    · simp only [State.setThread, Function.update_of_ne hji] at hj
      exact hmem (h.written j u hj)
  · exact fun u hu => hmem (h.returned u hu)

theorem placesInv_step {s s' : State} {a : Action} (hstep : Stepped s a s') (hsnap : SnapshotInv s)
    (h : PlacesInv s) : PlacesInv s' := by
  cases hstep with
  | begin => exact h.loop .rfl rfl rfl rfl rfl
  | postTask hm => exact placesInv_postTask h
  | check hpc hpc' =>
    refine h.move h.places rfl rfl rfl ?_ ?_ h.returned
    · rcases hpc' with rfl | rfl <;> simp [hpc, Pc.unpushed]
    · rcases hpc' with rfl | rfl <;> simp [Pc.pushed]
  | isCurrent hpc | lock hpc | read hpc =>
    exact h.move h.places rfl rfl rfl (by simp [hpc, Pc.unpushed]) (by simp [Pc.pushed]) h.returned
  | @write i t contents hpc =>
    obtain rfl := hsnap.contents i t contents hpc
    exact placesInv_write h hpc
  | @unlock i t owner hpc =>
    refine h.move h.places rfl rfl rfl (by simp [Pc.unpushed]) (fun u hu => ?_) h.returned
    exact h.written i u (by simpa [hpc, Pc.pushed] using hu)
  | @wakeUp i t hpc =>
    refine h.move h.places rfl rfl rfl (by simp [Pc.unpushed]) (by simp [Pc.pushed]) fun u hu => ?_
    rcases List.mem_append.mp hu with hu | hu
    · exact h.returned u hu
    · rw [List.mem_singleton.mp hu]
      exact h.written i t (by simp [hpc, Pc.pushed])
  | runPendingTasks => exact h.loop .rfl rfl rfl rfl rfl
  | loopLock hout hs | loopUnlock hout hs | batchDone hout hs | finish hout hs =>
    refine h.loop ?_ rfl rfl rfl rfl
    simp [State.unstarted, hs, Frame.rest]
  | swap hout hs =>
    refine h.loop ?_ rfl rfl rfl rfl
    simp [State.unstarted, hs, Frame.rest]
  | @start t rest fs hout hs =>
    refine h.loop ?_ rfl rfl rfl rfl
    simp only [State.unstarted, hs, Frame.rest, List.flatMap_cons, List.append_assoc]
    refine List.Perm.append_left _ ?_
    have hmove : (rest ++ fs.flatMap Frame.rest ++ s.started ++ [t]).Perm
        (t :: (rest ++ fs.flatMap Frame.rest ++ s.started)) := List.perm_append_singleton t _
    simpa using hmove

/-! ## The whole run -/

theorem inv_of_reaches {s : State} (h : ReachesIf NoOverlap s) :
    MutexInv s ∧ SnapshotInv s ∧ PlacesInv s := by
  refine h.invariant (P := fun s => MutexInv s ∧ SnapshotInv s ∧ PlacesInv s) ?_
    ⟨mutexInv_init, .of_none fun _ => rfl, placesInv_init⟩
  intro s a s' hok hstep hx
  obtain ⟨hm, hsnap, hp⟩ := hx
  have hs := step_cases hstep
  exact ⟨mutexInv_step hs hm, snapshotInv_step hs hok hm hsnap, placesInv_step hs hsnap hp⟩

/-- **No task is lost or doubled** in a run whose pushes do not overlap: a task whose `PostTaskImpl`
    returned is in `pending_`, in a batch or started, and once. -/
theorem returned_tasks_exactly_once {s : State} (h : ReachesIf NoOverlap s) :
    ∀ t ∈ s.returned, (s.pending ++ s.unstarted ++ s.started).count t = 1 := by
  obtain ⟨-, -, hp⟩ := inv_of_reaches h
  intro t ht
  rw [hp.places.count_eq]
  exact List.count_eq_one_of_mem hp.nodup (hp.returned t ht)

/-- Thread 1 posts a task that the loop thread runs, and posts another one while that runs. -/
def apartRun : List Action :=
  let post (i : Tid) : List Action := .postTask i :: List.replicate 6 (.resume i)
  .begin :: post 1 ++ [.runPendingTasks, .loop, .loop, .loop, .loop] ++ post 0 ++ post 1

theorem returned_tasks_exactly_once_apart :
    ∃ s : State, ReachesIf NoOverlap s ∧ s.returned = [0, 1, 2] ∧
      ∀ t ∈ s.returned, (s.pending ++ s.unstarted ++ s.started).count t = 1 := by
  have hrun : (runWhile step NoOverlap State.init apartRun).isSome = true := by decide
  have hreach := reaches_get hrun
  exact ⟨_, hreach, rfl, returned_tasks_exactly_once hreach⟩

/-- While the loop thread runs task 0, it posts task 1 and thread 1 posts task 2; both read
    `pending_` before either writes it back. -/
def overlapRun : List Action :=
  [.begin, .postTask 1, .resume 1, .resume 1, .resume 1, .resume 1, .resume 1, .resume 1,
    .runPendingTasks, .loop, .loop, .loop, .loop,
    .postTask 0, .resume 0, .resume 0, .postTask 1, .resume 1, .resume 1,
    .resume 1, .resume 0, .resume 1, .resume 0, .resume 1, .resume 1, .resume 0, .resume 0]

/-- **A task is lost** when the loop thread's push overlaps another thread's. -/
theorem self_post_loses_task :
    ¬∀ s : State, ReachesIf Always s →
      ∀ t ∈ s.returned, (s.pending ++ s.unstarted ++ s.started).count t = 1 := by
  intro hclaim
  have hrun : (runWhile step Always State.init overlapRun).isSome = true := by decide
  have hcount : (0 : Nat) = 1 := hclaim _ (reaches_get hrun) 2 (List.elem_iff.mp rfl)
  cases hcount

end IoBase.PendingLock
