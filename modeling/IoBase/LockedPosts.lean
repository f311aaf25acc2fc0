import IoBase.PendingPushes

/- The lock makes pushes and swaps atomic.

   `EventLoop.lean` takes a push to `pending_` and a swap of it for one step each.
   `PendingLock.lean` has the lock and the halves of a push. As long as no push starts
   between the two halves of another, each run of the code with its lock is a run of the
   loop with atomic pushes: a push happens where it is written back, and taking and leaving
   the lock are not seen. So what is shown of all runs of the loop holds of these.

   Correspondence (`PendingLock.lean` ↔ `EventLoop.lean`):
     `Pc.checked`, `Pc.ready`, `Pc.halfway`   ↔ `ThreadPc.postChecked`
     `Pc.written`, `Pc.unlocked`              ↔ `ThreadPc.postPushed`
     `Frame.locking`, `Frame.locked`          ↔ `Frame.woken`, `Frame.draining`
     `Frame.swapped`, `Frame.batch`           ↔ `Frame.batch`

   * `locked_run`: the run of the loop that a run with the lock is, state by state. -/
namespace IoBase.PendingLock
open Transition

variable {D : Type}

/-- Where a thread is, as the loop sees it. -/
def Pc.loopPc : Pc → ThreadPc D
  | .outside => .outside
  | .entered t => .postEntered (.user t)
  | .checked t | .ready t | .halfway t _ => .postChecked (.user t)
  | .written t | .unlocked t => .postPushed (.user t)

/-- The frame, as the loop sees it. -/
def Frame.loopFrame : Frame → IoBase.Frame D
  | .locking => .woken
  | .locked => .draining
  | .swapped rest | .batch rest => .batch (rest.map .user)
  | .running t rest => .running (.user t) (rest.map .user)

/-- The loop has done with atomic pushes what has been done with the lock. -/
structure Follows (s : State) (b : IoBase.State D) : Prop where
  running : b.running = s.running
  threadId : b.threadId = if s.running then some loopThread else none
  pending : b.pending = s.pending.map .user
  threads : ∀ i, b.threads i = (s.threads i).loopPc
  stack : b.stack = s.stack.map Frame.loopFrame
  next : b.nextClosure = s.nextTask
  pushed : b.pushed = s.pushed.map .user
  started : b.started = s.started.map .user

theorem follows_init : Follows State.init (IoBase.State.init : IoBase.State D) where
  running := rfl
  threadId := rfl
  pending := rfl
  threads := fun _ => rfl
  stack := rfl
  next := rfl
  pushed := rfl
  started := rfl

namespace Follows
variable {s s' : State} {b b' : IoBase.State D}

theorem mayCall (h : Follows s b) (i : Tid) : b.mayCall i = s.mayCall i := by
  have houtside : (b.threads i).isOutside = (s.threads i == .outside) := by
    rw [h.threads]
    cases s.threads i <;> rfl
  have huser : b.inUserCode = s.inUserCode := by
    rw [IoBase.State.inUserCode, State.inUserCode, h.stack]
    cases s.stack with
    | nil => rfl
    | cons f fs => cases f <;> rfl
  rw [IoBase.State.mayCall, State.mayCall, houtside, huser]
  rfl

/-- Thread `i` moves. -/
theorem threads_update (h : Follows s b) (i : Tid) (pc : Pc) (j : Tid) :
    Function.update b.threads i pc.loopPc j = (Function.update s.threads i pc j).loopPc := by
  by_cases hij : j = i
  · rw [hij, Function.update_self, Function.update_self]
  · rw [Function.update_of_ne hij, Function.update_of_ne hij]
    exact h.threads j

/-- A thread moves in a way that the loop does not see. -/
theorem unseen (h : Follows s b) {i : Tid} {p : Pc} (hpc : (p.loopPc : ThreadPc D) = (s.threads i).loopPc)
    (howner : s' = { s.setThread i p with owner := s'.owner, returned := s'.returned }) : Follows s' b := by
  have hthreads : ∀ j, b.threads j = (s'.threads j).loopPc := by
    intro j
    rw [howner]
    have hsame := h.threads_update i p j
    rw [hpc, ← h.threads i, Function.update_eq_self] at hsame
    exact hsame
  rw [howner] at hthreads ⊢
  exact ⟨h.running, h.threadId, h.pending, hthreads, h.stack, h.next, h.pushed, h.started⟩

end Follows

/-! ## Steps -/

variable [AbslDuration D] {s s' : State} {b : IoBase.State D}

/-- One step of the loop. -/
theorem follows_once {b' : IoBase.State D} {a : IoBase.Action D} (hstep : IoBase.step b a = some b')
    (h : Follows s' b') : ∃ b', Reaches IoBase.step Always b b' ∧ Follows s' b' :=
  ⟨b', Reaches.refl.tail trivial hstep, h⟩

/-- A step of `PostTaskImpl`. -/
theorem follows_resume {i : Tid} (hsnap : SnapshotInv s) (h : Follows s b) (hstep : s.resume i = some s') :
    ∃ b', Reaches IoBase.step Always b b' ∧ Follows s' b' := by
  have hloop := h.threads i
  cases hpc : s.threads i with
  | outside =>
    simp only [State.resume, hpc] at hstep
    cases hstep
  | entered t =>
    simp only [State.resume, hpc] at hstep
    cases hstep
    rw [hpc] at hloop
    have hquitting : b.isQuitting = s.isQuitting := by
      rw [IoBase.State.isQuitting, State.isQuitting, h.running]
    have hnext : IoBase.step b (.resume i {}) =
        some (b.setThread i (if s.isQuitting then Pc.outside else Pc.checked t).loopPc) := by
      simp only [IoBase.step, IoBase.State.resume, hloop, Pc.loopPc, hquitting]
      cases s.isQuitting <;> rfl
    exact follows_once hnext ⟨h.running, h.threadId, h.pending, h.threads_update i _, h.stack, h.next, h.pushed, h.started⟩
  | checked t =>
    refine ⟨b, .refl, ?_⟩
    simp only [State.resume, hpc] at hstep
    split at hstep
    · cases hstep
      exact h.unseen (by rw [hpc]; rfl) rfl
    · split at hstep <;> cases hstep
      exact h.unseen (p := .ready t) (by rw [hpc]; rfl) rfl
  | ready t =>
    simp only [State.resume, hpc] at hstep
    cases hstep
    exact ⟨b, .refl, h.unseen (by rw [hpc]; rfl) rfl⟩
  | halfway t contents =>
    simp only [State.resume, hpc] at hstep
    cases hstep
    rw [hpc] at hloop
    -- what was read is still there, so this is the push
    rw [hsnap.contents i t contents hpc]
    have hnext : IoBase.step b (.resume i {}) = some { b with
        pending := b.pending ++ [.user t]
        pushed := b.pushed ++ [.user t]
        threads := Function.update b.threads i (Pc.written t).loopPc } := by
      simp only [IoBase.step, IoBase.State.resume, hloop, Pc.loopPc]
    refine follows_once hnext ⟨h.running, h.threadId, ?_, h.threads_update i _, h.stack, h.next, ?_, h.started⟩
    · simp only [h.pending, State.setThread, List.map_append, List.map_cons, List.map_nil]
    · simp only [h.pushed, State.setThread, List.map_append, List.map_cons, List.map_nil]
  | written t =>
    simp only [State.resume, hpc] at hstep
    cases hstep
    exact ⟨b, .refl, h.unseen (p := .unlocked t) (by rw [hpc]; rfl) rfl⟩
  | unlocked t =>
    simp only [State.resume, hpc] at hstep
    cases hstep
    rw [hpc] at hloop
    have hnext : IoBase.step b (.resume i {}) = some { b with
        wakeupEv := true
        threads := Function.update b.threads i Pc.outside.loopPc } := by
      simp only [IoBase.step, IoBase.State.resume, hloop, Pc.loopPc, Task.afterPost]
    exact follows_once hnext ⟨h.running, h.threadId, h.pending, h.threads_update i _, h.stack, h.next, h.pushed, h.started⟩

/-- A step of the loop thread in `RunPendingTasks`; the end of a task is two steps of the loop. -/
theorem follows_frameStep {f : Frame} {fs : List Frame} (hout : s.threads loopThread = .outside)
    (h : Follows s b) (hs : s.stack = f :: fs) (hstep : s.frameStep fs f = some s') :
    ∃ b', Reaches IoBase.step Always b b' ∧ Follows s' b' := by
  have houtside : (b.threads loopThread).isOutside = true := by
    rw [h.threads, hout]
    rfl
  have hstack : b.stack = f.loopFrame :: fs.map Frame.loopFrame := by
    rw [h.stack, hs, List.map_cons]
  have hloop : ∀ {b' : IoBase.State D},
      b.frameStep {} (fs.map Frame.loopFrame) f.loopFrame = some b' → IoBase.step b (.loop {}) = some b' := by
    intro b' hb
    simp only [IoBase.step, houtside, if_true, IoBase.State.loopStep, hstack]
    exact hb
  cases f with
  | locking =>
    simp only [State.frameStep] at hstep
    split at hstep <;> cases hstep
    exact follows_once (hloop rfl) ⟨h.running, h.threadId, h.pending, h.threads, rfl, h.next, h.pushed, h.started⟩
  | locked =>
    cases hstep
    refine follows_once (hloop rfl) ⟨h.running, h.threadId, rfl, h.threads, ?_, h.next, h.pushed, h.started⟩
    simp only [h.pending, List.map_cons, Frame.loopFrame]
  | swapped rest =>
    cases hstep
    exact ⟨b, .refl, h.running, h.threadId, h.pending, h.threads, hstack, h.next, h.pushed, h.started⟩
  | batch rest =>
    cases rest with
    | nil =>
      cases hstep
      exact follows_once (hloop rfl) ⟨h.running, h.threadId, h.pending, h.threads, rfl, h.next, h.pushed, h.started⟩
    | cons t rest =>
      cases hstep
      refine follows_once (hloop rfl) ⟨h.running, h.threadId, h.pending, h.threads, rfl, h.next, h.pushed, ?_⟩
      simp only [h.started, List.map_append, List.map_cons, List.map_nil]
  | running t rest =>
    cases hstep
    have hfinish : IoBase.step b (.loop {}) =
        some { b with stack := .ran (.user t) (rest.map .user) :: fs.map Frame.loopFrame } := hloop rfl
    refine ⟨{ b with stack := .batch (rest.map .user) :: fs.map Frame.loopFrame },
      (Reaches.refl.tail trivial hfinish).tail (a := .loop {}) trivial ?_,
      h.running, h.threadId, h.pending, h.threads, rfl, h.next, h.pushed, h.started⟩
    simp only [IoBase.step, houtside, if_true]
    rfl

theorem follows_step {a : Action} (hsnap : SnapshotInv s) (h : Follows s b) (hstep : step s a = some s') :
    ∃ b', Reaches IoBase.step Always b b' ∧ Follows s' b' := by
  cases a with
  | begin =>
    simp only [step] at hstep
    split at hstep <;> cases hstep
    rename_i hmay
    cases hrunning : s.running with
    | true =>
      -- the loop has begun already
      refine ⟨b, .refl, ?_⟩
      have hsame : { s with running := true } = s := by rw [← hrunning]
      rw [hsame]
      exact h
    | false =>
      have hid : b.threadId = none := by
        rw [h.threadId, hrunning]
        rfl
      have hnext : IoBase.step b .begin = some { b with threadId := some loopThread, running := true } := by
        simp only [IoBase.step, hid, h.mayCall, hmay]
        rfl
      exact follows_once hnext ⟨rfl, rfl, h.pending, h.threads, h.stack, h.next, h.pushed, h.started⟩
  | postTask i =>
    simp only [step] at hstep
    split at hstep <;> cases hstep
    rename_i hmay
    have hnext : IoBase.step b (.call i .postTask) = some { b with
        threads := Function.update b.threads i (Pc.entered s.nextTask).loopPc
        nextClosure := b.nextClosure + 1 } := by
      simp only [IoBase.step, h.mayCall, hmay, if_true, IoBase.State.enter, Pc.loopPc, h.next]
    refine follows_once hnext ⟨h.running, h.threadId, h.pending, h.threads_update i _, h.stack, ?_, h.pushed, h.started⟩
    simp only [h.next, State.setThread]
  | resume i => exact follows_resume hsnap h hstep
  | runPendingTasks =>
    simp only [step] at hstep
    split at hstep <;> cases hstep
    rename_i hmay
    have hnext : IoBase.step b .processPendingTasks = some { b with stack := .woken :: b.stack } := by
      simp only [IoBase.step, h.mayCall, hmay, if_true]
    refine follows_once hnext ⟨h.running, h.threadId, h.pending, h.threads, ?_, h.next, h.pushed, h.started⟩
    rw [h.stack]
    rfl
  | loop =>
    simp only [step] at hstep
    split at hstep
    · rename_i hout
      split at hstep
      · cases hstep
      · rename_i f fs hs
        exact follows_frameStep hout h hs hstep
    · cases hstep

/-- The states are followed one by one by those of a run of the loop, which a run leads through. -/
structure FollowedBy (states : List State) (bs : List (IoBase.State D)) : Prop where
  follows : List.Forall₂ Follows states bs
  starts : bs.head? = some IoBase.State.init
  runs : bs.IsChain (Reaches IoBase.step Always)

/-- **The lock makes pushes and swaps atomic.** In a run whose pushes do not overlap, the loop with atomic
    pushes gets to the same: with the same tasks in `pending_`, in the batches, started and pushed in the same
    order, and the threads and the loop thread at the places that the loop sees. It does so in one run for all
    the states on the way. -/
theorem locked_run (h : ReachesIf NoOverlap s) :
    (∃ b : IoBase.State D, Reachable b ∧ Follows s b) ∧
    ∀ states, Reaches (observe step fun s _ => [s]) (fun p a => NoOverlap p.1 a) (State.init, []) (s, states) →
      ∃ (b : IoBase.State D) (bs : List (IoBase.State D)), FollowedBy (states ++ [s]) (bs ++ [b]) := by
  have hsnap : ∀ t, ReachesIf NoOverlap t → SnapshotInv t := fun _ hr => (inv_of_reaches hr).2.1
  have hsim : ∀ (s : State) (a : Action) (s' : State) (b : IoBase.State D), step s a = some s' → SnapshotInv s →
      SnapshotInv s' → Follows s b → ∃ b', Reaches IoBase.step Always b b' ∧ Follows s' b' :=
    fun _ _ _ _ hstep hsnap _ hfollows => follows_step hsnap hfollows hstep
  refine ⟨h.simulate_run hsnap hsim follows_init, fun states hrun => ?_⟩
  obtain ⟨b, bs, hfollows, hstarts, hruns⟩ := Reaches.simulate_states hsnap hsim hrun follows_init
  exact ⟨b, bs, hfollows, hstarts, hruns⟩

theorem locked_run_apart :
    ∃ (s : State) (b : IoBase.State Ticks), ReachesIf NoOverlap s ∧ s.returned = [0, 1, 2] ∧ Reachable b ∧
      b.pending = [.user 1, .user 2] ∧ b.started = [.user 0] ∧
      ∃ (states : List State) (bs : List (IoBase.State Ticks)), FollowedBy (states ++ [s]) bs := by
  have hrun : (runWhile step NoOverlap State.init apartRun).isSome = true := by decide
  obtain ⟨s, hreach, hreturned, hpending, hstarted⟩ : ∃ s : State, ReachesIf NoOverlap s ∧
      s.returned = [0, 1, 2] ∧ s.pending = [1, 2] ∧ s.started = [0] := ⟨_, reaches_get hrun, rfl, rfl, rfl⟩
  obtain ⟨⟨b, hb, hfollows⟩, hall⟩ := locked_run (D := Ticks) hreach
  obtain ⟨states, hstates⟩ : ∃ states, Reaches (observe step fun s _ => [s]) (fun p a => NoOverlap p.1 a)
      (State.init, []) (s, states) := hreach.observed []
  obtain ⟨b', bs, hfollowed⟩ := hall states hstates
  exact ⟨s, b, hreach, hreturned, hb, by rw [hfollows.pending, hpending]; rfl,
    by rw [hfollows.started, hstarted]; rfl, states, bs ++ [b'], hfollowed⟩

end IoBase.PendingLock
