import IoBase.EventLoop

/- The steps of the loop, by branch, and what each kind of step leaves alone.

   `Stepped`, `Resumed` and `Framed` say once what a step of the system, of a thread
   in a public function and of the loop thread's innermost frame can be, with the
   state each branch leaves; every invariant is proved by cases on them. The frame
   lemmas say which fields, threads and frames each kind of step does not touch. -/
namespace IoBase
open Transition OrderedMap

variable {D : Type}

/-- A frame of a `RunEventLoopOnce` or `ProcessPendingTasks` call, as opposed to the functor of a
    blocking call. -/
def Frame.isIteration : Frame D → Bool
  | .inlineCall _ => false
  | _ => true

/-- The tasks of a batch that have not started. -/
def Frame.rest : Frame D → List (Task D)
  | .batch rest => rest
  | .running _ rest => rest
  | .ran _ rest => rest
  | _ => []

def Frame.isWaiting : Frame D → Bool
  | .waiting _ => true
  | _ => false

/-- Frames that hold a batch, or that may lead to one. -/
def Frame.batches : Frame D → Bool
  | .waiting _ => true
  | .woken => true
  | .draining => true
  | .batch _ => true
  | .running _ _ => true
  | .ran _ _ => true
  | _ => false

/-- The frame is in `ProcessSocketEvents`, or may yet call it. -/
def Frame.handlesSockets : Frame D → Bool
  | .waiting _ => true
  | .enumerating _ _ _ => true
  | .callbacks _ _ => true
  | .inCallback _ _ _ => true
  | _ => false

theorem ThreadPc.isOutside_iff {pc : ThreadPc D} : pc.isOutside = true ↔ pc = .outside := by
  cases pc <;> simp [isOutside]

namespace State

theorem mayCall_iff {s : State D} {i : Tid} :
    s.mayCall i = true ↔ s.threads i = .outside ∧ (i = loopThread → s.inUserCode = true) := by
  simp only [mayCall, Bool.and_eq_true, Bool.or_eq_true, bne_iff_ne, ThreadPc.isOutside_iff]
  tauto

/-! ## Frame lemmas -/

/-- Starting or destroying a task changes the records of the calls at most. -/
theorem startTask_eq (s : State D) (t : Task D) :
    s.startTask t = { s with calls := (s.startTask t).calls } := by
  cases t <;> rfl

theorem finishTask_eq [AbslDuration D] (s : State D) (o : Outcome) (t : Task D) :
    s.finishTask o t = { s with
      calls := (s.finishTask o t).calls
      clock := (s.finishTask o t).clock
      timers := (s.finishTask o t).timers } := by
  cases t <;> rfl

theorem destroyTask_eq (s : State D) (t : Task D) :
    s.destroyTask t = { s with calls := (s.destroyTask t).calls } := by
  cases t <;> rfl

/-- Entering a public function moves the thread and makes the names the call needs. -/
theorem enter_frame {s s' : State D} {i : Tid} {c : ApiCall D} (h : s.enter i c = some s') :
    s' = { s with
      threads := Function.update s.threads i (s'.threads i)
      nextClosure := s'.nextClosure
      calls := s'.calls
      nextCall := s'.nextCall
      quit := s'.quit } := by
  cases c with
  | postTask => cases h; simp
  | postDelayedTask delay => cases h; simp
  | blockingCall => cases h; simp
  | quit =>
    simp only [enter] at h
    split at h
    · cases h; simp
    · cases h

variable [AbslDuration D]

/-- A step of a thread in a public function, by its branch. -/
inductive Resumed (s : State D) (i : Tid) (o : Outcome) : State D → Prop where
  | refuse {t : Task D} : s.threads i = .postEntered t → s.isQuitting = true →
      Resumed s i o ((s.destroyTask t).setThread i t.afterPost)
  | check {t : Task D} : s.threads i = .postEntered t → s.isQuitting = false →
      Resumed s i o (s.setThread i (.postChecked t))
  | push {t : Task D} : s.threads i = .postChecked t →
      Resumed s i o { s with
        pending := s.pending ++ [t], pushed := s.pushed ++ [t]
        threads := Function.update s.threads i (.postPushed t) }
  | wake {t : Task D} : s.threads i = .postPushed t →
      Resumed s i o { s with wakeupEv := true, threads := Function.update s.threads i t.afterPost }
  | refuseDelayed {n : Closure} {delay : D} : s.threads i = .delayedEntered n delay →
      s.isQuitting = true → Resumed s i o (s.setThread i .outside)
  | checkDelayed {n : Closure} {delay : D} : s.threads i = .delayedEntered n delay →
      s.isQuitting = false → Resumed s i o (s.setThread i (.delayedChecked n delay))
  | postNow {n : Closure} {delay : D} : s.threads i = .delayedChecked n delay →
      Resumed s i o ({ s with clock := s.clock + o.gap₁ }.setThread i (.postEntered (.user n)))
  | postTimer {n : Closure} {delay : D} : s.threads i = .delayedChecked n delay →
      AbslDuration.le delay AbslDuration.zeroDuration = false → s.isCurrent i = true →
      Resumed s i o ({ s with
        clock := s.clock + o.gap₁ + o.gap₂ + o.gap₃ + o.gap₄
        timers := s.timers.postDelayedTaskOnTaskQueue n (s.clock + o.gap₁) delay
          (s.clock + o.gap₁ + o.gap₂) (s.clock + o.gap₁ + o.gap₂ + o.gap₃)
          (s.clock + o.gap₁ + o.gap₂ + o.gap₃ + o.gap₄) o.timer }.setThread i .outside)
  | postHop {n : Closure} {delay : D} : s.threads i = .delayedChecked n delay →
      AbslDuration.le delay AbslDuration.zeroDuration = false → s.isCurrent i = false →
      Resumed s i o ({ s with clock := s.clock + o.gap₁ }.setThread i
        (.postEntered (.hop n (s.clock + o.gap₁) delay)))
  | refuseCall {c : CallId} : s.threads i = .callEntered c → s.isQuitting = true →
      Resumed s i o ((s.updateCall c fun k =>
        { k with returned := true, foundNotBegun := s.threadId.isNone }).setThread i .outside)
  | checkCall {c : CallId} : s.threads i = .callEntered c → s.isQuitting = false →
      Resumed s i o (s.setThread i (.callChecked c))
  | inline {c : CallId} : s.threads i = .callChecked c → s.isCurrent i = true →
      Resumed s i o
        ({ s.startFunctor c i with stack := .inlineCall c :: s.stack }.setThread i .outside)
  | postCall {c : CallId} : s.threads i = .callChecked c → s.isCurrent i = false →
      Resumed s i o (s.setThread i (.postEntered (.call c)))
  | wakeCaller {c : CallId} : s.threads i = .callWaiting c → (s.calls c).done = true →
      Resumed s i o ((s.updateCall c fun k => { k with returned := true }).setThread i .outside)
  | returnCall {c : CallId} : s.threads i = .callReturning c →
      Resumed s i o ((s.updateCall c fun k => { k with returned := true }).setThread i .outside)
  | quitSwap : s.threads i = .quitting → s.quit = .entered →
      Resumed s i o { s with pending := [], quit := .swapped s.pending }
  | quitDestroy {t : Task D} {rest : List (Task D)} : s.threads i = .quitting →
      s.quit = .swapped (t :: rest) →
      Resumed s i o { s.destroyTask t with quit := .swapped rest }
  | quitStore : s.threads i = .quitting → s.quit = .swapped [] →
      Resumed s i o { s with
        running := false, quit := .returned, threads := Function.update s.threads i .outside }

theorem resumed {s s' : State D} {i : Tid} {o : Outcome} (h : s.resume i o = some s') :
    Resumed s i o s' := by
  cases hpc : s.threads i with
  | outside => simp [resume, hpc] at h
  | postEntered t =>
    simp only [resume, hpc] at h
    split at h
    · rename_i hq; cases h; exact .refuse hpc hq
    · rename_i hq; cases h; exact .check hpc (by simpa using hq)
  | postChecked t => simp only [resume, hpc] at h; cases h; exact .push hpc
  | postPushed t => simp only [resume, hpc] at h; cases h; exact .wake hpc
  | delayedEntered n delay =>
    simp only [resume, hpc, Option.some.injEq] at h
    split at h
    · rename_i hq; subst h; exact .refuseDelayed hpc hq
    · rename_i hq; subst h; exact .checkDelayed hpc (by simpa using hq)
  | delayedChecked n delay =>
    simp only [resume, hpc] at h
    split at h
    · cases h; exact .postNow hpc
    · rename_i hle
      split at h
      · rename_i hcur; cases h; exact .postTimer hpc (by simpa using hle) hcur
      · rename_i hcur; cases h; exact .postHop hpc (by simpa using hle) (by simpa using hcur)
  | callEntered c =>
    simp only [resume, hpc] at h
    split at h
    · rename_i hq; cases h; exact .refuseCall hpc hq
    · rename_i hq; cases h; exact .checkCall hpc (by simpa using hq)
  | callChecked c =>
    simp only [resume, hpc] at h
    split at h
    · rename_i hcur; cases h; exact .inline hpc hcur
    · rename_i hcur; cases h; exact .postCall hpc (by simpa using hcur)
  | callWaiting c =>
    simp only [resume, hpc] at h
    split at h
    · rename_i hd; cases h; exact .wakeCaller hpc hd
    · cases h
  | callReturning c => simp only [resume, hpc] at h; cases h; exact .returnCall hpc
  | quitting =>
    simp only [resume, hpc] at h
    split at h
    · rename_i hq; cases h; exact .quitSwap hpc hq
    · rename_i t rest hq; cases h; exact .quitDestroy hpc hq
    · rename_i hq; cases h; exact .quitStore hpc hq
    · cases h

/-- A thread in a public function touches neither the sockets nor the history of the loop. -/
theorem resume_frame {s s' : State D} {i : Tid} {o : Outcome} (h : s.resume i o = some s') :
    s' = { s with
      threads := Function.update s.threads i (s'.threads i)
      stack := s'.stack
      running := s'.running
      pending := s'.pending
      wakeupEv := s'.wakeupEv
      timers := s'.timers
      clock := s'.clock
      quit := s'.quit
      calls := s'.calls
      pushed := s'.pushed } := by
  cases resumed h with
  | refuse | quitDestroy => rw [destroyTask_eq]; simp [setThread]
  | _ => simp [setThread, updateCall, startFunctor]

/-- Only a blocking call made on the loop thread itself touches the call stack. -/
theorem resume_stack {s s' : State D} {i : Tid} {o : Outcome} (h : s.resume i o = some s') :
    s'.stack = s.stack ∨
      ∃ c, s.threads i = .callChecked c ∧ s.isCurrent i = true ∧ s'.stack = .inlineCall c :: s.stack := by
  cases resumed h with
  | inline hpc hcur => exact .inr ⟨_, hpc, hcur, rfl⟩
  | refuse | quitDestroy => rw [destroyTask_eq]; exact .inl rfl
  | _ => exact .inl rfl

omit [AbslDuration D] in
theorem dispatch_eq (s : State D) (r : WaitResult) (fs : List (Frame D)) :
    s.dispatch r fs = { s with stack := (s.dispatch r fs).stack } := by
  cases r with
  | failed => rfl
  | timeout =>
    simp only [dispatch, processSocketEvents]
    split
    · split <;> rfl
    · rfl
  | wakeup => rfl
  | timer => rfl
  | socket =>
    simp only [dispatch, processSocketEvents]
    split <;> rfl

omit [AbslDuration D] in
/-- What a wait that returned `r` leads to. -/
theorem dispatch_stack (s : State D) (r : WaitResult) (fs : List (Frame D)) :
    (s.dispatch r fs).stack = fs ∧ (r = .failed ∨ r = .timeout) ∨
    (s.dispatch r fs).stack = .woken :: fs ∧ r = .wakeup ∨
    (s.dispatch r fs).stack = .timerFired :: fs ∧ r = .timer ∨
    (s.dispatch r fs).stack = .closing r :: fs ∧ s.sockets.registrations.keys = [] ∨
    (s.dispatch r fs).stack = .enumerating r s.sockets.registrations.keys [] :: fs := by
  cases r with
  | failed => simp [dispatch]
  | timeout =>
    simp only [dispatch, processSocketEvents]
    split
    · split <;> simp_all
    · simp
  | wakeup => simp [dispatch]
  | timer => simp [dispatch]
  | socket =>
    simp only [dispatch, processSocketEvents]
    split <;> simp_all

/-- A step of the innermost frame, above the frames `fs`, by its branch. -/
inductive Framed (s : State D) (o : Outcome) (fs : List (Frame D)) : Frame D → State D → Prop where
  | wait {timeoutMs : BitVec 32} : s.mayReturn timeoutMs o.wait = true →
      Framed s o fs (.waiting timeoutMs) (s.dispatch o.wait fs)
  | resetWakeup : Framed s o fs .woken { s with wakeupEv := false, stack := .draining :: fs }
  | swap : Framed s o fs .draining { s with pending := [], stack := .batch s.pending :: fs }
  | batchDone : Framed s o fs (.batch []) { s with stack := fs }
  | start {t : Task D} {rest : List (Task D)} :
      Framed s o fs (.batch (t :: rest))
        { s.startTask t with started := s.started ++ [t], stack := .running t rest :: fs }
  | finish {t : Task D} {rest : List (Task D)} :
      Framed s o fs (.running t rest) { s.finishTask o t with stack := .ran t rest :: fs }
  | destroy {t : Task D} {rest : List (Task D)} :
      Framed s o fs (.ran t rest) { s.destroyTask t with stack := .batch rest :: fs }
  | noTimerTask : s.timers.timerTasks.isEmpty = true →
      Framed s o fs .timerFired { s with stack := .closing .timer :: fs }
  | cancelTimer : s.timers.timerTasks.isEmpty = false →
      Framed s o fs .timerFired { s with
        clock := s.clock + o.gap₁
        timers := s.timers.cancel.dcheck .runDueTasksNonEmpty (!s.timers.timerTasks.isEmpty)
        stack := .due (s.clock + o.gap₁) :: fs }
  | notDue {now : Int} {top : DelayedTaskInfo} : BinaryHeap.top? s.timers.timerTasks = some top →
      top.dueTimeMicros > now → Framed s o fs (.due now) { s with stack := .scheduling :: fs }
  | runDue {now : Int} {top : DelayedTaskInfo} : BinaryHeap.top? s.timers.timerTasks = some top →
      ¬top.dueTimeMicros > now →
      Framed s o fs (.due now) { s with
        timers := s.timers.dcheck .runTaskNonEmpty top.task.isSome
        startedDue := s.startedDue ++ [top]
        stack := .runningDue now :: fs }
  | popDue {now : Int} {timerTasks : List DelayedTaskInfo} {f : Frame D} :
      timerTasks = BinaryHeap.pop DelayedTaskInfo.gt s.timers.timerTasks →
      (f = .scheduling ∧ timerTasks = [] ∨ f = .due now ∧ timerTasks ≠ []) →
      Framed s o fs (.runningDue now) { s with
        timers := { s.timers with timerTasks := timerTasks }
        stack := f :: fs }
  | schedule : Framed s o fs .scheduling { s with
      clock := s.clock + o.gap₁
      timers := s.timers.scheduleNextTimer D (s.clock + o.gap₁) o.timer
      stack := .closing .timer :: fs }
  | enumerated {r : WaitResult} {ready : List ReadyListEntry} :
      Framed s o fs (.enumerating r [] ready) { s with
        sockets := { s.sockets with hasArtificialEventsPending := false }
        stack := .callbacks r ready :: fs }
  | enumerate {r : WaitResult} {fd : Fd} {todo : List Fd} {ready : List ReadyListEntry} :
      Framed s o fs (.enumerating r (fd :: todo) ready) { s with
        sockets := (s.sockets.enumerateSocket ready fd o.enumOk).1
        stack := .enumerating r todo (s.sockets.enumerateSocket ready fd o.enumOk).2 :: fs }
  | callbacksDone {r : WaitResult} :
      Framed s o fs (.callbacks r []) { s with stack := .closing r :: fs }
  | callback {r : WaitResult} {entry : ReadyListEntry} {rest : List ReadyListEntry} :
      s.locked fs entry = true →
      Framed s o fs (.callbacks r (entry :: rest)) { s with
        called := s.called ++ [⟨s.iterations, entry.fd, entry.registration, entry.events⟩]
        stack := .inCallback r entry rest :: fs }
  | skip {r : WaitResult} {entry : ReadyListEntry} {rest : List ReadyListEntry} :
      s.locked fs entry = false →
      Framed s o fs (.callbacks r (entry :: rest)) { s with stack := .callbacks r rest :: fs }
  | callbackDone {r : WaitResult} {entry : ReadyListEntry} {rest : List ReadyListEntry} :
      Framed s o fs (.inCallback r entry rest) { s with stack := .callbacks r rest :: fs }
  | close {r : WaitResult} : Framed s o fs (.closing r) { s with
      sockets := { s.sockets with socketEv := if r = .socket then false else s.sockets.socketEv }
      stack := fs }
  | inlineDone {c : CallId} : Framed s o fs (.inlineCall c)
      ({ s.finishFunctor c with stack := fs }.setThread loopThread (.callReturning c))

theorem framed {s s' : State D} {o : Outcome} {fs : List (Frame D)} {f : Frame D}
    (h : s.frameStep o fs f = some s') : Framed s o fs f s' := by
  cases f with
  | waiting timeoutMs =>
    simp only [frameStep] at h
    split at h
    · rename_i hm; cases h; exact .wait hm
    · cases h
  | woken => cases h; exact .resetWakeup
  | draining => cases h; exact .swap
  | batch rest =>
    cases rest with
    | nil => cases h; exact .batchDone
    | cons t rest => cases h; exact .start
  | running t rest => cases h; exact .finish
  | ran t rest => cases h; exact .destroy
  | timerFired =>
    simp only [frameStep] at h
    split at h
    · rename_i he; cases h; exact .noTimerTask he
    · rename_i he; cases h; exact .cancelTimer (by simpa using he)
  | due now =>
    simp only [frameStep] at h
    split at h
    · cases h
    · rename_i top htop
      split at h
      · rename_i hlt; cases h; exact .notDue htop hlt
      · rename_i hle; cases h; exact .runDue htop hle
  | runningDue now =>
    simp only [frameStep] at h
    cases h
    refine .popDue rfl ?_
    split
    · rename_i he; exact .inl ⟨rfl, List.isEmpty_iff.mp he⟩
    · rename_i he; exact .inr ⟨rfl, fun hn => he (List.isEmpty_iff.mpr hn)⟩
  | scheduling => cases h; exact .schedule
  | enumerating r todo ready =>
    cases todo with
    | nil => cases h; exact .enumerated
    | cons fd todo => cases h; exact .enumerate
  | callbacks r ready =>
    cases ready with
    | nil => cases h; exact .callbacksDone
    | cons entry rest =>
      simp only [frameStep] at h
      split at h
      · rename_i hl; cases h; exact .callback hl
      · rename_i hl; cases h; exact .skip (by simpa using hl)
  | inCallback r entry rest => cases h; exact .callbackDone
  | closing r => cases h; exact .close
  | inlineCall c => cases h; exact .inlineDone

/-- The loop thread leaves `running_`, the names and the count of its iterations alone. -/
theorem frameStep_frame {s s' : State D} {o : Outcome} {fs : List (Frame D)} {f : Frame D}
    (h : s.frameStep o fs f = some s') :
    s' = { s with
      threads := Function.update s.threads loopThread (s'.threads loopThread)
      stack := s'.stack
      pending := s'.pending
      wakeupEv := s'.wakeupEv
      sockets := s'.sockets
      timers := s'.timers
      clock := s'.clock
      calls := s'.calls
      started := s'.started
      startedDue := s'.startedDue
      called := s'.called } := by
  cases framed h with
  | wait => rw [dispatch_eq]; simp
  | start => rw [startTask_eq]; simp
  | finish => rw [finishTask_eq]; simp
  | destroy => rw [destroyTask_eq]; simp
  | _ => simp [setThread, finishFunctor, updateCall]

/-- The step of a frame takes it off the stack or puts another one, never a waiting one, in its
    place; a batch comes from a frame that leads to one. -/
theorem frameStep_stack {s s' : State D} {o : Outcome} {fs : List (Frame D)} {f : Frame D}
    (h : s.frameStep o fs f = some s') :
    s'.stack = fs ∨ ∃ g : Frame D, g.isWaiting = false ∧ (g.batches = true → f.batches = true) ∧
      s'.stack = g :: fs := by
  cases framed h with
  | wait =>
    rcases dispatch_stack s o.wait fs with ⟨hd, -⟩ | ⟨hd, -⟩ | ⟨hd, -⟩ | ⟨hd, -⟩ | hd
    · exact .inl hd
    all_goals exact .inr ⟨_, rfl, fun _ => rfl, hd⟩
  | popDue _ hf =>
    rcases hf with ⟨rfl, -⟩ | ⟨rfl, -⟩ <;>
      refine .inr ⟨_, ?_, ?_, rfl⟩ <;> simp [Frame.isWaiting, Frame.batches]
  | batchDone | close | inlineDone => exact .inl rfl
  | _ => refine .inr ⟨_, ?_, ?_, rfl⟩ <;> simp [Frame.isWaiting, Frame.batches]

/-- The only step of a frame that moves the loop thread in a public call is the end of the functor
    of its own blocking call. -/
theorem frameStep_threads {s s' : State D} {o : Outcome} {fs : List (Frame D)} {f : Frame D}
    (h : s.frameStep o fs f = some s') :
    s'.threads = s.threads ∨ ∃ c, f = .inlineCall c ∧ s'.stack = fs ∧
      s'.threads = Function.update s.threads loopThread (.callReturning c) := by
  cases framed h with
  | wait => rw [dispatch_eq]; exact .inl rfl
  | start => rw [startTask_eq]; exact .inl rfl
  | finish => rw [finishTask_eq]; exact .inl rfl
  | destroy => rw [destroyTask_eq]; exact .inl rfl
  | inlineDone => exact .inr ⟨_, rfl, rfl, rfl⟩
  | _ => exact .inl rfl

/-- Outside `ProcessSocketEvents` no listener is called, and it is not entered. -/
theorem frameStep_handlesSockets {s s' : State D} {o : Outcome} {fs : List (Frame D)} {f : Frame D}
    (h : s.frameStep o fs f = some s') (hf : f.handlesSockets = false) :
    s'.called = s.called ∧
      (s'.stack = fs ∨ ∃ g : Frame D, g.handlesSockets = false ∧ s'.stack = g :: fs) := by
  cases framed h with
  | wait | enumerate | enumerated | callbacksDone | callback | skip | callbackDone => cases hf
  | start => rw [startTask_eq]; exact ⟨rfl, .inr ⟨_, rfl, rfl⟩⟩
  | finish => rw [finishTask_eq]; exact ⟨rfl, .inr ⟨_, rfl, rfl⟩⟩
  | destroy => rw [destroyTask_eq]; exact ⟨rfl, .inr ⟨_, rfl, rfl⟩⟩
  | popDue _ hg => refine ⟨rfl, .inr ⟨_, ?_, rfl⟩⟩; rcases hg with ⟨rfl, -⟩ | ⟨rfl, -⟩ <;> rfl
  | batchDone | close | inlineDone => exact ⟨rfl, .inl rfl⟩
  | _ => exact ⟨rfl, .inr ⟨_, rfl, rfl⟩⟩

/-- A thread that is outside takes no step. -/
theorem threads_ne_outside {s s' : State D} {i : Tid} {o : Outcome} (h : s.resume i o = some s') :
    s.threads i ≠ .outside := by
  intro hpc
  simp [resume, hpc] at h

end State

/-! ## Socket calls -/

/-- A socket call that is not refused outright, by its branch: what it returns and leaves. -/
inductive SocketStepped (s : Sockets) : SocketCall → Bool × Sockets → Prop where
  | refused {c : SocketCall} : SocketStepped s c (false, s)
  | register {fd : Fd} {events : EventMask} {listener : Nat} : fd ∉ s.registrations →
      SocketStepped s (.register fd events listener true)
        (true, { s with
          registrations := (insertBack fd (⟨s.nextRegistration, events, some listener, 0⟩ : Registration)
            s.registrations).1
          nextRegistration := s.nextRegistration + 1 }.wsaEventSelect fd (getPollMask events) true)
  | registerFailed {fd : Fd} {events : EventMask} {listener : Nat} : fd ∉ s.registrations →
      SocketStepped s (.register fd events listener false)
        (false, { s with nextRegistration := s.nextRegistration + 1 }.wsaEventSelect fd
          (getPollMask events) false)
  | unregister {fd : Fd} {selectOk : Bool} : fd ∈ s.registrations →
      SocketStepped s (.unregister fd selectOk)
        (true, { s with registrations := s.registrations.erase fd }.wsaEventSelect fd 0 selectOk)
  | rearm {fd : Fd} {events : EventMask} {selectOk : Bool} {r : Registration} :
      s.registrations.lookup fd = some r →
      SocketStepped s (.rearm fd events selectOk)
        (selectOk, { s with
          registrations := modify fd (fun r => { r with events := r.events ||| events })
            s.registrations }.wsaEventSelect fd (getPollMask (r.events ||| events)) selectOk)
  | notify {fd : Fd} {events : EventMask} {r : Registration} :
      s.registrations.lookup fd = some r →
      SocketStepped s (.notify fd events)
        (true, { s with
          hasArtificialEventsPending := true
          registrations := modify fd
            (fun r => { r with
              artificiallyNotifyAtNextIteration := r.artificiallyNotifyAtNextIteration ||| events })
            s.registrations
          socketEv := true })

/-- What a socket that is not registered is registered as. -/
theorem registerSocket_new {s : Sockets} {fd : Fd} {events : EventMask} {listener : Nat}
    (hmem : fd ∉ s.registrations) :
    s.registerSocket false fd events listener true =
      (true, { s with
        registrations := (insertBack fd (⟨s.nextRegistration, events, some listener, 0⟩ : Registration)
          s.registrations).1
        nextRegistration := s.nextRegistration + 1 }.wsaEventSelect fd (getPollMask events) true) := by
  simp only [Sockets.registerSocket, Bool.false_eq_true, if_false]
  rw [insertBack_of_notMem hmem]
  simp only [modify_insertBack hmem, if_true]

/-- What is left of a registration that `WSAEventSelect` fails. -/
theorem registerSocket_failed {s : Sockets} {fd : Fd} {events : EventMask} {listener : Nat}
    (hmem : fd ∉ s.registrations) :
    s.registerSocket false fd events listener false =
      (false, { s with nextRegistration := s.nextRegistration + 1 }.wsaEventSelect fd
        (getPollMask events) false) := by
  simp only [Sockets.registerSocket, Bool.false_eq_true, if_false]
  rw [insertBack_of_notMem hmem]
  simp only [modify_insertBack hmem]
  simp [Sockets.wsaEventSelect, erase_insertBack hmem]

theorem socket_cases (s : Sockets) (quitting : Bool) (c : SocketCall) :
    SocketStepped s c (c.run s quitting) := by
  cases quitting with
  | true => cases c <;> exact .refused
  | false =>
    cases c with
    | register fd events listener selectOk =>
      by_cases hmem : fd ∈ s.registrations
      · simp only [SocketCall.run, Sockets.registerSocket, insertBack_of_mem hmem]
        exact .refused
      · cases selectOk with
        | false =>
          rw [SocketCall.run, registerSocket_failed hmem]
          exact .registerFailed hmem
        | true =>
          rw [SocketCall.run, registerSocket_new hmem]
          exact .register hmem
    | unregister fd selectOk =>
      simp only [SocketCall.run, Sockets.unregisterSocket, Bool.false_eq_true, if_false]
      split
      · exact .refused
      · rename_i r hr
        exact .unregister (AList.lookup_isSome.mp (by simp [hr]))
    | rearm fd events selectOk =>
      simp only [SocketCall.run, Sockets.rearmSocket, Bool.false_eq_true, if_false]
      split
      · exact .refused
      · rename_i r hr
        exact .rearm hr
    | notify fd events =>
      simp only [SocketCall.run, Sockets.artificiallyNotifyEvent, Bool.false_eq_true, if_false]
      split
      · exact .refused
      · rename_i r hr
        exact .notify hr

/-! ## The enumeration -/

theorem dispatchSocketEvent_frame (s : Sockets) (ready : List ReadyListEntry) (fd : Fd)
    (mask : BitVec 16) :
    (s.dispatchSocketEvent ready fd mask).1 =
      { s with registrations := (s.dispatchSocketEvent ready fd mask).1.registrations } ∧
    (s.dispatchSocketEvent ready fd mask).1.registrations.keys = s.registrations.keys := by
  unfold Sockets.dispatchSocketEvent
  split
  · exact ⟨rfl, rfl⟩
  · simp only
    split
    · exact ⟨rfl, rfl⟩
    · exact ⟨rfl, keys_modify⟩

/-- An enumeration keeps which sockets are registered, and what is asked of the kernel. -/
theorem enumerateSocket_frame (s : Sockets) (ready : List ReadyListEntry) (fd : Fd) (enumOk : Bool) :
    (s.enumerateSocket ready fd enumOk).1 =
      { s with
        registrations := (s.enumerateSocket ready fd enumOk).1.registrations
        recorded := (s.enumerateSocket ready fd enumOk).1.recorded
        socketEv := (s.enumerateSocket ready fd enumOk).1.socketEv } := by
  unfold Sockets.enumerateSocket
  split
  · rfl
  · split
    · rfl
    · simp only
      split
      · rw [(dispatchSocketEvent_frame _ _ _ _).1]
      · rfl

/-- An enumeration changes the registration of its own socket in place: it takes armed events away
    and clears the artificial ones. -/
theorem enumerateSocket_registrations (s : Sockets) (ready : List ReadyListEntry) (fd : Fd)
    (enumOk : Bool) :
    ∃ f : Registration → Registration,
      (∀ r, (f r).id = r.id ∧ ∃ bits, (f r).events = r.events &&& bits) ∧
      (s.enumerateSocket ready fd enumOk).1.registrations = modify fd f s.registrations := by
  have hsame : ∀ r : Registration, (id r).id = r.id ∧ ∃ bits, (id r).events = r.events &&& bits :=
    fun r => ⟨rfl, r.events, BitVec.and_self.symm⟩
  have hclear : ∀ r : Registration,
      ({ r with artificiallyNotifyAtNextIteration := 0 } : Registration).id = r.id ∧
      ∃ bits, r.events = r.events &&& bits := fun r => ⟨rfl, r.events, BitVec.and_self.symm⟩
  unfold Sockets.enumerateSocket
  split
  · exact ⟨id, hsame, modify_id.symm⟩
  · split
    · exact ⟨id, hsame, modify_id.symm⟩
    · simp only
      split
      · unfold Sockets.dispatchSocketEvent
        split
        · exact ⟨_, hclear, rfl⟩
        · simp only
          split
          · exact ⟨_, hclear, rfl⟩
          · refine ⟨_, fun r => ?_, modify_modify⟩
            exact ⟨rfl, _, rfl⟩
      · exact ⟨_, hclear, rfl⟩

open State

variable [AbslDuration D]

/-! ## Steps -/

/-- A step of the system, by its action. -/
inductive Stepped (s : State D) : Action D → State D → Prop where
  | begin : s.threadId = none → s.mayCall loopThread = true →
      Stepped s .begin { s with threadId := some loopThread, running := true }
  | wakeUp : Stepped s .wakeUp { s with wakeupEv := true }
  | call {i : Tid} {c : ApiCall D} {s' : State D} : s.mayCall i = true → s.enter i c = some s' →
      Stepped s (.call i c) s'
  | resume {i : Tid} {o : Outcome} {s' : State D} : s.resume i o = some s' →
      Stepped s (.resume i o) s'
  | runEventLoopOnce {d : D} : s.mayCall loopThread = true →
      Stepped s (.runEventLoopOnce d)
        { s with stack := .waiting (toCmsWait d) :: s.stack, iterations := s.iterations + 1 }
  | processPendingTasks : s.mayCall loopThread = true →
      Stepped s .processPendingTasks { s with stack := .woken :: s.stack }
  | socket {c : SocketCall} : s.mayCall loopThread = true →
      Stepped s (.socket c) { s with sockets := (c.run s.sockets s.isQuitting).2 }
  | loop {o : Outcome} {f : Frame D} {fs : List (Frame D)} {s' : State D} :
      s.threads loopThread = .outside → s.stack = f :: fs → s.frameStep o fs f = some s' →
      Stepped s (.loop o) s'
  | arrive {fd : Fd} {event : NetMask} {e : Int} :
      event ≠ 0 → event &&& s.sockets.selected fd = event →
      Stepped s (.arrive fd event e) { s with sockets := s.sockets.record fd event e }
  | expire {id : Nat} {timers : Timers} : s.timers.expire id = some timers →
      Stepped s (.expire id) { s with timers }
  | tick {micros : Nat} : Stepped s (.tick micros) { s with clock := s.clock + micros }

theorem step_cases {s s' : State D} {a : Action D} (h : step s a = some s') : Stepped s a s' := by
  cases a with
  | begin =>
    simp only [step, Bool.and_eq_true, Option.isNone_iff_eq_none] at h
    split at h
    · rename_i hb; cases h; exact .begin hb.1 hb.2
    · cases h
  | wakeUp => cases h; exact .wakeUp
  | call i c =>
    simp only [step] at h
    split at h
    · rename_i hm; exact .call hm h
    · cases h
  | resume i o => exact .resume h
  | runEventLoopOnce d =>
    simp only [step] at h
    split at h
    · rename_i hm; cases h; exact .runEventLoopOnce hm
    · cases h
  | processPendingTasks =>
    simp only [step] at h
    split at h
    · rename_i hm; cases h; exact .processPendingTasks hm
    · cases h
  | socket c =>
    simp only [step] at h
    split at h
    · rename_i hm; cases h; exact .socket hm
    · cases h
  | loop o =>
    simp only [step] at h
    split at h
    · rename_i hout
      unfold loopStep at h
      split at h
      · cases h
      · rename_i f fs hs
        exact .loop (ThreadPc.isOutside_iff.mp hout) hs h
    · cases h
  | arrive fd event e =>
    simp only [step, Bool.and_eq_true, bne_iff_ne, beq_iff_eq] at h
    split at h
    · rename_i ha; cases h; exact .arrive ha.1 ha.2
    · cases h
  | expire id =>
    simp only [step, Option.map_eq_some_iff] at h
    obtain ⟨timers, ht, rfl⟩ := h
    exact .expire ht
  | tick micros => cases h; exact .tick

end IoBase
