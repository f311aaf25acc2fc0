import IoBase.EvenLoop
import IoBase.EventLoop

/- The POSIX `Signaler` and the wait for it alone, in `event_loop_temp.cc`.

   Any number of threads call `WakeUp`, which writes a token to the descriptor of the
   Signaler; one thread calls `Wait` without `process_io`, again and again, which polls that
   descriptor. `mutex_` admits one thread, so the mutex is the place of the thread that has
   it: a thread in `Signal`, or the loop thread in `OnEvent`. A step is one statement of the
   threads, one call of `poll`, or a passing of time. The descriptor is an eventfd, of which a
   write adds a token and a read takes all; both succeed where it is documented.

   Correspondence (C++ ↔ Lean):
     `EvenLoop::WakeUp`, `Signaler::Signal` ↔ `wakeUp`, `lock`, and `SignalPc`
     `Signaler::OnEvent`                    ↔ `PollPc.onEvent`, and `OnEventPc`
     `EvenLoop::Wait`, `WaitPollOneDispatcher` ↔ `wait`, and `PollPc`
     `DispatcherToPollfd`                   ↔ `dispatcherToPollfd`
     `ProcessPollEvents`                    ↔ `processPollEvents`

   * `Coalesced`: the flag and the tokens, by the place of the thread that has the mutex.
   * `wakeUp_not_lost`: a completed `WakeUp` is readable until an `OnEvent` takes it. -/
namespace IoBase
open Transition

/-! ## Polling -/

namespace Pollfd

def pollIn : BitVec 16 := 0x0001
def pollPri : BitVec 16 := 0x0002
def pollOut : BitVec 16 := 0x0004
def pollErr : BitVec 16 := 0x0008
def pollHup : BitVec 16 := 0x0010
def pollNval : BitVec 16 := 0x0020
def pollRdHup : BitVec 16 := 0x2000

end Pollfd

/-- The `events` of a dispatcher that requests these. -/
def dispatcherToPollfd (requestedEvents : BitVec 32) : BitVec 16 :=
  (if meets requestedEvents (deRead ||| deAccept) then Pollfd.pollIn else 0) |||
  (if meets requestedEvents (deWrite ||| deConnect) then Pollfd.pollOut else 0)

/-- The `ff` and `errcode` of a dispatcher's `revents`. -/
def processPollEvents (requestedEvents : BitVec 32) (closed : Bool) (revents : BitVec 16) (res : SoError) :
    BitVec 32 × Int :=
  let readable := meets revents (Pollfd.pollIn ||| Pollfd.pollPri)
  let writable := meets revents Pollfd.pollOut
  let error := meets revents (Pollfd.pollRdHup ||| Pollfd.pollErr ||| Pollfd.pollHup)
  processEvents requestedEvents closed readable writable error error res

/-- What `poll` returns. -/
inductive PollResult where
  | failed
  | interrupted
  | timeout
  | ready (revents : BitVec 16)
  deriving DecidableEq, Repr

/-- What `poll` reports of an eventfd with these tokens: readable if there are any, and the errors that it
    reports unasked. -/
def MayReport (events : BitVec 16) (tokens : Nat) (revents : BitVec 16) : Prop :=
  revents ≠ 0 ∧ Within revents (events ||| Pollfd.pollErr ||| Pollfd.pollHup ||| Pollfd.pollNval) ∧
    (meets revents Pollfd.pollIn = true ↔ meets events Pollfd.pollIn = true ∧ 0 < tokens)

instance (events : BitVec 16) (tokens : Nat) (revents : BitVec 16) :
    Decidable (MayReport events tokens revents) := inferInstanceAs (Decidable (_ ∧ _))

/-! ## The Signaler -/

/-- In `Signal`, with the mutex: before the check, after the write, and with the flag set. -/
inductive SignalPc where
  | locked
  | written
  | signaled
  deriving DecidableEq, Repr

/-- In `OnEvent`, with the mutex: before the check, after the read, with the flag cleared, and with
    `flag_to_clear_` cleared. -/
inductive OnEventPc where
  | locked
  | drained
  | reset
  | cleared
  deriving DecidableEq, Repr

/-- The thread that has `mutex_`. -/
inductive MutexHolder where
  | signal (i : Tid) (pc : SignalPc)
  | onEvent (pc : OnEventPc)
  deriving DecidableEq, Repr

/-- Where the loop thread is in `WaitPollOneDispatcher`; it is in `onEvent` for as long as `OnEvent`
    lasts. Outside, it has the result of its last `Wait`. -/
inductive PollPc where
  | outside (result : Option Bool)
  | entered
  | head
  | polling
  | processing (revents : BitVec 16)
  | onEvent
  | recalculating
  deriving DecidableEq, Repr

structure Signaler where
  fSignaled : Bool
  /-- The counter of the eventfd. -/
  tokens : Nat
  mutex : Option MutexHolder
  /-- The threads in `Signal` that have not had the mutex yet. -/
  callers : Tid → Bool
  fWait : Bool
  loop : PollPc
  cmsWait : Int
  msWait : Int
  msStop : Int
  now : Int
  /-- The `WakeUp`s that have completed since the last `OnEvent` did. -/
  unconsumed : Nat

inductive SignalerAction where
  | tick (ns : Nat)
  | wakeUp (i : Tid)
  | lock (i : Tid)
  /-- The next statement of the thread that has the mutex. -/
  | critical
  | wait (cmsWait : Int)
  /-- The next statement of the loop thread. -/
  | loop
  | poll (n : PollResult)
  | process (res : SoError)

namespace Signaler

def init (now : Int) : Signaler where
  fSignaled := false
  tokens := 0
  mutex := none
  callers := fun _ => false
  fWait := false
  loop := .outside none
  cmsWait := EvenLoop.kForeverMs
  msWait := -1
  msStop := -1
  now := now
  unconsumed := 0

/-- The thread is not in `Signal`. -/
def mayCall (s : Signaler) (i : Tid) : Bool :=
  !s.callers i &&
    match s.mutex with
    | some (.signal j _) => i != j
    | _ => true

/-- The Signaler requests `DE_READ`. -/
def events : BitVec 16 := dispatcherToPollfd deRead

def step (s : Signaler) : SignalerAction → Option Signaler
  | .tick ns => some { s with now := s.now + ns }
  | .wakeUp i =>
    if s.mayCall i then some { s with callers := Function.update s.callers i true } else none
  | .lock i =>
    match s.mutex with
    | none =>
      if s.callers i then
        some { s with mutex := some (.signal i .locked), callers := Function.update s.callers i false }
      else none
    | some _ => none
  | .critical =>
    match s.mutex with
    | none => none
    | some (.signal i .locked) =>
      if s.fSignaled then some { s with mutex := some (.signal i .signaled) }
      else some { s with tokens := s.tokens + 1, mutex := some (.signal i .written) }
    | some (.signal i .written) => some { s with fSignaled := true, mutex := some (.signal i .signaled) }
    | some (.signal _ .signaled) => some { s with mutex := none, unconsumed := s.unconsumed + 1 }
    | some (.onEvent .locked) =>
      if s.fSignaled then some { s with tokens := 0, mutex := some (.onEvent .drained) }
      else some { s with mutex := some (.onEvent .reset) }
    | some (.onEvent .drained) => some { s with fSignaled := false, mutex := some (.onEvent .reset) }
    | some (.onEvent .reset) => some { s with fWait := false, mutex := some (.onEvent .cleared) }
    | some (.onEvent .cleared) => some { s with mutex := none, loop := .recalculating, unconsumed := 0 }
  | .wait cmsWait =>
    match s.loop with
    | .outside _ =>
      if cmsWait = EvenLoop.kForeverMs then
        some { s with loop := .entered, cmsWait := cmsWait, msWait := -1, msStop := -1 }
      else
        some { s with
          loop := .entered
          cmsWait := cmsWait
          msWait := cmsWait
          msStop := timeAfter s.now cmsWait }
    | _ => none
  | .loop =>
    match s.loop with
    | .entered => some { s with fWait := true, loop := .head }
    | .head => some { s with loop := if s.fWait then .polling else .outside (some true) }
    | .onEvent =>
      match s.mutex with
      | none => some { s with mutex := some (.onEvent .locked) }
      | some _ => none
    | .recalculating =>
      if s.cmsWait = EvenLoop.kForeverMs then some { s with loop := .head }
      else
        let msWait := timeDiff s.msStop (timeMillis s.now)
        some { s with
          msWait := msWait
          loop := if msWait < 0 then .outside (some true) else .head }
    | _ => none
  | .poll n =>
    match s.loop, n with
    | .polling, .failed => some { s with loop := .outside (some false) }
    | .polling, .interrupted => some { s with loop := .recalculating }
    | .polling, .timeout =>
      -- a negative timeout is none, and a descriptor that is readable is reported
      if 0 ≤ wrapInt32 s.msWait ∧ s.tokens = 0 then some { s with loop := .outside (some true) } else none
    | .polling, .ready revents =>
      if MayReport events s.tokens revents then some { s with loop := .processing revents } else none
    | _, _ => none
  | .process res =>
    match s.loop with
    | .processing revents =>
      let (ff, _) := processPollEvents deRead false revents res
      some { s with loop := if ff = 0 then .recalculating else .onEvent }
    | _ => none

/-! ## What a step can do -/

/-- The steps, by what they do to the flag, the tokens and the mutex. -/
inductive Stepped (s : Signaler) : Signaler → Prop where
  /-- Apart from the critical sections: time, a call of `WakeUp`, or the loop thread outside `OnEvent`. -/
  | apart {s' : Signaler} : s'.fSignaled = s.fSignaled → s'.tokens = s.tokens → s'.mutex = s.mutex →
      s'.unconsumed = s.unconsumed → (s'.loop = s.loop ∧ s'.fWait = s.fWait ∨ s.loop ≠ .onEvent) →
      Stepped s s'
  | lock {i : Tid} {callers : Tid → Bool} : s.mutex = none →
      Stepped s { s with mutex := some (.signal i .locked), callers := callers }
  | loopLock : s.mutex = none → s.loop = .onEvent → Stepped s { s with mutex := some (.onEvent .locked) }
  | critical {s' : Signaler} : s.step .critical = some s' → Stepped s s'

theorem step_cases {s s' : Signaler} {a : SignalerAction} (hstep : s.step a = some s') : Stepped s s' := by
  have houtside : ∀ {t : Signaler} {pc : PollPc}, s.loop = pc → pc ≠ .onEvent →
      t.fSignaled = s.fSignaled → t.tokens = s.tokens → t.mutex = s.mutex → t.unconsumed = s.unconsumed →
      Stepped s t := by
    intro t pc hloop hpc hflag htokens hmutex hunconsumed
    exact .apart hflag htokens hmutex hunconsumed (.inr (hloop ▸ hpc))
  cases a with
  | tick ns =>
    cases hstep
    exact .apart rfl rfl rfl rfl (.inl ⟨rfl, rfl⟩)
  | wakeUp i =>
    simp only [step] at hstep
    split at hstep <;> cases hstep
    exact .apart rfl rfl rfl rfl (.inl ⟨rfl, rfl⟩)
  | lock i =>
    simp only [step] at hstep
    split at hstep
    · split at hstep <;> cases hstep
      exact .lock (by assumption)
    · cases hstep
  | critical => exact .critical hstep
  | wait cmsWait =>
    simp only [step] at hstep
    split at hstep
    · rename_i hloop
      split at hstep <;> cases hstep <;> exact houtside hloop (by simp) rfl rfl rfl rfl
    · cases hstep
  | loop =>
    simp only [step] at hstep
    split at hstep
    · rename_i hloop
      cases hstep
      exact houtside hloop (by simp) rfl rfl rfl rfl
    · rename_i hloop
      cases hstep
      exact houtside hloop (by simp) rfl rfl rfl rfl
    · rename_i hloop
      split at hstep <;> cases hstep
      exact .loopLock (by assumption) hloop
    · rename_i hloop
      split at hstep <;> cases hstep <;> exact houtside hloop (by simp) rfl rfl rfl rfl
    · cases hstep
  | poll n =>
    simp only [step] at hstep
    split at hstep
    · rename_i hloop
      cases hstep
      exact houtside hloop (by simp) rfl rfl rfl rfl
    · rename_i hloop
      cases hstep
      exact houtside hloop (by simp) rfl rfl rfl rfl
    · rename_i hloop
      split at hstep <;> cases hstep
      exact houtside hloop (by simp) rfl rfl rfl rfl
    · rename_i hloop
      split at hstep <;> cases hstep
      exact houtside hloop (by simp) rfl rfl rfl rfl
    · cases hstep
  | process res =>
    simp only [step] at hstep
    split at hstep <;> cases hstep
    exact houtside (by assumption) (by simp) rfl rfl rfl rfl

/-! ## The flag and the tokens -/

/-- The flag counts the tokens, and a completed `WakeUp` has left it set. -/
def Balanced (s : Signaler) : Prop :=
  s.tokens = s.fSignaled.toNat ∧ (0 < s.unconsumed → s.fSignaled = true)

/-- The flag and the tokens, by the place of the thread that has the mutex. -/
def Coalesced (s : Signaler) : Prop :=
  match s.mutex with
  | none => s.Balanced
  | some (.signal _ .locked) => s.Balanced
  | some (.signal _ .written) => s.fSignaled = false ∧ s.tokens = 1 ∧ s.unconsumed = 0
  | some (.signal _ .signaled) => s.fSignaled = true ∧ s.tokens = 1
  | some (.onEvent .locked) => s.loop = .onEvent ∧ s.Balanced
  | some (.onEvent .drained) => s.loop = .onEvent ∧ s.fSignaled = true ∧ s.tokens = 0
  | some (.onEvent .reset) => s.loop = .onEvent ∧ s.fSignaled = false ∧ s.tokens = 0
  | some (.onEvent .cleared) =>
    s.loop = .onEvent ∧ s.fSignaled = false ∧ s.tokens = 0 ∧ s.fWait = false

namespace Coalesced
variable {s s' : Signaler}

theorem of_init (now : Int) : Coalesced (init now) := ⟨rfl, fun h => absurd h (Nat.lt_irrefl 0)⟩

/-- The loop thread is where the mutex says. -/
theorem loop_eq (h : Coalesced s) {pc : OnEventPc} (hmutex : s.mutex = some (.onEvent pc)) :
    s.loop = .onEvent := by
  simp only [Coalesced, hmutex] at h
  cases pc <;> exact h.1

/-- A step apart from the critical sections. -/
theorem apart (h : Coalesced s) (hflag : s'.fSignaled = s.fSignaled) (htokens : s'.tokens = s.tokens)
    (hmutex : s'.mutex = s.mutex) (hunconsumed : s'.unconsumed = s.unconsumed)
    (hloop : s'.loop = s.loop ∧ s'.fWait = s.fWait ∨ s.loop ≠ .onEvent) : Coalesced s' := by
  have hsame : ∀ pc, s.mutex = some (.onEvent pc) → s'.loop = s.loop ∧ s'.fWait = s.fWait :=
    fun pc hholder => hloop.resolve_right fun hout => hout (h.loop_eq hholder)
  simp only [Coalesced, Balanced, hflag, htokens, hmutex, hunconsumed] at h ⊢
  cases hholder : s.mutex with
  | none => simpa [hholder] using h
  | some holder =>
    cases holder with
    | signal i pc => cases pc <;> simpa [hholder] using h
    | onEvent pc =>
      obtain ⟨hloop', hwait⟩ := hsame pc hholder
      cases pc <;> simpa [hholder, hloop', hwait] using h

/-- A statement of the thread that has the mutex. -/
theorem critical (h : Coalesced s) (hstep : s.step .critical = some s') : Coalesced s' := by
  cases hmutex : s.mutex with
  | none => simp [step, hmutex] at hstep
  | some holder =>
    simp only [Coalesced, hmutex] at h
    cases holder with
    | signal i pc =>
      cases pc with
      | locked =>
        obtain ⟨htokens, hset⟩ := h
        simp only [step, hmutex] at hstep
        cases hflag : s.fSignaled <;> rw [hflag] at htokens hset hstep <;> cases hstep
        · have hnone : s.unconsumed = 0 := Nat.eq_zero_of_not_pos fun hpos => by cases hset hpos
          exact ⟨rfl, congrArg (· + 1) htokens, hnone⟩
        · exact ⟨rfl, htokens⟩
      | written =>
        simp only [step, hmutex] at hstep
        cases hstep
        exact ⟨rfl, h.2.1⟩
      | signaled =>
        obtain ⟨hflag, htokens⟩ := h
        simp only [step, hmutex] at hstep
        cases hstep
        exact ⟨htokens.trans (congrArg Bool.toNat hflag).symm, fun _ => hflag⟩
    | onEvent pc =>
      cases pc with
      | locked =>
        obtain ⟨hloop, htokens, hset⟩ := h
        simp only [step, hmutex] at hstep
        cases hflag : s.fSignaled <;> rw [hflag] at htokens hstep <;> cases hstep
        · exact ⟨hloop, rfl, htokens⟩
        · exact ⟨hloop, rfl, rfl⟩
      | drained =>
        obtain ⟨hloop, -, htokens⟩ := h
        simp only [step, hmutex] at hstep
        cases hstep
        exact ⟨hloop, rfl, htokens⟩
      | reset =>
        obtain ⟨hloop, hflag, htokens⟩ := h
        simp only [step, hmutex] at hstep
        cases hstep
        exact ⟨hloop, hflag, htokens, rfl⟩
      | cleared =>
        obtain ⟨-, hflag, htokens, -⟩ := h
        simp only [step, hmutex] at hstep
        cases hstep
        exact ⟨htokens.trans (congrArg Bool.toNat hflag).symm, fun hpos => absurd hpos (Nat.lt_irrefl 0)⟩

theorem step (h : Coalesced s) (hstep : Stepped s s') : Coalesced s' := by
  cases hstep with
  | apart hflag htokens hmutex hunconsumed hloop => exact h.apart hflag htokens hmutex hunconsumed hloop
  | lock hfree =>
    simp only [Coalesced, hfree] at h
    exact h
  | loopLock hfree hloop =>
    simp only [Coalesced, hfree] at h
    exact ⟨hloop, h⟩
  | critical hcritical => exact h.critical hcritical

/-- With the mutex free, the flag is set exactly if there is a token. -/
theorem flag_iff (h : Coalesced s) (hfree : s.mutex = none) : s.fSignaled = true ↔ s.tokens = 1 := by
  simp only [Coalesced, hfree] at h
  rw [h.1]
  cases s.fSignaled <;> decide

theorem tokens_le (h : Coalesced s) : s.tokens ≤ 1 := by
  simp only [Coalesced, Balanced] at h
  have hbit : s.fSignaled.toNat ≤ 1 := Bool.toNat_le s.fSignaled
  split at h <;> omega

/-- The read of `OnEvent` finds a token. -/
theorem read_finds (h : Coalesced s) (hmutex : s.mutex = some (.onEvent .locked)) (hflag : s.fSignaled = true) :
    s.tokens = 1 := by
  simp only [Coalesced, hmutex] at h
  rw [h.2.1, hflag]
  rfl

/-- A completed `WakeUp` is readable, until the loop thread has read it. -/
theorem readable (h : Coalesced s) (hpos : 0 < s.unconsumed) :
    s.tokens = 1 ∨ ∃ pc, s.mutex = some (.onEvent pc) ∧ pc ≠ .locked := by
  have hbalanced : s.Balanced → s.tokens = 1 := by
    intro hb
    rw [hb.1, hb.2 hpos]
    rfl
  simp only [Coalesced] at h
  split at h
  · exact .inl (hbalanced h)
  · exact .inl (hbalanced h)
  · exact .inl h.2.1
  · exact .inl h.2
  · exact .inl (hbalanced h.2)
  · exact .inr ⟨_, by assumption, by decide⟩
  · exact .inr ⟨_, by assumption, by decide⟩
  · exact .inr ⟨_, by assumption, by decide⟩

end Coalesced

theorem coalesced_of_reaches {now : Int} {s : Signaler} (hrun : Reaches Signaler.step Always (init now) s) :
    Coalesced s :=
  hrun.invariant (fun _ _ _ _ hstep h => h.step (step_cases hstep)) (.of_init now)

/-! ## A wake-up -/

/-- What a step does to the completed `WakeUp`s: only the end of `OnEvent` forgets them. -/
theorem unconsumed_cases {s s' : Signaler} (hstep : Stepped s s') :
    s.unconsumed ≤ s'.unconsumed ∨
      s.mutex = some (.onEvent .cleared) ∧
        s' = { s with mutex := none, loop := .recalculating, unconsumed := 0 } := by
  cases hstep with
  | apart _ _ _ hunconsumed _ => exact .inl hunconsumed.ge
  | lock _ => exact .inl le_rfl
  | loopLock _ _ => exact .inl le_rfl
  | critical hcritical =>
    simp only [step] at hcritical
    split at hcritical
    · cases hcritical
    · split at hcritical <;> cases hcritical <;> exact .inl le_rfl
    · cases hcritical
      exact .inl le_rfl
    · cases hcritical
      exact .inl (Nat.le_succ _)
    · split at hcritical <;> cases hcritical <;> exact .inl le_rfl
    · cases hcritical
      exact .inl le_rfl
    · cases hcritical
      exact .inl le_rfl
    · cases hcritical
      exact .inr ⟨by assumption, rfl⟩

/-- A step that leaves no completed `WakeUp` is the end of an `OnEvent`, which has cleared `fWait_`. -/
theorem consumed {s s' : Signaler} {a : SignalerAction} (h : Coalesced s) (hstep : s.step a = some s')
    (hpos : 0 < s.unconsumed) (hnone : s'.unconsumed = 0) :
    s.mutex = some (.onEvent .cleared) ∧ s'.loop = .recalculating ∧ s'.fWait = false ∧ s'.tokens = 0 := by
  rcases unconsumed_cases (step_cases hstep) with hle | ⟨hmutex, he⟩
  · omega
  · simp only [Coalesced, hmutex] at h
    subst he
    exact ⟨hmutex, rfl, h.2.2.2, h.2.2.1⟩

/-- A readable descriptor is told of. -/
theorem process_readable {s s' : Signaler} {revents : BitVec 16} {res : SoError}
    (hloop : s.loop = .processing revents) (hread : meets revents Pollfd.pollIn = true)
    (hstep : s.step (.process res) = some s') : s'.loop = .onEvent := by
  have hreadable : meets revents (Pollfd.pollIn ||| Pollfd.pollPri) = true := meets_bits.mpr (.inl hread)
  have hff : (processPollEvents deRead false revents res).1 ≠ 0 := by
    rw [processPollEvents, hreadable]
    exact processEvents_of_readable _ _ _ _ _ _
  simp only [step, hloop] at hstep
  cases hstep
  exact if_neg hff

/-- A poll of a readable descriptor returns, and not for its timeout. -/
theorem poll_readable {s : Signaler} (hloop : s.loop = .polling) (htokens : s.tokens = 1) :
    s.step (.poll .timeout) = none ∧
      s.step (.poll (.ready Pollfd.pollIn)) = some { s with loop := .processing Pollfd.pollIn } := by
  have hreport : MayReport events 1 Pollfd.pollIn := by decide
  constructor
  · simp [step, hloop, htokens]
  · simp [step, hloop, htokens, hreport]

/-- After an `OnEvent`, `Wait` returns without another `poll`. -/
theorem wait_returns {s s' : Signaler} (hloop : s.loop = .recalculating ∨ s.loop = .head)
    (hwait : s.fWait = false) (hstep : s.step .loop = some s') :
    s'.loop = .outside (some true) ∨ s'.loop = .head ∧ s'.fWait = false := by
  rcases hloop with hloop | hloop
  · simp only [step, hloop] at hstep
    split at hstep
    · cases hstep
      exact .inr ⟨rfl, hwait⟩
    · cases hstep
      simp only
      split
      · exact .inl rfl
      · exact .inr ⟨rfl, hwait⟩
  · simp only [step, hloop, hwait] at hstep
    cases hstep
    exact .inl rfl

/-- **No lost wake-up.** In every run of any number of threads in `WakeUp` and one in `Wait`: with the
    mutex free the flag is set exactly if there is one token, there is never more than one, and the read
    finds it; a `WakeUp` that completed after the last `OnEvent` is readable until the loop thread reads it
    in an `OnEvent`, a `poll` with one neither waits nor times out, what it reports leads to `OnEvent`, and
    the end of `OnEvent`, which clears `fWait_`, is the only step after which there is none; and with
    `fWait_` cleared the wait returns without another `poll`. -/
theorem wakeUp_not_lost {now : Int} {s : Signaler} (hrun : Reaches Signaler.step Always (init now) s) :
    (s.mutex = none → (s.fSignaled = true ↔ s.tokens = 1)) ∧
    s.tokens ≤ 1 ∧
    (s.mutex = some (.onEvent .locked) → s.fSignaled = true → s.tokens = 1) ∧
    (0 < s.unconsumed → s.tokens = 1 ∨ ∃ pc, s.mutex = some (.onEvent pc) ∧ pc ≠ .locked) ∧
    (0 < s.unconsumed → s.loop = .polling → s.step (.poll .timeout) = none ∧
      s.step (.poll (.ready Pollfd.pollIn)) = some { s with loop := .processing Pollfd.pollIn }) ∧
    (∀ revents res s', s.loop = .processing revents → meets revents Pollfd.pollIn = true →
      s.step (.process res) = some s' → s'.loop = .onEvent) ∧
    (∀ a s', s.step a = some s' → 0 < s.unconsumed → s'.unconsumed = 0 →
      s.mutex = some (.onEvent .cleared) ∧ s'.loop = .recalculating ∧ s'.fWait = false ∧ s'.tokens = 0) ∧
    (∀ s', s.loop = .recalculating ∨ s.loop = .head → s.fWait = false → s.step .loop = some s' →
      s'.loop = .outside (some true) ∨ s'.loop = .head ∧ s'.fWait = false) := by
  have h := coalesced_of_reaches hrun
  refine ⟨h.flag_iff, h.tokens_le, h.read_finds, h.readable, fun hpos hloop => ?_,
    fun revents res s' hloop hread hstep => process_readable hloop hread hstep,
    fun a s' hstep hpos hnone => consumed h hstep hpos hnone,
    fun s' hloop hwait hstep => wait_returns hloop hwait hstep⟩
  rcases h.readable hpos with htokens | ⟨pc, hmutex, -⟩
  · exact poll_readable hloop htokens
  · rw [h.loop_eq hmutex] at hloop
    cases hloop

/-- Two threads wake the loop thread before it waits, and one again while it is on its way out: the next
    `Wait` polls a readable descriptor. -/
def betweenWaitsRun : List SignalerAction :=
  [.wakeUp 1, .wakeUp 2, .lock 2, .critical, .critical, .critical, .lock 1, .critical, .critical,
    .wait 1000, .loop, .loop, .poll .interrupted, .loop, .loop, .poll (.ready Pollfd.pollIn),
    .process (.failed true), .loop, .critical, .critical, .critical, .critical,
    .wakeUp 1, .lock 1, .critical, .critical, .critical, .loop, .loop,
    .wait EvenLoop.kForeverMs, .loop, .loop]

theorem wakeUp_not_lost_betweenWaits :
    ∃ s, Reaches Signaler.step Always (init 0) s ∧ s.loop = .polling ∧ s.fWait = true ∧ s.unconsumed = 1 ∧
      s.tokens = 1 ∧ s.step (.poll .timeout) = none := by
  have hrun : (runWhile Signaler.step Always (init 0) betweenWaitsRun).isSome = true := by decide
  have hreach := reaches_get hrun
  obtain ⟨-, -, -, -, hpoll, -⟩ := wakeUp_not_lost hreach
  exact ⟨_, hreach, rfl, rfl, rfl, rfl, (hpoll Nat.one_pos rfl).1⟩

end Signaler

end IoBase
