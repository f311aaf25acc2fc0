import IoBase.EventAccess
import IoBase.OsTimeout

/- The `Event done` of a blocking call.

   It is on the stack of the caller. The closure that the caller posts has a reference to it and sets it
   when it is destroyed: by the thread that has run it, by one that drops it, or by the caller itself
   where the loop does not take it. The event is destroyed once its `Wait` has returned. A thread that
   is still in `Set` then would use it after its end, so the calls are told access by access here.

   Correspondence (C++ ↔ Lean):
     `Event done`                          ↔ `DoneEvent.init`
     `functor()` in the closure            ↔ `DoneAction.run`
     the end of the closure, `done.Set()`  ↔ `.destroy`, and the accesses of its thread
     `done.Wait(Event::kForever)`          ↔ `.wait`, and the accesses of the caller
     the end of `done`                     ↔ `.leave`

   * `done_outlives_set`: when the event is destroyed the `Set` is over and nobody is in it; once the
     closure is destroyed somebody can always go on; and ten steps after the flag is stored the caller
     is gone. -/
namespace IoBase
open Transition AbslDuration LawfulDuration WaitDuration

/-- `Event::kDefaultWarnDuration`, the warning of a `Wait` without a limit. -/
def kDefaultWarnDuration {D : Type} [AbslDuration D] : D := microseconds 3000000

/-- The closure of the call. -/
inductive DoneTask where
  | held
  | running (i : Nat)
  | destroyed (i : Nat)
  deriving DecidableEq, Repr

inductive DoneCaller where
  | posting
  | waiting
  | gone
  deriving DecidableEq, Repr

structure DoneEvent where
  event : EventAccess
  task : DoneTask
  caller : DoneCaller

inductive DoneAction where
  /-- The loop thread, which is not the caller, runs the functor. -/
  | run (i : Nat)
  | destroy (i : Nat)
  | wait (now₁ now₂ : Timespec)
  | access (i : Nat)
  | wake (i : Nat) (error : CondError)
  | leave

namespace DoneEvent

def init : DoneEvent where
  event := .init false false
  task := .held
  caller := .posting

/-- The event takes a step. -/
def onEvent {D : Type} [AbslDuration D] (s : DoneEvent) (a : AccessAction D) (task : DoneTask)
    (caller : DoneCaller) : Option DoneEvent :=
  (s.event.step a).map fun event => { event, task, caller }

/-- The event goes on to be used after `leave` as before. -/
def step (D : Type) [AbslDuration D] (c : Nat) (s : DoneEvent) : DoneAction → Option DoneEvent
  | .run i => if s.task = .held ∧ i ≠ c then some { s with task := .running i } else none
  | .destroy i =>
    if s.task = .held ∨ s.task = .running i then s.onEvent (D := D) (.set i) (.destroyed i) s.caller else none
  | .wait now₁ now₂ =>
    if s.caller = .posting then
      s.onEvent (.wait c (infiniteDuration : D) kDefaultWarnDuration now₁ now₂) s.task .waiting
    else none
  | .access i => s.onEvent (D := D) (.access i) s.task s.caller
  | .wake i error => s.onEvent (D := D) (.wake i error) s.task s.caller
  | .leave =>
    if s.caller = .waiting ∧ s.event.threads c = .outside then some { s with caller := .gone } else none

/-- The wait for the condition variable is until something that is no instant. -/
def invalidDeadline : AccessPc → Bool
  | .sleeping call _ => call.timeoutTs.any fun ts => !decide ts.Normal
  | _ => false

/-- The clock shows an instant, and a wait for a condition variable fails only where its deadline is none. -/
def Documented (s : DoneEvent) : DoneAction → Prop
  | .wait now₁ _ => now₁.Normal
  | .wake i error => error = .other → invalidDeadline (s.event.threads i) = true
  | _ => True

instance (s : DoneEvent) (a : DoneAction) : Decidable (Documented s a) :=
  match a with
  | .wait now₁ _ => inferInstanceAs (Decidable now₁.Normal)
  | .wake i error => inferInstanceAs (Decidable (error = .other → invalidDeadline (s.event.threads i) = true))
  | .run _ | .destroy _ | .access _ | .leave => inferInstanceAs (Decidable True)

end DoneEvent

/-! ## The places of the two threads -/

namespace AccessPc

/-- A thread is in `Set`. -/
def inSet : AccessPc → Bool
  | .setting | .setLocked | .setStored | .setBroadcast => true
  | _ => false

/-- It has yet to store the flag. -/
def beforeStore : AccessPc → Bool
  | .setting | .setLocked => true
  | _ => false

theorem inSet_of_beforeStore {pc : AccessPc} (h : pc.beforeStore = true) : pc.inSet = true := by
  cases pc <;> first | rfl | cases h

theorem beforeStore_of_not_inSet {pc : AccessPc} (h : pc.inSet = false) : pc.beforeStore = false := by
  cases pc <;> first | rfl | cases h

/-- From the store to the end of `Set` a thread has the mutex. -/
theorem hasMutex_of_stored {pc : AccessPc} (hset : pc.inSet = true) (hbefore : pc.beforeStore = false) :
    pc.hasMutex = true := by
  cases pc with
  | setStored | setBroadcast => rfl
  | setting | setLocked => cases hbefore
  | _ => cases hset

@[simp] theorem inSet_notify (pc : AccessPc) : pc.notify.inSet = pc.inSet := by
  cases pc <;> rfl

@[simp] theorem beforeStore_notify (pc : AccessPc) : pc.notify.beforeStore = pc.beforeStore := by
  cases pc <;> rfl

end AccessPc

namespace DoneEvent

/-- A call of the lambda in a `Wait` without a limit. -/
def Unlimited : WaitCall → Prop
  | .warn warnTs giveUpTs => warnTs.Normal ∧ giveUpTs = none
  | .giveUp giveUpTs => giveUpTs = none

/-- What such a call is told by the condition variable. -/
def Told (call : WaitCall) (error : CondError) : Prop :=
  error = .ok ∨ error = .timedOut ∧ call.timeoutTs ≠ none

/-- The `Set` is called, and has stored the flag. -/
def Stored (s : DoneEvent) : Prop := ∃ i, s.task = .destroyed i ∧ (s.event.threads i).beforeStore = false

/-- The `Set` is over. -/
def SetOver (s : DoneEvent) : Prop := ∃ i, s.task = .destroyed i ∧ (s.event.threads i).inSet = false

/-- Where the caller is in its `Wait`, and what is known of the event there. -/
def InWait (s : DoneEvent) : AccessPc → Prop
  | .waiting warnTs giveUpTs => Unlimited (firstCall warnTs giveUpTs)
  | .looping call error | .waking call error => Unlimited call ∧ Told call error
  | .sleeping call _ => Unlimited call
  | .looped error => error = .ok ∧ s.event.eventStatus = true
  | .returning error => error = .ok ∧ SetOver s
  | _ => False

/-- The caller has taken the flag. -/
def Returned (c : Nat) (s : DoneEvent) : Prop :=
  (∃ error, s.event.threads c = .returning error) ∨ s.caller ≠ .posting ∧ s.event.threads c = .outside

structure Inv (c : Nat) (s : DoneEvent) : Prop where
  manual : s.event.isManualReset = false
  setter : ∀ i, (s.event.threads i).inSet = true → s.task = .destroyed i
  waiter : ∀ i, s.event.threads i ≠ .outside → (s.event.threads i).inSet = false →
    i = c ∧ s.caller = .waiting ∧ InWait s (s.event.threads i)
  flag : s.event.eventStatus = true → Stored s
  taken : Stored s → s.event.eventStatus = false → Returned c s
  back : s.caller ≠ .posting → s.event.threads c = .outside → SetOver s
  gone : s.caller = .gone → s.event.threads c = .outside

theorem SetOver.stored {s : DoneEvent} (h : SetOver s) : Stored s := by
  obtain ⟨i, htask, hset⟩ := h
  exact ⟨i, htask, AccessPc.beforeStore_of_not_inSet hset⟩

theorem inv_init (c : Nat) : Inv c init where
  manual := rfl
  setter := fun _ h => by cases h
  waiter := fun _ h => absurd rfl h
  flag := fun h => by cases h
  taken := fun h => by
    obtain ⟨i, htask, -⟩ := h
    cases htask
  back := fun h => absurd rfl h
  gone := fun h => by cases h

/-! ## The sections of the event -/

section
variable {D : Type} [AbslDuration D] {c : Nat} {s s' : DoneEvent}

theorem onEvent_eq_some {a : AccessAction D} {task : DoneTask} {caller : DoneCaller} :
    s.onEvent a task caller = some s' ↔
      ∃ event, s.event.step a = some event ∧ s' = ⟨event, task, caller⟩ := by
  simp only [onEvent, Option.map_eq_some_iff, eq_comm (a := s')]

/-- A step leaves the event alone, or is a step of it. -/
theorem event_step {a : DoneAction} (hstep : step D c s a = some s') :
    s'.event = s.event ∨ ∃ b : AccessAction D, s.event.step b = some s'.event := by
  have hevent : ∀ {b : AccessAction D} {task : DoneTask} {caller : DoneCaller},
      s.onEvent b task caller = some s' → ∃ b : AccessAction D, s.event.step b = some s'.event := by
    intro b task caller h
    obtain ⟨event, hb, rfl⟩ := onEvent_eq_some.mp h
    exact ⟨b, hb⟩
  cases a with
  | run i =>
    simp only [step] at hstep
    split at hstep <;> cases hstep
    exact .inl rfl
  | destroy i =>
    simp only [step] at hstep
    split at hstep
    · exact .inr (hevent hstep)
    · cases hstep
  | wait now₁ now₂ =>
    simp only [step] at hstep
    split at hstep
    · exact .inr (hevent hstep)
    · cases hstep
  | access i => exact .inr (hevent hstep)
  | wake i error => exact .inr (hevent hstep)
  | leave =>
    simp only [step] at hstep
    split at hstep <;> cases hstep
    exact .inl rfl

/-- The accesses are those of sections, where nobody sleeps unnotified beside a set flag. -/
theorem sections_of_run (hrun : Reaches (step D c) Documented init s) :
    ∃ e, EventAccess.Refines s.event e ∧ NobodyForgotten e := by
  refine hrun.invariant (P := fun s => ∃ e, EventAccess.Refines s.event e ∧ NobodyForgotten e)
    (fun s a s' _ hstep ih => ?_) ⟨_, EventAccess.refines_init false false, fun h => by cases h⟩
  obtain ⟨e, hrefines, hnobody⟩ := ih
  obtain hsame | ⟨b, hb⟩ := event_step hstep
  · exact ⟨e, hsame ▸ hrefines, hnobody⟩
  · obtain ⟨hnext, -⟩ | ⟨b', e', hb', -, hnext⟩ := EventAccess.refines_step hb hrefines
    · exact ⟨e, hnext, hnobody⟩
    · exact ⟨e', hnext, nobodyForgotten_step hb' hnobody⟩

/-! ## One step -/

/-- A thread moves, and a broadcast may reach the others. -/
structure Moves (i : Nat) (pc : AccessPc) (s s' : DoneEvent) : Prop where
  at_thread : s'.event.threads i = pc
  others : ∀ j, j ≠ i → s'.event.threads j = s.event.threads j ∨ s'.event.threads j = (s.event.threads j).notify
  manual : s'.event.isManualReset = s.event.isManualReset

theorem Moves.inSet_others {i j : Nat} {pc : AccessPc} (h : Moves i pc s s') (hji : j ≠ i) :
    (s'.event.threads j).inSet = (s.event.threads j).inSet := by
  obtain hj | hj := h.others j hji
  · rw [hj]
  · rw [hj, AccessPc.inSet_notify]

theorem Moves.beforeStore_others {i j : Nat} {pc : AccessPc} (h : Moves i pc s s') (hji : j ≠ i) :
    (s'.event.threads j).beforeStore = (s.event.threads j).beforeStore := by
  obtain hj | hj := h.others j hji
  · rw [hj]
  · rw [hj, AccessPc.beforeStore_notify]

theorem Moves.outside_others {i j : Nat} {pc : AccessPc} (h : Moves i pc s s') (hji : j ≠ i) :
    s'.event.threads j = .outside ↔ s.event.threads j = .outside := by
  obtain hj | hj := h.others j hji
  · rw [hj]
  · rw [hj]
    cases s.event.threads j <;> exact ⟨fun heq => (by cases heq; try rfl), fun heq => (by cases heq; try rfl)⟩

/-- What is known where the caller waits stays known, unless a flag that it has seen is reset. -/
theorem InWait.keep {pc : AccessPc} (h : InWait s pc) (hover : SetOver s → SetOver s')
    (hflag : s.event.eventStatus = true → s'.event.eventStatus = true) : InWait s' pc ∧ InWait s' pc.notify := by
  cases pc with
  | waiting _ _ | looping _ _ | waking _ _ | sleeping _ _ => exact ⟨h, h⟩
  | looped error => exact ⟨⟨h.1, hflag h.2⟩, ⟨h.1, hflag h.2⟩⟩
  | returning error => exact ⟨⟨h.1, hover h.2⟩, ⟨h.1, hover h.2⟩⟩
  | _ => exact h.elim

/-- Where the setter is when it is past a point of `Set`, it is so after a thread that is past it has moved. -/
theorem Moves.setOver {i : Nat} {pc : AccessPc} (h : Moves i pc s s') (htask : s'.task = s.task)
    (hpc : (s.event.threads i).inSet = false → pc.inSet = false) (hover : SetOver s) : SetOver s' := by
  obtain ⟨k, hk, hset⟩ := hover
  refine ⟨k, htask.trans hk, ?_⟩
  by_cases hki : k = i
  · rw [hki] at hset ⊢
    rw [h.at_thread]
    exact hpc hset
  · rw [h.inSet_others hki]
    exact hset

/-- The invariant when a thread moves and the closure stays as it is. -/
theorem Inv.move {i : Nat} {pc : AccessPc} (h : Inv c s) (hmoves : Moves i pc s s') (htask : s'.task = s.task)
    (hset : pc.inSet = true → s.task = .destroyed i)
    (hpast : (s.event.threads i).inSet = false → pc.inSet = false)
    (hwait : pc ≠ .outside → pc.inSet = false → i = c ∧ s'.caller = .waiting ∧ InWait s' pc)
    (hcaller : s'.caller = s.caller ∨ i = c)
    (hflag : s'.event.eventStatus = true → Stored s')
    (hkeep : i ≠ c → s.event.eventStatus = true → s'.event.eventStatus = true)
    (htaken : Stored s' → s'.event.eventStatus = false → Returned c s')
    (hback : i = c → s'.caller ≠ .posting → pc = .outside → SetOver s')
    (hgone : i = c → s'.caller ≠ .gone) : Inv c s' := by
  have hover : SetOver s → SetOver s' := hmoves.setOver htask hpast
  refine ⟨hmoves.manual.trans h.manual, fun j hj => ?_, fun j hj hout => ?_, hflag, htaken,
    fun hposting hout => ?_, fun hgone' => ?_⟩
  · by_cases hji : j = i
    · rw [hji, hmoves.at_thread] at hj
      rw [hji, htask]
      exact hset hj
    · rw [hmoves.inSet_others hji] at hj
      rw [htask]
      exact h.setter j hj
  · by_cases hji : j = i
    · rw [hji, hmoves.at_thread] at hj hout ⊢
      exact hwait hj hout
    · rw [hmoves.inSet_others hji] at hout
      obtain ⟨rfl, hwaiting, hin⟩ := h.waiter j (fun heq => hj ((hmoves.outside_others hji).mpr heq)) hout
      have hsame := hcaller.resolve_right (Ne.symm hji)
      obtain ⟨hkept, hnotified⟩ := hin.keep hover (hkeep (Ne.symm hji))
      refine ⟨rfl, hsame.trans hwaiting, ?_⟩
      obtain heq | heq := hmoves.others j hji
      · rw [heq]
        exact hkept
      · rw [heq]
        exact hnotified
  · by_cases hci : i = c
    · rw [← hci, hmoves.at_thread] at hout
      exact hback hci hposting hout
    · have hsame := hcaller.resolve_right hci
      rw [hsame] at hposting
      exact hover (h.back hposting ((hmoves.outside_others (Ne.symm hci)).mp hout))
  · by_cases hci : i = c
    · exact absurd hgone' (hgone hci)
    · have hsame := hcaller.resolve_right hci
      exact (hmoves.outside_others (Ne.symm hci)).mpr (h.gone (hsame ▸ hgone'))

theorem Inv.over_of_returned (h : Inv c s) (hreturned : Returned c s) : SetOver s := by
  obtain ⟨error, hpc⟩ | ⟨hposting, hout⟩ := hreturned
  · obtain ⟨-, -, hin⟩ := h.waiter c (by simp [hpc]) (by rw [hpc]; rfl)
    rw [hpc] at hin
    exact hin.2
  · exact h.back hposting hout

/-- The flag that the `Set` has stored is there until the caller takes it. -/
theorem Inv.flag_of_stored (h : Inv c s) (hstored : Stored s) (hnot : ¬ Returned c s) :
    s.event.eventStatus = true := by
  rw [← Bool.not_eq_false]
  exact fun hflag => hnot (h.taken hstored hflag)

/-- While a thread is in `Set`, the `Set` is not over. -/
theorem Inv.not_over (h : Inv c s) {i : Nat} (hin : (s.event.threads i).inSet = true) : ¬ SetOver s := by
  intro hover
  obtain ⟨k, hk, hset⟩ := hover
  obtain rfl : k = i := DoneTask.destroyed.inj (hk.symm.trans (h.setter i hin))
  rw [hin] at hset
  cases hset

/-- A thread goes on in `Set`, or comes to its end. -/
theorem Inv.move_setter {i : Nat} {pc : AccessPc} (h : Inv c s) (hmoves : Moves i pc s s')
    (htask : s'.task = s.task) (hcaller : s'.caller = s.caller) (hin : (s.event.threads i).inSet = true)
    (hto : pc.inSet = true ∨ pc = .outside)
    (hmono : (s.event.threads i).beforeStore = false → pc.beforeStore = false)
    (hflag : s'.event.eventStatus = !pc.beforeStore) : Inv c s' := by
  have hdestroyed := h.setter i hin
  have hstored : Stored s' → pc.beforeStore = false := by
    intro hx
    obtain ⟨k, hk, hbefore⟩ := hx
    obtain rfl : k = i := DoneTask.destroyed.inj ((htask.symm.trans hk).symm.trans hdestroyed)
    rwa [hmoves.at_thread] at hbefore
  refine h.move hmoves htask (fun _ => hdestroyed) (fun hout => ?_) (fun hpc hout => ?_) (.inl hcaller)
    (fun hset => ?_) (fun _ hset => ?_) (fun hx hset => ?_) (fun _ _ hpc => ?_) (fun hci hgone => ?_)
  · rw [hin] at hout
    cases hout
  · obtain hto | hto := hto
    · rw [hto] at hout
      cases hout
    · exact absurd hto hpc
  · refine ⟨i, htask.trans hdestroyed, ?_⟩
    rw [hmoves.at_thread]
    rw [hflag] at hset
    simpa using hset
  · obtain ⟨k, hk, hbefore⟩ := h.flag hset
    obtain rfl : k = i := DoneTask.destroyed.inj (hk.symm.trans hdestroyed)
    rw [hflag, hmono hbefore]
    rfl
  · rw [hflag, hstored hx] at hset
    cases hset
  · refine ⟨i, htask.trans hdestroyed, ?_⟩
    rw [hmoves.at_thread, hpc]
    rfl
  · rw [hci, h.gone (hcaller ▸ hgone)] at hin
    cases hin

/-- The caller goes on in its `Wait`, and the flag stays. -/
theorem Inv.move_waiter {pc : AccessPc} (h : Inv c s) (hmoves : Moves c pc s s') (htask : s'.task = s.task)
    (hcaller : s'.caller = .waiting) (hstatus : s'.event.eventStatus = s.event.eventStatus)
    (hfrom : (s.event.threads c).inSet = false) (hto : pc.inSet = false) (hnot : ¬ Returned c s)
    (hpc : pc ≠ .outside) (hin : InWait s' pc) : Inv c s' := by
  have hstored : Stored s ↔ Stored s' := by
    have hpast : ∀ k, (s'.event.threads k).beforeStore = (s.event.threads k).beforeStore := by
      intro k
      by_cases hkc : k = c
      · rw [hkc, hmoves.at_thread, AccessPc.beforeStore_of_not_inSet hto, AccessPc.beforeStore_of_not_inSet hfrom]
      · exact hmoves.beforeStore_others hkc
    simp only [Stored, htask, hpast]
  refine h.move hmoves htask (fun hset => ?_) (fun _ => hto) (fun _ _ => ⟨rfl, hcaller, hin⟩) (.inr rfl)
    (fun hset => ?_) (fun hcc => absurd rfl hcc) (fun hx hset => ?_) (fun _ _ hout => absurd hout hpc)
    (fun _ hgone => ?_)
  · rw [hto] at hset
    cases hset
  · rw [hstatus] at hset
    exact hstored.mp (h.flag hset)
  · rw [hstatus, h.flag_of_stored (hstored.mpr hx) hnot] at hset
    cases hset
  · rw [hcaller] at hgone
    cases hgone

/-- The event with a thread that has moved, whatever became of the flag and the mutex. -/
theorem moves_setThread {event : EventAccess} {i : Nat} {pc : AccessPc} {task : DoneTask} {caller : DoneCaller}
    (hthreads : event.threads = s.event.threads) (hmanual : event.isManualReset = s.event.isManualReset) :
    Moves i pc s ⟨event.setThread i pc, task, caller⟩ where
  at_thread := Function.update_self ..
  others := fun j hji => .inl (by rw [← hthreads]; exact Function.update_of_ne hji _ _)
  manual := hmanual

/-- From the lambda on, with the error that it has returned. -/
def afterLoop : WaitCall → CondError → AccessPc
  | .giveUp _, error => .looped error
  | .warn _ giveUpTs, error => if error = .timedOut then .looping (.giveUp giveUpTs) .ok else .looped error

/-- Where an access leads its thread, with the flag before it and after it. -/
inductive Goes (isManualReset flag : Bool) : AccessPc → AccessPc → Bool → Prop where
  | lockSet : Goes isManualReset flag .setting .setLocked flag
  | store : Goes isManualReset flag .setLocked .setStored true
  | broadcast : Goes isManualReset flag .setStored .setBroadcast flag
  | unlockSet : Goes isManualReset flag .setBroadcast .outside flag
  | lockReset : Goes isManualReset flag .resetting .resetLocked flag
  | clear : Goes isManualReset flag .resetLocked .resetStored false
  | unlockReset : Goes isManualReset flag .resetStored .outside flag
  | lockWait (warnTs giveUpTs : Option Timespec) :
      Goes isManualReset flag (.waiting warnTs giveUpTs) (.looping (firstCall warnTs giveUpTs) .ok) flag
  | lockWoken (call : WaitCall) (error : CondError) :
      Goes isManualReset flag (.waking call error) (.looping call error) flag
  | sleep (call : WaitCall) {error : CondError} : waitLoop flag error = none →
      Goes isManualReset flag (.looping call error) (.sleeping call false) flag
  | loop (call : WaitCall) {error error' : CondError} : waitLoop flag error = some error' →
      Goes isManualReset flag (.looping call error) (afterLoop call error') flag
  | take (error : CondError) :
      Goes isManualReset flag (.looped error) (.returning error)
        (if error = .ok ∧ isManualReset = false then false else flag)
  | unlockWait (error : CondError) : Goes isManualReset flag (.returning error) .outside flag

/-- An access, by where it leads its thread. -/
theorem goes_of_access {i : Nat} {event : EventAccess} (hstep : s.event.access i = some event) :
    ∃ pc, Goes s.event.isManualReset s.event.eventStatus (s.event.threads i) pc event.eventStatus ∧
      Moves i pc s ⟨event, s.task, s.caller⟩ := by
  cases hpc : s.event.threads i with
  | outside | sleeping _ _ =>
    simp only [EventAccess.access, hpc] at hstep
    cases hstep
  | setting =>
    simp only [EventAccess.access, hpc] at hstep
    obtain ⟨-, rfl⟩ := EventAccess.lock_eq_some hstep
    exact ⟨_, .lockSet, moves_setThread rfl rfl⟩
  | resetting =>
    simp only [EventAccess.access, hpc] at hstep
    obtain ⟨-, rfl⟩ := EventAccess.lock_eq_some hstep
    exact ⟨_, .lockReset, moves_setThread rfl rfl⟩
  | waiting warnTs giveUpTs =>
    simp only [EventAccess.access, hpc] at hstep
    obtain ⟨-, rfl⟩ := EventAccess.lock_eq_some hstep
    exact ⟨_, .lockWait warnTs giveUpTs, moves_setThread rfl rfl⟩
  | waking call error =>
    simp only [EventAccess.access, hpc] at hstep
    obtain ⟨-, rfl⟩ := EventAccess.lock_eq_some hstep
    exact ⟨_, .lockWoken call error, moves_setThread rfl rfl⟩
  | setLocked =>
    simp only [EventAccess.access, hpc] at hstep
    cases hstep
    exact ⟨_, .store, moves_setThread rfl rfl⟩
  | setStored =>
    simp only [EventAccess.access, hpc] at hstep
    cases hstep
    -- the broadcast notifies the others
    exact ⟨_, .broadcast, Function.update_self .., fun j hji => .inr (Function.update_of_ne hji _ _), rfl⟩
  | setBroadcast =>
    simp only [EventAccess.access, hpc] at hstep
    cases hstep
    exact ⟨_, .unlockSet, moves_setThread rfl rfl⟩
  | resetLocked =>
    simp only [EventAccess.access, hpc] at hstep
    cases hstep
    exact ⟨_, .clear, moves_setThread rfl rfl⟩
  | resetStored =>
    simp only [EventAccess.access, hpc] at hstep
    cases hstep
    exact ⟨_, .unlockReset, moves_setThread rfl rfl⟩
  | looping call error =>
    simp only [EventAccess.access, hpc] at hstep
    cases hloop : waitLoop s.event.eventStatus error with
    | none =>
      simp only [hloop] at hstep
      cases hstep
      exact ⟨_, .sleep call hloop, moves_setThread rfl rfl⟩
    | some error' =>
      simp only [hloop] at hstep
      cases call with
      | giveUp giveUpTs =>
        cases hstep
        exact ⟨_, .loop (.giveUp giveUpTs) hloop, moves_setThread rfl rfl⟩
      | warn warnTs giveUpTs =>
        cases hstep
        exact ⟨_, .loop (.warn warnTs giveUpTs) hloop, moves_setThread rfl rfl⟩
  | looped error =>
    simp only [EventAccess.access, hpc] at hstep
    cases hstep
    exact ⟨_, .take error, moves_setThread rfl rfl⟩
  | returning error =>
    simp only [EventAccess.access, hpc] at hstep
    cases hstep
    exact ⟨_, .unlockWait error, moves_setThread rfl rfl⟩

theorem inSet_afterLoop (call : WaitCall) (error : CondError) : (afterLoop call error).inSet = false := by
  cases call with
  | giveUp _ => rfl
  | warn _ _ => cases error <;> rfl

theorem afterLoop_ne_outside (call : WaitCall) (error : CondError) : afterLoop call error ≠ .outside := by
  cases call with
  | giveUp _ => exact fun hx => by cases hx
  | warn _ _ => cases error <;> exact fun hx => by cases hx

/-- Beside a thread that has stored the flag in its `Set`, the flag is set. -/
theorem Inv.flag_of_inSet (h : Inv c s) {i : Nat} (hin : (s.event.threads i).inSet = true)
    (hbefore : (s.event.threads i).beforeStore = false) : s.event.eventStatus = true :=
  h.flag_of_stored ⟨i, h.setter i hin, hbefore⟩ fun hreturned => h.not_over hin (h.over_of_returned hreturned)

/-- Before that it is not. -/
theorem Inv.flag_of_beforeStore (h : Inv c s) {i : Nat} (hbefore : (s.event.threads i).beforeStore = true) :
    s.event.eventStatus = false := by
  rw [← Bool.not_eq_true]
  intro hset
  obtain ⟨k, hk, hpast⟩ := h.flag hset
  have hdestroyed := h.setter i (AccessPc.inSet_of_beforeStore hbefore)
  obtain rfl : k = i := DoneTask.destroyed.inj (hk.symm.trans hdestroyed)
  rw [hbefore] at hpast
  cases hpast

theorem not_returned {pc : AccessPc} (hpc : s.event.threads c = pc) (hout : pc ≠ .outside)
    (hreturning : ∀ error, pc ≠ .returning error) : ¬ Returned c s := by
  intro hreturned
  obtain ⟨error, heq⟩ | ⟨-, heq⟩ := hreturned
  · exact hreturning error (hpc.symm.trans heq)
  · exact hout (hpc.symm.trans heq)

/-- When the caller has seen the flag, the thread that has stored it is gone from the event. -/
theorem Inv.over_of_looped (h : Inv c s) (hmutex : EventAccess.MutexInv s.event) {error : CondError}
    (hpc : s.event.threads c = .looped error) : SetOver s := by
  obtain ⟨-, -, hin⟩ := h.waiter c (by simp [hpc]) (by rw [hpc]; rfl)
  rw [hpc] at hin
  obtain ⟨k, hk, hbefore⟩ := h.flag hin.2
  refine ⟨k, hk, ?_⟩
  rw [← Bool.not_eq_true]
  intro hset
  -- past its store it would have the mutex, which the caller has
  have hhas := AccessPc.hasMutex_of_stored hset hbefore
  have howner := (hmutex c).mp (by rw [hpc]; rfl)
  obtain rfl : c = k := Option.some.inj (howner.symm.trans ((hmutex k).mp hhas))
  rw [hpc] at hset
  cases hset

theorem waitLoop_eq {eventStatus : Bool} {error error' : CondError}
    (h : waitLoop eventStatus error = some error') : error' = error ∧ (error = .ok → eventStatus = true) := by
  simp only [waitLoop] at h
  split at h
  · cases h
  · rename_i hnot
    refine ⟨(Option.some.inj h).symm, fun hok => ?_⟩
    rw [hok] at hnot
    simpa using hnot

/-- A `Wait` without a limit comes to the end of the lambda by the flag, and to its second call by the
    warning. -/
theorem inWait_of_loop {call : WaitCall} {error error' : CondError} (hcall : Unlimited call)
    (htold : Told call error) (hloop : waitLoop s.event.eventStatus error = some error') :
    InWait s (afterLoop call error') := by
  obtain ⟨rfl, hset⟩ := waitLoop_eq hloop
  obtain rfl | ⟨rfl, hts⟩ := htold
  · cases call with
    | giveUp giveUpTs => exact ⟨rfl, hset rfl⟩
    | warn warnTs giveUpTs => exact ⟨rfl, hset rfl⟩
  · cases call with
    | giveUp giveUpTs => exact absurd hcall hts
    | warn warnTs giveUpTs => exact ⟨hcall.2, .inl rfl⟩

theorem Inv.access (h : Inv c s) (hmutex : EventAccess.MutexInv s.event) {i : Nat} {event : EventAccess}
    (hstep : s.event.access i = some event) : Inv c ⟨event, s.task, s.caller⟩ := by
  obtain ⟨pc, hgoes, hmoves⟩ := goes_of_access hstep
  have hwait : (s.event.threads i).inSet = false → s.event.threads i ≠ .outside → i = c ∧ s.caller = .waiting ∧
      InWait s (s.event.threads i) := fun hset hout => h.waiter i hout hset
  generalize hpc : s.event.threads i = start at hgoes hwait
  generalize hflag : event.eventStatus = flag at hgoes
  cases hgoes with
  | lockSet =>
    have hclear := h.flag_of_beforeStore (i := i) (by rw [hpc]; rfl)
    refine h.move_setter hmoves rfl rfl (by rw [hpc]; rfl) (.inl rfl) (fun hbefore => ?_) (hflag.trans hclear)
    rw [hpc] at hbefore
    cases hbefore
  | store => exact h.move_setter hmoves rfl rfl (by rw [hpc]; rfl) (.inl rfl) (fun _ => rfl) hflag
  | broadcast =>
    have hset := h.flag_of_inSet (i := i) (by rw [hpc]; rfl) (by rw [hpc]; rfl)
    exact h.move_setter hmoves rfl rfl (by rw [hpc]; rfl) (.inl rfl) (fun _ => rfl) (hflag.trans hset)
  | unlockSet =>
    have hset := h.flag_of_inSet (i := i) (by rw [hpc]; rfl) (by rw [hpc]; rfl)
    exact h.move_setter hmoves rfl rfl (by rw [hpc]; rfl) (.inr rfl) (fun _ => rfl) (hflag.trans hset)
  | lockReset | clear | unlockReset => exact (hwait rfl (by simp)).2.2.elim
  | lockWait warnTs giveUpTs =>
    obtain ⟨rfl, hcaller, hin⟩ := hwait rfl (by simp)
    have hnot := not_returned hpc (by simp) (by simp)
    exact h.move_waiter hmoves rfl hcaller hflag (by rw [hpc]; rfl) rfl hnot (by simp) ⟨hin, .inl rfl⟩
  | lockWoken call error =>
    obtain ⟨rfl, hcaller, hin⟩ := hwait rfl (by simp)
    have hnot := not_returned hpc (by simp) (by simp)
    exact h.move_waiter hmoves rfl hcaller hflag (by rw [hpc]; rfl) rfl hnot (by simp) hin
  | sleep call _ =>
    obtain ⟨rfl, hcaller, hcall, -⟩ := hwait rfl (by simp)
    have hnot := not_returned hpc (by simp) (by simp)
    exact h.move_waiter hmoves rfl hcaller hflag (by rw [hpc]; rfl) rfl hnot (by simp) hcall
  | @loop call error error' hloop =>
    obtain ⟨rfl, hcaller, hcall, htold⟩ := hwait rfl (by simp)
    have hset := inSet_afterLoop call error'
    have hin := (inWait_of_loop hcall htold hloop).keep (hmoves.setOver rfl fun _ => hset) hflag.trans
    exact h.move_waiter hmoves rfl hcaller hflag (by rw [hpc]; rfl) hset (not_returned hpc (by simp) (by simp))
      (afterLoop_ne_outside call error') hin.1
  | take error =>
    obtain ⟨rfl, hcaller, rfl, -⟩ := hwait rfl (by simp)
    have hover := hmoves.setOver rfl (fun _ => rfl) (h.over_of_looped hmutex hpc)
    exact h.move hmoves rfl (fun hx => by cases hx) (fun _ => rfl) (fun _ _ => ⟨rfl, hcaller, rfl, hover⟩)
      (.inr rfl) (fun _ => hover.stored) (fun hii => absurd rfl hii) (fun _ _ => .inl ⟨.ok, hmoves.at_thread⟩)
      (fun _ _ hx => by cases hx) (fun _ hx => by rw [hcaller] at hx; cases hx)
  | unlockWait error =>
    obtain ⟨rfl, hcaller, rfl, hover⟩ := hwait rfl (by simp)
    have hover := hmoves.setOver rfl (fun _ => rfl) hover
    have hposting : s.caller ≠ .posting := by
      rw [hcaller]
      simp
    exact h.move hmoves rfl (fun hx => by cases hx) (fun _ => rfl) (fun hx => absurd rfl hx) (.inr rfl)
      (fun _ => hover.stored) (fun hii => absurd rfl hii) (fun _ _ => .inr ⟨hposting, hmoves.at_thread⟩)
      (fun _ _ _ => hover) (fun _ hx => by rw [hcaller] at hx; cases hx)

theorem Inv.wake (h : Inv c s) {i : Nat} {error : CondError} {event : EventAccess}
    (hok : Documented s (.wake i error)) (hstep : s.event.step (.wake i error : AccessAction D) = some event) :
    Inv c ⟨event, s.task, s.caller⟩ := by
  simp only [EventAccess.step] at hstep
  split at hstep
  · rename_i call notified hpc
    split at hstep <;> cases hstep
    rename_i hmay
    obtain ⟨rfl, hcaller, hin⟩ := h.waiter i (by simp [hpc]) (by rw [hpc]; rfl)
    rw [hpc] at hin
    have htold : Told call error := by
      cases error with
      | ok => exact .inl rfl
      | timedOut => exact .inr ⟨rfl, fun hts => hmay ⟨rfl, hts⟩⟩
      | other =>
        have hinvalid := hok rfl
        rw [hpc] at hinvalid
        cases call with
        | warn warnTs giveUpTs => simp [invalidDeadline, WaitCall.timeoutTs, hin.1] at hinvalid
        | giveUp giveUpTs =>
          obtain rfl : giveUpTs = none := hin
          cases hinvalid
    exact h.move_waiter (moves_setThread rfl rfl) rfl hcaller rfl (by rw [hpc]; rfl) rfl
      (not_returned hpc (by simp) (by simp)) (by simp) ⟨hin, htold⟩
  · cases hstep

/-- While the closure is there, nobody has set the event. -/
theorem Inv.clear (h : Inv c s) (htask : ∀ i, s.task ≠ .destroyed i) :
    s.event.eventStatus = false ∧ ¬ SetOver s ∧ ∀ i, (s.event.threads i).inSet = false := by
  have hstored : ¬ Stored s := by
    intro hx
    obtain ⟨i, hi, -⟩ := hx
    exact htask i hi
  refine ⟨?_, fun hover => hstored hover.stored, fun i => ?_⟩
  · rw [← Bool.not_eq_true]
    exact fun hset => hstored (h.flag hset)
  · rw [← Bool.not_eq_true]
    exact fun hin => htask i (h.setter i hin)

theorem Inv.run (h : Inv c s) (htask : s.task = .held) (i : Nat) : Inv c { s with task := .running i } := by
  obtain ⟨hclear, hnot, hout⟩ := h.clear fun k hk => by rw [htask] at hk; cases hk
  have hstored : ¬ Stored { s with task := .running i } := by
    intro hx
    obtain ⟨k, hk, -⟩ := hx
    cases hk
  refine ⟨h.manual, fun k hk => ?_, fun k hk hset => ?_, fun hset => ?_, fun hx => absurd hx hstored,
    fun hposting hpc => absurd (h.back hposting hpc) hnot, h.gone⟩
  · rw [hout k] at hk
    cases hk
  · obtain ⟨rfl, hcaller, hin⟩ := h.waiter k hk hset
    have hnever : SetOver s → SetOver { s with task := .running i } := fun hover => absurd hover hnot
    exact ⟨rfl, hcaller, (hin.keep hnever id).1⟩
  · rw [hclear] at hset
    cases hset

theorem Inv.destroy (h : Inv c s) (htask : ∀ k, s.task ≠ .destroyed k) {i : Nat} {event : EventAccess}
    (hstep : s.event.step (.set i : AccessAction D) = some event) : Inv c ⟨event, .destroyed i, s.caller⟩ := by
  obtain ⟨hclear, hnot, hout⟩ := h.clear htask
  simp only [EventAccess.step] at hstep
  split at hstep <;> cases hstep
  rename_i hpc
  have hthreads := EventAccess.threads_setThread (s := s.event) i .setting
  refine ⟨h.manual, fun k hk => ?_, fun k hk hset => ?_, fun hset => ?_, fun hx => ?_, fun hposting hpc' => ?_,
    fun hgone => ?_⟩
  · by_cases hki : k = i
    · rw [hki]
    · rw [hthreads, if_neg hki, hout k] at hk
      cases hk
  · by_cases hki : k = i
    · rw [hthreads, if_pos hki] at hset
      cases hset
    · rw [hthreads, if_neg hki] at hk hset ⊢
      obtain ⟨rfl, hcaller, hin⟩ := h.waiter k hk hset
      have hnever : SetOver s → SetOver ⟨s.event.setThread i .setting, .destroyed i, s.caller⟩ :=
        fun hover => absurd hover hnot
      exact ⟨rfl, hcaller, (hin.keep hnever id).1⟩
  · exact absurd (hclear.symm.trans hset) (by simp)
  · obtain ⟨k, hk, hbefore⟩ := hx
    obtain rfl : i = k := DoneTask.destroyed.inj hk
    rw [hthreads, if_pos rfl] at hbefore
    cases hbefore
  · by_cases hci : c = i
    · exact absurd (h.back hposting (hci ▸ hpc)) hnot
    · rw [hthreads, if_neg hci] at hpc'
      exact absurd (h.back hposting hpc') hnot
  · have hposting : s.caller ≠ .posting := by
      rw [show s.caller = .gone from hgone]
      simp
    exact absurd (h.back hposting (h.gone hgone)) hnot

theorem Inv.leave (h : Inv c s) (hcaller : s.caller = .waiting) (hpc : s.event.threads c = .outside) :
    Inv c { s with caller := .gone } := by
  have hposting : s.caller ≠ .posting := by
    rw [hcaller]
    simp
  have hover := h.back hposting hpc
  refine ⟨h.manual, h.setter, fun i hi hset => ?_, h.flag, fun _ _ => .inr ⟨by simp, hpc⟩, fun _ _ => hover,
    fun _ => hpc⟩
  obtain ⟨rfl, -⟩ := h.waiter i hi hset
  exact absurd hpc hi

end

section
variable {D : Type} [WaitDuration D] {c : Nat} {s s' : DoneEvent}

/-- The deadlines of a `Wait` without a limit: none, and three seconds for the warning if any. -/
theorem unlimited_firstCall {now₁ now₂ : Timespec} (hnow : now₁.Normal) :
    Unlimited (firstCall (warnDeadline now₁ (infiniteDuration : D) kDefaultWarnDuration)
      (giveUpDeadline now₂ (infiniteDuration : D))) := by
  have hnone : giveUpDeadline now₂ (infiniteDuration : D) = none := by
    simp only [giveUpDeadline, eq_eq, decide_true, if_true]
  have hmicros : 0 ≤ toInt64Microseconds (kDefaultWarnDuration : D) := by
    have hvalue : value (kDefaultWarnDuration : D) = .finite (3000000 * 4000) :=
      value_microseconds 3000000 (by decide) (by decide)
    rw [toInt64Microseconds_eq, hvalue]
    decide
  rw [hnone]
  simp only [warnDeadline]
  split
  · rfl
  · exact ⟨normal_of_nonneg hnow hmicros, rfl⟩

theorem Inv.wait (h : Inv c s) (hcaller : s.caller = .posting) {now₁ now₂ : Timespec} (hnow : now₁.Normal)
    {event : EventAccess}
    (hstep : s.event.step (.wait c (infiniteDuration : D) kDefaultWarnDuration now₁ now₂) = some event) :
    Inv c ⟨event, s.task, .waiting⟩ := by
  simp only [EventAccess.step] at hstep
  split at hstep <;> cases hstep
  rename_i hpc
  refine h.move_waiter (moves_setThread rfl rfl) rfl rfl rfl (by rw [hpc]; rfl) rfl
    (fun hreturned => ?_) (by simp) ?_
  · obtain ⟨error, heq⟩ | ⟨hposting, -⟩ := hreturned
    · rw [hpc] at heq
      cases heq
    · exact hposting hcaller
  · exact unlimited_firstCall hnow

theorem inv_step {a : DoneAction} (hok : Documented s a) (hstep : step D c s a = some s')
    (hmutex : EventAccess.MutexInv s.event) (h : Inv c s) : Inv c s' := by
  cases a with
  | run i =>
    simp only [step] at hstep
    split at hstep <;> cases hstep
    rename_i hrun
    exact h.run hrun.1 i
  | destroy i =>
    simp only [step] at hstep
    split at hstep
    · rename_i htask
      obtain ⟨event, hset, rfl⟩ := onEvent_eq_some.mp hstep
      refine h.destroy (fun k hk => ?_) hset
      rw [hk] at htask
      simp at htask
    · cases hstep
  | wait now₁ now₂ =>
    simp only [step] at hstep
    split at hstep
    · rename_i hposting
      obtain ⟨event, hwait, rfl⟩ := onEvent_eq_some.mp hstep
      exact h.wait hposting hok hwait
    · cases hstep
  | access i =>
    obtain ⟨event, haccess, rfl⟩ := onEvent_eq_some.mp hstep
    exact h.access hmutex haccess
  | wake i error =>
    obtain ⟨event, hwake, rfl⟩ := onEvent_eq_some.mp hstep
    exact h.wake hok hwake
  | leave =>
    simp only [step] at hstep
    split at hstep <;> cases hstep
    rename_i hreturned
    exact h.leave hreturned.1 hreturned.2

theorem inv_of_run (hrun : Reaches (step D c) Documented init s) : Inv c s := by
  refine hrun.invariant_with (P := Inv c) (Q := fun s => EventAccess.MutexInv s.event) (fun t ht => ?_)
    (fun s a s' hok hstep hmutex h => inv_step hok hstep hmutex h) (inv_init c)
  obtain ⟨e, hrefines, -⟩ := sections_of_run ht
  exact hrefines.mutex

end

/-! ## To the end -/

/-- The steps that a `Set` has left after its store. -/
def setterLeft : AccessPc → Nat
  | .setStored => 2
  | .setBroadcast => 1
  | _ => 0

/-- The steps that a `Wait` has left when the flag is set, with the return after it. -/
def waiterLeft : AccessPc → Nat
  | .sleeping _ _ => 7
  | .waiting _ _ | .waking _ _ => 6
  | .looping (.warn _ _) .timedOut => 5
  | .looping _ _ => 4
  | .looped _ => 3
  | .returning _ => 2
  | _ => 1

def callerLeft (c : Nat) (s : DoneEvent) : Nat :=
  match s.caller with
  | .posting => 8
  | .waiting => waiterLeft (s.event.threads c)
  | .gone => 0

/-- The steps left after the store of the thread `i`. -/
def left (c i : Nat) (s : DoneEvent) : Nat := setterLeft (s.event.threads i) + callerLeft c s

@[simp] theorem setterLeft_notify (pc : AccessPc) : setterLeft pc.notify = setterLeft pc := by
  cases pc <;> rfl

@[simp] theorem waiterLeft_notify (pc : AccessPc) : waiterLeft pc.notify = waiterLeft pc := by
  cases pc <;> rfl

theorem waiterLeft_looping (call : WaitCall) (error : CondError) :
    3 < waiterLeft (.looping call error) ∧ waiterLeft (.looping call error) < 6 := by
  cases call with
  | giveUp giveUpTs => exact ⟨Nat.lt_succ_self 3, by simp [waiterLeft]⟩
  | warn warnTs giveUpTs => cases error <;> simp [waiterLeft]

theorem waiterLeft_afterLoop (call : WaitCall) (error : CondError) :
    waiterLeft (afterLoop call error) < waiterLeft (.looping call error) := by
  cases call with
  | giveUp _ => exact Nat.lt_succ_self 3
  | warn _ _ => cases error <;> exact Nat.lt_succ_self _

theorem setterLeft_of_not_inSet {pc : AccessPc} (h : pc.inSet = false) : setterLeft pc = 0 := by
  cases pc <;> first | rfl | cases h

section
variable {D : Type} [AbslDuration D] {c i : Nat} {s s' : DoneEvent} {pc : AccessPc}

/-- The flag is stored, and a step fewer is left. -/
structure Later (c i : Nat) (s s' : DoneEvent) : Prop where
  task : s'.task = .destroyed i
  stored : (s'.event.threads i).beforeStore = false
  left_lt : left c i s' < left c i s

theorem later_of_setter (hmoves : Moves i pc s s') (htask : s'.task = .destroyed i)
    (hcaller : s'.caller = s.caller) (hpc : pc.beforeStore = false)
    (hset : setterLeft pc < setterLeft (s.event.threads i))
    (hwait : waiterLeft pc = waiterLeft (s.event.threads i)) : Later c i s s' := by
  have hsame : callerLeft c s' = callerLeft c s := by
    simp only [callerLeft, hcaller]
    cases s.caller with
    | posting | gone => rfl
    | waiting =>
      by_cases hci : c = i
      · rw [hci, hmoves.at_thread]
        exact hwait
      · obtain hc | hc := hmoves.others c hci
        · rw [hc]
        · rw [hc, waiterLeft_notify]
  refine ⟨htask, hmoves.at_thread ▸ hpc, ?_⟩
  rw [left, left, hmoves.at_thread, hsame]
  exact Nat.add_lt_add_right hset _

theorem later_of_caller (hmoves : Moves c pc s s') (htask : s'.task = .destroyed i)
    (hstored : (s.event.threads i).beforeStore = false) (hfrom : (s.event.threads c).inSet = false)
    (hto : pc.inSet = false) (hlt : callerLeft c s' < callerLeft c s) : Later c i s s' := by
  have hsame : (s'.event.threads i).beforeStore = false ∧
      setterLeft (s'.event.threads i) = setterLeft (s.event.threads i) := by
    by_cases hic : i = c
    · rw [hic, hmoves.at_thread, setterLeft_of_not_inSet hto, setterLeft_of_not_inSet hfrom]
      exact ⟨AccessPc.beforeStore_of_not_inSet hto, rfl⟩
    · obtain hi | hi := hmoves.others i hic
      · rw [hi]
        exact ⟨hstored, rfl⟩
      · rw [hi, setterLeft_notify, AccessPc.beforeStore_notify]
        exact ⟨hstored, rfl⟩
  refine ⟨htask, hsame.1, ?_⟩
  rw [left, left, hsame.2]
  exact Nat.add_lt_add_left hlt _

theorem later_of_waiter (hmoves : Moves c pc s s') (htask : s'.task = .destroyed i)
    (hstored : (s.event.threads i).beforeStore = false) (hwaiting : s.caller = .waiting)
    (hcaller : s'.caller = s.caller) (hfrom : (s.event.threads c).inSet = false) (hto : pc.inSet = false)
    (hlt : waiterLeft pc < waiterLeft (s.event.threads c)) : Later c i s s' := by
  refine later_of_caller hmoves htask hstored hfrom hto ?_
  simp only [callerLeft, hcaller, hwaiting, hmoves.at_thread]
  exact hlt

theorem later_access (h : Inv c s) (hdestroyed : s.task = .destroyed i)
    (hstored : (s.event.threads i).beforeStore = false) {k : Nat} {event : EventAccess}
    (hstep : s.event.access k = some event) : Later c i s ⟨event, s.task, s.caller⟩ := by
  obtain ⟨pc, hgoes, hmoves⟩ := goes_of_access hstep
  have hsetter : (s.event.threads k).inSet = true → k = i :=
    fun hset => DoneTask.destroyed.inj ((h.setter k hset).symm.trans hdestroyed)
  have hwait : (s.event.threads k).inSet = false → s.event.threads k ≠ .outside → k = c ∧ s.caller = .waiting ∧
      InWait s (s.event.threads k) := fun hset hout => h.waiter k hout hset
  generalize hpc : s.event.threads k = start at hgoes hsetter hwait
  generalize event.eventStatus = flag at hgoes
  cases hgoes with
  | lockSet | store =>
    obtain rfl := hsetter rfl
    rw [hpc] at hstored
    cases hstored
  | broadcast =>
    obtain rfl := hsetter rfl
    exact later_of_setter hmoves hdestroyed rfl rfl (by rw [hpc]; decide) (by rw [hpc]; rfl)
  | unlockSet =>
    obtain rfl := hsetter rfl
    exact later_of_setter hmoves hdestroyed rfl rfl (by rw [hpc]; decide) (by rw [hpc]; rfl)
  | lockReset | clear | unlockReset => exact (hwait rfl (by simp)).2.2.elim
  | lockWait warnTs giveUpTs =>
    obtain ⟨rfl, hwaiting, -⟩ := hwait rfl (by simp)
    refine later_of_waiter hmoves hdestroyed hstored hwaiting rfl (by rw [hpc]; rfl) rfl ?_
    rw [hpc]
    exact (waiterLeft_looping _ _).2
  | lockWoken call error =>
    obtain ⟨rfl, hwaiting, -⟩ := hwait rfl (by simp)
    refine later_of_waiter hmoves hdestroyed hstored hwaiting rfl (by rw [hpc]; rfl) rfl ?_
    rw [hpc]
    exact (waiterLeft_looping call error).2
  | sleep call hloop =>
    -- beside the flag the lambda does not sleep
    obtain ⟨rfl, -, -⟩ := hwait rfl (by simp)
    rw [h.flag_of_stored ⟨i, hdestroyed, hstored⟩ (not_returned hpc (by simp) (by simp))] at hloop
    cases hloop
  | @loop call error error' hloop =>
    obtain ⟨rfl, hwaiting, -⟩ := hwait rfl (by simp)
    obtain ⟨rfl, -⟩ := waitLoop_eq hloop
    have hout := inSet_afterLoop call error'
    refine later_of_waiter hmoves hdestroyed hstored hwaiting rfl (by rw [hpc]; rfl) hout ?_
    rw [hpc]
    exact waiterLeft_afterLoop call error'
  | take error =>
    obtain ⟨rfl, hwaiting, -⟩ := hwait rfl (by simp)
    refine later_of_waiter hmoves hdestroyed hstored hwaiting rfl (by rw [hpc]; rfl) rfl ?_
    rw [hpc]
    exact Nat.lt_succ_self 2
  | unlockWait error =>
    obtain ⟨rfl, hwaiting, -⟩ := hwait rfl (by simp)
    refine later_of_waiter hmoves hdestroyed hstored hwaiting rfl (by rw [hpc]; rfl) rfl ?_
    rw [hpc]
    exact Nat.lt_succ_self 1

/-- A step after the store. -/
theorem later_step {a : DoneAction} (h : Inv c s) (hdestroyed : s.task = .destroyed i)
    (hstored : (s.event.threads i).beforeStore = false) (hstep : step D c s a = some s') : Later c i s s' := by
  cases a with
  | run k =>
    simp only [step, hdestroyed] at hstep
    cases hstep
  | destroy k =>
    simp only [step, hdestroyed] at hstep
    cases hstep
  | wait now₁ now₂ =>
    simp only [step] at hstep
    split at hstep
    · rename_i hposting
      obtain ⟨event, hwait, rfl⟩ := onEvent_eq_some.mp hstep
      simp only [EventAccess.step] at hwait
      split at hwait <;> cases hwait
      rename_i hpc
      refine later_of_caller (moves_setThread rfl rfl) hdestroyed hstored
        (by rw [hpc]; rfl) rfl ?_
      simp only [callerLeft, hposting, EventAccess.threads_setThread, if_pos]
      exact Nat.lt_add_of_pos_right (Nat.succ_pos 1)
    · cases hstep
  | access k =>
    obtain ⟨event, haccess, rfl⟩ := onEvent_eq_some.mp hstep
    exact later_access h hdestroyed hstored haccess
  | wake k error =>
    obtain ⟨event, hwake, rfl⟩ := onEvent_eq_some.mp hstep
    simp only [EventAccess.step] at hwake
    split at hwake
    · rename_i call notified hpc
      split at hwake <;> cases hwake
      obtain ⟨rfl, hwaiting, -⟩ := h.waiter k (by simp [hpc]) (by rw [hpc]; rfl)
      refine later_of_waiter (moves_setThread rfl rfl) hdestroyed hstored hwaiting rfl
        (by rw [hpc]; rfl) rfl ?_
      rw [hpc]
      exact Nat.lt_succ_self 6
    · cases hwake
  | leave =>
    simp only [step] at hstep
    split at hstep <;> cases hstep
    rename_i hreturned
    refine ⟨hdestroyed, hstored, ?_⟩
    simp only [left, callerLeft, hreturned.1, hreturned.2]
    exact Nat.lt_succ_self _

theorem left_le (c i : Nat) (s : DoneEvent) : left c i s ≤ 10 := by
  have hset : setterLeft (s.event.threads i) ≤ 2 := by
    cases s.event.threads i <;> simp [setterLeft]
  have hwait : waiterLeft (s.event.threads c) ≤ 8 := by
    cases s.event.threads c with
    | looping call error =>
      have hlt := (waiterLeft_looping call error).2
      omega
    | _ => simp [waiterLeft]
  have hcaller : callerLeft c s ≤ 8 := by
    simp only [callerLeft]
    split
    · exact Nat.le_refl 8
    · exact hwait
    · exact Nat.zero_le 8
  rw [left]
  omega

/-- A step that is not left to chance: a thread that sleeps has been notified. -/
def Due (s : DoneEvent) : DoneAction → Prop
  | .wake i error => error = .ok ∧ ∃ call, s.event.threads i = .sleeping call true
  | a => Documented s a

end

section
variable {D : Type} [WaitDuration D] {c : Nat} {s : DoneEvent}

/-- Until the caller is gone somebody can go on. -/
theorem exists_due (hrun : Reaches (step D c) Documented init s) {i : Nat} (hdestroyed : s.task = .destroyed i)
    (hgone : s.caller ≠ .gone) : ∃ a s', Due s a ∧ step D c s a = some s' := by
  have h := inv_of_run hrun
  obtain ⟨e, hrefines, hnobody⟩ := sections_of_run hrun
  have haccess : ∀ {k : Nat}, s.event.threads k ≠ .outside →
      (∀ call notified, s.event.threads k ≠ .sleeping call notified) →
      ∃ a s', Due s a ∧ step D c s a = some s' := by
    intro k hout hawake
    obtain ⟨j, event, hj⟩ := EventAccess.exists_access hrefines.mutex hout hawake
    exact ⟨.access j, _, trivial, onEvent_eq_some.mpr ⟨event, hj, rfl⟩⟩
  by_cases hset : (s.event.threads i).inSet = true
  · refine haccess (k := i) (fun hout => ?_) fun call notified hasleep => ?_
    · rw [hout] at hset
      cases hset
    · rw [hasleep] at hset
      cases hset
  · have hout : ∀ k, (s.event.threads k).inSet = false := by
      intro k
      rw [← Bool.not_eq_true]
      intro hk
      obtain rfl : i = k := DoneTask.destroyed.inj (hdestroyed.symm.trans (h.setter k hk))
      exact hset hk
    cases hcaller : s.caller with
    | gone => exact absurd hcaller hgone
    | posting =>
      have hpc : s.event.threads c = .outside := by
        by_contra hin
        obtain ⟨-, hwaiting, -⟩ := h.waiter c hin (hout c)
        rw [hcaller] at hwaiting
        cases hwaiting
      have hnormal : Timespec.Normal ⟨0, 0⟩ := by decide
      exact ⟨.wait ⟨0, 0⟩ ⟨0, 0⟩, _, hnormal, (if_pos hcaller).trans (onEvent_eq_some.mpr ⟨_, if_pos hpc, rfl⟩)⟩
    | waiting =>
      cases hpc : s.event.threads c with
      | outside => exact ⟨.leave, _, trivial, if_pos ⟨hcaller, hpc⟩⟩
      | sleeping call notified =>
        -- the `Set` is over, and its broadcast has reached the caller
        have hstored := SetOver.stored ⟨i, hdestroyed, hout i⟩
        have hflag := h.flag_of_stored hstored (not_returned hpc (by simp) (by simp))
        have hseen : e.eventStatus = true := by
          obtain ⟨k, hk⟩ | hsame := hrefines.flag
          · have hin := hout k
            rw [hk] at hin
            cases hin
          · exact hsame.trans hflag
        have hasleep : e.threads c = .asleep call notified := by
          have hat := hrefines.threads c
          rw [hpc] at hat
          exact hat
        obtain rfl := hnobody hseen c call notified hasleep
        refine ⟨.wake c .ok, ⟨s.event.setThread c (.waking call .ok), s.task, s.caller⟩, ⟨rfl, call, hpc⟩, ?_⟩
        refine onEvent_eq_some.mpr ⟨_, ?_, rfl⟩
        simp only [EventAccess.step, hpc]
        exact if_neg fun hx => by cases hx.1
      | _ => exact haccess (k := c) (by simp [hpc]) (by simp [hpc])

/-- **The event outlives its `Set`.** In every run of a blocking call, whichever thread destroys the closure and
    however the condition variable wakes the caller: when the event is destroyed the closure has been, every
    thread is out of the event, and no step is left that would use it. Once the closure is destroyed, somebody
    can go on until the caller is gone; and from the store of the flag on at most ten steps are taken. -/
theorem done_outlives_set (hrun : Reaches (step D c) Documented init s) :
    (s.caller = .gone →
      (∃ i, s.task = .destroyed i) ∧ (∀ i, s.event.threads i = .outside) ∧ ∀ a, step D c s a = none) ∧
    ∀ i, s.task = .destroyed i →
      (s.caller ≠ .gone → ∃ a s', Due s a ∧ step D c s a = some s') ∧
      ((s.event.threads i).beforeStore = false → ∀ p,
        Reaches (observe (step D c) fun _ a => [a]) (fun p a => Documented p.1 a) (s, []) p → p.2.length ≤ 10) := by
  have h := inv_of_run hrun
  refine ⟨fun hgone => ?_, fun i hdestroyed => ⟨exists_due hrun hdestroyed, fun hstored p hobserved => ?_⟩⟩
  · obtain ⟨i, hdestroyed, hset⟩ := h.back (by simp [hgone]) (h.gone hgone)
    have hout : ∀ k, s.event.threads k = .outside := by
      intro k
      by_contra hin
      by_cases hk : (s.event.threads k).inSet = true
      · obtain rfl : i = k := DoneTask.destroyed.inj (hdestroyed.symm.trans (h.setter k hk))
        rw [hset] at hk
        cases hk
      · obtain ⟨-, hwaiting, -⟩ := h.waiter k hin (by simpa using hk)
        rw [hgone] at hwaiting
        cases hwaiting
    refine ⟨⟨i, hdestroyed⟩, hout, fun a => ?_⟩
    cases a with
    | run k | destroy k => simp [step, hdestroyed]
    | wait now₁ now₂ => simp [step, hgone]
    | access k => simp [step, onEvent, EventAccess.step, EventAccess.access, hout]
    | wake k error => simp [step, onEvent, EventAccess.step, hout]
    | leave => simp [step, hgone]
  · have hspent : (Reaches (step D c) Documented init p.1 ∧ p.1.task = .destroyed i ∧
        (p.1.event.threads i).beforeStore = false) ∧ left c i p.1 + p.2.length ≤ left c i s := by
      refine hobserved.invariant (P := fun p => (Reaches (step D c) Documented init p.1 ∧ p.1.task = .destroyed i ∧
        (p.1.event.threads i).beforeStore = false) ∧ left c i p.1 + p.2.length ≤ left c i s)
        (fun q a q' hok hstep ih => ?_) ⟨⟨hrun, hdestroyed, hstored⟩, Nat.le_refl _⟩
      obtain ⟨⟨hreach, hq, hbefore⟩, hle⟩ := ih
      obtain ⟨hstep, hseen⟩ := observe_eq_some.mp hstep
      have hlater := later_step (inv_of_run hreach) hq hbefore hstep
      have hlt := hlater.left_lt
      refine ⟨⟨hreach.tail hok hstep, hlater.task, hlater.stored⟩, ?_⟩
      rw [hseen, List.length_append, List.length_singleton]
      omega
    have hle := left_le c i s
    omega

/-- The caller wakes for nothing, and then by the warning while the loop thread is in `Set`. -/
def warnedRun : List DoneAction :=
  [.wait ⟨5, 0⟩ ⟨5, 0⟩, .access 1, .access 1, .wake 1 .ok, .run 0, .access 1, .access 1, .destroy 0, .access 0,
    .wake 1 .timedOut, .access 0]

/-- From there to the end. -/
def returnRun : List DoneAction :=
  [.access 0, .access 0, .access 1, .access 1, .access 1, .access 1, .access 1, .leave]

theorem done_outlives_set_warned :
    ∃ s t : DoneEvent, Reaches (step Ticks 1) Documented init s ∧ Reaches (step Ticks 1) Documented s t ∧
      s.event.eventStatus = true ∧ (∃ a s', Due s a ∧ step Ticks 1 s a = some s') ∧ t.caller = .gone ∧
      (∀ i, t.event.threads i = .outside) ∧ ∀ a, step Ticks 1 t a = none := by
  have hrun : (runWhile (step Ticks 1) Documented init warnedRun).isSome = true := by decide
  have hreturn : (runWhile (step Ticks 1) Documented
    ((runWhile (step Ticks 1) Documented init warnedRun).get (by decide)) returnRun).isSome = true := by decide
  have hwaits : ((runWhile (step Ticks 1) Documented init warnedRun).get (by decide)).caller ≠ .gone := by decide
  have hreach := reaches_get hrun
  have hreach' := reaches_get hreturn
  obtain ⟨-, hout, hend⟩ := (done_outlives_set (hreach.trans hreach')).1 rfl
  exact ⟨_, _, hreach, hreach', rfl, ((done_outlives_set hreach).2 0 rfl).1 hwaits, rfl, hout, hend⟩

end

end DoneEvent
end IoBase
