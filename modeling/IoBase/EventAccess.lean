import IoBase.Event

/- The POSIX `Event`, access by access.

   In `Event.lean` a section with `event_mutex_` held is one step. Here each access is: taking
   the mutex and leaving it, the reads and writes of `event_status_`, the broadcast, and the
   two ends of a wait for the condition variable, which leaves the mutex with the thread asleep
   in one access, and comes back without it. A broadcast reaches the threads that sleep then.

   Correspondence (C++ ↔ Lean):
     `Event::Set`                                 ↔ `setting`, `setLocked`, `setStored`, `setBroadcast`
     `Event::Reset`                               ↔ `resetting`, `resetLocked`, `resetStored`
     `Event::Wait`, up to the mutex               ↔ `waiting`
     the head of the loop of the lambda `wait`    ↔ `looping`
     `pthread_cond_wait`, `pthread_cond_timedwait` ↔ `sleeping`, and `waking` before it has the mutex again
     from the lambda to the end                   ↔ `looped`, `returning`

   * `accesses_atomic`: every run of the accesses is a run of the sections, with the same
     history. -/
namespace IoBase
open Transition AbslDuration

/-- Where a thread is, between two accesses. -/
inductive AccessPc where
  | outside
  | setting
  | setLocked
  | setStored
  | setBroadcast
  | resetting
  | resetLocked
  | resetStored
  | waiting (warnTs giveUpTs : Option Timespec)
  | looping (call : WaitCall) (error : CondError)
  | sleeping (call : WaitCall) (notified : Bool)
  | waking (call : WaitCall) (error : CondError)
  | looped (error : CondError)
  | returning (error : CondError)
  deriving DecidableEq, Repr

namespace AccessPc

/-- The thread has `event_mutex_`. -/
def hasMutex : AccessPc → Bool
  | .setLocked | .setStored | .setBroadcast | .resetLocked | .resetStored | .looping _ _ | .looped _ |
    .returning _ => true
  | _ => false

/-- The broadcast reaches it. -/
def notify : AccessPc → AccessPc
  | .sleeping call _ => .sleeping call true
  | pc => pc

theorem hasMutex_notify (pc : AccessPc) : pc.notify.hasMutex = pc.hasMutex := by
  cases pc <;> rfl

end AccessPc

structure EventAccess where
  isManualReset : Bool
  eventStatus : Bool
  mutex : Option Nat
  threads : Nat → AccessPc

inductive AccessAction (D : Type) where
  | set (i : Nat)
  | reset (i : Nat)
  | wait (i : Nat) (giveUpAfter warnAfter : D) (now₁ now₂ : Timespec)
  /-- The next access of the thread. -/
  | access (i : Nat)
  /-- Its wait for the condition variable ends with this result. -/
  | wake (i : Nat) (error : CondError)

namespace EventAccess

def init (manualReset initiallySignaled : Bool) : EventAccess where
  isManualReset := manualReset
  eventStatus := initiallySignaled
  mutex := none
  threads := fun _ => .outside

def setThread (s : EventAccess) (i : Nat) (pc : AccessPc) : EventAccess :=
  { s with threads := Function.update s.threads i pc }

/-- Taking the mutex, which blocks while another thread has it. -/
def lock (s : EventAccess) (i : Nat) (pc : AccessPc) : Option EventAccess :=
  match s.mutex with
  | none => some ({ s with mutex := some i }.setThread i pc)
  | some _ => none

def unlock (s : EventAccess) (i : Nat) (pc : AccessPc) : EventAccess := { s with mutex := none }.setThread i pc

/-- The next access of a thread. -/
def access (s : EventAccess) (i : Nat) : Option EventAccess :=
  match s.threads i with
  | .outside | .sleeping _ _ => none
  | .setting => s.lock i .setLocked
  | .setLocked => some ({ s with eventStatus := true }.setThread i .setStored)
  | .setStored => some ({ s with threads := fun j => (s.threads j).notify }.setThread i .setBroadcast)
  | .setBroadcast => some (s.unlock i .outside)
  | .resetting => s.lock i .resetLocked
  | .resetLocked => some ({ s with eventStatus := false }.setThread i .resetStored)
  | .resetStored => some (s.unlock i .outside)
  | .waiting warnTs giveUpTs => s.lock i (.looping (firstCall warnTs giveUpTs) .ok)
  | .looping call error =>
    match waitLoop s.eventStatus error with
    | none => some (s.unlock i (.sleeping call false))
    | some error =>
      match call with
      | .giveUp _ => some (s.setThread i (.looped error))
      | .warn _ giveUpTs =>
        -- the warning is logged, and `wait(give_up_ts)` starts with no error
        some (s.setThread i (if error = .timedOut then .looping (.giveUp giveUpTs) .ok else .looped error))
  | .waking call error => s.lock i (.looping call error)
  | .looped error =>
    let status := if error = CondError.ok ∧ s.isManualReset = false then false else s.eventStatus
    some ({ s with eventStatus := status }.setThread i (.returning error))
  | .returning _ => some (s.unlock i .outside)

variable {D : Type} [AbslDuration D]

def step (s : EventAccess) : AccessAction D → Option EventAccess
  | .set i => if s.threads i = .outside then some (s.setThread i .setting) else none
  | .reset i => if s.threads i = .outside then some (s.setThread i .resetting) else none
  | .wait i giveUpAfter warnAfter now₁ now₂ =>
    if s.threads i = .outside then
      some (s.setThread i (.waiting (warnDeadline now₁ giveUpAfter warnAfter) (giveUpDeadline now₂ giveUpAfter)))
    else none
  | .access i => s.access i
  | .wake i error =>
    match s.threads i with
    | .sleeping call _ =>
      if error = .timedOut ∧ call.timeoutTs = none then none else some (s.setThread i (.waking call error))
    | _ => none

omit [AbslDuration D]

/-- What a step adds to the history: a `Set` at its broadcast, a `Reset` at its write, and the result of a
    `Wait` where it is decided. -/
def notes (s : EventAccess) : AccessAction D → List EventNote
  | .access i =>
    match s.threads i with
    | .setStored => [.set i]
    | .resetLocked => [.reset i]
    | .looped error => [.returned i (error == .ok)]
    | _ => []
  | _ => []

end EventAccess

/-- The accesses with their history. -/
abbrev accessNoted (D : Type) [AbslDuration D] := observe (EventAccess.step (D := D)) EventAccess.notes

/-! ## The mutex -/

namespace EventAccess
variable {D : Type} {s s' : EventAccess}

/-- The mutex is the thread's that is where it has it. -/
def MutexInv (s : EventAccess) : Prop := ∀ i, (s.threads i).hasMutex = true ↔ s.mutex = some i

theorem threads_setThread (i : Nat) (pc : AccessPc) (j : Nat) :
    (s.setThread i pc).threads j = if j = i then pc else s.threads j := Function.update_apply ..

/-- A thread goes on from where it has the mutex to where it has it, or from where it does not. -/
theorem MutexInv.move (h : MutexInv s) {i : Nat} {pc : AccessPc} {t : EventAccess}
    (hthreads : ∀ j, t.threads j = if j = i then pc else s.threads j)
    (hmutex : t.mutex = s.mutex) (hpc : pc.hasMutex = (s.threads i).hasMutex) : MutexInv t := by
  intro j
  rw [hthreads, hmutex, ← h j]
  split
  · rename_i hji
    rw [hpc, hji]
  · rfl

theorem MutexInv.lock (h : MutexInv s) {i : Nat} {pc : AccessPc} (hpc : pc.hasMutex = true)
    (hlock : s.lock i pc = some s') : MutexInv s' := by
  simp only [EventAccess.lock] at hlock
  split at hlock
  · rename_i hfree
    cases hlock
    intro j
    rw [threads_setThread]
    show _ ↔ some i = some j
    split
    · rename_i hji
      exact ⟨fun _ => congrArg some hji.symm, fun _ => hpc⟩
    · rename_i hji
      have hout : (s.threads j).hasMutex = true ↔ False := by
        rw [h j, hfree]
        exact ⟨fun heq => (by cases heq), False.elim⟩
      exact ⟨fun hhas => (hout.mp hhas).elim, fun heq => absurd (Option.some.inj heq).symm hji⟩
  · cases hlock

theorem MutexInv.unlock (h : MutexInv s) {i : Nat} {pc : AccessPc} (hhas : (s.threads i).hasMutex = true)
    (hpc : pc.hasMutex = false) : MutexInv (s.unlock i pc) := by
  have howner := (h i).mp hhas
  intro j
  show ((s.setThread i pc).threads j).hasMutex = true ↔ none = some j
  rw [threads_setThread]
  split
  · rw [hpc]
    exact ⟨fun heq => (by cases heq), fun heq => (by cases heq)⟩
  · rename_i hji
    rw [h j, howner]
    exact ⟨fun heq => absurd (Option.some.inj heq).symm hji, fun heq => by cases heq⟩

/-- The mutex is taken where it is free. -/
theorem lock_eq_some {i : Nat} {pc : AccessPc} (h : s.lock i pc = some s') :
    s.mutex = none ∧ s' = { s with mutex := some i }.setThread i pc := by
  simp only [EventAccess.lock] at h
  split at h
  · rename_i hfree
    exact ⟨hfree, (Option.some.inj h).symm⟩
  · cases h

/-- A thread that is in the event and awake has an access, or another one does. -/
theorem exists_access (hmutex : MutexInv s) {k : Nat} (hout : s.threads k ≠ .outside)
    (hawake : ∀ call notified, s.threads k ≠ .sleeping call notified) : ∃ j s', s.access j = some s' := by
  cases howner : s.mutex with
  | some j =>
    have hhas := (hmutex j).mpr howner
    refine ⟨j, ?_⟩
    cases hpc : s.threads j with
    | setLocked | setStored | setBroadcast | resetLocked | resetStored | looped | returning =>
      simp only [access, hpc]
      exact ⟨_, rfl⟩
    | looping call error =>
      simp only [access, hpc]
      cases waitLoop s.eventStatus error with
      | none => exact ⟨_, rfl⟩
      | some error' => cases call <;> exact ⟨_, rfl⟩
    | _ =>
      rw [hpc] at hhas
      cases hhas
  | none =>
    have hfree : ∀ pc, ∃ s', s.lock k pc = some s' := by
      intro pc
      simp only [lock, howner]
      exact ⟨_, rfl⟩
    refine ⟨k, ?_⟩
    cases hpc : s.threads k with
    | outside => exact absurd hpc hout
    | sleeping call notified => exact absurd hpc (hawake call notified)
    | setting | resetting | waiting | waking =>
      simp only [access, hpc]
      exact hfree _
    | _ =>
      have hhas := (hmutex k).mp (by rw [hpc]; rfl)
      rw [howner] at hhas
      cases hhas

/-! ## The same run, section by section -/

/-- A thread that is in `Wait` at `pc` is in a section that ends so. -/
def InSection (eventStatus : Bool) (pc : WaiterPc) (ends : SectionEnd) : Prop :=
  (∃ warnTs giveUpTs, pc = .entered warnTs giveUpTs ∧
    sectionEnd eventStatus (firstCall warnTs giveUpTs) .ok = ends) ∨
  ∃ call notified error, pc = .asleep call notified ∧ ¬(error = .timedOut ∧ call.timeoutTs = none) ∧
    sectionEnd eventStatus call error = ends

/-- A section is one step, with the history of its end. -/
theorem InSection.step [AbslDuration D] {e : Event} {i : Nat} {ends : SectionEnd}
    (h : InSection e.eventStatus (e.threads i) ends) :
    ∃ b : EventAction D, e.step b = some (e.endSection i ends) ∧ e.notes b = Event.endNotes i ends := by
  obtain ⟨warnTs, giveUpTs, hpc, rfl⟩ | ⟨call, notified, error, hpc, hmay, rfl⟩ := h
  · exact ⟨.lock i, by simp only [Event.step, hpc], by simp only [Event.notes, hpc]⟩
  · exact ⟨.wake i error, by simp only [Event.step, hpc, if_neg hmay], by simp only [Event.notes, hpc]⟩

/-- Where a thread is among the sections; a section lasts until its end is decided. -/
def At (eventStatus : Bool) : AccessPc → WaiterPc → Prop
  | .waiting warnTs giveUpTs, pc => pc = .entered warnTs giveUpTs
  | .sleeping call notified, pc => pc = .asleep call notified
  | .waking call error, pc =>
    (∃ notified, pc = .asleep call notified) ∧ ¬(error = .timedOut ∧ call.timeoutTs = none)
  | .looping call error, pc => InSection eventStatus pc (sectionEnd eventStatus call error)
  | .looped error, pc => InSection eventStatus pc (.done error)
  | _, pc => pc = .outside

/-- Without the mutex, a thread's place does not depend on the flag. -/
theorem At.of_not_hasMutex {eventStatus eventStatus' : Bool} {pc : AccessPc} {pc' : WaiterPc}
    (h : At eventStatus pc pc') (hpc : pc.hasMutex = false) : At eventStatus' pc pc' := by
  cases pc <;> first | exact h | cases hpc

/-- A broadcast finds the same threads asleep. -/
theorem At.notify {eventStatus eventStatus' : Bool} {pc : AccessPc} {pc' : WaiterPc} (h : At eventStatus pc pc')
    (hpc : pc.hasMutex = false) : At eventStatus' pc.notify pc'.notify := by
  cases pc with
  | outside | setting | resetting =>
    obtain rfl : pc' = .outside := h
    rfl
  | waiting warnTs giveUpTs =>
    obtain rfl : pc' = .entered warnTs giveUpTs := h
    rfl
  | sleeping call notified =>
    obtain rfl : pc' = .asleep call notified := h
    rfl
  | waking call error =>
    obtain ⟨⟨notified, rfl⟩, hmay⟩ := h
    exact ⟨⟨true, rfl⟩, hmay⟩
  | _ => cases hpc

/-- The accesses have come as far as the sections. Between its write and its broadcast the flag of a `Set`
    is not seen. -/
structure Refines (s : EventAccess) (e : Event) : Prop where
  mutex : MutexInv s
  manual : e.isManualReset = s.isManualReset
  flag : (∃ i, s.threads i = .setStored) ∨ e.eventStatus = s.eventStatus
  stored : ∀ i, s.threads i = .setStored → s.eventStatus = true
  threads : ∀ i, At e.eventStatus (s.threads i) (e.threads i)

theorem refines_init (manualReset initiallySignaled : Bool) :
    Refines (init manualReset initiallySignaled) (Event.init manualReset initiallySignaled) where
  mutex := fun _ => ⟨fun h => (by cases h), fun h => (by cases h)⟩
  manual := rfl
  flag := .inr rfl
  stored := fun _ h => by cases h
  threads := fun _ => rfl

/-- A thread goes on in both, and the flag stays. -/
theorem Refines.move_both {e e' : Event} (h : Refines s e) {i : Nat} {pc : AccessPc}
    (hthreads : ∀ j, s'.threads j = if j = i then pc else s.threads j) (hmutex : MutexInv s')
    (hmanual : s'.isManualReset = s.isManualReset) (hstatus : s'.eventStatus = s.eventStatus)
    (hfrom : s.threads i ≠ .setStored) (hto : pc ≠ .setStored)
    (hmanual' : e'.isManualReset = e.isManualReset) (hstatus' : e'.eventStatus = e.eventStatus)
    (hsame : ∀ j, j ≠ i → e'.threads j = e.threads j) (hat : At e.eventStatus pc (e'.threads i)) :
    Refines s' e' := by
  refine ⟨hmutex, (hmanual'.trans h.manual).trans hmanual.symm, ?_, fun j hj => ?_, fun j => ?_⟩
  · rw [hstatus, hstatus']
    refine h.flag.imp (fun hx => ?_) id
    obtain ⟨k, hk⟩ := hx
    have hki : k ≠ i := fun hki => hfrom (hki ▸ hk)
    exact ⟨k, by rw [hthreads, if_neg hki]; exact hk⟩
  · rw [hstatus]
    rw [hthreads] at hj
    split at hj
    · exact absurd hj hto
    · exact h.stored j hj
  · rw [hthreads, hstatus']
    split
    · rename_i hji
      rw [hji]
      exact hat
    · rename_i hji
      rw [hsame j hji]
      exact h.threads j

/-- An access that no section ends with, and that leaves the flag. -/
theorem Refines.move {e : Event} (h : Refines s e) {i : Nat} {pc : AccessPc}
    (hthreads : ∀ j, s'.threads j = if j = i then pc else s.threads j) (hmutex : MutexInv s')
    (hmanual : s'.isManualReset = s.isManualReset) (hstatus : s'.eventStatus = s.eventStatus)
    (hfrom : s.threads i ≠ .setStored) (hto : pc ≠ .setStored) (hat : At e.eventStatus pc (e.threads i)) :
    Refines s' e :=
  h.move_both hthreads hmutex hmanual hstatus hfrom hto rfl rfl (fun _ _ => rfl) hat

/-- With the mutex, a thread other than the one that writes sees the flag. -/
theorem Refines.flag_eq {e : Event} (h : Refines s e) {i : Nat} (hhas : (s.threads i).hasMutex = true)
    (hpc : s.threads i ≠ .setStored) : e.eventStatus = s.eventStatus := by
  refine h.flag.resolve_left fun hx => ?_
  obtain ⟨k, hk⟩ := hx
  have howner := (h.mutex k).mp (by rw [hk]; rfl)
  have hki : k = i := Option.some.inj (howner.symm.trans ((h.mutex i).mp hhas))
  exact hpc (hki ▸ hk)

/-- The other threads are without the mutex. -/
theorem Refines.others {e : Event} (h : Refines s e) {i j : Nat} (hhas : (s.threads i).hasMutex = true)
    (hji : j ≠ i) : (s.threads j).hasMutex = false := by
  rw [← Bool.not_eq_true]
  intro hother
  exact hji (Option.some.inj (((h.mutex j).mp hother).symm.trans ((h.mutex i).mp hhas)))

/-- The lambda goes on in the section that it is in. -/
theorem sectionEnd_of_loop {eventStatus : Bool} {call : WaitCall} {error error' : CondError}
    (h : waitLoop eventStatus error = some error') :
    sectionEnd eventStatus call error =
      match call with
      | .giveUp _ => .done error'
      | .warn _ giveUpTs =>
        if error' = .timedOut then sectionEnd eventStatus (.giveUp giveUpTs) .ok else .done error' := by
  cases call with
  | giveUp giveUpTs => simp only [sectionEnd, h]
  | warn warnTs giveUpTs => simp only [sectionEnd, h]

theorem Refines.lock {e : Event} (h : Refines s e) {i : Nat} {pc : AccessPc} (hlock : s.lock i pc = some s')
    (hpc : pc.hasMutex = true) (hfrom : s.threads i ≠ .setStored) (hto : pc ≠ .setStored)
    (hat : At e.eventStatus pc (e.threads i)) : Refines s' e := by
  have hmutex := h.mutex.lock hpc hlock
  simp only [EventAccess.lock] at hlock
  split at hlock
  · cases hlock
    exact h.move (threads_setThread i pc) hmutex rfl rfl hfrom hto hat
  · cases hlock

theorem Refines.unlock {e : Event} (h : Refines s e) {i : Nat} (hhas : (s.threads i).hasMutex = true)
    (hfrom : s.threads i ≠ .setStored) (hat : e.threads i = .outside) : Refines (s.unlock i .outside) e :=
  h.move (threads_setThread i .outside) (h.mutex.unlock hhas rfl) rfl rfl hfrom (by simp) hat

/-- The others are where they were, whatever becomes of the flag. -/
theorem Refines.at_others {e e' : Event} (h : Refines s e) {i : Nat} (hhas : (s.threads i).hasMutex = true)
    (hsame : ∀ j, j ≠ i → e'.threads j = e.threads j) {j : Nat} (hji : j ≠ i) :
    At e'.eventStatus (s.threads j) (e'.threads j) := by
  rw [hsame j hji]
  exact (h.threads j).of_not_hasMutex (h.others hhas hji)

/-- A section ends with an access of its thread. -/
theorem Refines.section_ends {e e' : Event} (h : Refines s e) {i : Nat} {pc : AccessPc}
    (hhas : (s.threads i).hasMutex = true) (hmutex : MutexInv s')
    (hthreads : ∀ j, s'.threads j = if j = i then pc else s.threads j)
    (hmanual : e'.isManualReset = s'.isManualReset) (hstatus : e'.eventStatus = s'.eventStatus)
    (hpc : pc ≠ .setStored) (hsame : ∀ j, j ≠ i → e'.threads j = e.threads j)
    (hat : At e'.eventStatus pc (e'.threads i)) : Refines s' e' := by
  refine ⟨hmutex, hmanual, .inr hstatus, fun j hj => ?_, fun j => ?_⟩
  · rw [hthreads] at hj
    split at hj
    · exact absurd hj hpc
    · rename_i hji
      have hother := h.others hhas hji
      rw [hj] at hother
      cases hother
  · rw [hthreads]
    split
    · rename_i hji
      rw [hji]
      exact hat
    · rename_i hji
      exact h.at_others hhas hsame hji

/-- An access is a step of the sections with the same history, or none. -/
theorem refines_access [AbslDuration D] {e : Event} {i : Nat} (hstep : s.access i = some s') (h : Refines s e) :
    (Refines s' e ∧ s.notes (.access i : AccessAction D) = []) ∨
    ∃ (b : EventAction D) (e' : Event), e.step b = some e' ∧ e.notes b = s.notes (.access i : AccessAction D) ∧
      Refines s' e' := by
  have hat := h.threads i
  cases hpc : s.threads i with
  | outside | sleeping _ _ =>
    simp only [access, hpc] at hstep
    cases hstep
  | setting | resetting =>
    simp only [access, hpc] at hstep
    rw [hpc] at hat
    exact .inl ⟨h.lock hstep rfl (by simp [hpc]) (by simp) hat, by simp only [notes, hpc]⟩
  | waiting warnTs giveUpTs =>
    simp only [access, hpc] at hstep
    rw [hpc] at hat
    exact .inl ⟨h.lock hstep rfl (by simp [hpc]) (by simp) (.inl ⟨warnTs, giveUpTs, hat, rfl⟩),
      by simp only [notes, hpc]⟩
  | waking call error =>
    simp only [access, hpc] at hstep
    rw [hpc] at hat
    obtain ⟨⟨notified, hasleep⟩, hmay⟩ := hat
    exact .inl ⟨h.lock hstep rfl (by simp [hpc]) (by simp) (.inr ⟨call, notified, error, hasleep, hmay, rfl⟩),
      by simp only [notes, hpc]⟩
  | setBroadcast | resetStored | returning _ =>
    simp only [access, hpc] at hstep
    rw [hpc] at hat
    cases hstep
    exact .inl ⟨h.unlock (by rw [hpc]; rfl) (by simp [hpc]) hat, by simp only [notes, hpc]⟩
  | setLocked =>
    simp only [access, hpc] at hstep
    rw [hpc] at hat
    cases hstep
    have hhas : (s.threads i).hasMutex = true := by rw [hpc]; rfl
    refine .inl ⟨⟨?_, h.manual, .inl ⟨i, ?_⟩, fun _ _ => rfl, fun j => ?_⟩, by simp only [notes, hpc]⟩
    · exact h.mutex.move (threads_setThread (s := { s with eventStatus := true }) i .setStored) rfl hhas.symm
    · rw [threads_setThread, if_pos rfl]
    · rw [threads_setThread]
      split
      · rename_i hji
        rw [hji]
        exact hat
      · exact h.threads j
  | setStored =>
    simp only [access, hpc] at hstep
    rw [hpc] at hat
    cases hstep
    have hhas : (s.threads i).hasMutex = true := by rw [hpc]; rfl
    have hset := h.stored i hpc
    refine .inr ⟨.set i, { e with eventStatus := true, threads := fun j => (e.threads j).notify }, ?_, ?_, ?_⟩
    · exact if_pos hat
    · simp only [Event.notes, notes, hpc]
    · refine ⟨fun j => ?_, h.manual, .inr hset.symm, fun _ _ => hset, fun j => ?_⟩
      · rw [threads_setThread]
        show _ ↔ s.mutex = some j
        rw [← h.mutex j]
        split
        · rename_i hji
          rw [hji, hhas]
          rfl
        · show (s.threads j).notify.hasMutex = true ↔ _
          rw [AccessPc.hasMutex_notify]
      · rw [threads_setThread]
        split
        · rename_i hji
          rw [hji]
          show (e.threads i).notify = .outside
          rw [hat]
          rfl
        · -- who slept has been notified, and nobody else is in the way
          rename_i hji
          exact (h.threads j).notify (h.others hhas hji)
  | resetLocked =>
    simp only [access, hpc] at hstep
    rw [hpc] at hat
    cases hstep
    have hhas : (s.threads i).hasMutex = true := by rw [hpc]; rfl
    refine .inr ⟨.reset i, { e with eventStatus := false }, ?_, ?_, ?_⟩
    · exact if_pos hat
    · simp only [Event.notes, notes, hpc]
    · refine h.section_ends hhas ?_ (threads_setThread (s := { s with eventStatus := false }) i .resetStored)
        h.manual rfl (by simp) (fun _ _ => rfl) hat
      exact h.mutex.move (threads_setThread (s := { s with eventStatus := false }) i .resetStored) rfl hhas.symm
  | looping call error =>
    simp only [access, hpc] at hstep
    rw [hpc] at hat
    have hhas : (s.threads i).hasMutex = true := by rw [hpc]; rfl
    have hflag := h.flag_eq hhas (by simp [hpc])
    cases hloop : waitLoop s.eventStatus error with
    | none =>
      simp only [hloop] at hstep
      cases hstep
      have hsleep : sectionEnd e.eventStatus call error = .sleep call := by
        simp only [sectionEnd, hflag, hloop]
      have hin : InSection e.eventStatus (e.threads i) (.sleep call) := hsleep ▸ hat
      obtain ⟨b, hb, hnotes⟩ := hin.step (D := D)
      refine .inr ⟨b, _, hb, ?_, ?_⟩
      · rw [hnotes]
        simp only [notes, hpc, Event.endNotes]
      · refine h.section_ends hhas (h.mutex.unlock hhas rfl) (threads_setThread i (.sleeping call false)) h.manual
          hflag (by simp) (fun j hji => Function.update_of_ne hji _ _) ?_
        exact Function.update_self ..
    | some error' =>
      have hmove : ∀ {pc : AccessPc}, pc.hasMutex = true → pc ≠ .setStored → At e.eventStatus pc (e.threads i) →
          Refines (s.setThread i pc) e := by
        intro pc hpcMutex hto hatpc
        exact h.move (threads_setThread i pc) (h.mutex.move (threads_setThread i pc) rfl (hpcMutex.trans hhas.symm))
          rfl rfl (by simp [hpc]) hto hatpc
      have hends : InSection e.eventStatus (e.threads i) (sectionEnd e.eventStatus call error) := hat
      rw [sectionEnd_of_loop (hflag ▸ hloop)] at hends
      simp only [hloop] at hstep
      refine .inl ⟨?_, by simp only [notes, hpc]⟩
      cases call with
      | giveUp giveUpTs =>
        cases hstep
        exact hmove rfl (by simp) hends
      | warn warnTs giveUpTs =>
        cases hstep
        by_cases htimed : error' = .timedOut
        · rw [if_pos htimed]
          simp only [if_pos htimed] at hends
          exact hmove rfl (by simp) hends
        · rw [if_neg htimed]
          simp only [if_neg htimed] at hends
          exact hmove rfl (by simp) hends
  | looped error =>
    simp only [access, hpc] at hstep
    rw [hpc] at hat
    cases hstep
    have hhas : (s.threads i).hasMutex = true := by rw [hpc]; rfl
    have hflag := h.flag_eq hhas (by simp [hpc])
    have hin : InSection e.eventStatus (e.threads i) (.done error) := hat
    obtain ⟨b, hb, hnotes⟩ := hin.step (D := D)
    refine .inr ⟨b, _, hb, ?_, ?_⟩
    · rw [hnotes]
      simp only [notes, hpc, Event.endNotes]
    · refine h.section_ends hhas ?_ (threads_setThread i (.returning error)) h.manual ?_ (by simp)
        (fun j hji => Function.update_of_ne hji _ _) (Function.update_self ..)
      · exact h.mutex.move (threads_setThread i (.returning error)) rfl hhas.symm
      · simp only [Event.endSection, h.manual, hflag]
        rfl

/-- A step is a step of the sections with the same history, or none. -/
theorem refines_step [AbslDuration D] {e : Event} {a : AccessAction D} (hstep : s.step a = some s')
    (h : Refines s e) :
    (Refines s' e ∧ s.notes a = []) ∨
    ∃ (b : EventAction D) (e' : Event), e.step b = some e' ∧ e.notes b = s.notes a ∧ Refines s' e' := by
  -- a thread without the mutex goes where it is without it
  have hmutex : ∀ {i : Nat} {pc : AccessPc}, (s.threads i).hasMutex = false → pc.hasMutex = false →
      MutexInv (s.setThread i pc) :=
    fun hfrom hto => h.mutex.move (threads_setThread _ _) rfl (hto.trans hfrom.symm)
  cases a with
  | access i => exact refines_access hstep h
  | set i | reset i =>
    simp only [step] at hstep
    split at hstep <;> cases hstep
    rename_i hpc
    have hat := h.threads i
    rw [hpc] at hat
    refine .inl ⟨?_, rfl⟩
    exact h.move (threads_setThread i _) (hmutex (by rw [hpc]; rfl) rfl) rfl rfl (by simp [hpc]) (by simp) hat
  | wait i giveUpAfter warnAfter now₁ now₂ =>
    simp only [step] at hstep
    split at hstep <;> cases hstep
    rename_i hpc
    have hat := h.threads i
    rw [hpc] at hat
    refine .inr ⟨.wait i giveUpAfter warnAfter now₁ now₂, _, if_pos hat, rfl, ?_⟩
    exact h.move_both (threads_setThread i _) (hmutex (by rw [hpc]; rfl) rfl) rfl rfl (by simp [hpc]) (by simp) rfl
      rfl (fun j hji => Function.update_of_ne hji _ _) (Function.update_self ..)
  | wake i error =>
    simp only [step] at hstep
    split at hstep
    · rename_i call notified hpc
      split at hstep <;> cases hstep
      rename_i hmay
      have hat := h.threads i
      rw [hpc] at hat
      exact .inl ⟨h.move (threads_setThread i _) (hmutex (by rw [hpc]; rfl) rfl) rfl rfl (by simp [hpc]) (by simp)
        ⟨⟨notified, hat⟩, hmay⟩, rfl⟩
    · cases hstep

/-- Every run of the accesses is followed by a run of the sections with the same history. -/
theorem refines_run [AbslDuration D] {isManualReset initiallySignaled : Bool} {p : EventAccess × List EventNote}
    (h : Reaches (accessNoted D) Always (init isManualReset initiallySignaled, []) p) :
    ∃ e, Reaches (eventNoted D) Always (Event.init isManualReset initiallySignaled, []) (e, p.2) ∧
      Refines p.1 e := by
  have hfollowed : ∃ q : Event × List EventNote,
      Reaches (eventNoted D) Always (Event.init isManualReset initiallySignaled, []) q ∧
        Refines p.1 q.1 ∧ q.2 = p.2 := by
    refine h.simulate (R := fun p (q : Event × List EventNote) => Refines p.1 q.1 ∧ q.2 = p.2)
      (b := (Event.init isManualReset initiallySignaled, [])) (fun p a p' q _ hstep hq => ?_)
      ⟨refines_init isManualReset initiallySignaled, rfl⟩
    obtain ⟨hrefines, hnotes⟩ := hq
    obtain ⟨hstep, hseen⟩ := observe_eq_some.mp hstep
    obtain ⟨hsame, hnone⟩ | ⟨b, e', hb, hsame, hnext⟩ := refines_step hstep hrefines
    · exact .inl ⟨hsame, by rw [hseen, hnone, List.append_nil, hnotes]⟩
    · refine .inr ⟨b, (e', q.2 ++ q.1.notes b), observe_eq_some.mpr ⟨hb, rfl⟩, hnext, ?_⟩
      rw [hseen, hsame, hnotes]
  obtain ⟨q, hrun, hrefines, hnotes⟩ := hfollowed
  exact ⟨q.1, hnotes ▸ hrun, hrefines⟩

/-! ## The same run, access by access -/

/-- Where a thread is among the accesses when no section is under way. -/
def atRest : WaiterPc → AccessPc
  | .outside => .outside
  | .entered warnTs giveUpTs => .waiting warnTs giveUpTs
  | .asleep call notified => .sleeping call notified

theorem atRest_notify (pc : WaiterPc) : atRest pc.notify = (atRest pc).notify := by
  cases pc <;> rfl

/-- The accesses with one thread somewhere, and the others at rest. -/
def mid (e : Event) (eventStatus : Bool) (mutex : Option Nat) (i : Nat) (pc : AccessPc) : EventAccess :=
  ⟨e.isManualReset, eventStatus, mutex, Function.update (fun j => atRest (e.threads j)) i pc⟩

/-- The accesses with all at rest. -/
def ofEvent (e : Event) : EventAccess := ⟨e.isManualReset, e.eventStatus, none, fun i => atRest (e.threads i)⟩

@[simp] theorem mid_threads (e : Event) (eventStatus : Bool) (mutex : Option Nat) (i : Nat) (pc : AccessPc) :
    (mid e eventStatus mutex i pc).threads i = pc := by
  simp only [mid, Function.update_self]

@[simp] theorem mid_setThread (e : Event) (eventStatus : Bool) (mutex : Option Nat) (i : Nat) (pc pc' : AccessPc) :
    (mid e eventStatus mutex i pc).setThread i pc' = mid e eventStatus mutex i pc' := by
  simp only [mid, setThread, Function.update_idem]

/-- A thread that has come back to its place. -/
theorem mid_eq_ofEvent {e e' : Event} {i : Nat} {pc : AccessPc} (hmanual : e'.isManualReset = e.isManualReset)
    (hsame : ∀ j, j ≠ i → e'.threads j = e.threads j) (hpc : atRest (e'.threads i) = pc) :
    mid e e'.eventStatus none i pc = ofEvent e' := by
  simp only [mid, ofEvent, hmanual, EventAccess.mk.injEq, true_and]
  funext j
  by_cases hji : j = i
  · rw [hji, Function.update_self, hpc]
  · rw [Function.update_of_ne hji, hsame j hji]

section
variable [AbslDuration D] {e e' : Event} {i : Nat} {p : EventAccess × List EventNote} {h : List EventNote}

/-- One more access of a thread. -/
theorem go {s : EventAccess} (i : Nat) {notes : List EventNote} (hrun : Reaches (accessNoted D) Always p (s, h))
    (hstep : s.access i = some s') (hnotes : s.notes (.access i : AccessAction D) = notes) :
    Reaches (accessNoted D) Always p (s', h ++ notes) :=
  hrun.tail trivial (a := .access i) (observe_eq_some.mpr ⟨hstep, by rw [hnotes]⟩)

theorem goQuiet {s : EventAccess} (i : Nat) (hrun : Reaches (accessNoted D) Always p (s, h))
    (hstep : s.access i = some s') (hnotes : s.notes (.access i : AccessAction D) = []) :
    Reaches (accessNoted D) Always p (s', h) := by
  have hnext := go i hrun hstep hnotes
  rwa [List.append_nil] at hnext

omit [AbslDuration D] in
/-- The access at the head of the loop of the lambda. -/
theorem access_looping (e : Event) (eventStatus : Bool) (i : Nat) (call : WaitCall) (error : CondError) :
    (mid e eventStatus (some i) i (.looping call error)).access i =
      match waitLoop eventStatus error with
      | none => some (mid e eventStatus none i (.sleeping call false))
      | some error =>
        match call with
        | .giveUp _ => some (mid e eventStatus (some i) i (.looped error))
        | .warn _ giveUpTs =>
          some (mid e eventStatus (some i) i
            (if error = .timedOut then .looping (.giveUp giveUpTs) .ok else .looped error)) := by
  simp only [access, mid_threads, mid_setThread]
  simp only [mid, unlock, setThread, Function.update_idem]

/-- The end of a section that returns. -/
theorem run_looped {error : CondError}
    (hrun : Reaches (accessNoted D) Always p (mid e e.eventStatus (some i) i (.looped error), h)) :
    Reaches (accessNoted D) Always p
      (ofEvent (e.endSection i (.done error)), h ++ Event.endNotes i (.done error)) := by
  have hreturning : Reaches (accessNoted D) Always p
      (mid e (e.endSection i (.done error)).eventStatus (some i) i (.returning error),
        h ++ [.returned i (error == .ok)]) := by
    refine go i hrun ?_ (by simp only [notes, mid_threads])
    simp only [access, mid_threads]
    simp only [mid, setThread, Function.update_idem, Event.endSection]
    rfl
  have hended : Reaches (accessNoted D) Always p
      (mid e (e.endSection i (.done error)).eventStatus none i .outside, h ++ [.returned i (error == .ok)]) := by
    refine goQuiet i hreturning ?_ (by simp only [notes, mid_threads])
    simp only [access, mid_threads]
    simp only [mid, unlock, setThread, Function.update_idem]
  have hsame : mid e (e.endSection i (.done error)).eventStatus none i .outside =
      ofEvent (e.endSection i (.done error)) :=
    mid_eq_ofEvent rfl (fun j hji => Function.update_of_ne hji _ _)
      (by simp only [Event.endSection, Function.update_self, atRest])
  rwa [hsame] at hended

/-- The end of a section that sleeps. -/
theorem run_asleep {call : WaitCall} {error : CondError}
    (hrun : Reaches (accessNoted D) Always p (mid e e.eventStatus (some i) i (.looping call error), h))
    (hloop : waitLoop e.eventStatus error = none) :
    Reaches (accessNoted D) Always p (ofEvent (e.endSection i (.sleep call)), h) := by
  have hasleep : Reaches (accessNoted D) Always p (mid e e.eventStatus none i (.sleeping call false), h) :=
    goQuiet i hrun (by rw [access_looping, hloop]) (by simp only [notes, mid_threads])
  have hsame : mid e (e.endSection i (.sleep call)).eventStatus none i (.sleeping call false) =
      ofEvent (e.endSection i (.sleep call)) :=
    mid_eq_ofEvent rfl (fun j hji => Function.update_of_ne hji _ _)
      (by simp only [Event.endSection, Function.update_self, atRest])
  exact hsame ▸ hasleep

/-- The section from the loop of the lambda on. -/
theorem run_looping {call : WaitCall} {error : CondError}
    (hrun : Reaches (accessNoted D) Always p (mid e e.eventStatus (some i) i (.looping call error), h)) :
    Reaches (accessNoted D) Always p (ofEvent (e.endSection i (sectionEnd e.eventStatus call error)),
      h ++ Event.endNotes i (sectionEnd e.eventStatus call error)) := by
  -- the call that gives up is the last one
  have hgiveUp : ∀ {giveUpTs : Option Timespec} {error : CondError} {h : List EventNote},
      Reaches (accessNoted D) Always p (mid e e.eventStatus (some i) i (.looping (.giveUp giveUpTs) error), h) →
      Reaches (accessNoted D) Always p (ofEvent (e.endSection i (sectionEnd e.eventStatus (.giveUp giveUpTs) error)),
        h ++ Event.endNotes i (sectionEnd e.eventStatus (.giveUp giveUpTs) error)) := by
    intro giveUpTs error h hrun
    cases hloop : waitLoop e.eventStatus error with
    | none =>
      simp only [sectionEnd, hloop, Event.endNotes, List.append_nil]
      exact run_asleep hrun hloop
    | some error' =>
      simp only [sectionEnd, hloop]
      have hnext := goQuiet i hrun (by rw [access_looping, hloop]) (by simp only [notes, mid_threads])
      exact run_looped hnext
  cases call with
  | giveUp giveUpTs => exact hgiveUp hrun
  | warn warnTs giveUpTs =>
    cases hloop : waitLoop e.eventStatus error with
    | none =>
      simp only [sectionEnd, hloop, Event.endNotes, List.append_nil]
      exact run_asleep hrun hloop
    | some error' =>
      rw [sectionEnd_of_loop hloop]
      have hnext := goQuiet i hrun (by rw [access_looping, hloop]) (by simp only [notes, mid_threads])
      by_cases htimed : error' = .timedOut
      · simp only [if_pos htimed] at hnext ⊢
        exact hgiveUp hnext
      · simp only [if_neg htimed] at hnext ⊢
        exact run_looped hnext

/-- A thread takes the mutex. -/
theorem run_lock {pc pc' : AccessPc} (hrun : Reaches (accessNoted D) Always p (mid e e.eventStatus none i pc, h))
    (haccess : ∀ s : EventAccess, s.threads i = pc → s.access i = s.lock i pc')
    (hnotes : (mid e e.eventStatus none i pc).notes (.access i : AccessAction D) = []) :
    Reaches (accessNoted D) Always p (mid e e.eventStatus (some i) i pc', h) := by
  refine goQuiet i hrun ?_ hnotes
  rw [haccess _ (mid_threads ..)]
  simp only [lock, mid, setThread, Function.update_idem]

/-- A step of the sections is a run of accesses with the same history. -/
theorem run_of_section {b : EventAction D} (hstep : e.step b = some e') (h : List EventNote) :
    Reaches (accessNoted D) Always (ofEvent e, h) (ofEvent e', h ++ e.notes b) := by
  -- a call, which is made where the thread is at rest
  have hcall : ∀ {a : AccessAction D} {i : Nat} {pc : AccessPc},
      (ofEvent e).step a = some ((ofEvent e).setThread i pc) → (ofEvent e).notes a = [] →
      Reaches (accessNoted D) Always (ofEvent e, h) (mid e e.eventStatus none i pc, h) := by
    intro a i pc hcalled hnone
    refine Reaches.refl.tail trivial (observe_eq_some.mpr ⟨hcalled, ?_⟩)
    rw [hnone, List.append_nil]
  have hrest : ∀ {i : Nat} {pc : WaiterPc}, e.threads i = pc → (ofEvent e).threads i = atRest pc := by
    intro i pc hpc
    rw [← hpc]
    rfl
  cases b with
  | set i =>
    simp only [Event.step] at hstep
    split at hstep <;> cases hstep
    rename_i hpc
    have hset := hcall (a := .set i) (if_pos (hrest hpc)) rfl
    have hlocked : Reaches (accessNoted D) Always (ofEvent e, h) (mid e e.eventStatus (some i) i .setLocked, h) :=
      run_lock hset (fun s hs => by simp only [access, hs]) (by simp only [notes, mid_threads])
    have hstored : Reaches (accessNoted D) Always (ofEvent e, h) (mid e true (some i) i .setStored, h) := by
      refine goQuiet i hlocked ?_ (by simp only [notes, mid_threads])
      simp only [access, mid_threads]
      simp only [mid, setThread, Function.update_idem]
    let e' : Event := { e with eventStatus := true, threads := fun j => (e.threads j).notify }
    have hbroadcast : Reaches (accessNoted D) Always (ofEvent e, h)
        (mid e' true (some i) i .setBroadcast, h ++ [.set i]) := by
      refine go i hstored ?_ (by simp only [notes, mid_threads])
      simp only [access, mid_threads]
      simp only [mid, setThread, Option.some.injEq, EventAccess.mk.injEq, true_and, e']
      funext j
      by_cases hji : j = i
      · rw [hji, Function.update_self, Function.update_self]
      · rw [Function.update_of_ne hji, Function.update_of_ne hji, Function.update_of_ne hji, atRest_notify]
    have hended : Reaches (accessNoted D) Always (ofEvent e, h)
        (mid e' e'.eventStatus none i .outside, h ++ [.set i]) := by
      refine goQuiet i hbroadcast ?_ (by simp only [notes, mid_threads])
      simp only [access, mid_threads]
      simp only [mid, unlock, setThread, Function.update_idem, e']
    rwa [mid_eq_ofEvent rfl (fun _ _ => rfl) (by simp only [e', hpc]; rfl)] at hended
  | reset i =>
    simp only [Event.step] at hstep
    split at hstep <;> cases hstep
    rename_i hpc
    have hreset := hcall (a := .reset i) (if_pos (hrest hpc)) rfl
    have hlocked : Reaches (accessNoted D) Always (ofEvent e, h) (mid e e.eventStatus (some i) i .resetLocked, h) :=
      run_lock hreset (fun s hs => by simp only [access, hs]) (by simp only [notes, mid_threads])
    let e' : Event := { e with eventStatus := false }
    have hstored : Reaches (accessNoted D) Always (ofEvent e, h)
        (mid e' false (some i) i .resetStored, h ++ [.reset i]) := by
      refine go i hlocked ?_ (by simp only [notes, mid_threads])
      simp only [access, mid_threads]
      simp only [mid, setThread, Function.update_idem, e']
    have hended : Reaches (accessNoted D) Always (ofEvent e, h)
        (mid e' e'.eventStatus none i .outside, h ++ [.reset i]) := by
      refine goQuiet i hstored ?_ (by simp only [notes, mid_threads])
      simp only [access, mid_threads]
      simp only [mid, unlock, setThread, Function.update_idem, e']
    rwa [mid_eq_ofEvent rfl (fun _ _ => rfl) (by simp only [e', hpc]; rfl)] at hended
  | wait i giveUpAfter warnAfter now₁ now₂ =>
    simp only [Event.step] at hstep
    split at hstep <;> cases hstep
    rename_i hpc
    have hwait := hcall (a := .wait i giveUpAfter warnAfter now₁ now₂) (if_pos (hrest hpc)) rfl
    let e' : Event := { e with
      threads := Function.update e.threads i
        (.entered (warnDeadline now₁ giveUpAfter warnAfter) (giveUpDeadline now₂ giveUpAfter)) }
    have hended : mid e e'.eventStatus none i
        (.waiting (warnDeadline now₁ giveUpAfter warnAfter) (giveUpDeadline now₂ giveUpAfter)) = ofEvent e' :=
      mid_eq_ofEvent rfl (fun j hji => Function.update_of_ne hji _ _)
        (by simp only [e', Function.update_self, atRest])
    rw [Event.notes, List.append_nil]
    exact hended ▸ hwait
  | lock i =>
    simp only [Event.step] at hstep
    split at hstep
    · rename_i warnTs giveUpTs hpc
      cases hstep
      simp only [Event.notes, hpc]
      have hentered : Reaches (accessNoted D) Always (ofEvent e, h)
          (mid e e.eventStatus none i (.waiting warnTs giveUpTs), h) := by
        rw [mid_eq_ofEvent rfl (fun _ _ => rfl) (by rw [hpc]; rfl)]
        exact Reaches.refl
      refine run_looping (run_lock hentered (fun s hs => ?_) (by simp only [notes, mid_threads]))
      simp only [access, hs]
    · cases hstep
  | wake i error =>
    simp only [Event.step] at hstep
    split at hstep
    · rename_i call notified hpc
      split at hstep <;> cases hstep
      rename_i hmay
      simp only [Event.notes, hpc]
      have hwake : Reaches (accessNoted D) Always (ofEvent e, h)
          (mid e e.eventStatus none i (.waking call error), h) :=
        hcall (a := .wake i error) (by simp only [step, hrest hpc, atRest, if_neg hmay]) rfl
      refine run_looping (run_lock hwake (fun s hs => ?_) (by simp only [notes, mid_threads]))
      simp only [access, hs]
    · cases hstep

/-- **The sections are atomic.** What can be seen of an event, over any order of the single accesses of any
    number of threads, is what can be seen of it when each section with the mutex is one step, and nothing
    else: each run of the one kind has a run of the other with the same history. -/
theorem accesses_atomic (isManualReset initiallySignaled : Bool) (history : List EventNote) :
    (∃ s, Reaches (accessNoted D) Always (init isManualReset initiallySignaled, []) (s, history)) ↔
    ∃ e, Reaches (eventNoted D) Always (Event.init isManualReset initiallySignaled, []) (e, history) := by
  constructor
  · intro hx
    obtain ⟨s, hrun⟩ := hx
    obtain ⟨e, hrun', -⟩ := refines_run hrun
    exact ⟨e, hrun'⟩
  · intro hx
    obtain ⟨e, hrun⟩ := hx
    refine ⟨ofEvent e, ?_⟩
    refine hrun.invariant (P := fun q => Reaches (accessNoted D) Always (init isManualReset initiallySignaled, [])
      (ofEvent q.1, q.2)) (fun q b q' _ hstep ih => ?_) .refl
    obtain ⟨hstep, hseen⟩ := observe_eq_some.mp hstep
    have hnext := ih.trans (run_of_section hstep q.2)
    rwa [← hseen] at hnext

end

end EventAccess

end IoBase
