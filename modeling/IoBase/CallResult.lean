import IoBase.BlockingCall

/- What a value-returning `BlockingCall` returns.

   `BlockingCall<ReturnT>` declares a local `result`, makes a blocking call whose
   functor assigns to it, and returns it. `CallValues` is the loop with these locals:
   `result c` is the local of the call `c`, `none` while nothing has been assigned.
   Each step is given the value that the functor returns that ends in it, if one does.

   The local stays unassigned where the functor is passed over (`skippedCall`): the
   loop has not begun or has quit, or `Quit` destroys the queued task.

   * `blockingCall_value`: a call returns what its functor returned exactly if no step
     has passed the functor over.
   * `unassigned_result`: a call on a loop that has not begun. -/
namespace IoBase
open Transition State

variable {D V : Type}

namespace State

/-- The call whose functor ends in this step. -/
def endedCall (s : State D) : Action D → Option CallId
  | .loop _ =>
    match s.stack with
    | .running (.call c) _ :: _ => some c
    | .inlineCall c :: _ => some c
    | _ => none
  | _ => none

/-- The call whose functor this step passes over: it finds the loop quitting, in `BlockingCallImpl` or
    in `PostTaskImpl`, or `Quit` destroys its task. -/
def skippedCall (s : State D) : Action D → Option CallId
  | .resume i _ =>
    match s.threads i with
    | .callEntered c => if s.isQuitting then some c else none
    | .postEntered (.call c) => if s.isQuitting then some c else none
    | .quitting =>
      match s.quit with
      | .swapped (.call c :: _) => some c
      | _ => none
    | _ => none
  | _ => none

end State

/-- The loop with the locals of the calls. History: what the functors returned, the calls whose functor
    was passed over, and what the calls returned. -/
structure CallValues (D V : Type) where
  state : State D
  result : CallId → Option V
  produced : List (CallId × V)
  skipped : List CallId
  returned : CallId → Option (Option V)

namespace CallValues

def init : CallValues D V where
  state := State.init
  result := fun _ => none
  produced := []
  skipped := []
  returned := fun _ => none

variable [AbslDuration D]

/-- A step of the loop; `a.2` is what the functor returns if one ends. -/
def step (s : CallValues D V) (a : Action D × V) : Option (CallValues D V) :=
  (IoBase.step s.state a.1).map fun state =>
    let result := fun c => if s.state.endedCall a.1 = some c then some a.2 else s.result c
    { state
      result
      produced := s.produced ++ (s.state.endedCall a.1).toList.map fun c => (c, a.2)
      skipped := s.skipped ++ (s.state.skippedCall a.1).toList
      -- `return result`
      returned := fun c =>
        if (state.calls c).returned && !(s.state.calls c).returned then some (result c) else s.returned c }

end CallValues

/-! ## The ends and the skips in the life of a call -/

variable [AbslDuration D]

/-- A functor that ends is no longer executing, and nothing else happens to the call. -/
theorem calls_of_ended {s s' : State D} {a : Action D} {c : CallId} (h : step s a = some s')
    (hended : s.endedCall a = some c) :
    s'.calls c = { s.calls c with executing := false } := by
  cases step_cases h with
  | @loop o f fs _ _ hs hf =>
    simp only [endedCall, hs] at hended
    cases framed hf with
    | @finish t rest =>
      cases t with
      | call c' =>
        cases hended
        simp [finishTask, finishFunctor, updateCall]
      | user | hop => cases hended
    | inlineDone =>
      cases hended
      simp [setThread, finishFunctor, updateCall]
    | _ => cases hended
  | _ => cases hended

/-- A call that is passed over has returned, or its task is destroyed. -/
theorem calls_of_skipped {s s' : State D} {a : Action D} {c : CallId} (h : step s a = some s')
    (hskipped : s.skippedCall a = some c) : (s'.calls c).done = true ∨ (s'.calls c).returned = true := by
  cases step_cases h with
  | @resume i o _ hr =>
    cases resumed hr with
    | @refuse t hpc hq =>
      cases t with
      | call c' =>
        simp only [skippedCall, hpc, hq, if_true, Option.some.injEq] at hskipped
        subst hskipped
        exact .inl (by simp [setThread, destroyTask, updateCall])
      | user | hop => simp [skippedCall, hpc] at hskipped
    | refuseCall hpc hq =>
      simp only [skippedCall, hpc, hq, if_true, Option.some.injEq] at hskipped
      subst hskipped
      exact .inr (by simp [setThread, updateCall])
    | @quitDestroy t rest hpc hphase =>
      cases t with
      | call c' =>
        simp only [skippedCall, hpc, hphase, Option.some.injEq] at hskipped
        subst hskipped
        exact .inl (by simp [destroyTask, updateCall])
      | user | hop => simp [skippedCall, hpc, hphase] at hskipped
    | check hpc hq => cases ‹Task D› <;> simp [skippedCall, hpc, hq] at hskipped
    | checkCall hpc hq => simp [skippedCall, hpc, hq] at hskipped
    | quitSwap hpc hphase | quitStore hpc hphase => simp [skippedCall, hpc, hphase] at hskipped
    | push hpc | wake hpc | refuseDelayed hpc | checkDelayed hpc | postNow hpc | postTimer hpc | postHop hpc
    | inline hpc | postCall hpc | wakeCaller hpc | returnCall hpc => simp [skippedCall, hpc] at hskipped
  | _ => cases hskipped

/-- What becomes of the record of a call in a step that neither ends its functor nor passes it over: an
    executing functor goes on; its task is destroyed only after it was run; and the call returns only
    once its task is destroyed or its functor has run in place. -/
structure GoesOn (s : State D) (c : CallId) (k : CallRecord) : Prop where
  executing : (s.calls c).executing = true → k.executing = true
  done : k.done = true → (s.calls c).done = true ∨ ∃ rest fs, s.stack = .ran (.call c) rest :: fs
  returned : k.returned = true →
    (s.calls c).returned = true ∨ (s.calls c).done = true ∨ ∃ i, s.threads i = .callReturning c

omit [AbslDuration D] in
theorem GoesOn.same (s : State D) (c : CallId) : GoesOn s c (s.calls c) := ⟨id, .inl, .inl⟩

omit [AbslDuration D] in
/-- One call's record changes: another's is the same. -/
theorem GoesOn.update {s : State D} {c c' : CallId} {k : CallRecord} (h : c' = c → GoesOn s c k) :
    GoesOn s c (Function.update s.calls c' k c) := by
  by_cases he : c' = c
  · subst he
    rw [Function.update_self]
    exact h rfl
  · rw [Function.update_of_ne (Ne.symm he)]
    exact .same s c

theorem goesOn_resume {s s' : State D} {i : Tid} {o : Outcome} {c : CallId} (h : s.resume i o = some s')
    (hskipped : s.skippedCall (.resume i o) ≠ some c) : GoesOn s c (s'.calls c) := by
  have hdestroy : ∀ t : Task D, t ≠ .call c → GoesOn s c ((s.destroyTask t).calls c) := by
    intro t ht
    rw [destroyTask_calls (fun hcall => ht (isCall_iff.mp hcall))]
    exact .same s c
  cases resumed h with
  | @refuse t hpc hq =>
    refine hdestroy t fun ht => hskipped ?_
    subst ht
    simp [skippedCall, hpc, hq]
  | @quitDestroy t rest hpc hphase =>
    refine hdestroy t fun ht => hskipped ?_
    subst ht
    simp [skippedCall, hpc, hphase]
  | refuseCall hpc hq =>
    refine GoesOn.update (s := s) fun he => absurd ?_ hskipped
    subst he
    simp [skippedCall, hpc, hq]
  | inline hpc hcur =>
    refine GoesOn.update (s := s) fun he => ?_
    subst he
    exact ⟨fun _ => rfl, .inl, .inl⟩
  | wakeCaller hpc hdone =>
    refine GoesOn.update (s := s) fun he => ?_
    subst he
    exact ⟨id, .inl, fun _ => .inr (.inl hdone)⟩
  | returnCall hpc =>
    refine GoesOn.update (s := s) fun he => ?_
    subst he
    exact ⟨id, .inl, fun _ => .inr (.inr ⟨i, hpc⟩)⟩
  | _ => exact .same s c

theorem goesOn_frameStep {s s' : State D} {o : Outcome} {f : Frame D} {fs : List (Frame D)} {c : CallId}
    (hs : s.stack = f :: fs) (h : s.frameStep o fs f = some s') (hended : s.endedCall (.loop o) ≠ some c) :
    GoesOn s c (s'.calls c) := by
  cases framed h with
  | wait =>
    rw [dispatch_eq]
    exact .same s c
  | @start t rest =>
    cases t with
    | call c' =>
      refine GoesOn.update (s := s) fun he => ?_
      subst he
      exact ⟨fun _ => rfl, .inl, .inl⟩
    | user | hop => exact .same s c
  | @finish t rest =>
    cases t with
    | call c' =>
      refine GoesOn.update (s := s) fun he => absurd ?_ hended
      subst he
      simp [endedCall, hs]
    | user | hop => exact .same s c
  | @destroy t rest =>
    cases t with
    | call c' =>
      refine GoesOn.update (s := s) fun he => ?_
      subst he
      exact ⟨id, fun _ => .inr ⟨rest, fs, hs⟩, .inl⟩
    | user | hop => exact .same s c
  | inlineDone =>
    refine GoesOn.update (s := s) fun he => absurd ?_ hended
    subst he
    simp [endedCall, hs]
  | _ => exact .same s c

theorem goesOn_step {s s' : State D} {a : Action D} {c : CallId} (h : step s a = some s')
    (hc : c ≠ s.nextCall) (hended : s.endedCall a ≠ some c) (hskipped : s.skippedCall a ≠ some c) :
    GoesOn s c (s'.calls c) := by
  cases step_cases h with
  | call hm he =>
    cases ‹ApiCall D› with
    | blockingCall =>
      cases he
      simpa only [Function.update_of_ne hc] using GoesOn.same s c
    | quit =>
      simp only [enter] at he
      split at he
      · cases he
        exact .same s c
      · cases he
    | postTask | postDelayedTask => cases he; exact .same s c
  | resume hr => exact goesOn_resume hr hskipped
  | loop _ hs hf => exact goesOn_frameStep hs hf hended
  | _ => exact .same s c

omit [AbslDuration D] in
/-- The functor that ends is that of a call that is being run. -/
theorem phase_of_ended {s : State D} {a : Action D} {c : CallId} {p : CallPhase} (hat : CallAt s c p)
    (h : s.endedCall a = some c) : p = .inline ∨ ∃ i, p = .running i := by
  cases a with
  | loop o =>
    simp only [endedCall] at h
    split at h
    · rename_i c' rest fs hs
      cases h
      have hplace := hat.place_of_frame hs .running (by simp [Frame.count, Task.isCall])
      cases p with
      | running i => exact .inr ⟨i, rfl⟩
      | _ => cases hplace
    · rename_i c' fs hs
      cases h
      have hplace := hat.place_of_frame hs .inline (by simp [Frame.count])
      cases p with
      | inline => exact .inl rfl
      | _ => cases hplace
    · cases h
  | _ => cases h

omit [AbslDuration D] in
/-- The call that is passed over has just been made, or its task is still queued. -/
theorem phase_of_skipped {s : State D} {a : Action D} {c : CallId} {p : CallPhase} (hat : CallAt s c p)
    (h : s.skippedCall a = some c) : ∃ i, p = .entered i ∨ p = .posting i ∨ p = .queued i := by
  cases a with
  | resume i o =>
    simp only [skippedCall] at h
    split at h
    · rename_i c' hpc
      split at h
      · cases h
        have hrole : (s.threads i).role c = .entered := by simp [hpc, ThreadPc.role]
        obtain ⟨-, hp⟩ := hat.caller_eq (by rw [hrole]; simp)
        rw [hrole] at hp
        cases p with
        | entered j => exact ⟨j, .inl rfl⟩
        | _ => cases hp
      · cases h
    · rename_i c' hpc
      split at h
      · cases h
        have hrole : (s.threads i).role c = .posting := by simp [hpc, ThreadPc.role, Task.isCall]
        obtain ⟨-, hp⟩ := hat.caller_eq (by rw [hrole]; simp)
        rw [hrole] at hp
        cases p with
        | posting j => exact ⟨j, .inr (.inl rfl)⟩
        | _ => cases hp
      · cases h
    · split at h
      · rename_i c' rest hphase
        cases h
        have hplace := hat.place_eq .queued (by
          simp only [State.count, queueCount, hphase, QuitPhase.discarded, List.countP_cons, Task.isCall,
            beq_self_eq_true, if_true]
          omega)
        cases p with
        | queued j => exact ⟨j, .inr (.inr rfl)⟩
        | _ => cases hplace
      · cases h
    · cases h
  | _ => cases h

omit [AbslDuration D] in
theorem CallAt.ne_nextCall {s : State D} {c : CallId} {p : CallPhase} (hat : CallAt s c p) (hused : p ≠ .unused) :
    c ≠ s.nextCall :=
  fun hc => hused (hat.fresh.mp (Nat.le_of_eq hc.symm))

/-- The step ends the functor of the call exactly if that takes the call to its next phase. -/
theorem ended_iff {s s' : State D} {a : Action D} {c : CallId} {p p' : CallPhase} (h : step s a = some s')
    (hat : CallAt s c p) (hat' : CallAt s' c p') (hp : p' = p ∨ ∃ e, p.next e = some p') :
    s.endedCall a = some c ↔ p.next .finish = some p' := by
  constructor
  · intro hended
    have hexecuting : p'.record.executing = false := by
      rw [← hat'.record, calls_of_ended h hended]
    rcases hp with rfl | ⟨e, hnext⟩
    · rcases phase_of_ended hat hended with rfl | ⟨i, rfl⟩ <;> cases hexecuting
    · rcases phase_of_ended hat hended with rfl | ⟨i, rfl⟩ <;> cases CallPhase.nexted hnext <;> rfl
  · intro hfinish
    by_contra hended
    have hskipped : s.skippedCall a ≠ some c := by
      intro hskipped
      obtain ⟨i, rfl | rfl | rfl⟩ := phase_of_skipped hat hskipped <;> cases hfinish
    have hused : p ≠ .unused := by
      intro hunused
      subst hunused
      cases hfinish
    have hgoes := (goesOn_step h (hat.ne_nextCall hused) hended hskipped).executing
    rw [hat.record, hat'.record] at hgoes
    cases CallPhase.nexted hfinish <;> exact absurd (hgoes rfl) (by simp [CallPhase.record])

/-- The step passes the call over exactly if it is refused or dropped. -/
theorem skipped_iff {s s' : State D} {a : Action D} {c : CallId} {p p' : CallPhase} (h : step s a = some s')
    (hat : CallAt s c p) (hat' : CallAt s' c p') (hp : p' = p ∨ ∃ e, p.next e = some p') :
    s.skippedCall a = some c ↔ p.next .drop = some p' ∨ ∃ b, p.next (.refuse b) = some p' := by
  constructor
  · intro hskipped
    have hreleased := calls_of_skipped h hskipped
    rw [hat'.record] at hreleased
    rcases hp with rfl | ⟨e, hnext⟩
    · obtain ⟨i, rfl | rfl | rfl⟩ := phase_of_skipped hat hskipped <;> simp [CallPhase.record] at hreleased
    · have hnexted := CallPhase.nexted hnext
      obtain ⟨i, rfl | rfl | rfl⟩ := phase_of_skipped hat hskipped
      · cases hnexted with
        | refuse => exact .inr ⟨_, rfl⟩
        | check => simp [CallPhase.record] at hreleased
      · cases hnexted with
        | push => simp [CallPhase.record] at hreleased
        | refusePost => exact .inl rfl
      · cases hnexted with
        | start => simp [CallPhase.record] at hreleased
        | drop => exact .inl rfl
  · intro hskip
    by_contra hskipped
    have hphase : ∃ i, p = .entered i ∨ p = .posting i ∨ p = .queued i := by
      rcases hskip with hdrop | ⟨b, hrefuse⟩
      · cases CallPhase.nexted hdrop with
        | refusePost => exact ⟨_, .inr (.inl rfl)⟩
        | drop => exact ⟨_, .inr (.inr rfl)⟩
      · cases CallPhase.nexted hrefuse
        exact ⟨_, .inl rfl⟩
    have hafter : p'.record.done = true ∨ p'.record.returned = true := by
      rcases hskip with hdrop | ⟨b, hrefuse⟩
      · cases CallPhase.nexted hdrop <;> exact .inl rfl
      · cases CallPhase.nexted hrefuse
        exact .inr rfl
    obtain ⟨hused, hdone, hreturned, hran, hrole⟩ : p ≠ .unused ∧ p.record.done = false ∧
        p.record.returned = false ∧ p.place ≠ some .ran ∧ p.role ≠ .returning := by
      obtain ⟨i, rfl | rfl | rfl⟩ := hphase <;> exact ⟨by simp, rfl, rfl, by simp [CallPhase.place], by simp [CallPhase.role]⟩
    have hended : s.endedCall a ≠ some c := by
      intro hended
      obtain ⟨i, hi⟩ := hphase
      rcases phase_of_ended hat hended with rfl | ⟨j, rfl⟩ <;> simp at hi
    have hgoes := goesOn_step h (hat.ne_nextCall hused) hended hskipped
    rw [hat'.record] at hgoes
    rcases hafter with hdone' | hreturned'
    · rcases hgoes.done hdone' with hset | ⟨rest, fs, hs⟩
      · rw [hat.record, hdone] at hset
        cases hset
      · exact hran (hat.place_of_frame hs .ran (by simp [Frame.count, Task.isCall]))
    · rcases hgoes.returned hreturned' with hset | hset | ⟨i, hpc⟩
      · rw [hat.record, hreturned] at hset
        cases hset
      · rw [hat.record, hdone] at hset
        cases hset
      · have hreturning : (s.threads i).role c = .returning := by simp [hpc, ThreadPc.role]
        obtain ⟨-, hp⟩ := hat.caller_eq (by rw [hreturning]; simp)
        exact hrole (hp.trans hreturning)

/-! ## The local of a call -/

namespace CallPhase

/-- The functor has run to its end. -/
def finished : CallPhase → Bool
  | .ran _ => true
  | .returning => true
  | .destroyed _ hasRun => hasRun
  | .returned _ hasRun _ _ => hasRun
  | _ => false

/-- The functor was passed over. -/
def passedOver : CallPhase → Bool
  | .destroyed _ hasRun => !hasRun
  | .returned _ hasRun _ _ => !hasRun
  | _ => false

theorem finished_next {p p' : CallPhase} {e : CallEvent} (h : p.next e = some p') :
    p'.finished = true ↔ p.finished = true ∨ p.next .finish = some p' := by
  cases nexted h <;> simp [finished, next]

theorem passedOver_next {p p' : CallPhase} {e : CallEvent} (h : p.next e = some p') :
    p'.passedOver = true ↔
      p.passedOver = true ∨ p.next .drop = some p' ∨ ∃ b, p.next (.refuse b) = some p' := by
  cases nexted h <;> simp [passedOver, next]

theorem next_ne_self {p : CallPhase} {e : CallEvent} : p.next e ≠ some p := by
  intro h
  cases p <;> cases nexted h

theorem not_finished_of_next {p p' : CallPhase} (h : p.next .finish = some p') : p.finished = false := by
  cases nexted h <;> rfl

end CallPhase

/-- What the functor of `c` returned, each time it ended. -/
def CallValues.values (s : CallValues D V) (c : CallId) : List (CallId × V) :=
  s.produced.filter fun entry => entry.1 == c

/-- The call is in the phase, and its local and the history say so. -/
structure ValueAt (s : CallValues D V) (c : CallId) (p : CallPhase) : Prop where
  phase : CallAt s.state c p
  assigned : p.finished = true → ∃ v, s.result c = some v ∧ s.values c = [(c, v)]
  unassigned : p.finished = false → s.result c = none ∧ s.values c = []
  skipped : c ∈ s.skipped ↔ p.passedOver = true
  returned : s.returned c = if p.record.returned then some (s.result c) else none

/-- What a step does to the local of a call and to the history. -/
theorem values_step {s s' : CallValues D V} {a : Action D × V} (h : s.step a = some s') (c : CallId) :
    IoBase.step s.state a.1 = some s'.state ∧
    (s.state.endedCall a.1 = some c → s'.result c = some a.2 ∧ s'.values c = s.values c ++ [(c, a.2)]) ∧
    (s.state.endedCall a.1 ≠ some c → s'.result c = s.result c ∧ s'.values c = s.values c) ∧
    (c ∈ s'.skipped ↔ c ∈ s.skipped ∨ s.state.skippedCall a.1 = some c) ∧
    s'.returned c = if (s'.state.calls c).returned && !(s.state.calls c).returned then some (s'.result c)
      else s.returned c := by
  obtain ⟨state, hstep, rfl⟩ := Option.map_eq_some_iff.mp h
  refine ⟨hstep, fun hended => ?_, fun hended => ?_, ?_, rfl⟩
  · refine ⟨if_pos hended, ?_⟩
    simp [CallValues.values, hended]
  · refine ⟨if_neg hended, ?_⟩
    cases hcall : s.state.endedCall a.1 with
    | none => simp [CallValues.values]
    | some c' =>
      have hne : c' ≠ c := fun he => hended (he ▸ hcall)
      simp [CallValues.values, hne]
  · simp [Option.mem_toList]

theorem valueAt_step {s s' : CallValues D V} {a : Action D × V} {c : CallId} {p : CallPhase}
    (hinv : CallsInv s.state) (h : s.step a = some s') (hv : ValueAt s c p) : ∃ p', ValueAt s' c p' := by
  obtain ⟨hstep, hended, hnotEnded, hskipped, hreturned⟩ := values_step h c
  obtain ⟨p', hp, hat'⟩ : ∃ p', (p' = p ∨ ∃ e, p.next e = some p') ∧ CallAt s'.state c p' := by
    rcases call_step hinv.control hinv.running hstep hv.phase with hat' | ⟨e, p', -, hnext, hat'⟩
    · exact ⟨p, .inl rfl, hat'⟩
    · exact ⟨p', .inr ⟨e, hnext⟩, hat'⟩
  have hends := ended_iff hstep hv.phase hat' hp
  have hskips := skipped_iff hstep hv.phase hat' hp
  rw [hv.phase.record, hat'.record] at hreturned
  have hfinishes : p'.finished = true ↔ p.finished = true ∨ s.state.endedCall a.1 = some c := by
    rw [hends]
    rcases hp with rfl | ⟨e, hnext⟩
    · simp [CallPhase.next_ne_self]
    · exact CallPhase.finished_next hnext
  have hpasses : p'.passedOver = true ↔ p.passedOver = true ∨ s.state.skippedCall a.1 = some c := by
    rw [hskips]
    rcases hp with rfl | ⟨e, hnext⟩
    · simp [CallPhase.next_ne_self]
    · exact CallPhase.passedOver_next hnext
  refine ⟨p', hat', fun hfinished => ?_, fun hfinished => ?_, ?_, ?_⟩
  · by_cases hend : s.state.endedCall a.1 = some c
    · obtain ⟨hresult, hvalues⟩ := hended hend
      obtain ⟨-, hnone⟩ := hv.unassigned (CallPhase.not_finished_of_next (hends.mp hend))
      exact ⟨a.2, hresult, by rw [hvalues, hnone]; rfl⟩
    · obtain ⟨hresult, hvalues⟩ := hnotEnded hend
      rw [hresult, hvalues]
      exact hv.assigned ((hfinishes.mp hfinished).resolve_right hend)
  · have hnone : ¬(p.finished = true ∨ s.state.endedCall a.1 = some c) := by
      rw [← hfinishes, hfinished]
      simp
    rw [not_or, Bool.not_eq_true] at hnone
    obtain ⟨hresult, hvalues⟩ := hnotEnded hnone.2
    rw [hresult, hvalues]
    exact hv.unassigned hnone.1
  · rw [hskipped, hv.skipped, hpasses]
  · rw [hreturned, hv.returned]
    cases hret : p.record.returned with
    | false => simp
    | true =>
      -- the call has returned before, and keeps its phase
      rcases hp with rfl | ⟨e, hnext⟩
      · have hend : s.state.endedCall a.1 ≠ some c := fun hend => CallPhase.next_ne_self (hends.mp hend)
        simp [hret, (hnotEnded hend).1]
      · rw [CallPhase.next_returned hnext] at hret
        cases hret

omit [AbslDuration D] in
theorem valueAt_init (c : CallId) : ∃ p, ValueAt (CallValues.init : CallValues D V) c p := by
  obtain ⟨p, hat⟩ := (callsInv_init (D := D)).phase c
  obtain rfl : p = .unused := hat.fresh.mp (Nat.zero_le c)
  exact ⟨.unused, hat, nofun, fun _ => ⟨rfl, rfl⟩, by simp [CallValues.init, CallPhase.passedOver], rfl⟩

theorem valueAt_of_reaches {s : CallValues D V} (h : Reaches CallValues.step Always CallValues.init s)
    (c : CallId) : ∃ p, ValueAt s c p := by
  have hboth : CallsInv s.state ∧ ∃ p, ValueAt s c p := by
    refine h.invariant (P := fun s => CallsInv s.state ∧ ∃ p, ValueAt s c p) ?_
      ⟨callsInv_init, valueAt_init c⟩
    intro s a s' _ hstep hp
    obtain ⟨hinv, p, hv⟩ := hp
    exact ⟨callsInv_step (values_step hstep c).1 hinv, valueAt_step hinv hstep hv⟩
  exact hboth.2

/-- **A call returns what its functor returned**, in every run, exactly if no step of the run has passed
    its functor over. -/
theorem blockingCall_value {s : CallValues D V} (h : Reaches CallValues.step Always CallValues.init s)
    {c : CallId} {x : Option V} (hreturned : s.returned c = some x) :
    (∃ v, x = some v ∧ s.values c = [(c, v)] ∧ (s.state.calls c).ranOn = [loopThread]) ↔ c ∉ s.skipped := by
  obtain ⟨p, hv⟩ := valueAt_of_reaches h c
  have hret := hreturned.symm.trans hv.returned
  rw [hv.skipped, hv.phase.record]
  cases p with
  | returned i hasRun done foundNotBegun =>
    simp only [CallPhase.record, if_true, Option.some.injEq] at hret
    subst hret
    cases hasRun with
    | true =>
      obtain ⟨v, hresult, hvalues⟩ := hv.assigned rfl
      exact ⟨fun _ => by simp [CallPhase.passedOver], fun _ => ⟨v, hresult, hvalues, rfl⟩⟩
    | false =>
      obtain ⟨hresult, -⟩ := hv.unassigned rfl
      constructor
      · intro hx
        obtain ⟨v, hassigned, -⟩ := hx
        cases hresult.symm.trans hassigned
      · exact fun hnot => absurd rfl hnot
  | _ => cases hret

/-- One call returns 42; the other is queued when `Quit` discards it. -/
theorem blockingCall_value_twoCalls :
    ∃ s : CallValues Ticks Nat, Reaches CallValues.step Always CallValues.init s ∧
      s.returned 0 = some (some 42) ∧ s.returned 1 = some none ∧
      ((∃ v, some 42 = some v ∧ s.values 0 = [(0, v)] ∧ (s.state.calls 0).ranOn = [loopThread]) ↔
        0 ∉ s.skipped) := by
  have hrun : (runWhile CallValues.step Always (CallValues.init : CallValues Ticks Nat)
      (twoCallsRun.map fun a => (a, 42))).isSome = true := by decide
  have hreach := reaches_get hrun
  exact ⟨_, hreach, rfl, rfl, blockingCall_value hreach rfl⟩

/-- A call on a loop that has not begun. -/
theorem unassigned_result :
    ¬∀ s : CallValues Ticks Nat, Reaches CallValues.step Always CallValues.init s →
      ∀ c x, s.returned c = some x →
        ∃ v, x = some v ∧ s.values c = [(c, v)] ∧ (s.state.calls c).ranOn = [loopThread] := by
  intro hclaim
  have hrun : (runWhile CallValues.step Always (CallValues.init : CallValues Ticks Nat)
      [(.call 1 .blockingCall, 0), (.resume 1 {}, 0)]).isSome = true := by decide
  obtain ⟨v, hv, -⟩ := hclaim _ (reaches_get hrun) 0 none rfl
  cases hv

end IoBase
