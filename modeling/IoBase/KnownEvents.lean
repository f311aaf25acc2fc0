import IoBase.Steps

/- The masks the listeners are called with.

   A mask of events is noted as it is given, but what reaches a listener has been
   through `GetPollMask` and `GetEventMask`, which know three kinds of events. So
   no ready list and no listener call has another bit (`knownEvents_of_reachable`). -/
namespace IoBase
open Transition State

variable {D : Type}

/-- The part of the ready list that is left. -/
def Frame.ready : Frame D → List ReadyListEntry
  | .enumerating _ _ ready => ready
  | .callbacks _ ready => ready
  | .inCallback _ _ rest => rest
  | _ => []

/-- Only the three kinds of events are on a ready list, and given to a listener. -/
structure KnownEvents (s : State D) : Prop where
  ready : ∀ entry ∈ s.stack.flatMap Frame.ready, Within entry.events allEvents
  called : ∀ cb ∈ s.called, Within cb.events allEvents

/-- An entry that is added to the ready list has events that come from a poll mask. -/
theorem within_dispatchSocketEvent {s : Sockets} {ready : List ReadyListEntry} {fd : Fd}
    {mask : BitVec 16} {entry : ReadyListEntry} (h : entry ∈ (s.dispatchSocketEvent ready fd mask).2) :
    entry ∈ ready ∨ Within entry.events allEvents := by
  unfold Sockets.dispatchSocketEvent at h
  split at h
  · exact .inl h
  · simp only at h
    split at h
    · exact .inl h
    · rcases List.mem_append.mp h with hmem | hmem
      · exact .inl hmem
      · rw [List.mem_singleton.mp hmem]
        exact .inr (getEventMask_within _)

theorem within_enumerateSocket {s : Sockets} {ready : List ReadyListEntry} {fd : Fd} {enumOk : Bool}
    {entry : ReadyListEntry} (h : entry ∈ (s.enumerateSocket ready fd enumOk).2) :
    entry ∈ ready ∨ Within entry.events allEvents := by
  unfold Sockets.enumerateSocket at h
  split at h
  · exact .inl h
  · split at h
    · exact .inl h
    · simp only at h
      split at h
      · exact within_dispatchSocketEvent h
      · exact .inl h

variable [AbslDuration D]

theorem knownEvents_frameStep {s s' : State D} {o : Outcome} {fs : List (Frame D)} {f : Frame D}
    (hs : s.stack = f :: fs) (h : s.frameStep o fs f = some s') (hk : KnownEvents s) : KnownEvents s' := by
  have hready : ∀ entry ∈ f.ready ++ fs.flatMap Frame.ready, Within entry.events allEvents := by
    rw [← List.flatMap_cons, ← hs]
    exact hk.ready
  have hbelow : ∀ entry ∈ fs.flatMap Frame.ready, Within entry.events allEvents :=
    fun entry hmem => hready entry (List.mem_append_right _ hmem)
  -- the frame put in place of the innermost one
  have hput : ∀ {g : Frame D}, s'.called = s.called → s'.stack = g :: fs →
      (∀ entry ∈ g.ready, entry ∈ f.ready ∨ Within entry.events allEvents) → KnownEvents s' := by
    intro g hcalled hstack hg
    refine ⟨fun entry hmem => ?_, hcalled ▸ hk.called⟩
    rw [hstack, List.flatMap_cons, List.mem_append] at hmem
    rcases hmem with hmem | hmem
    · exact (hg entry hmem).elim (fun hf => hready entry (List.mem_append_left _ hf)) id
    · exact hbelow entry hmem
  have hnone : ∀ {g : Frame D}, g.ready = [] → s'.called = s.called → s'.stack = g :: fs →
      KnownEvents s' := by
    intro g hg hcalled hstack
    refine hput hcalled hstack fun entry hmem => ?_
    rw [hg] at hmem
    cases hmem
  cases framed h with
  | wait =>
    rw [dispatch_eq] at hnone ⊢
    rcases dispatch_stack s o.wait fs with ⟨hd, -⟩ | ⟨hd, -⟩ | ⟨hd, -⟩ | ⟨hd, -⟩ | hd
    · exact ⟨by simpa only [hd] using hbelow, hk.called⟩
    all_goals exact hnone rfl rfl hd
  | start => rw [startTask_eq] at hnone ⊢; exact hnone rfl rfl rfl
  | finish => rw [finishTask_eq] at hnone ⊢; exact hnone rfl rfl rfl
  | destroy => rw [destroyTask_eq] at hnone ⊢; exact hnone rfl rfl rfl
  | popDue _ hg => rcases hg with ⟨rfl, -⟩ | ⟨rfl, -⟩ <;> exact hnone rfl rfl rfl
  | batchDone | close | inlineDone => exact ⟨hbelow, hk.called⟩
  | enumerate => exact hput rfl rfl fun entry hmem => within_enumerateSocket hmem
  | enumerated | callbackDone => exact hput rfl rfl fun entry hmem => .inl hmem
  | skip => exact hput rfl rfl fun entry hmem => .inl (List.mem_cons_of_mem _ hmem)
  | @callback _ entry rest =>
    have hcons := List.forall_mem_cons.mp (List.forall_mem_append.mp hready).1
    refine ⟨List.forall_mem_append.mpr ⟨hcons.2, hbelow⟩, List.forall_mem_append.mpr ⟨hk.called, ?_⟩⟩
    intro cb hcb
    rw [List.mem_singleton.mp hcb]
    exact hcons.1
  | _ => exact hnone rfl rfl rfl

theorem knownEvents_step {s s' : State D} {a : Action D} (h : step s a = some s') (hk : KnownEvents s) :
    KnownEvents s' := by
  cases step_cases h with
  | call hm he => rw [enter_frame he]; exact ⟨hk.ready, hk.called⟩
  | resume hr =>
    have hcalled : s'.called = s.called := by rw [resume_frame hr]
    refine ⟨?_, hcalled ▸ hk.called⟩
    rcases resume_stack hr with hstack | ⟨c, -, -, hstack⟩ <;> rw [hstack] <;> exact hk.ready
  | loop hout hs hf => exact knownEvents_frameStep hs hf hk
  | begin | wakeUp | runEventLoopOnce | processPendingTasks | socket | arrive | expire | tick =>
    exact ⟨hk.ready, hk.called⟩

/-- Every listener call is for some of the three kinds of events. -/
theorem knownEvents_of_reachable {s : State D} (h : Reachable s) : KnownEvents s :=
  h.invariant (fun _ _ _ _ hstep hk => knownEvents_step hstep hk)
    ⟨by simp [State.init], by simp [State.init]⟩

end IoBase
