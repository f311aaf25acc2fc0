import Mathlib.Data.List.Chain
import Mathlib.Data.List.Forall2
import Mathlib.Data.Option.Basic

/- Runs of a partial step function, for any state and action type.

   A system is a function `step : σ → α → Option σ`: what the action `a` does in
   the state `s`, or `none` where `a` cannot be taken there. `Reaches step ok s t`
   says that some run leads from `s` to `t` and that every action of the run
   satisfied `ok` in the state it was taken in; `ok` is how a result about the
   runs that meet a condition is stated, and `Always` is no condition. What is
   here:

   * `Reaches.invariant`: what every step keeps, every run keeps.
   * `Reaches.refine`: if every step of one system is a step of another, or is
     not seen there, every run of the first is a run of the second; and
     `Reaches.simulate`, the same for a relation instead of a function, where
     `Reaches.simulate_run` lets one step be followed by several.
   * `observe`: the system with a history of what its steps let be seen; every run
     has one (`Reaches.observed`), and what has one is a run (`Reaches.unobserved`).
     With the states for a history, `Reaches.simulate_states` is the simulation of
     every state of the run.
   * `runWhile`: a run computed from its list of actions, for concrete runs. -/
namespace Transition

variable {σ α : Type*}

/-- The condition every action meets. -/
def Always : σ → α → Prop := fun _ _ => True

instance (s : σ) (a : α) : Decidable (Always s a) := inferInstanceAs (Decidable True)

/-- `t` is reached from `s` by actions that satisfy `ok` where they are taken. -/
inductive Reaches (step : σ → α → Option σ) (ok : σ → α → Prop) (s : σ) : σ → Prop where
  | refl : Reaches step ok s s
  | tail {t u : σ} {a : α} : Reaches step ok s t → ok t a → step t a = some u → Reaches step ok s u

namespace Reaches
variable {step : σ → α → Option σ} {ok ok' : σ → α → Prop} {s t u : σ}

/-- The invariant rule: one step keeps `P`, so a run keeps `P`. -/
theorem invariant {P : σ → Prop}
    (keeps : ∀ s a s', ok s a → step s a = some s' → P s → P s')
    (h : Reaches step ok s t) (hs : P s) : P t := by
  induction h with
  | refl => exact hs
  | tail _ ha hstep ih => exact keeps _ _ _ ha hstep ih

/-- The invariant rule with a second invariant, already known of every state of the run. -/
theorem invariant_with {P Q : σ → Prop} (hQ : ∀ t, Reaches step ok s t → Q t)
    (keeps : ∀ s a s', ok s a → step s a = some s' → Q s → P s → P s')
    (h : Reaches step ok s t) (hs : P s) : P t := by
  induction h with
  | refl => exact hs
  | tail hr ha hstep ih => exact keeps _ _ _ ha hstep (hQ _ hr) ih

theorem trans (h₁ : Reaches step ok s t) (h₂ : Reaches step ok t u) : Reaches step ok s u := by
  induction h₂ with
  | refl => exact h₁
  | tail _ ha hstep ih => exact .tail ih ha hstep

theorem head {a : α} (ha : ok s a) (hstep : step s a = some t) (h : Reaches step ok t u) :
    Reaches step ok s u :=
  (Reaches.tail .refl ha hstep).trans h

theorem mono (hok : ∀ s a, ok s a → ok' s a) (h : Reaches step ok s t) : Reaches step ok' s t := by
  induction h with
  | refl => exact .refl
  | tail _ ha hstep ih => exact .tail ih (hok _ _ ha) hstep

/-- A condition for another, where the first implies the second along the run. -/
theorem mono_of_reaches (hok : ∀ t a u, Reaches step ok s t → ok t a → step t a = some u → ok' t a)
    (h : Reaches step ok s t) : Reaches step ok' s t := by
  induction h with
  | refl => exact .refl
  | tail hr ha hstep ih => exact .tail ih (hok _ _ _ hr ha hstep) hstep

/-- A run that meets a condition is a run. -/
theorem always (h : Reaches step ok s t) : Reaches step Always s t := h.mono fun _ _ _ => trivial

/-- Refinement with stuttering: `f` sends every step to a step of the second system or to no
    step at all, so it sends every run to a run. `P` is what is known of the states of the run. -/
theorem refine {τ β : Type*} {step₂ : τ → β → Option τ} {ok₂ : τ → β → Prop} {P : σ → Prop}
    (f : σ → τ) (hP : ∀ t, Reaches step ok s t → P t)
    (sim : ∀ s a s', ok s a → step s a = some s' → P s →
      f s' = f s ∨ ∃ b, ok₂ (f s) b ∧ step₂ (f s) b = some (f s'))
    (h : Reaches step ok s t) : Reaches step₂ ok₂ (f s) (f t) := by
  induction h with
  | refl => exact .refl
  | tail hr ha hstep ih =>
    rcases sim _ _ _ ha hstep (hP _ hr) with he | ⟨b, hb, hstep₂⟩
    · rw [he]; exact ih
    · exact .tail ih hb hstep₂

/-- Simulation with stuttering: if a relation to a second system is kept by every step, the second
    system taking a step or none, every run is followed by a run of the second system. -/
theorem simulate {τ β : Type*} {step₂ : τ → β → Option τ} {R : σ → τ → Prop}
    (sim : ∀ s a s' b, ok s a → step s a = some s' → R s b →
      R s' b ∨ ∃ e b', step₂ b e = some b' ∧ R s' b')
    (h : Reaches step ok s t) {b : τ} (hb : R s b) : ∃ b', Reaches step₂ Always b b' ∧ R t b' := by
  induction h with
  | refl => exact ⟨b, .refl, hb⟩
  | tail _ ha hstep ih =>
    obtain ⟨b', hrun, hR⟩ := ih
    rcases sim _ _ _ _ ha hstep hR with hR' | ⟨e, b'', hstep₂, hR'⟩
    · exact ⟨b', hrun, hR'⟩
    · exact ⟨b'', .tail hrun trivial hstep₂, hR'⟩

/-- Simulation by runs: what one step does, the second system does in a run. `P` is what is known of the
    states of the first. -/
theorem simulate_run {τ β : Type*} {step₂ : τ → β → Option τ} {R : σ → τ → Prop} {P : σ → Prop}
    (hP : ∀ t, Reaches step ok s t → P t)
    (sim : ∀ s a s' b, step s a = some s' → P s → P s' → R s b → ∃ b', Reaches step₂ Always b b' ∧ R s' b')
    (h : Reaches step ok s t) {b : τ} (hb : R s b) : ∃ b', Reaches step₂ Always b b' ∧ R t b' := by
  induction h with
  | refl => exact ⟨b, .refl, hb⟩
  | tail hr ha hstep ih =>
    obtain ⟨b', hrun, hR⟩ := ih
    obtain ⟨b'', hrun', hR'⟩ := sim _ _ _ _ hstep (hP _ hr) (hP _ (hr.tail ha hstep)) hR
    exact ⟨b'', hrun.trans hrun', hR'⟩

end Reaches

/-! ## Histories -/

/-- The system with a history: a step adds what `obs` sees of it. -/
def observe {β : Type*} (step : σ → α → Option σ) (obs : σ → α → List β) (p : σ × List β) (a : α) :
    Option (σ × List β) :=
  (step p.1 a).map fun s => (s, p.2 ++ obs p.1 a)

theorem observe_eq_some {β : Type*} {step : σ → α → Option σ} {obs : σ → α → List β}
    {p q : σ × List β} {a : α} :
    observe step obs p a = some q ↔ step p.1 a = some q.1 ∧ q.2 = p.2 ++ obs p.1 a := by
  simp only [observe, Option.map_eq_some_iff]
  constructor
  · intro hx
    obtain ⟨s, hs, rfl⟩ := hx
    exact ⟨hs, rfl⟩
  · intro hx
    obtain ⟨hs, hh⟩ := hx
    exact ⟨q.1, hs, Prod.ext rfl hh.symm⟩

namespace Reaches
variable {β : Type*} {step : σ → α → Option σ} {obs : σ → α → List β} {ok : σ → α → Prop}

/-- Every run has a history. -/
theorem observed {s t : σ} (h₀ : List β) (h : Reaches step ok s t) :
    ∃ h, Reaches (observe step obs) (fun p a => ok p.1 a) (s, h₀) (t, h) := by
  induction h with
  | refl => exact ⟨h₀, .refl⟩
  | tail _ ha hstep ih =>
    obtain ⟨h, hrun⟩ := ih
    exact ⟨_, hrun.tail ha (observe_eq_some.mpr ⟨hstep, rfl⟩)⟩

/-- A run with a history is a run. -/
theorem unobserved {p q : σ × List β} (h : Reaches (observe step obs) (fun p a => ok p.1 a) p q) :
    Reaches step ok p.1 q.1 := by
  induction h with
  | refl => exact .refl
  | tail _ ha hstep ih => exact ih.tail ha (observe_eq_some.mp hstep).1

/-- Simulation by runs, state by state: the states that a run goes through are simulated one by one by
    states that a run of the second system goes through. -/
theorem simulate_states {τ γ : Type*} {step₂ : τ → γ → Option τ} {R : σ → τ → Prop} {P : σ → Prop} {s t : σ}
    (hP : ∀ t, Reaches step ok s t → P t)
    (sim : ∀ s a s' b, step s a = some s' → P s → P s' → R s b → ∃ b', Reaches step₂ Always b b' ∧ R s' b')
    {states : List σ} (h : Reaches (observe step fun s _ => [s]) (fun p a => ok p.1 a) (s, []) (t, states))
    {b : τ} (hb : R s b) :
    ∃ b' bs, List.Forall₂ R (states ++ [t]) (bs ++ [b']) ∧ (bs ++ [b']).head? = some b ∧
      (bs ++ [b']).IsChain (Reaches step₂ Always) := by
  suffices hrun : ∀ p, Reaches (observe step fun s _ => [s]) (fun p a => ok p.1 a) (s, []) p →
      ∃ b' bs, R p.1 b' ∧ List.Forall₂ R (p.2 ++ [p.1]) (bs ++ [b']) ∧ (bs ++ [b']).head? = some b ∧
        (bs ++ [b']).IsChain (Reaches step₂ Always) by
    obtain ⟨b', bs, -, hall⟩ := hrun _ h
    exact ⟨b', bs, hall⟩
  intro p hp
  induction hp with
  | refl => exact ⟨b, [], hb, .cons hb .nil, rfl, .singleton b⟩
  | @tail p q a hr ha hstep ih =>
    obtain ⟨hnext, hstates⟩ := observe_eq_some.mp hstep
    obtain ⟨b', bs, hlast, hR, hhead, hchain⟩ := ih
    have hbefore := hr.unobserved
    obtain ⟨b'', hrun, hR'⟩ := sim _ _ _ _ hnext (hP _ hbefore) (hP _ (hbefore.tail ha hnext)) hlast
    refine ⟨b'', bs ++ [b'], hR', ?_, ?_, ?_⟩
    · rw [hstates]
      exact List.rel_append hR (.cons hR' .nil)
    · rw [List.head?_append, hhead]
      rfl
    · refine hchain.append (.singleton b'') fun x hx y hy => ?_
      rw [List.getLast?_concat, Option.mem_some_iff] at hx
      rw [List.head?_cons, Option.mem_some_iff] at hy
      exact hx ▸ hy ▸ hrun

/-- The measure rule: what is seen of a run is no more than the measure that it uses up. -/
theorem bounded (measure : σ → Nat)
    (uses : ∀ s a s', ok s a → step s a = some s' → measure s' + (obs s a).length ≤ measure s)
    {p q : σ × List β} (h : Reaches (observe step obs) (fun p a => ok p.1 a) p q) :
    measure q.1 + q.2.length ≤ measure p.1 + p.2.length := by
  refine h.invariant (P := fun q => measure q.1 + q.2.length ≤ measure p.1 + p.2.length)
    (fun t a u ha hstep ih => ?_) (Nat.le_refl _)
  obtain ⟨hstep, hseen⟩ := observe_eq_some.mp hstep
  have huses := uses _ _ _ ha hstep
  rw [hseen, List.length_append]
  omega

end Reaches

/-! ## Computed runs -/

/-- The state after the actions of a list, or `none` once one of them cannot be taken or does
    not satisfy `ok`. -/
def runWhile (step : σ → α → Option σ) (ok : σ → α → Prop) [∀ s a, Decidable (ok s a)] (s : σ) :
    List α → Option σ
  | [] => some s
  | a :: as => if ok s a then (step s a).bind (fun s' => runWhile step ok s' as) else none

theorem runWhile_reaches {step : σ → α → Option σ} {ok : σ → α → Prop} [∀ s a, Decidable (ok s a)] :
    ∀ {as : List α} {s t : σ}, runWhile step ok s as = some t → Reaches step ok s t := by
  intro as
  induction as with
  | nil =>
    intro s t h
    cases h
    exact .refl
  | cons a as ih =>
    intro s t h
    simp only [runWhile] at h
    split at h
    · rename_i hok
      obtain ⟨u, hstep, hrun⟩ := Option.bind_eq_some_iff.mp h
      exact (ih hrun).head hok hstep
    · cases h

/-- A list of actions that can all be taken gives a run to the state it computes. -/
theorem reaches_get {step : σ → α → Option σ} {ok : σ → α → Prop} [∀ s a, Decidable (ok s a)] {s : σ}
    {as : List α} (h : (runWhile step ok s as).isSome = true) :
    Reaches step ok s ((runWhile step ok s as).get h) :=
  runWhile_reaches (Option.some_get h).symm

end Transition
