import IoBase.Transition

/- A queue drained by batches, over any item type.

   Producers append items to `pending`; one consumer takes the whole of `pending`
   as its batch once it has no batch left, and starts the items of the batch one by
   one. `pushed` and `started` are the history. `fifo_of_reaches`: in every state of
   every run the started items, the rest of the batch and the pending items, in
   this order, are the pushed items in the order they were pushed. -/
namespace BatchQueue
open Transition

variable {α : Type*}

structure Queue (α : Type*) where
  pushed : List α
  started : List α
  batch : List α
  pending : List α

inductive Op (α : Type*) where
  | push (a : α)
  | take
  | start

def empty : Queue α := ⟨[], [], [], []⟩

def step (q : Queue α) : Op α → Option (Queue α)
  | .push a => some { q with pushed := q.pushed ++ [a], pending := q.pending ++ [a] }
  | .take => if q.batch.isEmpty then some { q with batch := q.pending, pending := [] } else none
  | .start =>
    match q.batch with
    | [] => none
    | a :: rest => some { q with started := q.started ++ [a], batch := rest }

/-- Nothing lost, nothing duplicated, nothing overtaken. -/
def Fifo (q : Queue α) : Prop := q.started ++ q.batch ++ q.pending = q.pushed

theorem fifo_empty : Fifo (empty : Queue α) := rfl

theorem fifo_step {q q' : Queue α} {op : Op α} (hstep : step q op = some q') (h : Fifo q) :
    Fifo q' := by
  unfold Fifo at h ⊢
  cases op with
  | push a =>
    simp only [step, Option.some.injEq] at hstep
    subst hstep
    simp [← h]
  | take =>
    simp only [step] at hstep
    split at hstep
    · rename_i hb
      simp only [Option.some.injEq] at hstep
      subst hstep
      rw [List.isEmpty_iff] at hb
      simp [← h, hb]
    · cases hstep
  | start =>
    simp only [step] at hstep
    split at hstep
    · cases hstep
    · rename_i a rest hb
      simp only [Option.some.injEq] at hstep
      subst hstep
      simp [← h, hb]

theorem fifo_of_reaches {q : Queue α} (h : Reaches step Always empty q) : Fifo q :=
  h.invariant (fun _ _ _ _ hstep hq => fifo_step hstep hq) fifo_empty

end BatchQueue
