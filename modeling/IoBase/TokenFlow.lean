import Mathlib.Algebra.Order.Group.Multiset
import Mathlib.Logic.Function.Basic

/- Tokens that are handed over and never copied.

   Each party holds one token at most; the others are placed somewhere, and of the places
   only their sum is seen. A party takes a new token, puts its own into a place, or drops it;
   tokens move between places unseen. What is here:

   * `Once`: every token is in one place only, or one party has it.
   * `Once.move`: a move keeps it so.
   * `Has.move`: a move that does not lose tokens leaves every token somewhere.
   * `tally`: the tokens of a list of things that carry one or none. -/
namespace TokenFlow

structure View (ι : Type*) where
  held : ι → Option Nat
  placed : Multiset Nat
  /-- The next new token. -/
  next : Nat

variable {ι : Type*} [DecidableEq ι] {lossy : Prop} {v w : View ι}

/-- What can be done to the tokens; only a lossy system drops or discards one. -/
inductive Move (lossy : Prop) (v w : View ι) : Prop where
  | keep : w.held = v.held → w.placed = v.placed → w.next = v.next → Move lossy v w
  | new (i : ι) : v.held i = none → w.held = Function.update v.held i (some v.next) → w.placed = v.placed →
      w.next = v.next + 1 → Move lossy v w
  | put (i : ι) (n : Nat) : v.held i = some n → w.held = Function.update v.held i none →
      w.placed = n ::ₘ v.placed → w.next = v.next → Move lossy v w
  | drop (i : ι) (n : Nat) : lossy → v.held i = some n → w.held = Function.update v.held i none →
      w.placed = v.placed → w.next = v.next → Move lossy v w
  | discard (n : Nat) : lossy → w.held = v.held → v.placed = n ::ₘ w.placed → w.next = v.next → Move lossy v w

omit [DecidableEq ι] in
/-- Every token is in one place only, or with one party. -/
structure Once (v : View ι) : Prop where
  nodup : v.placed.Nodup
  apart : ∀ i j n, v.held i = some n → v.held j = some n → i = j
  held : ∀ i n, v.held i = some n → n ∉ v.placed ∧ n < v.next
  placed : ∀ n ∈ v.placed, n < v.next

/-- The token is somewhere. -/
def Has (v : View ι) (n : Nat) : Prop := n ∈ v.placed ∨ ∃ i, v.held i = some n

/-- A party that holds a token after another has given one up held it before. -/
theorem held_of_update {held : ι → Option Nat} {i j : ι} {n : Nat}
    (h : Function.update held i none j = some n) : j ≠ i ∧ held j = some n := by
  by_cases hij : j = i
  · rw [hij, Function.update_self] at h
    cases h
  · exact ⟨hij, by rwa [Function.update_of_ne hij] at h⟩

theorem Once.move (h : Move lossy v w) (ho : Once v) : Once w := by
  cases h with
  | keep hheld hplaced hnext =>
    refine ⟨?_, ?_, ?_, ?_⟩
    · rw [hplaced]
      exact ho.nodup
    · rw [hheld]
      exact ho.apart
    · rw [hheld, hplaced, hnext]
      exact ho.held
    · rw [hplaced, hnext]
      exact ho.placed
  | new i hnone hheld hplaced hnext =>
    -- the new token was nowhere
    have hfresh : ∀ j n, w.held j = some n → j = i ∧ n = v.next ∨ j ≠ i ∧ v.held j = some n := by
      intro j n hj
      rw [hheld] at hj
      by_cases hij : j = i
      · rw [hij, Function.update_self] at hj
        exact .inl ⟨hij, (Option.some.inj hj).symm⟩
      · rw [Function.update_of_ne hij] at hj
        exact .inr ⟨hij, hj⟩
    refine ⟨hplaced ▸ ho.nodup, fun j k n hj hk => ?_, fun j n hj => ?_, fun n hn => ?_⟩
    · obtain ⟨rfl, rfl⟩ | ⟨-, hj⟩ := hfresh j n hj
      · obtain ⟨rfl, -⟩ | ⟨-, hk⟩ := hfresh k _ hk
        · rfl
        · exact absurd (ho.held k _ hk).2 (Nat.lt_irrefl _)
      · obtain ⟨rfl, rfl⟩ | ⟨-, hk⟩ := hfresh k n hk
        · exact absurd (ho.held j _ hj).2 (Nat.lt_irrefl _)
        · exact ho.apart j k n hj hk
    · rw [hplaced, hnext]
      obtain ⟨rfl, rfl⟩ | ⟨-, hj⟩ := hfresh j n hj
      · exact ⟨fun hin => absurd (ho.placed _ hin) (Nat.lt_irrefl _), Nat.lt_succ_self _⟩
      · obtain ⟨hout, hlt⟩ := ho.held j n hj
        exact ⟨hout, Nat.lt_succ_of_lt hlt⟩
    · rw [hnext]
      exact Nat.lt_succ_of_lt (ho.placed n (hplaced ▸ hn))
  | put i n hi hheld hplaced hnext =>
    obtain ⟨hout, hlt⟩ := ho.held i n hi
    refine ⟨?_, fun j k m hj hk => ?_, fun j m hj => ?_, fun m hm => ?_⟩
    · rw [hplaced]
      exact Multiset.nodup_cons.mpr ⟨hout, ho.nodup⟩
    · rw [hheld] at hj hk
      exact ho.apart j k m (held_of_update hj).2 (held_of_update hk).2
    · rw [hheld] at hj
      obtain ⟨hij, hj⟩ := held_of_update hj
      obtain ⟨hout', hlt'⟩ := ho.held j m hj
      rw [hplaced, hnext, Multiset.mem_cons]
      refine ⟨fun hin => ?_, hlt'⟩
      obtain rfl | hin := hin
      · exact hij (ho.apart j i _ hj hi)
      · exact hout' hin
    · rw [hnext]
      rw [hplaced, Multiset.mem_cons] at hm
      obtain rfl | hm := hm
      · exact hlt
      · exact ho.placed m hm
  | drop i n _ hi hheld hplaced hnext =>
    refine ⟨hplaced ▸ ho.nodup, fun j k m hj hk => ?_, fun j m hj => ?_, fun m hm => ?_⟩
    · rw [hheld] at hj hk
      exact ho.apart j k m (held_of_update hj).2 (held_of_update hk).2
    · rw [hheld] at hj
      rw [hplaced, hnext]
      exact ho.held j m (held_of_update hj).2
    · rw [hnext]
      exact ho.placed m (hplaced ▸ hm)
  | discard n _ hheld hplaced hnext =>
    have hnodup := ho.nodup
    rw [hplaced] at hnodup
    refine ⟨(Multiset.nodup_cons.mp hnodup).2, hheld ▸ ho.apart, fun j m hj => ?_, fun m hm => ?_⟩
    · obtain ⟨hout, hlt⟩ := ho.held j m (hheld ▸ hj)
      rw [hplaced, Multiset.mem_cons, not_or] at hout
      exact ⟨hout.2, hnext ▸ hlt⟩
    · rw [hnext]
      exact ho.placed m (hplaced ▸ Multiset.mem_cons_of_mem hm)

/-- The tokens there were, and those that are made. -/
theorem Has.move (h : Move False v w) {n : Nat} (hn : Has v n ∨ v.next ≤ n ∧ n < w.next) : Has w n := by
  cases h with
  | keep hheld hplaced hnext =>
    obtain hn | ⟨hle, hlt⟩ := hn
    · rwa [Has, hheld, hplaced]
    · omega
  | new i hnone hheld hplaced hnext =>
    rw [Has, hheld, hplaced]
    obtain (hin | ⟨j, hj⟩) | ⟨hle, hlt⟩ := hn
    · exact .inl hin
    · refine .inr ⟨j, ?_⟩
      rw [Function.update_of_ne]
      · exact hj
      · intro hij
        rw [hij, hnone] at hj
        cases hj
    · refine .inr ⟨i, ?_⟩
      rw [Function.update_self, Nat.le_antisymm hle (by omega)]
  | put i m hi hheld hplaced hnext =>
    rw [Has, hheld, hplaced, Multiset.mem_cons]
    obtain (hin | ⟨j, hj⟩) | ⟨hle, hlt⟩ := hn
    · exact .inl (.inr hin)
    · by_cases hij : j = i
      · rw [hij, hi] at hj
        exact .inl (.inl (Option.some.inj hj).symm)
      · exact .inr ⟨j, by rw [Function.update_of_ne hij, hj]⟩
    · omega
  | drop _ _ hno => exact hno.elim
  | discard _ hno => exact hno.elim

/-! ## Counting -/

section Tally
variable {α : Type*} (f : α → Option Nat)

/-- The tokens that the things of a list carry. -/
def tally (l : List α) : Multiset Nat := ↑(l.filterMap f)

@[simp] theorem tally_nil : tally f ([] : List α) = 0 := rfl

theorem tally_append (l l' : List α) : tally f (l ++ l') = tally f l + tally f l' := by
  rw [tally, List.filterMap_append, ← Multiset.coe_add]
  rfl

theorem tally_cons (a : α) (l : List α) : tally f (a :: l) = tally f [a] + tally f l :=
  tally_append f [a] l

variable {f}

theorem mem_tally {l : List α} {n : Nat} : n ∈ tally f l ↔ ∃ a ∈ l, f a = some n :=
  Multiset.mem_coe.trans List.mem_filterMap

theorem tally_some {a : α} {n : Nat} (h : f a = some n) : tally f [a] = {n} := by
  rw [tally, List.filterMap_cons, h]
  rfl

theorem tally_none {a : α} (h : f a = none) : tally f [a] = 0 := by
  rw [tally, List.filterMap_cons, h]
  rfl

theorem tally_perm {l l' : List α} (h : l.Perm l') : tally f l = tally f l' :=
  Multiset.coe_eq_coe.mpr (h.filterMap f)

end Tally

end TokenFlow
