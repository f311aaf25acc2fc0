import Mathlib.Data.List.Basic

/- A flag that is set, cleared and taken, by its history.

   `after` runs a list of uses: a take needs the flag set, and clears it when `auto`
   is true. A list of uses that can be run has a set before each take that did not
   find the initial flag (`set_before`), and with `auto` a set between any two takes
   (`set_between`); so each take can be given a set of its own, the last one before
   it (`lastSet_ne`). -/
namespace Signal

inductive Use where
  | set
  | clear
  | take
  | idle
  deriving DecidableEq, Repr

/-- The flag after one use, or `none` where a take does not find it set. -/
def use (auto flag : Bool) : Use → Option Bool
  | .set => some true
  | .clear => some false
  | .take => if flag then some (!auto) else none
  | .idle => some flag

def after (auto flag : Bool) : List Use → Option Bool
  | [] => some flag
  | u :: us => (use auto flag u).bind fun flag => after auto flag us

variable {auto flag flag' : Bool} {us xs ys zs : List Use}

theorem after_append : after auto flag (xs ++ ys) = (after auto flag xs).bind fun flag => after auto flag ys := by
  induction xs generalizing flag with
  | nil => rfl
  | cons u xs ih =>
    rw [List.cons_append, after, after, Option.bind_assoc]
    exact congrArg _ (funext fun flag => ih)

/-- A run that ends with one more use. -/
theorem after_concat {u : Use} (h : after auto flag us = some flag') :
    after auto flag (us ++ [u]) = use auto flag' u := by
  rw [after_append, h, Option.bind_some, after]
  cases use auto flag' u <;> rfl

/-- Without a set the flag is not set anew. -/
theorem flag_of_not_set (h : after auto flag us = some true) (hset : Use.set ∉ us) : flag = true := by
  induction us generalizing flag with
  | nil => exact Option.some.inj h
  | cons u us ih =>
    obtain ⟨hu, hus⟩ := not_or.mp (fun hmem => hset (List.mem_cons.mpr hmem))
    rw [after, Option.bind_eq_some_iff] at h
    obtain ⟨flag', huse, h⟩ := h
    obtain rfl := ih h hus
    cases u with
    | set => exact absurd rfl hu
    | clear => cases huse
    | take =>
      simp only [use] at huse
      split at huse
      · assumption
      · cases huse
    | idle => exact Option.some.inj huse

/-- A take finds the flag set. -/
theorem flag_of_take (h : after auto flag (xs ++ .take :: ys) = some flag') :
    after auto flag xs = some true ∧ after auto (!auto) ys = some flag' := by
  rw [after_append, Option.bind_eq_some_iff] at h
  obtain ⟨found, hxs, h⟩ := h
  rw [after, Option.bind_eq_some_iff] at h
  obtain ⟨left, huse, h⟩ := h
  simp only [use] at huse
  split at huse
  · rename_i hfound
    cases huse
    exact ⟨hfound ▸ hxs, h⟩
  · cases huse

theorem set_before (h : after auto flag (xs ++ .take :: ys) = some flag') : flag = true ∨ Use.set ∈ xs := by
  by_cases hset : Use.set ∈ xs
  · exact .inr hset
  · exact .inl (flag_of_not_set (flag_of_take h).1 hset)

theorem set_between (h : after true flag (xs ++ .take :: (ys ++ .take :: zs)) = some flag') :
    Use.set ∈ ys := by
  by_contra hset
  have hys := (flag_of_take (flag_of_take h).2).1
  cases flag_of_not_set hys hset

/-! ## A set for each take -/

/-- The last set before the position `n`. -/
def lastSet (us : List Use) : Nat → Option Nat
  | 0 => none
  | n + 1 => if us[n]? = some .set then some n else lastSet us n

theorem lastSet_spec {n k : Nat} (h : lastSet us n = some k) : k < n ∧ us[k]? = some .set := by
  induction n with
  | zero => cases h
  | succ n ih =>
    rw [lastSet] at h
    split at h
    · rename_i hset
      cases h
      exact ⟨Nat.lt_succ_self _, hset⟩
    · exact ⟨Nat.lt_succ_of_lt (ih h).1, (ih h).2⟩

/-- No set is left out. -/
theorem le_lastSet {n m : Nat} (hm : m < n) (hset : us[m]? = some .set) : ∃ k, lastSet us n = some k ∧ m ≤ k := by
  induction n with
  | zero => cases hm
  | succ n ih =>
    rw [lastSet]
    by_cases hn : us[n]? = some .set
    · exact ⟨n, if_pos hn, Nat.le_of_lt_succ hm⟩
    · rw [if_neg hn]
      refine ih (Nat.lt_of_le_of_ne (Nat.le_of_lt_succ hm) ?_)
      intro he
      subst he
      exact hn hset

/-- The position splits the list. -/
theorem split_at {u : Use} {n : Nat} (h : us[n]? = some u) :
    us = us.take n ++ u :: us.drop (n + 1) := by
  obtain ⟨hlt, rfl⟩ := List.getElem?_eq_some_iff.mp h
  rw [List.getElem_cons_drop, List.take_append_drop]

/-- Between two takes there is a set. -/
theorem exists_set_between {n n' : Nat} (h : after true flag us = some flag') (hlt : n < n')
    (hn : us[n]? = some .take) (hn' : us[n']? = some .take) :
    ∃ m, n < m ∧ m < n' ∧ us[m]? = some .set := by
  have hrest : (us.drop (n + 1))[n' - (n + 1)]? = some .take := by
    rw [List.getElem?_drop, Nat.add_sub_cancel' hlt]
    exact hn'
  rw [split_at hn, split_at hrest] at h
  obtain ⟨m, hm⟩ := List.getElem?_of_mem (set_between h)
  rw [List.getElem?_take, List.getElem?_drop] at hm
  split at hm
  · exact ⟨n + 1 + m, by omega, by omega, hm⟩
  · cases hm

/-- The last sets before two takes differ. -/
theorem lastSet_ne {n n' : Nat} (h : after true flag us = some flag') (hlt : n < n')
    (hn : us[n]? = some .take) (hn' : us[n']? = some .take) : lastSet us n ≠ lastSet us n' := by
  obtain ⟨m, hnm, hmn', hset⟩ := exists_set_between h hlt hn hn'
  obtain ⟨k', hk', hle⟩ := le_lastSet hmn' hset
  rw [hk']
  intro hk
  have := (lastSet_spec hk).1
  omega

/-- A take whose position has no set before it finds the initial flag. -/
theorem flag_of_lastSet {n : Nat} (h : after auto flag us = some flag') (hn : us[n]? = some .take)
    (hnone : lastSet us n = none) : flag = true := by
  rw [split_at hn] at h
  refine (set_before h).resolve_right fun hmem => ?_
  obtain ⟨m, hm⟩ := List.getElem?_of_mem hmem
  rw [List.getElem?_take] at hm
  split at hm
  · rename_i hlt
    obtain ⟨k, hk, -⟩ := le_lastSet hlt hm
    rw [hnone] at hk
    cases hk
  · cases hm

/-! ## A flag that is cleared after it is taken -/

/-- Of `takes` and `sets`: there is a set for each take, and one more while the flag is set, unless the
    flag has been taken and is yet to be cleared. -/
structure Metered (takes sets : Nat) (flag taken : Bool) : Prop where
  le : takes ≤ sets
  lt : flag = true → taken = false → takes < sets

namespace Metered
variable {takes sets : Nat} {taken taken' : Bool}

/-- A step that sets nothing, after which what has been taken is still known to be, or is cleared. -/
theorem keep (h : Metered takes sets flag taken) (hflag : flag' = true → flag = true)
    (htaken : flag' = true → taken = true → taken' = true) : Metered takes sets flag' taken' where
  le := h.le
  lt := by
    intro hset hnot
    refine h.lt (hflag hset) (Bool.eq_false_iff.mpr fun hyes => ?_)
    rw [htaken hset hyes] at hnot
    cases hnot

theorem set (h : Metered takes sets flag taken) : Metered takes (sets + 1) flag' taken' :=
  ⟨Nat.le_succ_of_le h.le, fun _ _ => Nat.lt_succ_of_le h.le⟩

theorem take (h : Metered takes sets true false) : Metered (takes + 1) sets flag' true :=
  ⟨h.lt rfl rfl, fun _ hnot => (by cases hnot)⟩

end Metered

end Signal
