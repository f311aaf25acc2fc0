import Mathlib.Data.List.AList

/- Insertion-ordered maps, over any key and value type.

   An insertion-ordered map is Mathlib's association list with distinct keys,
   `AList`, read front to back. `AList` inserts at the front and replaces; what is
   added here is the insertion that appends a new key and leaves a present one
   alone, and the change of one value in place. -/
namespace OrderedMap

/-- An insertion-ordered map from `K` to `V`, the oldest key first. -/
abbrev Map (K V : Type*) := AList (fun _ : K => V)

variable {K V : Type*}

theorem nodupKeys_append {k : K} {v : V} {m : Map K V} (h : k ∉ m) :
    (m.entries ++ [(⟨k, v⟩ : (_ : K) × V)]).NodupKeys := by
  rw [List.NodupKeys, List.keys_append]
  refine List.Nodup.append m.nodupKeys (by simp) fun a ha ha' => h ?_
  simp only [List.keys_cons, List.keys_nil, List.mem_singleton] at ha'
  exact AList.mem_keys.mpr (ha' ▸ ha)

variable [DecidableEq K]

/-- Append the key, unless it is present: the map, and whether it was inserted. -/
def insertBack (k : K) (v : V) (m : Map K V) : Map K V × Bool :=
  if h : k ∈ m then (m, false) else (⟨m.entries ++ [⟨k, v⟩], nodupKeys_append h⟩, true)

/-- Take keys out. -/
def eraseKeys (ks : List K) (m : Map K V) : Map K V := ks.foldl (fun m k => m.erase k) m

/-- Change the value of `k` in place. -/
def modify (k : K) (f : V → V) (m : Map K V) : Map K V :=
  ⟨m.entries.map (Sigma.map id (fun (a : K) (v : V) => if a = k then f v else v)),
    m.nodupKeys.map₂ _ _⟩

theorem insertBack_of_mem {k : K} {v : V} {m : Map K V} (h : k ∈ m) :
    insertBack k v m = (m, false) := by
  simp [insertBack, h]

theorem insertBack_snd {k : K} {v : V} {m : Map K V} : (insertBack k v m).2 = true ↔ k ∉ m := by
  unfold insertBack
  split <;> simp_all

theorem insertBack_of_notMem {k : K} {v : V} {m : Map K V} (h : k ∉ m) :
    insertBack k v m = ((insertBack k v m).1, true) :=
  Prod.ext rfl (insertBack_snd.mpr h)

theorem entries_insertBack {k : K} {v : V} {m : Map K V} (h : k ∉ m) :
    (insertBack k v m).1.entries = m.entries ++ [⟨k, v⟩] := by
  simp [insertBack, h]

/-- Changing the value just appended is appending the changed value. -/
theorem modify_insertBack {k : K} {v : V} {f : V → V} {m : Map K V} (h : k ∉ m) :
    modify k f (insertBack k v m).1 = (insertBack k (f v) m).1 := by
  have hkeep : m.entries.map (Sigma.map id (fun (a : K) (v : V) => if a = k then f v else v)) =
      m.entries := by
    refine (List.map_congr_left fun e he => ?_).trans (List.map_id _)
    have hne : e.1 ≠ k := by
      intro hk
      subst hk
      exact h (AList.mem_keys.mpr (List.mem_keys_of_mem he))
    simp [Sigma.map, hne]
  apply AList.ext
  simp only [modify, entries_insertBack h, List.map_append, hkeep]
  simp [Sigma.map]

/-- Taking the appended key out again gives the map back. -/
theorem erase_insertBack {k : K} {v : V} {m : Map K V} (h : k ∉ m) :
    (insertBack k v m).1.erase k = m := by
  apply AList.ext
  have hk : k ∉ m.entries.keys := fun hk => h (AList.mem_keys.mpr hk)
  change (insertBack k v m).1.entries.kerase k = m.entries
  rw [entries_insertBack h, List.kerase_append_right hk]
  simp

theorem mem_insertBack {k a : K} {v : V} {m : Map K V} (h : k ∉ m) :
    a ∈ (insertBack k v m).1 ↔ a ∈ m ∨ a = k := by
  rw [AList.mem_keys, AList.keys, entries_insertBack h, List.keys_append, List.mem_append,
    AList.mem_keys, AList.keys]
  simp

theorem lookup_insertBack {k a : K} {v : V} {m : Map K V} (h : k ∉ m) :
    (insertBack k v m).1.lookup a = if a = k then some v else m.lookup a := by
  have hk : m.entries.dlookup k = none := List.dlookup_eq_none.mpr fun hk => h (AList.mem_keys.mpr hk)
  simp only [AList.lookup, entries_insertBack h, List.dlookup_append]
  by_cases ha : a = k
  · subst ha
    simp [hk]
  · simp [ha, List.dlookup_cons_ne]

@[simp] theorem lookup_modify {k a : K} {f : V → V} {m : Map K V} :
    (modify k f m).lookup a = (m.lookup a).map (fun v => if a = k then f v else v) := by
  simp only [AList.lookup, modify]
  exact List.dlookup_map₂ a

theorem lookup_modify_of_lookup {k a : K} {f : V → V} {m : Map K V} {v : V} (h : m.lookup a = some v) :
    (modify k f m).lookup a = some (if a = k then f v else v) := by
  rw [lookup_modify, h, Option.map_some]

theorem lookup_modify_ne {k a : K} {f : V → V} {m : Map K V} (h : a ≠ k) :
    (modify k f m).lookup a = m.lookup a := by
  simp [lookup_modify, h]

theorem modify_id {k : K} {m : Map K V} : modify k id m = m := by
  apply AList.ext
  refine (List.map_congr_left fun e _ => ?_).trans (List.map_id _)
  simp [Sigma.map]

/-- A change that leaves the value of `k` as it is. -/
theorem modify_eq_self {k : K} {f : V → V} {m : Map K V} (h : ∀ v, m.lookup k = some v → f v = v) :
    modify k f m = m := by
  apply AList.ext
  refine (List.map_congr_left fun e he => ?_).trans (List.map_id _)
  obtain ⟨a, v⟩ := e
  by_cases ha : a = k
  · subst ha
    simp [Sigma.map, h v (AList.mem_lookup_iff.mpr he)]
  · simp [Sigma.map, ha]

/-- Two changes of one value. -/
theorem modify_modify {k : K} {f g : V → V} {m : Map K V} :
    modify k g (modify k f m) = modify k (g ∘ f) m := by
  apply AList.ext
  simp only [modify, List.map_map]
  refine List.map_congr_left fun e _ => ?_
  by_cases he : e.1 = k <;> simp [Sigma.map, he]

@[simp] theorem keys_modify {k : K} {f : V → V} {m : Map K V} : (modify k f m).keys = m.keys :=
  List.map₂_keys _ _

@[simp] theorem mem_modify {k a : K} {f : V → V} {m : Map K V} : a ∈ modify k f m ↔ a ∈ m := by
  rw [AList.mem_keys, keys_modify, ← AList.mem_keys]

end OrderedMap
