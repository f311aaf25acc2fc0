import IoBase.OrderedMap
import Mathlib.Data.List.Nodup

/- `LinkedHashMap`: a hash map and a list, updated in parallel.

   A node of `list_` is an object with an address (`ListNode.id`); an iterator is a
   node, `end()`, or the singular one that `try_emplace` constructs. An operation fails
   where an `ABSL_CHECK` does, and where C++ leaves the behaviour undefined: erasing or
   reading through an iterator that points at no node of the list.

   `absl::flat_hash_map` is not part of the repository, so `map_` is of a type `M` with
   the operations that are called (`FlatHashMap`). What needs their documented
   behaviour asks for a `LawfulFlatHashMap`; an association list is one.

   Each operation that makes a node takes its address. `WellFormed` is the invariant,
   `Represents` what the map is for: the insertion-ordered map (`OrderedMap.Map`) with
   the elements of `list_`. One lemma an operation says that it keeps both. -/
namespace IoBase
open OrderedMap

/-- A node of `list_`, and the pair in it. -/
structure ListNode (K V : Type) where
  id : Nat
  first : K
  second : V
  deriving DecidableEq, Repr

inductive ListIterator where
  | singular
  | node (id : Nat)
  | pastEnd
  deriving DecidableEq, Repr

inductive Failure where
  | checkFailed
  | undefined
  deriving DecidableEq, Repr

/-! ## `absl::flat_hash_map` -/

/-- The operations of an `absl::flat_hash_map` from `K` to `P` that `LinkedHashMap` calls. An iterator of
    it is the key that it was found by: `find` is what `found->second` is, `assign` sets it, and `erase`
    takes it out. `insert` says whether the key is new. Where the insertion throws, `insertThrown` is left. -/
class FlatHashMap (M : Type) (K P : outParam Type) where
  empty : M
  find : M → K → Option P
  insert : M → K → P → M × Bool
  insertThrown : M → K → M
  assign : M → K → P → M
  erase : M → K → M
  clear : M → M
  size : M → Nat

/-- A `flat_hash_map` that does what it documents: an insertion leaves a key that is there alone, and one
    that throws has no effect. -/
class LawfulFlatHashMap (M : Type) (K P : outParam Type) [DecidableEq K] extends FlatHashMap M K P where
  find_empty : ∀ key, find empty key = none
  insert_new : ∀ m key value, find m key = none → (insert m key value).2 = true ∧
    ∀ k, find (insert m key value).1 k = if k = key then some value else find m k
  insert_present : ∀ m key value, find m key ≠ none → (insert m key value).2 = false ∧
    ∀ k, find (insert m key value).1 k = find m k
  find_insertThrown : ∀ m key k, find (insertThrown m key) k = find m k
  find_assign : ∀ m key value, find m key ≠ none →
    ∀ k, find (assign m key value) k = if k = key then some value else find m k
  find_erase : ∀ m key, find m key ≠ none → ∀ k, find (erase m key) k = if k = key then none else find m k
  find_clear : ∀ m key, find (clear m) key = none
  size_eq : ∀ m (keys : List K), keys.Nodup → (∀ key, key ∈ keys ↔ find m key ≠ none) → size m = keys.length

section
variable {K P : Type} [DecidableEq K]

/-- An association list. -/
instance : FlatHashMap (Map K P) K P where
  empty := ∅
  find m key := m.lookup key
  insert m key value := insertBack key value m
  insertThrown m _ := m
  assign m key value := modify key (fun _ => value) m
  erase m key := m.erase key
  clear _ := ∅
  size m := m.entries.length

instance : LawfulFlatHashMap (Map K P) K P where
  toFlatHashMap := inferInstance
  find_empty key := AList.lookup_empty key
  insert_new m key value h := by
    have hkey : key ∉ m := AList.lookup_eq_none.mp h
    exact ⟨insertBack_snd.mpr hkey, fun k => lookup_insertBack hkey⟩
  insert_present m key value h := by
    have hkey : key ∈ m := not_not.mp fun hnot => h (AList.lookup_eq_none.mpr hnot)
    have hsame : FlatHashMap.insert m key value = (m, false) := insertBack_of_mem hkey
    rw [hsame]
    exact ⟨rfl, fun _ => rfl⟩
  find_insertThrown _ _ _ := rfl
  find_assign m key value h k := by
    show (modify key (fun _ => value) m).lookup k = _
    rw [lookup_modify]
    split
    · rename_i he
      obtain ⟨old, hold⟩ := Option.ne_none_iff_exists'.mp h
      rw [he]
      exact congrArg (Option.map fun _ => value) hold
    · exact congrFun Option.map_id (m.lookup k)
  find_erase m key _ k := by
    show (m.erase key).lookup k = _
    split
    · rename_i he
      rw [he, AList.lookup_erase]
    · rename_i hne
      rw [AList.lookup_erase_ne hne]
      rfl
  find_clear _ key := AList.lookup_empty key
  size_eq m keys hnodup hkeys := by
    have hperm : m.keys.Perm keys := by
      refine (List.perm_ext_iff_of_nodup m.keys_nodup hnodup).mpr fun key => ?_
      rw [hkeys, ← AList.mem_keys, ← not_iff_not, ← AList.lookup_eq_none, not_not]
      rfl
    rw [← hperm.length_eq]
    exact (List.length_map _).symm

end

structure LinkedHashMap (M K V : Type) where
  map : M
  list : List (ListNode K V)

/-- A map of numbers, with an association list for `map_`. -/
abbrev NatMap := LinkedHashMap (Map Nat ListIterator) Nat Nat

section
variable {K V : Type}

/-! ## `std::list` -/

def listBegin : List (ListNode K V) → ListIterator
  | [] => .pastEnd
  | n :: _ => .node n.id

/-- `list.erase(position)` for the node `id`: the iterator after it, and the list. -/
def listErase (id : Nat) : List (ListNode K V) → Except Failure (ListIterator × List (ListNode K V))
  | [] => .error .undefined
  | n :: rest =>
    if n.id = id then .ok (listBegin rest, rest)
    else
      match listErase id rest with
      | .error e => .error e
      | .ok (next, rest) => .ok (next, n :: rest)

/-- `*position`. -/
def listAt (list : List (ListNode K V)) : ListIterator → Except Failure (ListNode K V)
  | .node id =>
    match list.find? (fun n => n.id == id) with
    | some n => .ok n
    | none => .error .undefined
  | _ => .error .undefined

end

/-! ## The operations -/

namespace LinkedHashMap
variable {M K V : Type}

def begin (m : LinkedHashMap M K V) : ListIterator := listBegin m.list

def empty (m : LinkedHashMap M K V) : Bool := m.list.isEmpty

/-- `a.swap(b)`: the new `a` and `b`. -/
def swap (m other : LinkedHashMap M K V) : LinkedHashMap M K V × LinkedHashMap M K V :=
  (⟨other.map, other.list⟩, ⟨m.map, m.list⟩)

variable [FlatHashMap M K ListIterator]

def init : LinkedHashMap M K V := ⟨FlatHashMap.empty, []⟩

def clear (m : LinkedHashMap M K V) : LinkedHashMap M K V := ⟨FlatHashMap.clear m.map, []⟩

/-- `erase(key)`: `list_` first. -/
def eraseKey (m : LinkedHashMap M K V) (key : K) : Except Failure (Nat × LinkedHashMap M K V) :=
  match FlatHashMap.find m.map key with
  | none => .ok (0, m)
  | some (.node id) =>
    match listErase id m.list with
    | .error e => .error e
    | .ok (_, list) => .ok (1, ⟨FlatHashMap.erase m.map key, list⟩)
  | some _ => .error .undefined

/-- `erase(position)` where `position` points at the node `node`: the check, then `map_`, then
    `list_`. `found->second` is read also where nothing was found. -/
def eraseNode (m : LinkedHashMap M K V) (node : ListNode K V) :
    Except Failure (ListIterator × LinkedHashMap M K V) :=
  match FlatHashMap.find m.map node.first with
  | none => .error .undefined
  | some found =>
    if found = .node node.id then
      match listErase node.id m.list with
      | .error e => .error e
      | .ok (next, list) => .ok (next, ⟨FlatHashMap.erase m.map node.first, list⟩)
    else .error .checkFailed

/-- `erase(position)` for an iterator of this map. -/
def erase (m : LinkedHashMap M K V) (position : ListIterator) :
    Except Failure (ListIterator × LinkedHashMap M K V) :=
  match listAt m.list position with
  | .error e => .error e
  | .ok node => m.eraseNode node

/-- The loop of `erase(first, last)`. Each round takes a node off the list, so it goes round at most
    `fuel` times if `fuel` is the length of the list: then nothing is left to erase. -/
def eraseLoop (last : ListIterator) : Nat → LinkedHashMap M K V → ListIterator →
    Except Failure (ListIterator × LinkedHashMap M K V)
  | 0, m, first => if first ≠ last ∧ first ≠ .pastEnd then .error .undefined else .ok (first, m)
  | fuel + 1, m, first =>
    if first ≠ last ∧ first ≠ .pastEnd then
      match m.erase first with
      | .error e => .error e
      | .ok (first, m) => eraseLoop last fuel m first
    else .ok (first, m)

def eraseRange (m : LinkedHashMap M K V) (first last : ListIterator) :
    Except Failure (ListIterator × LinkedHashMap M K V) :=
  eraseLoop last m.list.length m first

def popFront (m : LinkedHashMap M K V) : Except Failure (LinkedHashMap M K V) :=
  match m.erase m.begin with
  | .error e => .error e
  | .ok (_, m) => .ok m

def find (m : LinkedHashMap M K V) (key : K) : ListIterator :=
  match FlatHashMap.find m.map key with
  | none => .pastEnd
  | some position => position

def contains (m : LinkedHashMap M K V) (key : K) : Bool := m.find key != .pastEnd

/-- `InsertInternal`: `map_` first, with a singular iterator until the node is in `list_`. -/
def insertInternal (m : LinkedHashMap M K V) (address : Nat) (pair : K × V) :
    (ListIterator × Bool) × LinkedHashMap M K V :=
  match FlatHashMap.insert m.map pair.1 .singular with
  | (map, false) => (((FlatHashMap.find map pair.1).getD .singular, false), ⟨map, m.list⟩)
  | (map, true) =>
    let list := m.list ++ [⟨address, pair.1, pair.2⟩]
    ((.node address, true), ⟨FlatHashMap.assign map pair.1 (.node address), list⟩)

/-- `insert(const std::pair<Key, Value>&)`. -/
def insert (m : LinkedHashMap M K V) (address : Nat) (pair : K × V) :
    (ListIterator × Bool) × LinkedHashMap M K V :=
  m.insertInternal address pair

/-- `insert(std::pair<Key, Value>&&)`. -/
def insertMove (m : LinkedHashMap M K V) (address : Nat) (pair : K × V) :
    (ListIterator × Bool) × LinkedHashMap M K V :=
  m.insertInternal address pair

/-- `operator[]`: the node whose value is returned. -/
def subscript [Inhabited V] (m : LinkedHashMap M K V) (address : Nat) (key : K) :
    Except Failure (ListNode K V × LinkedHashMap M K V) :=
  let inserted := m.insertMove address (key, default)
  match listAt inserted.2.list inserted.1.1 with
  | .error e => .error e
  | .ok node => .ok (node, inserted.2)

/-- `emplace`: the node first, in a list of its own, which dies with it if the key is present. -/
def emplace (m : LinkedHashMap M K V) (address : Nat) (first : K) (second : V) :
    (ListIterator × Bool) × LinkedHashMap M K V :=
  match FlatHashMap.insert m.map first (.node address) with
  | (map, false) => (((FlatHashMap.find map first).getD .singular, false), ⟨map, m.list⟩)
  | (map, true) =>
    (((FlatHashMap.find map first).getD .singular, true), ⟨map, m.list ++ [⟨address, first, second⟩]⟩)

def size (m : LinkedHashMap M K V) : Nat := FlatHashMap.size m.map

end LinkedHashMap

/-! ## The invariant, and what the map is for -/

/-- What an iterator says of the elements: a key, or the end. -/
inductive MapPosition (K : Type) where
  | atKey (key : K)
  | pastEnd
  | dangling
  deriving DecidableEq, Repr

def LinkedHashMap.position {M K V : Type} (m : LinkedHashMap M K V) : ListIterator → MapPosition K
  | .pastEnd => .pastEnd
  | .node id =>
    match m.list.find? (fun n => n.id == id) with
    | some n => .atKey n.first
    | none => .dangling
  | .singular => .dangling

/-- The position of the first of the keys. -/
def MapPosition.first {K : Type} : List K → MapPosition K
  | [] => .pastEnd
  | key :: _ => .atKey key

def ListNode.entry {K V : Type} (n : ListNode K V) : (_ : K) × V := ⟨n.first, n.second⟩

/-- `map_` and `list_` are in bijection: the keys of `list_` are distinct, and `map_` has these keys,
    each with the node that holds it. -/
structure WellFormed {M K V : Type} [FlatHashMap M K ListIterator] (m : LinkedHashMap M K V) : Prop where
  keys : (m.list.map ListNode.first).Nodup
  ids : (m.list.map ListNode.id).Nodup
  points : ∀ key position, FlatHashMap.find m.map key = some position ↔
    ∃ n ∈ m.list, n.first = key ∧ position = .node n.id

/-- The map has the elements of `o`, in order. -/
structure Represents {M K V : Type} [FlatHashMap M K ListIterator] (m : LinkedHashMap M K V) (o : Map K V) :
    Prop where
  wf : WellFormed m
  contents : m.list.map ListNode.entry = o.entries

section
variable {K V : Type} {n : ListNode K V} {before after list : List (ListNode K V)}

/-- The list without one node. -/
theorem sublist_remove : (before ++ after).Sublist (before ++ n :: after) :=
  (List.Sublist.refl before).append (List.sublist_cons_self n after)

/-- A node at the end whose key or address, `f`, is new. -/
theorem nodup_map_concat {α : Type} {f : ListNode K V → α} (h : (list.map f).Nodup)
    (hnew : ∀ a ∈ list, f a ≠ f n) : ((list ++ [n]).map f).Nodup := by
  rw [List.map_append, List.nodup_append]
  refine ⟨h, List.nodup_singleton _, fun x hx y hy => ?_⟩
  obtain ⟨a, ha, rfl⟩ := List.mem_map.mp hx
  rw [List.mem_singleton.mp hy]
  exact hnew a ha

theorem not_mem_before (h : ((before ++ n :: after).map ListNode.id).Nodup) {a : ListNode K V}
    (ha : a ∈ before) : a.id ≠ n.id := by
  rw [List.map_append, List.map_cons, List.nodup_append] at h
  exact h.2.2 _ (List.mem_map_of_mem ha) _ List.mem_cons_self

/-- The list's `erase` takes the node out, and returns what follows it. -/
theorem listErase_eq (h : ((before ++ n :: after).map ListNode.id).Nodup) :
    listErase n.id (before ++ n :: after) = .ok (listBegin after, before ++ after) := by
  induction before with
  | nil => rw [List.nil_append, listErase, if_pos rfl, List.nil_append]
  | cons a before ih =>
    have hne := not_mem_before h List.mem_cons_self
    have hrest := ih (List.nodup_cons.mp h).2
    rw [List.cons_append, listErase, if_neg hne, hrest, List.cons_append]

theorem find?_eq (h : (list.map ListNode.id).Nodup) (hn : n ∈ list) :
    list.find? (fun a => a.id == n.id) = some n := by
  obtain ⟨before, after, rfl⟩ := List.append_of_mem hn
  rw [List.find?_append, List.find?_eq_none.mpr, Option.none_or, List.find?_cons_of_pos (by simp)]
  intro a ha
  simpa using not_mem_before h ha

theorem listAt_eq (h : (list.map ListNode.id).Nodup) (hn : n ∈ list) : listAt list (.node n.id) = .ok n := by
  simp only [listAt, find?_eq h hn]

end

variable {M K V : Type} [DecidableEq K] [LawfulFlatHashMap M K ListIterator] {m : LinkedHashMap M K V}
  {o : Map K V}

omit [DecidableEq K] [LawfulFlatHashMap M K ListIterator] in
/-- The elements of the list, as an insertion-ordered map. -/
theorem WellFormed.represents [FlatHashMap M K ListIterator] (h : WellFormed m) : ∃ o, Represents m o := by
  have hkeys : (m.list.map ListNode.entry).NodupKeys := by
    rw [List.NodupKeys, List.keys, List.map_map]
    exact h.keys
  exact ⟨⟨_, hkeys⟩, h, rfl⟩

namespace Represents

section
omit [DecidableEq K] [LawfulFlatHashMap M K ListIterator]
variable [FlatHashMap M K ListIterator]

theorem keys_eq (h : Represents m o) : m.list.map ListNode.first = o.keys := by
  rw [AList.keys, ← h.contents, List.keys, List.map_map]
  rfl

theorem mem_iff (h : Represents m o) {key : K} : key ∈ o ↔ ∃ n ∈ m.list, n.first = key := by
  rw [AList.mem_keys, ← h.keys_eq, List.mem_map]

theorem find_eq_none (h : Represents m o) {key : K} : FlatHashMap.find m.map key = none ↔ key ∉ o := by
  rw [h.mem_iff, Option.eq_none_iff_forall_ne_some]
  constructor
  · intro hnone hx
    obtain ⟨n, hn, hkey⟩ := hx
    exact hnone _ ((h.wf.points key _).mpr ⟨n, hn, hkey, rfl⟩)
  · intro hnot position hpos
    obtain ⟨n, hn, hkey, -⟩ := (h.wf.points key position).mp hpos
    exact hnot ⟨n, hn, hkey⟩

theorem find_ne_none (h : Represents m o) {key : K} : FlatHashMap.find m.map key ≠ none ↔ key ∈ o := by
  rw [ne_eq, h.find_eq_none, not_not]

theorem find_of_mem (h : Represents m o) {n : ListNode K V} (hn : n ∈ m.list) :
    FlatHashMap.find m.map n.first = some (.node n.id) :=
  (h.wf.points _ _).mpr ⟨n, hn, rfl, rfl⟩

theorem value_eq [DecidableEq K] (h : Represents m o) {n : ListNode K V} (hn : n ∈ m.list) :
    o.lookup n.first = some n.second := by
  have hmem : n.entry ∈ o.entries := by
    rw [← h.contents]
    exact List.mem_map_of_mem hn
  exact AList.mem_lookup_iff.mpr hmem

/-- A `map_` in which the same is found. -/
theorem congr (h : Represents m o) {map : M}
    (hfind : ∀ key, FlatHashMap.find map key = FlatHashMap.find m.map key) : Represents ⟨map, m.list⟩ o :=
  ⟨⟨h.wf.keys, h.wf.ids, fun key position => by rw [hfind]; exact h.wf.points key position⟩, h.contents⟩

end

theorem of_empty {map : M} (hfind : ∀ key, FlatHashMap.find map key = none) :
    Represents (⟨map, []⟩ : LinkedHashMap M K V) ∅ where
  wf := ⟨List.nodup_nil, List.nodup_nil, by simp [hfind]⟩
  contents := rfl

theorem of_init : Represents (LinkedHashMap.init : LinkedHashMap M K V) ∅ :=
  of_empty LawfulFlatHashMap.find_empty

/-- A node with a new address and a new key at the end, which `map_` finds then. -/
theorem concat (h : Represents m o) {map : M} {address : Nat} {key : K} (value : V) (hkey : key ∉ o)
    (hfind : ∀ k, FlatHashMap.find map k = if k = key then some (.node address) else FlatHashMap.find m.map k)
    (hnew : ∀ n ∈ m.list, n.id ≠ address) :
    Represents ⟨map, m.list ++ [⟨address, key, value⟩]⟩ (insertBack key value o).1 := by
  have hlist : ∀ n ∈ m.list, n.first ≠ key := fun n hn he => hkey (h.mem_iff.mpr ⟨n, hn, he⟩)
  refine ⟨⟨nodup_map_concat h.wf.keys hlist, nodup_map_concat h.wf.ids hnew, fun key' position => ?_⟩, ?_⟩
  · rw [hfind]
    constructor
    · intro hpos
      split at hpos
      · rename_i he
        cases hpos
        exact ⟨⟨address, key, value⟩, List.mem_append_right _ (List.mem_singleton.mpr rfl), he.symm, rfl⟩
      · obtain ⟨n, hn, hfirst, hid⟩ := (h.wf.points key' position).mp hpos
        exact ⟨n, List.mem_append_left _ hn, hfirst, hid⟩
    · intro hx
      obtain ⟨n, hn, rfl, rfl⟩ := hx
      rcases List.mem_append.mp hn with hn | hn
      · rw [if_neg (hlist n hn), h.find_of_mem hn]
      · rw [List.mem_singleton.mp hn, if_pos rfl]
  · rw [entries_insertBack hkey, List.map_append, h.contents]
    rfl

/-- A node taken out. -/
theorem remove (h : Represents m o) {n : ListNode K V} {before after : List (ListNode K V)}
    (hlist : m.list = before ++ n :: after) :
    Represents ⟨FlatHashMap.erase m.map n.first, before ++ after⟩ (o.erase n.first) := by
  have hsub : (before ++ after).Sublist m.list := by
    rw [hlist]
    exact sublist_remove
  have hn : n ∈ m.list := by rw [hlist]; simp
  have hgone : ∀ a ∈ before ++ after, a.first ≠ n.first := by
    have hkeys := h.wf.keys
    rw [hlist, List.map_append, List.map_cons, List.nodup_middle, List.nodup_cons, ← List.map_append] at hkeys
    exact fun a ha he => hkeys.1 (List.mem_map.mpr ⟨a, ha, he⟩)
  have hstay : ∀ a ∈ m.list, a.first ≠ n.first → a ∈ before ++ after := by
    intro a ha hne
    rw [hlist, List.mem_append, List.mem_cons] at ha
    rw [List.mem_append]
    rcases ha with ha | rfl | ha
    · exact .inl ha
    · exact absurd rfl hne
    · exact .inr ha
  have hfind := LawfulFlatHashMap.find_erase m.map n.first (h.find_ne_none.mpr (h.mem_iff.mpr ⟨n, hn, rfl⟩))
  refine ⟨⟨h.wf.keys.sublist (hsub.map _), h.wf.ids.sublist (hsub.map _), fun key position => ?_⟩, ?_⟩
  · by_cases hkey : key = n.first
    · rw [hfind, if_pos hkey]
      constructor
      · intro hpos
        cases hpos
      · intro hx
        obtain ⟨a, ha, hfirst, -⟩ := hx
        exact absurd (hfirst.trans hkey) (hgone a ha)
    · rw [hfind, if_neg hkey, h.wf.points]
      constructor
      · intro hx
        obtain ⟨a, ha, hfirst, hid⟩ := hx
        exact ⟨a, hstay a ha (hfirst ▸ hkey), hfirst, hid⟩
      · intro hx
        obtain ⟨a, ha, hfirst, hid⟩ := hx
        exact ⟨a, hsub.subset ha, hfirst, hid⟩
  · have hentries := h.contents
    rw [hlist, List.map_append, List.map_cons] at hentries
    have hbefore : n.first ∉ (before.map ListNode.entry).keys := by
      intro hmem
      rw [List.keys, List.map_map] at hmem
      obtain ⟨a, ha, hfirst⟩ := List.mem_map.mp hmem
      exact hgone a (List.mem_append_left _ ha) hfirst
    have hcons : (n.entry :: after.map ListNode.entry).kerase n.first = after.map ListNode.entry :=
      List.kerase_cons_eq rfl
    change _ = o.entries.kerase n.first
    rw [← hentries, List.kerase_append_right hbefore, hcons, List.map_append]

theorem position_eq (h : Represents m o) {n : ListNode K V} (hn : n ∈ m.list) :
    m.position (.node n.id) = .atKey n.first := by
  simp only [LinkedHashMap.position, find?_eq h.wf.ids hn]

theorem position_listBegin (h : Represents m o) {before after : List (ListNode K V)}
    (hlist : m.list = before ++ after) :
    m.position (listBegin after) = .first (after.map ListNode.first) := by
  cases after with
  | nil => rfl
  | cons n after => exact h.position_eq (by simp [hlist])

/-! ## The operations keep it -/

/-- A key that is present has its node. -/
theorem node_of_mem (h : Represents m o) {key : K} (hkey : key ∈ o) :
    ∃ n ∈ m.list, n.first = key ∧ FlatHashMap.find m.map key = some (.node n.id) := by
  obtain ⟨n, hn, rfl⟩ := h.mem_iff.mp hkey
  exact ⟨n, hn, rfl, h.find_of_mem hn⟩

variable {address : Nat}

/-- An insertion adds its node or nothing. -/
theorem mem_insertInternal {pair : K × V} {n : ListNode K V} (hn : n ∈ (m.insertInternal address pair).2.list) :
    n ∈ m.list ∨ n.id = address := by
  unfold LinkedHashMap.insertInternal at hn
  split at hn
  · exact .inl hn
  · exact (List.mem_append.mp hn).imp_right fun hn => by rw [List.mem_singleton.mp hn]

theorem mem_emplace {first : K} {second : V} {n : ListNode K V}
    (hn : n ∈ (m.emplace address first second).2.list) : n ∈ m.list ∨ n.id = address := by
  unfold LinkedHashMap.emplace at hn
  split at hn
  · exact .inl hn
  · exact (List.mem_append.mp hn).imp_right fun hn => by rw [List.mem_singleton.mp hn]

theorem insertInternal (h : Represents m o) (hnew : ∀ n ∈ m.list, n.id ≠ address) (pair : K × V) :
    Represents (m.insertInternal address pair).2 (insertBack pair.1 pair.2 o).1 ∧
      (m.insertInternal address pair).2.position (m.insertInternal address pair).1.1 = .atKey pair.1 ∧
      (m.insertInternal address pair).1.2 = (insertBack pair.1 pair.2 o).2 := by
  unfold LinkedHashMap.insertInternal
  generalize hinsert : FlatHashMap.insert m.map pair.1 ListIterator.singular = out
  obtain ⟨map, isNew⟩ := out
  by_cases hkey : pair.1 ∈ o
  · obtain ⟨n, hn, hfirst, hlookup⟩ := h.node_of_mem hkey
    obtain ⟨hold, hfind⟩ := LawfulFlatHashMap.insert_present m.map pair.1 .singular (h.find_ne_none.mpr hkey)
    rw [hinsert] at hold hfind
    subst hold
    have hout := h.congr hfind
    simp only [hfind, hlookup, Option.getD_some, insertBack_of_mem hkey]
    exact ⟨hout, (hout.position_eq hn).trans (congrArg _ hfirst), trivial⟩
  · obtain ⟨hisNew, hfind⟩ := LawfulFlatHashMap.insert_new m.map pair.1 .singular (h.find_eq_none.mpr hkey)
    rw [hinsert] at hisNew hfind
    subst hisNew
    have hassign : ∀ k, FlatHashMap.find (FlatHashMap.assign map pair.1 (.node address)) k =
        if k = pair.1 then some (.node address) else FlatHashMap.find m.map k := by
      intro k
      rw [LawfulFlatHashMap.find_assign map pair.1 _ (by simp [hfind]), hfind]
      split <;> rfl
    have hout := h.concat pair.2 hkey hassign hnew
    exact ⟨hout, hout.position_eq (n := ⟨address, pair.1, pair.2⟩) (by simp), (insertBack_snd.mpr hkey).symm⟩

theorem emplace (h : Represents m o) (hnew : ∀ n ∈ m.list, n.id ≠ address) (first : K) (second : V) :
    Represents (m.emplace address first second).2 (insertBack first second o).1 ∧
      (m.emplace address first second).2.position (m.emplace address first second).1.1 = .atKey first ∧
      (m.emplace address first second).1.2 = (insertBack first second o).2 := by
  unfold LinkedHashMap.emplace
  generalize hinsert : FlatHashMap.insert m.map first (ListIterator.node address) = out
  obtain ⟨map, isNew⟩ := out
  by_cases hkey : first ∈ o
  · obtain ⟨n, hn, hfirst, hlookup⟩ := h.node_of_mem hkey
    obtain ⟨hold, hfind⟩ :=
      LawfulFlatHashMap.insert_present m.map first (.node address) (h.find_ne_none.mpr hkey)
    rw [hinsert] at hold hfind
    subst hold
    have hout := h.congr hfind
    simp only [hfind, hlookup, Option.getD_some, insertBack_of_mem hkey]
    exact ⟨hout, (hout.position_eq hn).trans (congrArg _ hfirst), trivial⟩
  · obtain ⟨hisNew, hfind⟩ := LawfulFlatHashMap.insert_new m.map first (.node address) (h.find_eq_none.mpr hkey)
    rw [hinsert] at hisNew hfind
    subst hisNew
    have hout := h.concat second hkey hfind hnew
    simp only [hfind, if_true, Option.getD_some]
    exact ⟨hout, hout.position_eq (n := ⟨address, first, second⟩) (by simp), (insertBack_snd.mpr hkey).symm⟩

theorem subscript [Inhabited V] (h : Represents m o) (hnew : ∀ n ∈ m.list, n.id ≠ address) (key : K) :
    ∃ n m', m.subscript address key = .ok (n, m') ∧ Represents m' (insertBack key default o).1 ∧
      n ∈ m'.list ∧ n.first = key ∧ ∀ a ∈ m'.list, a ∈ m.list ∨ a.id = address := by
  obtain ⟨hout, hpos, -⟩ := h.insertInternal hnew (key, default)
  have hmem : ∀ a ∈ (m.insertInternal address (key, default)).2.list, a ∈ m.list ∨ a.id = address :=
    fun a ha => mem_insertInternal ha
  unfold LinkedHashMap.subscript LinkedHashMap.insertMove
  generalize m.insertInternal address (key, default) = out at hout hpos hmem ⊢
  obtain ⟨⟨position, inserted⟩, m'⟩ := out
  simp only at hout hpos ⊢
  cases position with
  | singular | pastEnd => cases hpos
  | node id =>
    simp only [LinkedHashMap.position] at hpos
    split at hpos
    · rename_i n hfind
      refine ⟨n, m', ?_, hout, List.mem_of_find?_eq_some hfind, MapPosition.atKey.inj hpos, hmem⟩
      simp only [listAt, hfind]
    · cases hpos

theorem eraseKey (h : Represents m o) (key : K) :
    ∃ m', m.eraseKey key = .ok (if key ∈ o then 1 else 0, m') ∧ Represents m' (o.erase key) ∧
      m'.list.Sublist m.list := by
  by_cases hkey : key ∈ o
  · obtain ⟨n, hn, rfl, hlookup⟩ := h.node_of_mem hkey
    obtain ⟨before, after, hlist⟩ := List.append_of_mem hn
    have hids := h.wf.ids
    rw [hlist] at hids
    refine ⟨_, ?_, h.remove hlist, ?_⟩
    · simp only [LinkedHashMap.eraseKey, hlookup, hlist, listErase_eq hids, if_pos hkey]
    · rw [hlist]
      exact sublist_remove
  · refine ⟨m, ?_, ?_, List.Sublist.refl _⟩
    · simp only [LinkedHashMap.eraseKey, h.find_eq_none.mpr hkey, if_neg hkey]
    · have hsame : o.erase key = o :=
        AList.ext (List.kerase_of_notMem_keys fun hmem => hkey (AList.mem_keys.mpr hmem))
      rw [hsame]
      exact h

theorem eraseNode (h : Represents m o) {n : ListNode K V} {before after : List (ListNode K V)}
    (hlist : m.list = before ++ n :: after) :
    m.eraseNode n = .ok (listBegin after, ⟨FlatHashMap.erase m.map n.first, before ++ after⟩) := by
  have hn : n ∈ m.list := by simp [hlist]
  have hids := h.wf.ids
  rw [hlist] at hids
  simp only [LinkedHashMap.eraseNode, h.find_of_mem hn, if_true, hlist, listErase_eq hids]

theorem erase (h : Represents m o) {n : ListNode K V} {before after : List (ListNode K V)}
    (hlist : m.list = before ++ n :: after) :
    m.erase (.node n.id) = .ok (listBegin after, ⟨FlatHashMap.erase m.map n.first, before ++ after⟩) := by
  have hn : n ∈ m.list := by simp [hlist]
  simp only [LinkedHashMap.erase, listAt_eq h.wf.ids hn, h.eraseNode hlist]

/-- The loop takes the nodes of the range off the list, one each round. -/
theorem eraseLoop {range before after : List (ListNode K V)} :
    ∀ {fuel : Nat} {m : LinkedHashMap M K V} {o : Map K V}, Represents m o →
      m.list = before ++ (range ++ after) → range.length ≤ fuel →
      ∃ m', LinkedHashMap.eraseLoop (listBegin after) fuel m (listBegin (range ++ after)) =
          .ok (listBegin after, m') ∧
        Represents m' (eraseKeys (range.map ListNode.first) o) ∧ m'.list = before ++ after := by
  induction range with
  | nil =>
    intro fuel m o h hlist _
    refine ⟨m, ?_, h, hlist⟩
    cases fuel <;> simp [LinkedHashMap.eraseLoop]
  | cons n range ih =>
    intro fuel m o h hlist hfuel
    obtain ⟨fuel, rfl⟩ : ∃ k, fuel = k + 1 := Nat.exists_eq_succ_of_ne_zero (by simp at hfuel; omega)
    have hids := h.wf.ids
    rw [hlist] at hids
    -- the node is not the first one after the range
    have hne : listBegin (n :: range ++ after) ≠ listBegin after := by
      cases after with
      | nil => simp [listBegin]
      | cons a after =>
        intro he
        have hid : n.id = a.id := ListIterator.node.inj he
        rw [List.map_append, List.nodup_append] at hids
        simp [hid] at hids
    obtain ⟨m', hloop, hout, hlist'⟩ := ih (h.remove hlist) rfl (Nat.le_of_succ_le_succ hfuel)
    refine ⟨m', ?_, hout, hlist'⟩
    have herase := h.erase (n := n) hlist
    rw [LinkedHashMap.eraseLoop, if_pos ⟨hne, by simp [listBegin]⟩]
    simp only [List.cons_append, listBegin, herase]
    exact hloop

theorem eraseRange (h : Represents m o) {range before after : List (ListNode K V)}
    (hlist : m.list = before ++ (range ++ after)) :
    ∃ m', m.eraseRange (listBegin (range ++ after)) (listBegin after) = .ok (listBegin after, m') ∧
      Represents m' (eraseKeys (range.map ListNode.first) o) ∧ m'.list = before ++ after :=
  eraseLoop h hlist (by simp [hlist]; omega)

theorem popFront (h : Represents m o) {n : ListNode K V} {after : List (ListNode K V)}
    (hlist : m.list = n :: after) :
    ∃ m', m.popFront = .ok m' ∧ Represents m' (o.erase n.first) ∧ m'.list = after := by
  have hfront : m.list = [] ++ n :: after := hlist
  refine ⟨_, ?_, h.remove hfront, rfl⟩
  simp only [LinkedHashMap.popFront, LinkedHashMap.begin, hlist, listBegin, h.erase hfront]

/-! ## What is read -/

theorem find (h : Represents m o) (key : K) :
    m.position (m.find key) = if key ∈ o then .atKey key else .pastEnd := by
  by_cases hkey : key ∈ o
  · obtain ⟨n, hn, rfl, hlookup⟩ := h.node_of_mem hkey
    simp only [LinkedHashMap.find, hlookup, if_pos hkey]
    exact h.position_eq hn
  · simp only [LinkedHashMap.find, h.find_eq_none.mpr hkey, if_neg hkey]
    rfl

theorem contains (h : Represents m o) (key : K) : m.contains key = decide (key ∈ o) := by
  by_cases hkey : key ∈ o
  · obtain ⟨n, hn, rfl, hlookup⟩ := h.node_of_mem hkey
    simp [LinkedHashMap.contains, LinkedHashMap.find, hlookup, hkey]
  · simp [LinkedHashMap.contains, LinkedHashMap.find, h.find_eq_none.mpr hkey, hkey]

theorem size (h : Represents m o) : m.size = o.keys.length :=
  LawfulFlatHashMap.size_eq m.map o.keys o.keys_nodup fun key => by rw [h.find_ne_none, AList.mem_keys]

theorem empty (h : Represents m o) : m.empty = o.keys.isEmpty := by
  rw [LinkedHashMap.empty, ← h.keys_eq, List.isEmpty_map]

end Represents

end IoBase
