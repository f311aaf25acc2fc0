import IoBase.LinkedHashMap

/- What an operation that fails leaves of a `LinkedHashMap`.

   The operations of `LinkedHashMap.lean` say that they fail. Here they also say what the
   map is then. `erase(position)` looks the key of the node up and checks that it has
   found that node, but reads what it has found before it has excluded that it has found
   nothing. An insertion builds a node of `list_` and an entry of `map_`, and each can
   throw: `InsertInternal` makes the entry first, `emplace` the node.

   A list in which making a node throws is as before. What a `flat_hash_map` is in which
   making an entry throws is its `insertThrown`, of which a lawful one says the same.

   * `erase_rejects_foreign`: which iterators of another map are rejected by the check.
   * `failed_insertion_intact`: which failed insertions leave the map intact. -/
namespace IoBase
open OrderedMap

variable {M K V : Type}

/-! ## Erasing through an iterator -/

section
variable [FlatHashMap M K ListIterator]

/-- `erase(position)` where `position` points at `node`, which may be of another map; a failure comes with
    the map as it is then. -/
def LinkedHashMap.eraseNodeLeaving (m : LinkedHashMap M K V) (node : ListNode K V) :
    Except (Failure × LinkedHashMap M K V) (ListIterator × LinkedHashMap M K V) :=
  match FlatHashMap.find m.map node.first with
  -- `found->second` is read at `map_.end()`
  | none => .error (.undefined, m)
  | some found =>
    if found = .node node.id then
      let map := FlatHashMap.erase m.map node.first
      match listErase node.id m.list with
      | .error e => .error (e, ⟨map, m.list⟩)
      | .ok (next, list) => .ok (next, ⟨map, list⟩)
    else .error (.checkFailed, m)

theorem eraseNodeLeaving_eq (m : LinkedHashMap M K V) (node : ListNode K V) :
    (m.eraseNodeLeaving node).mapError Prod.fst = m.eraseNode node := by
  unfold LinkedHashMap.eraseNodeLeaving LinkedHashMap.eraseNode
  cases FlatHashMap.find m.map node.first with
  | none => rfl
  | some found =>
    simp only
    split
    · cases listErase node.id m.list <;> rfl
    · rfl

/-- Exactly the map's own nodes are erased; for others the check fails, with the map as before. -/
structure ChecksIterator (m : LinkedHashMap M K V) (node : ListNode K V) : Prop where
  own : node ∈ m.list → ∃ before after, m.list = before ++ node :: after ∧
    m.eraseNodeLeaving node =
      .ok (listBegin after, ⟨FlatHashMap.erase m.map node.first, before ++ after⟩) ∧
    WellFormed ⟨FlatHashMap.erase m.map node.first, before ++ after⟩
  foreign : node ∉ m.list → m.eraseNodeLeaving node = .error (.checkFailed, m)

end

/-- A node that an iterator can point at: one of this map's, or one with another address than these. -/
def Dereferenceable (m : LinkedHashMap M K V) (node : ListNode K V) : Prop :=
  node ∈ m.list ∨ ∀ n ∈ m.list, n.id ≠ node.id

section
variable [DecidableEq K] [LawfulFlatHashMap M K ListIterator] {m : LinkedHashMap M K V} {node : ListNode K V}

/-- **`erase` rejects a foreign iterator by its check**, and erases through an own one, exactly if the map
    has the key of the node; otherwise it reads through what the lookup has not found. -/
theorem erase_rejects_foreign (hwf : WellFormed m) (hnode : Dereferenceable m node) :
    ChecksIterator m node ↔ FlatHashMap.find m.map node.first ≠ none := by
  constructor
  · intro h hlookup
    have hnot : node ∉ m.list := by
      intro hn
      rw [(hwf.points _ _).mpr ⟨node, hn, rfl, rfl⟩] at hlookup
      cases hlookup
    have hfails := h.foreign hnot
    simp only [LinkedHashMap.eraseNodeLeaving, hlookup] at hfails
    cases hfails
  · intro hkey
    refine ⟨fun hn => ?_, fun hnot => ?_⟩
    · obtain ⟨o, hrep⟩ := hwf.represents
      obtain ⟨before, after, hlist⟩ := List.append_of_mem hn
      have hids := hwf.ids
      rw [hlist] at hids
      refine ⟨before, after, hlist, ?_, (hrep.remove hlist).wf⟩
      simp only [LinkedHashMap.eraseNodeLeaving, hrep.find_of_mem hn, if_true, hlist, listErase_eq hids]
    · obtain ⟨position, hposition⟩ := Option.ne_none_iff_exists'.mp hkey
      obtain ⟨n, hn, -, rfl⟩ := (hwf.points _ _).mp hposition
      have hne : ListIterator.node n.id ≠ .node node.id := fun he =>
        hnode.resolve_left hnot n hn (ListIterator.node.inj he)
      simp only [LinkedHashMap.eraseNodeLeaving, hposition, if_neg hne]

end

/-- The map with the elements 1 and 2, and an iterator of another map at an element with the key 2. -/
theorem erase_rejects_foreign_sameKey :
    ChecksIterator (((LinkedHashMap.init : NatMap).insert 0 (1, 10)).2.insert 1 (2, 20)).2
      ⟨7, 2, 20⟩ := by
  have hone : Represents ((LinkedHashMap.init : NatMap).insert 0 (1, 10)).2 _ :=
    (Represents.of_init.insertInternal (fun _ hn => nomatch hn) (1, 10)).1
  have htwo : Represents (((LinkedHashMap.init : NatMap).insert 0 (1, 10)).2.insert 1 (2, 20)).2 _ :=
    (hone.insertInternal (by decide) (2, 20)).1
  exact (erase_rejects_foreign htwo.wf (.inr (by decide))).mpr (by decide)

/-- The map is empty. -/
theorem absent_key_read :
    ¬∀ (m : NatMap) (node : ListNode Nat Nat), WellFormed m → Dereferenceable m node →
      ChecksIterator m node := by
  intro hclaim
  have hwf : WellFormed (LinkedHashMap.init : NatMap) := Represents.of_init.wf
  have hfails := (hclaim .init ⟨7, 2, 20⟩ hwf (.inr fun _ hn => nomatch hn)).foreign (fun hn => nomatch hn)
  cases hfails

/-! ## Insertions that throw -/

/-- What an insertion constructs: an argument of its own (`Value()` and the pair in `operator[]`, the pair
    of key and node in `emplace`), the entry of `map_`, and the node of `list_`. -/
inductive Construction where
  | argument
  | entry
  | node
  deriving DecidableEq, Repr

/-- The calls that insert. -/
inductive Insertion (K V : Type) where
  | insert (pair : K × V)
  | insertMove (pair : K × V)
  | subscript (key : K)
  | emplace (first : K) (second : V)

section
variable [FlatHashMap M K ListIterator] {m : LinkedHashMap M K V} {address : Nat}

namespace LinkedHashMap

/-- `InsertInternal`, where the constructions `throws` throw; then it leaves a map and no result. Only for a
    new key an entry is made. -/
def insertInternalLeaving (m : LinkedHashMap M K V) (address : Nat) (pair : K × V)
    (throws : Construction → Bool) :
    Except (LinkedHashMap M K V) ((ListIterator × Bool) × LinkedHashMap M K V) :=
  if (FlatHashMap.find m.map pair.1).isNone && throws .entry then
    .error ⟨FlatHashMap.insertThrown m.map pair.1, m.list⟩
  else
    match FlatHashMap.insert m.map pair.1 .singular with
    | (map, false) => .ok (((FlatHashMap.find map pair.1).getD .singular, false), ⟨map, m.list⟩)
    | (map, true) =>
      if throws .node then .error ⟨map, m.list⟩
      else
        let list := m.list ++ [⟨address, pair.1, pair.2⟩]
        .ok ((.node address, true), ⟨FlatHashMap.assign map pair.1 (.node address), list⟩)

def emplaceLeaving (m : LinkedHashMap M K V) (address : Nat) (first : K) (second : V)
    (throws : Construction → Bool) :
    Except (LinkedHashMap M K V) ((ListIterator × Bool) × LinkedHashMap M K V) :=
  if throws .node then .error m
  else if throws .argument then .error m
  else if (FlatHashMap.find m.map first).isNone && throws .entry then
    .error ⟨FlatHashMap.insertThrown m.map first, m.list⟩
  else
    match FlatHashMap.insert m.map first (.node address) with
    | (map, false) => .ok (((FlatHashMap.find map first).getD .singular, false), ⟨map, m.list⟩)
    | (map, true) =>
      .ok (((FlatHashMap.find map first).getD .singular, true),
        ⟨map, m.list ++ [⟨address, first, second⟩]⟩)

/-- The map after an insertion, or the one that it leaves when it throws. -/
def insertLeaving [Inhabited V] (m : LinkedHashMap M K V) (address : Nat) (throws : Construction → Bool) :
    Insertion K V → Except (LinkedHashMap M K V) (LinkedHashMap M K V)
  | .insert pair => (m.insertInternalLeaving address pair throws).map Prod.snd
  | .insertMove pair => (m.insertInternalLeaving address pair throws).map Prod.snd
  | .subscript key =>
    if throws .argument then .error m
    else (m.insertInternalLeaving address (key, default) throws).map Prod.snd
  | .emplace first second => (m.emplaceLeaving address first second throws).map Prod.snd

end LinkedHashMap

theorem insertInternalLeaving_eq (pair : K × V) :
    m.insertInternalLeaving address pair (fun _ => false) = .ok (m.insertInternal address pair) := by
  simp only [LinkedHashMap.insertInternalLeaving, LinkedHashMap.insertInternal, Bool.and_false,
    Bool.false_eq_true, if_false]
  obtain ⟨map, isNew⟩ := FlatHashMap.insert m.map pair.1 ListIterator.singular
  cases isNew <;> rfl

theorem emplaceLeaving_eq (first : K) (second : V) :
    m.emplaceLeaving address first second (fun _ => false) = .ok (m.emplace address first second) := by
  simp only [LinkedHashMap.emplaceLeaving, LinkedHashMap.emplace, Bool.and_false, Bool.false_eq_true, if_false]
  obtain ⟨map, isNew⟩ := FlatHashMap.insert m.map first (ListIterator.node address)
  cases isNew <;> rfl

/-- The entry of a new key is made by `InsertInternal`, and its node throws. -/
def ThrowsAtNode (m : LinkedHashMap M K V) (throws : Construction → Bool) : Insertion K V → Prop
  | .insert pair | .insertMove pair =>
    FlatHashMap.find m.map pair.1 = none ∧ throws .entry = false ∧ throws .node = true
  | .subscript key =>
    throws .argument = false ∧ FlatHashMap.find m.map key = none ∧ throws .entry = false ∧ throws .node = true
  | .emplace _ _ => False

/-- Where the insertion throws, the map it leaves has the same elements in the same order, and satisfies
    its invariant. -/
def LeavesIntact (m : LinkedHashMap M K V) (out : Except (LinkedHashMap M K V) (LinkedHashMap M K V)) : Prop :=
  ∀ m', out = .error m' → m'.list = m.list ∧ WellFormed m'

end

section
variable [DecidableEq K] [LawfulFlatHashMap M K ListIterator] {m : LinkedHashMap M K V} {address : Nat}

/-- A key with no node: the entry is made, and the node is not. -/
theorem not_wellFormed_singular {key : K} (hkey : FlatHashMap.find m.map key = none) :
    ¬WellFormed ⟨(FlatHashMap.insert m.map key .singular).1, m.list⟩ := by
  intro hwf
  obtain ⟨-, hfind⟩ := LawfulFlatHashMap.insert_new m.map key .singular hkey
  obtain ⟨n, -, -, hn⟩ := (hwf.points key .singular).mp (by rw [hfind, if_pos rfl])
  cases hn

/-- What a throwing entry leaves. -/
theorem wellFormed_insertThrown (hwf : WellFormed m) (key : K) :
    WellFormed ⟨FlatHashMap.insertThrown m.map key, m.list⟩ := by
  obtain ⟨o, hrep⟩ := hwf.represents
  exact (hrep.congr (LawfulFlatHashMap.find_insertThrown m.map key)).wf

theorem leavesIntact_of_error {m' : LinkedHashMap M K V} (hlist : m'.list = m.list) (hwf : WellFormed m') :
    LeavesIntact m (.error m') := by
  intro m'' herror
  cases herror
  exact ⟨hlist, hwf⟩

omit [DecidableEq K] [LawfulFlatHashMap M K ListIterator] in
theorem leavesIntact_of_ok [FlatHashMap M K ListIterator] (m' : LinkedHashMap M K V) : LeavesIntact m (.ok m') :=
  fun _ herror => nomatch herror

theorem insertInternal_leavesIntact (hwf : WellFormed m) (pair : K × V) (throws : Construction → Bool) :
    LeavesIntact m ((m.insertInternalLeaving address pair throws).map Prod.snd) ↔
      ¬(FlatHashMap.find m.map pair.1 = none ∧ throws .entry = false ∧ throws .node = true) := by
  unfold LinkedHashMap.insertInternalLeaving
  cases hkey : FlatHashMap.find m.map pair.1 with
  | some found =>
    have hpresent : FlatHashMap.find m.map pair.1 ≠ none := by simp [hkey]
    obtain ⟨hold, -⟩ := LawfulFlatHashMap.insert_present m.map pair.1 .singular hpresent
    generalize FlatHashMap.insert m.map pair.1 ListIterator.singular = out at hold ⊢
    obtain ⟨map, isNew⟩ := out
    subst hold
    exact ⟨fun _ hthrows => (by cases hthrows.1), fun _ => leavesIntact_of_ok _⟩
  | none =>
    cases hentry : throws .entry with
    | true =>
      refine ⟨fun _ hthrows => (by cases hthrows.2.1), fun _ => ?_⟩
      exact leavesIntact_of_error rfl (wellFormed_insertThrown hwf pair.1)
    | false =>
      have hsingular := not_wellFormed_singular hkey
      obtain ⟨hnew, -⟩ := LawfulFlatHashMap.insert_new m.map pair.1 .singular hkey
      generalize FlatHashMap.insert m.map pair.1 ListIterator.singular = out at hsingular hnew ⊢
      obtain ⟨map, isNew⟩ := out
      subst hnew
      cases hnode : throws .node with
      | true =>
        refine ⟨fun hintact => ?_, fun hnot => absurd ⟨rfl, rfl, rfl⟩ hnot⟩
        exact absurd (hintact _ rfl).2 hsingular
      | false => exact ⟨fun _ hthrows => (by cases hthrows.2.2), fun _ => leavesIntact_of_ok _⟩

theorem emplace_leavesIntact (hwf : WellFormed m) (first : K) (second : V) (throws : Construction → Bool) :
    LeavesIntact m ((m.emplaceLeaving address first second throws).map Prod.snd) := by
  unfold LinkedHashMap.emplaceLeaving
  split
  · exact leavesIntact_of_error rfl hwf
  · split
    · exact leavesIntact_of_error rfl hwf
    · split
      · exact leavesIntact_of_error rfl (wellFormed_insertThrown hwf first)
      · split <;> exact leavesIntact_of_ok _

/-- **A failing insertion leaves the map intact**, at every point where it can throw, exactly if it is not
    one through `InsertInternal` that has made the entry of a new key and throws at the node. -/
theorem failed_insertion_intact [Inhabited V] (hwf : WellFormed m) (throws : Construction → Bool)
    (insertion : Insertion K V) :
    LeavesIntact m (m.insertLeaving address throws insertion) ↔ ¬ThrowsAtNode m throws insertion := by
  cases insertion with
  | insert pair => exact insertInternal_leavesIntact hwf pair throws
  | insertMove pair => exact insertInternal_leavesIntact hwf pair throws
  | subscript key =>
    cases hargument : throws .argument with
    | true =>
      simp only [LinkedHashMap.insertLeaving, ThrowsAtNode, hargument, if_true]
      exact ⟨fun _ hthrows => (by cases hthrows.1), fun _ => leavesIntact_of_error rfl hwf⟩
    | false =>
      simp only [LinkedHashMap.insertLeaving, ThrowsAtNode, hargument, Bool.false_eq_true, if_false, true_and]
      exact insertInternal_leavesIntact hwf (key, default) throws
  | emplace first second =>
    exact ⟨fun _ hthrows => hthrows, fun _ => emplace_leavesIntact hwf first second throws⟩

end

/-- A second element, emplaced, for which the entry of `map_` throws. -/
theorem failed_insertion_intact_emplace :
    LeavesIntact ((LinkedHashMap.init : NatMap).insert 0 (1, 10)).2
      (((LinkedHashMap.init : NatMap).insert 0 (1, 10)).2.insertLeaving 1
        (fun construction => construction == .entry) (.emplace 2 20)) := by
  have hone : Represents ((LinkedHashMap.init : NatMap).insert 0 (1, 10)).2 _ :=
    (Represents.of_init.insertInternal (fun _ hn => nomatch hn) (1, 10)).1
  exact (failed_insertion_intact hone.wf _ _).mpr fun hthrows => hthrows

/-- The node of the first element throws. -/
theorem entry_without_node :
    ¬∀ (m : NatMap) (throws : Construction → Bool) (insertion : Insertion Nat Nat),
      WellFormed m → LeavesIntact m (m.insertLeaving 0 throws insertion) := by
  intro hclaim
  obtain ⟨-, hwf⟩ := hclaim .init (fun construction => construction == .node) (.insert (1, 10))
    Represents.of_init.wf _ rfl
  exact not_wellFormed_singular (m := .init) rfl hwf

end IoBase
