import IoBase.LinkedHashMap
import IoBase.Transition
import Mathlib.Logic.Function.Basic

/- `LinkedHashMap` refines an insertion-ordered map.

   A program works on any number of maps: `MapWorld.step` is one call, on concrete
   maps and iterators. `specStep` is the same call on insertion-ordered maps, where a
   position is a key or the end. Every call whose iterators are valid succeeds and is
   a call of the second kind (`step_refines`).

   * `linked_hash_map_refines`: in every run of valid calls the results are those of
     the insertion-ordered maps, `map_` and `list_` stay in bijection, and what is read
     from a map is what its insertion-ordered map has. -/
namespace IoBase
open OrderedMap Transition

/-- A call on the map `i`, with positions of type `P`. -/
inductive MapOp (K V P : Type) where
  | insert (i : Nat) (pair : K × V)
  | insertMove (i : Nat) (pair : K × V)
  | emplace (i : Nat) (first : K) (second : V)
  | subscript (i : Nat) (key : K)
  | eraseKey (i : Nat) (key : K)
  | erase (i : Nat) (position : P)
  | eraseRange (i : Nat) (first last : P)
  | popFront (i : Nat)
  | clear (i : Nat)
  | swap (i j : Nat)

inductive MapResult (V P : Type) where
  | nothing
  | inserted (position : P) (isNew : Bool)
  | element (position : P) (value : V)
  | erased (count : Nat)
  | next (position : P)
  deriving DecidableEq, Repr

namespace MapOp
variable {K V P Q : Type}

def target : MapOp K V P → Nat
  | .insert i _ | .insertMove i _ | .emplace i _ _ | .subscript i _ | .eraseKey i _ | .erase i _
  | .eraseRange i _ _ | .popFront i | .clear i | .swap i _ => i

def mapPositions (f : P → Q) : MapOp K V P → MapOp K V Q
  | .insert i pair => .insert i pair
  | .insertMove i pair => .insertMove i pair
  | .emplace i first second => .emplace i first second
  | .subscript i key => .subscript i key
  | .eraseKey i key => .eraseKey i key
  | .erase i position => .erase i (f position)
  | .eraseRange i first last => .eraseRange i (f first) (f last)
  | .popFront i => .popFront i
  | .clear i => .clear i
  | .swap i j => .swap i j

end MapOp

def MapResult.mapPositions {V P Q : Type} (f : P → Q) : MapResult V P → MapResult V Q
  | .nothing => .nothing
  | .inserted position isNew => .inserted (f position) isNew
  | .element position value => .element (f position) value
  | .erased count => .erased count
  | .next position => .next (f position)

variable {M K V : Type} [DecidableEq K] [Inhabited V]

/-! ## The concrete maps -/

/-- The maps, and the address of the next node. -/
structure MapWorld (M K V : Type) where
  maps : Nat → LinkedHashMap M K V
  nextNode : Nat

/-- Maps of numbers, with association lists for `map_`. -/
abbrev NatWorld := MapWorld (Map Nat ListIterator) Nat Nat

namespace MapWorld

section
omit [DecidableEq K] [Inhabited V]

def init [FlatHashMap M K ListIterator] : MapWorld M K V := ⟨fun _ => .init, 0⟩

/-- The map `i` changes. -/
def put (w : MapWorld M K V) (i : Nat) (m : LinkedHashMap M K V) : MapWorld M K V :=
  { w with maps := Function.update w.maps i m }

/-- The map `i` changes, in a call that may make a node. -/
def grow (w : MapWorld M K V) (i : Nat) (m : LinkedHashMap M K V) : MapWorld M K V :=
  ⟨Function.update w.maps i m, w.nextNode + 1⟩

end

omit [DecidableEq K] in
def step [FlatHashMap M K ListIterator] (w : MapWorld M K V) :
    MapOp K V ListIterator → Except Failure (MapResult V ListIterator × MapWorld M K V)
  | .insert i pair =>
    let out := (w.maps i).insert w.nextNode pair
    .ok (.inserted out.1.1 out.1.2, w.grow i out.2)
  | .insertMove i pair =>
    let out := (w.maps i).insertMove w.nextNode pair
    .ok (.inserted out.1.1 out.1.2, w.grow i out.2)
  | .emplace i first second =>
    let out := (w.maps i).emplace w.nextNode first second
    .ok (.inserted out.1.1 out.1.2, w.grow i out.2)
  | .subscript i key =>
    match (w.maps i).subscript w.nextNode key with
    | .error e => .error e
    | .ok (node, m) => .ok (.element (.node node.id) node.second, w.grow i m)
  | .eraseKey i key =>
    match (w.maps i).eraseKey key with
    | .error e => .error e
    | .ok (count, m) => .ok (.erased count, w.put i m)
  | .erase i position =>
    match (w.maps i).erase position with
    | .error e => .error e
    | .ok (next, m) => .ok (.next next, w.put i m)
  | .eraseRange i first last =>
    match (w.maps i).eraseRange first last with
    | .error e => .error e
    | .ok (next, m) => .ok (.next next, w.put i m)
  | .popFront i =>
    match (w.maps i).popFront with
    | .error e => .error e
    | .ok m => .ok (.nothing, w.put i m)
  | .clear i => .ok (.nothing, w.put i (w.maps i).clear)
  | .swap i j =>
    let out := (w.maps i).swap (w.maps j)
    .ok (.nothing, (w.put i out.1).put j out.2)

/-- The iterators `first` and `last` are positions of the list, `last` not before `first`. -/
def IsRange (list : List (ListNode K V)) (first last : ListIterator) : Prop :=
  ∃ i ∈ List.range (list.length + 1), ∃ j ∈ List.range (list.length + 1),
    i ≤ j ∧ first = listBegin (list.drop i) ∧ last = listBegin (list.drop j)

omit [DecidableEq K] [Inhabited V] in
instance (list : List (ListNode K V)) (first last : ListIterator) : Decidable (IsRange list first last) :=
  inferInstanceAs (Decidable (∃ i ∈ List.range (list.length + 1), ∃ j ∈ List.range (list.length + 1),
    i ≤ j ∧ first = listBegin (list.drop i) ∧ last = listBegin (list.drop j)))

omit [DecidableEq K] [Inhabited V] in
/-- The iterators of the call are valid, and `pop_front` is called on a map that is not empty. -/
def ValidCall (w : MapWorld M K V) : MapOp K V ListIterator → Prop
  | .erase i position => ∃ n ∈ (w.maps i).list, position = .node n.id
  | .eraseRange i first last => IsRange (w.maps i).list first last
  | .popFront i => (w.maps i).list.isEmpty = false
  | _ => True

instance (w : MapWorld M K V) : (op : MapOp K V ListIterator) → Decidable (w.ValidCall op)
  | .erase i position => inferInstanceAs (Decidable (∃ n ∈ (w.maps i).list, position = .node n.id))
  | .eraseRange i first last => inferInstanceAs (Decidable (IsRange (w.maps i).list first last))
  | .popFront i => inferInstanceAs (Decidable ((w.maps i).list.isEmpty = false))
  | .insert .. | .insertMove .. | .emplace .. | .subscript .. | .eraseKey .. | .clear _ | .swap .. =>
    .isTrue trivial

end MapWorld

/-! ## The insertion-ordered maps -/

/-- The keys from a position on. -/
def keysFrom (position : MapPosition K) (keys : List K) : List K :=
  match position with
  | .atKey key => keys.dropWhile fun k => k ≠ key
  | _ => []

def keysBetween (first last : MapPosition K) (keys : List K) : List K :=
  (keysFrom first keys).takeWhile fun k => MapPosition.atKey k ≠ last

def specStep (s : Nat → Map K V) (op : MapOp K V (MapPosition K)) :
    MapResult V (MapPosition K) × (Nat → Map K V) :=
  match op with
  | .insert i pair | .insertMove i pair =>
    let out := insertBack pair.1 pair.2 (s i)
    (.inserted (.atKey pair.1) out.2, Function.update s i out.1)
  | .emplace i first second =>
    let out := insertBack first second (s i)
    (.inserted (.atKey first) out.2, Function.update s i out.1)
  | .subscript i key =>
    let o := (insertBack key default (s i)).1
    (.element (.atKey key) ((o.lookup key).getD default), Function.update s i o)
  | .eraseKey i key =>
    (.erased (if key ∈ s i then 1 else 0), Function.update s i ((s i).erase key))
  | .erase i position =>
    let keys := keysFrom position (s i).keys
    (.next (.first (keys.drop 1)), Function.update s i (eraseKeys (keys.take 1) (s i)))
  | .eraseRange i first last =>
    (.next last, Function.update s i (eraseKeys (keysBetween first last (s i).keys) (s i)))
  | .popFront i => (.nothing, Function.update s i (eraseKeys ((s i).keys.take 1) (s i)))
  | .clear i => (.nothing, Function.update s i ∅)
  | .swap i j => (.nothing, Function.update (Function.update s i (s j)) j (s i))

/-- The results of the calls, and the maps after them. -/
def specRun (s : Nat → Map K V) : List (MapOp K V (MapPosition K)) →
    List (MapResult V (MapPosition K)) × (Nat → Map K V)
  | [] => ([], s)
  | op :: ops =>
    let out := specStep s op
    let rest := specRun out.2 ops
    (out.1 :: rest.1, rest.2)

/-! ## One call -/

/-- The maps `s` are those of `w`, and the nodes are older than the next one. -/
structure Refines [FlatHashMap M K ListIterator] (w : MapWorld M K V) (s : Nat → Map K V) : Prop where
  represents : ∀ i, Represents (w.maps i) (s i)
  older : ∀ i, ∀ n ∈ (w.maps i).list, n.id < w.nextNode

section
omit [Inhabited V]
variable [LawfulFlatHashMap M K ListIterator]
variable {w : MapWorld M K V} {s : Nat → Map K V} {i : Nat} {m : LinkedHashMap M K V} {o : Map K V}

theorem Refines.of_init : Refines (MapWorld.init : MapWorld M K V) fun _ => ∅ :=
  ⟨fun _ => Represents.of_init, fun _ _ hn => nomatch hn⟩

theorem Refines.ne_nextNode (h : Refines w s) {n : ListNode K V} (hn : n ∈ (w.maps i).list) :
    n.id ≠ w.nextNode :=
  Nat.ne_of_lt (h.older i n hn)

theorem Refines.represents_update (h : Refines w s) (hm : Represents m o) (j : Nat) :
    Represents (Function.update w.maps i m j) (Function.update s i o j) := by
  rcases eq_or_ne j i with rfl | hj
  · rw [Function.update_self, Function.update_self]
    exact hm
  · rw [Function.update_of_ne hj, Function.update_of_ne hj]
    exact h.represents j

omit [DecidableEq K] in
/-- A node is in the map that changed, or was there before. -/
theorem mem_update {j : Nat} {n : ListNode K V} (hn : n ∈ (Function.update w.maps i m j).list) :
    j = i ∧ n ∈ m.list ∨ n ∈ (w.maps j).list := by
  rcases eq_or_ne j i with rfl | hj
  · rw [Function.update_self] at hn
    exact .inl ⟨rfl, hn⟩
  · rw [Function.update_of_ne hj] at hn
    exact .inr hn

/-- A call that makes no node. -/
theorem Refines.put (h : Refines w s) (hm : Represents m o) (hlist : ∀ n ∈ m.list, n.id < w.nextNode) :
    Refines (w.put i m) (Function.update s i o) where
  represents := h.represents_update hm
  older j n hn := by
    rcases mem_update hn with ⟨-, hn⟩ | hn
    · exact hlist n hn
    · exact h.older j n hn

/-- A call that may make one. -/
theorem Refines.grow (h : Refines w s) (hm : Represents m o)
    (hlist : ∀ n ∈ m.list, n ∈ (w.maps i).list ∨ n.id = w.nextNode) :
    Refines (w.grow i m) (Function.update s i o) where
  represents := h.represents_update hm
  older j n hn := by
    rcases mem_update hn with ⟨-, hn⟩ | hn
    · rcases hlist n hn with hold | hnew
      · exact Nat.lt_succ_of_lt (h.older i n hold)
      · exact Nat.lt_succ_of_le (Nat.le_of_eq hnew)
    · exact Nat.lt_succ_of_lt (h.older j n hn)

omit [DecidableEq K] in
@[simp] theorem MapWorld.put_maps_self : (w.put i m).maps i = m := by
  simp [put]

omit [DecidableEq K] in
@[simp] theorem MapWorld.grow_maps_self : (w.grow i m).maps i = m := by
  simp [grow]

/-- The keys from the first of the later ones on are the later ones. -/
theorem keysFrom_first {before after : List K} (h : (before ++ after).Nodup) :
    keysFrom (.first after) (before ++ after) = after := by
  cases after with
  | nil => rfl
  | cons key after =>
    have hbefore : ∀ k ∈ before, decide (k ≠ key) = true := fun k hk =>
      decide_eq_true ((List.nodup_append.mp h).2.2 k hk key List.mem_cons_self)
    simp only [MapPosition.first, keysFrom, List.dropWhile_append_of_pos hbefore]
    simp

theorem keysBetween_first {before range after : List K} (h : (before ++ (range ++ after)).Nodup) :
    keysBetween (.first (range ++ after)) (.first after) (before ++ (range ++ after)) = range := by
  have hrest := (List.nodup_append.mp h).2.1
  have hrange : ∀ k ∈ range, decide (MapPosition.atKey k ≠ .first after) = true := by
    intro k hk
    cases after with
    | nil => simp [MapPosition.first]
    | cons key after =>
      have hne := (List.nodup_append.mp hrest).2.2 k hk key List.mem_cons_self
      simp [MapPosition.first, hne]
  rw [keysBetween, keysFrom_first h, List.takeWhile_append_of_pos hrange]
  cases after <;> simp [MapPosition.first]

end

/-- A list around a range of positions. -/
theorem split_range {α : Type} (list : List α) {a b : Nat} (hab : a ≤ b) :
    list = list.take a ++ ((list.drop a).take (b - a) ++ list.drop b) ∧
      list.drop a = (list.drop a).take (b - a) ++ list.drop b := by
  have hdrop : list.drop a = (list.drop a).take (b - a) ++ list.drop b := by
    have hb : (list.drop a).drop (b - a) = list.drop b := by
      rw [List.drop_drop, Nat.add_sub_cancel' hab]
    rw [← hb, List.take_append_drop]
  exact ⟨by rw [← hdrop, List.take_append_drop], hdrop⟩

/-- The call succeeds, and is the call of the insertion-ordered maps. -/
def RefinedCall [FlatHashMap M K ListIterator] (w : MapWorld M K V) (s : Nat → Map K V)
    (op : MapOp K V ListIterator) : Prop :=
  ∃ r w', w.step op = .ok (r, w') ∧
    (specStep s (op.mapPositions (w.maps op.target).position)).1 =
      r.mapPositions (w'.maps op.target).position ∧
    Refines w' (specStep s (op.mapPositions (w.maps op.target).position)).2

section
variable [LawfulFlatHashMap M K ListIterator] {w : MapWorld M K V} {s : Nat → Map K V}

theorem refined_insertInternal (h : Refines w s) (i : Nat) (pair : K × V) :
    RefinedCall w s (.insert i pair) := by
  obtain ⟨hout, hposition, hnew⟩ :=
    (h.represents i).insertInternal (fun n hn => h.ne_nextNode hn) pair
  refine ⟨_, _, rfl, ?_, h.grow hout fun n hn => Represents.mem_insertInternal hn⟩
  simp only [MapOp.target, MapOp.mapPositions, MapResult.mapPositions, specStep, MapWorld.grow_maps_self,
    LinkedHashMap.insert, hposition, hnew]

theorem refined_emplace (h : Refines w s) (i : Nat) (first : K) (second : V) :
    RefinedCall w s (.emplace i first second) := by
  obtain ⟨hout, hposition, hnew⟩ :=
    (h.represents i).emplace (fun n hn => h.ne_nextNode hn) first second
  refine ⟨_, _, rfl, ?_, h.grow hout fun n hn => Represents.mem_emplace hn⟩
  simp only [MapOp.target, MapOp.mapPositions, MapResult.mapPositions, specStep, MapWorld.grow_maps_self,
    hposition, hnew]

theorem refined_subscript (h : Refines w s) (i : Nat) (key : K) : RefinedCall w s (.subscript i key) := by
  obtain ⟨n, m, hsub, hout, hn, rfl, hlist⟩ :=
    (h.represents i).subscript (fun n hn => h.ne_nextNode hn) key
  refine ⟨.element (.node n.id) n.second, w.grow i m, ?_, ?_, h.grow hout hlist⟩
  · simp only [MapWorld.step, hsub]
  · simp only [MapOp.target, MapOp.mapPositions, MapResult.mapPositions, specStep, MapWorld.grow_maps_self,
      hout.position_eq hn, hout.value_eq hn, Option.getD_some]

theorem refined_eraseKey (h : Refines w s) (i : Nat) (key : K) : RefinedCall w s (.eraseKey i key) := by
  obtain ⟨m, herase, hout, hlist⟩ := (h.represents i).eraseKey key
  refine ⟨.erased _, w.put i m, ?_, rfl, h.put hout fun n hn => h.older i n (hlist.subset hn)⟩
  simp only [MapWorld.step, herase]

omit [Inhabited V] in
theorem keys_nodup_of_list (h : Refines w s) {i : Nat} {list : List (ListNode K V)}
    (hlist : (w.maps i).list = list) : (s i).keys = list.map ListNode.first ∧
      (list.map ListNode.first).Nodup := by
  rw [← hlist]
  exact ⟨(h.represents i).keys_eq.symm, (h.represents i).wf.keys⟩

theorem refined_erase (h : Refines w s) {i : Nat} {n : ListNode K V} (hn : n ∈ (w.maps i).list) :
    RefinedCall w s (.erase i (.node n.id)) := by
  obtain ⟨before, after, hlist⟩ := List.append_of_mem hn
  have hout := (h.represents i).remove hlist
  obtain ⟨hkeys, hnodup⟩ := keys_nodup_of_list h hlist
  rw [List.map_append] at hkeys hnodup
  have hposition := (h.represents i).position_listBegin hlist
  -- the keys from the one erased on
  have hfrom : keysFrom ((w.maps i).position (.node n.id)) (s i).keys = n.first :: after.map ListNode.first := by
    have hrest := keysFrom_first hnodup
    rw [← hkeys, ← hposition] at hrest
    exact hrest
  refine ⟨.next (listBegin after), w.put i ⟨FlatHashMap.erase (w.maps i).map n.first, before ++ after⟩,
    ?_, ?_, ?_⟩
  · simp only [MapWorld.step, (h.represents i).erase hlist]
  · simp only [MapOp.target, MapOp.mapPositions, MapResult.mapPositions, specStep, MapWorld.put_maps_self,
      hfrom, hout.position_listBegin rfl, List.drop_succ_cons, List.drop_zero]
  · simp only [MapOp.target, MapOp.mapPositions, specStep, hfrom]
    refine h.put hout fun a ha => h.older i a ?_
    rw [hlist]
    exact sublist_remove.subset ha

theorem refined_eraseRange (h : Refines w s) {i : Nat} {before range after : List (ListNode K V)}
    (hlist : (w.maps i).list = before ++ (range ++ after)) :
    RefinedCall w s (.eraseRange i (listBegin (range ++ after)) (listBegin after)) := by
  obtain ⟨m, herase, hout, hlist'⟩ := (h.represents i).eraseRange hlist
  obtain ⟨hkeys, hnodup⟩ := keys_nodup_of_list h hlist
  rw [List.map_append, List.map_append] at hkeys hnodup
  have hfirst := (h.represents i).position_listBegin hlist
  have hlast : (w.maps i).position (listBegin after) = .first (after.map ListNode.first) :=
    (h.represents i).position_listBegin (hlist.trans (List.append_assoc before range after).symm)
  have hbetween := keysBetween_first hnodup
  rw [← hkeys, ← List.map_append] at hbetween
  refine ⟨.next (listBegin after), w.put i m, ?_, ?_, ?_⟩
  · simp only [MapWorld.step, herase]
  · simp only [MapOp.target, MapOp.mapPositions, MapResult.mapPositions, specStep, MapWorld.put_maps_self,
      hlast, hout.position_listBegin hlist']
  · simp only [MapOp.target, MapOp.mapPositions, specStep, hfirst, hlast, hbetween]
    refine h.put hout fun n hn => h.older i n ?_
    rw [hlist'] at hn
    rw [hlist]
    simp only [List.mem_append] at hn ⊢
    exact hn.imp_right .inr

theorem refined_popFront (h : Refines w s) {i : Nat} {n : ListNode K V} {after : List (ListNode K V)}
    (hlist : (w.maps i).list = n :: after) : RefinedCall w s (.popFront i) := by
  obtain ⟨m, hpop, hout, hlist'⟩ := (h.represents i).popFront hlist
  obtain ⟨hkeys, -⟩ := keys_nodup_of_list h hlist
  refine ⟨.nothing, w.put i m, ?_, rfl, ?_⟩
  · simp only [MapWorld.step, hpop]
  · simp only [MapOp.mapPositions, specStep, hkeys]
    refine h.put hout fun a ha => h.older i a ?_
    rw [hlist]
    exact List.mem_cons_of_mem n (hlist' ▸ ha)

theorem refined_clear (h : Refines w s) (i : Nat) : RefinedCall w s (.clear i) :=
  ⟨.nothing, _, rfl, rfl,
    h.put (Represents.of_empty (LawfulFlatHashMap.find_clear _)) fun _ hn => nomatch hn⟩

theorem refined_swap (h : Refines w s) (i j : Nat) : RefinedCall w s (.swap i j) :=
  ⟨.nothing, _, rfl, rfl,
    (h.put (h.represents j) fun n hn => h.older j n hn).put (h.represents i) fun n hn => h.older i n hn⟩

theorem step_refines (h : Refines w s) {op : MapOp K V ListIterator} (hvalid : w.ValidCall op) :
    RefinedCall w s op := by
  cases op with
  | insert i pair => exact refined_insertInternal h i pair
  | insertMove i pair => exact refined_insertInternal h i pair
  | emplace i first second => exact refined_emplace h i first second
  | subscript i key => exact refined_subscript h i key
  | eraseKey i key => exact refined_eraseKey h i key
  | erase i position =>
    obtain ⟨n, hn, rfl⟩ := hvalid
    exact refined_erase h hn
  | eraseRange i first last =>
    obtain ⟨a, -, b, -, hab, rfl, rfl⟩ := hvalid
    obtain ⟨hlist, hdrop⟩ := split_range (w.maps i).list hab
    rw [hdrop]
    exact refined_eraseRange h hlist
  | popFront i =>
    cases hlist : (w.maps i).list with
    | nil =>
      rw [MapWorld.ValidCall, hlist] at hvalid
      cases hvalid
    | cons n after => exact refined_popFront h hlist
  | clear i => exact refined_clear h i
  | swap i j => exact refined_swap h i j

end

/-! ## Runs -/

section
variable [FlatHashMap M K ListIterator]

omit [DecidableEq K] in
/-- The world after a call that succeeds. -/
def MapWorld.next (w : MapWorld M K V) (op : MapOp K V ListIterator) : Option (MapWorld M K V) :=
  match w.step op with
  | .ok (_, w') => some w'
  | .error _ => none

omit [DecidableEq K] in
/-- The call and its result, the iterators read as positions of the maps. -/
def mapNotes (w : MapWorld M K V) (op : MapOp K V ListIterator) :
    List (MapOp K V (MapPosition K) × MapResult V (MapPosition K)) :=
  match w.step op with
  | .ok (r, w') =>
    [(op.mapPositions (w.maps op.target).position, r.mapPositions (w'.maps op.target).position)]
  | .error _ => []

/-- What is read from the map is what `o` has. -/
structure Reads (m : LinkedHashMap M K V) (o : Map K V) : Prop where
  contents : m.list.map ListNode.entry = o.entries
  begin : m.position m.begin = .first o.keys
  find : ∀ key, m.position (m.find key) = if key ∈ o then .atKey key else .pastEnd
  contains : ∀ key, m.contains key = decide (key ∈ o)
  size : m.size = o.keys.length
  empty : m.empty = o.keys.isEmpty

end

variable [LawfulFlatHashMap M K ListIterator]

omit [Inhabited V] in
theorem Represents.reads {m : LinkedHashMap M K V} {o : Map K V} (h : Represents m o) : Reads m o where
  contents := h.contents
  begin := by
    rw [← h.keys_eq]
    exact h.position_listBegin (List.nil_append _).symm
  find := h.find
  contains := h.contains
  size := h.size
  empty := h.empty

theorem specRun_concat {op : MapOp K V (MapPosition K)} :
    ∀ {ops : List (MapOp K V (MapPosition K))} {s : Nat → Map K V}, specRun s (ops ++ [op]) =
      ((specRun s ops).1 ++ [(specStep (specRun s ops).2 op).1], (specStep (specRun s ops).2 op).2) := by
  intro ops
  induction ops with
  | nil => intro s; rfl
  | cons first ops ih =>
    intro s
    rw [List.cons_append, specRun, ih]
    rfl

/-- The insertion-ordered maps have made the calls of the run, with the same results. -/
def RefinedRun (p : MapWorld M K V × List (MapOp K V (MapPosition K) × MapResult V (MapPosition K))) : Prop :=
  (specRun (fun _ => ∅) (p.2.map Prod.fst)).1 = p.2.map Prod.snd ∧
    Refines p.1 (specRun (fun _ => ∅) (p.2.map Prod.fst)).2

theorem refinedRun_step {p q : MapWorld M K V × List (MapOp K V (MapPosition K) × MapResult V (MapPosition K))}
    {op : MapOp K V ListIterator} (hvalid : p.1.ValidCall op)
    (hstep : observe MapWorld.next mapNotes p op = some q) (h : RefinedRun p) : RefinedRun q := by
  obtain ⟨hnext, hhist⟩ := observe_eq_some.mp hstep
  obtain ⟨hresults, href⟩ := h
  obtain ⟨r, w', hcall, hresult, href'⟩ := step_refines href hvalid
  simp only [MapWorld.next, hcall, Option.some.injEq] at hnext
  simp only [mapNotes, hcall] at hhist
  unfold RefinedRun
  rw [← hnext, hhist, List.map_append, List.map_append, List.map_singleton, List.map_singleton,
    specRun_concat]
  exact ⟨by rw [hresults, hresult], href'⟩

/-- **`LinkedHashMap` is an insertion-ordered map.** In every run of valid calls from empty maps, every
    valid call succeeds, the results have been those of the insertion-ordered maps, `map_` and `list_`
    are in bijection, and each map reads as the insertion-ordered one. -/
theorem linked_hash_map_refines
    {p : MapWorld M K V × List (MapOp K V (MapPosition K) × MapResult V (MapPosition K))}
    (hrun : Reaches (observe MapWorld.next mapNotes) (fun p op => p.1.ValidCall op) (MapWorld.init, []) p) :
    (∀ op, p.1.ValidCall op → ∃ w, p.1.next op = some w) ∧
      (specRun (fun _ => ∅) (p.2.map Prod.fst)).1 = p.2.map Prod.snd ∧
      ∀ i, WellFormed (p.1.maps i) ∧ Reads (p.1.maps i) ((specRun (fun _ => ∅) (p.2.map Prod.fst)).2 i) := by
  have hrefined : RefinedRun p :=
    hrun.invariant (fun _ _ _ hvalid hstep h => refinedRun_step hvalid hstep h) ⟨rfl, Refines.of_init⟩
  obtain ⟨hresults, href⟩ := hrefined
  refine ⟨fun op hvalid => ?_, hresults, fun i => ⟨(href.represents i).wf, (href.represents i).reads⟩⟩
  obtain ⟨r, w, hcall, -⟩ := step_refines href hvalid
  exact ⟨w, by simp only [MapWorld.next, hcall]⟩

/-- A key is inserted again, by each of three calls, and once more after it was erased; the two maps are
    swapped, and a range, an iterator, the front and a key of the second one are erased. -/
def twoMapsRun : List (MapOp Nat Nat ListIterator) :=
  [.insert 0 (1, 10), .emplace 0 2 20, .insertMove 0 (3, 30), .insert 0 (2, 99), .emplace 0 2 99,
    .subscript 0 2, .eraseKey 0 2, .subscript 0 2, .insert 0 (4, 40), .emplace 0 5 50, .swap 0 1,
    .eraseRange 1 (.node 6) (.node 8), .popFront 1, .insert 1 (6, 60), .erase 1 (.node 8), .eraseKey 1 6,
    .clear 0]

theorem linked_hash_map_refines_twoMaps :
    ∃ p : NatWorld × List (MapOp Nat Nat (MapPosition Nat) × MapResult Nat (MapPosition Nat)),
      Reaches (observe MapWorld.next mapNotes) (fun p op => p.1.ValidCall op) (MapWorld.init, []) p ∧
      p.2.map Prod.snd = [.inserted (.atKey 1) true, .inserted (.atKey 2) true, .inserted (.atKey 3) true,
        .inserted (.atKey 2) false, .inserted (.atKey 2) false, .element (.atKey 2) 20, .erased 1,
        .element (.atKey 2) 0, .inserted (.atKey 4) true, .inserted (.atKey 5) true, .nothing,
        .next (.atKey 5), .nothing, .inserted (.atKey 6) true, .next (.atKey 6), .erased 1, .nothing] ∧
      (p.1.maps 1).list.map ListNode.first = [3] ∧ WellFormed (p.1.maps 1) := by
  have hrun : (runWhile (observe MapWorld.next mapNotes) (fun p op => p.1.ValidCall op)
      ((MapWorld.init : NatWorld), []) twoMapsRun).isSome = true := by decide
  have hreach := reaches_get hrun
  exact ⟨_, hreach, rfl, rfl, ((linked_hash_map_refines hreach).2.2 1).1⟩

end IoBase
