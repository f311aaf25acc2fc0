import IoBase.MapRefinement

/- Iterators of a `LinkedHashMap` stay valid.

   An iterator is a node of `list_`. A call either adds nodes at the end of the list
   or takes nodes out of it (`spared_step`), so a node that no call erases keeps its
   place: what was before it and is still there is before it, in the same order, and
   likewise for what was after it, with the new nodes last (`KeepsPlace`).

   * `iterator_stable`: in every run of valid calls that do not erase an element, its
     iterator denotes it, is what `find` returns, and can be erased. -/
namespace IoBase
open OrderedMap Transition

variable {M K V : Type} [DecidableEq K] [Inhabited V]

/-- The node `n` is not one of those from `first` up to `last`. -/
def NotInRange (n : ListNode K V) (list : List (ListNode K V)) (first last : ListIterator) : Prop :=
  ∀ i ∈ List.range (list.length + 1), ∀ j ∈ List.range (list.length + 1),
    i ≤ j → first = listBegin (list.drop i) → last = listBegin (list.drop j) →
      n.id ∉ ((list.drop i).take (j - i)).map ListNode.id

omit [DecidableEq K] [Inhabited V] in
instance (n : ListNode K V) (list : List (ListNode K V)) (first last : ListIterator) :
    Decidable (NotInRange n list first last) :=
  inferInstanceAs (Decidable (∀ i ∈ List.range (list.length + 1), ∀ j ∈ List.range (list.length + 1),
    i ≤ j → first = listBegin (list.drop i) → last = listBegin (list.drop j) →
      n.id ∉ ((list.drop i).take (j - i)).map ListNode.id))

/-- The call does not erase the node `n` of the map `i`, nor clears or swaps that map. -/
def MapWorld.Spares (i : Nat) (n : ListNode K V) (w : MapWorld M K V) : MapOp K V ListIterator → Prop
  | .eraseKey j key => j = i → key ≠ n.first
  | .erase j position => j = i → position ≠ .node n.id
  | .eraseRange j first last => j = i → NotInRange n (w.maps i).list first last
  | .popFront j => j = i → (w.maps i).begin ≠ .node n.id
  | .clear j => j ≠ i
  | .swap j k => j ≠ i ∧ k ≠ i
  | _ => True

instance (i : Nat) (n : ListNode K V) (w : MapWorld M K V) :
    (op : MapOp K V ListIterator) → Decidable (w.Spares i n op)
  | .eraseKey j key => inferInstanceAs (Decidable (j = i → key ≠ n.first))
  | .erase j position => inferInstanceAs (Decidable (j = i → position ≠ .node n.id))
  | .eraseRange j first last => inferInstanceAs (Decidable (j = i → NotInRange n (w.maps i).list first last))
  | .popFront j => inferInstanceAs (Decidable (j = i → (w.maps i).begin ≠ .node n.id))
  | .clear j => inferInstanceAs (Decidable (j ≠ i))
  | .swap j k => inferInstanceAs (Decidable (j ≠ i ∧ k ≠ i))
  | .insert .. | .insertMove .. | .emplace .. | .subscript .. => .isTrue trivial

/-! ## One call -/

/-- Nodes with the address are added at the end, or nodes other than `n` are taken out. -/
def Spared (n : ListNode K V) (address : Nat) (list list' : List (ListNode K V)) : Prop :=
  (∃ new, list' = list ++ new ∧ ∀ a ∈ new, a.id = address) ∨ list'.Sublist list ∧ n ∈ list'

section
omit [Inhabited V]
variable [LawfulFlatHashMap M K ListIterator] {m m' : LinkedHashMap M K V} {n : ListNode K V} {address : Nat}

omit [DecidableEq K] [LawfulFlatHashMap M K ListIterator] in
theorem Spared.same (hn : n ∈ m.list) : Spared n address m.list m.list :=
  .inr ⟨List.Sublist.refl _, hn⟩

theorem spared_insertInternal (pair : K × V) :
    Spared n address m.list (m.insertInternal address pair).2.list := by
  unfold LinkedHashMap.insertInternal
  split
  · exact .inl ⟨[], (List.append_nil _).symm, fun _ ha => nomatch ha⟩
  · exact .inl ⟨_, rfl, fun a ha => by rw [List.mem_singleton.mp ha]⟩

theorem spared_emplace (first : K) (second : V) :
    Spared n address m.list (m.emplace address first second).2.list := by
  unfold LinkedHashMap.emplace
  split
  · exact .inl ⟨[], (List.append_nil _).symm, fun _ ha => nomatch ha⟩
  · exact .inl ⟨_, rfl, fun a ha => by rw [List.mem_singleton.mp ha]⟩

omit [DecidableEq K] [LawfulFlatHashMap M K ListIterator] in
/-- The nodes of a range, without `n`, are taken out. -/
theorem spared_remove {before range after : List (ListNode K V)} (hlist : m.list = before ++ (range ++ after))
    (hlist' : m'.list = before ++ after) (hn : n ∈ m.list) (hnot : n ∉ range) :
    Spared n address m.list m'.list := by
  refine .inr ⟨?_, ?_⟩
  · rw [hlist, hlist']
    exact (List.Sublist.refl before).append (List.sublist_append_right range after)
  · rw [hlist, List.mem_append, List.mem_append] at hn
    rw [hlist', List.mem_append]
    exact hn.imp_right fun hn => hn.resolve_left hnot

/-- A node with another key stays where the key is erased. -/
theorem mem_of_eraseKey {o : Map K V} {key : K} (h : Represents m o) (hout : Represents m' (o.erase key))
    (hsub : m'.list.Sublist m.list) (hn : n ∈ m.list) (hkey : key ≠ n.first) : n ∈ m'.list := by
  have hmem : n.first ∈ o.erase key := AList.mem_erase.mpr ⟨Ne.symm hkey, h.mem_iff.mpr ⟨n, hn, rfl⟩⟩
  obtain ⟨n', hn', hfirst⟩ := hout.mem_iff.mp hmem
  rwa [← List.inj_on_of_nodup_map h.wf.keys (hsub.subset hn') hn hfirst]

end

variable [LawfulFlatHashMap M K ListIterator]

theorem list_of_subscript {m m' : LinkedHashMap M K V} {address : Nat} {key : K} {node : ListNode K V}
    (h : m.subscript address key = .ok (node, m')) : m' = (m.insertMove address (key, default)).2 := by
  simp only [LinkedHashMap.subscript] at h
  split at h
  · cases h
  · cases h
    rfl

/-- A call adds nodes at the end of the list, or takes nodes out that are not `n`. -/
theorem spared_step {w w' : MapWorld M K V} {s : Nat → Map K V} {i : Nat} {n : ListNode K V}
    {op : MapOp K V ListIterator} (h : Refines w s) (hvalid : w.ValidCall op) (hspares : w.Spares i n op)
    (hnext : w.next op = some w') (hn : n ∈ (w.maps i).list) :
    w.nextNode ≤ w'.nextNode ∧ Spared n w.nextNode (w.maps i).list (w'.maps i).list := by
  have hupdate : ∀ {j : Nat} {m : LinkedHashMap M K V},
      (j = i → Spared n w.nextNode (w.maps j).list m.list) →
      Spared n w.nextNode (w.maps i).list (Function.update w.maps j m i).list := by
    intro j m hchange
    by_cases he : j = i
    · subst he
      rw [Function.update_self]
      exact hchange rfl
    · rw [Function.update_of_ne (Ne.symm he)]
      exact .same hn
  cases op with
  | insert j pair | insertMove j pair =>
    cases hnext
    exact ⟨Nat.le_succ _, hupdate fun _ => spared_insertInternal pair⟩
  | emplace j first second =>
    cases hnext
    exact ⟨Nat.le_succ _, hupdate fun _ => spared_emplace first second⟩
  | subscript j key =>
    obtain ⟨x, m, hsub, -⟩ := (h.represents j).subscript (fun n hn => h.ne_nextNode hn) key
    simp only [MapWorld.next, MapWorld.step, hsub, Option.some.injEq] at hnext
    subst hnext
    rw [list_of_subscript hsub]
    exact ⟨Nat.le_succ _, hupdate fun _ => spared_insertInternal _⟩
  | eraseKey j key =>
    obtain ⟨m, herase, hout, hsub⟩ := (h.represents j).eraseKey key
    simp only [MapWorld.next, MapWorld.step, herase, Option.some.injEq] at hnext
    subst hnext
    refine ⟨Nat.le_refl _, hupdate fun he => ?_⟩
    subst he
    exact .inr ⟨hsub, mem_of_eraseKey (h.represents j) hout hsub hn (hspares rfl)⟩
  | erase j position =>
    obtain ⟨x, hx, rfl⟩ := hvalid
    obtain ⟨before, after, hlist⟩ := List.append_of_mem hx
    simp only [MapWorld.next, MapWorld.step, (h.represents j).erase hlist, Option.some.injEq] at hnext
    subst hnext
    refine ⟨Nat.le_refl _, hupdate fun he => ?_⟩
    subst he
    have hone : before ++ ([x] ++ after) = before ++ x :: after := rfl
    refine spared_remove (hlist.trans hone.symm) rfl hn fun hmem => ?_
    rw [List.mem_singleton.mp hmem] at hspares
    exact hspares rfl rfl
  | eraseRange j first last =>
    obtain ⟨a, ha, b, hb, hab, rfl, rfl⟩ := hvalid
    obtain ⟨hlist, hdrop⟩ := split_range (w.maps j).list hab
    obtain ⟨m, herase, -, hlist'⟩ := (h.represents j).eraseRange hlist
    rw [← hdrop] at herase
    simp only [MapWorld.next, MapWorld.step, herase, Option.some.injEq] at hnext
    subst hnext
    refine ⟨Nat.le_refl _, hupdate fun he => ?_⟩
    subst he
    refine spared_remove hlist hlist' hn fun hmem => ?_
    exact hspares rfl a ha b hb hab rfl rfl (List.mem_map_of_mem hmem)
  | popFront j =>
    cases hlist : (w.maps j).list with
    | nil =>
      rw [MapWorld.ValidCall, hlist] at hvalid
      cases hvalid
    | cons x after =>
      obtain ⟨m, hpop, -, hlist'⟩ := (h.represents j).popFront hlist
      simp only [MapWorld.next, MapWorld.step, hpop, Option.some.injEq] at hnext
      subst hnext
      refine ⟨Nat.le_refl _, hupdate fun he => ?_⟩
      subst he
      have hfront : ([] : List (ListNode K V)) ++ ([x] ++ after) = x :: after := rfl
      refine spared_remove (hlist.trans hfront.symm) hlist' hn fun hmem => hspares rfl ?_
      rw [LinkedHashMap.begin, hlist, List.mem_singleton.mp hmem]
      rfl
  | clear j =>
    cases hnext
    exact ⟨Nat.le_refl _, hupdate fun he => absurd he hspares⟩
  | swap j k =>
    cases hnext
    refine ⟨Nat.le_refl _, ?_⟩
    simp only [MapWorld.put, Function.update_of_ne (Ne.symm hspares.1), Function.update_of_ne (Ne.symm hspares.2)]
    exact .same hn

/-! ## Runs -/

/-- The nodes `before'` and `after'` around a node are those that are left of `before` and `after`, in their
    order, and last the nodes made from the address `address` on. -/
def KeepsPlace (before after : List (ListNode K V)) (address : Nat) (before' after' : List (ListNode K V)) :
    Prop :=
  before'.Sublist before ∧
    ∃ kept new, after' = kept ++ new ∧ kept.Sublist after ∧ ∀ a ∈ new, address ≤ a.id

section
omit [DecidableEq K] [Inhabited V] [LawfulFlatHashMap M K ListIterator]
variable {n : ListNode K V} {before after before' after' list : List (ListNode K V)} {address address' : Nat}

theorem keepsPlace_spared (h : KeepsPlace before after address before' after') (hle : address ≤ address')
    (hids : ((before' ++ n :: after').map ListNode.id).Nodup)
    (hspared : Spared n address' (before' ++ n :: after') list) :
    ∃ before'' after'', list = before'' ++ n :: after'' ∧
      KeepsPlace before after address before'' after'' := by
  obtain ⟨hbefore, kept, new, rfl, hkept, hnew⟩ := h
  rcases hspared with ⟨more, rfl, hmore⟩ | ⟨hsub, hn⟩
  · refine ⟨before', kept ++ new ++ more, by simp, hbefore, kept, new ++ more, by simp, hkept, ?_⟩
    intro a ha
    rcases List.mem_append.mp ha with ha | ha
    · exact hnew a ha
    · rw [hmore a ha]
      exact hle
  · obtain ⟨-, hrest, hdisjoint⟩ := List.nodup_append.mp (List.Nodup.of_map _ hids)
    obtain ⟨hnot, -⟩ := List.nodup_cons.mp hrest
    obtain ⟨before'', rest, rfl, hbefore'', hrest'⟩ := List.sublist_append_iff.mp hsub
    have hnotBefore : n ∉ before'' := fun hmem =>
      hdisjoint n (hbefore''.subset hmem) n List.mem_cons_self rfl
    have hinRest : n ∈ rest := (List.mem_append.mp hn).resolve_left hnotBefore
    rcases List.sublist_cons_iff.mp hrest' with hrest'' | ⟨after'', rfl, hafter''⟩
    · exact absurd (hrest''.subset hinRest) hnot
    · obtain ⟨kept', new', rfl, hkept', hnew'⟩ := List.sublist_append_iff.mp hafter''
      exact ⟨before'', kept' ++ new', rfl, hbefore''.trans hbefore, kept', new', rfl, hkept'.trans hkept,
        fun a ha => hnew a (hnew'.subset ha)⟩

end

/-- Each map satisfies the representation invariant, and the next node has a new address. -/
structure MapWorld.Sound (w : MapWorld M K V) : Prop where
  wf : ∀ i, WellFormed (w.maps i)
  older : ∀ i, ∀ n ∈ (w.maps i).list, n.id < w.nextNode

omit [Inhabited V] in
/-- The insertion-ordered maps with the elements of the lists. -/
theorem MapWorld.Sound.refines {w : MapWorld M K V} (h : w.Sound) : ∃ s, Refines w s := by
  choose s hs using fun i => (h.wf i).represents
  exact ⟨s, hs, h.older⟩

/-- The state of every run of valid calls. -/
theorem sound_of_reaches {w : MapWorld M K V} (h : Reaches MapWorld.next MapWorld.ValidCall MapWorld.init w) :
    w.Sound := by
  obtain ⟨s, href⟩ : ∃ s, Refines w s := by
    refine h.invariant (P := fun w => ∃ s, Refines w s) (fun w op w' hvalid hnext hx => ?_)
      ⟨_, Refines.of_init⟩
    obtain ⟨s, href⟩ := hx
    obtain ⟨r, w'', hcall, -, href'⟩ := step_refines href hvalid
    simp only [MapWorld.next, hcall, Option.some.injEq] at hnext
    exact ⟨_, hnext ▸ href'⟩
  exact ⟨fun i => (href.represents i).wf, href.older⟩

/-- **Iterators are stable.** In every run of valid calls from a sound state in which no call erases the
    element of a node, nor clears or swaps its map, the iterator denotes the element, `find` returns it,
    what is before and after it keeps its order, and `erase` takes it out and returns what follows. -/
theorem iterator_stable {w₀ w : MapWorld M K V} (h₀ : w₀.Sound) {i : Nat} {n : ListNode K V}
    {before after : List (ListNode K V)} (hlist : (w₀.maps i).list = before ++ n :: after)
    (hrun : Reaches MapWorld.next (fun w op => w.ValidCall op ∧ w.Spares i n op) w₀ w) :
    listAt (w.maps i).list (.node n.id) = .ok n ∧ (w.maps i).find n.first = .node n.id ∧
    ∃ before' after', (w.maps i).list = before' ++ n :: after' ∧
      KeepsPlace before after w₀.nextNode before' after' ∧
      ∃ m, (w.maps i).erase (.node n.id) = .ok (listBegin after', m) ∧ m.list = before' ++ after' := by
  obtain ⟨s₀, href₀⟩ := h₀.refines
  have hkept : (∃ s, Refines w s) ∧ w₀.nextNode ≤ w.nextNode ∧
      ∃ before' after', (w.maps i).list = before' ++ n :: after' ∧
        KeepsPlace before after w₀.nextNode before' after' := by
    refine hrun.invariant (P := fun w => (∃ s, Refines w s) ∧ w₀.nextNode ≤ w.nextNode ∧
      ∃ before' after', (w.maps i).list = before' ++ n :: after' ∧
        KeepsPlace before after w₀.nextNode before' after') (fun w op w' hok hnext hp => ?_) ?_
    · obtain ⟨⟨s, href⟩, hle, before', after', hlist', hplace⟩ := hp
      obtain ⟨r, w'', hcall, -, href'⟩ := step_refines href hok.1
      obtain ⟨hle', hspared⟩ := spared_step href hok.1 hok.2 hnext (by rw [hlist']; simp)
      have hids := (href.represents i).wf.ids
      rw [hlist'] at hspared hids
      simp only [MapWorld.next, hcall, Option.some.injEq] at hnext
      subst hnext
      exact ⟨⟨_, href'⟩, Nat.le_trans hle hle', keepsPlace_spared hplace hle hids hspared⟩
    · exact ⟨⟨s₀, href₀⟩, Nat.le_refl _, before, after, hlist, List.Sublist.refl _, after, [],
        (List.append_nil _).symm, List.Sublist.refl _, fun _ ha => absurd ha List.not_mem_nil⟩
  obtain ⟨⟨s, href⟩, -, before', after', hlist', hplace⟩ := hkept
  have hn : n ∈ (w.maps i).list := by rw [hlist']; simp
  have hrep := href.represents i
  refine ⟨listAt_eq hrep.wf.ids hn, ?_, before', after', hlist', hplace, _, hrep.erase hlist', rfl⟩
  rw [LinkedHashMap.find, hrep.find_of_mem hn]

/-- The element of the key 2 while the front, a range and a later element are erased around it. -/
theorem iterator_stable_erasures :
    ∃ (w : NatWorld) (before' after' : List (ListNode Nat Nat)) (m : NatMap),
      (w.maps 0).find 2 = .node 1 ∧ (w.maps 0).list = before' ++ ⟨1, 2, 20⟩ :: after' ∧
      (w.maps 0).erase (.node 1) = .ok (listBegin after', m) := by
  have hrun₀ : (runWhile MapWorld.next MapWorld.ValidCall (MapWorld.init : NatWorld)
      [.insert 0 (1, 10), .emplace 0 2 20, .insertMove 0 (3, 30), .insert 0 (4, 40)]).isSome = true := by decide
  have hrun : (runWhile MapWorld.next (fun w op => w.ValidCall op ∧ w.Spares 0 ⟨1, 2, 20⟩ op)
      ((runWhile MapWorld.next MapWorld.ValidCall (MapWorld.init : NatWorld) _).get hrun₀)
      [.popFront 0, .insert 0 (5, 50), .subscript 0 1, .eraseRange 0 (.node 2) (.node 4),
        .erase 0 (.node 4), .eraseKey 0 7]).isSome = true := by decide +revert
  have hlist : (((runWhile MapWorld.next MapWorld.ValidCall (MapWorld.init : NatWorld) _).get
      hrun₀).maps 0).list = [⟨0, 1, 10⟩] ++ ⟨1, 2, 20⟩ :: [⟨2, 3, 30⟩, ⟨3, 4, 40⟩] := rfl
  obtain ⟨-, hfind, before', after', hlist', -, m, herase, -⟩ :=
    iterator_stable (sound_of_reaches (reaches_get hrun₀)) hlist (reaches_get hrun)
  exact ⟨_, before', after', m, hfind, hlist', herase⟩

end IoBase
