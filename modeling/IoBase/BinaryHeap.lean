import Mathlib.Data.List.Basic

/- Binary heaps in a list, over any element type and comparison.

   `push` and `pop` are `std::push_heap` and `std::pop_heap` on a vector that
   starts with the heap: `pred` is the heap's comparison, and no element has a
   parent `p` with `pred p child`. `push` appends and moves the hole up; `pop`
   moves the hole left by the top down to a leaf and puts the last element there,
   then up. The first argument of the loops bounds their iterations.

   * `push_perm`, `cons_pop_perm`: `push` adds one element, `pop` takes out the top.
   * `ordered_push`, `ordered_pop`: both keep the order of a heap, whose top no
     element comes before (`top?_before`).
   * `top?_push`, `top?_push_before`: what comes before the top replaces it, and
     nothing else does. Nothing is said of the order in which elements that are
     level come out. -/
namespace BinaryHeap

variable {α : Type*}

/-- Move the hole up while its parent comes after `v`, and put `v` there. -/
def siftUp (pred : α → α → Bool) : Nat → List α → Nat → α → List α
  | 0, l, hole, v => l.set hole v
  | n + 1, l, hole, v =>
    if hole = 0 then l.set hole v
    else
      match l[(hole - 1) / 2]? with
      | none => l.set hole v
      | some p =>
        if pred p v then siftUp pred n (l.set hole p) ((hole - 1) / 2) v else l.set hole v

/-- Move the hole down to a leaf, always to the child that comes first: the list and the hole. -/
def siftDown (pred : α → α → Bool) : Nat → List α → Nat → List α × Nat
  | 0, l, hole => (l, hole)
  | n + 1, l, hole =>
    match l[2 * hole + 1]?, l[2 * hole + 2]? with
    | some a, some b =>
      if pred b a then siftDown pred n (l.set hole a) (2 * hole + 1)
      else siftDown pred n (l.set hole b) (2 * hole + 2)
    | some a, none => (l.set hole a, 2 * hole + 1)
    | none, _ => (l, hole)

def push (pred : α → α → Bool) (l : List α) (v : α) : List α :=
  siftUp pred l.length (l ++ [v]) l.length v

def top? (l : List α) : Option α := l.head?

def pop (pred : α → α → Bool) (l : List α) : List α :=
  match l.dropLast, l.getLast? with
  | [], _ => []
  | _, none => []
  | rest, some v =>
    let (l, hole) := siftDown pred rest.length rest 0
    siftUp pred hole l hole v

theorem length_siftUp (pred : α → α → Bool) :
    ∀ (n : Nat) (l : List α) (hole : Nat) (v : α), (siftUp pred n l hole v).length = l.length := by
  intro n
  induction n with
  | zero => intro l hole v; simp [siftUp]
  | succ n ih =>
    intro l hole v
    simp only [siftUp]
    split
    · simp
    · split
      · simp
      · split
        · rw [ih]; simp
        · simp

theorem push_ne_nil (pred : α → α → Bool) (l : List α) (v : α) : push pred l v ≠ [] := by
  intro h
  have hlen := congrArg List.length h
  simp [push, length_siftUp] at hlen

/-! ## The elements -/

/-- Moving an element into the hole and the value into the element's place. -/
theorem set_set_perm {l : List α} {hole j : Nat} {p v : α} (hh : hole < l.length) (hj : l[j]? = some p)
    (hne : hole ≠ j) : ((l.set hole p).set j v).Perm (l.set hole v) := by
  obtain ⟨hlt, rfl⟩ := List.getElem?_eq_some_iff.mp hj
  have hswap := @List.set_set_perm _ (l.set hole v) hole j (by simpa using hh) (by simpa using hlt)
  simpa [List.getElem_set_ne hne] using hswap

theorem siftUp_perm (pred : α → α → Bool) (n : Nat) :
    ∀ (l : List α) (hole : Nat) (v : α), hole < l.length →
      (siftUp pred n l hole v).Perm (l.set hole v) := by
  induction n with
  | zero => intro l hole v _; exact .refl _
  | succ n ih =>
    intro l hole v hh
    simp only [siftUp]
    split
    · exact .refl _
    · rename_i hne
      split
      · exact .refl _
      · rename_i p hp
        split
        · have hlt : (hole - 1) / 2 < (l.set hole p).length := by
            rw [List.length_set]
            omega
          calc (siftUp pred n (l.set hole p) ((hole - 1) / 2) v).Perm
                  ((l.set hole p).set ((hole - 1) / 2) v) := ih _ _ v hlt
            List.Perm _ (l.set hole v) := set_set_perm hh hp (by omega)
        · exact .refl _

theorem siftDown_perm (pred : α → α → Bool) (n : Nat) :
    ∀ (l : List α) (hole : Nat) (v : α), hole < l.length →
      (siftDown pred n l hole).2 < l.length ∧ (siftDown pred n l hole).1.length = l.length ∧
      ((siftDown pred n l hole).1.set (siftDown pred n l hole).2 v).Perm (l.set hole v) := by
  induction n with
  | zero => intro l hole v hh; exact ⟨hh, rfl, .refl _⟩
  | succ n ih =>
    intro l hole v hh
    -- the hole moves to the child at `j`
    have hmove : ∀ {j : Nat} {a : α}, hole < j → l[j]? = some a →
        (siftDown pred n (l.set hole a) j).2 < l.length ∧
        (siftDown pred n (l.set hole a) j).1.length = l.length ∧
        ((siftDown pred n (l.set hole a) j).1.set (siftDown pred n (l.set hole a) j).2 v).Perm
          (l.set hole v) := by
      intro j a hlt ha
      obtain ⟨hj, -⟩ := List.getElem?_eq_some_iff.mp ha
      obtain ⟨h₁, h₂, h₃⟩ := ih (l.set hole a) j v (by simpa using hj)
      rw [List.length_set] at h₁ h₂
      exact ⟨h₁, h₂, h₃.trans (set_set_perm hh ha (by omega))⟩
    simp only [siftDown]
    split
    · rename_i a b ha hb
      split
      · exact hmove (by omega) ha
      · exact hmove (by omega) hb
    · rename_i a ha hb
      obtain ⟨hj, -⟩ := List.getElem?_eq_some_iff.mp ha
      exact ⟨by simpa using hj, by simp, set_set_perm hh ha (by omega)⟩
    · exact ⟨hh, rfl, .refl _⟩

theorem push_perm (pred : α → α → Bool) (l : List α) (v : α) : (push pred l v).Perm (v :: l) := by
  have hsift := siftUp_perm pred l.length (l ++ [v]) l.length v (by simp)
  calc (push pred l v).Perm ((l ++ [v]).set l.length v) := hsift
    _ = l ++ [v] := by simp
    List.Perm _ (v :: l) := List.perm_append_singleton v l

/-- The last element fills the hole left by the top, from the leaf the hole has moved to. -/
theorem pop_concat (pred : α → α → Bool) (a v : α) (rest : List α) :
    pop pred (a :: (rest ++ [v])) =
      siftUp pred (siftDown pred (rest.length + 1) (a :: rest) 0).2
        (siftDown pred (rest.length + 1) (a :: rest) 0).1
        (siftDown pred (rest.length + 1) (a :: rest) 0).2 v := by
  have hlast : (a :: (rest ++ [v])).dropLast = a :: rest := by
    rw [← List.cons_append, List.dropLast_concat]
  have hget : (a :: (rest ++ [v])).getLast? = some v := by
    rw [← List.cons_append, List.getLast?_concat]
  unfold pop
  rw [hlast, hget]
  rfl

/-- `pop` takes out the top, and nothing else. -/
theorem cons_pop_perm (pred : α → α → Bool) {l : List α} {a : α} (h : top? l = some a) :
    (a :: pop pred l).Perm l := by
  obtain ⟨xs, rfl⟩ : ∃ xs, l = a :: xs := List.head?_eq_some_iff.mp h
  rcases List.eq_nil_or_concat' xs with rfl | ⟨rest, v, rfl⟩
  · exact .refl _
  · obtain ⟨h₁, h₂, h₃⟩ := siftDown_perm pred (rest.length + 1) (a :: rest) 0 v (by simp)
    rw [pop_concat]
    have hup := siftUp_perm pred (siftDown pred (rest.length + 1) (a :: rest) 0).2 _ _ v (h₂ ▸ h₁)
    -- from the leaf the value goes up; the hole has carried nothing away
    calc (a :: siftUp pred _ _ _ v).Perm (a :: (siftDown pred (rest.length + 1) (a :: rest) 0).1.set _ v) :=
          hup.cons a
      List.Perm _ (a :: (a :: rest).set 0 v) := h₃.cons a
      List.Perm _ (a :: (rest ++ [v])) := (List.perm_append_singleton v rest).symm.cons a

/-- An element that does not come before the top does not replace it. -/
theorem top?_push {pred : α → α → Bool} {l : List α} {a v : α} (h : top? l = some a)
    (hv : pred a v = false) : top? (push pred l v) = some a := by
  have hsift : ∀ (n : Nat) (l : List α) (hole : Nat), hole ≠ 0 → l[0]? = some a →
      (siftUp pred n l hole v)[0]? = some a := by
    intro n
    induction n with
    | zero => intro l hole hne hl; simpa [siftUp, List.getElem?_set_ne hne] using hl
    | succ n ih =>
      intro l hole hne hl
      simp only [siftUp, if_neg hne]
      split
      · simpa [List.getElem?_set_ne hne] using hl
      · rename_i p hp
        split
        · rename_i hpv
          refine ih _ _ (fun h0 => ?_) (by simpa [List.getElem?_set_ne hne] using hl)
          -- the parent is the top
          rw [h0, hl, Option.some.injEq] at hp
          rw [hp, hpv] at hv
          cases hv
        · simpa [List.getElem?_set_ne hne] using hl
  obtain ⟨xs, rfl⟩ : ∃ xs, l = a :: xs := List.head?_eq_some_iff.mp h
  rw [top?, List.head?_eq_getElem?]
  exact hsift _ _ _ (by simp) (by simp)

/-! ## The order -/

/-- What a heap needs of its comparison: `pred` is a strict order, and so is "not after". -/
structure WeakOrder (pred : α → α → Bool) : Prop where
  asymm : ∀ {a b}, pred a b = true → pred b a = false
  trans : ∀ {a b c}, pred a b = false → pred b c = false → pred a c = false

/-- The element at `i` does not come after the one at `j`. -/
def Before (pred : α → α → Bool) (l : List α) (i j : Nat) : Prop :=
  ∀ a b, l[i]? = some a → l[j]? = some b → pred a b = false

/-- No element comes before its parent. -/
def Ordered (pred : α → α → Bool) (l : List α) : Prop :=
  ∀ i, 0 < i → Before pred l ((i - 1) / 2) i

/-- The order of a heap with a hole: the pairs off the hole are in order, and so are the hole's parent
    and children. -/
structure Holed (pred : α → α → Bool) (l : List α) (hole : Nat) : Prop where
  off : ∀ i, 0 < i → i ≠ hole → (i - 1) / 2 ≠ hole → Before pred l ((i - 1) / 2) i
  across : ∀ i, 0 < i → 0 < hole → (i - 1) / 2 = hole → Before pred l ((hole - 1) / 2) i

variable {pred : α → α → Bool}

theorem Before.set {l : List α} {i j k : Nat} {v : α} (h : Before pred l i j)
    (hi : i ≠ k) (hj : j ≠ k) : Before pred (l.set k v) i j := by
  intro a b ha hb
  rw [List.getElem?_set_ne hi.symm] at ha
  rw [List.getElem?_set_ne hj.symm] at hb
  exact h a b ha hb

theorem eq_of_getElem?_set {l : List α} {k : Nat} {v a : α} (h : (l.set k v)[k]? = some a) : a = v := by
  obtain ⟨hlt, hget⟩ := List.getElem?_eq_some_iff.mp h
  rw [← hget, List.getElem_set_self]

theorem Ordered.holed (hw : WeakOrder pred) {l : List α} (h : Ordered pred l) {hole : Nat}
    (hlt : hole < l.length) : Holed pred l hole where
  off := fun i hi _ _ => h i hi
  across := by
    intro i hi hh hp a b ha hb
    have hc : l[hole]? = some l[hole] := List.getElem?_eq_getElem hlt
    exact hw.trans (h hole hh a _ ha hc) (h i hi _ b (hp ▸ hc) hb)

/-- The value that fills the hole does not come before the parent, nor after the children. -/
theorem Holed.fill {l : List α} {hole : Nat} {v : α} (h : Holed pred l hole)
    (hup : ∀ a, 0 < hole → l[(hole - 1) / 2]? = some a → pred a v = false)
    (hdown : ∀ i b, 0 < i → (i - 1) / 2 = hole → l[i]? = some b → pred v b = false) :
    Ordered pred (l.set hole v) := by
  intro i hi a b ha hb
  by_cases hih : i = hole
  · subst hih
    rw [List.getElem?_set_ne (by omega)] at ha
    rw [eq_of_getElem?_set hb]
    exact hup a hi ha
  · rw [List.getElem?_set_ne (Ne.symm hih)] at hb
    by_cases hp : (i - 1) / 2 = hole
    · rw [hp] at ha
      rw [eq_of_getElem?_set ha]
      exact hdown i b hi hp hb
    · rw [List.getElem?_set_ne (Ne.symm hp)] at ha
      exact h.off i hi hih hp a b ha hb

/-- The parent moves into the hole. -/
theorem Holed.up (hw : WeakOrder pred) {l : List α} {hole : Nat} {p : α}
    (h : Holed pred l hole) (hh : 0 < hole) (hp : l[(hole - 1) / 2]? = some p) :
    Holed pred (l.set hole p) ((hole - 1) / 2) where
  off := by
    intro i hi hne hne'
    by_cases hih : i = hole
    · exact absurd (by rw [hih]) hne'
    · by_cases hpar : (i - 1) / 2 = hole
      · intro a b ha hb
        rw [hpar] at ha
        rw [List.getElem?_set_ne (Ne.symm hih)] at hb
        rw [eq_of_getElem?_set ha]
        exact h.across i hi hh hpar p b hp hb
      · exact (h.off i hi hih hpar).set hpar hih
  across := by
    intro i hi hpp hpar a b ha hb
    have hne : ((hole - 1) / 2 - 1) / 2 ≠ hole := by omega
    rw [List.getElem?_set_ne hne.symm] at ha
    have hgrand : pred a p = false := h.off ((hole - 1) / 2) hpp (by omega) hne a p ha hp
    by_cases hih : i = hole
    · rw [hih] at hb
      rw [eq_of_getElem?_set hb]
      exact hgrand
    · rw [List.getElem?_set_ne (Ne.symm hih)] at hb
      exact hw.trans hgrand (h.off i hi hih (by omega) p b (hpar ▸ hp) hb)

theorem ordered_siftUp (hw : WeakOrder pred) (n : Nat) :
    ∀ (l : List α) (hole : Nat) (v : α), hole ≤ n → Holed pred l hole →
      (∀ i b, 0 < i → (i - 1) / 2 = hole → l[i]? = some b → pred v b = false) →
      Ordered pred (siftUp pred n l hole v) := by
  induction n with
  | zero =>
    intro l hole v hn hholed hdown
    exact hholed.fill (fun _ hpos => by omega) hdown
  | succ n ih =>
    intro l hole v hn hholed hdown
    simp only [siftUp]
    split
    · rename_i h0
      exact hholed.fill (fun _ hpos => by omega) hdown
    · split
      · rename_i hnone
        exact hholed.fill (fun a _ ha => by rw [hnone] at ha; cases ha) hdown
      · rename_i hne _ p hp
        have hpos : 0 < hole := Nat.pos_of_ne_zero hne
        split
        · rename_i hpv
          have hvp := hw.asymm hpv
          refine ih _ _ v (by omega) (hholed.up hw hpos hp) fun i b hi hpar hb => ?_
          by_cases hih : i = hole
          · rw [hih] at hb
            rw [eq_of_getElem?_set hb]
            exact hvp
          · rw [List.getElem?_set_ne (Ne.symm hih)] at hb
            exact hw.trans hvp (hholed.off i hi hih (by omega) p b (hpar ▸ hp) hb)
        · rename_i hpv
          refine hholed.fill (fun a _ ha => ?_) hdown
          rw [hp, Option.some.injEq] at ha
          rw [← ha]
          simpa using hpv

/-- The child that comes first moves into the hole. -/
theorem Holed.down {l : List α} {hole j : Nat} {c : α}
    (h : Holed pred l hole) (hj : 0 < j) (hpar : (j - 1) / 2 = hole) (hc : l[j]? = some c)
    (hfirst : ∀ i b, 0 < i → (i - 1) / 2 = hole → i ≠ j → l[i]? = some b → pred c b = false) :
    Holed pred (l.set hole c) j where
  off := by
    intro i hi hne hne' a b ha hb
    by_cases hih : i = hole
    · subst hih
      rw [List.getElem?_set_ne (by omega)] at ha
      rw [eq_of_getElem?_set hb]
      exact h.across j hj hi hpar a c ha hc
    · rw [List.getElem?_set_ne (Ne.symm hih)] at hb
      by_cases hp : (i - 1) / 2 = hole
      · rw [hp] at ha
        rw [eq_of_getElem?_set ha]
        exact hfirst i b hi hp hne hb
      · rw [List.getElem?_set_ne (Ne.symm hp)] at ha
        exact h.off i hi hih hp a b ha hb
  across := by
    intro i hi _ hij a b ha hb
    rw [hpar] at ha
    rw [List.getElem?_set_ne (by omega)] at hb
    rw [eq_of_getElem?_set ha]
    exact h.off i hi (by omega) (by omega) c b (hij ▸ hc) hb

theorem holed_siftDown (hw : WeakOrder pred) (n : Nat) :
    ∀ (l : List α) (hole : Nat), l.length ≤ n + hole → Holed pred l hole →
      Holed pred (siftDown pred n l hole).1 (siftDown pred n l hole).2 ∧
      (siftDown pred n l hole).1.length ≤ 2 * (siftDown pred n l hole).2 + 1 := by
  induction n with
  | zero =>
    intro l hole hn hholed
    exact ⟨hholed, by simp only [siftDown]; omega⟩
  | succ n ih =>
    intro l hole hn hholed
    -- which indices are the children
    have hchild : ∀ i, 0 < i → (i - 1) / 2 = hole → i = 2 * hole + 1 ∨ i = 2 * hole + 2 := by
      intro i hi hpar
      omega
    simp only [siftDown]
    split
    · rename_i a b ha hb
      split
      · rename_i hba
        refine ih _ _ (by simp; omega) (hholed.down (by omega) (by omega) ha fun i c hi hpar hne hc => ?_)
        rcases hchild i hi hpar with rfl | rfl
        · exact absurd rfl hne
        · rw [hb, Option.some.injEq] at hc
          rw [← hc]
          exact hw.asymm hba
      · rename_i hba
        refine ih _ _ (by simp; omega) (hholed.down (by omega) (by omega) hb fun i c hi hpar hne hc => ?_)
        rcases hchild i hi hpar with rfl | rfl
        · rw [ha, Option.some.injEq] at hc
          rw [← hc]
          simpa using hba
        · exact absurd rfl hne
    · rename_i a ha hb
      have hlen := List.getElem?_eq_none_iff.mp hb
      refine ⟨hholed.down (by omega) (by omega) ha fun i c hi hpar hne hc => ?_, by simp; omega⟩
      rcases hchild i hi hpar with rfl | rfl
      · exact absurd rfl hne
      · rw [hb] at hc
        cases hc
    · rename_i ha
      exact ⟨hholed, List.getElem?_eq_none_iff.mp ha⟩

theorem ordered_push (hw : WeakOrder pred) {l : List α} (h : Ordered pred l) (v : α) :
    Ordered pred (push pred l v) := by
  have hnone : ∀ i b, 0 < i → (i - 1) / 2 = l.length → (l ++ [v])[i]? = some b → pred v b = false := by
    intro i b hi hpar hb
    obtain ⟨hlt, -⟩ := List.getElem?_eq_some_iff.mp hb
    simp at hlt
    omega
  refine ordered_siftUp hw _ _ _ _ (Nat.le_refl _) ⟨?_, ?_⟩ hnone
  · intro i hi hne _ a b ha hb
    obtain ⟨hlt, -⟩ := List.getElem?_eq_some_iff.mp hb
    simp only [List.length_append, List.length_singleton] at hlt
    rw [List.getElem?_append_left (by omega)] at ha hb
    exact h i hi a b ha hb
  · intro i hi _ hpar a b ha hb
    obtain ⟨hlt, -⟩ := List.getElem?_eq_some_iff.mp hb
    simp at hlt
    omega

theorem ordered_pop (hw : WeakOrder pred) {l : List α} (h : Ordered pred l) :
    Ordered pred (pop pred l) := by
  rcases l with _ | ⟨a, xs⟩
  · exact h
  · rcases List.eq_nil_or_concat' xs with rfl | ⟨rest, v, rfl⟩
    · intro i hi a b ha hb
      simp [pop] at hb
    · rw [pop_concat]
      have hinit : Ordered pred (a :: rest) := by
        intro i hi p c hp hc
        have hget : ∀ {i : Nat} {x : α}, (a :: rest)[i]? = some x → (a :: (rest ++ [v]))[i]? = some x := by
          intro i x hx
          obtain ⟨hlt, -⟩ := List.getElem?_eq_some_iff.mp hx
          rw [← List.cons_append, List.getElem?_append_left hlt, hx]
        exact h i hi p c (hget hp) (hget hc)
      obtain ⟨hholed, hleaf⟩ := holed_siftDown hw (rest.length + 1) (a :: rest) 0 (by simp)
        (hinit.holed hw (by simp))
      refine ordered_siftUp hw _ _ _ _ (Nat.le_refl _) hholed fun i b hi hpar hb => ?_
      obtain ⟨hlt, -⟩ := List.getElem?_eq_some_iff.mp hb
      omega

/-- No element comes before the top. -/
theorem top?_before (hw : WeakOrder pred) {l : List α} (h : Ordered pred l) {a b : α}
    (ha : top? l = some a) (hb : b ∈ l) : pred a b = false := by
  rw [top?, List.head?_eq_getElem?] at ha
  obtain ⟨i, hi⟩ := List.mem_iff_getElem?.mp hb
  -- up from `i` along the parents
  induction i using Nat.strongRecOn generalizing b with
  | _ i ih =>
    rcases Nat.eq_zero_or_pos i with rfl | hpos
    · rw [ha, Option.some.injEq] at hi
      rw [hi]
      cases hbb : pred b b with
      | false => rfl
      | true => rw [← hbb]; exact hw.asymm hbb
    · obtain ⟨hlt, -⟩ := List.getElem?_eq_some_iff.mp hi
      have hp : l[(i - 1) / 2]? = some l[(i - 1) / 2] := List.getElem?_eq_getElem (by omega)
      exact hw.trans (ih _ (by omega) (List.getElem_mem _) hp) (h i hpos _ _ hp hi)

/-- An element that comes before the top replaces it. -/
theorem top?_push_before (hw : WeakOrder pred) {l : List α} (h : Ordered pred l) {v : α}
    (hv : (top? l).all (pred · v) = true) : top? (push pred l v) = some v := by
  obtain ⟨x, xs, hcons⟩ := List.exists_cons_of_ne_nil (push_ne_nil pred l v)
  have htop : top? (push pred l v) = some x := by rw [hcons]; rfl
  have hxv : pred x v = false :=
    top?_before hw (ordered_push hw h v) htop ((push_perm pred l v).mem_iff.mpr List.mem_cons_self)
  have hx : x ∈ v :: l := (push_perm pred l v).mem_iff.mp (List.mem_of_head? htop)
  rcases List.mem_cons.mp hx with rfl | hx
  · exact htop
  · -- what was in the heap does not come before the old top, which comes after `v`
    obtain ⟨a, l', rfl⟩ := List.exists_cons_of_ne_nil (List.ne_nil_of_mem hx)
    have hax : pred a x = false := top?_before hw h rfl hx
    have hav : pred a v = true := hv
    rw [hw.trans hax hxv] at hav
    cases hav

end BinaryHeap
