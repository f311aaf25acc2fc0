import IoBase.ListenerCalls

/- One-shot delivery, in the order of registration.

   A registration is armed for some events. When one of them is dispatched to the
   ready list it is disarmed, and only `RearmSocket` arms it again. So of every event
   there are no more calls than there were armings, counting for each the calls made
   and the entries that are left (`Counted`). The loop over `registrations_` goes
   through the objects in the order they were made, so the ready list and the calls of
   an iteration do (`InOrder`).

   * `one_shot_delivery`: what holds of the calls of every run. -/
namespace IoBase
open Transition State OrderedMap

/-! ## In the order of registration -/

/-- The sockets are in the order of their objects. -/
def Ascending (m : Map Fd Registration) (todo : List Fd) : Prop :=
  todo.Pairwise fun a b => ∀ r r', m.lookup a = some r → m.lookup b = some r' → r.id < r'.id

theorem ascending_keys {m : Map Fd Registration} (h : (registrationIds m).Pairwise (· < ·)) :
    Ascending m m.keys := by
  unfold Ascending
  rw [AList.keys, List.keys, List.pairwise_map]
  rw [registrationIds, List.pairwise_map] at h
  refine h.imp_of_mem fun {e e'} he he' hlt r r' hr hr' => ?_
  rw [AList.mem_lookup_iff.mpr he, Option.some.injEq] at hr
  rw [AList.mem_lookup_iff.mpr he', Option.some.injEq] at hr'
  rw [← hr, ← hr']
  exact hlt

/-- A change of the events keeps the objects under their descriptors. -/
theorem lookup_id_modify {m : Map Fd Registration} {fd a : Fd} {f : Registration → Registration}
    {g : EventMask → EventMask} {r : Registration} (hf : ChangesEvents f g)
    (h : (modify fd f m).lookup a = some r) : ∃ r', m.lookup a = some r' ∧ r'.id = r.id := by
  rw [lookup_modify, Option.map_eq_some_iff] at h
  obtain ⟨r', hr', rfl⟩ := h
  refine ⟨r', hr', ?_⟩
  split
  · exact (hf r').1.symm
  · rfl

theorem ascending_modify {m : Map Fd Registration} {todo : List Fd} {fd : Fd}
    {f : Registration → Registration} {g : EventMask → EventMask} (h : Ascending m todo)
    (hf : ChangesEvents f g) : Ascending (modify fd f m) todo := by
  refine h.imp fun {a b} hlt r r' hr hr' => ?_
  obtain ⟨r₁, hr₁, hid₁⟩ := lookup_id_modify hf hr
  obtain ⟨r₂, hr₂, hid₂⟩ := lookup_id_modify hf hr'
  rw [← hid₁, ← hid₂]
  exact hlt r₁ r₂ hr₁ hr₂

/-- The calls of one iteration, then the entries that are left, then the sockets still to be
    enumerated, are in the order of their objects. -/
structure InOrder (d : Delivery) : Prop where
  calls : d.called.Pairwise fun a b => a.iteration = b.iteration → a.registration < b.registration
  past : ∀ cb ∈ d.called, cb.iteration ≤ d.iterations ∧
    (cb.iteration = d.iterations → d.phase.userCode = true)
  ready : d.phase.ready.Pairwise fun a b => a.registration < b.registration
  left : ∀ cb ∈ d.called, cb.iteration = d.iterations →
    ∀ entry ∈ d.phase.ready, cb.registration < entry.registration
  todo : ∀ todo ready, d.phase = .enumerating todo ready → Ascending d.registrations todo ∧
    ∀ entry ∈ ready, ∀ fd ∈ todo, ∀ r, d.registrations.lookup fd = some r → entry.registration < r.id

namespace InOrder
variable {d d' : Delivery}

/-- A step of user code leaves the order alone. -/
theorem same (h : InOrder d) (hi : d'.iterations = d.iterations) (hphase : d'.phase = d.phase)
    (hcalled : d'.called = d.called) (huser : d.phase.userCode = true ∨ d'.registrations = d.registrations) :
    InOrder d' := by
  refine ⟨hcalled ▸ h.calls, ?_, hphase ▸ h.ready, ?_, fun todo ready hp => ?_⟩
  · rw [hcalled, hi, hphase]
    exact h.past
  · rw [hcalled, hi, hphase]
    exact h.left
  · rw [hphase] at hp
    rcases huser with huser | hreg
    · rw [hp] at huser
      cases huser
    · rw [hreg]
      exact h.todo todo ready hp

end InOrder

theorem inOrder_step {d d' : Delivery} {h notes : List SocketNote} (hstep : Delivers d notes d')
    (hr : Registry d.registrations d.nextRegistration h) (ho : InOrder d) : InOrder d' := by
  cases hstep with
  | quiet => exact ho
  | registerFailed => exact ho.same rfl rfl rfl (.inr rfl)
  | register hu | unregister hu | rearm hu | notify hu => exact ho.same rfl rfl rfl (.inl hu)
  | begin =>
    have hlt : ∀ cb ∈ d.called, cb.iteration < d.iterations + 1 :=
      fun cb hcb => Nat.lt_succ_of_le (ho.past cb hcb).1
    refine ⟨ho.calls, fun cb hcb => ⟨Nat.le_of_lt (hlt cb hcb), fun he => ?_⟩, List.Pairwise.nil,
      fun _ _ _ _ hmem => absurd hmem List.not_mem_nil, fun _ _ hp => by cases hp⟩
    exact absurd he (Nat.ne_of_lt (hlt cb hcb))
  | leave =>
    exact ⟨ho.calls, fun cb hcb => ⟨(ho.past cb hcb).1, fun _ => rfl⟩, List.Pairwise.nil,
      fun _ _ _ _ hmem => absurd hmem List.not_mem_nil, fun _ _ hp => by cases hp⟩
  | enter hphase =>
    refine ⟨ho.calls, fun cb hcb => ⟨(ho.past cb hcb).1, fun he => ?_⟩, List.Pairwise.nil,
      fun _ _ _ _ hmem => absurd hmem List.not_mem_nil, fun todo ready hp => ?_⟩
    · have huser := (ho.past cb hcb).2 he
      rw [hphase] at huser
      cases huser
    · cases hp
      exact ⟨ascending_keys hr.sorted, fun _ hmem => absurd hmem List.not_mem_nil⟩
  | @pass fd todo ready f hphase hf =>
    obtain ⟨hasc, hbefore⟩ := ho.todo _ _ hphase
    have hpast := ho.past
    have hready := ho.ready
    have hleft := ho.left
    rw [hphase] at hpast hready hleft
    refine ⟨ho.calls, hpast, hready, hleft, fun todo' ready' hp => ?_⟩
    cases hp
    refine ⟨ascending_modify (List.pairwise_cons.mp hasc).2 hf, fun entry hentry a ha r hlookup => ?_⟩
    obtain ⟨r', hr', hid⟩ := lookup_id_modify hf hlookup
    rw [← hid]
    exact hbefore entry hentry a (List.mem_cons_of_mem _ ha) r' hr'
  | @dispatch fd todo ready r events f hphase hlookup hne hwithin hf =>
    obtain ⟨hasc, hbefore⟩ := ho.todo _ _ hphase
    obtain ⟨hfirst, hasc⟩ := List.pairwise_cons.mp hasc
    have hpast := ho.past
    have hready := ho.ready
    rw [hphase] at hpast hready
    refine ⟨ho.calls, hpast, ?_, fun cb hcb he => ?_, fun todo' ready' hp => ?_⟩
    · refine List.pairwise_append.mpr ⟨hready, List.pairwise_singleton _ _, fun entry hentry e he => ?_⟩
      rw [List.mem_singleton.mp he]
      exact hbefore entry hentry fd List.mem_cons_self r hlookup
    · cases (hpast cb hcb).2 he
    · cases hp
      refine ⟨ascending_modify hasc hf, fun entry hentry a ha r₁ hlookup₁ => ?_⟩
      obtain ⟨r', hr', hid⟩ := lookup_id_modify hf hlookup₁
      rw [← hid]
      rcases List.mem_append.mp hentry with hentry | hentry
      · exact hbefore entry hentry a (List.mem_cons_of_mem _ ha) r' hr'
      · rw [List.mem_singleton.mp hentry]
        exact hfirst a ha r r' hlookup hr'
  | enumerated hphase =>
    have hready := ho.ready
    have hleft := ho.left
    rw [hphase] at hready hleft
    exact ⟨ho.calls, fun cb hcb => ⟨(ho.past cb hcb).1, fun _ => rfl⟩, hready, hleft,
      fun _ _ hp => by cases hp⟩
  | @call entry rest r hphase =>
    have hready := ho.ready
    have hleft := ho.left
    rw [hphase] at hready hleft
    obtain ⟨hfirst, hrest⟩ := List.pairwise_cons.mp hready
    refine ⟨?_, fun cb hcb => ⟨?_, fun _ => rfl⟩, hrest, fun cb hcb he e hmem => ?_, fun _ _ hp => by cases hp⟩
    · refine List.pairwise_append.mpr ⟨ho.calls, List.pairwise_singleton _ _, fun cb hcb cb' hcb' he => ?_⟩
      rw [List.mem_singleton.mp hcb'] at he ⊢
      exact hleft cb hcb he entry List.mem_cons_self
    · rcases List.mem_append.mp hcb with hcb | hcb
      · exact (ho.past cb hcb).1
      · rw [List.mem_singleton.mp hcb]
    · rcases List.mem_append.mp hcb with hcb | hcb
      · exact hleft cb hcb he e (List.mem_cons_of_mem _ hmem)
      · rw [List.mem_singleton.mp hcb]
        exact hfirst e hmem
  | @skip entry rest hphase =>
    have hready := ho.ready
    have hleft := ho.left
    rw [hphase] at hready hleft
    exact ⟨ho.calls, fun cb hcb => ⟨(ho.past cb hcb).1, fun _ => rfl⟩, (List.pairwise_cons.mp hready).2,
      fun cb hcb he e hmem => hleft cb hcb he e (List.mem_cons_of_mem _ hmem), fun _ _ hp => by cases hp⟩

/-! ## No more calls than armings -/

/-- The call is for the object `n`, with the event `bit`. -/
def Callback.carries (n bit : Nat) (cb : Callback) : Bool := cb.registration == n && cb.events.getLsbD bit

def ReadyListEntry.carries (n bit : Nat) (entry : ReadyListEntry) : Bool :=
  entry.registration == n && entry.events.getLsbD bit

/-- `RegisterSocket` or `RearmSocket` arms the object `n` for the event `bit`. -/
def SocketNote.arms (n bit : Nat) : SocketNote → Bool
  | .registered _ n' events _ => n' == n && events.getLsbD bit
  | .rearmed n' events => n' == n && events.getLsbD bit
  | _ => false

/-- The calls made and the entries left. -/
def Delivery.deliveries (d : Delivery) (n bit : Nat) : Nat :=
  d.called.countP (Callback.carries n bit) + d.phase.ready.countP (ReadyListEntry.carries n bit)

/-- There have been as many armings as there are deliveries, and one more while the event is armed. -/
structure Counted (n bit : Nat) (d : Delivery) (h : List SocketNote) : Prop where
  le : d.deliveries n bit ≤ h.countP (SocketNote.arms n bit)
  armed : ∀ fd r, d.registrations.lookup fd = some r → r.id = n → r.events.getLsbD bit = true →
    d.deliveries n bit < h.countP (SocketNote.arms n bit)

namespace Counted
variable {n bit : Nat} {d d' : Delivery} {h notes : List SocketNote}

/-- A step that delivers nothing, and arms nothing without a note. -/
theorem keep (hc : Counted n bit d h) (hle : d'.deliveries n bit ≤ d.deliveries n bit)
    (harmed : ∀ fd r, d'.registrations.lookup fd = some r → r.id = n → r.events.getLsbD bit = true →
      (∃ fd r, d.registrations.lookup fd = some r ∧ r.id = n ∧ r.events.getLsbD bit = true) ∨
        0 < notes.countP (SocketNote.arms n bit)) :
    Counted n bit d' (h ++ notes) where
  le := by
    have := hc.le
    rw [List.countP_append]
    omega
  armed := by
    intro fd r hr hid hbit
    have := hc.le
    rw [List.countP_append]
    rcases harmed fd r hr hid hbit with ⟨fd', r', hr', hid', hbit'⟩ | hpos
    · have := hc.armed fd' r' hr' hid' hbit'
      omega
    · omega

/-- A step that leaves the map alone. -/
theorem keepMap (hc : Counted n bit d h) (hle : d'.deliveries n bit ≤ d.deliveries n bit)
    (hreg : d'.registrations = d.registrations) : Counted n bit d' (h ++ notes) :=
  hc.keep hle fun fd r hr hid hbit => .inl ⟨fd, r, hreg ▸ hr, hid, hbit⟩

/-- A change that arms no event without a note. -/
theorem change {fd : Fd} {f : Registration → Registration} {g : EventMask → EventMask}
    (hc : Counted n bit d h) (hf : ChangesEvents f g) (hreg : d'.registrations = modify fd f d.registrations)
    (hle : d'.deliveries n bit ≤ d.deliveries n bit)
    (hg : ∀ r, d.registrations.lookup fd = some r → r.id = n → (g r.events).getLsbD bit = true →
      r.events.getLsbD bit = true ∨ 0 < notes.countP (SocketNote.arms n bit)) :
    Counted n bit d' (h ++ notes) := by
  refine hc.keep hle fun a r hr hid hbit => ?_
  rw [hreg, lookup_modify, Option.map_eq_some_iff] at hr
  obtain ⟨r', hr', rfl⟩ := hr
  split at hid <;> split at hbit
  · rename_i ha _
    subst ha
    rw [(hf r').1] at hid
    rw [(hf r').2.2] at hbit
    exact (hg r' hr' hid hbit).imp_left fun hold => ⟨_, r', hr', hid, hold⟩
  all_goals first | contradiction | exact .inl ⟨a, r', hr', hid, hbit⟩

end Counted

theorem Within.getLsbD {w : Nat} {a b : BitVec w} (h : Within a b) {i : Nat} (ha : a.getLsbD i = true) :
    b.getLsbD i = true := by
  rw [← h, BitVec.getLsbD_and, Bool.and_eq_true] at ha
  exact ha.2

theorem counted_step {n bit : Nat} {d d' : Delivery} {h notes : List SocketNote}
    (hstep : Delivers d notes d') (hr : Registry d.registrations d.nextRegistration h)
    (hc : Counted n bit d h) : Counted n bit d' (h ++ notes) := by
  cases hstep with
  | quiet | registerFailed => exact hc.keepMap (Nat.le_refl _) rfl
  | @register fd events listener _ hfd =>
    refine hc.keep (Nat.le_refl _) fun a r hr hid hbit => ?_
    rw [lookup_insertBack hfd] at hr
    split at hr
    · cases hr
      exact .inr (by simp_all [SocketNote.arms])
    · exact .inl ⟨a, r, hr, hid, hbit⟩
  | unregister =>
    exact hc.keep (Nat.le_refl _) fun a r hr hid hbit => .inl ⟨a, r, (lookup_erase hr).2, hid, hbit⟩
  | @rearm fd r events f _ hlookup hf =>
    refine hc.change hf rfl (Nat.le_refl _) fun r' hr' hid hbit => ?_
    rw [hlookup, Option.some.injEq] at hr'
    subst hr'
    rw [BitVec.getLsbD_or, Bool.or_eq_true] at hbit
    exact hbit.imp_right fun hbit => by simp [SocketNote.arms, hid, hbit]
  | notify _ hf => exact hc.change hf rfl (Nat.le_refl _) fun _ _ _ hbit => .inl hbit
  | begin | leave | enter => exact hc.keepMap (by simp [Delivery.deliveries, SocketPhase.ready]) rfl
  | pass hphase hf =>
    refine hc.change hf rfl ?_ fun _ _ _ hbit => .inl hbit
    simp [Delivery.deliveries, hphase, SocketPhase.ready]
  | enumerated hphase => exact hc.keepMap (by simp [Delivery.deliveries, hphase, SocketPhase.ready]) rfl
  | skip hphase =>
    refine hc.keepMap ?_ rfl
    simp only [Delivery.deliveries, hphase, SocketPhase.ready, List.countP_cons]
    omega
  | @call entry rest r hphase =>
    have hsame : Callback.carries n bit ⟨d.iterations, entry.fd, entry.registration, entry.events⟩ =
        entry.carries n bit := rfl
    refine hc.keepMap ?_ rfl
    simp only [Delivery.deliveries, hphase, SocketPhase.ready, List.countP_cons, List.countP_append,
      List.countP_nil, hsame]
    omega
  | @dispatch fd todo ready r events f hphase hlookup hne hwithin hf =>
    have hcount : Delivery.deliveries { d with
          registrations := modify fd f d.registrations
          phase := .enumerating todo (ready ++ [⟨fd, r.id, events⟩]) } n bit =
        d.deliveries n bit + if ReadyListEntry.carries n bit ⟨fd, r.id, events⟩ then 1 else 0 := by
      simp only [Delivery.deliveries, hphase, SocketPhase.ready, List.countP_append, List.countP_cons,
        List.countP_nil]
      omega
    have hnotes : (h ++ [SocketNote.dispatched d.iterations ⟨fd, r.id, events⟩ r.events]).countP
        (SocketNote.arms n bit) = h.countP (SocketNote.arms n bit) := by
      simp [SocketNote.arms]
    refine ⟨?_, fun a r₁ hr₁ hid hbit => ?_⟩
    · rw [hcount, hnotes]
      split
      · rename_i hcarries
        rw [ReadyListEntry.carries, Bool.and_eq_true, beq_iff_eq] at hcarries
        exact hc.armed fd r hlookup hcarries.1 (hwithin.getLsbD hcarries.2)
      · exact hc.le
    · rw [hcount, hnotes]
      obtain ⟨r', hr', hid'⟩ := lookup_id_modify hf hr₁
      rw [lookup_modify_of_lookup hr', Option.some.injEq] at hr₁
      by_cases ha : a = fd
      · -- the socket itself: the event is armed still, so it is not the one dispatched
        rw [if_pos ha] at hr₁
        subst ha
        rw [hlookup, Option.some.injEq] at hr'
        subst hr'
        rw [← hr₁, (hf r).2.2, BitVec.getLsbD_and, Bool.and_eq_true, BitVec.getLsbD_not, Bool.and_eq_true,
          Bool.not_eq_true'] at hbit
        rw [ReadyListEntry.carries, hbit.2.2, Bool.and_false]
        exact hc.armed _ r hlookup (hid'.trans hid) hbit.1
      · rw [if_neg ha] at hr₁
        subst hr₁
        have hother : (r.id == n) = false := by
          rw [beq_eq_false_iff_ne]
          intro hsame
          exact ha (fd_unique hr.sorted hr' hlookup (hid.trans hsame.symm))
        rw [ReadyListEntry.carries, hother, Bool.false_and]
        exact hc.armed a r' hr' hid hbit

/-! ## The calls of a run -/

theorem inOrder_init {D : Type} : InOrder (State.init : State D).delivery := by
  constructor <;> simp [State.delivery, State.init, SocketPhase.ready]

theorem counted_init {D : Type} {n bit : Nat} : Counted n bit (State.init : State D).delivery [] := by
  constructor <;> simp [State.delivery, State.init, Sockets.init, Delivery.deliveries, SocketPhase.ready]

variable {D : Type} [AbslDuration D]

/-- **One-shot, in-order, in-scope delivery.** As long as no listener enters the loop again: a listener
    is called for some events, all of them armed when the call's entry was dispatched; of each event of
    each object there are no more calls than armings; within an iteration the calls are in the order
    in which the objects were registered, one at most for each. -/
theorem one_shot_delivery {p : State D × List SocketNote}
    (hrun : Reaches (noted D) (fun p a => NoListenerReentry p.1 a) (State.init, []) p) :
    (∀ cb ∈ p.1.called, cb.events ≠ 0 ∧ ∃ armed,
      .dispatched cb.iteration ⟨cb.fd, cb.registration, cb.events⟩ armed ∈ p.2 ∧ Within cb.events armed) ∧
    (∀ n bit, p.1.called.countP (Callback.carries n bit) ≤ p.2.countP (SocketNote.arms n bit)) ∧
    p.1.called.Pairwise (fun a b => a.iteration = b.iteration → a.registration < b.registration) ∧
    (registeredIds p.2).Pairwise (· < ·) ∧ ∀ cb ∈ p.1.called, cb.registration ∈ registeredIds p.2 := by
  obtain ⟨-, -, hr, hd⟩ := registry_of_run hrun
  obtain ⟨-, -, -, hcounted, horder⟩ := delivery_invariant
    (P := fun d h => Registry d.registrations d.nextRegistration h ∧ (∀ n bit, Counted n bit d h) ∧ InOrder d)
    ⟨registry_init, fun n bit => counted_init, inOrder_init⟩
    (fun d d' notes h hstep hp => ⟨registry_step hstep hp.1, fun n bit => counted_step hstep hp.1 (hp.2.1 n bit),
      inOrder_step hstep hp.1 hp.2.2⟩) hrun
  refine ⟨fun cb hcb => ?_, fun n bit => ?_, horder.calls, hr.increasing, fun cb hcb => ?_⟩
  · obtain ⟨armed, hmem⟩ := hd.called cb hcb
    obtain ⟨hne, hwithin, -⟩ := hd.noted _ _ _ hmem
    exact ⟨hne, armed, hmem, hwithin⟩
  · calc p.1.called.countP (Callback.carries n bit)
      _ ≤ p.1.delivery.deliveries n bit := Nat.le_add_right _ _
      _ ≤ p.2.countP (SocketNote.arms n bit) := (hcounted n bit).le
  · obtain ⟨armed, hmem⟩ := hd.called cb hcb
    obtain ⟨-, -, events, listener, hreg⟩ := hd.noted _ _ _ hmem
    exact mem_registeredIds.mpr ⟨cb.fd, events, listener, hreg⟩

/-- The listener of the first of two sockets rearms it and asks for another event; both are called in
    order, and the first one again in the next iteration. -/
def rearmingRun : List (Action Ticks) :=
  [.begin, .socket (.register 1 kEventReadable 7 true), .socket (.register 2 kEventWritable 8 true),
    .socket (.notify 2 kEventWritable), .socket (.notify 1 kEventReadable), .runEventLoopOnce .posInf,
    .loop { wait := .socket }, .loop {}, .loop {}, .loop {}, .loop {}, .socket (.rearm 1 kEventReadable true),
    .socket (.notify 1 kEventReadable), .loop {}, .loop {}, .loop {}, .loop {}, .loop {},
    .runEventLoopOnce (.finite 0), .loop { wait := .timeout }, .loop {}, .loop {}, .loop {}, .loop {}]

theorem one_shot_delivery_rearming :
    ∃ p : State Ticks × List SocketNote,
      Reaches (noted Ticks) (fun p a => NoListenerReentry p.1 a) (State.init, []) p ∧
      p.1.called = [⟨1, 1, 0, kEventReadable⟩, ⟨1, 2, 1, kEventWritable⟩, ⟨2, 1, 0, kEventReadable⟩] ∧
      p.1.called.countP (Callback.carries 0 0) = 2 ∧
      2 ≤ p.2.countP (SocketNote.arms 0 0) := by
  have hrun : (runWhile (noted Ticks) (fun p a => NoListenerReentry p.1 a) (State.init, [])
      rearmingRun).isSome = true := by decide
  have hreach := reaches_get hrun
  exact ⟨_, hreach, rfl, rfl, (one_shot_delivery hreach).2.1 0 0⟩

end IoBase
