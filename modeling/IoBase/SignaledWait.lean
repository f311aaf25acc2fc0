import IoBase.Signaler

/- The Signaler of a wait with I/O, in `event_loop_temp.cc`.

   In `Signaler.lean` the wait is for the Signaler alone. Here it is one of the dispatchers of
   a wait, any of those that tell dispatchers by their keys: threads call `WakeUp`, the kernel
   reports the eventfd as readable exactly while it has a token, and when the wait comes to
   the Signaler's key the loop thread goes through `OnEvent`, with `mutex_`, before the wait
   goes on. The wait is a parameter, by what the Signaler sees of it; its own copy of
   `fWait_`, which no other thread reads, is cleared when `OnEvent` has returned.

   Correspondence (C++ ↔ Lean):
     `EvenLoop::WakeUp`, `Signaler::Signal` ↔ `wakeUp`, `lock`, `critical`, as in `Signaler.step`
     the call of `OnEvent` and its return   ↔ `SignaledAction.wait`, at a step that tells the Signaler
     `OnEvent`, its lock and its statements ↔ `onEvent`, `critical`
     the next call of `Wait`                ↔ `enter`

   * `ServesSignaler`: what a wait has to do for its Signaler.
   * `ServesSignaler.ends`: once an answer has brought the Signaler's event, the wait ends without another.
   * `ServesSignaler.wakeUp_ends`: the first answer after a `WakeUp` brings it. -/
namespace IoBase
open Transition

/-- A wait with I/O, as its Signaler sees it. -/
structure IoWait (W A : Type) where
  step : W → A → Option W
  /-- The steps of the clock and of other threads. -/
  external : A → Bool
  /-- Whether the kernel may answer so, while the eventfd is readable or is not. -/
  mayAnswer : W → A → Bool → Bool
  /-- The keys of the dispatchers that it has told. -/
  told : W → List Nat
  /-- Its result, once it has returned. -/
  returned : W → Option Bool
  /-- The wait that is entered next. -/
  enter : W → Int → Bool → W

/-- The Signaler, and the wait. The Signaler's `loop` is `onEvent` for as long as `OnEvent` lasts, and
    `recalculating` when it has returned. -/
structure SignaledWait (W : Type) where
  signaler : Signaler
  wait : W

inductive SignaledAction (A : Type) where
  | wakeUp (i : Tid)
  | lock (i : Tid)
  /-- The next statement of the thread that has the mutex. -/
  | critical
  | onEvent
  | wait (a : A)
  | enter (cmsWait : Int) (processIo : Bool)

/-- Whether an action is the loop thread's, or of the thread that has the mutex. -/
def SignaledAction.goesOn {A : Type} (io : IoWait W A) : SignaledAction A → Bool
  | .critical | .onEvent => true
  | .wait a => !io.external a
  | _ => false

namespace SignaledWait
variable {W A : Type}

def start (w : W) : SignaledWait W := ⟨.init 0, w⟩

section
variable (io : IoWait W A) (key : Nat)

def step (s : SignaledWait W) : SignaledAction A → Option (SignaledWait W)
  | .wakeUp i => (s.signaler.step (.wakeUp i)).map fun t => { s with signaler := t }
  | .lock i => (s.signaler.step (.lock i)).map fun t => { s with signaler := t }
  | .critical => (s.signaler.step .critical).map fun t => { s with signaler := t }
  | .onEvent =>
    if s.signaler.loop = .onEvent then (s.signaler.step .loop).map fun t => { s with signaler := t } else none
  | .wait a =>
    if io.external a then (io.step s.wait a).map fun w => { s with wait := w }
    else if io.mayAnswer s.wait a (decide (0 < s.signaler.tokens)) then
      match io.step s.wait a, s.signaler.loop with
      | some w, .outside _ =>
        if io.told w = io.told s.wait ++ [key] then
          some { s with signaler := { s.signaler with loop := .onEvent } }
        else some { s with wait := w }
      | some w, .recalculating =>
        if io.told w = io.told s.wait ++ [key] then
          some ⟨{ s.signaler with loop := .outside none }, w⟩
        else none
      | _, _ => none
    else none
  | .enter cmsWait processIo =>
    if (io.returned s.wait).isSome then some { s with wait := io.enter s.wait cmsWait processIo } else none

end

/-! ## What a step can do -/

variable {io : IoWait W A} {key : Nat} {s s' : SignaledWait W}

/-- The steps: of the Signaler, of the wait, the call of `OnEvent` and its return, and the next wait. -/
inductive Stepped (io : IoWait W A) (key : Nat) (s : SignaledWait W) : SignaledAction A → SignaledWait W → Prop where
  | signaler {a : SignaledAction A} {b : SignalerAction} {t : Signaler} : s.signaler.step b = some t →
      (t.loop = s.signaler.loop ∨ s.signaler.loop = .onEvent ∧ t.loop = .recalculating) →
      Stepped io key s a { s with signaler := t }
  | wait {a : A} {w : W} : io.step s.wait a = some w →
      (io.external a = true ∨
        io.mayAnswer s.wait a (decide (0 < s.signaler.tokens)) = true ∧ io.told w ≠ io.told s.wait ++ [key] ∧
          ∃ r, s.signaler.loop = .outside r) →
      Stepped io key s (.wait a) { s with wait := w }
  | called {a : A} {w : W} {r : Option Bool} : io.external a = false →
      io.mayAnswer s.wait a (decide (0 < s.signaler.tokens)) = true → io.step s.wait a = some w →
      io.told w = io.told s.wait ++ [key] → s.signaler.loop = .outside r →
      Stepped io key s (.wait a) { s with signaler := { s.signaler with loop := .onEvent } }
  | answered {a : A} {w : W} : io.external a = false → io.step s.wait a = some w →
      io.told w = io.told s.wait ++ [key] → s.signaler.loop = .recalculating →
      Stepped io key s (.wait a) ⟨{ s.signaler with loop := .outside none }, w⟩
  | enter {cmsWait : Int} {processIo : Bool} : (io.returned s.wait).isSome = true →
      Stepped io key s (.enter cmsWait processIo) { s with wait := io.enter s.wait cmsWait processIo }

/-- The thread that has the mutex leaves the loop thread where it is, or ends its `OnEvent`. -/
theorem critical_loop {t u : Signaler} (hcoalesced : t.Coalesced) (h : t.step .critical = some u) :
    u.loop = t.loop ∨ t.loop = .onEvent ∧ u.loop = .recalculating := by
  simp only [Signaler.step] at h
  split at h
  · cases h
  · split at h <;> cases h <;> exact .inl rfl
  · cases h
    exact .inl rfl
  · cases h
    exact .inl rfl
  · split at h <;> cases h <;> exact .inl rfl
  · cases h
    exact .inl rfl
  · cases h
    exact .inl rfl
  · rename_i hmutex
    cases h
    exact .inr ⟨hcoalesced.loop_eq hmutex, rfl⟩

theorem step_cases {a : SignaledAction A} (hcoalesced : s.signaler.Coalesced) (h : step io key s a = some s') :
    Stepped io key s a s' := by
  cases a with
  | wakeUp i =>
    obtain ⟨t, ht, rfl⟩ := Option.map_eq_some_iff.mp h
    refine .signaler ht (.inl ?_)
    simp only [Signaler.step] at ht
    split at ht <;> cases ht
    rfl
  | lock i =>
    obtain ⟨t, ht, rfl⟩ := Option.map_eq_some_iff.mp h
    refine .signaler ht (.inl ?_)
    simp only [Signaler.step] at ht
    split at ht
    · split at ht <;> cases ht
      rfl
    · cases ht
  | critical =>
    obtain ⟨t, ht, rfl⟩ := Option.map_eq_some_iff.mp h
    exact .signaler ht (critical_loop hcoalesced ht)
  | onEvent =>
    simp only [step] at h
    split at h
    · rename_i hloop
      obtain ⟨t, ht, rfl⟩ := Option.map_eq_some_iff.mp h
      refine .signaler ht (.inl ?_)
      simp only [Signaler.step, hloop] at ht
      split at ht <;> cases ht
      exact hloop.symm
    · cases h
  | wait a =>
    simp only [step] at h
    split at h
    · rename_i hexternal
      obtain ⟨w, hw, rfl⟩ := Option.map_eq_some_iff.mp h
      exact .wait hw (.inl hexternal)
    · rename_i hexternal
      rw [Bool.not_eq_true] at hexternal
      split at h
      · rename_i hanswer
        split at h
        · rename_i hloop
          split at h <;> cases h
          · exact .called hexternal hanswer (by assumption) (by assumption) hloop
          · exact .wait (by assumption) (.inr ⟨hanswer, by assumption, _, hloop⟩)
        · rename_i hloop
          split at h <;> cases h
          exact .answered hexternal (by assumption) (by assumption) hloop
        · cases h
      · cases h
  | enter cmsWait processIo =>
    simp only [step] at h
    split at h <;> cases h
    exact .enter (by assumption)

theorem coalesced_step {a : SignaledAction A} (hstep : step io key s a = some s') (h : s.signaler.Coalesced) :
    s'.signaler.Coalesced := by
  cases step_cases h hstep with
  | signaler ht _ => exact h.step (Signaler.step_cases ht)
  | wait _ _ => exact h
  | called _ _ _ _ hloop => exact h.apart rfl rfl rfl rfl (.inr (by simp [hloop]))
  | answered _ _ _ hloop => exact h.apart rfl rfl rfl rfl (.inr (by simp [hloop]))
  | enter _ => exact h

/-! ## A wait that serves its Signaler -/

/-- The next thing the wait does, whatever the kernel, is to tell the Signaler. -/
def Turn (io : IoWait W A) (key : Nat) (w : W) : Prop :=
  ∃ a w', io.external a = false ∧ (∀ readable, io.mayAnswer w a readable = true) ∧ io.step w a = some w' ∧
    io.told w' = io.told w ++ [key]

/-- The wait has a step to take that the kernel does not decide. -/
def MayGoOn (io : IoWait W A) (w : W) : Prop :=
  ∃ a w', io.external a = false ∧ (∀ readable, io.mayAnswer w a readable = true) ∧ io.step w a = some w'

/-- What a wait does for its Signaler, where its actions satisfy `ok`. `Registered` is that the Signaler is
    one of its dispatchers, `Coming` that its event has been reported and its turn has not come, and
    `Leaving` that it has been told, and the wait is on its way out. -/
structure ServesSignaler (io : IoWait W A) (key : Nat) (ok : W → A → Prop) (Registered Coming Leaving : W → Prop) :
    Prop where
  registered : ∀ {w a w'}, ok w a → io.step w a = some w' → Registered w → Registered w'
  entered : ∀ {w cmsWait processIo}, Registered w → Registered (io.enter w cmsWait processIo)
  grows : ∀ {w a w'}, io.step w a = some w' → ∃ keys, io.told w' = io.told w ++ keys
  stops : ∀ {w a}, (io.returned w).isSome = true → io.external a = false → io.step w a = none
  /-- Other threads do not take the Signaler's turn from it. -/
  turn : ∀ {w a w'}, Registered w → ok w a → io.external a = true → io.step w a = some w' → Turn io key w →
    Turn io key w'
  tells : ∀ {w a w'}, io.external a = false → io.step w a = some w' → io.told w' = io.told w ++ [key] →
    ∀ readable, io.mayAnswer w a readable = true
  coming : ∀ {w a w'}, Registered w → ok w a → io.step w a = some w' → Coming w →
    Coming w' ∨ Leaving w' ∧ io.told w' = io.told w ++ [key]
  leaving : ∀ {w a w'}, Registered w → ok w a → io.step w a = some w' → Leaving w → Leaving w'
  coming_on : ∀ {w}, Registered w → Coming w → MayGoOn io w
  leaving_on : ∀ {w}, Registered w → Leaving w → io.returned w = some true ∨ MayGoOn io w

/-- The wait's actions satisfy `ok`. -/
def Where (ok : W → A → Prop) (s : SignaledWait W) : SignaledAction A → Prop
  | .wait a => ok s.wait a
  | _ => True

/-- The same, up to the end of the wait. -/
def WhereOnce (ok : W → A → Prop) (s : SignaledWait W) : SignaledAction A → Prop
  | .wait a => ok s.wait a
  | .enter _ _ => False
  | _ => True

instance (ok : W → A → Prop) [∀ w a, Decidable (ok w a)] (s : SignaledWait W) :
    (a : SignaledAction A) → Decidable (Where ok s a)
  | .wait a => inferInstanceAs (Decidable (ok s.wait a))
  | .wakeUp _ | .lock _ | .critical | .onEvent | .enter _ _ => inferInstanceAs (Decidable True)

instance (ok : W → A → Prop) [∀ w a, Decidable (ok w a)] (s : SignaledWait W) :
    (a : SignaledAction A) → Decidable (WhereOnce ok s a)
  | .wait a => inferInstanceAs (Decidable (ok s.wait a))
  | .enter _ _ => inferInstanceAs (Decidable False)
  | .wakeUp _ | .lock _ | .critical | .onEvent => inferInstanceAs (Decidable True)

/-- In `OnEvent` exactly while it is the Signaler's turn. -/
structure InTurn (io : IoWait W A) (key : Nat) (Registered : W → Prop) (s : SignaledWait W) : Prop where
  coalesced : s.signaler.Coalesced
  registered : Registered s.wait
  place : (∃ r, s.signaler.loop = .outside r) ∨
    (s.signaler.loop = .onEvent ∨ s.signaler.loop = .recalculating) ∧ Turn io key s.wait

variable {ok : W → A → Prop} {Registered Coming Leaving : W → Prop}

theorem inTurn_start {w : W} (h : Registered w) : InTurn io key Registered (start w) :=
  ⟨.of_init 0, h, .inl ⟨none, rfl⟩⟩

theorem InTurn.step (hserves : ServesSignaler io key ok Registered Coming Leaving) {a : SignaledAction A}
    (hok : Where ok s a) (hstep : SignaledWait.step io key s a = some s') (h : InTurn io key Registered s) :
    InTurn io key Registered s' := by
  have hcoalesced := coalesced_step hstep h.coalesced
  cases step_cases h.coalesced hstep with
  | signaler _ hloop =>
    refine ⟨hcoalesced, h.registered, ?_⟩
    obtain hloop | ⟨hbefore, hafter⟩ := hloop
    · simpa only [hloop] using h.place
    · obtain ⟨r, hout⟩ | ⟨-, hturn⟩ := h.place
      · cases hbefore.symm.trans hout
      · exact .inr ⟨.inr hafter, hturn⟩
  | wait hw hwhen =>
    refine ⟨hcoalesced, hserves.registered hok hw h.registered, ?_⟩
    obtain hout | ⟨hin, hturn⟩ := h.place
    · exact .inl hout
    · obtain hexternal | ⟨-, -, r, hout⟩ := hwhen
      · exact .inr ⟨hin, hserves.turn h.registered hok hexternal hw hturn⟩
      · exact .inl ⟨r, hout⟩
  | called hexternal _ hw htold hloop =>
    exact ⟨hcoalesced, h.registered, .inr ⟨.inl rfl, _, _, hexternal, hserves.tells hexternal hw htold, hw, htold⟩⟩
  | answered _ hw _ _ => exact ⟨hcoalesced, hserves.registered hok hw h.registered, .inl ⟨none, rfl⟩⟩
  | enter hreturned =>
    refine ⟨hcoalesced, hserves.entered h.registered, ?_⟩
    obtain hout | ⟨-, a, w', hexternal, -, hw, -⟩ := h.place
    · exact .inl hout
    · rw [hserves.stops hreturned hexternal] at hw
      cases hw

theorem inTurn_of_reaches (hserves : ServesSignaler io key ok Registered Coming Leaving) {w : W} (hw : Registered w)
    (h : Reaches (step io key) (Where ok) (start w) s) : InTurn io key Registered s :=
  h.invariant (fun _ _ _ hok hstep ih => ih.step hserves hok hstep) (inTurn_start hw)

/-- Out of its turn, the Signaler of a completed `WakeUp` is readable. -/
theorem InTurn.readable (h : InTurn io key Registered s) (hturn : ¬Turn io key s.wait)
    (hpos : 0 < s.signaler.unconsumed) :
    s.signaler.tokens = 1 ∧ ∃ r, s.signaler.loop = .outside r := by
  obtain hout | ⟨-, hin⟩ := h.place
  · refine ⟨?_, hout⟩
    obtain htokens | ⟨pc, hmutex, -⟩ := h.coalesced.readable hpos
    · exact htokens
    · obtain ⟨r, hout⟩ := hout
      cases (h.coalesced.loop_eq hmutex).symm.trans hout
  · exact absurd hin hturn

/-- While a completed `WakeUp` has not been taken, the kernel answers as of a readable eventfd. -/
theorem InTurn.answer (h : InTurn io key Registered s) (hturn : ¬Turn io key s.wait)
    (hpos : 0 < s.signaler.unconsumed) {a : A} (hexternal : io.external a = false)
    (hquiet : ∀ w, io.step s.wait a = some w → io.told w = io.told s.wait)
    (hstep : SignaledWait.step io key s (.wait a) = some s') :
    io.mayAnswer s.wait a true = true ∧ io.step s.wait a = some s'.wait := by
  obtain ⟨htokens, r, hout⟩ := h.readable hturn hpos
  have hreadable : decide (0 < s.signaler.tokens) = true := by
    rw [htokens]
    rfl
  simp only [SignaledWait.step, hexternal, hreadable, hout, Bool.false_eq_true, if_false] at hstep
  split at hstep
  · rename_i hanswer
    split at hstep
    · rename_i w _ hw hloop
      split at hstep <;> cases hstep
      · rename_i htold
        have hlength := congrArg List.length ((hquiet w hw).symm.trans htold)
        rw [List.length_append, List.length_singleton] at hlength
        omega
      · exact ⟨hanswer, hw⟩
    · rename_i hloop
      cases hloop
    · cases hstep
  · cases hstep

/-- Since its event was reported, with these told before. -/
def Ending (io : IoWait W A) (key : Nat) (Coming Leaving : W → Prop) (before : List Nat)
    (s : SignaledWait W) : Prop :=
  ∃ keys, io.told s.wait = before ++ keys ∧ (Coming s.wait ∨ Leaving s.wait ∧ key ∈ keys)

theorem Ending.step (hserves : ServesSignaler io key ok Registered Coming Leaving) {before : List Nat}
    {a : SignaledAction A} (hok : WhereOnce ok s a) (hstep : SignaledWait.step io key s a = some s')
    (h : InTurn io key Registered s) (hending : Ending io key Coming Leaving before s) :
    Ending io key Coming Leaving before s' := by
  -- the wait takes a step
  have hwait : ∀ {a : A} {w : W}, ok s.wait a → io.step s.wait a = some w →
      ∃ keys, io.told w = before ++ keys ∧ (Coming w ∨ Leaving w ∧ key ∈ keys) := by
    intro a w hok hw
    obtain ⟨keys, htold, hplace⟩ := hending
    obtain ⟨more, hmore⟩ := hserves.grows hw
    obtain hcoming | ⟨hleaving, hmem⟩ := hplace
    · obtain hcoming' | ⟨hleaving, htells⟩ := hserves.coming h.registered hok hw hcoming
      · exact ⟨keys ++ more, by rw [hmore, htold, List.append_assoc], .inl hcoming'⟩
      · refine ⟨keys ++ [key], by rw [htells, htold, List.append_assoc], .inr ⟨hleaving, ?_⟩⟩
        exact List.mem_append_right _ (List.mem_singleton_self _)
    · refine ⟨keys ++ more, by rw [hmore, htold, List.append_assoc], .inr ⟨?_, List.mem_append_left _ hmem⟩⟩
      exact hserves.leaving h.registered hok hw hleaving
  cases step_cases h.coalesced hstep with
  | signaler _ _ => exact hending
  | wait hw _ => exact hwait hok hw
  | called _ _ _ _ _ => exact hending
  | answered _ hw _ _ => exact hwait hok hw
  | enter _ => exact False.elim hok

/-- While it ends, the loop thread has a step to take, or the thread that has the mutex has. -/
theorem Ending.goesOn (hserves : ServesSignaler io key ok Registered Coming Leaving) {before : List Nat}
    (h : InTurn io key Registered s) (hending : Ending io key Coming Leaving before s) :
    io.returned s.wait = some true ∨
      ∃ a s', a.goesOn io = true ∧ SignaledWait.step io key s a = some s' := by
  obtain ⟨keys, -, hplace⟩ := hending
  obtain ⟨r, hout⟩ | ⟨hin | hin, a, w', hexternal, hanswer, hw, htold⟩ := h.place
  · -- the wait itself goes on
    have hgo : io.returned s.wait = some true ∨ MayGoOn io s.wait := by
      obtain hcoming | ⟨hleaving, -⟩ := hplace
      · exact .inr (hserves.coming_on h.registered hcoming)
      · exact hserves.leaving_on h.registered hleaving
    refine hgo.imp id fun hgo => ?_
    obtain ⟨a, w', hexternal, hanswer, hw⟩ := hgo
    refine ⟨.wait a, ?_⟩
    simp only [SignaledAction.goesOn, hexternal, Bool.not_false, true_and, SignaledWait.step, hanswer, hw, hout,
      if_true, Bool.false_eq_true, if_false]
    split <;> exact ⟨_, rfl⟩
  · -- the mutex is free, or its thread goes on
    refine .inr ?_
    cases hmutex : s.signaler.mutex with
    | none =>
      refine ⟨.onEvent, { s with signaler := { s.signaler with mutex := some (.onEvent .locked) } }, rfl, ?_⟩
      simp only [SignaledWait.step, hin, if_true, Signaler.step, hmutex]
      rfl
    | some holder =>
      refine ⟨.critical, ?_⟩
      simp only [SignaledAction.goesOn, true_and, SignaledWait.step, Signaler.step, hmutex]
      cases holder with
      | signal i pc =>
        cases pc with
        | locked => cases s.signaler.fSignaled <;> exact ⟨_, rfl⟩
        | written => exact ⟨_, rfl⟩
        | signaled => exact ⟨_, rfl⟩
      | onEvent pc =>
        cases pc with
        | locked => cases s.signaler.fSignaled <;> exact ⟨_, rfl⟩
        | drained => exact ⟨_, rfl⟩
        | reset => exact ⟨_, rfl⟩
        | cleared => exact ⟨_, rfl⟩
  · refine .inr ⟨.wait a, ⟨{ s.signaler with loop := .outside none }, w'⟩, ?_, ?_⟩
    · simp only [SignaledAction.goesOn, hexternal, Bool.not_false]
    · simp only [SignaledWait.step, hexternal, hanswer, hw, hin, htold, if_true, Bool.false_eq_true, if_false]

/-- Once the kernel's answer has brought the Signaler's event, the Signaler is told, and the wait ends. -/
theorem ServesSignaler.ends (hserves : ServesSignaler io key ok Registered Coming Leaving)
    (h : InTurn io key Registered s) (hcoming : Coming s.wait) (hrun : Reaches (step io key) (WhereOnce ok) s s') :
    Ending io key Coming Leaving (io.told s.wait) s' ∧
    (io.returned s'.wait = some true ∨ ∃ a t, a.goesOn io = true ∧ step io key s' a = some t) := by
  have hwhere : ∀ (t : SignaledWait W) (a : SignaledAction A), WhereOnce ok t a → Where ok t a := by
    intro t a hok
    cases a with
    | enter _ _ => trivial
    | _ => exact hok
  have hin : ∀ t, Reaches (step io key) (WhereOnce ok) s t → InTurn io key Registered t :=
    fun t hr => hr.invariant (fun _ _ _ hok hstep ih => ih.step hserves (hwhere _ _ hok) hstep) h
  have hending : Ending io key Coming Leaving (io.told s.wait) s' :=
    hrun.invariant_with hin (fun _ _ _ hok hstep hi he => he.step hserves hok hstep hi)
      ⟨[], (List.append_nil _).symm, .inl hcoming⟩
  exact ⟨hending, hending.goesOn hserves (hin _ hrun)⟩

/-- After a `WakeUp` that has not been taken, an answer that brings the Signaler's event if it is readable is
    the last one of the wait. -/
theorem ServesSignaler.wakeUp_ends (hserves : ServesSignaler io key ok Registered Coming Leaving)
    (h : InTurn io key Registered s) (hturn : ¬Turn io key s.wait) (hpos : 0 < s.signaler.unconsumed) {a : A}
    (hok : ok s.wait a) (hexternal : io.external a = false)
    (hquiet : ∀ w, io.step s.wait a = some w → io.told w = io.told s.wait)
    (hcoming : ∀ w, io.mayAnswer s.wait a true = true → io.step s.wait a = some w → Coming w)
    {s₁ s₂ : SignaledWait W} (hstep : step io key s (.wait a) = some s₁)
    (hrun : Reaches (step io key) (WhereOnce ok) s₁ s₂) :
    Ending io key Coming Leaving (io.told s₁.wait) s₂ ∧
    (io.returned s₂.wait = some true ∨ ∃ b t, b.goesOn io = true ∧ step io key s₂ b = some t) := by
  obtain ⟨hanswer, hw⟩ := h.answer hturn hpos hexternal hquiet hstep
  have hwhere : Where ok s (.wait a) := hok
  exact hserves.ends (h.step hserves hwhere hstep) (hcoming _ hanswer hw) hrun

/-- A key that was told since is that of a call since. -/
theorem exists_told_since {β : Type} {keyOf : β → Nat} {before after : List β} {keys : List Nat}
    (htold : after.map keyOf = before.map keyOf ++ keys) (hmem : key ∈ keys) :
    ∃ told ∈ after.drop before.length, keyOf told = key := by
  have hkeys : (after.drop before.length).map keyOf = keys := by
    rw [List.map_drop, htold, ← @List.length_map _ _ before keyOf, List.drop_left]
  rw [← hkeys] at hmem
  exact List.mem_map.mp hmem

end SignaledWait

end IoBase
