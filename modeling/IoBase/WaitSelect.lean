import IoBase.EvenLoop
import IoBase.Transition
import Mathlib.Data.List.AList

/- The `select` wait of `EvenLoop`, in `event_loop_temp.cc`, and the deadline it keeps.

   `WaitSelect` fixes the deadline in microseconds when it is entered, and after every
   `select` makes the next timeout of what is left of it. A step is one pass of one of its
   loops; at any moment time passes, and the table changes under the hands of other threads
   and of the handlers. What `select` leaves in the timeval is overwritten before it is used
   again.

   `cmsWait * 1000` is a product of two `int`, which wraps around here as it does in the
   machine.

   Correspondence (C++ ↔ Lean):
     `WaitSelect`, down to the loop           ↔ `SelectWait.start`
     the loop over the table, and `select`    ↔ `SelectWaitAction.select`
     the result of `select`                   ↔ `SelectWaitAction.wake`
     the loop over `current_dispatcher_keys_` ↔ `SelectWaitAction.process`
     the recalculation of the timeval         ↔ `SelectWaitAction.recalc`

   * `waitSelect_deadline`: for which timeouts every `select` is given what is left.
   * `waitSelect_overflows`: the first timeout whose deadline is in the past. -/
namespace IoBase
open Transition

/-! ## The timeval -/

structure Timeval where
  tvSec : Int
  tvUsec : Int
  deriving DecidableEq, Repr

namespace Timeval

def micros (tv : Timeval) : Int := tv.tvSec * kNumMicrosecsPerSec + tv.tvUsec

def Normal (tv : Timeval) : Prop := 0 ≤ tv.tvUsec ∧ tv.tvUsec < kNumMicrosecsPerSec

instance (tv : Timeval) : Decidable tv.Normal := inferInstanceAs (Decidable (_ ∧ _))

/-- The timeval of the first `select`. -/
def ofCmsWait (cmsWait : Int) : Timeval := ⟨cmsWait.tdiv 1000, wrapInt32 (cmsWait.tmod 1000 * 1000)⟩

/-- The timeval of the others. -/
def ofTimeLeft (timeLeftUs : Int) : Timeval :=
  if 0 < timeLeftUs then
    ⟨timeLeftUs.tdiv kNumMicrosecsPerSec, timeLeftUs.tmod kNumMicrosecsPerSec⟩
  else ⟨0, 0⟩

theorem normal_ofCmsWait {cmsWait : Int} (hpos : 0 ≤ cmsWait) : (ofCmsWait cmsWait).Normal := by
  have hlow := Int.tmod_nonneg 1000 hpos
  have hhigh := Int.tmod_lt_of_pos cmsWait (show (0 : Int) < 1000 by decide)
  have hfits : FitsInt32 (cmsWait.tmod 1000 * 1000) := by
    simp only [FitsInt32, int32Min, int32Max]
    omega
  simp only [Normal, ofCmsWait, wrapInt32_of_fits hfits, kNumMicrosecsPerSec]
  omega

theorem normal_ofTimeLeft (timeLeftUs : Int) : (ofTimeLeft timeLeftUs).Normal := by
  rw [ofTimeLeft]
  split
  · rename_i hpos
    exact ⟨Int.tmod_nonneg _ hpos.le, Int.tmod_lt_of_pos _ (by decide)⟩
  · decide

theorem micros_ofTimeLeft (timeLeftUs : Int) : (ofTimeLeft timeLeftUs).micros = max 0 timeLeftUs := by
  rw [ofTimeLeft]
  split
  · rename_i hpos
    rw [max_eq_right hpos.le, micros, mul_comm]
    exact Int.mul_tdiv_add_tmod timeLeftUs kNumMicrosecsPerSec
  · rename_i hneg
    rw [max_eq_left (not_lt.mp hneg)]
    rfl

end Timeval

/-! ## The wait -/

/-- A dispatcher, by its `GetDescriptor` and `GetRequestedEvents`: `signal_wakeup_`, or another. -/
inductive PosixDispatcher where
  | wakeup (fd : Nat)
  | other (fd : Nat) (requestedEvents : BitVec 32)
  deriving DecidableEq, Repr

namespace PosixDispatcher

def getDescriptor : PosixDispatcher → Nat
  | .wakeup fd => fd
  | .other fd _ => fd

def getRequestedEvents : PosixDispatcher → BitVec 32
  | .wakeup _ => deRead
  | .other _ requestedEvents => requestedEvents

/-- `IsDescriptorClosed`, which is `closed` for a dispatcher other than the Signaler. -/
def isDescriptorClosed (closed : Bool) : PosixDispatcher → Bool
  | .wakeup _ => false
  | .other _ _ => closed

def isWakeup : PosixDispatcher → Bool
  | .wakeup _ => true
  | .other _ _ => false

end PosixDispatcher

/-- What `select` returns; a positive count comes with the descriptors left in the sets. -/
inductive SelectResult where
  | failed
  | interrupted
  | timeout
  | ready (fdsRead fdsWrite : List Nat)

/-- Where the loop thread is in `WaitSelect`. -/
inductive SelectWaitPhase where
  | head
  | selecting
  | processing (todo : List Nat)
  | recalculating
  | returned (ok : Bool)
  deriving DecidableEq, Repr

/-- A call of `select`: its first argument, its timeval, and the reading that the timeval was made at. -/
structure SelectCall where
  nfds : Int
  timeval : Option Timeval
  nowUs : Int
  deriving DecidableEq, Repr

structure SelectWait where
  processIo : Bool
  /-- `*ptvWait`. -/
  tvWait : Option Timeval
  stopUs : Int
  fWait : Bool
  dispatcherByKey : AList fun _ : Nat => PosixDispatcher
  currentDispatcherKeys : List Nat
  fdsRead : List Nat
  fdsWrite : List Nat
  phase : SelectWaitPhase
  /-- The calls of `OnEvent`, with the dispatcher's key. -/
  onEvents : List (Nat × BitVec 32 × Int)
  calls : List SelectCall
  now : Int
  /-- The last reading of the clock. -/
  readUs : Int

inductive SelectWaitAction where
  | tick (ns : Nat)
  | table (dispatchers : AList fun _ : Nat => PosixDispatcher)
  | select
  | wake (n : SelectResult)
  | process (closed : Bool) (res : SoError)
  | recalc

namespace SelectWait

/-- `WaitSelect` is entered when the clock reads `now`; `stop_us` is not used without a timeout. -/
def start (cmsWait : Int) (processIo : Bool) (dispatchers : AList fun _ : Nat => PosixDispatcher)
    (now : Int) : SelectWait where
  processIo := processIo
  tvWait := if cmsWait = EvenLoop.kForeverMs then none else some (.ofCmsWait cmsWait)
  stopUs := timeMicros now + wrapInt32 (cmsWait * 1000)
  fWait := true
  dispatcherByKey := dispatchers
  currentDispatcherKeys := []
  fdsRead := []
  fdsWrite := []
  phase := .head
  onEvents := []
  calls := []
  now := now
  readUs := timeMicros now

/-- The dispatchers whose descriptors are selected. -/
def selected (s : SelectWait) : List (Nat × PosixDispatcher) :=
  (s.dispatcherByKey.entries.map fun kv => (kv.1, kv.2)).filter fun kv => s.processIo || kv.2.isWakeup

/-- The descriptors of the dispatchers that request one of these events. -/
def requesting (selected : List (Nat × PosixDispatcher)) (events : BitVec 32) : List Nat :=
  (selected.filter fun kv => meets kv.2.getRequestedEvents events).map fun kv => kv.2.getDescriptor

def fdmax (selected : List (Nat × PosixDispatcher)) : Int :=
  selected.foldl (fun fdmax kv => max fdmax kv.2.getDescriptor) (-1)

/-- The start of an iteration, down to the call of `select`. -/
def callSelect (s : SelectWait) : SelectWait :=
  { s with
    currentDispatcherKeys := s.selected.map Prod.fst
    fdsRead := requesting s.selected (deRead ||| deAccept)
    fdsWrite := requesting s.selected (deWrite ||| deConnect)
    phase := .selecting
    calls := s.calls ++ [⟨fdmax s.selected + 1, s.tvWait, s.readUs⟩] }

/-- `OnEvent`; that of the Signaler clears `fWait_`. -/
def onEvent (s : SelectWait) (key : Nat) (disp : PosixDispatcher) (ff : BitVec 32) (err : Int) : SelectWait :=
  { s with
    onEvents := s.onEvents ++ [(key, ff, err)]
    fWait := if disp.isWakeup then false else s.fWait }

/-- One dispatcher of the snapshot, and `ProcessEvents`. -/
def process (s : SelectWait) (key : Nat) (todo : List Nat) (closed : Bool) (res : SoError) : SelectWait :=
  match s.dispatcherByKey.lookup key with
  | none => { s with phase := .processing todo }
  | some disp =>
    let fd := disp.getDescriptor
    let readable := s.fdsRead.contains fd
    let writable := s.fdsWrite.contains fd
    let (ff, errcode) := processEvents disp.getRequestedEvents (disp.isDescriptorClosed closed) readable
      writable false (readable || writable) res
    let s := { s with
      fdsRead := s.fdsRead.filter (· != fd)
      fdsWrite := s.fdsWrite.filter (· != fd)
      phase := .processing todo }
    if ff = 0 then s else s.onEvent key disp ff errcode

/-- The time that remains, if there is a timeout. -/
def recalc (s : SelectWait) : SelectWait :=
  { s with
    tvWait := s.tvWait.map fun _ => .ofTimeLeft (s.stopUs - timeMicros s.now)
    readUs := timeMicros s.now
    phase := .head }

def step (s : SelectWait) : SelectWaitAction → Option SelectWait
  | .tick ns => some { s with now := s.now + ns }
  | .table dispatchers => some { s with dispatcherByKey := dispatchers }
  | .select =>
    match s.phase with
    | .head => some (if s.fWait then s.callSelect else { s with phase := .returned true })
    | _ => none
  | .wake n =>
    match s.phase, n with
    | .selecting, .failed => some { s with phase := .returned false }
    | .selecting, .interrupted => some { s with phase := .recalculating }
    | .selecting, .timeout => some { s with phase := .returned true }
    | .selecting, .ready fdsRead fdsWrite =>
      -- the sets lose the descriptors that are not ready
      if fdsRead ⊆ s.fdsRead ∧ fdsWrite ⊆ s.fdsWrite then
        some { s with
          fdsRead := fdsRead
          fdsWrite := fdsWrite
          phase := .processing s.currentDispatcherKeys }
      else none
    | _, _ => none
  | .process closed res =>
    match s.phase with
    | .processing (key :: todo) => some (s.process key todo closed res)
    | .processing [] => some { s with phase := .recalculating }
    | _ => none
  | .recalc =>
    match s.phase with
    | .recalculating => some s.recalc
    | _ => none

/-! ## What a step can do -/

/-- The steps, by what they do to the timeout. -/
inductive Stepped (s : SelectWait) : SelectWait → Prop where
  | call : s.phase = .head → Stepped s s.callSelect
  | recalc : Stepped s s.recalc
  | quiet {s' : SelectWait} : s'.tvWait = s.tvWait → s'.stopUs = s.stopUs → s'.calls = s.calls →
      s'.readUs = s.readUs → (s'.phase = .head → s.phase = .head) → Stepped s s'

theorem process_quiet {s : SelectWait} {key : Nat} {todo : List Nat} {closed : Bool} {res : SoError} :
    Stepped s (s.process key todo closed res) := by
  simp only [process]
  split
  · exact .quiet rfl rfl rfl rfl (fun h => by cases h)
  · split <;> exact .quiet rfl rfl rfl rfl (fun h => by cases h)

theorem step_cases {s s' : SelectWait} {a : SelectWaitAction} (h : s.step a = some s') : Stepped s s' := by
  cases a with
  | tick ns =>
    cases h
    exact .quiet rfl rfl rfl rfl id
  | table dispatchers =>
    cases h
    exact .quiet rfl rfl rfl rfl id
  | select =>
    simp only [step] at h
    split at h
    · rename_i hs
      cases h
      split
      · exact .call hs
      · exact .quiet rfl rfl rfl rfl (fun h => by cases h)
    · cases h
  | wake n =>
    simp only [step] at h
    split at h
    · cases h
      exact .quiet rfl rfl rfl rfl (fun h => by cases h)
    · cases h
      exact .quiet rfl rfl rfl rfl (fun h => by cases h)
    · cases h
      exact .quiet rfl rfl rfl rfl (fun h => by cases h)
    · split at h <;> cases h
      exact .quiet rfl rfl rfl rfl (fun h => by cases h)
    · cases h
  | process closed res =>
    simp only [step] at h
    split at h
    · cases h
      exact process_quiet
    · cases h
      exact .quiet rfl rfl rfl rfl (fun h => by cases h)
    · cases h
  | recalc =>
    simp only [step] at h
    split at h
    · cases h
      exact .recalc
    · cases h

/-! ## The deadline -/

/-- Every timeval is normalized, and each after the first is what was left until the deadline when it was
    made. -/
structure KeepsDeadline (t₀Us cmsWait : Int) (calls : List SelectCall) : Prop where
  normal : ∀ call ∈ calls, ∃ tv, call.timeval = some tv ∧ tv.Normal
  left : ∀ call ∈ calls.tail, ∃ tv, call.timeval = some tv ∧
    tv.micros = max 0 (t₀Us + 1000 * cmsWait - call.nowUs)

/-- What is known of a wait whose deadline did not overflow. -/
structure Timed (t₀Us cmsWait : Int) (s : SelectWait) : Prop where
  stop : s.stopUs = t₀Us + 1000 * cmsWait
  normal : ∃ tv, s.tvWait = some tv ∧ tv.Normal
  left : s.phase = .head → s.calls ≠ [] → ∃ tv, s.tvWait = some tv ∧
    tv.micros = max 0 (t₀Us + 1000 * cmsWait - s.readUs)
  kept : KeepsDeadline t₀Us cmsWait s.calls

theorem wrap_of_le {cmsWait : Int} (hpos : 0 ≤ cmsWait) (hle : cmsWait ≤ 2147483) :
    FitsInt32 (cmsWait * 1000) := by
  simp only [FitsInt32, int32Min, int32Max]
  omega

theorem Timed.of_start {cmsWait : Int} (hpos : 0 ≤ cmsWait) (hle : cmsWait ≤ 2147483) (processIo : Bool)
    (dispatchers : AList fun _ : Nat => PosixDispatcher) (now : Int) :
    Timed (timeMicros now) cmsWait (start cmsWait processIo dispatchers now) where
  stop := by
    simp only [start, wrapInt32_of_fits (wrap_of_le hpos hle)]
    omega
  normal := by
    have hne : cmsWait ≠ EvenLoop.kForeverMs := by
      rw [EvenLoop.kForeverMs]
      omega
    exact ⟨_, if_neg hne, Timeval.normal_ofCmsWait hpos⟩
  left := fun _ h => absurd rfl h
  kept := ⟨fun call hcall => absurd hcall List.not_mem_nil, fun call hcall => absurd hcall List.not_mem_nil⟩

theorem Timed.step {t₀Us cmsWait : Int} {s s' : SelectWait} (hs : Stepped s s')
    (h : Timed t₀Us cmsWait s) : Timed t₀Us cmsWait s' := by
  obtain ⟨hstop, hnormal, hleft, hkept⟩ := h
  cases hs with
  | call hhead =>
    refine ⟨hstop, hnormal, fun hphase => (by cases hphase), ?_, fun call hcall => ?_⟩
    · intro call hcall
      rcases List.mem_append.mp hcall with hcall | hcall
      · exact hkept.normal call hcall
      · rw [List.mem_singleton.mp hcall]
        exact hnormal
    · by_cases hfirst : s.calls = []
      · simp only [callSelect, hfirst, List.nil_append, List.tail_cons] at hcall
        exact absurd hcall List.not_mem_nil
      · simp only [callSelect, List.tail_append_of_ne_nil hfirst] at hcall
        rcases List.mem_append.mp hcall with hcall | hcall
        · exact hkept.left call hcall
        · rw [List.mem_singleton.mp hcall]
          exact hleft hhead hfirst
  | recalc =>
    obtain ⟨tv, htv, -⟩ := hnormal
    have hnew : s.recalc.tvWait = some (.ofTimeLeft (s.stopUs - timeMicros s.now)) := by
      simp only [recalc, htv, Option.map_some]
    refine ⟨hstop, ⟨_, hnew, Timeval.normal_ofTimeLeft _⟩, fun _ _ => ⟨_, hnew, ?_⟩, hkept⟩
    rw [Timeval.micros_ofTimeLeft, hstop]
    rfl
  | quiet htv hstop' hcalls hread hhead =>
    refine ⟨hstop'.trans hstop, ?_, fun hphase hne => ?_, ?_⟩
    · rw [htv]
      exact hnormal
    · rw [htv, hread]
      rw [hcalls] at hne
      exact hleft (hhead hphase) hne
    · rw [hcalls]
      exact hkept

/-- The deadline of a longer wait: a `select` that is interrupted at once is followed by a shorter one. -/
theorem overflow_misses {cmsWait : Int} (hlong : 2147483 < cmsWait) :
    ∃ s, Reaches SelectWait.step Always (start cmsWait false ∅ 0) s ∧
      ¬ KeepsDeadline (timeMicros 0) cmsWait s.calls := by
  have hne : cmsWait ≠ EvenLoop.kForeverMs := by
    rw [EvenLoop.kForeverMs]
    omega
  let s₁ := (start cmsWait false ∅ 0).callSelect
  let s₂ := ({ s₁ with phase := .recalculating } : SelectWait).recalc
  have hrun : Reaches SelectWait.step Always (start cmsWait false ∅ 0) s₂.callSelect :=
    (((Reaches.refl.tail trivial (a := .select) rfl).tail trivial (a := .wake .interrupted) rfl).tail trivial
      (a := .recalc) rfl).tail trivial (a := .select) rfl
  refine ⟨_, hrun, fun hkeeps => ?_⟩
  have htimeout : s₂.tvWait = some (.ofTimeLeft (wrapInt32 (cmsWait * 1000))) := by
    have hfirst : s₁.tvWait = some (.ofCmsWait cmsWait) := if_neg hne
    have hstop : s₁.stopUs - timeMicros 0 = wrapInt32 (cmsWait * 1000) := by
      show timeMicros 0 + wrapInt32 (cmsWait * 1000) - timeMicros 0 = _
      omega
    show s₁.tvWait.map (fun _ => Timeval.ofTimeLeft (s₁.stopUs - timeMicros 0)) = _
    rw [hfirst, hstop]
    rfl
  obtain ⟨tv, htv, hmicros⟩ := hkeeps.left ⟨0, s₂.tvWait, 0⟩ (List.mem_singleton.mpr rfl)
  cases htv.symm.trans htimeout
  have hwrap := wrapInt32_le (cmsWait * 1000)
  have hzero : timeMicros 0 = 0 := by decide
  rw [Timeval.micros_ofTimeLeft, hzero] at hmicros
  simp only [int32Max] at hwrap hmicros
  omega

/-- The products of `int` that `WaitSelect` computes. -/
def intProducts (cmsWait : Int) : List Int := [cmsWait.tmod 1000 * 1000, cmsWait * 1000]

theorem intProducts_fit {cmsWait : Int} (hpos : 0 ≤ cmsWait) :
    (∀ n ∈ intProducts cmsWait, FitsInt32 n) ↔ cmsWait ≤ 2147483 := by
  have hlow := Int.tmod_nonneg 1000 hpos
  have hhigh := Int.tmod_lt_of_pos cmsWait (show (0 : Int) < 1000 by decide)
  simp only [intProducts, List.forall_mem_cons, List.not_mem_nil, false_imp_iff, implies_true, and_true,
    FitsInt32, int32Min, int32Max]
  omega

/-- **The deadline of `WaitSelect`.** In every run, whatever the table, the clock and what `select` returns,
    each timeval is normalized and each after the first is what is left until `cmsWait` milliseconds after
    the entry, exactly where `cmsWait` is at most 2147483; and that is exactly where no product of two
    `int` overflows. -/
theorem waitSelect_deadline {cmsWait : Int} (hpos : 1 ≤ cmsWait) :
    ((∀ (processIo : Bool) (dispatchers : AList fun _ : Nat => PosixDispatcher) (now : Int) (s : SelectWait),
        Reaches SelectWait.step Always (start cmsWait processIo dispatchers now) s →
        KeepsDeadline (timeMicros now) cmsWait s.calls) ↔ cmsWait ≤ 2147483) ∧
    ((∀ n ∈ intProducts cmsWait, FitsInt32 n) ↔ cmsWait ≤ 2147483) := by
  refine ⟨⟨fun hkeeps => ?_, fun hle processIo dispatchers now s hrun => ?_⟩, intProducts_fit (by omega)⟩
  · by_contra hlong
    obtain ⟨s, hrun, hmisses⟩ := overflow_misses (not_le.mp hlong)
    exact hmisses (hkeeps _ _ _ s hrun)
  · have htimed : Timed (timeMicros now) cmsWait s := by
      refine hrun.invariant (fun _ _ _ _ hstep h => h.step (step_cases hstep)) ?_
      exact .of_start (by omega) hle processIo dispatchers now
    exact htimed.kept

/-- A wait of a second on the Signaler and a socket: a signal after 300 ms, the socket after 500 ms, and the
    handler takes 600 ms. -/
def secondRun : List SelectWaitAction :=
  [.select, .tick 300000000, .wake .interrupted, .recalc, .select, .tick 200000000, .wake (.ready [5] []),
    .process false (.value 0), .process false (.value 0), .tick 600000000, .process false (.value 0), .recalc,
    .select]

/-- The Signaler's descriptor is 3, and the socket's is 5. -/
def twoDispatchers : AList fun _ : Nat => PosixDispatcher :=
  (AList.singleton 1 (.wakeup 3)).insert 2 (.other 5 deRead)

theorem waitSelect_deadline_second :
    ∃ s, Reaches SelectWait.step Always (start 1000 true twoDispatchers 7000000000) s ∧
      s.calls = [⟨6, some ⟨1, 0⟩, 7000000⟩, ⟨6, some ⟨0, 700000⟩, 7300000⟩, ⟨6, some ⟨0, 0⟩, 8100000⟩] ∧
      s.onEvents = [(2, deRead, 0)] ∧ KeepsDeadline 7000000 1000 s.calls := by
  have hrun : (runWhile SelectWait.step Always (start 1000 true twoDispatchers 7000000000)
      secondRun).isSome = true := by decide
  have hreach := reaches_get hrun
  have hkeeps := (waitSelect_deadline (show (1 : Int) ≤ 1000 by decide)).1.mpr (by decide) _ _ _ _ hreach
  exact ⟨_, hreach, rfl, rfl, hkeeps⟩

/-- **The deadline overflows** from 2147484 milliseconds on: after an interruption the wait of more than
    half an hour is over. -/
theorem waitSelect_overflows :
    wrapInt32 (2147484 * 1000) = -2147483296 ∧ ¬ FitsInt32 (2147484 * 1000) ∧
    ∃ s, Reaches SelectWait.step Always (start 2147484 true twoDispatchers 7000000000) s ∧
      s.calls = [⟨6, some ⟨2147, 484000⟩, 7000000⟩, ⟨6, some ⟨0, 0⟩, 7000000⟩] ∧
      ¬ KeepsDeadline 7000000 2147484 s.calls := by
  have hrun : (runWhile SelectWait.step Always (start 2147484 true twoDispatchers 7000000000)
      [.select, .wake .interrupted, .recalc, .select]).isSome = true := by decide
  refine ⟨by decide, by decide, _, reaches_get hrun, rfl, fun hkeeps => ?_⟩
  obtain ⟨tv, htv, hmicros⟩ := hkeeps.left ⟨6, some ⟨0, 0⟩, 7000000⟩ (List.mem_singleton.mpr rfl)
  cases htv
  exact absurd hmicros (by decide)

end SelectWait

end IoBase
