import IoBase.OsTimeout

/- `Event::Wait` against a timed schedule of the other threads' calls.

   The schedule lists the calls of `Set` and `Reset` with their times, in the order in
   which they take the mutex. The clock is the one of the readings. A wait for the
   condition variable ends at a `Set`, at once with EINVAL if the deadline is not
   normalized, or with ETIMEDOUT at the deadline; a wake-up without a reason finds the
   flag as the sleep left it, so the schedule has none.

   Correspondence (C++ ↔ Lean):
     `pthread_cond_timedwait`, to its error   ↔ `sleepEnd`
     the lambda `wait`                        ↔ `lambdaWait`
     `Event::Wait`, from the mutex            ↔ `timedWait`

   * `timedWait_reaches`: what it returns, a run of the threads of the event returns.
   * `warning_never_decides`: for which durations `warn_after` has no part in that. -/
namespace IoBase
open AbslDuration LawfulDuration WaitDuration Transition

/-- A call of another thread. -/
inductive EventCall where
  | set
  | reset
  deriving DecidableEq, Repr

/-- The flag it leaves. -/
def EventCall.eventStatus : EventCall → Bool
  | .set => true
  | .reset => false

/-- Where a wait is: the time, the flag, and the calls to come. -/
structure Moment where
  time : Int
  eventStatus : Bool
  calls : List (Int × EventCall)
  deriving DecidableEq, Repr

/-- How a sleep that starts at `time` ends if it does so by the next call. -/
def sleepEnd (timeoutTs : Option Timespec) (time : Int) (next : Option Int) : Option (CondError × Int) :=
  match timeoutTs with
  | none => none
  | some ts =>
    if ts.Normal then
      if ∀ n ∈ next, ts.nanos ≤ max time n then some (.timedOut, max time ts.nanos) else none
    else some (.other, time)

/-- The lambda `wait`: its error, and where it leaves the event; `none` if it never returns. -/
def lambdaWait (timeoutTs : Option Timespec) (time : Int) (eventStatus : Bool) :
    List (Int × EventCall) → Option (CondError × Moment)
  | [] =>
    if eventStatus then some (.ok, ⟨time, true, []⟩)
    else (sleepEnd timeoutTs time none).map fun e => (e.1, ⟨e.2, false, []⟩)
  | (next, call) :: calls =>
    if eventStatus then some (.ok, ⟨time, true, (next, call) :: calls⟩)
    else match sleepEnd timeoutTs time (some next) with
      | some (error, endTime) => some (error, ⟨endTime, false, (next, call) :: calls⟩)
      | none => lambdaWait timeoutTs (max time next) call.eventStatus calls

/-- What follows `wait(warn_ts)`. -/
def afterWarning (giveUpTs : Option Timespec) : Option (CondError × Moment) → Option (CondError × Moment)
  | some (.timedOut, m) => lambdaWait giveUpTs m.time m.eventStatus m.calls
  | ended => ended

def waitCalls (warnTs giveUpTs : Option Timespec) (time : Int) (eventStatus : Bool)
    (calls : List (Int × EventCall)) : Option (CondError × Moment) :=
  match warnTs with
  | none => lambdaWait giveUpTs time eventStatus calls
  | some warnTs => afterWarning giveUpTs (lambdaWait (some warnTs) time eventStatus calls)

/-- What `Wait` returns, the flag it leaves, and when. -/
structure WaitReturn where
  result : Bool
  eventStatus : Bool
  time : Int
  deriving DecidableEq, Repr

/-- `Wait`, which takes the mutex at `time`. -/
def timedWait {D : Type} [AbslDuration D] (isManualReset : Bool) (giveUpAfter warnAfter : D)
    (now₁ now₂ : Timespec) (time : Int) (eventStatus : Bool) (calls : List (Int × EventCall)) :
    Option WaitReturn :=
  let ended := waitCalls (warnDeadline now₁ giveUpAfter warnAfter) (giveUpDeadline now₂ giveUpAfter)
    time eventStatus calls
  ended.map fun e => ⟨e.1 == .ok,
    if e.1 = .ok ∧ isManualReset = false then false else e.2.eventStatus, e.2.time⟩

/-! ## The lambda -/

section
variable {timeoutTs giveUpTs : Option Timespec} {ts : Timespec} {time : Int} {eventStatus : Bool}
  {calls : List (Int × EventCall)}

/-- Beside a set flag it does not sleep. -/
theorem lambdaWait_set : lambdaWait timeoutTs time true calls = some (.ok, ⟨time, true, calls⟩) := by
  cases calls <;> rfl

/-! Beside a flag that is not set it sleeps until the deadline or the next call, whichever is first. -/

theorem lambdaWait_invalid (hts : ¬ ts.Normal) :
    lambdaWait (some ts) time false calls = some (.other, ⟨time, false, calls⟩) := by
  cases calls <;> simp [lambdaWait, sleepEnd, hts]

theorem lambdaWait_deadline (hts : ts.Normal) (hfirst : ∀ c ∈ calls.head?, ts.nanos ≤ max time c.1) :
    lambdaWait (some ts) time false calls = some (.timedOut, ⟨max time ts.nanos, false, calls⟩) := by
  cases calls with
  | nil => simp [lambdaWait, sleepEnd, hts]
  | cons c calls =>
    have hend : sleepEnd (some ts) time (some c.1) = some (.timedOut, max time ts.nanos) := by
      simp only [sleepEnd, if_pos hts]
      refine if_pos fun n hn => ?_
      cases hn
      exact hfirst c rfl
    simp only [lambdaWait, hend]
    rfl

theorem lambdaWait_passed (hts : ts.Normal) (hpassed : ts.nanos ≤ time) :
    lambdaWait (some ts) time false calls = some (.timedOut, ⟨time, false, calls⟩) := by
  have hend : lambdaWait (some ts) time false calls = _ :=
    lambdaWait_deadline hts fun c _ => le_max_of_le_left hpassed
  rw [max_eq_left hpassed] at hend
  exact hend

theorem lambdaWait_call {c : Int × EventCall}
    (hfirst : ∀ ts, timeoutTs = some ts → ts.Normal ∧ max time c.1 < ts.nanos) :
    lambdaWait timeoutTs time false (c :: calls) =
      lambdaWait timeoutTs (max time c.1) c.2.eventStatus calls := by
  cases timeoutTs with
  | none => rfl
  | some ts =>
    obtain ⟨hts, hlt⟩ := hfirst ts rfl
    have hend : sleepEnd (some ts) time (some c.1) = none := by
      simp only [sleepEnd, if_pos hts]
      exact if_neg fun hdue => absurd (hdue c.1 rfl) (not_le.mpr hlt)
    simp only [lambdaWait, hend]
    rfl

/-- Either it returns before the next call, as the flag and its deadline have it, or the call comes first. -/
theorem lambdaWait_cases {error : CondError} {m : Moment}
    (h : lambdaWait timeoutTs time eventStatus calls = some (error, m)) :
    (m.calls = calls ∧ m.eventStatus = eventStatus ∧ (error = .ok ↔ eventStatus = true) ∧
      (error ≠ .ok → ∃ ts, timeoutTs = some ts ∧ (ts.Normal → ts.nanos ≤ m.time))) ∨
    ∃ c rest, calls = c :: rest ∧ eventStatus = false ∧
      lambdaWait timeoutTs (max time c.1) c.2.eventStatus rest = some (error, m) := by
  cases eventStatus with
  | true =>
    rw [lambdaWait_set] at h
    cases h
    exact .inl ⟨rfl, rfl, iff_of_true rfl rfl, fun hne => absurd rfl hne⟩
  | false =>
    by_cases hcall : ∃ c rest, calls = c :: rest ∧ ∀ ts, timeoutTs = some ts → ts.Normal ∧ max time c.1 < ts.nanos
    · obtain ⟨c, rest, hcalls, hfirst⟩ := hcall
      subst hcalls
      rw [lambdaWait_call hfirst] at h
      exact .inr ⟨c, rest, rfl, rfl, h⟩
    · refine .inl ?_
      cases htimeout : timeoutTs with
      | none =>
        subst htimeout
        cases calls with
        | nil => cases h
        | cons c rest => exact absurd ⟨c, rest, rfl, fun ts hts => by cases hts⟩ hcall
      | some ts =>
        subst htimeout
        by_cases hts : ts.Normal
        · have hfirst : ∀ c ∈ calls.head?, ts.nanos ≤ max time c.1 := by
            intro c hc
            obtain ⟨rest, hcalls⟩ := List.head?_eq_some_iff.mp hc
            by_contra hlt
            refine hcall ⟨c, rest, hcalls, fun ts' hts' => ?_⟩
            cases hts'
            exact ⟨hts, not_le.mp hlt⟩
          rw [lambdaWait_deadline hts hfirst] at h
          cases h
          exact ⟨rfl, rfl, iff_of_false (by decide) (by decide), fun _ => ⟨ts, rfl, fun _ => le_max_right _ _⟩⟩
        · rw [lambdaWait_invalid hts] at h
          cases h
          exact ⟨rfl, rfl, iff_of_false (by decide) (by decide), fun _ => ⟨ts, rfl, fun h => absurd h hts⟩⟩

/-- It gives up no earlier than at its deadline, if that is normalized. -/
theorem nanos_le_of_lambdaWait {error : CondError} {m : Moment}
    (h : lambdaWait timeoutTs time eventStatus calls = some (error, m)) (herror : error ≠ .ok) :
    ∃ ts, timeoutTs = some ts ∧ (ts.Normal → ts.nanos ≤ m.time) := by
  induction calls generalizing time eventStatus with
  | nil =>
    rcases lambdaWait_cases h with hend | hcall
    · exact hend.2.2.2 herror
    · obtain ⟨c, rest, hcalls, -⟩ := hcall
      cases hcalls
  | cons c calls ih =>
    rcases lambdaWait_cases h with hend | hcall
    · exact hend.2.2.2 herror
    · obtain ⟨c, rest, hcalls, -, hrest⟩ := hcall
      cases hcalls
      exact ih hrest

/-- It may start to sleep later, as long as nothing happens before. -/
theorem lambdaWait_later {later : Int} (hle : time ≤ later) (hnext : ∀ c ∈ calls.head?, later ≤ max time c.1)
    (htimeout : ∀ ts, timeoutTs = some ts → ts.Normal ∧ later ≤ max time ts.nanos) :
    lambdaWait timeoutTs later false calls = lambdaWait timeoutTs time false calls := by
  have hsame : ∀ n, later ≤ max time n → max later n = max time n := fun n hn => by omega
  by_cases hdue : ∃ ts, timeoutTs = some ts ∧ ∀ c ∈ calls.head?, ts.nanos ≤ max time c.1
  · obtain ⟨ts, hsome, hfirst⟩ := hdue
    subst hsome
    obtain ⟨hts, hlater⟩ := htimeout ts rfl
    rw [lambdaWait_deadline hts hfirst, lambdaWait_deadline hts, hsame _ hlater]
    intro c hc
    rw [hsame _ (hnext c hc)]
    exact hfirst c hc
  · cases calls with
    | nil =>
      cases timeoutTs with
      | none => rfl
      | some ts => exact absurd ⟨ts, rfl, fun c hc => by cases hc⟩ hdue
    | cons c calls =>
      have hc := hsame _ (hnext c rfl)
      have hfirst : ∀ ts, timeoutTs = some ts → ts.Normal ∧ max time c.1 < ts.nanos := by
        intro ts hsome
        refine ⟨(htimeout ts hsome).1, not_le.mp fun hle => hdue ⟨ts, hsome, fun c' hc' => ?_⟩⟩
        cases hc'
        exact hle
      rw [lambdaWait_call hfirst, lambdaWait_call (by rw [hc]; exact hfirst), hc]

/-- A warning on the way to giving up changes nothing. -/
theorem afterWarning_lambdaWait (hts : ts.Normal)
    (hgiveUp : ∀ g, giveUpTs = some g → g.Normal ∧ ts.nanos ≤ g.nanos) :
    afterWarning giveUpTs (lambdaWait (some ts) time eventStatus calls) =
      lambdaWait giveUpTs time eventStatus calls := by
  have hlater : ∀ t g, giveUpTs = some g → g.Normal ∧ max t ts.nanos ≤ max t g.nanos :=
    fun t g hg => ⟨(hgiveUp g hg).1, max_le_max_left t (hgiveUp g hg).2⟩
  induction calls generalizing time eventStatus with
  | nil =>
    cases eventStatus with
    | true => rfl
    | false =>
      rw [lambdaWait_deadline hts (fun c hc => by cases hc)]
      exact lambdaWait_later (le_max_left _ _) (fun c hc => by cases hc) (hlater time)
  | cons c calls ih =>
    cases eventStatus with
    | true => rfl
    | false =>
      rcases le_or_gt ts.nanos (max time c.1) with hwarned | hcall
      · have hfirst : ∀ c' ∈ (c :: calls).head?, ts.nanos ≤ max time c'.1 := by
          intro c' hc'
          cases hc'
          exact hwarned
        rw [lambdaWait_deadline hts hfirst]
        exact lambdaWait_later (le_max_left _ _) (fun c' hc' => max_le (le_max_left _ _) (hfirst c' hc'))
          (hlater time)
      · -- the call comes first, to both waits
        rw [lambdaWait_call (c := c) (fun ts' hts' => by cases hts'; exact ⟨hts, hcall⟩),
          lambdaWait_call (c := c) fun g hg => ⟨(hgiveUp g hg).1, lt_of_lt_of_le hcall (hgiveUp g hg).2⟩]
        exact ih

end

/-! ## The run of the threads -/

section
variable {D : Type} [AbslDuration D] {i j : Nat}

def EventCall.action (j : Nat) : EventCall → EventAction D
  | .set => .set j
  | .reset => .reset j

def EventCall.note (j : Nat) : EventCall → EventNote
  | .set => .set j
  | .reset => .reset j

/-- Thread `i` sleeps in `call`, and thread `j` is free to call. -/
structure Sleeping (s : Event) (i j : Nat) (call : WaitCall) : Prop where
  asleep : ∃ notified, s.threads i = .asleep call notified
  outside : s.threads j = .outside

theorem noted_step {s s' : Event} {a : EventAction D} (notes : List EventNote) (h : s.step a = some s') :
    eventNoted D (s, notes) a = some (s', notes ++ s.notes a) :=
  observe_eq_some.mpr ⟨h, rfl⟩

theorem Sleeping.ne {s : Event} {call : WaitCall} (hs : Sleeping s i j call) : j ≠ i := by
  intro heq
  obtain ⟨⟨notified, hi⟩, hj⟩ := hs
  rw [← heq, hj] at hi
  cases hi

theorem sleeping_endSection {s : Event} (call : WaitCall) (hij : j ≠ i) (hj : s.threads j = .outside) :
    Sleeping (s.endSection i (.sleep call)) i j call :=
  ⟨⟨false, Function.update_self ..⟩, (Function.update_of_ne hij ..).trans hj⟩

/-- A call of thread `j` leaves the other one asleep. -/
theorem eventCall_step {s : Event} {call : WaitCall} (hs : Sleeping s i j call) (c : EventCall) :
    ∃ s', s.step (c.action j : EventAction D) = some s' ∧ s.notes (c.action j : EventAction D) = [c.note j] ∧
      Sleeping s' i j call ∧ s'.isManualReset = s.isManualReset ∧ s'.eventStatus = c.eventStatus := by
  obtain ⟨⟨notified, hi⟩, hj⟩ := hs
  cases c with
  | set =>
    refine ⟨_, if_pos hj, rfl, ⟨⟨true, ?_⟩, ?_⟩, rfl, rfl⟩
    · simp [hi, WaiterPc.notify]
    · simp [hj, WaiterPc.notify]
  | reset => exact ⟨_, if_pos hj, rfl, ⟨⟨notified, hi⟩, hj⟩, rfl, rfl⟩

/-- A sleep of thread `i` in `call` up to its end with `error`, with the calls of thread `j` before that. -/
structure SleptTo (D : Type) [AbslDuration D] (i j : Nat) (call : WaitCall) (error : CondError) (m : Moment)
    (s : Event) (notes : List EventNote) (made : List (Int × EventCall)) (s' : Event) : Prop where
  run : Reaches (eventNoted D) Always (s, notes) (s', notes ++ made.map (fun c => c.2.note j))
  sleeping : Sleeping s' i j call
  manual : s'.isManualReset = s.isManualReset
  status : s'.eventStatus = m.eventStatus
  ok_iff : error = .ok ↔ m.eventStatus = true
  timed : error ≠ .ok → call.timeoutTs ≠ none

/-- The calls that the lambda sleeps through are steps of thread `j`. What it returns is what the sleep can
    end with. -/
theorem lambdaWait_sleptTo {call : WaitCall} {calls : List (Int × EventCall)} {error : CondError} {m : Moment}
    {time : Int} {s : Event} (notes : List EventNote) (hs : Sleeping s i j call)
    (h : lambdaWait call.timeoutTs time s.eventStatus calls = some (error, m)) :
    ∃ made s', calls = made ++ m.calls ∧ SleptTo D i j call error m s notes made s' := by
  rcases lambdaWait_cases h with hend | hcall
  · obtain ⟨hcalls, hstatus, hok, htimeout⟩ := hend
    refine ⟨[], s, hcalls.symm, ?_, hs, rfl, hstatus.symm, hstatus ▸ hok, fun hne hnone => ?_⟩
    · rw [List.map_nil, List.append_nil]
      exact .refl
    · obtain ⟨ts, hts, -⟩ := htimeout hne
      rw [hnone] at hts
      cases hts
  · obtain ⟨c, rest, hcalls, -, hrest⟩ := hcall
    subst hcalls
    obtain ⟨s₁, hstep, hnotes, hs₁, hmanual₁, hstatus₁⟩ := eventCall_step (D := D) hs c.2
    rw [← hstatus₁] at hrest
    obtain ⟨made, s', hcalls, hslept⟩ := lambdaWait_sleptTo (notes ++ [c.2.note j]) hs₁ hrest
    refine ⟨c :: made, s', congrArg (c :: ·) hcalls, ?_, hslept.sleeping, hslept.manual.trans hmanual₁,
      hslept.status, hslept.ok_iff, hslept.timed⟩
    rw [List.map_cons, List.append_cons]
    exact hslept.run.head trivial (observe_eq_some.mpr ⟨hstep, by rw [hnotes]⟩)
termination_by calls

/-- A section of `Wait` that is done returns. -/
theorem waitDone_step {s : Event} {a : EventAction D} {call : WaitCall} {error error' : CondError}
    (hstep : s.step a = some (s.endSection i (sectionEnd s.eventStatus call error)))
    (hnotes : s.notes a = Event.endNotes i (sectionEnd s.eventStatus call error))
    (hdone : sectionEnd s.eventStatus call error = .done error') (notes : List EventNote) :
    ∃ s', eventNoted D (s, notes) a = some (s', notes ++ [.returned i (error' == .ok)]) ∧
      s'.eventStatus = if error' = .ok ∧ s.isManualReset = false then false else s.eventStatus := by
  rw [hdone] at hstep hnotes
  exact ⟨_, observe_eq_some.mpr ⟨hstep, by rw [hnotes]; rfl⟩, rfl⟩

/-- The wake-up of a sleeper is a step, as long as only a deadline times out. -/
theorem waitWake_step {s : Event} {call : WaitCall} {error : CondError} (hs : Sleeping s i j call)
    (htimed : error ≠ .ok → call.timeoutTs ≠ none) :
    s.step (.wake i error : EventAction D) = some (s.endSection i (sectionEnd s.eventStatus call error)) ∧
      s.notes (.wake i error : EventAction D) = Event.endNotes i (sectionEnd s.eventStatus call error) := by
  obtain ⟨⟨notified, hi⟩, -⟩ := hs
  have hguard : ¬ (error = .timedOut ∧ call.timeoutTs = none) := by
    intro h
    exact htimed (by rw [h.1]; decide) h.2
  refine ⟨?_, ?_⟩
  · simp only [Event.step, hi]
    exact if_neg hguard
  · simp only [Event.notes, hi]

/-- The loop of the lambda ends with an error, or with a set flag. -/
theorem waitLoop_ended {eventStatus : Bool} {error : CondError} (h : error = .ok ↔ eventStatus = true) :
    waitLoop eventStatus error = some error := by
  rw [waitLoop, if_neg]
  intro hagain
  obtain ⟨hflag, herror⟩ := Bool.and_eq_true_iff.mp hagain
  rw [h.mp (eq_of_beq herror)] at hflag
  cases hflag

/-- What `Wait` returns and leaves, after the calls that were made. -/
def WaitReturns (D : Type) [AbslDuration D] (i j : Nat) (s : Event) (notes : List EventNote)
    (calls : List (Int × EventCall)) (error : CondError) (m : Moment) : Prop :=
  ∃ made s', calls = made ++ m.calls ∧
    Reaches (eventNoted D) Always (s, notes)
      (s', notes ++ made.map (fun c => c.2.note j) ++ [.returned i (error == .ok)]) ∧
    s'.eventStatus = if error = .ok ∧ s.isManualReset = false then false else m.eventStatus

/-- A sleep up to the return of `Wait`. -/
theorem waitReturns_of_done {call : WaitCall} {calls : List (Int × EventCall)} {error : CondError} {m : Moment}
    {time : Int} {s : Event} (notes : List EventNote) (hs : Sleeping s i j call)
    (h : lambdaWait call.timeoutTs time s.eventStatus calls = some (error, m))
    (hdone : sectionEnd m.eventStatus call error = .done error) : WaitReturns D i j s notes calls error m := by
  obtain ⟨made, s₁, hcalls, hslept⟩ := lambdaWait_sleptTo (D := D) notes hs h
  obtain ⟨hstep, hnotes⟩ := waitWake_step (D := D) hslept.sleeping hslept.timed
  rw [← hslept.status] at hdone
  obtain ⟨s', hlast, hstatus⟩ := waitDone_step hstep hnotes hdone (notes ++ made.map (fun c => c.2.note j))
  refine ⟨made, s', hcalls, hslept.run.tail trivial hlast, ?_⟩
  rw [hstatus, hslept.manual, hslept.status]

theorem waitReturns_of_giveUp {giveUpTs : Option Timespec} {calls : List (Int × EventCall)} {error : CondError}
    {m : Moment} {time : Int} {s : Event} (notes : List EventNote) (hs : Sleeping s i j (.giveUp giveUpTs))
    (h : lambdaWait giveUpTs time s.eventStatus calls = some (error, m)) :
    WaitReturns D i j s notes calls error m := by
  obtain ⟨_, _, _, hslept⟩ := lambdaWait_sleptTo (D := D) notes hs h
  refine waitReturns_of_done notes hs h ?_
  rw [sectionEnd, waitLoop_ended hslept.ok_iff]

theorem waitReturns_of_warn {warnTs : Timespec} {giveUpTs : Option Timespec} {calls : List (Int × EventCall)}
    {error : CondError} {m : Moment} {time : Int} {s : Event} (notes : List EventNote)
    (hs : Sleeping s i j (.warn warnTs giveUpTs))
    (h : afterWarning giveUpTs (lambdaWait (some warnTs) time s.eventStatus calls) = some (error, m)) :
    WaitReturns D i j s notes calls error m := by
  cases hwarned : lambdaWait (some warnTs) time s.eventStatus calls with
  | none =>
    rw [hwarned] at h
    cases h
  | some e =>
    obtain ⟨error₁, m₁⟩ := e
    obtain ⟨made, s₁, hcalls, hslept⟩ := lambdaWait_sleptTo (D := D) notes hs hwarned
    have hloop := waitLoop_ended hslept.ok_iff
    rw [hwarned] at h
    by_cases htimedOut : error₁ = .timedOut
    · subst htimedOut
      have hflag : m₁.eventStatus = false := by
        rw [← Bool.not_eq_true]
        exact fun hset => absurd (hslept.ok_iff.mpr hset) (by decide)
      -- the warning is logged, and the thread sleeps again
      obtain ⟨hstep, hnotes⟩ := waitWake_step (D := D) hslept.sleeping hslept.timed
      have hend : sectionEnd s₁.eventStatus (.warn warnTs giveUpTs) .timedOut = .sleep (.giveUp giveUpTs) := by
        rw [hslept.status, hflag]
        rfl
      rw [hend] at hstep hnotes
      have hs₂ := sleeping_endSection (.giveUp giveUpTs) hslept.sleeping.ne hslept.sleeping.outside
      have hwoken := hslept.run.tail trivial (noted_step _ hstep)
      have hstatus : (s₁.endSection i (.sleep (.giveUp giveUpTs))).eventStatus = m₁.eventStatus := hslept.status
      have hgaveUp : lambdaWait giveUpTs m₁.time m₁.eventStatus m₁.calls = some (error, m) := h
      rw [← hstatus] at hgaveUp
      obtain ⟨made', s', hcalls', hrun, hleft⟩ := waitReturns_of_giveUp (D := D)
        (notes ++ made.map (fun c => c.2.note j)) hs₂ hgaveUp
      refine ⟨made ++ made', s', ?_, ?_, ?_⟩
      · rw [hcalls, hcalls', List.append_assoc]
      · rw [List.map_append, ← List.append_assoc]
        rw [hnotes, Event.endNotes, List.append_nil] at hwoken
        exact hwoken.trans hrun
      · rw [hleft, ← hslept.manual]
        rfl
    · have hsame : error₁ = error ∧ m₁ = m := by
        cases error₁ with
        | timedOut => exact absurd rfl htimedOut
        | ok | other => simpa [afterWarning] using h
      obtain ⟨herror, hm⟩ := hsame
      subst herror hm
      refine waitReturns_of_done notes hs hwarned ?_
      rw [sectionEnd, hloop]
      exact if_neg htimedOut

/-- The section of thread `i` that takes the mutex, and the sleep after it. -/
theorem waitReturns_of_entered {warnTs giveUpTs : Option Timespec} {calls : List (Int × EventCall)}
    {error : CondError} {m : Moment} {time : Int} {s : Event} (hij : j ≠ i)
    (hi : s.threads i = .entered warnTs giveUpTs) (hj : s.threads j = .outside)
    (h : waitCalls warnTs giveUpTs time s.eventStatus calls = some (error, m)) :
    WaitReturns D i j s [] calls error m := by
  have hlock : s.step (.lock i : EventAction D) =
      some (s.endSection i (sectionEnd s.eventStatus (firstCall warnTs giveUpTs) .ok)) := by
    simp only [Event.step, hi]
  have hnotes : s.notes (.lock i : EventAction D) =
      Event.endNotes i (sectionEnd s.eventStatus (firstCall warnTs giveUpTs) .ok) := by
    simp only [Event.notes, hi]
  cases hflag : s.eventStatus with
  | true =>
    have hended : error = .ok ∧ m = ⟨time, true, calls⟩ := by
      rw [hflag] at h
      cases warnTs with
      | none =>
        rw [waitCalls, lambdaWait_set] at h
        cases h
        exact ⟨rfl, rfl⟩
      | some ts =>
        rw [waitCalls, lambdaWait_set] at h
        cases h
        exact ⟨rfl, rfl⟩
    obtain ⟨herror, hm⟩ := hended
    subst herror hm
    have hdone : sectionEnd s.eventStatus (firstCall warnTs giveUpTs) .ok = .done .ok := by
      rw [hflag]
      cases warnTs <;> rfl
    obtain ⟨s', hlast, hstatus⟩ := waitDone_step hlock hnotes hdone []
    exact ⟨[], s', rfl, .tail .refl trivial hlast, by rw [hstatus, hflag]⟩
  | false =>
    have hend : sectionEnd s.eventStatus (firstCall warnTs giveUpTs) .ok =
        .sleep (firstCall warnTs giveUpTs) := by
      rw [hflag]
      cases warnTs <;> rfl
    rw [hend] at hlock hnotes
    have hs := sleeping_endSection (firstCall warnTs giveUpTs) hij hj
    have hlocked := noted_step [] hlock
    rw [hnotes] at hlocked
    have hreturns : WaitReturns D i j (s.endSection i (.sleep (firstCall warnTs giveUpTs))) [] calls error m := by
      cases warnTs with
      | none => exact waitReturns_of_giveUp [] hs h
      | some ts => exact waitReturns_of_warn [] hs h
    obtain ⟨made, s', hcalls, hrun, hstatus⟩ := hreturns
    exact ⟨made, s', hcalls, hrun.head trivial hlocked, hstatus⟩

/-- **A timed wait is a wait.** What `timedWait` returns, a run of the threads returns: `Wait` of thread `i`,
    and the first calls of the schedule, by thread `j`. -/
theorem timedWait_reaches {giveUpAfter warnAfter : D} {now₁ now₂ : Timespec} {time : Int}
    {calls : List (Int × EventCall)} {r : WaitReturn} {s : Event} (hij : j ≠ i)
    (hi : s.threads i = .outside) (hj : s.threads j = .outside)
    (h : timedWait s.isManualReset giveUpAfter warnAfter now₁ now₂ time s.eventStatus calls = some r) :
    ∃ made s', made <+: calls ∧
      Reaches (eventNoted D) Always (s, []) (s', made.map (fun c => c.2.note j) ++ [.returned i r.result]) ∧
      s'.eventStatus = r.eventStatus := by
  obtain ⟨e, hended, hr⟩ := Option.map_eq_some_iff.mp h
  subst hr
  have hstart : s.step (.wait i giveUpAfter warnAfter now₁ now₂) = _ := if_pos hi
  have hentered := noted_step [] hstart
  obtain ⟨made, s', hcalls, hrun, hstatus⟩ := waitReturns_of_entered (D := D)
    (s := { s with threads := Function.update s.threads i (.entered _ _) }) hij (Function.update_self ..)
    ((Function.update_of_ne hij ..).trans hj) hended
  exact ⟨made, s', ⟨_, hcalls.symm⟩, hrun.head trivial hentered, hstatus⟩

end

/-! ## The durations -/

section
variable {D : Type} [WaitDuration D] {giveUpAfter warnAfter warnAfter' : D} {now₁ now₂ : Timespec} {time : Int}

/-- The readings for the two deadlines, and the time at which `Wait` has the mutex, on a clock that does
    not go back. -/
structure WaitClock (now₁ now₂ : Timespec) (time : Int) : Prop where
  normal₁ : now₁.Normal
  normal₂ : now₂.Normal
  le₁₂ : now₁.nanos ≤ now₂.nanos
  le_time : now₂.nanos ≤ time

/-- At `time`, `giveUpAfter` is over. -/
def Elapsed (giveUpAfter : D) (now : Timespec) (time : Int) : Prop :=
  match value giveUpAfter with
  | .negInf => True
  | .finite ticks => 4 * now.nanos + ticks ≤ 4 * time
  | .posInf => False

theorem Elapsed.mono {now : Timespec} {later : Int} (h : Elapsed giveUpAfter now time) (hle : time ≤ later) :
    Elapsed giveUpAfter now later := by
  unfold Elapsed at h ⊢
  cases hd : value giveUpAfter with
  | negInf => trivial
  | finite ticks =>
    simp only [hd] at h ⊢
    omega
  | posInf =>
    rw [hd] at h
    exact h.elim

/-- No warning comes before giving up, or the nanoseconds of its deadline are not negative. -/
def WarnTimely (giveUpAfter warnAfter : D) (now : Timespec) : Prop :=
  le giveUpAfter warnAfter = true ∨ 0 ≤ now.tvNsec + 1000 * (toInt64Microseconds warnAfter).tmod 1000000

/-- A whole number of microseconds, in an int64. -/
def WholeMicros (d : D) : Prop := ∀ ticks, value d = .finite ticks → ticks % 4000 = 0 ∧ ticks ≤ 4000 * int64Max

theorem giveUpDeadline_of_ne {now : Timespec} {d : D} (hd : value d ≠ .posInf) :
    giveUpDeadline now d = some (getTimespec now d) := by
  rw [giveUpDeadline, eq_eq, value_infiniteDuration]
  exact if_neg (by simpa using hd)

/-- A timely warning has a normalized deadline, not after the one to give up at. -/
theorem warnDeadline_normal (hclock : WaitClock now₁ now₂ time) (htimely : WarnTimely giveUpAfter warnAfter now₁)
    {ts : Timespec} (hts : warnDeadline now₁ giveUpAfter warnAfter = some ts) :
    ts.Normal ∧ ts.nanos ≤ (getTimespec now₂ giveUpAfter).nanos := by
  rw [warnDeadline] at hts
  split at hts
  · cases hts
  · rename_i hlt
    cases hts
    refine ⟨(normal_getTimespec hclock.normal₁).mpr (htimely.resolve_left hlt), ?_⟩
    have hle : le warnAfter giveUpAfter = true := by
      rw [le, Bool.not_eq_true, Bool.not_eq_false', lt_eq] at hlt
      rw [le, Bool.not_eq_true', lt_eq]
      exact Ticks.lt_asymm hlt
    have hmicros := micros_mono hle
    have hnow := hclock.le₁₂
    rw [nanos_getTimespec, nanos_getTimespec]
    omega

/-- Once `giveUpAfter` is over, so is its deadline. -/
theorem deadline_passed (hclock : WaitClock now₁ now₂ time) (helapsed : Elapsed giveUpAfter now₂ time) :
    ∃ g, giveUpDeadline now₂ giveUpAfter = some g ∧ g.nanos ≤ time := by
  have hnow := hclock.le_time
  rw [Elapsed] at helapsed
  split at helapsed
  · rename_i hd
    refine ⟨_, giveUpDeadline_of_ne (by rw [hd]; simp), ?_⟩
    have hmicros : toInt64Microseconds giveUpAfter = int64Min := by rw [toInt64Microseconds_eq, hd]; rfl
    rw [nanos_getTimespec, hmicros, int64Min]
    omega
  · rename_i ticks hd
    refine ⟨_, giveUpDeadline_of_ne (by rw [hd]; simp), ?_⟩
    have hcases := tdiv_cases ticks
    rw [nanos_getTimespec, toInt64Microseconds_eq, hd]
    simp only [Ticks.toInt64, clampInt64, int64Min, int64Max]
    omega
  · exact helapsed.elim

/-- Before it is, the deadline is normalized; and it is exact for whole microseconds only. -/
theorem deadline_ahead (hclock : WaitClock now₁ now₂ time) (hahead : ¬ Elapsed giveUpAfter now₂ time) :
    (∀ g, giveUpDeadline now₂ giveUpAfter = some g → g = getTimespec now₂ giveUpAfter ∧ g.Normal) ∧
    (WholeMicros giveUpAfter ↔
      value giveUpAfter = .posInf ∨ Elapsed giveUpAfter now₂ (getTimespec now₂ giveUpAfter).nanos) := by
  have hnow := hclock.le_time
  cases hd : value giveUpAfter with
  | negInf =>
    rw [Elapsed, hd] at hahead
    exact absurd trivial hahead
  | posInf =>
    rw [giveUpDeadline_eq_none.mpr hd]
    refine ⟨fun g hg => (by cases hg), iff_of_true (fun ticks hticks => ?_) (.inl rfl)⟩
    rw [hd] at hticks
    cases hticks
  | finite ticks =>
    simp only [Elapsed, hd, not_le] at hahead
    have hpos : 0 ≤ ticks := by omega
    have hmicros := micros_finite hd hpos
    rw [giveUpDeadline_of_ne (by rw [hd]; simp)]
    refine ⟨fun g hg => ?_, ?_⟩
    · cases hg
      refine ⟨rfl, normal_of_nonneg hclock.normal₂ ?_⟩
      rw [hmicros, int64Max]
      omega
    · simp only [WholeMicros, Elapsed, hd, nanos_getTimespec, hmicros, int64Max]
      constructor
      · intro hwhole
        have := hwhole ticks rfl
        exact .inr (by omega)
      · intro h ticks' hticks
        cases hticks
        have := h.resolve_left (by simp)
        omega

/-! ## Two warnings -/

variable {isManualReset eventStatus : Bool} {calls : List (Int × EventCall)}

theorem timedWait_set :
    timedWait isManualReset giveUpAfter warnAfter now₁ now₂ time true calls = some ⟨true, isManualReset, time⟩ := by
  have hended : waitCalls (warnDeadline now₁ giveUpAfter warnAfter) (giveUpDeadline now₂ giveUpAfter) time
      true calls = some (.ok, ⟨time, true, calls⟩) := by
    cases warnDeadline now₁ giveUpAfter warnAfter with
    | none => exact lambdaWait_set
    | some ts => rw [waitCalls, lambdaWait_set]; rfl
  rw [timedWait, hended]
  cases isManualReset <;> rfl

theorem timedWait_of_error {error : CondError} {m : Moment} {eventStatus : Bool} (herror : error ≠ .ok)
    (hended : waitCalls (warnDeadline now₁ giveUpAfter warnAfter) (giveUpDeadline now₂ giveUpAfter) time
      eventStatus calls = some (error, m)) :
    timedWait isManualReset giveUpAfter warnAfter now₁ now₂ time eventStatus calls =
      some ⟨false, m.eventStatus, m.time⟩ := by
  rw [timedWait, hended]
  cases error with
  | ok => exact absurd rfl herror
  | timedOut | other => rfl

/-- A wait whose warning has a deadline that is not normalized returns false with the mutex. -/
theorem timedWait_invalid (hnow : now₁.Normal) (htimely : ¬ WarnTimely giveUpAfter warnAfter now₁) :
    timedWait isManualReset giveUpAfter warnAfter now₁ now₂ time false calls = some ⟨false, false, time⟩ := by
  obtain ⟨hwarn, hborrow⟩ := not_or.mp htimely
  have hts : ¬ (getTimespec now₁ warnAfter).Normal := fun h => hborrow ((normal_getTimespec hnow).mp h)
  have hended : waitCalls (warnDeadline now₁ giveUpAfter warnAfter) (giveUpDeadline now₂ giveUpAfter) time
      false calls = some (.other, ⟨time, false, calls⟩) := by
    rw [warnDeadline, if_neg hwarn, waitCalls, lambdaWait_invalid hts]
    rfl
  exact timedWait_of_error (by decide) hended

/-- So does one that is over before it has the mutex. -/
theorem timedWait_over (hclock : WaitClock now₁ now₂ time) (helapsed : Elapsed giveUpAfter now₂ time) :
    timedWait isManualReset giveUpAfter warnAfter now₁ now₂ time false calls = some ⟨false, false, time⟩ := by
  obtain ⟨g, hg, hpassed⟩ := deadline_passed hclock helapsed
  have hgave : ∃ error, error ≠ CondError.ok ∧
      lambdaWait (some g) time false calls = some (error, ⟨time, false, calls⟩) := by
    by_cases hnormal : g.Normal
    · exact ⟨.timedOut, by decide, lambdaWait_passed hnormal hpassed⟩
    · exact ⟨.other, by decide, lambdaWait_invalid hnormal⟩
  obtain ⟨error, herror, hgave⟩ := hgave
  by_cases htimely : WarnTimely giveUpAfter warnAfter now₁
  · refine timedWait_of_error (m := ⟨time, false, calls⟩) herror ?_
    rw [hg]
    cases hts : warnDeadline now₁ giveUpAfter warnAfter with
    | none => exact hgave
    | some ts =>
      obtain ⟨hnormal, hle⟩ := warnDeadline_normal hclock htimely hts
      have hsame : g = getTimespec now₂ giveUpAfter := by
        rw [giveUpDeadline] at hg
        split at hg
        · cases hg
        · exact (Option.some_inj.mp hg).symm
      rw [waitCalls, lambdaWait_passed hnormal (hle.trans (hsame ▸ hpassed))]
      exact hgave
  · exact timedWait_invalid hclock.normal₁ htimely

/-- A timely warning changes nothing. -/
theorem waitCalls_timely (hclock : WaitClock now₁ now₂ time) (hahead : ¬ Elapsed giveUpAfter now₂ time)
    (htimely : WarnTimely giveUpAfter warnAfter now₁) :
    waitCalls (warnDeadline now₁ giveUpAfter warnAfter) (giveUpDeadline now₂ giveUpAfter) time eventStatus
      calls = lambdaWait (giveUpDeadline now₂ giveUpAfter) time eventStatus calls := by
  cases hts : warnDeadline now₁ giveUpAfter warnAfter with
  | none => rfl
  | some ts =>
    obtain ⟨hnormal, hle⟩ := warnDeadline_normal hclock htimely hts
    refine afterWarning_lambdaWait hnormal fun g hg => ?_
    obtain ⟨hsame, hg'⟩ := (deadline_ahead hclock hahead).1 g hg
    exact ⟨hg', hsame ▸ hle⟩

/-- With no calls, a wait that is timely warned returns at its deadline. -/
theorem timedWait_uncalled (hclock : WaitClock now₁ now₂ time) (hahead : ¬ Elapsed giveUpAfter now₂ time)
    (htimely : WarnTimely giveUpAfter warnAfter now₁) (hd : value giveUpAfter ≠ .posInf) :
    timedWait isManualReset giveUpAfter warnAfter now₁ now₂ time false [] =
      some ⟨false, false, max time (getTimespec now₂ giveUpAfter).nanos⟩ := by
  have hsome : giveUpDeadline now₂ giveUpAfter = _ := giveUpDeadline_of_ne hd
  obtain ⟨-, hnormal⟩ := (deadline_ahead hclock hahead).1 _ hsome
  have hended : waitCalls (warnDeadline now₁ giveUpAfter warnAfter) (giveUpDeadline now₂ giveUpAfter) time
      false [] = _ := waitCalls_timely hclock hahead htimely
  rw [hsome, lambdaWait_deadline hnormal (fun c hc => by cases hc), ← hsome] at hended
  exact timedWait_of_error (by decide) hended

/-- If its deadline is exact, it does not return false before. -/
theorem elapsed_of_timedWait (hclock : WaitClock now₁ now₂ time) (hahead : ¬ Elapsed giveUpAfter now₂ time)
    (htimely : WarnTimely giveUpAfter warnAfter now₁) (hwhole : WholeMicros giveUpAfter) {r : WaitReturn}
    (hr : timedWait isManualReset giveUpAfter warnAfter now₁ now₂ time eventStatus calls = some r)
    (hfalse : r.result = false) : Elapsed giveUpAfter now₂ r.time := by
  rw [timedWait, waitCalls_timely hclock hahead htimely, Option.map_eq_some_iff] at hr
  obtain ⟨e, he, hr⟩ := hr
  subst hr
  obtain ⟨g, hg, hle⟩ := nanos_le_of_lambdaWait he (by simpa using hfalse)
  obtain ⟨hsame, hnormal⟩ := (deadline_ahead hclock hahead).1 g hg
  rcases (deadline_ahead hclock hahead).2.mp hwhole with hd | hexact
  · rw [giveUpDeadline_eq_none.mpr hd] at hg
    cases hg
  · exact hexact.mono (hsame ▸ hle hnormal)

/-- The two waits agree, and neither returns false before `giveUpAfter` is over. -/
structure WarnSilent (giveUpAfter warnAfter warnAfter' : D) (now₁ now₂ : Timespec) (time : Int)
    (isManualReset eventStatus : Bool) (calls : List (Int × EventCall)) : Prop where
  agree : (timedWait isManualReset giveUpAfter warnAfter now₁ now₂ time eventStatus calls).map
      (fun r => (r.result, r.eventStatus)) =
    (timedWait isManualReset giveUpAfter warnAfter' now₁ now₂ time eventStatus calls).map
      (fun r => (r.result, r.eventStatus))
  gaveUp : ∀ w ∈ [warnAfter, warnAfter'], ∀ r,
    timedWait isManualReset giveUpAfter w now₁ now₂ time eventStatus calls = some r → r.result = false →
    Elapsed giveUpAfter now₂ r.time

/-- **Silent warnings.** Whatever the event and the schedule of the calls, `Wait` returns the same and leaves
    the same flag under both values of `warnAfter`, and returns false only once `giveUpAfter` is over,
    exactly where that is over before it has the mutex, or neither warning is untimely and
    `giveUpAfter` is exact. -/
theorem warning_never_decides (giveUpAfter warnAfter warnAfter' : D) (hclock : WaitClock now₁ now₂ time) :
    (∀ isManualReset eventStatus calls,
      WarnSilent giveUpAfter warnAfter warnAfter' now₁ now₂ time isManualReset eventStatus calls) ↔
    Elapsed giveUpAfter now₂ time ∨
      WarnTimely giveUpAfter warnAfter now₁ ∧ WarnTimely giveUpAfter warnAfter' now₁ ∧ WholeMicros giveUpAfter := by
  constructor
  · intro hsilent
    by_contra hcon
    obtain ⟨hahead, hcon⟩ := not_or.mp hcon
    have htimely : ∀ w ∈ [warnAfter, warnAfter'], WarnTimely giveUpAfter w now₁ := by
      intro w hw
      by_contra hinvalid
      exact hahead ((hsilent true false []).gaveUp w hw _ (timedWait_invalid hclock.normal₁ hinvalid) rfl)
    refine hcon ⟨htimely _ (by simp), htimely _ (by simp), (deadline_ahead hclock hahead).2.mpr ?_⟩
    by_cases hd : value giveUpAfter = .posInf
    · exact .inl hd
    -- nobody calls `Set`, and `Wait` returns at its deadline
    have helapsed := (hsilent true false []).gaveUp warnAfter (by simp) _
      (timedWait_uncalled hclock hahead (htimely warnAfter (by simp)) hd) rfl
    rcases le_total (getTimespec now₂ giveUpAfter).nanos time with hle | hle
    · rw [max_eq_left hle] at helapsed
      exact absurd helapsed hahead
    · rw [max_eq_right hle] at helapsed
      exact .inr helapsed
  · intro h isManualReset eventStatus calls
    by_cases helapsed : Elapsed giveUpAfter now₂ time
    · cases eventStatus with
      | true =>
        refine ⟨by rw [timedWait_set, timedWait_set], fun w _ r hr hfalse => ?_⟩
        rw [timedWait_set] at hr
        cases hr
        cases hfalse
      | false =>
        refine ⟨by rw [timedWait_over hclock helapsed, timedWait_over hclock helapsed], fun w _ r hr _ => ?_⟩
        rw [timedWait_over hclock helapsed] at hr
        cases hr
        exact helapsed
    · obtain ⟨htimely, htimely', hwhole⟩ := h.resolve_left helapsed
      refine ⟨?_, fun w hw r hr hfalse => ?_⟩
      · rw [timedWait, timedWait, waitCalls_timely hclock helapsed htimely,
          waitCalls_timely hclock helapsed htimely']
      · have hw' : WarnTimely giveUpAfter w now₁ := by
          rcases List.mem_pair.mp hw with heq | heq
          · exact heq ▸ htimely
          · exact heq ▸ htimely'
        exact elapsed_of_timedWait hclock helapsed hw' hwhole hr hfalse

/-- Ten seconds, with a warning after two of them and with none. -/
theorem warning_never_decides_tenSeconds :
    WarnSilent (Ticks.finite 40000000000) (Ticks.finite 8000000000) Ticks.posInf ⟨5, 0⟩ ⟨5, 100⟩ 5000000200
      false false [(12000000000, .set)] := by
  have hclock : WaitClock ⟨5, 0⟩ ⟨5, 100⟩ 5000000200 := ⟨by decide, by decide, by decide, by decide⟩
  have hwhole : WholeMicros (Ticks.finite 40000000000) := by
    intro ticks hticks
    cases hticks
    decide
  exact (warning_never_decides _ _ _ hclock).mpr (.inr ⟨.inr (by decide), .inl rfl, hwhole⟩) false false _

/-- A warning half a second ago makes `Wait` give up at once, where without it a `Set` is seen a second
    later; and less than a microsecond is no wait at all. -/
theorem untimely_warning :
    timedWait false (Ticks.finite 40000000000) (Ticks.finite (-2000000000)) ⟨5, 0⟩ ⟨5, 0⟩ 5000000000 false
      [(6000000000, .set)] = some ⟨false, false, 5000000000⟩ ∧
    timedWait false (Ticks.finite 40000000000) Ticks.posInf ⟨5, 0⟩ ⟨5, 0⟩ 5000000000 false
      [(6000000000, .set)] = some ⟨true, false, 6000000000⟩ ∧
    ¬ Elapsed (Ticks.finite 40000000000) ⟨5, 0⟩ 5000000000 ∧
    timedWait false (Ticks.finite 3) Ticks.posInf ⟨5, 0⟩ ⟨5, 0⟩ 5000000000 false [] =
      some ⟨false, false, 5000000000⟩ ∧
    ¬ Elapsed (Ticks.finite 3) ⟨5, 0⟩ 5000000000 := by
  refine ⟨by decide, by decide, fun h => ?_, by decide, fun h => ?_⟩
  · exact absurd (show 4 * Timespec.nanos ⟨5, 0⟩ + 40000000000 ≤ 4 * 5000000000 from h) (by decide)
  · exact absurd (show 4 * Timespec.nanos ⟨5, 0⟩ + 3 ≤ 4 * 5000000000 from h) (by decide)

end

end IoBase
