import IoBase.EventMask
import IoBase.OsTimeout

/- What the waits of `EvenLoop` share, in `event_loop_temp.cc`: the clock of
   `time_utils.cc`, the timeout in milliseconds, and the events of a dispatcher.

   The clock is the reading of `TimeNanos`, and every other unit is that reading
   truncated. Where the waits compute in `int`, the result wraps around. They tell a
   dispatcher of `DispatcherEvent` bits, which they make of what the system reports.

   Correspondence (C++ ↔ Lean):
     `Time`, `TimeMillis`, `TimeMicros`      ↔ `timeMillis`, `timeMicros`
     `TimeAfter`, `TimeSince`, `TimeDiff`    ↔ `timeAfter`, `timeSince`, `timeDiff`
     `EvenLoop::ToCmsWait`                   ↔ `EvenLoop.toCmsWait`
     `FlagsToEvents`                         ↔ `flagsToEvents`
     `ProcessEvents`, the arguments of `OnEvent` ↔ `processEvents`
     the same in the Windows `Wait`          ↔ `enumeratedEvents` -/
namespace IoBase
open AbslDuration

/-! ## The arithmetic of `int` -/

def int32Max : Int := 2 ^ 31 - 1
def int32Min : Int := -2 ^ 31

def FitsInt32 (n : Int) : Prop := int32Min ≤ n ∧ n ≤ int32Max

instance (n : Int) : Decidable (FitsInt32 n) := inferInstanceAs (Decidable (_ ∧ _))

/-- The `int` that a product leaves when it wraps around, modulo 2^32. -/
def wrapInt32 (n : Int) : Int := Int.bmod n 4294967296

theorem wrapInt32_of_fits {n : Int} (h : FitsInt32 n) : wrapInt32 n = n := by
  obtain ⟨hmin, hmax⟩ := h
  simp only [wrapInt32, Int.bmod, int32Min, int32Max] at *
  omega

theorem wrapInt32_le (n : Int) : wrapInt32 n ≤ int32Max := by
  simp only [wrapInt32, Int.bmod, int32Max]
  omega

/-! ## The clock -/

def kNumMillisecsPerSec : Int := 1000
def kNumNanosecsPerMillisec : Int := kNumNanosecsPerSec / kNumMillisecsPerSec

def timeMillis (nanos : Int) : Int := nanos.tdiv kNumNanosecsPerMillisec

def timeMicros (nanos : Int) : Int := nanos.tdiv kNumNanosecsPerMicrosec

/-- A future timestamp, `elapsed` milliseconds from now. -/
def timeAfter (nanos elapsed : Int) : Int := timeMillis nanos + elapsed

def timeSince (nanos earlier : Int) : Int := timeMillis nanos - earlier

def timeDiff (later earlier : Int) : Int := later - earlier

theorem timeMillis_mono {a b : Int} (h : a ≤ b) : timeMillis a ≤ timeMillis b :=
  Int.tdiv_le_tdiv (by decide) h

/-- A whole number of milliseconds is no more on the clock than it is. -/
theorem timeMillis_le_add {a b ms : Int} (hms : 0 ≤ ms) (h : b ≤ a + 1000000 * ms) :
    timeMillis b ≤ timeMillis a + ms := by
  have hunit : kNumNanosecsPerMillisec = 1000000 := by decide
  obtain ⟨ha, hlow, hhigh, hsign⟩ := split_micros a
  obtain ⟨hb, hlow', hhigh', hsign'⟩ := split_micros b
  rw [timeMillis, timeMillis, hunit]
  omega

/-- The clock loses less than a millisecond. -/
theorem sub_lt_timeMillis {a b : Int} (ha : 0 ≤ a) :
    b - a < 1000000 * (timeMillis b - timeMillis a + 1) := by
  have hunit : kNumNanosecsPerMillisec = 1000000 := by decide
  obtain ⟨hsplit, hlow, hhigh, hsign⟩ := split_micros a
  obtain ⟨hsplit', hlow', hhigh', hsign'⟩ := split_micros b
  rw [timeMillis, timeMillis, hunit]
  omega

/-! ## The timeout -/

namespace EvenLoop

/-- A local historical definition of "foreverness", in milliseconds. -/
def kForeverMs : Int := -1

/-- `ToCmsWait`, an `int`, which the int64 of the milliseconds is narrowed to. -/
def toCmsWait {D : Type} [AbslDuration D] (maxWaitDuration : D) : Int :=
  if eq maxWaitDuration infiniteDuration then kForeverMs
  else (BitVec.ofInt 32 (max 1 (toInt64Milliseconds maxWaitDuration))).toInt

/-- The DWORD of `EventLoop::ToCmsWait` is this `int`. -/
theorem toCmsWait_eq {D : Type} [AbslDuration D] (d : D) : toCmsWait d = (IoBase.toCmsWait d).toInt := by
  rw [toCmsWait, IoBase.toCmsWait]
  split
  · decide
  · rfl

theorem toCmsWait_lt {D : Type} [AbslDuration D] (d : D) : toCmsWait d < 2 ^ 31 := by
  have hlt := BitVec.toInt_lt (x := IoBase.toCmsWait d)
  rw [toCmsWait_eq]
  simpa using hlt

end EvenLoop

/-! ## The events -/

def deRead : BitVec 32 := 0x01
def deWrite : BitVec 32 := 0x02
def deConnect : BitVec 32 := 0x04
def deClose : BitVec 32 := 0x08
def deAccept : BitVec 32 := 0x10

/-- What `WSAEventSelect` is asked for. -/
def flagsToEvents (events : BitVec 32) : NetMask :=
  fdClose |||
  (if meets events deRead then fdRead else 0) |||
  (if meets events deWrite then fdWrite else 0) |||
  (if meets events deConnect then fdConnect else 0) |||
  (if meets events deAccept then fdAccept else 0)

/-- `WSANETWORKEVENTS` with its `iErrorCode[FD_CLOSE_BIT]`. -/
structure CloseEvents extends NetworkEvents where
  closeError : Int
  deriving DecidableEq, Repr

/-- The `ff` and `errcode` of one socket's record. -/
def enumeratedEvents (wsaEvents : CloseEvents) : BitVec 32 × Int :=
  let events := wsaEvents.lNetworkEvents
  let refused := meets events fdConnect && wsaEvents.connectError != 0
  ((if meets events fdRead then deRead else 0) |||
    (if meets events fdWrite then deWrite else 0) |||
    (if meets events fdConnect && !refused then deConnect else 0) |||
    (if meets events fdAccept then deAccept else 0) |||
    (if refused || meets events fdClose then deClose else 0),
   if meets events fdClose then wsaEvents.closeError
   else if refused then wsaEvents.connectError else 0)

/-- What `getsockopt` says of `SO_ERROR`; a failure is `ENOTSOCK` or another. -/
inductive SoError where
  | value (errcode : Int)
  | failed (notSock : Bool)
  deriving DecidableEq, Repr

def ebadf : Int := 9

/-- The `errcode` that `ProcessEvents` starts from. -/
def soErrorCode (errorEvent checkError : Bool) (res : SoError) : Int :=
  if checkError then
    match res with
    | .value errcode => errcode
    | .failed notSock => if errorEvent || !notSock then ebadf else 0
  else 0

/-- The `ff` and `errcode` of `ProcessEvents`, for a dispatcher with these `GetRequestedEvents` and
    `IsDescriptorClosed`. -/
def processEvents (requestedEvents : BitVec 32) (closed readable writable errorEvent checkError : Bool)
    (res : SoError) : BitVec 32 × Int :=
  let errcode := soErrorCode errorEvent checkError res
  let read :=
    if readable then
      if errcode != 0 || closed then deClose
      else if meets requestedEvents deAccept then deAccept
      else deRead
    else 0
  let write :=
    if writable then
      if meets requestedEvents deConnect then
        if errcode == 0 then deConnect else 0
      else deWrite
    else 0
  let close := if errcode != 0 then deClose else 0
  (read ||| write ||| close, errcode)

/-- A readable descriptor is told of: `OnEvent` is called. -/
theorem processEvents_of_readable (requestedEvents : BitVec 32)
    (closed writable errorEvent checkError : Bool) (res : SoError) :
    (processEvents requestedEvents closed true writable errorEvent checkError res).1 ≠ 0 := by
  have hbits : ∀ a b c : BitVec 32, a ≠ 0 → a ||| b ||| c ≠ 0 := by
    intro a b c ha h
    exact ha (BitVec.or_eq_zero_iff.mp (BitVec.or_eq_zero_iff.mp h).1).1
  refine hbits _ _ _ ?_
  rw [if_pos rfl]
  split
  · decide
  · split <;> decide

theorem processEvents_ne_zero {requestedEvents : BitVec 32} {closed writable errorEvent checkError : Bool}
    {res : SoError} {ff : BitVec 32} {err : Int}
    (h : processEvents requestedEvents closed true writable errorEvent checkError res = (ff, err)) : ff ≠ 0 := by
  have hne := processEvents_of_readable requestedEvents closed writable errorEvent checkError res
  rwa [h] at hne

/-- Of reading only a readable descriptor is told, of writing only a writable one, and of an error always
    as a close. -/
theorem processEvents_told {requestedEvents : BitVec 32} {closed readable writable errorEvent checkError : Bool}
    {res : SoError} {ff : BitVec 32} {err : Int}
    (h : processEvents requestedEvents closed readable writable errorEvent checkError res = (ff, err)) :
    (meets ff (deRead ||| deAccept) = true → readable = true) ∧
    (meets ff (deWrite ||| deConnect) = true → writable = true) ∧
    (err ≠ 0 → checkError = true ∧ meets ff deClose = true) := by
  have hbits : ∀ {a b c bits : BitVec 32}, meets (a ||| b ||| c) bits = true →
      meets a bits = true ∨ meets b bits = true ∨ meets c bits = true := by
    intro a b c bits hmeets
    rw [or_meets, or_meets, or_assoc] at hmeets
    exact hmeets
  cases h
  refine ⟨fun hread => ?_, fun hwrite => ?_, fun herr => ⟨?_, ?_⟩⟩
  · by_contra hnot
    obtain h | h | h := hbits hread
    · rw [if_neg hnot] at h
      cases h
    · revert h
      split
      · split
        · split <;> decide
        · decide
      · decide
    · revert h
      split <;> decide
  · by_contra hnot
    obtain h | h | h := hbits hwrite
    · revert h
      split
      · split
        · decide
        · split <;> decide
      · decide
    · rw [if_neg hnot] at h
      cases h
    · revert h
      split <;> decide
  · by_contra hnot
    exact herr (if_neg hnot)
  · have hclose : (if soErrorCode errorEvent checkError res != 0 then deClose else 0) = deClose :=
      if_pos (bne_iff_ne.mpr herr)
    rw [hclose]
    exact or_meets.mpr (.inr (by decide))

end IoBase
