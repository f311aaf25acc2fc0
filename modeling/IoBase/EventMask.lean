import Mathlib.Data.BitVec

/- The three encodings of a socket's events: the loop's own `EventMask`, the
   `POLL*` bits `GetPollMask` and `GetEventMask` speak, and the `FD_*` bits of
   `WSAEventSelect` and `WSAEnumNetworkEvents`. The values of the last two are
   winsock2.h's. -/
namespace IoBase

/-- A bitmask indicating a set of I/O events. -/
abbrev EventMask := BitVec 8

def kEventReadable : EventMask := 0x01
def kEventWritable : EventMask := 0x02
def kEventError : EventMask := 0x04

def pollIn : BitVec 32 := 0x300
def pollOut : BitVec 32 := 0x10
def pollErr : BitVec 32 := 0x01
def pollHup : BitVec 32 := 0x02

/-- The `long` masks of Winsock's network events. -/
abbrev NetMask := BitVec 32

def fdRead : NetMask := 0x01
def fdWrite : NetMask := 0x02
def fdAccept : NetMask := 0x08
def fdConnect : NetMask := 0x10
def fdClose : NetMask := 0x20

/-! ## Masks -/

/-- A C condition `mask & bits`. -/
def meets {w : Nat} (mask bits : BitVec w) : Bool := mask &&& bits != 0

theorem meets_eq_false {w : Nat} {mask bits : BitVec w} : meets mask bits = false ↔ mask &&& bits = 0 := by
  simp [meets]

theorem meets_or {w : Nat} {a b bits : BitVec w} :
    meets (a ||| b) bits = false ↔ meets a bits = false ∧ meets b bits = false := by
  simp only [meets_eq_false, BitVec.and_or_distrib_right]
  exact BitVec.or_eq_zero_iff

theorem meets_and {w : Nat} {a b bits : BitVec w} (h : meets a bits = false) :
    meets (a &&& b) bits = false := by
  rw [meets_eq_false] at h ⊢
  rw [BitVec.and_assoc, BitVec.and_comm b, ← BitVec.and_assoc, h]
  exact BitVec.zero_and

theorem meets_bits {w : Nat} {mask a b : BitVec w} :
    meets mask (a ||| b) = true ↔ meets mask a = true ∨ meets mask b = true := by
  have hfalse : meets mask (a ||| b) = false ↔ meets mask a = false ∧ meets mask b = false := by
    simp only [meets_eq_false, BitVec.and_or_distrib_left]
    exact BitVec.or_eq_zero_iff
  rw [← Bool.not_eq_false, hfalse]
  simp only [not_and_or, Bool.not_eq_false]

theorem or_meets {w : Nat} {a b bits : BitVec w} :
    meets (a ||| b) bits = true ↔ meets a bits = true ∨ meets b bits = true := by
  rw [← Bool.not_eq_false, meets_or]
  simp only [not_and_or, Bool.not_eq_false]

/-- `a` has no bit that `b` lacks. -/
def Within {w : Nat} (a b : BitVec w) : Prop := a &&& b = a

instance {w : Nat} (a b : BitVec w) : Decidable (Within a b) := inferInstanceAs (Decidable (_ = _))

namespace Within
variable {w : Nat} {a b c d : BitVec w}

theorem trans (hab : Within a b) (hbc : Within b c) : Within a c := by
  unfold Within at *
  rw [← hab, BitVec.and_assoc, hbc]

theorem ne_zero (h : Within a b) (ha : a ≠ 0) : b ≠ 0 := by
  intro he
  subst he
  exact ha (h.symm.trans BitVec.and_zero)

theorem meets {bits : BitVec w} (h : Within a b) (ha : meets a bits = true) : meets b bits = true := by
  by_contra hb
  rw [Bool.not_eq_true, meets_eq_false] at hb
  have hzero : a &&& bits = 0 := by
    rw [← h, BitVec.and_assoc, hb]
    exact BitVec.and_zero
  rw [← meets_eq_false, ha] at hzero
  cases hzero

theorem and (hb : Within a b) (hc : Within a c) : Within a (b &&& c) := by
  unfold Within at *
  rw [← BitVec.and_assoc, hb, hc]

/-- What is masked with `b` is within it. -/
theorem and_right : Within (a &&& b) b := by
  unfold Within
  rw [BitVec.and_assoc, BitVec.and_self]

theorem or (h : Within a b) (h' : Within c d) : Within (a ||| c) (b ||| d) := by
  unfold Within at *
  ext i hi
  have hi₁ := congrArg (fun x => x.getLsbD i) h
  have hi₂ := congrArg (fun x => x.getLsbD i) h'
  simp only [BitVec.getLsbD_and] at hi₁ hi₂
  simp only [← BitVec.getLsbD_eq_getElem, BitVec.getLsbD_and, BitVec.getLsbD_or]
  grind

theorem zero : Within 0 a := BitVec.zero_and

theorem refl : Within a a := BitVec.and_self

/-- A mask within one of two is within what they make together. -/
theorem or_left (h : Within a b) : Within a (b ||| c) := by
  simpa using h.or (zero (a := c))

theorem or_right (h : Within a c) : Within a (b ||| c) := by
  simpa using (zero (a := b)).or h

/-- Adding a mask changes nothing exactly if it is there. -/
theorem or_eq_iff : b ||| a = b ↔ Within a b := by
  unfold Within
  constructor
  · intro h
    rw [← h]
    ext i hi
    rw [BitVec.getElem_and, BitVec.getElem_or]
    cases a[i] <;> simp
  · intro h
    rw [← h]
    ext i hi
    rw [BitVec.getElem_or, BitVec.getElem_and]
    cases b[i] <;> simp

theorem setWidth {v : Nat} (h : Within a b) : Within (a.setWidth v) (b.setWidth v) := by
  unfold Within at *
  rw [← BitVec.setWidth_and, h]

theorem signExtend {v : Nat} (h : Within a b) : Within (a.signExtend v) (b.signExtend v) := by
  unfold Within at *
  rw [← BitVec.signExtend_and, h]

/-- A conditional bit, under a weaker condition. -/
theorem ite {p q : Bool} {bits : BitVec w} (h : p = true → q = true) :
    Within (if p then bits else 0) (if q then bits else 0) := by
  cases p with
  | false => exact zero
  | true => rw [h rfl]; exact refl

end Within

/-! ## The translations -/

def getPollMask (eventMask : EventMask) : BitVec 32 :=
  (if meets eventMask kEventReadable then pollIn else 0) |||
  (if meets eventMask kEventWritable then pollOut else 0) |||
  (if meets eventMask kEventError then pollErr else 0)

def getEventMask (pollMask : BitVec 32) : EventMask :=
  (if meets pollMask pollIn then kEventReadable else 0) |||
  (if meets pollMask pollOut then kEventWritable else 0) |||
  (if meets pollMask pollErr then kEventError else 0)

theorem getPollMask_mono {a b : EventMask} (h : Within a b) : Within (getPollMask a) (getPollMask b) :=
  ((Within.ite h.meets).or (Within.ite h.meets)).or (Within.ite h.meets)

theorem getEventMask_mono {a b : BitVec 32} (h : Within a b) : Within (getEventMask a) (getEventMask b) :=
  ((Within.ite h.meets).or (Within.ite h.meets)).or (Within.ite h.meets)

/-- The kinds of events there are. -/
def allEvents : EventMask := kEventReadable ||| kEventWritable ||| kEventError

/-- A listener gets no other bits than these. -/
theorem getEventMask_within (pollMask : BitVec 32) : Within (getEventMask pollMask) allEvents :=
  ((Within.ite (q := true) fun _ => rfl).or (Within.ite (q := true) fun _ => rfl)).or
    (Within.ite (q := true) fun _ => rfl)

/-- Through `POLL*` bits and back, cut to a `short` on the way as `revents` is. -/
theorem getEventMask_getPollMask : ∀ events : EventMask, Within events allEvents →
    getEventMask (((getPollMask events).setWidth 16).signExtend 32) = events := by
  unfold EventMask
  decide +kernel

/-- Back through `POLL*` bits comes no event that was not there. -/
theorem getEventMask_getPollMask_within : ∀ events : EventMask,
    Within (getEventMask (((getPollMask events).setWidth 16).signExtend 32)) events := by
  unfold EventMask
  decide +kernel

/-- Events that are in `revents` and armed for come through. -/
theorem within_dispatched {events armed : EventMask} {revents : BitVec 16} (hne : events ≠ 0)
    (hkinds : Within events allEvents) (hrevents : Within ((getPollMask events).setWidth 16) revents)
    (harmed : Within events armed) :
    revents &&& (getPollMask armed).setWidth 16 ≠ 0 ∧
      Within events (getEventMask ((revents &&& (getPollMask armed).setWidth 16).signExtend 32)) := by
  have hback := getEventMask_getPollMask events hkinds
  have hmask := hrevents.and (getPollMask_mono harmed).setWidth
  constructor
  · refine hmask.ne_zero fun h0 => ?_
    rw [h0] at hback
    exact hne (hback.symm.trans (by decide))
  · have hmono := getEventMask_mono (hmask.signExtend (v := 32))
    rwa [hback] at hmono

/-- The `POLL*` bits that stand for an event. -/
def pollEvents : BitVec 32 := pollIn ||| pollOut ||| pollErr

theorem getPollMask_within (eventMask : EventMask) : Within (getPollMask eventMask) pollEvents :=
  ((Within.ite (q := true) fun _ => rfl).or (Within.ite (q := true) fun _ => rfl)).or
    (Within.ite (q := true) fun _ => rfl)

theorem getEventMask_eq_zero {pollMask : BitVec 32} (h : getEventMask pollMask = 0) :
    pollMask &&& pollEvents = 0 := by
  have hbit : ∀ {p : Bool} {bit : EventMask}, bit ≠ 0 → (if p then bit else 0) = 0 → p = false := by
    intro p bit hbit hp
    cases p with
    | false => rfl
    | true => exact absurd hp hbit
  unfold getEventMask at h
  obtain ⟨h', herr⟩ := BitVec.or_eq_zero_iff.mp h
  obtain ⟨hin, hout⟩ := BitVec.or_eq_zero_iff.mp h'
  unfold pollEvents
  rw [BitVec.and_or_distrib_left, BitVec.and_or_distrib_left,
    meets_eq_false.mp (hbit (by decide) hin), meets_eq_false.mp (hbit (by decide) hout),
    meets_eq_false.mp (hbit (by decide) herr)]
  rfl

/-- Some bit of a mask of `POLL*` bits, cut to a `short`, comes out as an event. -/
theorem getEventMask_ne_zero {mask : BitVec 16} (hne : mask ≠ 0) (h : Within mask (pollEvents.setWidth 16)) :
    getEventMask (mask.signExtend 32) ≠ 0 := by
  intro h0
  have hwithin : Within (mask.signExtend 32) pollEvents := h.signExtend (v := 32)
  have hzero : mask.signExtend 32 = 0 := by
    rw [← hwithin]
    exact getEventMask_eq_zero h0
  refine hne (BitVec.eq_of_getLsbD_eq fun i hi => ?_)
  have hbit := congrArg (fun x => x.getLsbD i) hzero
  rw [BitVec.getLsbD_signExtend, if_pos hi, decide_eq_true (show i < 32 by omega), Bool.true_and] at hbit
  exact hbit.trans (by simp)

/-- `WSANETWORKEVENTS`: the recorded events, and `iErrorCode[FD_CONNECT_BIT]`. -/
structure NetworkEvents where
  lNetworkEvents : NetMask
  connectError : Int
  deriving DecidableEq, Repr

/-- The record of a socket nothing has happened on. -/
def NetworkEvents.none : NetworkEvents := ⟨0, 0⟩

/-- The `short revents` that `ProcessSocketEvents` makes of one socket's record. -/
def toRevents (networkEvents : NetworkEvents) : BitVec 16 :=
  let events := networkEvents.lNetworkEvents
  (if meets events fdRead then pollIn.setWidth 16 else 0) |||
  (if meets events fdWrite then pollOut.setWidth 16 else 0) |||
  (if meets events fdClose then pollHup.setWidth 16 else 0) |||
  (if meets events fdAccept then pollIn.setWidth 16 else 0) |||
  (if meets events fdConnect then
    pollOut.setWidth 16 ||| (if networkEvents.connectError ≠ 0 then pollErr.setWidth 16 else 0)
  else 0)

end IoBase
