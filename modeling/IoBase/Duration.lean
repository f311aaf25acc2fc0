import Mathlib.Algebra.Group.Int.Defs
import Mathlib.Order.Basic
import Mathlib.Order.Lattice
import Mathlib.Order.MinMax

/- What the loop uses of `absl::Duration`, and `EventLoop::ToCmsWait`.

   `absl::Duration` is not part of the repository, so it is a type `D` with the
   operations the loop calls (`AbslDuration`). `Ticks` is one such type, the
   documented representation: a count of quarter nanoseconds in the range absl gives
   it, or one of the two infinities. A result that needs the documented behaviour of
   the operations asks for a `LawfulDuration`, a type whose operations are those of
   the lengths it stands for. -/
namespace IoBase

/-- The operations of `absl::Duration` that the event loop calls. -/
class AbslDuration (D : Type) where
  zeroDuration : D
  infiniteDuration : D
  microseconds : Int → D
  sub : D → D → D
  lt : D → D → Bool
  eq : D → D → Bool
  toInt64Microseconds : D → Int
  toInt64Milliseconds : D → Int

namespace AbslDuration
variable {D : Type} [AbslDuration D]

/-- `a <= b` is `!(b < a)`. -/
def le (a b : D) : Bool := !lt b a

/-- `std::max`: the first argument unless it is the smaller one. -/
def stdMax (a b : D) : D := if lt a b then b else a

end AbslDuration

/-- The `INFINITE` timeout of the Windows waits. -/
def infinite : BitVec 32 := 0xFFFFFFFF

/-- The DWORD the wait is given: `ToCmsWait`'s int64 value narrowed to `int` and read as
    unsigned. -/
def toCmsWait {D : Type} [AbslDuration D] (maxWaitDuration : D) : BitVec 32 :=
  if AbslDuration.eq maxWaitDuration AbslDuration.infiniteDuration then infinite
  else BitVec.ofInt 32 (max 1 (AbslDuration.toInt64Milliseconds maxWaitDuration))

def int64Max : Int := 2 ^ 63 - 1
def int64Min : Int := -2 ^ 63

/-- The nearest int64. -/
def clampInt64 (n : Int) : Int := max int64Min (min int64Max n)

/-! ## The documented representation -/

/-- Quarter nanoseconds in a second. -/
def ticksPerSecond : Int := 4000000000

inductive Ticks where
  | negInf
  | finite (n : Int)
  | posInf
  deriving DecidableEq, Repr

namespace Ticks

/-- A count of quarter nanoseconds, saturating where the seconds leave int64. -/
def ofTicks (n : Int) : Ticks :=
  if n < int64Min * ticksPerSecond then .negInf
  else if n < (int64Max + 1) * ticksPerSecond then .finite n
  else .posInf

def sub : Ticks → Ticks → Ticks
  | .posInf, _ => .posInf
  | .negInf, _ => .negInf
  | .finite _, .posInf => .negInf
  | .finite _, .negInf => .posInf
  | .finite a, .finite b => ofTicks (a - b)

def lt : Ticks → Ticks → Bool
  | .negInf, .negInf => false
  | .negInf, _ => true
  | .finite _, .negInf => false
  | .finite a, .finite b => decide (a < b)
  | .finite _, .posInf => true
  | .posInf, _ => false

/-- Whole units of `unit` ticks, truncated toward zero and saturating. -/
def toInt64 (unit : Int) : Ticks → Int
  | .negInf => int64Min
  | .finite n => clampInt64 (n.tdiv unit)
  | .posInf => int64Max

end Ticks

instance : AbslDuration Ticks where
  zeroDuration := .finite 0
  infiniteDuration := .posInf
  microseconds n := .finite (n * 4000)
  sub := Ticks.sub
  lt := Ticks.lt
  eq a b := decide (a = b)
  toInt64Microseconds := Ticks.toInt64 4000
  toInt64Milliseconds := Ticks.toInt64 4000000

/-! ## Conversions -/

/-- Whole microseconds, truncated toward zero. -/
theorem tdiv_cases (ticks : Int) :
    (0 ≤ ticks.tdiv 4000 ∧ 4000 * ticks.tdiv 4000 ≤ ticks ∧ ticks < 4000 * ticks.tdiv 4000 + 4000) ∨
    (ticks.tdiv 4000 ≤ 0 ∧ ticks ≤ 4000 * ticks.tdiv 4000 ∧ 4000 * ticks.tdiv 4000 - 4000 < ticks) := by
  rcases le_total 0 ticks with hm | hm
  · rw [Int.tdiv_eq_ediv_of_nonneg hm]
    omega
  · obtain ⟨m, rfl⟩ : ∃ m, ticks = -m := ⟨-ticks, by omega⟩
    rw [Int.neg_tdiv, Int.tdiv_eq_ediv_of_nonneg (by omega)]
    omega

/-- A DWORD holds the residue. -/
theorem dword_toNat (n : Int) : ((BitVec.ofInt 32 n).toNat : Int) = n % 2 ^ 32 := by
  rw [BitVec.toNat_ofInt]
  exact Int.toNat_of_nonneg (Int.emod_nonneg n (by decide))

namespace Ticks

/-- A length that is not shorter has no fewer whole units. -/
theorem toInt64_mono {unit : Int} (hunit : 0 < unit) {a b : Ticks} (h : b.lt a = false) :
    a.toInt64 unit ≤ b.toInt64 unit := by
  have hlow := fun n => le_max_left int64Min (min int64Max n)
  have hhigh := fun n => max_le (show int64Min ≤ int64Max by decide) (min_le_left int64Max n)
  cases a with
  | negInf =>
    cases b with
    | negInf => exact le_refl _
    | finite b => exact hlow _
    | posInf => exact (by decide : int64Min ≤ int64Max)
  | posInf =>
    cases b with
    | posInf => exact le_refl _
    | negInf | finite b => cases h
  | finite a =>
    cases b with
    | negInf => cases h
    | posInf => exact hhigh _
    | finite b =>
      have htdiv := Int.tdiv_le_tdiv hunit (not_lt.mp (of_decide_eq_false h))
      exact max_le_max (le_refl _) (min_le_min (le_refl _) htdiv)

theorem toInt64_of_nonneg {unit ticks : Int} (hunit : 0 < unit) (h : 0 ≤ ticks) :
    (finite ticks).toInt64 unit = min int64Max (ticks / unit) := by
  have hmin : int64Min ≤ 0 := by decide
  have hmax : 0 ≤ int64Max := by decide
  have hdiv := Int.ediv_nonneg h (le_of_lt hunit)
  rw [toInt64, clampInt64, Int.tdiv_eq_ediv_of_nonneg h]
  exact max_eq_right (hmin.trans (le_min hmax hdiv))

theorem lt_asymm {a b : Ticks} (h : a.lt b = true) : b.lt a = false := by
  cases a with
  | negInf => cases b <;> rfl
  | posInf => cases b <;> cases h
  | finite a =>
    cases b with
    | negInf => cases h
    | posInf => rfl
    | finite b => exact decide_eq_false (not_lt.mpr (le_of_lt (of_decide_eq_true h)))

/-- The saturation keeps the order. -/
theorem ofTicks_mono {a b : Int} (h : a ≤ b) : (ofTicks b).lt (ofTicks a) = false := by
  rcases lt_or_ge a (int64Min * ticksPerSecond) with hlow | hlow
  · have hinf : ofTicks a = .negInf := if_pos hlow
    rw [hinf]
    cases ofTicks b <;> rfl
  · rcases lt_or_ge b ((int64Max + 1) * ticksPerSecond) with hhigh | hhigh
    · have ha : ofTicks a = .finite a := by
        rw [ofTicks, if_neg (by omega), if_pos (by omega)]
      have hb : ofTicks b = .finite b := by
        rw [ofTicks, if_neg (by omega), if_pos hhigh]
      rw [ha, hb]
      exact decide_eq_false (not_lt.mpr h)
    · have hb : ofTicks b = .posInf := by
        rw [ofTicks, if_neg (by omega), if_neg (by omega)]
      rw [hb]
      rfl

theorem sub_mono {a b : Ticks} (h : b.lt a = false) (c : Ticks) : (b.sub c).lt (a.sub c) = false := by
  cases a with
  | negInf => cases hb : b.sub c <;> rfl
  | posInf =>
    cases b with
    | posInf => rfl
    | negInf | finite b => cases h
  | finite a =>
    cases b with
    | negInf => cases h
    | posInf => rfl
    | finite b =>
      have hle : a ≤ b := not_lt.mp (of_decide_eq_false h)
      cases c with
      | negInf | posInf => rfl
      | finite c => exact ofTicks_mono (by omega)

end Ticks

/-! ## The documented behaviour -/

/-- A duration type whose operations are what `absl/time` documents. `value` is the length a duration
    stands for; `Microseconds` takes an int64. -/
class LawfulDuration (D : Type) extends AbslDuration D where
  value : D → Ticks
  value_zeroDuration : value zeroDuration = .finite 0
  value_infiniteDuration : value infiniteDuration = .posInf
  value_microseconds : ∀ n, int64Min ≤ n → n ≤ int64Max → value (microseconds n) = .finite (n * 4000)
  value_sub : ∀ a b, value (sub a b) = (value a).sub (value b)
  lt_eq : ∀ a b, lt a b = (value a).lt (value b)
  toInt64Microseconds_eq : ∀ d, toInt64Microseconds d = (value d).toInt64 4000
  toInt64Milliseconds_eq : ∀ d, toInt64Milliseconds d = (value d).toInt64 4000000

instance : LawfulDuration Ticks where
  toAbslDuration := inferInstance
  value := id
  value_zeroDuration := rfl
  value_infiniteDuration := rfl
  value_microseconds _ _ _ := rfl
  value_sub _ _ := rfl
  lt_eq _ _ := rfl
  toInt64Microseconds_eq _ := rfl
  toInt64Milliseconds_eq _ := rfl

section
variable {D : Type} [LawfulDuration D] {d d' : D}
open AbslDuration LawfulDuration

theorem millis_mono (h : le d' d = true) : toInt64Milliseconds d' ≤ toInt64Milliseconds d := by
  rw [le, Bool.not_eq_true', lt_eq] at h
  rw [toInt64Milliseconds_eq, toInt64Milliseconds_eq]
  exact Ticks.toInt64_mono (by decide) h

theorem micros_mono (h : le d' d = true) : toInt64Microseconds d' ≤ toInt64Microseconds d := by
  rw [le, Bool.not_eq_true', lt_eq] at h
  rw [toInt64Microseconds_eq, toInt64Microseconds_eq]
  exact Ticks.toInt64_mono (by decide) h

theorem sub_mono (h : le d' d = true) (e : D) : le (sub d' e) (sub d e) = true := by
  rw [le, Bool.not_eq_true', lt_eq] at h ⊢
  rw [value_sub, value_sub]
  exact Ticks.sub_mono h _

end

/-- With the tests by which the waits tell an infinite duration: `==` and `IsInfiniteDuration`. -/
class WaitDuration (D : Type) extends LawfulDuration D where
  isInfiniteDuration : D → Bool
  isInfiniteDuration_eq : ∀ d, isInfiniteDuration d = decide (value d = .posInf ∨ value d = .negInf)
  eq_eq : ∀ a b, eq a b = decide (value a = value b)

instance : WaitDuration Ticks where
  toLawfulDuration := inferInstance
  isInfiniteDuration d := decide (d = .posInf ∨ d = .negInf)
  isInfiniteDuration_eq _ := rfl
  eq_eq _ _ := rfl

end IoBase
