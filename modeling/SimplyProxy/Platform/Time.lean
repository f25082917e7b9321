import Mathlib.Order.Basic
import Mathlib.Order.Defs.LinearOrder
import Mathlib.Tactic.Linarith
import Mathlib.Algebra.Order.Ring.Int

/-!
# Clock readings and durations

`Duration` and `Instant` as the Rust standard library has them on Unix: whole
seconds (unsigned and signed 64-bit) and nanoseconds below one second. All
statements about time go through `Instant.ns` and `Duration.ns`, the total
number of nanoseconds.

The one partial operation is `Instant.checkedSub`: `Instant - Duration` panics
exactly where it gives `none`.
-/

namespace SimplyProxy

structure Duration where
  secs : UInt64
  nanos : Nat
  nanos_lt : nanos < 1_000_000_000
deriving DecidableEq

structure Instant where
  secs : Int
  nanos : Nat
  secs_ge : -2 ^ 63 ≤ secs
  secs_lt : secs < 2 ^ 63
  nanos_lt : nanos < 1_000_000_000
deriving DecidableEq

namespace Duration

def fromSecs (secs : UInt64) : Duration := ⟨secs, 0, by decide⟩

def asSecs (d : Duration) : UInt64 := d.secs

/-- The duration in nanoseconds. -/
def ns (d : Duration) : Int := d.secs.toNat * 1_000_000_000 + d.nanos

theorem ns_nonneg (d : Duration) : 0 ≤ d.ns := by
  unfold ns
  positivity

@[simp] theorem fromSecs_ns (secs : UInt64) : (fromSecs secs).ns = secs.toNat * 1_000_000_000 :=
  add_zero _

end Duration

namespace Instant

/-- The reading in nanoseconds from the clock's origin. -/
def ns (t : Instant) : Int := t.secs * 1_000_000_000 + t.nanos

theorem ns_injective : Function.Injective ns := by
  intro a b h
  have ha := a.nanos_lt
  have hb := b.nanos_lt
  simp only [ns] at h
  have secs : a.secs = b.secs := by omega
  have nanos : a.nanos = b.nanos := by omega
  cases a
  cases b
  simp_all

/-- Readings are ordered by seconds, then nanoseconds, which is the order of `ns`. -/
instance : LinearOrder Instant := LinearOrder.lift' ns ns_injective

theorem le_iff_ns {a b : Instant} : a ≤ b ↔ a.ns ≤ b.ns := Iff.rfl

theorem lt_iff_ns {a b : Instant} : a < b ↔ a.ns < b.ns := Iff.rfl

/-- The reading of the given whole second. -/
def ofSecs (secs : Int) (h : -2 ^ 63 ≤ secs ∧ secs < 2 ^ 63) : Instant :=
  ⟨secs, 0, h.1, h.2, by decide⟩

@[simp] theorem ofSecs_ns (secs : Int) (h : -2 ^ 63 ≤ secs ∧ secs < 2 ^ 63) :
    (ofSecs secs h).ns = secs * 1_000_000_000 :=
  add_zero _

/-- Nanoseconds of `Instant - Duration`: one second is borrowed when they underflow. -/
def subNanos (t : Instant) (d : Duration) : Nat :=
  if t.nanos < d.nanos then t.nanos + 1_000_000_000 - d.nanos else t.nanos - d.nanos

/-- Seconds of `Instant - Duration`, before the range check. -/
def subSecs (t : Instant) (d : Duration) : Int :=
  if t.nanos < d.nanos then t.secs - d.secs.toNat - 1 else t.secs - d.secs.toNat

theorem subNanos_lt (t : Instant) (d : Duration) : subNanos t d < 1_000_000_000 := by
  have := t.nanos_lt
  have := d.nanos_lt
  unfold subNanos
  split <;> omega

theorem sub_ns (t : Instant) (d : Duration) :
    subSecs t d * 1_000_000_000 + subNanos t d = t.ns - d.ns := by
  have := d.nanos_lt
  unfold subSecs subNanos ns Duration.ns
  split <;> omega

/-- `Instant - Duration`; `none` where the seconds leave the signed 64-bit range. -/
def checkedSub (t : Instant) (d : Duration) : Option Instant :=
  if h : -2 ^ 63 ≤ subSecs t d ∧ subSecs t d < 2 ^ 63 then
    some ⟨subSecs t d, subNanos t d, h.1, h.2, subNanos_lt t d⟩
  else none

theorem checkedSub_ns {t c : Instant} {d : Duration} (h : t.checkedSub d = some c) :
    c.ns = t.ns - d.ns := by
  unfold checkedSub at h
  split at h
  · obtain rfl := Option.some.inj h
    exact sub_ns t d
  · cases h

/-- The subtraction succeeds exactly when its result does not lie before the
earliest instant. -/
theorem checkedSub_isSome_iff {t : Instant} {d : Duration} :
    (t.checkedSub d).isSome ↔ -2 ^ 63 * 1_000_000_000 ≤ t.ns - d.ns := by
  have lower : -2 ^ 63 ≤ subSecs t d ↔ -2 ^ 63 * 1_000_000_000 ≤ t.ns - d.ns := by
    have := sub_ns t d
    have := subNanos_lt t d
    omega
  have upper : subSecs t d < 2 ^ 63 := by
    have := t.secs_lt
    unfold subSecs
    split <;> omega
  rw [← lower]
  unfold checkedSub
  split
  · next inRange =>
    simp only [Option.isSome_some, true_iff]
    exact inRange.1
  · next outOfRange =>
    simp only [Option.isSome_none, Bool.false_eq_true, false_iff]
    exact fun ge => outOfRange ⟨ge, upper⟩

/-- The same for a duration of whole seconds. -/
theorem checkedSub_fromSecs_isSome_iff {t : Instant} {secs : UInt64} :
    (t.checkedSub (.fromSecs secs)).isSome ↔ (secs.toNat : ℤ) ≤ t.secs + 2 ^ 63 := by
  have nanos := t.nanos_lt
  rw [checkedSub_isSome_iff, Duration.fromSecs_ns, ns]
  omega

end Instant

end SimplyProxy
