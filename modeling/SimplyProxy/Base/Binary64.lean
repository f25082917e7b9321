import Mathlib.Algebra.Order.Field.Power
import Mathlib.Data.Nat.Log
import Mathlib.Data.Rat.Cast.Order
import Mathlib.Tactic.FieldSimp
import Mathlib.Tactic.Linarith
import Mathlib.Tactic.Positivity
import Mathlib.Tactic.Ring

/-!
# Finite doubles

The finite numbers of IEEE 754 binary64 with their exact rational values, and
the one nearest to a given fraction, ties to the even mantissa.

`nearest_isNearest`: what `nearest` computes is nearest among all finite doubles.
The argument is about grids. Doubles with exponent `e` and larger ones lie on the
multiples of `2 ^ e`, where rounding is rounding to an integer
(`roundEven_nearest`); smaller ones lie below `2 ^ (e + 52)`, which is a multiple
itself and not above the number to round.
-/

/-- The double `(-1) ^ neg * mant * 2 ^ exp`. Every double has one such form. -/
structure Binary64 where
  neg : Bool
  mant : ℕ
  exp : ℤ
  mant_lt : mant < 2 ^ 53
  exp_ge : -1074 ≤ exp
  exp_le : exp ≤ 971
  full : 2 ^ 52 ≤ mant ∨ exp = -1074
deriving DecidableEq

namespace Binary64

def signed (neg : Bool) (q : ℚ) : ℚ := if neg then -q else q

def value (f : Binary64) : ℚ := signed f.neg (f.mant * 2 ^ f.exp)

/-- `f` is the double nearest to `q`, with an even mantissa when another one is
just as near. -/
structure IsNearest (f : Binary64) (q : ℚ) : Prop where
  le : ∀ g : Binary64, |f.value - q| ≤ |g.value - q|
  even : ∀ g : Binary64, |f.value - q| = |g.value - q| → g.value ≠ f.value → Even f.mant

theorem isNearest_value (f : Binary64) : f.IsNearest f.value :=
  ⟨fun g => by simp, fun g equal ne => absurd (by simpa [sub_eq_zero] using equal.symm) ne⟩

/-! ## Rounding to integers -/

/-- The integer nearest to `a / b`, the even one of two. -/
def roundEven (a b : ℕ) : ℕ :=
  if 2 * (a % b) < b ∨ (2 * (a % b) = b ∧ a / b % 2 = 0) then a / b else a / b + 1

/-- Rounding against any integer `n`, with everything multiplied by `b`. -/
theorem roundEven_scaled {a b : ℕ} (hb : 0 < b) (n : ℤ) :
    |(b : ℤ) * roundEven a b - a| ≤ |(b : ℤ) * n - a| ∧
      (|(b : ℤ) * roundEven a b - a| = |(b : ℤ) * n - a| → n ≠ roundEven a b →
        Even (roundEven a b)) := by
  have split : (b : ℤ) * (a / b : ℕ) + (a % b : ℕ) = a := by exact_mod_cast Nat.div_add_mod a b
  have rest : (a % b : ℕ) < (b : ℤ) := by exact_mod_cast Nat.mod_lt a hb
  set q : ℤ := ((a / b : ℕ) : ℤ) with hq
  set r : ℤ := ((a % b : ℕ) : ℤ) with hr
  have r_nonneg : 0 ≤ r := by positivity
  -- below the quotient and above it, the distance only grows
  have below : n ≤ q → (b : ℤ) * n ≤ b * q := fun h => by gcongr
  have farBelow : n < q → (b : ℤ) * n ≤ b * q - b := fun h => by nlinarith
  have above : q + 1 ≤ n → (b : ℤ) * q + b ≤ b * n := fun h => by nlinarith
  have farAbove : q + 1 < n → (b : ℤ) * q + 2 * b ≤ b * n := fun h => by nlinarith
  unfold roundEven
  split
  · next low =>
    have half : 2 * r ≤ b := by omega
    have dist : |(b : ℤ) * q - a| = r := by
      rw [abs_sub_comm, abs_of_nonneg (by omega)]
      omega
    show |(b : ℤ) * q - a| ≤ _ ∧ (|(b : ℤ) * q - a| = _ → n ≠ q → _)
    rw [dist]
    rcases lt_trichotomy n q with less | rfl | more
    · have := farBelow less
      rw [abs_sub_comm, abs_of_nonneg (by omega)]
      exact ⟨by omega, fun _ _ => by omega⟩
    · exact ⟨by rw [dist], fun _ ne => absurd rfl ne⟩
    · have := above more
      rw [abs_of_nonneg (by omega)]
      refine ⟨by omega, fun _ _ => Nat.even_iff.mpr ?_⟩
      omega
  · next high =>
    have half : (b : ℤ) ≤ 2 * r := by omega
    have dist : |(b : ℤ) * (q + 1) - a| = b - r := by
      rw [mul_add, mul_one, abs_of_nonneg (by omega)]
      omega
    show |(b : ℤ) * (q + 1) - a| ≤ _ ∧ (|(b : ℤ) * (q + 1) - a| = _ → n ≠ q + 1 → _)
    rw [dist]
    rcases le_or_gt n q with less | more
    · have := below less
      rw [abs_sub_comm, abs_of_nonneg (by omega)]
      refine ⟨by omega, fun _ _ => Nat.even_iff.mpr ?_⟩
      omega
    · have := above more
      rw [abs_of_nonneg (by omega)]
      refine ⟨by omega, fun _ ne => ?_⟩
      have := farAbove (lt_of_le_of_ne more fun equal => ne equal.symm)
      omega

/-- The same in fractions: `m` is nearest to `a / b` among the integers. -/
theorem roundEven_nearest {a b : ℕ} (hb : 0 < b) (n : ℤ) :
    |(roundEven a b : ℚ) - a / b| ≤ |(n : ℚ) - a / b| ∧
      (|(roundEven a b : ℚ) - a / b| = |(n : ℚ) - a / b| → n ≠ roundEven a b →
        Even (roundEven a b)) := by
  have pos : (0 : ℚ) < b := by exact_mod_cast hb
  have scale (k : ℤ) : |(k : ℚ) - a / b| = |(b : ℤ) * k - (a : ℤ)| / b := by
    have : (k : ℚ) - a / b = ((b * k - a : ℤ) : ℚ) / b := by
      push_cast
      field_simp
    rw [this, abs_div, abs_of_pos pos, Int.cast_abs]
  have here := scale (roundEven a b)
  obtain ⟨le, even⟩ := roundEven_scaled hb (a := a) n
  rw [Int.cast_natCast] at here
  rw [here, scale n]
  constructor
  · have : ((|(b : ℤ) * roundEven a b - a| : ℤ) : ℚ) ≤ (|(b : ℤ) * n - a| : ℤ) := by
      exact_mod_cast le
    gcongr
  · intro equal
    exact even (by exact_mod_cast (div_left_inj' pos.ne').mp equal)

/-! ## Choosing the exponent -/

/-- The fraction `num / den / 2 ^ e` as numerator and denominator. -/
def scaled (num den : ℕ) (e : ℤ) : ℕ × ℕ :=
  if 0 ≤ e then (num, den * 2 ^ e.toNat) else (num * 2 ^ (-e).toNat, den)

theorem scaled_pos {num den : ℕ} (h : 0 < den) (e : ℤ) : 0 < (scaled num den e).2 := by
  unfold scaled
  split
  · positivity
  · exact h

theorem scaled_value (num : ℕ) {den : ℕ} (h : 0 < den) (e : ℤ) :
    ((scaled num den e).1 : ℚ) / (scaled num den e).2 * 2 ^ e = num / den := by
  have pos : (0 : ℚ) < den := by exact_mod_cast h
  unfold scaled
  split
  · next nonneg =>
    obtain ⟨k, rfl⟩ := Int.eq_ofNat_of_zero_le nonneg
    simp only [Int.toNat_natCast, Nat.cast_mul, Nat.cast_pow, Nat.cast_ofNat, zpow_natCast]
    field_simp
  · next neg =>
    obtain ⟨k, hk⟩ := Int.eq_ofNat_of_zero_le (show 0 ≤ -e by omega)
    obtain rfl : e = -(k : ℤ) := by omega
    simp only [neg_neg, Int.toNat_natCast, Nat.cast_mul, Nat.cast_pow, Nat.cast_ofNat, zpow_neg,
      zpow_natCast]
    field_simp

/-- The exponent for `num / den`: the mantissa gets 53 binary digits, fewer only
at the lowest exponent. -/
def exponent (num den : ℕ) : ℤ :=
  let e := max (-1074) ((num.log2 : ℤ) - den.log2 - 52)
  if -1074 < e ∧ (scaled num den e).1 < 2 ^ 52 * (scaled num den e).2 then e - 1 else e

theorem two_zpow_pos (e : ℤ) : (0 : ℚ) < 2 ^ e := by positivity

theorem exponent_full {num den : ℕ} (hnum : num ≠ 0) (hden : 0 < den) :
    exponent num den = -1074 ∨ (2 : ℚ) ^ (exponent num den + 52) ≤ num / den := by
  have numPos : (0 : ℚ) < num := by exact_mod_cast Nat.pos_of_ne_zero hnum
  have denPos : (0 : ℚ) < den := by exact_mod_cast hden
  -- the first guess is off by one at most
  have guess : (2 : ℚ) ^ ((num.log2 : ℤ) - den.log2 - 1) ≤ num / den := by
    have low : (2 : ℚ) ^ (num.log2 : ℤ) ≤ num := by
      exact_mod_cast Nat.log2_self_le hnum
    have high : (den : ℚ) ≤ 2 ^ ((den.log2 : ℤ) + 1) := by
      exact_mod_cast (Nat.lt_log2_self (n := den)).le
    rw [le_div_iff₀ denPos]
    calc (2 : ℚ) ^ ((num.log2 : ℤ) - den.log2 - 1) * den
        ≤ 2 ^ ((num.log2 : ℤ) - den.log2 - 1) * 2 ^ ((den.log2 : ℤ) + 1) := by gcongr
      _ = 2 ^ (num.log2 : ℤ) := by rw [← zpow_add₀ two_ne_zero]; ring_nf
      _ ≤ num := low
  unfold exponent
  simp only
  split
  · next below =>
    right
    rcases max_choice (-1074 : ℤ) ((num.log2 : ℤ) - den.log2 - 52) with equal | equal
    · omega
    · rw [equal]
      convert guess using 2
      ring
  · next above =>
    rcases not_and_or.mp above with least | enough
    · left
      omega
    · right
      set e := max (-1074) ((num.log2 : ℤ) - den.log2 - 52)
      have pos : (0 : ℚ) < (scaled num den e).2 := by exact_mod_cast scaled_pos hden e
      have enough : (2 : ℚ) ^ (52 : ℤ) ≤ (scaled num den e).1 / (scaled num den e).2 := by
        rw [le_div_iff₀ pos]
        exact_mod_cast not_lt.mp enough
      rw [← scaled_value num hden e, zpow_add₀ two_ne_zero, mul_comm]
      gcongr

/-! ## The nearest double -/

/-- Distances on the grid of multiples of `2 ^ e`. -/
theorem abs_grid_sub {q x : ℚ} {e : ℤ} (hq : x * 2 ^ e = q) (k : ℚ) :
    |k * 2 ^ e - q| = |k - x| * 2 ^ e := by
  rw [← hq, ← sub_mul, abs_mul, abs_of_pos (two_zpow_pos e)]

/-- Every number with at most 53 binary digits lies on the grid of the exponent, or
is farther away than the rounded one. -/
theorem grid_or_lt {q : ℚ} {a b : ℕ} (hb : 0 < b) {e : ℤ} (hq : (a : ℚ) / b * 2 ^ e = q)
    (full : e = -1074 ∨ (2 : ℚ) ^ (e + 52) ≤ q) {n e' : ℤ} (hn : |n| < 2 ^ 53) (he' : -1074 ≤ e') :
    (∃ k : ℤ, (n : ℚ) * 2 ^ e' = k * 2 ^ e) ∨
      |(roundEven a b : ℚ) * 2 ^ e - q| < |(n : ℚ) * 2 ^ e' - q| := by
  rcases le_or_gt e e' with le | lt
  · left
    obtain ⟨k, hk⟩ := Int.eq_ofNat_of_zero_le (show 0 ≤ e' - e by omega)
    refine ⟨n * 2 ^ k, ?_⟩
    push_cast
    rw [mul_assoc, ← zpow_natCast, ← zpow_add₀ two_ne_zero, ← hk, sub_add_cancel]
  · right
    have full : (2 : ℚ) ^ (e + 52) ≤ q := full.resolve_left (by omega)
    have border : (2 : ℚ) ^ (e + 52) = (2 ^ 52 : ℤ) * 2 ^ e := by
      rw [zpow_add₀ two_ne_zero, mul_comm]
      norm_num
    have small : (n : ℚ) * 2 ^ e' < 2 ^ (e + 52) := by
      have bound : (n : ℚ) < 2 ^ (53 : ℤ) := by exact_mod_cast lt_of_le_of_lt (le_abs_self n) hn
      calc (n : ℚ) * 2 ^ e' < 2 ^ (53 : ℤ) * 2 ^ e' := by gcongr
        _ = 2 ^ (53 + e') := by rw [← zpow_add₀ two_ne_zero]
        _ ≤ 2 ^ (e + 52) := zpow_le_zpow_right₀ one_le_two (by omega)
    calc |(roundEven a b : ℚ) * 2 ^ e - q|
        ≤ |((2 ^ 52 : ℤ) : ℚ) * 2 ^ e - q| := by
          rw [abs_grid_sub hq, abs_grid_sub hq]
          exact mul_le_mul_of_nonneg_right (roundEven_nearest hb _).1 (two_zpow_pos e).le
      _ = q - 2 ^ (e + 52) := by rw [← border, abs_sub_comm, abs_of_nonneg (by linarith)]
      _ < q - n * 2 ^ e' := by linarith
      _ = |(n : ℚ) * 2 ^ e' - q| := by rw [abs_sub_comm, abs_of_nonneg (by linarith)]

/-- The rounded number against any other with at most 53 binary digits. -/
theorem round_nearest {q : ℚ} {a b : ℕ} (hb : 0 < b) {e : ℤ} (hq : (a : ℚ) / b * 2 ^ e = q)
    (full : e = -1074 ∨ (2 : ℚ) ^ (e + 52) ≤ q) {n e' : ℤ} (hn : |n| < 2 ^ 53) (he' : -1074 ≤ e') :
    |(roundEven a b : ℚ) * 2 ^ e - q| ≤ |(n : ℚ) * 2 ^ e' - q| ∧
      (|(roundEven a b : ℚ) * 2 ^ e - q| = |(n : ℚ) * 2 ^ e' - q| →
        (n : ℚ) * 2 ^ e' ≠ roundEven a b * 2 ^ e → Even (roundEven a b)) := by
  rcases grid_or_lt hb hq full hn he' with ⟨k, onGrid⟩ | farther
  · obtain ⟨le, even⟩ := roundEven_nearest hb (a := a) k
    have pos := two_zpow_pos e
    rw [onGrid, abs_grid_sub hq, abs_grid_sub hq]
    refine ⟨mul_le_mul_of_nonneg_right le pos.le, fun equal ne => even ?_ ?_⟩
    · exact (mul_left_inj' pos.ne').mp equal
    · rintro rfl
      exact ne (by push_cast; rfl)
  · exact ⟨farther.le, fun equal => absurd equal farther.ne⟩

/-- The double with the rounded mantissa: when the mantissa has run over to the
next power of two, one exponent higher. None when the exponent is out of range. -/
def ofRounded (neg : Bool) (m : ℕ) (e : ℤ) : Option Binary64 :=
  if h : m < 2 ^ 53 ∧ -1074 ≤ e ∧ e ≤ 971 ∧ (2 ^ 52 ≤ m ∨ e = -1074) then
    some ⟨neg, m, e, h.1, h.2.1, h.2.2.1, h.2.2.2⟩
  else if h : m = 2 ^ 53 ∧ -1074 ≤ e ∧ e < 971 then
    some ⟨neg, 2 ^ 52, e + 1, by decide, by omega, by omega, .inl le_rfl⟩
  else none

theorem ofRounded_eq_some {neg : Bool} {m : ℕ} {e : ℤ} {f : Binary64}
    (h : ofRounded neg m e = some f) :
    f.value = signed neg (m * 2 ^ e) ∧ (Even m → Even f.mant) := by
  unfold ofRounded at h
  split at h
  · obtain rfl := Option.some.inj h
    exact ⟨rfl, id⟩
  · split at h
    · next carry =>
      obtain rfl := Option.some.inj h
      refine ⟨?_, fun _ => (by decide : Even (2 ^ 52))⟩
      simp only [value, carry.1]
      congr 1
      rw [zpow_add₀ two_ne_zero]
      norm_num
      ring
    · cases h

/-- The double nearest to `num / den`, with the given sign; none when that is out
of range. -/
def nearest (neg : Bool) (num den : ℕ) : Option Binary64 :=
  if num = 0 then some ⟨neg, 0, -1074, by decide, by decide, by decide, .inr rfl⟩
  else
    let e := exponent num den
    ofRounded neg (roundEven (scaled num den e).1 (scaled num den e).2) e

theorem signed_sub (neg : Bool) (x q : ℚ) : |x - signed neg q| = |signed neg x - q| := by
  cases neg with
  | false => rfl
  | true =>
    simp only [signed, if_true]
    rw [← abs_neg]
    congr 1
    ring

theorem signed_signed (neg : Bool) (q : ℚ) : signed neg (signed neg q) = q := by
  cases neg <;> simp [signed]

/-- A double and its negative are integers with at most 53 binary digits, scaled. -/
theorem signed_value (neg : Bool) (g : Binary64) :
    ∃ n : ℤ, signed neg g.value = n * 2 ^ g.exp ∧ |n| < 2 ^ 53 := by
  have lt : |(g.mant : ℤ)| < 2 ^ 53 := by
    rw [abs_of_nonneg (by positivity)]
    exact_mod_cast g.mant_lt
  unfold value
  cases neg <;> cases g.neg <;> simp only [signed, if_true, Bool.false_eq_true, if_false, neg_neg]
  · exact ⟨g.mant, by push_cast; rfl, lt⟩
  · exact ⟨-g.mant, by push_cast; ring, by rwa [abs_neg]⟩
  · exact ⟨-g.mant, by push_cast; ring, by rwa [abs_neg]⟩
  · exact ⟨g.mant, by push_cast; rfl, lt⟩

/-- What `nearest` computes is the nearest double. -/
theorem nearest_isNearest {neg : Bool} {num den : ℕ} (hden : 0 < den) {f : Binary64}
    (h : nearest neg num den = some f) : f.IsNearest (signed neg (num / den)) := by
  unfold nearest at h
  split at h
  · next zero =>
    obtain rfl := Option.some.inj h
    have exact0 : signed neg ((num : ℚ) / den) = 0 := by simp [zero, signed]
    have value0 : value ⟨neg, 0, -1074, by decide, by decide, by decide, .inr rfl⟩ = 0 := by
      simp [value, signed]
    rw [exact0]
    refine ⟨fun g => by simp [value0], fun _ _ _ => by simp⟩
  · next nonzero =>
    obtain ⟨valueEq, parity⟩ := ofRounded_eq_some h
    have pos : 0 < (scaled num den (exponent num den)).2 := scaled_pos hden _
    set e := exponent num den
    set m := roundEven (scaled num den e).1 (scaled num den e).2
    have other (g : Binary64) :
        |(m : ℚ) * 2 ^ e - num / den| ≤ |signed neg g.value - num / den| ∧
          (|(m : ℚ) * 2 ^ e - num / den| = |signed neg g.value - num / den| →
            signed neg g.value ≠ m * 2 ^ e → Even m) := by
      obtain ⟨n, equal, lt⟩ := signed_value neg g
      have := round_nearest pos (scaled_value num hden _) (exponent_full nonzero hden) lt g.exp_ge
      rwa [← equal] at this
    refine ⟨fun g => ?_, fun g equal ne => parity ((other g).2 ?_ ?_)⟩
    · rw [signed_sub, signed_sub, valueEq, signed_signed]
      exact (other g).1
    · rw [signed_sub, signed_sub, valueEq, signed_signed] at equal
      exact equal
    · intro same
      apply ne
      rw [valueEq, ← same, signed_signed]

end Binary64
