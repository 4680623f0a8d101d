import Mathlib.Algebra.Order.Field.Power
import Mathlib.Data.Rat.Cast.Order
import Mathlib.Algebra.Order.Field.Basic
import Mathlib.Tactic.FieldSimp
import Mathlib.Tactic.Linarith
import Mathlib.Tactic.NormNum
import Mathlib.Tactic.Ring
import RhoScript.Number.Double

/-!
# Rounding to doubles

The doubles are points on the line of rational numbers, in the order of their places. A number is rounded to
a place by comparing it with the middles between adjacent points: it lies beyond a place if it is greater
than the middle after that place, or is that middle and the place is odd.

Main statements: `Double.lt_nearestPlace_iff` says this of the rounding that the library computes, whatever
quotient a number is given by. So rounding is monotone (`Double.nearestPlace_mono`), gives back every
double (`Double.nearestPlace_valueAt`), finds the one place that is nearest (`Double.nearestPlace_eq_iff`), and
is the same for quotients, integers and decimal numbers (`Double.ofRatio_eq`, `Double.ofInt_eq`,
`Double.ofDecimal_eq`).
-/

namespace RhoScript.Number

/-- A number is rounded up between two steps: it is beyond their middle, or it is the middle and the lower
step is odd. -/
def RoundsUp (middle : ℚ) (step : Nat) (q : ℚ) : Prop := middle < q ∨ middle = q ∧ step % 2 = 1

theorem RoundsUp.mono {middle p q : ℚ} {step : Nat} (h : RoundsUp middle step p) (hpq : p ≤ q) :
    RoundsUp middle step q := by
  obtain hlt | ⟨rfl, hodd⟩ := h
  · exact .inl (hlt.trans_le hpq)
  · exact hpq.lt_or_eq.imp_right fun heq => ⟨heq, hodd⟩

theorem not_roundsUp_of_lt {middle q : ℚ} {step : Nat} (h : q < middle) : ¬ RoundsUp middle step q := by
  rintro (hlt | ⟨heq, -⟩)
  · exact lt_asymm hlt h
  · exact h.ne' heq

/-- What is rounded up after a place is not below the middle, and not at an even one. -/
theorem RoundsUp.le {middle q : ℚ} {step : Nat} (h : RoundsUp middle step q) :
    middle ≤ q ∧ (q = middle → step % 2 = 1) := by
  obtain hlt | ⟨rfl, hodd⟩ := h
  · exact ⟨hlt.le, fun heq => absurd heq hlt.ne'⟩
  · exact ⟨le_rfl, fun _ => hodd⟩

theorem le_of_not_roundsUp {middle q : ℚ} {step : Nat} (h : ¬ RoundsUp middle step q) :
    q ≤ middle ∧ (q = middle → step % 2 = 0) := by
  refine ⟨not_lt.mp fun hlt => h (.inl hlt), fun heq => ?_⟩
  by_contra hodd
  exact h (.inr ⟨heq.symm, by omega⟩)

/-- Steps of another width are compared in the same way. -/
theorem roundsUp_mul_iff {middle q c : ℚ} {step : Nat} (hc : 0 < c) :
    RoundsUp (middle * c) step (q * c) ↔ RoundsUp middle step q := by
  simp only [RoundsUp, mul_lt_mul_iff_left₀ hc, mul_left_inj' hc.ne']

/-! ### Quotients rounded to integers -/

/-- A rounded quotient is greater than a number if the quotient is rounded up there. -/
theorem lt_divNearest_iff {num den s : Nat} (hden : 0 < den) :
    s < divNearest num den ↔ RoundsUp (s + 1 / 2) s (num / den) := by
  have hpos : (0 : ℚ) < den := by exact_mod_cast hden
  have hmul : (s + 1 / 2 : ℚ) * (2 * den) = ((2 * s + 1) * den : Nat) := by
    push_cast
    ring
  have hnum : (num / den : ℚ) * (2 * den) = (2 * num : Nat) := by
    push_cast
    field_simp
  rw [← roundsUp_mul_iff (c := 2 * den) (by positivity), hmul, hnum, RoundsUp, Nat.cast_lt, Nat.cast_inj]
  -- the comparison is one of natural numbers: the remainder decides at the whole part, and no place else
  have hdiv := Nat.div_add_mod num den
  have hmod := Nat.mod_lt num hden
  rw [divNearest]
  generalize num / den = whole at hdiv ⊢
  generalize num % den = rest at hdiv hmod ⊢
  subst hdiv
  obtain hlt | rfl | hlt := lt_trichotomy s whole
  · have hle : (2 * s + 2) * den ≤ 2 * whole * den := Nat.mul_le_mul_right den (by omega)
    have hup : (2 * s + 1) * den < 2 * (den * whole + rest) := by nlinarith
    split_ifs <;> omega
  · have hexpand : 2 * (den * s + rest) = 2 * s * den + 2 * rest := by ring
    rw [hexpand, add_mul, one_mul]
    split_ifs <;> omega
  · have hle : 2 * (whole + 1) * den ≤ 2 * s * den := Nat.mul_le_mul_right den (by omega)
    have hdown : 2 * (den * whole + rest) < (2 * s + 1) * den := by nlinarith
    split_ifs <;> omega

namespace Double

/-! ### The line of doubles -/

/-- The number at a place among the non-negative doubles. Infinity counts as the number that would be next
after the largest finite double. -/
def valueAt (m : Nat) : ℚ := significand ⟨false, m⟩ * 2 ^ exponent ⟨false, m⟩

/-- The middle between the numbers at a place and at the next. -/
def middle (m : Nat) : ℚ := (valueAt m + valueAt (m + 1)) / 2

/-- Within a binade, and up to the beginning of the next, the numbers are equally spaced. -/
theorem valueAt_add {k t : Nat} (ht : t ≤ 2 ^ 53) (hk : k = 0 ∨ 2 ^ 52 ≤ t) :
    valueAt (k * 2 ^ 52 + t) = t * 2 ^ (k - 1074 : ℤ) := by
  rw [valueAt, significand, exponent]
  simp only [Nat.pow_eq]
  by_cases hsmall : k * 2 ^ 52 + t < 2 ^ 52
  · obtain rfl : k = 0 := by omega
    rw [if_pos hsmall, if_pos hsmall]
    simp
  rw [if_neg hsmall, if_neg hsmall]
  obtain hlt | rfl := ht.lt_or_eq
  · have hmod : (k * 2 ^ 52 + t) % 2 ^ 52 + 2 ^ 52 = t := by omega
    have hdiv : (k * 2 ^ 52 + t) / 2 ^ 52 = k + 1 := by omega
    rw [hmod, hdiv]
    push_cast
    congr 2
    ring
  · have hmod : (k * 2 ^ 52 + 2 ^ 53) % 2 ^ 52 + 2 ^ 52 = 2 ^ 52 := by omega
    have hdiv : (k * 2 ^ 52 + 2 ^ 53) / 2 ^ 52 = k + 2 := by omega
    have hexp : ((k + 2 : Nat) : ℤ) - 1075 = 1 + (k - 1074) := by
      push_cast
      ring
    rw [hmod, hdiv, hexp, zpow_add₀ two_ne_zero]
    push_cast
    ring

/-- Every place is in some binade; the first reaches down to zero. -/
theorem exists_binade (m : Nat) : ∃ k t, m = k * 2 ^ 52 + t ∧ t < 2 ^ 53 ∧ (k = 0 ∨ 2 ^ 52 ≤ t) := by
  by_cases hm : m < 2 ^ 52
  · exact ⟨0, m, by omega, by omega, .inl rfl⟩
  · exact ⟨m / 2 ^ 52 - 1, m % 2 ^ 52 + 2 ^ 52, by omega, by omega, .inr (by omega)⟩

theorem valueAt_lt_succ (m : Nat) : valueAt m < valueAt (m + 1) := by
  obtain ⟨k, t, rfl, ht, hk⟩ := exists_binade m
  rw [Nat.add_assoc, valueAt_add ht.le hk, valueAt_add (by omega) (hk.imp_right (by omega))]
  gcongr
  simp

theorem strictMono_valueAt : StrictMono valueAt := strictMono_nat_of_lt_succ valueAt_lt_succ

@[simp] theorem valueAt_zero : valueAt 0 = 0 := by simp [valueAt, significand]

theorem valueAt_infinitePlace : valueAt infinitePlace = 2 ^ 1024 := by
  have h : infinitePlace = 2045 * 2 ^ 52 + 2 ^ 53 := rfl
  rw [h, valueAt_add le_rfl (.inr (by omega)), Nat.cast_pow, Nat.cast_ofNat, ← zpow_natCast,
    ← zpow_natCast, ← zpow_add₀ two_ne_zero]
  rfl

theorem valueAt_lt_middle (m : Nat) : valueAt m < middle m := by
  have := valueAt_lt_succ m
  rw [middle]
  linarith

theorem middle_lt_valueAt (m : Nat) : middle m < valueAt (m + 1) := by
  have := valueAt_lt_succ m
  rw [middle]
  linarith

/-- The middle after a place in a binade. -/
theorem middle_add {k s : Nat} (hs : s < 2 ^ 53) (hk : k = 0 ∨ 2 ^ 52 ≤ s) :
    middle (k * 2 ^ 52 + s) = (s + 1 / 2) * 2 ^ (k - 1074 : ℤ) := by
  rw [middle, Nat.add_assoc, valueAt_add hs.le hk, valueAt_add (by omega) (hk.imp_right (by omega))]
  push_cast
  ring

/-! ### The quotient of a double -/

theorem scale_pos {num den : Nat} (hden : 0 < den) (e : Int) : 0 < (scale num den e).2 := by
  rw [scale]
  split
  · exact hden
  · exact Nat.mul_pos hden (Nat.pow_pos two_pos)

theorem scale_quotient (num den : Nat) (e : Int) :
    ((scale num den e).1 / (scale num den e).2 : ℚ) = num / den * 2 ^ e := by
  rw [scale]
  simp only [Nat.pow_eq]
  split
  · rename_i he
    obtain ⟨n, rfl⟩ := Int.eq_ofNat_of_zero_le he
    simp [mul_div_right_comm]
  · rename_i he
    obtain ⟨n, hn⟩ := Int.eq_ofNat_of_zero_le (show 0 ≤ -e by omega)
    obtain rfl : e = -n := by omega
    simp [div_eq_mul_inv, mul_comm, mul_assoc]

theorem ratio_pos (x : Double) : 0 < x.ratio.2 := scale_pos one_pos _

theorem ratio_quotient (x : Double) : (x.ratio.1 / x.ratio.2 : ℚ) = valueAt x.magnitude := by
  rw [ratio, scale_quotient, Nat.cast_one, div_one]
  rfl

/-! ### Rounding -/

/-- The quotient lies in the binade of its logarithm. -/
theorem floorLog2_spec {num den : Nat} (hnum : 0 < num) (hden : 0 < den) :
    (2 : ℚ) ^ floorLog2 num den ≤ num / den ∧ (num / den : ℚ) < 2 ^ (floorLog2 num den + 1) := by
  have hn : (0 : ℚ) < num := by exact_mod_cast hnum
  have hd : (0 : ℚ) < den := by exact_mod_cast hden
  have hnlow : (2 : ℚ) ^ (num.log2 : ℤ) ≤ num := by exact_mod_cast Nat.log2_self_le hnum.ne'
  have hnhigh : (num : ℚ) < 2 ^ (num.log2 + 1 : ℤ) := by exact_mod_cast Nat.lt_log2_self (n := num)
  have hdlow : (2 : ℚ) ^ (den.log2 : ℤ) ≤ den := by exact_mod_cast Nat.log2_self_le hden.ne'
  have hdhigh : (den : ℚ) < 2 ^ (den.log2 + 1 : ℤ) := by exact_mod_cast Nat.lt_log2_self (n := den)
  -- the guess is at most one too high, which the scaled quotient tells
  have hlow : (2 : ℚ) ^ ((num.log2 : ℤ) - den.log2 - 1) < num / den := by
    rw [lt_div_iff₀ hd]
    calc (2 : ℚ) ^ ((num.log2 : ℤ) - den.log2 - 1) * den
        < 2 ^ ((num.log2 : ℤ) - den.log2 - 1) * 2 ^ (den.log2 + 1 : ℤ) := by gcongr
      _ = 2 ^ (num.log2 : ℤ) := by rw [← zpow_add₀ two_ne_zero]; congr 1; ring
      _ ≤ num := hnlow
  have hhigh : (num / den : ℚ) < 2 ^ ((num.log2 : ℤ) - den.log2 + 1) := by
    rw [div_lt_iff₀ hd]
    calc (num : ℚ) < 2 ^ (num.log2 + 1 : ℤ) := hnhigh
      _ = 2 ^ ((num.log2 : ℤ) - den.log2 + 1) * 2 ^ (den.log2 : ℤ) := by
        rw [← zpow_add₀ two_ne_zero]; congr 1; ring
      _ ≤ 2 ^ ((num.log2 : ℤ) - den.log2 + 1) * den := by gcongr
  have hscaled := scale_quotient num den (-((num.log2 : ℤ) - den.log2))
  have hpos : 0 < (scale num den (-((num.log2 : ℤ) - den.log2))).2 := scale_pos hden _
  have htest : (scale num den (-((num.log2 : ℤ) - den.log2))).2 ≤
      (scale num den (-((num.log2 : ℤ) - den.log2))).1 ↔
        (2 : ℚ) ^ ((num.log2 : ℤ) - den.log2) ≤ num / den := by
    rw [← Nat.cast_le (α := ℚ), ← one_le_div (by exact_mod_cast hpos), hscaled, zpow_neg,
      ← div_eq_mul_inv, one_le_div (by positivity)]
  simp only [floorLog2, htest]
  split
  · exact ⟨‹_›, hhigh⟩
  · refine ⟨hlow.le, ?_⟩
    rw [sub_add_cancel]
    exact not_le.mp ‹_›

theorem magnitude_ofRatio_le (negative : Bool) (num den : Nat) :
    (ofRatio negative num den).magnitude ≤ infinitePlace := by
  rw [ofRatio]
  split
  · exact Nat.zero_le _
  · exact Nat.min_le_right _ _

/-- A number in a binade that is rounded to a multiple of the spacing there compares with the middles as the
place of that multiple does. -/
theorem lt_place_iff {k r m : Nat} {q : ℚ} (hupper : q < 2 ^ 53 * 2 ^ (k - 1074 : ℤ))
    (hlower : k ≠ 0 → (2 : ℚ) ^ 52 * 2 ^ (k - 1074 : ℤ) ≤ q)
    (hround : ∀ s : Nat, s < r ↔ RoundsUp ((s + 1 / 2) * 2 ^ (k - 1074 : ℤ)) s q) :
    m < k * 2 ^ 52 + r ↔ RoundsUp (middle m) m q := by
  by_cases hbelow : k ≠ 0 ∧ m < k * 2 ^ 52 + 2 ^ 52
  · -- a place before the binade
    obtain ⟨hne, hbelow⟩ := hbelow
    have hvalue : valueAt (m + 1) ≤ q := by
      refine le_trans (strictMono_valueAt.monotone (show m + 1 ≤ k * 2 ^ 52 + 2 ^ 52 by omega)) ?_
      rw [valueAt_add (by omega) (.inr le_rfl)]
      exact_mod_cast hlower hne
    have hstart : 2 ^ 52 - 1 < r := by
      refine (hround _).mpr (.inl (lt_of_lt_of_le ?_ (hlower hne)))
      gcongr
      norm_num
    exact iff_of_true (by omega) (.inl ((middle_lt_valueAt m).trans_le hvalue))
  by_cases habove : k * 2 ^ 52 + 2 ^ 53 ≤ m
  · -- a place after the binade
    have hvalue : q < valueAt m := by
      refine lt_of_lt_of_le ?_ (strictMono_valueAt.monotone habove)
      rw [valueAt_add le_rfl (.inr (by omega))]
      exact_mod_cast hupper
    have hr : r ≤ 2 ^ 53 := by
      refine not_lt.mp fun hlt => not_roundsUp_of_lt ?_ ((hround _).mp hlt)
      refine hupper.trans ?_
      gcongr
      norm_num
    exact iff_of_false (by omega) (not_roundsUp_of_lt (hvalue.trans (valueAt_lt_middle m)))
  · -- a place in the binade
    obtain ⟨s, rfl⟩ : ∃ s, m = k * 2 ^ 52 + s := ⟨m - k * 2 ^ 52, by omega⟩
    have hparity : (k * 2 ^ 52 + s) % 2 = s % 2 := by omega
    rw [middle_add (by omega) (by omega), Nat.add_lt_add_iff_left, hround, RoundsUp, RoundsUp, hparity]

/-- **Rounding compares with middles**: a quotient is rounded beyond a place if it is rounded up between that
place and the next. -/
theorem lt_magnitude_ofRatio_iff (negative : Bool) {num den m : Nat} (hden : 0 < den)
    (hm : m < infinitePlace) :
    m < (ofRatio negative num den).magnitude ↔ RoundsUp (middle m) m (num / den) := by
  rw [ofRatio]
  split
  · rename_i hzero
    have hmiddle : 0 < middle m := lt_of_le_of_lt
      (valueAt_zero ▸ strictMono_valueAt.monotone (Nat.zero_le m)) (valueAt_lt_middle m)
    simp only [hzero, Nat.not_lt_zero, false_iff]
    exact not_roundsUp_of_lt (by simpa using hmiddle)
  rename_i hzero
  obtain ⟨hlow, hhigh⟩ := floorLog2_spec (Nat.pos_of_ne_zero hzero) hden
  obtain ⟨k, hk⟩ := Int.eq_ofNat_of_zero_le
    (show 0 ≤ max (floorLog2 num den - 52) (-1074) + 1074 by omega)
  have hexp : max (floorLog2 num den - 52) (-1074) = k - 1074 := by omega
  have hplace : ((k : ℤ) - 1074 + 1074).toNat = k := by omega
  simp only [hexp, hplace, Nat.pow_eq]
  rw [lt_min_iff, and_iff_left hm]
  generalize floorLog2 num den = log at hlow hhigh hexp
  -- the quotient is below the end of the binade, and not below its beginning if that is not zero
  refine lt_place_iff (hhigh.trans_le ?_) (fun hne => le_trans ?_ hlow) fun s => ?_
  · rw [← zpow_natCast, ← zpow_add₀ two_ne_zero]
    exact zpow_le_zpow_right₀ one_le_two (by push_cast; omega)
  · rw [← zpow_natCast, ← zpow_add₀ two_ne_zero]
    exact zpow_le_zpow_right₀ one_le_two (by push_cast; omega)
  · have hscaled : ((scale num den (-(k - 1074 : ℤ))).1 / (scale num den (-(k - 1074 : ℤ))).2 : ℚ) *
        2 ^ (k - 1074 : ℤ) = num / den := by
      rw [scale_quotient, mul_assoc, ← zpow_add₀ two_ne_zero, neg_add_cancel, zpow_zero, mul_one]
    rw [lt_divNearest_iff (scale_pos hden _), ← hscaled, roundsUp_mul_iff (by positivity)]

/-! ### Rounding of rational numbers -/

/-- The place of the double that is nearest to a non-negative number. -/
def nearestPlace (q : ℚ) : Nat := (ofRatio false q.num.natAbs q.den).magnitude

theorem nearestPlace_le (q : ℚ) : nearestPlace q ≤ infinitePlace := magnitude_ofRatio_le _ _ _

theorem lt_nearestPlace_iff {q : ℚ} (hq : 0 ≤ q) {m : Nat} (hm : m < infinitePlace) :
    m < nearestPlace q ↔ RoundsUp (middle m) m q := by
  have hnum : ((q.num.natAbs : ℚ) / q.den) = q := by
    rw [Nat.cast_natAbs, abs_of_nonneg (Rat.num_nonneg.mpr hq)]
    exact Rat.num_div_den q
  rw [nearestPlace, lt_magnitude_ofRatio_iff false q.den_pos hm, hnum]

/-- A place is where a number is rounded to if it compares with the middles as that place does. -/
theorem eq_nearestPlace {q : ℚ} (hq : 0 ≤ q) {p : Nat} (hp : p ≤ infinitePlace)
    (h : ∀ m < infinitePlace, m < p ↔ RoundsUp (middle m) m q) : p = nearestPlace q := by
  refine eq_of_forall_lt_iff fun m => ?_
  by_cases hm : m < infinitePlace
  · rw [h m hm, lt_nearestPlace_iff hq hm]
  · have := nearestPlace_le q
    exact iff_of_false (by omega) (by omega)

theorem nearestPlace_mono {p q : ℚ} (hp : 0 ≤ p) (hpq : p ≤ q) : nearestPlace p ≤ nearestPlace q := by
  refine le_of_forall_lt fun m hm => ?_
  have hlt := hm.trans_le (nearestPlace_le p)
  rw [lt_nearestPlace_iff (hp.trans hpq) hlt]
  exact ((lt_nearestPlace_iff hp hlt).mp hm).mono hpq

/-- What lies between two numbers that are rounded alike is rounded like them. -/
theorem nearestPlace_eq_of_between {p q r : ℚ} {m : Nat} (hp : 0 ≤ p) (hpq : p ≤ q) (hqr : q ≤ r)
    (hpm : nearestPlace p = m) (hrm : nearestPlace r = m) : nearestPlace q = m :=
  le_antisymm (hrm ▸ nearestPlace_mono (hp.trans hpq) hqr) (hpm ▸ nearestPlace_mono hp hpq)

/-- What lies strictly between the middles around a place is rounded to it. -/
theorem nearestPlace_eq_of_middles {q : ℚ} {m : Nat} (hm : m < infinitePlace) (hq : 0 ≤ q)
    (hlow : ∀ j, j + 1 = m → middle j < q) (hhigh : q < middle m) : nearestPlace q = m := by
  refine (eq_nearestPlace hq hm.le fun j hj => ?_).symm
  by_cases hjm : j < m
  · refine iff_of_true hjm (.inl ?_)
    obtain ⟨i, rfl⟩ : ∃ i, i + 1 = m := ⟨m - 1, by omega⟩
    obtain hlt | rfl := Nat.lt_or_eq_of_le (Nat.le_of_lt_succ hjm)
    · have hle := strictMono_valueAt.monotone (Nat.succ_le_of_lt hlt)
      linarith [middle_lt_valueAt j, valueAt_lt_middle i, hlow i rfl]
    · exact hlow j rfl
  · refine iff_of_false hjm (not_roundsUp_of_lt ?_)
    obtain hlt | rfl := Nat.lt_or_eq_of_le (Nat.le_of_not_lt hjm)
    · have hle := strictMono_valueAt.monotone (Nat.succ_le_of_lt hlt)
      linarith [middle_lt_valueAt m, valueAt_lt_middle j]
    · exact hhigh

theorem valueAt_nonneg (m : Nat) : 0 ≤ valueAt m :=
  valueAt_zero ▸ strictMono_valueAt.monotone (Nat.zero_le m)

/-- **Doubles are rounded to themselves.** -/
theorem nearestPlace_valueAt {m : Nat} (hm : m < infinitePlace) : nearestPlace (valueAt m) = m := by
  refine nearestPlace_eq_of_middles hm (valueAt_nonneg m) ?_ (valueAt_lt_middle m)
  rintro j rfl
  exact middle_lt_valueAt j

/-! ### Nearest numbers -/

theorem closer_of_middle_le {a b q : ℚ} (hab : a < b) (h : (a + b) / 2 ≤ q) :
    |b - q| ≤ |a - q| ∧ (|a - q| = |b - q| → q = (a + b) / 2) := by
  rw [abs_of_neg (show a - q < 0 by linarith)]
  refine ⟨abs_le.mpr ⟨by linarith, by linarith⟩, fun heq => ?_⟩
  obtain ⟨habs, -⟩ | ⟨habs, -⟩ := abs_cases (b - q) <;> linarith

theorem closer_of_le_middle {a b q : ℚ} (hab : a < b) (h : q ≤ (a + b) / 2) :
    |a - q| ≤ |b - q| ∧ (|b - q| = |a - q| → q = (a + b) / 2) := by
  rw [abs_of_pos (show 0 < b - q by linarith)]
  refine ⟨abs_le.mpr ⟨by linarith, by linarith⟩, fun heq => ?_⟩
  obtain ⟨habs, -⟩ | ⟨habs, -⟩ := abs_cases (a - q) <;> linarith

/-- A place is nearest to a number: none is closer, and if another is as close the place is even. Infinity
stands where the next double would be, at `2 ^ 1024`. -/
structure IsNearestPlace (q : ℚ) (m : Nat) : Prop where
  bound : m ≤ infinitePlace
  closest : ∀ k ≤ infinitePlace, |valueAt m - q| ≤ |valueAt k - q|
  even : ∀ k ≤ infinitePlace, |valueAt k - q| = |valueAt m - q| → k = m ∨ m % 2 = 0

/-- **Rounding gives the nearest place.** -/
theorem isNearestPlace_nearestPlace {q : ℚ} (hq : 0 ≤ q) : IsNearestPlace q (nearestPlace q) := by
  have hbound := nearestPlace_le q
  -- the nearest place is at least as close as one below and as one above
  have hclose : ∀ k ≤ infinitePlace, |valueAt (nearestPlace q) - q| ≤ |valueAt k - q| ∧
      (|valueAt k - q| = |valueAt (nearestPlace q) - q| →
        k = nearestPlace q ∨ nearestPlace q % 2 = 0) := by
    intro k hk
    obtain hlt | rfl | hgt := Nat.lt_trichotomy k (nearestPlace q)
    · obtain ⟨j, hj⟩ : ∃ j, nearestPlace q = j + 1 := ⟨nearestPlace q - 1, by omega⟩
      obtain ⟨hmiddle, hodd⟩ := ((lt_nearestPlace_iff hq (show j < infinitePlace by omega)).mp
        (by omega)).le
      have hmono := strictMono_valueAt.monotone (show k ≤ j by omega)
      have hvalue := strictMono_valueAt hlt
      rw [hj] at hvalue ⊢
      rw [middle] at hmiddle hodd
      obtain ⟨hle, htie⟩ := closer_of_middle_le hvalue (le_trans (by linarith) hmiddle)
      refine ⟨hle, fun heq => .inr ?_⟩
      have := hodd (le_antisymm (by linarith [htie heq]) hmiddle)
      omega
    · exact ⟨le_rfl, fun _ => .inl rfl⟩
    · have hlt : nearestPlace q < infinitePlace := by omega
      obtain ⟨hmiddle, heven⟩ := le_of_not_roundsUp
        (fun h => lt_irrefl _ ((lt_nearestPlace_iff hq hlt).mpr h))
      have hmono := strictMono_valueAt.monotone (show nearestPlace q + 1 ≤ k from hgt)
      have hvalue := strictMono_valueAt hgt
      rw [middle] at hmiddle heven
      obtain ⟨hle, htie⟩ := closer_of_le_middle hvalue (hmiddle.trans (by linarith))
      exact ⟨hle, fun heq => .inr (heven (le_antisymm hmiddle (by linarith [htie heq])))⟩
  exact ⟨hbound, fun k hk => (hclose k hk).1, fun k hk => (hclose k hk).2⟩

/-- There is only one nearest place. -/
theorem IsNearestPlace.unique {q : ℚ} {m n : Nat} (hm : IsNearestPlace q m) (hn : IsNearestPlace q n) :
    m = n := by
  have hclose : |valueAt m - q| = |valueAt n - q| :=
    le_antisymm (hm.closest n hn.bound) (hn.closest m hm.bound)
  by_contra hne
  wlog hlt : m < n generalizing m n
  · exact this hn hm hclose.symm (Ne.symm hne) (by omega)
  have hmeven := (hm.even n hn.bound hclose.symm).resolve_left (Ne.symm hne)
  have hneven := (hn.even m hm.bound hclose).resolve_left hne
  -- the number is in the middle, both are even, and the place between them is closer
  have hvalue := strictMono_valueAt hlt
  have hmiddle : q = (valueAt m + valueAt n) / 2 := by
    obtain h | h := le_total q ((valueAt m + valueAt n) / 2)
    · exact (closer_of_le_middle hvalue h).2 hclose.symm
    · exact (closer_of_middle_le hvalue h).2 hclose
  have hlow := strictMono_valueAt (show m < m + 1 by omega)
  have hhigh := strictMono_valueAt (show m + 1 < n by omega)
  have hcloser : |valueAt (m + 1) - q| < |valueAt m - q| := by
    rw [abs_of_neg (show valueAt m - q < 0 by linarith)]
    exact abs_lt.mpr ⟨by linarith, by linarith⟩
  have hbound := hn.bound
  exact absurd hcloser (not_lt.mpr (hm.closest (m + 1) (by omega)))

theorem nearestPlace_eq_iff {q : ℚ} (hq : 0 ≤ q) {m : Nat} :
    nearestPlace q = m ↔ IsNearestPlace q m := by
  constructor
  · rintro rfl
    exact isNearestPlace_nearestPlace hq
  · exact fun h => (isNearestPlace_nearestPlace hq).unique h

/-! ### All roundings are one -/

theorem ofRatio_eq (negative : Bool) (num : Nat) {den : Nat} (hden : 0 < den) :
    ofRatio negative num den = ⟨negative, nearestPlace (num / den)⟩ := by
  have hsign : (ofRatio negative num den).negative = negative := by
    rw [ofRatio]
    split <;> rfl
  have hq : (0 : ℚ) ≤ num / den := by positivity
  have hplace := eq_nearestPlace hq (magnitude_ofRatio_le negative num den)
    fun m hm => lt_magnitude_ofRatio_iff negative hden hm
  rw [← hplace]
  exact congrArg (Double.mk · _) hsign

theorem ofInt_eq (n : Int) : ofInt n = ⟨n < 0, nearestPlace n.natAbs⟩ := by
  rw [ofInt, ofRatio_eq _ _ one_pos, Nat.cast_one, div_one]

/-- The bounds on the size of a decimal number that its digits give. -/
theorem decimal_bounds {digits : Nat} (hdigits : 0 < digits) (e : Int) :
    (10 : ℚ) ^ (e + (Nat.toDigits 10 digits).length - 1) ≤ digits * 10 ^ e ∧
      (digits * 10 ^ e : ℚ) < 10 ^ (e + (Nat.toDigits 10 digits).length) := by
  set l := (Nat.toDigits 10 digits).length with hl
  have hpos : 0 < l := List.length_pos_iff.mpr Nat.toDigits_ne_nil
  have hlt : digits < 10 ^ l := (Nat.length_toDigits_le_iff (by omega) hpos).mp hl.ge
  have hge : 10 ^ (l - 1) ≤ digits := by
    obtain hone | hmore : l = 1 ∨ 0 < l - 1 := by omega
    · rw [hone]
      exact hdigits
    · refine not_lt.mp fun hsmall => ?_
      have := (Nat.length_toDigits_le_iff (b := 10) (by omega) hmore).mpr hsmall
      omega
  constructor
  · calc (10 : ℚ) ^ (e + l - 1) = (10 : ℚ) ^ (l - 1) * 10 ^ e := by
          rw [← zpow_natCast, ← zpow_add₀ (by norm_num)]
          congr 1
          omega
      _ ≤ digits * 10 ^ e := by
          gcongr
          exact_mod_cast hge
  · calc (digits * 10 ^ e : ℚ) < (10 : ℚ) ^ l * 10 ^ e := by
          gcongr
          exact_mod_cast hlt
      _ = 10 ^ (e + l) := by
          rw [← zpow_natCast, ← zpow_add₀ (by norm_num)]
          congr 1
          omega

theorem two_pow_lt_ten_pow {a b : Nat} (h : Nat.pow 2 a < Nat.pow 10 b) : (2 : ℚ) ^ a < 10 ^ b := by
  have hcast : ((2 ^ a : Nat) : ℚ) < (10 ^ b : Nat) := Nat.cast_lt.mpr h
  simpa using hcast

/-- A number that is too small to be told from zero. -/
theorem nearestPlace_of_tiny {q : ℚ} (hq : 0 ≤ q) (h : q < 10 ^ (-330 : ℤ)) : nearestPlace q = 0 := by
  refine nearestPlace_eq_of_middles (by decide) hq (fun j hj => absurd hj (Nat.succ_ne_zero j)) ?_
  have hmiddle : middle 0 = 1 / 2 * 2 ^ (-1074 : ℤ) := by
    have := middle_add (k := 0) (s := 0) (by omega) (.inl rfl)
    simpa using this
  have hpow : (2 : ℚ) ^ 1075 < 10 ^ 330 := two_pow_lt_ten_pow (by decide +kernel)
  have hhalf : (1 / 2 * 2 ^ (-1074 : ℤ) : ℚ) = (2 ^ 1075)⁻¹ := by
    rw [zpow_neg, pow_succ, mul_inv, one_div, mul_comm]
    rfl
  rw [hmiddle, hhalf]
  refine h.trans ?_
  rw [zpow_neg]
  exact inv_strictAnti₀ (by positivity) hpow

/-- A number beyond all finite doubles. -/
theorem nearestPlace_of_huge {q : ℚ} (h : 2 ^ 1024 ≤ q) : nearestPlace q = infinitePlace := by
  have hq : 0 ≤ q := le_trans (by positivity) h
  refine (eq_nearestPlace hq le_rfl fun m hm => ?_).symm
  refine iff_of_true hm (.inl ?_)
  calc middle m < valueAt (m + 1) := middle_lt_valueAt m
    _ ≤ valueAt infinitePlace := strictMono_valueAt.monotone hm
    _ = 2 ^ 1024 := valueAt_infinitePlace
    _ ≤ q := h

/-- **Decimal numbers are rounded by value**, also those that are too small or too large to be computed. -/
theorem ofDecimal_eq (negative : Bool) (digits : Nat) (e : Int) :
    ofDecimal negative digits e = ⟨negative, nearestPlace (digits * 10 ^ e)⟩ := by
  obtain rfl | hdigits := Nat.eq_zero_or_pos digits
  · have hzero : nearestPlace 0 = 0 := valueAt_zero ▸ nearestPlace_valueAt (by decide)
    simp [ofDecimal, hzero]
  obtain ⟨hlow, hhigh⟩ := decimal_bounds hdigits e
  rw [ofDecimal]
  simp only [Nat.pow_eq]
  split_ifs with htiny hhuge he
  · rw [nearestPlace_of_tiny (by positivity)]
    refine hhigh.trans_le (zpow_le_zpow_right₀ (by norm_num) ?_)
    exact htiny.resolve_left hdigits.ne'
  · rw [nearestPlace_of_huge]
    · rfl
    · refine le_trans ?_ hlow
      calc (2 : ℚ) ^ 1024 ≤ 10 ^ 310 := (two_pow_lt_ten_pow (by decide +kernel)).le
        _ = 10 ^ (310 : ℤ) := (zpow_ofNat _ 310).symm
        _ ≤ _ := zpow_le_zpow_right₀ (by norm_num) (by omega)
  · obtain ⟨n, rfl⟩ := Int.eq_ofNat_of_zero_le he
    rw [ofRatio_eq _ _ one_pos]
    simp
  · obtain ⟨n, hn⟩ := Int.eq_ofNat_of_zero_le (show 0 ≤ -e by omega)
    obtain rfl : e = -n := by omega
    rw [ofRatio_eq _ _ (Nat.pow_pos (by omega))]
    simp [div_eq_mul_inv]

end Double

end RhoScript.Number
