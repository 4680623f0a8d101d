import RhoScript.Number.Decimal
import RhoScript.Proofs.Number.Rounding

/-!
# Shortest decimal numbers

A decimal number reads back as a double if it is rounded to it. The search for the shortest one looks at the
two neighbours of the double among the multiples of a power of ten, and goes on to the next lower power if
neither reads back.

What reads back lies in an interval around the double. So if any multiple of a power of ten reads back, one
of the two neighbours does (`Neighbours.exists_readsBack`), and the neighbours of a double among the multiples
of its seventeenth digit are always close enough (`readsBack_near`).

Main statement: the result of the search reads back, no decimal number with fewer digits does, and none with
as many digits that does is closer (`shortest_isShortest`).
-/

namespace RhoScript.Number

open Double

/-- The value of a decimal number. -/
def Decimal.value (d : Decimal) : ℚ := d.digits * 10 ^ d.exponent

/-- The number of significant digits. -/
def Decimal.length (d : Decimal) : Nat := (Nat.toDigits 10 d.digits).length

/-- The absolute value of a double is nearest to a number. -/
def Double.ReadsBack (x : Double) (q : ℚ) : Prop := IsNearestPlace q x.magnitude

theorem Double.readsBack_iff {x : Double} {q : ℚ} (hq : 0 ≤ q) :
    x.ReadsBack q ↔ nearestPlace q = x.magnitude := (nearestPlace_eq_iff hq).symm

/-- The absolute value of a double. -/
def Double.size (x : Double) : ℚ := valueAt x.magnitude

/-- A decimal number is the shortest one for a double: it reads back, no shorter one does, none of its
length that does is closer, and if another is as close its last digit is even. -/
structure Decimal.IsShortest (x : Double) (d : Decimal) : Prop where
  pos : 0 < d.digits
  trimmed : d.digits % 10 ≠ 0
  readsBack : x.ReadsBack d.value
  shortest : ∀ d' : Decimal, 0 < d'.digits → x.ReadsBack d'.value → d.length ≤ d'.length
  closest : ∀ d' : Decimal, 0 < d'.digits → x.ReadsBack d'.value → d'.length = d.length →
    |d.value - x.size| ≤ |d'.value - x.size|
  even : ∀ d' : Decimal, 0 < d'.digits → x.ReadsBack d'.value → d'.length = d.length →
    |d'.value - x.size| = |d.value - x.size| → d' = d ∨ d.digits % 2 = 0

namespace Decimal

variable {x : Double} {num den : Nat} {e top : Int}

/-! ### Powers of ten -/

theorem ten_zpow_pos (e : Int) : (0 : ℚ) < 10 ^ e := zpow_pos (by norm_num) e

theorem value_nonneg (d : Decimal) : 0 ≤ d.value := by
  have := ten_zpow_pos d.exponent
  rw [value]
  positivity

theorem IsShortest.nearestPlace_value {d : Decimal} (h : IsShortest x d) :
    nearestPlace d.value = x.magnitude := (readsBack_iff d.value_nonneg).mp h.readsBack

theorem ten_zpow_add (a b : Int) : (10 : ℚ) ^ (a + b) = 10 ^ a * 10 ^ b := zpow_add₀ (by norm_num) a b

/-- A multiple of a power of ten is one of every lower power. -/
theorem exists_multiple {e e' : Int} (h : e' ≤ e) (c : Nat) :
    ∃ c' : Nat, (c * 10 ^ e : ℚ) = c' * 10 ^ e' := by
  obtain ⟨n, hn⟩ := Int.le.dest h
  refine ⟨c * 10 ^ n, ?_⟩
  rw [← hn, add_comm, ten_zpow_add, zpow_natCast]
  push_cast
  ring

/-- A quotient has as many digits before the point as its whole part. -/
theorem quotient_bounds (hden : 0 < den) (hle : den ≤ num) :
    (10 : ℚ) ^ ((Nat.toDigits 10 (num / den)).length - 1 : ℤ) ≤ num / den ∧
      (num / den : ℚ) < 10 ^ ((Nat.toDigits 10 (num / den)).length : ℤ) := by
  obtain ⟨hlow, hhigh⟩ := decimal_bounds (Nat.div_pos hle hden) 0
  simp only [zpow_zero, mul_one, zero_add] at hlow hhigh
  have hd : (0 : ℚ) < den := by exact_mod_cast hden
  constructor
  · refine hlow.trans ?_
    rw [le_div_iff₀ hd]
    exact_mod_cast Nat.div_mul_le_self num den
  · -- the quotient is less than a power of ten that is greater than its whole part
    have hpow : num / den + 1 ≤ 10 ^ (Nat.toDigits 10 (num / den)).length := by exact_mod_cast hhigh
    have hlt : (num : ℚ) < (num / den + 1 : Nat) * den := by
      exact_mod_cast Nat.lt_mul_of_div_lt (by omega) hden
    rw [div_lt_iff₀ hd]
    refine hlt.trans_le ?_
    gcongr
    exact_mod_cast hpow

/-- The quotient lies in the decade of its logarithm. -/
theorem floorLog10_spec (hnum : 0 < num) (hden : 0 < den) :
    (10 : ℚ) ^ floorLog10 num den ≤ num / den ∧ (num / den : ℚ) < 10 ^ (floorLog10 num den + 1) := by
  have hn : (0 : ℚ) < num := by exact_mod_cast hnum
  have hd : (0 : ℚ) < den := by exact_mod_cast hden
  rw [floorLog10]
  split
  · rw [sub_add_cancel]
    exact quotient_bounds hden ‹_›
  · rename_i hlt
    obtain ⟨hlow, hhigh⟩ := quotient_bounds hnum (Nat.le_of_not_le hlt)
    generalize hl : (Nat.toDigits 10 (den / num)).length = l at hlow hhigh
    have hpos : 0 < l := hl ▸ List.length_pos_iff.mpr Nat.toDigits_ne_nil
    -- the same bounds for the quotient upside down
    have hlow' : (10 : ℚ) ^ (-l : ℤ) < num / den := by
      rw [zpow_neg, ← inv_div]
      exact inv_strictAnti₀ (by positivity) hhigh
    have hhigh' : (num / den : ℚ) ≤ 10 ^ (1 - l : ℤ) := by
      rw [← neg_sub, zpow_neg, ← inv_div]
      exact inv_anti₀ (ten_zpow_pos _) hlow
    have htest : den ≤ num * Nat.pow 10 (l - 1) ↔ (10 : ℚ) ^ (1 - l : ℤ) ≤ num / den := by
      have hexp : (1 - l : ℤ) = -((l - 1 : Nat) : ℤ) := by omega
      rw [hexp, zpow_neg, zpow_natCast, inv_le_iff_one_le_mul₀ (by positivity), div_mul_eq_mul_div,
        one_le_div hd, ← Nat.cast_le (α := ℚ)]
      simp
    dsimp only
    split
    · refine ⟨htest.mp ‹_›, hhigh'.trans_lt ?_⟩
      exact zpow_lt_zpow_right₀ (by norm_num) (by omega)
    · refine ⟨hlow'.le, ?_⟩
      rw [neg_add_eq_sub]
      exact not_le.mp fun h => ‹¬ _› (htest.mpr h)

/-! ### Neighbours -/

/-- The two multiples of a power of ten around a number, the nearer first, and of two that are as near the
even one. -/
structure Neighbours (q : ℚ) (e : Int) (near far : Nat) : Prop where
  /-- One is at most the number and the other is greater. -/
  around : (near * 10 ^ e : ℚ) ≤ q ∧ q < far * 10 ^ e ∧ far = near + 1 ∨
    (far * 10 ^ e : ℚ) ≤ q ∧ q < near * 10 ^ e ∧ near = far + 1
  nearer : |near * 10 ^ e - q| ≤ |far * 10 ^ e - q|
  even : |near * 10 ^ e - q| = |far * 10 ^ e - q| → near % 2 = 0

/-- The quotient in units of the power of ten is itself a quotient, and its neighbours are integers. -/
theorem exists_neighbours_eq (num : Nat) (hden : 0 < den) (e : Int) :
    ∃ n d : Nat, 0 < d ∧ (num / den : ℚ) = n / d * 10 ^ e ∧
      neighbours num den e =
        (divNearest n d, if divNearest n d = n / d then n / d + 1 else n / d) := by
  rw [neighbours]
  simp only [Nat.pow_eq]
  split
  · rename_i he
    obtain ⟨k, rfl⟩ := Int.eq_ofNat_of_zero_le he
    refine ⟨num, den * 10 ^ k, by positivity, ?_, by simp⟩
    push_cast
    rw [zpow_natCast]
    field_simp
  · rename_i he
    obtain ⟨k, hk⟩ := Int.eq_ofNat_of_zero_le (show 0 ≤ -e by omega)
    obtain rfl : e = -k := by omega
    refine ⟨num * 10 ^ k, den, hden, ?_, by simp⟩
    push_cast
    rw [zpow_neg, zpow_natCast]
    field_simp

theorem neighbours_spec (num : Nat) (hden : 0 < den) (e : Int) :
    Neighbours (num / den) e (neighbours num den e).1 (neighbours num den e).2 := by
  obtain ⟨n, d, hd, hq, heq⟩ := exists_neighbours_eq num hden e
  have hd' : (0 : ℚ) < d := by exact_mod_cast hd
  have hten := ten_zpow_pos e
  have hlow : ((n / d : Nat) : ℚ) ≤ n / d := by
    rw [le_div_iff₀ hd']
    exact_mod_cast Nat.div_mul_le_self n d
  have hhigh : (n / d : ℚ) < (n / d : Nat) + 1 := by
    rw [div_lt_iff₀ hd']
    exact_mod_cast Nat.lt_mul_of_div_lt (Nat.lt_succ_self _) hd
  have hround : ∀ s, s < divNearest n d ↔ RoundsUp (s + 1 / 2) s (n / d) := fun s => lt_divNearest_iff hd
  rw [heq, hq]
  generalize divNearest n d = near at hround
  generalize n / d = low at hlow hhigh
  generalize (n / d : ℚ) = t at hlow hhigh hround
  have hlow' := mul_le_mul_of_nonneg_right hlow hten.le
  have hhigh' := mul_lt_mul_of_pos_right hhigh hten
  have hle : near ≤ low + 1 := by
    refine not_lt.mp fun hlt => not_roundsUp_of_lt ?_ ((hround _).mp hlt)
    push_cast
    linarith
  have hbelow : |low * 10 ^ e - t * 10 ^ e| = (t - low) * 10 ^ e := by
    rw [abs_of_nonpos (by linarith)]
    ring
  have habove : |(low + 1 : Nat) * 10 ^ e - t * 10 ^ e| = (low + 1 - t) * 10 ^ e := by
    push_cast
    rw [abs_of_nonneg (by linarith)]
    ring
  by_cases hup : low < near
  · obtain rfl : near = low + 1 := by omega
    simp only [Nat.succ_ne_self, if_false]
    refine ⟨.inr ⟨hlow', by exact_mod_cast hhigh', rfl⟩, ?_, fun htie => ?_⟩
    · have hhalf : (low + 1 / 2 : ℚ) ≤ t := ((hround low).mp hup).elim le_of_lt fun h => h.1.le
      rw [hbelow, habove]
      exact mul_le_mul_of_nonneg_right (by linarith) hten.le
    · rw [hbelow, habove] at htie
      have hmiddle := mul_right_cancel₀ hten.ne' htie
      obtain h | ⟨-, hodd⟩ := (hround low).mp hup
      · linarith
      · omega
  · obtain rfl : near = low := by
      refine le_antisymm (not_lt.mp hup) (not_lt.mp fun hlt => ?_)
      obtain ⟨s, rfl⟩ : ∃ s, low = s + 1 := ⟨low - 1, by omega⟩
      refine absurd ((hround s).mpr (.inl ?_)) (by omega)
      push_cast at hlow
      linarith
    simp only [if_true]
    refine ⟨.inl ⟨hlow', by exact_mod_cast hhigh', rfl⟩, ?_, fun htie => ?_⟩
    · have hhalf : (t : ℚ) ≤ near + 1 / 2 := not_lt.mp fun h => hup ((hround near).mpr (.inl h))
      rw [hbelow, habove]
      exact mul_le_mul_of_nonneg_right (by linarith) hten.le
    · rw [hbelow, habove] at htie
      have hmiddle := mul_right_cancel₀ hten.ne' htie
      by_contra hodd
      exact hup ((hround near).mpr (.inr ⟨by linarith, by omega⟩))

namespace Neighbours

variable {q : ℚ} {near far : Nat}

/-- A multiple lies beyond one of the neighbours, seen from the number. -/
theorem beyond (h : Neighbours q e near far) (c : Nat) :
    ∃ z : Nat, (z = near ∨ z = far) ∧
      ((c * 10 ^ e : ℚ) ≤ z * 10 ^ e ∧ (z * 10 ^ e : ℚ) ≤ q ∨
        q ≤ z * 10 ^ e ∧ (z * 10 ^ e : ℚ) ≤ c * 10 ^ e) := by
  have hten := ten_zpow_pos e
  have hmono : ∀ {a b : Nat}, a ≤ b → (a * 10 ^ e : ℚ) ≤ b * 10 ^ e := fun hab => by gcongr
  obtain ⟨hlow, hhigh, rfl⟩ | ⟨hlow, hhigh, rfl⟩ := h.around
  · obtain hle | hgt := Nat.lt_or_ge near c
    · exact ⟨near + 1, .inr rfl, .inr ⟨hhigh.le, hmono hle⟩⟩
    · exact ⟨near, .inl rfl, .inl ⟨hmono hgt, hlow⟩⟩
  · obtain hle | hgt := Nat.lt_or_ge far c
    · exact ⟨far + 1, .inl rfl, .inr ⟨hhigh.le, hmono hle⟩⟩
    · exact ⟨far, .inr rfl, .inl ⟨hmono hgt, hlow⟩⟩

end Neighbours

/-- A number between a double and one that reads back reads back, and is closer. -/
theorem readsBack_of_between {p q : ℚ} (hx : x.isFinite = true) (hq : 0 ≤ q)
    (h : x.ReadsBack q) (hbetween : q ≤ p ∧ p ≤ x.size ∨ x.size ≤ p ∧ p ≤ q) :
    x.ReadsBack p ∧ |p - x.size| ≤ |q - x.size| := by
  have hself : nearestPlace x.size = x.magnitude := nearestPlace_valueAt (by simpa [isFinite] using hx)
  have hsize : 0 ≤ x.size := valueAt_nonneg _
  rw [readsBack_iff hq] at h
  obtain ⟨hqp, hpx⟩ | ⟨hxp, hpq⟩ := hbetween
  · refine ⟨(readsBack_iff (hq.trans hqp)).mpr (nearestPlace_eq_of_between hq hqp hpx h hself), ?_⟩
    rw [abs_of_nonpos (by linarith), abs_of_nonpos (by linarith)]
    linarith
  · refine ⟨(readsBack_iff (hsize.trans hxp)).mpr (nearestPlace_eq_of_between hsize hxp hpq hself h), ?_⟩
    rw [abs_of_nonneg (by linarith), abs_of_nonneg (by linarith)]
    linarith

namespace Neighbours

variable {near far c : Nat} (h : Neighbours x.size e near far) (hx : x.isFinite = true)
  (hc : x.ReadsBack (c * 10 ^ e))

include h hx hc

/-- **One of the neighbours reads back** if any multiple does, and it is closer or the same. -/
theorem exists_readsBack :
    ∃ z : Nat, (z = near ∨ z = far) ∧ x.ReadsBack (z * 10 ^ e) ∧
      |z * 10 ^ e - x.size| ≤ |c * 10 ^ e - x.size| ∧
      (|c * 10 ^ e - x.size| = |z * 10 ^ e - x.size| → c = z) := by
  obtain ⟨z, hz, hbetween⟩ := h.beyond c
  have hten := ten_zpow_pos e
  obtain ⟨hread, hclose⟩ := readsBack_of_between hx (by positivity) hc hbetween
  refine ⟨z, hz, hread, hclose, fun heq => ?_⟩
  -- both are on the same side of the double
  have hsame : (c * 10 ^ e : ℚ) = z * 10 ^ e := by
    obtain ⟨hcz, hzx⟩ | ⟨hxz, hzc⟩ := hbetween
    · rw [abs_of_nonpos (by linarith), abs_of_nonpos (by linarith)] at heq
      linarith
    · rw [abs_of_nonneg (by linarith), abs_of_nonneg (by linarith)] at heq
      linarith
  exact_mod_cast mul_right_cancel₀ hten.ne' hsame

/-- No multiple that reads back is closer than the nearer neighbour, and one that is as close is the same
or leaves the choice to the last digit. -/
theorem near_closest : |near * 10 ^ e - x.size| ≤ |c * 10 ^ e - x.size| ∧
    (|c * 10 ^ e - x.size| = |near * 10 ^ e - x.size| → c = near ∨ near % 2 = 0) := by
  obtain ⟨z, rfl | rfl, -, hclose, hsame⟩ := h.exists_readsBack hx hc
  · exact ⟨hclose, fun heq => .inl (hsame heq)⟩
  · exact ⟨h.nearer.trans hclose, fun heq => .inr (h.even (le_antisymm h.nearer (heq ▸ hclose)))⟩

/-- If the nearer neighbour does not read back, the other is the closest that does. -/
theorem far_closest (hnear : ¬ x.ReadsBack (near * 10 ^ e)) :
    |far * 10 ^ e - x.size| ≤ |c * 10 ^ e - x.size| ∧
      (|c * 10 ^ e - x.size| = |far * 10 ^ e - x.size| → c = far) := by
  obtain ⟨z, rfl | rfl, hread, hclose, hsame⟩ := h.exists_readsBack hx hc
  · exact absurd hread hnear
  · exact ⟨hclose, hsame⟩

end Neighbours

/-! ### Seventeen digits -/

/-- Doubles are not closer to each other than to within one part in `2 ^ 53`. -/
theorem gap_below (m : Nat) : valueAt (m + 1) / 2 ^ 53 ≤ valueAt (m + 1) - valueAt m := by
  obtain ⟨k, t, hm, ht, hk⟩ := exists_binade m
  have hp : (0 : ℚ) < 2 ^ (k - 1074 : ℤ) := by positivity
  have ht' : (t + 1 : ℚ) ≤ 2 ^ 53 := by exact_mod_cast ht
  rw [hm, Nat.add_assoc, valueAt_add ht.le hk, valueAt_add (by omega) (hk.imp_right (by omega)),
    div_le_iff₀ (by positivity)]
  push_cast
  nlinarith

theorem gap_above (m : Nat) : valueAt m / 2 ^ 53 < valueAt (m + 1) - valueAt m := by
  obtain ⟨k, t, hm, ht, hk⟩ := exists_binade m
  have hp : (0 : ℚ) < 2 ^ (k - 1074 : ℤ) := by positivity
  have ht' : (t : ℚ) < 2 ^ 53 := by exact_mod_cast ht
  rw [hm, Nat.add_assoc, valueAt_add ht.le hk, valueAt_add (by omega) (hk.imp_right (by omega)),
    div_lt_iff₀ (by positivity)]
  push_cast
  nlinarith

/-- **Seventeen digits suffice**: the nearer multiple of the seventeenth digit reads back. -/
theorem readsBack_near (hx : x.isFinite = true) (hzero : x.isZero = false)
    (htop : (10 : ℚ) ^ top ≤ x.size) {near far : Nat}
    (h : Neighbours x.size (top - 16) near far) : x.ReadsBack (near * 10 ^ (top - 16)) := by
  have hm : x.magnitude < infinitePlace := by simpa [isFinite] using hx
  obtain ⟨m, hm'⟩ : ∃ m, x.magnitude = m + 1 := ⟨x.magnitude - 1, by simp [isZero] at hzero; omega⟩
  have hten := ten_zpow_pos (top - 16)
  -- the multiples are at most a part in `10 ^ 16` of the double apart
  have hstep : (10 : ℚ) ^ (top - 16) * 10 ^ 16 ≤ x.size := by
    have hexp : (10 : ℚ) ^ top = 10 ^ (top - 16) * 10 ^ 16 := by
      rw [← zpow_natCast, ← ten_zpow_add]
      congr 1
      ring
    exact hexp ▸ htop
  have hdist : |near * 10 ^ (top - 16) - x.size| ≤ 10 ^ (top - 16) / 2 := by
    have hnearer := h.nearer
    obtain ⟨hlow, hhigh, rfl⟩ | ⟨hlow, hhigh, rfl⟩ := h.around
    · rw [abs_of_nonpos (by linarith), abs_of_pos (by linarith)] at hnearer
      rw [abs_of_nonpos (by linarith)]
      push_cast at hnearer
      linarith
    · rw [abs_of_pos (by linarith), abs_of_nonpos (by linarith)] at hnearer
      rw [abs_of_pos (by linarith)]
      push_cast at hnearer ⊢
      linarith
  have hpos : 0 < x.size := lt_of_lt_of_le (ten_zpow_pos top) htop
  have hhalf : (10 : ℚ) ^ (top - 16) < x.size / 2 ^ 53 := by
    rw [lt_div_iff₀ (by positivity)]
    nlinarith
  obtain ⟨hleft, hright⟩ := abs_le.mp hdist
  have hnear : (0 : ℚ) ≤ near * 10 ^ (top - 16) := by positivity
  refine (readsBack_iff hnear).mpr (nearestPlace_eq_of_middles hm hnear ?_ ?_)
  · intro j hj
    obtain rfl : j = m := by omega
    have hgap := gap_below j
    rw [middle]
    rw [Double.size, hm'] at hleft hhalf
    linarith
  · have hgap := gap_above x.magnitude
    rw [middle]
    rw [Double.size] at hright hhalf
    linarith

/-! ### Zeros at the end -/

theorem value_strip (fuel digits : Nat) (e : Int) : (strip fuel digits e).value = digits * 10 ^ e := by
  fun_induction strip fuel digits e with
  | case1 => rfl
  | case2 fuel digits e hzero ih =>
    rw [ih, add_comm, ten_zpow_add, ← mul_assoc]
    congr 1
    have : (digits / 10 * 10 : Nat) = digits := by omega
    exact_mod_cast this
  | case3 => rfl

theorem exponent_strip (fuel digits : Nat) (e : Int) : e ≤ (strip fuel digits e).exponent := by
  fun_induction strip fuel digits e with
  | case1 => exact le_rfl
  | case2 fuel digits e hzero ih => omega
  | case3 => exact le_rfl

/-- All zeros are taken away if there can be no more than the fuel. -/
theorem trimmed_strip {fuel digits : Nat} (e : Int) (hpos : 0 < digits) (hlt : digits < 10 ^ (fuel + 1)) :
    (strip fuel digits e).digits % 10 ≠ 0 := by
  fun_induction strip fuel digits e with
  | case1 digits e =>
    dsimp only
    omega
  | case2 fuel digits e hzero ih =>
    refine ih (by omega) ?_
    rw [pow_succ] at hlt
    omega
  | case3 fuel digits e hzero => exact hzero

theorem pos_of_trimmed {d : Decimal} (h : d.digits % 10 ≠ 0) : 0 < d.digits := by omega

/-! ### Numbers of digits -/

theorem length_pos (d : Decimal) : 0 < d.length := List.length_pos_iff.mpr Nat.toDigits_ne_nil

/-- The value lies in the decade that its digits and its exponent give. -/
theorem value_bounds {d : Decimal} (h : 0 < d.digits) :
    (10 : ℚ) ^ (d.exponent + d.length - 1) ≤ d.value ∧ d.value < 10 ^ (d.exponent + d.length) :=
  decimal_bounds h d.exponent

/-- What has no zeros at the end has the fewest digits among the decimal numbers of its value. -/
theorem exponent_le_of_trimmed {d : Decimal} (h : d.digits % 10 ≠ 0) {c : Nat}
    (hvalue : d.value = c * 10 ^ e) : e ≤ d.exponent := by
  by_contra hlt
  obtain ⟨n, hn⟩ := Int.le.dest (show d.exponent + 1 ≤ e by omega)
  have hpow : (10 : ℚ) ^ e = 10 ^ (n + 1) * 10 ^ d.exponent := by
    rw [← zpow_natCast, ← ten_zpow_add]
    congr 1
    push_cast
    omega
  rw [value, hpow, ← mul_assoc] at hvalue
  have hdigits : d.digits = c * 10 ^ (n + 1) := by
    exact_mod_cast mul_right_cancel₀ (ten_zpow_pos _).ne' hvalue
  rw [pow_succ, ← mul_assoc] at hdigits
  omega

/-- Digits and exponent are determined by the value and the number of digits. -/
theorem eq_of_value_eq {d d' : Decimal} (hpos : 0 < d.digits) (hpos' : 0 < d'.digits)
    (hvalue : d'.value = d.value) (hlength : d'.length = d.length) : d' = d := by
  obtain ⟨hlow, hhigh⟩ := value_bounds hpos
  obtain ⟨hlow', hhigh'⟩ := value_bounds hpos'
  have hlt := (zpow_lt_zpow_iff_right₀ (show (1 : ℚ) < 10 by norm_num)).mp
    (hlow.trans_lt (hvalue ▸ hhigh'))
  have hgt := (zpow_lt_zpow_iff_right₀ (show (1 : ℚ) < 10 by norm_num)).mp
    (hlow'.trans_lt (hvalue.symm ▸ hhigh))
  obtain ⟨digits, exponent⟩ := d
  obtain ⟨digits', exponent'⟩ := d'
  obtain rfl : exponent' = exponent := by
    dsimp only at hlt hgt hlength
    omega
  have hdigits : digits' = digits := by exact_mod_cast mul_right_cancel₀ (ten_zpow_pos _).ne' hvalue
  rw [hdigits]

/-- No multiple of nineteen becomes a number from one to nine by moving the point. -/
theorem nineteen_mul_ne {t p : Nat} (ht : 0 < t) (hsmall : t ≤ 9) (hp : 0 < p) (top : Int) :
    (19 * p * 10 ^ top : ℚ) ≠ t := by
  intro hmul
  obtain htop | htop := le_or_gt 0 top
  · obtain ⟨f, rfl⟩ := Int.eq_ofNat_of_zero_le htop
    have hnat : 19 * p * 10 ^ f = t := by exact_mod_cast hmul
    have := Nat.mul_pos hp (Nat.pow_pos (n := f) (show 0 < 10 by decide))
    rw [Nat.mul_assoc] at hnat
    omega
  · obtain ⟨f, hf⟩ := Int.eq_ofNat_of_zero_le (show 0 ≤ -top by omega)
    obtain rfl : top = -f := by omega
    rw [zpow_neg, zpow_natCast, ← div_eq_mul_inv, div_eq_iff (by positivity)] at hmul
    have hnat : 19 * p = t * 10 ^ f := by exact_mod_cast hmul
    have hcoprime : Nat.Coprime 19 (10 ^ f) := Nat.Coprime.pow_right f (by decide)
    have := Nat.le_of_dvd ht (hcoprime.dvd_of_dvd_mul_right ⟨p, hnat.symm⟩)
    omega

/-- A double is never in the middle between nine and ten times a power of ten if the latter reads back: the
next double would be too far away, and such a double is a small multiple of a power of two. -/
theorem two_mul_size_ne (hx : x.isFinite = true) (hzero : x.isZero = false)
    (hread : x.ReadsBack (10 * 10 ^ top)) : 2 * x.size ≠ 19 * 10 ^ top := by
  intro htie
  have hm : x.magnitude < infinitePlace := by simpa [isFinite] using hx
  have hten := ten_zpow_pos top
  have hle : (10 * 10 ^ top : ℚ) ≤ middle x.magnitude := by
    have hnonneg : (0 : ℚ) ≤ 10 * 10 ^ top := by positivity
    refine not_lt.mp fun hlt => ?_
    exact ((lt_nearestPlace_iff hnonneg hm).mpr (.inl hlt)).ne' ((readsBack_iff hnonneg).mp hread)
  obtain ⟨k, t, hplace, ht, hk⟩ := exists_binade x.magnitude
  have hsize : x.size = t * 2 ^ (k - 1074 : ℤ) := by rw [Double.size, hplace, valueAt_add ht.le hk]
  have hpow : (0 : ℚ) < 2 ^ (k - 1074 : ℤ) := by positivity
  rw [hplace, middle_add ht hk] at hle
  rw [hsize] at htie
  have hsmall : t ≤ 9 := by
    have hlt : (t : ℚ) < 10 := by nlinarith
    exact Nat.le_of_lt_succ (by exact_mod_cast hlt)
  obtain rfl : k = 0 := by omega
  have hpos : 0 < t := by
    rw [isZero, decide_eq_false_iff_not, hplace] at hzero
    omega
  have hexists : ∀ n : Nat, ∃ p : Nat, 0 < p ∧ (2 : ℚ) ^ (-(n + 1) : ℤ) * p * 2 = 1 := fun n => by
    refine ⟨2 ^ n, Nat.pow_pos two_pos, ?_⟩
    rw [zpow_neg, zpow_add_one₀ two_ne_zero, zpow_natCast]
    push_cast
    field_simp
  obtain ⟨p, hp, hscale⟩ := hexists 1073
  refine nineteen_mul_ne hpos hsmall hp top ?_
  calc (19 * p * 10 ^ top : ℚ) = p * (19 * 10 ^ top) := by ring
    _ = t * (2 ^ (((0 : Nat) : ℤ) - 1074) * p * 2) := by
        rw [← htie]
        ring
    _ = t := (congrArg _ hscale).trans (mul_one _)

/-- If ten times a power of ten reads back and is closer than nine times it, no other multiple is as close. -/
theorem eq_ten (hx : x.isFinite = true) (hzero : x.isZero = false) (hlt : x.size < 10 ^ (top + 1))
    (hread : x.ReadsBack ((10 : Nat) * 10 ^ top))
    (hclosest : x.ReadsBack ((9 : Nat) * 10 ^ top) →
      |(10 : Nat) * 10 ^ top - x.size| ≤ |(9 : Nat) * 10 ^ top - x.size|) {c : Nat}
    (hclose : |c * 10 ^ top - x.size| = |(10 : Nat) * 10 ^ top - x.size|) : c = 10 := by
  have hten := ten_zpow_pos top
  push_cast at hread hclose hclosest
  rw [add_comm, ten_zpow_add, zpow_one] at hlt
  rw [abs_of_nonneg (by linarith : (0 : ℚ) ≤ 10 * 10 ^ top - x.size)] at hclose hclosest
  by_contra hne
  have hle : c ≤ 9 := by
    refine not_lt.mp fun hgt => ?_
    have hcast : (11 : ℚ) ≤ c := by exact_mod_cast (show 11 ≤ c by omega)
    rw [abs_of_nonneg (by nlinarith)] at hclose
    nlinarith
  have hcast : (c : ℚ) ≤ 9 := by exact_mod_cast hle
  -- the double is in the middle between this multiple and ten
  have hsum : 2 * x.size = (c + 10) * 10 ^ top := by
    obtain habs | habs := abs_cases (c * 10 ^ top - x.size)
    · nlinarith
    · linarith
  obtain hlt9 | rfl := hle.lt_or_eq
  · -- and so not above nine, which would be closer than ten
    have hcast8 : (c : ℚ) ≤ 8 := by exact_mod_cast Nat.le_of_lt_succ hlt9
    have hbetween : x.size ≤ 9 * 10 ^ top := by nlinarith
    have hcloser := hclosest (readsBack_of_between hx (by positivity) hread
      (.inr ⟨hbetween, by linarith⟩)).1
    rw [abs_of_nonneg (by linarith)] at hcloser
    linarith
  · refine two_mul_size_ne hx hzero hread ?_
    rw [hsum]
    norm_num

/-! ### The search -/

/-- Some multiple of the power of ten reads back. -/
def HasMultiple (x : Double) (e : Int) : Prop := ∃ c : Nat, x.ReadsBack (c * 10 ^ e)

/-- A decimal number of few digits that reads back is a multiple of a high power of ten, or else the power
at the top of the double is. -/
theorem hasMultiple_of_readsBack (hx : x.isFinite = true) (htop : (10 : ℚ) ^ top ≤ x.size) {d : Decimal}
    (hpos : 0 < d.digits) (h : x.ReadsBack d.value) :
    ∃ c : Nat, x.ReadsBack (c * 10 ^ (top + 1 - d.length)) ∧
      (d.value = c * 10 ^ (top + 1 - d.length) ∨
        |c * 10 ^ (top + 1 - d.length) - x.size| < |d.value - x.size|) := by
  obtain ⟨-, hhigh⟩ := value_bounds hpos
  have hlength := d.length_pos
  obtain hle | hlt := le_or_gt ((10 : ℚ) ^ top) d.value
  · have hexp : top < d.exponent + d.length :=
      (zpow_lt_zpow_iff_right₀ (by norm_num)).mp (hle.trans_lt hhigh)
    obtain ⟨c, hc⟩ := exists_multiple (show top + 1 - d.length ≤ d.exponent by omega) d.digits
    refine ⟨c, ?_, .inl hc⟩
    rw [← hc]
    exact h
  · obtain ⟨c, hc⟩ := exists_multiple (show top + 1 - d.length ≤ top by omega) 1
    rw [Nat.cast_one, one_mul] at hc
    refine ⟨c, ?_, .inr ?_⟩
    · rw [← hc]
      exact (readsBack_of_between hx d.value_nonneg h (.inl ⟨hlt.le, htop⟩)).1
    · rw [← hc, abs_of_nonpos (by linarith), abs_of_nonpos (by linarith)]
      linarith

/-- What the search gives: a neighbour that reads back and is as close as any that does, at the first power
of ten at which one does. -/
structure Found (x : Double) (top : Int) (d : Decimal) (j c : Nat) : Prop where
  bound : j ≤ 16
  eq : d = strip 17 c (top - j)
  readsBack : x.ReadsBack (c * 10 ^ (top - j))
  first : ∀ i < j, ¬ HasMultiple x (top - i)
  closest : ∀ c' : Nat, x.ReadsBack (c' * 10 ^ (top - j)) →
    |c * 10 ^ (top - j) - x.size| ≤ |c' * 10 ^ (top - j) - x.size| ∧
      (|c' * 10 ^ (top - j) - x.size| = |c * 10 ^ (top - j) - x.size| → c' = c ∨ c % 2 = 0)
  below : (c * 10 ^ (top - j) : ℚ) ≤ 10 ^ (top + 1)

/-- The neighbours of a number are not beyond the decade that it is in. -/
theorem Neighbours.le_of_lt {q : ℚ} {near far : Nat} (h : Neighbours q e near far)
    (hq : q < 10 ^ (top + 1)) (he : e ≤ top + 1) {z : Nat} (hz : z = near ∨ z = far) :
    (z * 10 ^ e : ℚ) ≤ 10 ^ (top + 1) := by
  obtain ⟨c, hc⟩ := exists_multiple he 1
  rw [Nat.cast_one, one_mul] at hc
  have hten := ten_zpow_pos e
  rw [hc] at hq ⊢
  have hlt : ∀ {a : Nat}, (a * 10 ^ e : ℚ) ≤ q → a < c := fun ha => by
    exact_mod_cast lt_of_mul_lt_mul_right (ha.trans_lt hq) hten.le
  have hle : z ≤ c := by
    obtain ⟨hlow, -, rfl⟩ | ⟨hlow, -, rfl⟩ := h.around <;> have := hlt hlow <;> omega
  gcongr

section Search

variable (hx : x.isFinite = true) (hzero : x.isZero = false) (hden : 0 < den)
  (hsize : (num / den : ℚ) = x.size) (htop : (10 : ℚ) ^ top ≤ x.size) (hlt : x.size < 10 ^ (top + 1))

include hx hzero hden hsize htop hlt in
/-- The search looks at the powers of ten from the top down, and ends at the first at which a neighbour
reads back. -/
theorem search_found {left : Nat} (hleft : left ≤ 16)
    (hfirst : ∀ i < 16 - left, ¬ HasMultiple x (top - i)) :
    ∃ j c, Found x top (search x num den top left) j c := by
  induction left with
  | zero =>
    have hneighbours := neighbours_spec num hden (top - 16)
    rw [hsize] at hneighbours
    have hread := readsBack_near hx hzero htop hneighbours
    exact ⟨16, _, le_rfl, rfl, hread, hfirst, fun c' hc' => hneighbours.near_closest hx hc',
      hneighbours.le_of_lt hlt (by omega) (.inl rfl)⟩
  | succ left ih =>
    have hneighbours := neighbours_spec num hden (top - (15 - left : Nat))
    rw [hsize] at hneighbours
    have hj : 16 - (left + 1) = 15 - left := by omega
    rw [hj] at hfirst
    simp only [search, ofDecimal_eq]
    generalize (neighbours num den (top - (15 - left : Nat))).1 = near at hneighbours
    generalize (neighbours num den (top - (15 - left : Nat))).2 = far at hneighbours
    have hread : ∀ c : Nat, nearestPlace (c * 10 ^ (top - (15 - left : Nat))) = x.magnitude ↔
        x.ReadsBack (c * 10 ^ (top - (15 - left : Nat))) := by
      intro c
      have hten := ten_zpow_pos (top - (15 - left : Nat))
      exact (readsBack_iff (by positivity)).symm
    split_ifs with hnear hfar <;> rw [hread] at hnear
    · exact ⟨15 - left, near, by omega, rfl, hnear, hfirst, fun c' hc' => hneighbours.near_closest hx hc',
        hneighbours.le_of_lt hlt (by omega) (.inl rfl)⟩
    · exact ⟨15 - left, far, by omega, rfl, (hread far).mp hfar, hfirst,
        fun c' hc' => (hneighbours.far_closest hx hc' hnear).imp_right fun hsame heq => .inl (hsame heq),
        hneighbours.le_of_lt hlt (by omega) (.inr rfl)⟩
    · rw [hread] at hfar
      refine ih (by omega) fun i hi => ?_
      by_cases hlast : i < 15 - left
      · exact hfirst i hlast
      · obtain rfl : i = 15 - left := by omega
        rintro ⟨c, hc⟩
        obtain ⟨z, rfl | rfl, hread, -⟩ := hneighbours.exists_readsBack hx hc
        · exact hnear hread
        · exact hfar hread

end Search

theorem size_pos (hzero : x.isZero = false) : 0 < x.size := by
  have hm : 0 < x.magnitude := by simp [isZero] at hzero; omega
  exact valueAt_zero ▸ strictMono_valueAt hm

/-- The power of ten at the top of a double. -/
def topOf (x : Double) : Int := floorLog10 x.ratio.1 x.ratio.2

theorem topOf_spec (hzero : x.isZero = false) :
    (10 : ℚ) ^ topOf x ≤ x.size ∧ x.size < 10 ^ (topOf x + 1) := by
  have hsize : (x.ratio.1 / x.ratio.2 : ℚ) = x.size := x.ratio_quotient
  have hnum : 0 < x.ratio.1 := by
    refine Nat.pos_of_ne_zero fun hnum => ?_
    rw [hnum, Nat.cast_zero, zero_div] at hsize
    exact (size_pos hzero).ne hsize
  have hspec := floorLog10_spec hnum x.ratio_pos
  rwa [hsize] at hspec

theorem shortest_found (hx : x.isFinite = true) (hzero : x.isZero = false) :
    ∃ j c, Found x (topOf x) (shortest x) j c := by
  obtain ⟨htop, hlt⟩ := topOf_spec hzero
  exact search_found hx hzero x.ratio_pos x.ratio_quotient htop hlt le_rfl
    fun i hi => absurd hi (by omega)

namespace Found

variable {d : Decimal} {j c : Nat}

/-- The power of ten that bounds the multiples. -/
theorem pow_mul (top : Int) (j : Nat) : (10 ^ (j + 1) : Nat) * (10 : ℚ) ^ (top - j) = 10 ^ (top + 1) := by
  rw [Nat.cast_pow, Nat.cast_ofNat, ← zpow_natCast, ← ten_zpow_add]
  congr 1
  push_cast
  ring

theorem value_eq (h : Found x top d j c) : d.value = c * 10 ^ (top - j) := by
  rw [h.eq, value_strip]

theorem pos (h : Found x top d j c) (hzero : x.isZero = false) : 0 < c := by
  refine Nat.pos_of_ne_zero fun hc => ?_
  have hread := h.readsBack
  rw [hc, Nat.cast_zero, zero_mul, readsBack_iff le_rfl, ← valueAt_zero,
    nearestPlace_valueAt (by decide)] at hread
  simp [isZero, ← hread] at hzero

theorem le (h : Found x top d j c) : c ≤ 10 ^ (j + 1) := by
  have hle := h.below
  rw [← pow_mul top j] at hle
  exact_mod_cast le_of_mul_le_mul_right hle (ten_zpow_pos _)

theorem trimmed (h : Found x top d j c) (hzero : x.isZero = false) : d.digits % 10 ≠ 0 := by
  rw [h.eq]
  refine trimmed_strip _ (h.pos hzero) (h.le.trans_lt ?_)
  have := h.bound
  exact Nat.pow_lt_pow_right (by omega) (by omega)

theorem exponent_ge (h : Found x top d j c) : top - j ≤ d.exponent := h.eq ▸ exponent_strip 17 c (top - j)

/-- Below the power of ten the digits without their zeros are no more than those that were looked at. -/
theorem exponent_lt (h : Found x top d j c) (hzero : x.isZero = false) (hlt : c < 10 ^ (j + 1)) :
    d.exponent + d.length - 1 < top + 1 := by
  obtain ⟨hlow, -⟩ := value_bounds (pos_of_trimmed (h.trimmed hzero))
  refine (zpow_lt_zpow_iff_right₀ (show (1 : ℚ) < 10 by norm_num)).mp (hlow.trans_lt ?_)
  rw [h.value_eq, ← pow_mul top j]
  have := ten_zpow_pos (top - j)
  gcongr

/-- The power of ten itself has one digit. -/
theorem length_le_one (h : Found x top d j c) (hzero : x.isZero = false) (heq : c = 10 ^ (j + 1)) :
    d.length ≤ 1 := by
  obtain ⟨hlow, -⟩ := value_bounds (pos_of_trimmed (h.trimmed hzero))
  have hvalue : d.value = (1 : Nat) * 10 ^ (top + 1) := by
    rw [h.value_eq, heq, pow_mul, Nat.cast_one, one_mul]
  have hge := exponent_le_of_trimmed (h.trimmed hzero) hvalue
  have hexp : d.exponent + d.length - 1 ≤ top + 1 := by
    refine (zpow_le_zpow_iff_right₀ (show (1 : ℚ) < 10 by norm_num)).mp (hlow.trans_eq ?_)
    rw [hvalue, Nat.cast_one, one_mul]
  omega

/-- The number of digits is that of the first power of ten at which a multiple reads back. -/
theorem length_le (h : Found x top d j c) (hzero : x.isZero = false) : d.length ≤ j + 1 := by
  obtain hlt | heq := h.le.lt_or_eq
  · have := h.exponent_lt hzero hlt
    have := h.exponent_ge
    omega
  · exact (h.length_le_one hzero heq).trans (Nat.le_add_left 1 j)

/-- A decimal number that reads back has as many digits as the search has looked at. -/
theorem lt_length (h : Found x top d j c) (hx : x.isFinite = true) (htop : (10 : ℚ) ^ top ≤ x.size)
    {d' : Decimal} (hpos : 0 < d'.digits) (hread : x.ReadsBack d'.value) : j < d'.length := by
  have hlength := d'.length_pos
  refine not_le.mp fun hle => h.first (d'.length - 1) (by omega) ?_
  obtain ⟨c', hc', -⟩ := hasMultiple_of_readsBack hx htop hpos hread
  refine ⟨c', ?_⟩
  have hexp : top - (d'.length - 1 : Nat) = top + 1 - d'.length := by omega
  rwa [hexp]

/-- A decimal number of as many digits that reads back is one of the multiples that were looked at, or one of
these is closer. -/
theorem multiple (h : Found x top d j c) (hx : x.isFinite = true) (htop : (10 : ℚ) ^ top ≤ x.size)
    {d' : Decimal} (hpos : 0 < d'.digits) (hread : x.ReadsBack d'.value) (hlength : d'.length ≤ j + 1) :
    ∃ c' : Nat, x.ReadsBack (c' * 10 ^ (top - j)) ∧
      (d'.value = c' * 10 ^ (top - j) ∨ |c' * 10 ^ (top - j) - x.size| < |d'.value - x.size|) := by
  have hlt := h.lt_length hx htop hpos hread
  have hexp : top + 1 - d'.length = top - j := by omega
  exact hexp ▸ hasMultiple_of_readsBack hx htop hpos hread

/-- If another multiple is as close, the digit found is even. -/
theorem even (h : Found x top d j c) (hx : x.isFinite = true) (hzero : x.isZero = false)
    (hlt : x.size < 10 ^ (top + 1)) (hlength : d.length = j + 1) {c' : Nat}
    (hread : x.ReadsBack (c' * 10 ^ (top - j)))
    (hclose : |c' * 10 ^ (top - j) - x.size| = |c * 10 ^ (top - j) - x.size|) :
    c' = c ∨ d.digits % 2 = 0 := by
  obtain hsame | heven := (h.closest c' hread).2 hclose
  · exact .inl hsame
  obtain hbelow | heq := h.le.lt_or_eq
  · -- no zeros were taken away, so the digits are the multiple found
    have hexp : d.exponent = top - j := by
      have := h.exponent_lt hzero hbelow
      have := h.exponent_ge
      omega
    have hvalue := h.value_eq
    rw [value, hexp] at hvalue
    have hdigits : d.digits = c := by exact_mod_cast mul_right_cancel₀ (ten_zpow_pos _).ne' hvalue
    exact .inr (hdigits ▸ heven)
  · -- ten times the power of ten at the top was found, and there is no tie
    obtain rfl : j = 0 := by
      have := h.length_le_one hzero heq
      omega
    obtain rfl : c = 10 := heq
    have hclosest := fun hnine => (h.closest 9 hnine).1
    have hread' := h.readsBack
    rw [Nat.cast_zero, sub_zero] at hclose hclosest hread'
    exact .inl (eq_ten hx hzero hlt hread' hclosest hclose)

end Found

/-- **The search finds the shortest decimal number.** -/
theorem shortest_isShortest (hx : x.isFinite = true) (hzero : x.isZero = false) :
    IsShortest x (shortest x) := by
  obtain ⟨htop, hlt⟩ := topOf_spec hzero
  obtain ⟨j, c, h⟩ := shortest_found hx hzero
  have hpos := pos_of_trimmed (h.trimmed hzero)
  have hread : x.ReadsBack (shortest x).value := h.value_eq ▸ h.readsBack
  have hlength : (shortest x).length = j + 1 :=
    le_antisymm (h.length_le hzero) (h.lt_length hx htop hpos hread)
  refine ⟨hpos, h.trimmed hzero, hread, fun d' hpos' hread' => ?_, fun d' hpos' hread' hlength' => ?_,
    fun d' hpos' hread' hlength' htie => ?_⟩
  · have := h.lt_length hx htop hpos' hread'
    omega
  · obtain ⟨c', hc', hvalue | hcloser⟩ := h.multiple hx htop hpos' hread' (by omega)
    · rw [hvalue, h.value_eq]
      exact (h.closest c' hc').1
    · rw [h.value_eq]
      exact (h.closest c' hc').1.trans hcloser.le
  · rw [h.value_eq] at htie
    obtain ⟨c', hc', hvalue | hcloser⟩ := h.multiple hx htop hpos' hread' (by omega)
    · rw [hvalue] at htie
      refine (h.even hx hzero hlt hlength hc' htie).imp_left fun hsame => ?_
      exact eq_of_value_eq hpos hpos' (by rw [hvalue, hsame, h.value_eq]) hlength'
    · exact absurd ((h.closest c' hc').1.trans_lt hcloser) htie.not_gt

/-- The shortest number counts in units that are not smaller than those of any decimal number of as many
digits before its last as there are up to the top of the double. -/
theorem exponent_shortest_ge (hx : x.isFinite = true) (hzero : x.isZero = false) {d : Decimal}
    (hpos : 0 < d.digits) (hread : x.ReadsBack d.value) :
    topOf x + 1 - d.length ≤ (shortest x).exponent := by
  obtain ⟨htop, -⟩ := topOf_spec hzero
  obtain ⟨j, c, h⟩ := shortest_found hx hzero
  have hlt := h.lt_length hx htop hpos hread
  have hge := h.exponent_ge
  omega

end Decimal

end RhoScript.Number
