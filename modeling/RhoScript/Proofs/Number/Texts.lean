import RhoScript.Proofs.Number.Numerals
import RhoScript.Proofs.Number.Shortest

/-!
# The texts of numbers

Integers of less than `2 ^ 53` are written with all their digits, larger ones and doubles with the digits
of the shortest decimal number for the double. Both are one rule: the small integers are doubles, and the
shortest decimal number for such a double is the integer itself (`digitsText_eq_doubleText`). So the text
of a number depends only on the double that is nearest to it (`text?_eq_doubleText`), and since the text
is read back as that double it also determines the double.

Main statement: numbers have the same text exactly if the same double is nearest to them, and a text is
read as a number with that double and that text (`text_canonical`).
-/

namespace RhoScript

open Number Double Numeral

/-- The double nearest to a number. -/
def Ground.double? : Ground → Option Double
  | .int n => some (Double.ofInt n)
  | .double x => some x
  | .bool _ | .string _ => none

namespace Number

/-! ### Whole numbers -/

namespace Double

/-- Whole numbers up to `2 ^ 53` are doubles. -/
theorem exists_place {n : Nat} (hn : n ≤ 2 ^ 53) : ∃ m < infinitePlace, valueAt m = n := by
  obtain hn | rfl := hn.lt_or_eq
  swap
  · refine ⟨1074 * 2 ^ 52 + 2 ^ 53, by decide, ?_⟩
    rw [valueAt_add le_rfl (.inr (by decide))]
    simp
  obtain rfl | hpos := Nat.eq_zero_or_pos n
  · exact ⟨0, by decide, by simp⟩
  have hlow := Nat.log2_self_le hpos.ne'
  have hhigh := Nat.lt_log2_self (n := n)
  obtain ⟨i, hi⟩ : ∃ i, n.log2 + i = 52 := ⟨52 - n.log2, by
    have := (Nat.log2_lt hpos.ne').mpr hn
    omega⟩
  have hge : 2 ^ 52 ≤ n * 2 ^ i := by
    rw [← hi, Nat.pow_add]
    exact Nat.mul_le_mul_right _ hlow
  have hlt : n * 2 ^ i < 2 ^ 53 := by
    have hexp : 53 = n.log2 + 1 + i := by omega
    rw [hexp, Nat.pow_add]
    exact Nat.mul_lt_mul_of_pos_right hhigh (Nat.pow_pos two_pos)
  refine ⟨(1074 - i) * 2 ^ 52 + n * 2 ^ i, ?_, ?_⟩
  · rw [infinitePlace, Nat.pow_eq]
    omega
  · rw [valueAt_add hlt.le (.inr hge)]
    have hexp : (((1074 - i : Nat) : ℤ) - 1074) = -i := by omega
    rw [hexp, zpow_neg, zpow_natCast]
    push_cast
    field_simp

theorem nearestPlace_natCast {n : Nat} (hn : n ≤ 2 ^ 53) :
    nearestPlace n < infinitePlace ∧ valueAt (nearestPlace n) = n := by
  obtain ⟨m, hm, hvalue⟩ := exists_place hn
  rw [← hvalue, nearestPlace_valueAt hm]
  exact ⟨hm, rfl⟩

/-- A whole number that is rounded like a smaller one than `2 ^ 53` is that number. -/
theorem eq_of_nearestPlace_eq {m n : Nat} (hn : n < 2 ^ 53)
    (h : nearestPlace (m : ℚ) = nearestPlace n) : m = n := by
  have hvalue := (nearestPlace_natCast hn.le).2
  obtain hm | hm := Nat.lt_or_ge m (2 ^ 53)
  · have hvalue' := (nearestPlace_natCast hm.le).2
    rw [h, hvalue] at hvalue'
    exact_mod_cast hvalue'.symm
  · -- nothing from `2 ^ 53` on is rounded below it
    have hle : ((2 ^ 53 : Nat) : ℚ) ≤ m := by exact_mod_cast hm
    have hmono := strictMono_valueAt.monotone (nearestPlace_mono (Nat.cast_nonneg _) hle)
    rw [(nearestPlace_natCast le_rfl).2, h, hvalue] at hmono
    exact absurd hn (not_lt.mpr (by exact_mod_cast hmono))

/-! ### Nearest doubles -/

/-- A double is nearest to a number: it has the sign of the number, and its place is nearest to the absolute
value. -/
structure IsNearest (x : Double) (q : ℚ) : Prop where
  sign : x.negative = decide (q < 0)
  place : IsNearestPlace |q| x.magnitude

theorem ofInt_isNearest (n : Int) : (ofInt n).IsNearest n := by
  rw [ofInt_eq]
  constructor
  · simp
  · have habs : |(n : ℚ)| = (n.natAbs : ℚ) := by rw [Nat.cast_natAbs, Int.cast_abs]
    rw [habs]
    exact isNearestPlace_nearestPlace (Nat.cast_nonneg _)

/-- The middle after the last finite double. -/
theorem middle_last : middle (infinitePlace - 1) = (2 ^ 1024 - 2 ^ 970 : Nat) := by
  have hpow : ∀ m n : Nat, m = n + 54 →
      (((2 ^ 53 - 1 : Nat) : ℚ) + 1 / 2) * 2 ^ (n + 1) = (2 ^ m - 2 ^ n : Nat) := by
    rintro m n rfl
    rw [Nat.cast_sub (Nat.pow_le_pow_right two_pos (by omega))]
    push_cast
    ring
  have hplace : infinitePlace - 1 = 2045 * 2 ^ 52 + (2 ^ 53 - 1) := rfl
  have hexp : (2 : ℚ) ^ (((2045 : Nat) : ℤ) - 1074) = 2 ^ (970 + 1) := zpow_natCast 2 971
  rw [hplace, middle_add (by decide) (.inr (by decide)), hexp]
  exact hpow 1024 970 rfl

/-- The integers whose nearest double is finite. -/
theorem isFinite_ofInt_iff (n : Int) :
    (ofInt n).isFinite = true ↔ n.natAbs < 2 ^ 1024 - 2 ^ 970 := by
  have hodd : (infinitePlace - 1) % 2 = 1 := by decide
  have hpos : 0 < infinitePlace := by decide
  have hlast : infinitePlace - 1 < nearestPlace n.natAbs ↔ 2 ^ 1024 - 2 ^ 970 ≤ n.natAbs := by
    rw [lt_nearestPlace_iff (Nat.cast_nonneg _) (by omega), middle_last, RoundsUp, Nat.cast_lt, Nat.cast_inj,
      and_iff_left hodd, ← Nat.le_iff_lt_or_eq]
  have hle : infinitePlace ≤ nearestPlace n.natAbs ↔ infinitePlace - 1 < nearestPlace n.natAbs := by omega
  rw [ofInt_eq, isFinite, decide_eq_true_eq, ← Nat.not_le, hle, hlast, Nat.not_le]

theorem sameNumber_iff {x y : Double} (hy : y.isFinite = true) : x.sameNumber y = true ↔
    x.magnitude = y.magnitude ∧ (x.negative = y.negative ∨ x.magnitude = 0) := by
  rw [isFinite, decide_eq_true_eq] at hy
  simp only [sameNumber, isNaN, isZero, Bool.and_eq_true, Bool.not_eq_true', decide_eq_false_iff_not,
    decide_eq_true_eq, Bool.or_eq_true]
  constructor
  · rintro ⟨⟨-, hmagnitude⟩, hsign⟩
    exact ⟨hmagnitude, hsign⟩
  · rintro ⟨hmagnitude, hsign⟩
    exact ⟨⟨⟨by omega, by omega⟩, hmagnitude⟩, hsign⟩

end Double

/-- The shortest decimal number for a whole number of less than `2 ^ 53` is written as that number. -/
theorem write_shortest_of_whole {x : Double} {n : Nat} (hpos : 0 < n) (hn : n < 2 ^ 53)
    (hx : x.magnitude = nearestPlace n) :
    (Ground.style.write (Decimal.shortest x)).toList = Nat.toDigits 10 n := by
  obtain ⟨hfinite, hvalue⟩ := nearestPlace_natCast hn.le
  have hsize : x.size = n := by rw [Double.size, hx, hvalue]
  have hnpos : (0 : ℚ) < n := by exact_mod_cast hpos
  have hfinite' : x.isFinite = true := by simpa [isFinite, hx] using hfinite
  have hzero : x.isZero = false := by
    refine Bool.eq_false_iff.mpr fun hzero => ?_
    rw [isZero, decide_eq_true_eq] at hzero
    rw [Double.size, hzero, valueAt_zero] at hsize
    exact hnpos.ne hsize
  have hshortest := Decimal.shortest_isShortest hfinite' hzero
  have hten : (1 : ℚ) < 10 := by norm_num
  -- the number itself reads back, so the shortest one is whole
  have hexp : 0 ≤ (Decimal.shortest x).exponent := by
    have hself : (⟨n, 0⟩ : Decimal).value = n := by simp [Decimal.value]
    have hread : x.ReadsBack (⟨n, 0⟩ : Decimal).value := by
      rw [hself, readsBack_iff hnpos.le, hx]
    have hge := Decimal.exponent_shortest_ge hfinite' hzero hpos hread
    obtain ⟨-, hhigh⟩ := Decimal.topOf_spec hzero
    obtain ⟨hlow, -⟩ := Decimal.value_bounds (d := ⟨n, 0⟩) hpos
    rw [hself] at hlow
    rw [hsize] at hhigh
    have hlt := (zpow_lt_zpow_iff_right₀ hten).mp (hlow.trans_lt hhigh)
    dsimp only at hlt
    omega
  obtain ⟨z, hz⟩ := Int.eq_ofNat_of_zero_le hexp
  have hvalue' : (Decimal.shortest x).value = ((Decimal.shortest x).digits * 10 ^ z : Nat) := by
    rw [Decimal.value, hz, zpow_natCast]
    push_cast
    rfl
  have hdigits : (Decimal.shortest x).digits * 10 ^ z = n := by
    refine eq_of_nearestPlace_eq hn ?_
    rw [← hvalue', ← hx, hshortest.nearestPlace_value]
  have hhigh : (Decimal.shortest x).exponent + (Decimal.shortest x).length ≤ 21 := by
    obtain ⟨hlow, -⟩ := Decimal.value_bounds hshortest.pos
    rw [hvalue', hdigits] at hlow
    have hlt : (n : ℚ) < 10 ^ (16 : ℤ) := by exact_mod_cast (show n < 10 ^ 16 by omega)
    have := (zpow_lt_zpow_iff_right₀ hten).mp (hlow.trans_lt hlt)
    omega
  have hlaid := (write_laid (Decimal.shortest x)).eq_whole (by omega) hhigh Nat.toDigits_ne_nil
  rw [hlaid, ← hdigits, toDigits_mul_pow hshortest.pos, hz]
  simp

end Number

/-! ### Texts -/

/-- A text is that of a finite double: zero has no sign, and any other double has its sign and the digits of
its shortest decimal number, laid out around their point. -/
inductive Number.Double.IsNumberText (x : Double) : String → Prop
  | zero : x.isZero = true → IsNumberText x "0"
  | digits {d : Decimal} {text : List Char} {s : String} : x.isZero = false → Decimal.IsShortest x d →
      Laid (Nat.toDigits 10 d.digits) (d.exponent + d.length) text → s.toList = signed x.negative text →
      IsNumberText x s

namespace Ground

theorem toList_doubleText {x : Double} (hx : x.isFinite = true) (hzero : x.isZero = false) :
    (doubleText x).toList = signed x.negative (style.write (Decimal.shortest x)).toList := by
  rw [doubleText, hx, hzero, signed]
  cases x.negative <;> simp

theorem toList_digitsText (n : Int) :
    (digitsText n).toList = signed (n < 0) (Nat.toDigits 10 n.natAbs) := by
  rw [digitsText, signed]
  by_cases h : n < 0 <;> simp [h]

theorem digitsText_eq_toString (n : Int) : digitsText n = toString n := by
  cases n with
  | ofNat m =>
    rw [digitsText, if_neg (by simp)]
    exact String.empty_append
  | negSucc m =>
    rw [digitsText, if_pos (Int.negSucc_lt_zero m)]
    rfl

/-- **The digits of a small integer are the text of its double.** -/
theorem digitsText_eq_doubleText {n : Int} (hn : n.natAbs < 2 ^ 53) :
    digitsText n = doubleText (ofInt n) := by
  obtain hzero | hpos := Nat.eq_zero_or_pos n.natAbs
  · obtain rfl := Int.natAbs_eq_zero.mp hzero
    decide
  have hmagnitude : (ofInt n).magnitude = nearestPlace n.natAbs := by rw [ofInt_eq]
  have hnegative : (ofInt n).negative = decide (n < 0) := by rw [ofInt_eq]
  obtain ⟨hfinite, hvalue⟩ := nearestPlace_natCast hn.le
  have hx : (ofInt n).isFinite = true := by simpa [isFinite, hmagnitude] using hfinite
  have hzero : (ofInt n).isZero = false := by
    refine Bool.eq_false_iff.mpr fun hzero => ?_
    rw [isZero, decide_eq_true_eq, hmagnitude] at hzero
    rw [hzero, valueAt_zero] at hvalue
    exact hpos.ne (by exact_mod_cast hvalue)
  rw [← String.toList_inj, toList_digitsText, toList_doubleText hx hzero,
    write_shortest_of_whole hpos hn hmagnitude, hnegative]

/-- **The text of a number is the text of the nearest double**, if that is finite. -/
theorem text?_eq_doubleText {v : Ground} {x : Double} (hv : v.double? = some x)
    (hx : x.isFinite = true) : v.text? = some ↑(doubleText x) := by
  cases v with
  | bool | string => cases hv
  | double y =>
    obtain rfl := Option.some.inj hv
    rfl
  | int n =>
    obtain rfl := Option.some.inj hv
    rw [text?]
    split
    · rw [digitsText_eq_doubleText ‹_›]
    · exact if_pos hx

/-! ### Reading back -/

theorem doubleText_of_isZero {x : Double} (h : x.isZero = true) : doubleText x = "0" := by
  have hx : x.isFinite = true := by
    rw [isZero, decide_eq_true_eq] at h
    rw [isFinite, h]
    decide
  rw [doubleText, hx, h]
  rfl

theorem isNumberText_doubleText {x : Double} (hx : x.isFinite = true) : x.IsNumberText (doubleText x) := by
  cases hzero : x.isZero with
  | true => exact doubleText_of_isZero hzero ▸ .zero hzero
  | false =>
    exact .digits hzero (Decimal.shortest_isShortest hx hzero) (write_laid _) (toList_doubleText hx hzero)

theorem doubleText_eq_of_sameNumber {x y : Double} (hy : y.isFinite = true)
    (h : x.sameNumber y = true) : doubleText x = doubleText y := by
  obtain ⟨hmagnitude, hsign | hzero⟩ := (sameNumber_iff hy).mp h
  · obtain ⟨negative, m⟩ := x
    obtain rfl : negative = y.negative := hsign
    obtain rfl : m = y.magnitude := hmagnitude
    rfl
  · have hx : x.isZero = true := decide_eq_true hzero
    have hy : y.isZero = true := decide_eq_true (hmagnitude ▸ hzero)
    rw [doubleText_of_isZero hx, doubleText_of_isZero hy]

/-- **The text of a finite double is read** as a number that the same double is nearest to. -/
theorem read_doubleText {x : Double} (hx : x.isFinite = true) :
    ∃ g z, Numeral.read (doubleText x) = .ok g ∧ g.double? = some z ∧ z.sameNumber x = true := by
  by_cases hzero : x.isZero = true
  · have hmagnitude : x.magnitude = 0 := by simpa [isZero] using hzero
    have hread : Numeral.read "0" = .ok (.int 0) := by decide +kernel
    refine ⟨.int 0, ofInt 0, doubleText_of_isZero hzero ▸ hread, rfl, ?_⟩
    exact (sameNumber_iff hx).mpr ⟨hmagnitude.symm, .inr rfl⟩
  have hzero : x.isZero = false := by simpa using hzero
  have hshortest := Decimal.shortest_isShortest hx hzero
  have hplace := hshortest.nearestPlace_value
  -- both ways to read the digits give the double that is nearest to the shortest decimal number
  obtain ⟨z, hz, hread⟩ | hread := read_of_laid (isDigit_of_mem_toDigits _) Nat.toDigits_ne_nil
    (write_laid (Decimal.shortest x)) (toList_doubleText hx hzero)
  · have hexp : (Decimal.shortest x).exponent = z := by omega
    have hvalue : (Decimal.shortest x).value = ((Decimal.shortest x).digits * 10 ^ z : Nat) := by
      rw [Decimal.value, hexp, zpow_natCast]
      push_cast
      rfl
    have hpos : 0 < (Decimal.shortest x).digits * 10 ^ z :=
      Nat.mul_pos hshortest.pos (Nat.pow_pos (by decide))
    rw [hvalue] at hplace
    rw [valueOf_toDigits] at hread
    refine ⟨_, _, hread, rfl, ?_⟩
    rw [ofInt_eq, sameNumber_iff hx]
    generalize (Decimal.shortest x).digits * 10 ^ z = n at hpos hplace
    cases hnegative : x.negative with
    | true => exact ⟨by simpa using hplace, .inl (by simpa using hpos)⟩
    | false => exact ⟨by simpa using hplace, .inl (by simp)⟩
  · rw [valueOf_toDigits, ofDecimal_eq, add_sub_cancel_right] at hread
    exact ⟨_, _, hread, rfl, (sameNumber_iff hx).mpr ⟨hplace, .inl rfl⟩⟩

/-- **Texts tell doubles apart.** -/
theorem sameNumber_of_doubleText_eq {x y : Double} (hx : x.isFinite = true) (hy : y.isFinite = true)
    (h : doubleText x = doubleText y) : x.sameNumber y = true := by
  obtain ⟨g, z, hread, hz, hsame⟩ := read_doubleText hx
  obtain ⟨g', z', hread', hz', hsame'⟩ := read_doubleText hy
  rw [h, hread'] at hread
  obtain rfl := Except.ok.inj hread
  obtain rfl : z' = z := Option.some.inj (hz'.symm.trans hz)
  rw [sameNumber_iff hx] at hsame
  rw [sameNumber_iff hy] at hsame' ⊢
  grind

/-- A small integer is read as itself. -/
theorem read_digitsText {n : Int} (hn : n.natAbs < 2 ^ 53) :
    Numeral.read (digitsText n) = .ok (.int n) := by
  have hdigits := isDigit_of_mem_toDigits n.natAbs
  have hlength : (Nat.toDigits 10 n.natAbs).length ≤ digitLimit :=
    le_trans ((Nat.length_toDigits_le_iff (by decide) (by decide)).mpr (show n.natAbs < 10 ^ 16 by omega))
      (by decide)
  have hread := read_signed hdigits Nat.toDigits_ne_nil hlength (toList_digitsText n)
  have hvalue : (if decide (n < 0) then -(n.natAbs : Int) else n.natAbs) = n := by
    by_cases h : n < 0
    · rw [if_pos (decide_eq_true h)]
      omega
    · rw [if_neg (by simpa using h)]
      omega
  rw [valueOf_toDigits, hvalue] at hread
  exact hread

end Ground

/-- **Numbers have one text for each double.** Numbers whose nearest doubles are finite have the same text
exactly if these doubles are the same number. The text is read as a number that the same double is nearest
to and that has the same text, and the text of an integer of less than `2 ^ 53` as that integer. -/
theorem text_canonical {v w : Ground} {x y : Double} (hv : v.double? = some x) (hw : w.double? = some y)
    (hx : x.isFinite = true) (hy : y.isFinite = true) :
    ∃ s t : String, v.text? = some ↑s ∧ w.text? = some ↑t ∧ (s = t ↔ x.sameNumber y = true) ∧
      ∃ g z, Numeral.read s = .ok g ∧ g.double? = some z ∧ z.sameNumber x = true ∧
        g.text? = some ↑s ∧
        ∀ n : Int, v = .int n → n.natAbs < 2 ^ 53 → g = v := by
  have hstext := Ground.text?_eq_doubleText hv hx
  obtain ⟨g, z, hread, hz, hsame⟩ := Ground.read_doubleText hx
  refine ⟨_, _, hstext, Ground.text?_eq_doubleText hw hy,
    ⟨Ground.sameNumber_of_doubleText_eq hx hy, Ground.doubleText_eq_of_sameNumber hy⟩,
    g, z, hread, hz, hsame, ?_, ?_⟩
  · have hfinite : z.isFinite = true := by rwa [isFinite, ((sameNumber_iff hx).mp hsame).1]
    rw [Ground.text?_eq_doubleText hz hfinite, Ground.doubleText_eq_of_sameNumber hx hsame]
  · rintro n rfl hn
    obtain rfl := Option.some.inj hv
    rw [← Ground.digitsText_eq_doubleText hn, Ground.read_digitsText hn] at hread
    exact (Except.ok.inj hread).symm

/-- The integer `10 ^ 21` and the double `1e21` share a text with an exponent, which is read as that double. -/
theorem text_canonical_power :
    (Ground.int (10 ^ 21)).double? = some (ofDecimal false 1 21) ∧
      (Ground.double (ofDecimal false 1 21)).double? = some (ofDecimal false 1 21) ∧
      (Ground.int (10 ^ 21)).text? = some ↑"1e+21" ∧
      ∃ s t : String, (Ground.int (10 ^ 21)).text? = some ↑s ∧
        (Ground.double (ofDecimal false 1 21)).text? = some ↑t ∧ s = t := by
  have hint : (Ground.int (10 ^ 21)).double? = some (ofDecimal false 1 21) := by decide +kernel
  have hfinite : (ofDecimal false 1 21).isFinite = true := by decide +kernel
  obtain ⟨s, t, hs, ht, hiff, -⟩ := text_canonical hint (w := .double _) rfl hfinite hfinite
  exact ⟨hint, rfl, by decide +kernel, s, t, hs, ht, hiff.mpr (by decide +kernel)⟩

end RhoScript
