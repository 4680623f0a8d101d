import Mathlib.Algebra.Group.Nat.Defs
import Mathlib.Data.List.TakeDrop
import Mathlib.Data.List.TakeWhile
import RhoScript.Number.Numeral

/-!
# Written numbers

The digits of a decimal number are laid out around a point that stands at a place counted from the left of
the digits: zeros fill the gap if it stands beyond them or before them, and if it would stand too far away an
exponent is written instead (`Laid`). Numbers are written so (`write_laid`), and a text that is laid out is
read as the number with these digits and this point (`read_of_laid`): the digits all count, and zeros only
move the point.
-/

namespace RhoScript

open Number

/-- A character of numbers. -/
def isNumeralPart (c : Char) : Bool := c.isDigit || c ∈ ['.', 'e', '+', '-']

theorem isNumeralPart_of_isDigit {c : Char} (h : c.isDigit = true) : isNumeralPart c = true := by
  rw [isNumeralPart, h, Bool.true_or]

namespace Number.Numeral

variable {digits text : List Char} {negative : Bool} {point : Int}

/-! ### Digits -/

theorem toNat_of_isDigit {c : Char} (h : c.isDigit = true) : 48 ≤ c.toNat ∧ c.toNat ≤ 57 := by
  have htoNat : c.toNat = c.val.toNat := rfl
  simp [Char.isDigit, UInt32.le_iff_toNat_le] at h
  omega

theorem ne_of_isDigit {c : Char} (h : c.isDigit = true) (d : Char) (hd : d.isDigit = false) : c ≠ d := by
  rintro rfl
  rw [h] at hd
  cases hd

theorem isDigit_of_mem_toDigits (n : Nat) : ∀ c ∈ Nat.toDigits 10 n, c.isDigit = true := fun _ hc =>
  Nat.isDigit_of_mem_toDigits (by decide) (by decide) hc

theorem isDigit_of_mem_zeros (n : Nat) : ∀ c ∈ List.replicate n '0', c.isDigit = true := fun _ hc =>
  List.eq_of_mem_replicate hc ▸ rfl

theorem valueOf_toDigits (n : Nat) : valueOf (Nat.toDigits 10 n) = n :=
  Nat.ofDigitChars_toDigits (by decide) (by decide)

theorem valueOf_append (xs ys : List Char) :
    valueOf (xs ++ ys) = ys.foldl (fun n c => 10 * n + (c.toNat - 48)) (valueOf xs) :=
  List.foldl_append

/-- Zeros after the digits multiply by a power of ten. -/
theorem valueOf_append_zeros (digits : List Char) (n : Nat) :
    valueOf (digits ++ List.replicate n '0') = valueOf digits * 10 ^ n := by
  induction n with
  | zero => simp
  | succ n ih =>
    rw [List.replicate_succ', ← List.append_assoc, valueOf_append, ih, Nat.pow_succ, ← Nat.mul_assoc]
    simp only [List.foldl_cons, List.foldl_nil, Char.reduceToNat]
    omega

/-- Zeros before the digits do not count. -/
theorem valueOf_zeros_append (digits : List Char) (n : Nat) :
    valueOf (List.replicate n '0' ++ digits) = valueOf digits := by
  induction n with
  | zero => rfl
  | succ n ih => exact ih

/-- A multiple of a power of ten is written with zeros at the end. -/
theorem toDigits_mul_pow {n : Nat} (hn : 0 < n) (k : Nat) :
    Nat.toDigits 10 (n * 10 ^ k) = Nat.toDigits 10 n ++ List.replicate k '0' := by
  induction k with
  | zero => simp
  | succ k ih =>
    have hpos : 0 < n * 10 ^ k := Nat.mul_pos hn (Nat.pow_pos (by decide))
    calc Nat.toDigits 10 (n * 10 ^ (k + 1)) = Nat.toDigits 10 (10 * (n * 10 ^ k) + 0) := by
          rw [Nat.pow_succ, Nat.add_zero, Nat.mul_comm 10, Nat.mul_assoc]
      _ = Nat.toDigits 10 (n * 10 ^ k) ++ ['0'] :=
          (Nat.toDigits_append_toDigits (by decide) hpos (by decide)).symm
      _ = Nat.toDigits 10 n ++ List.replicate (k + 1) '0' := by
          rw [ih, List.replicate_succ', List.append_assoc]

/-! ### Signs and blanks -/

/-- A text after a minus sign, or as it is. -/
def signed (negative : Bool) (text : List Char) : List Char :=
  if negative then '-' :: text else text

theorem sign_signed (negative : Bool) {c : Char} (hc : c.isDigit = true) (rest : List Char) :
    sign (signed negative (c :: rest)) = (negative, c :: rest) := by
  cases negative with
  | true => rfl
  | false =>
    have hne := ne_of_isDigit hc
    rw [signed, if_neg Bool.false_ne_true, sign]
    · exact fun _ h => hne '-' rfl (List.cons.inj h).1
    · exact fun _ h => hne '+' rfl (List.cons.inj h).1

theorem isNumeralPart_signed (h : ∀ c ∈ text, isNumeralPart c = true) :
    ∀ c ∈ signed negative text, isNumeralPart c = true := by
  intro c hc
  cases negative with
  | false => exact h c hc
  | true =>
    obtain rfl | hc := List.mem_cons.mp hc
    · rfl
    · exact h c hc

/-- What holds of digits and of the four other characters holds of all characters of numbers. -/
theorem forall_of_isNumeralPart {P : Char → Prop} [DecidablePred P]
    (hdigit : ∀ c, c.isDigit = true → P c)
    (hother : ['.', 'e', '+', '-'].all (fun c => decide (P c)) = true) {c : Char}
    (h : isNumeralPart c = true) : P c := by
  rw [isNumeralPart, Bool.or_eq_true, decide_eq_true_eq] at h
  exact h.elim (hdigit c) fun hc => of_decide_eq_true (List.all_eq_true.mp hother c hc)

theorem plain_of_parts (h : ∀ c ∈ text, isNumeralPart c = true) : plain text = text := by
  rw [plain, if_pos]
  simp only [List.all_eq_true, decide_eq_true_eq]
  refine fun c hc => forall_of_isNumeralPart (P := fun c => c.toNat < 0x80) (fun c hc => ?_) ?_ (h c hc)
  · have := toNat_of_isDigit hc
    omega
  · decide

theorem isPadding_of_part {c : Char} (h : isNumeralPart c = true) : isPadding c = false := by
  refine forall_of_isNumeralPart (P := fun c => isPadding c = false) (fun c hc => ?_) (by decide) h
  have hrange := toNat_of_isDigit hc
  have hspace := ne_of_isDigit hc ' ' rfl
  simp only [isPadding, hspace, decide_false, Bool.false_or, Bool.and_eq_false_iff, decide_eq_false_iff_not]
  omega

theorem dropWhile_isPadding (h : ∀ c ∈ text, isPadding c = false) : text.dropWhile isPadding = text := by
  cases text with
  | nil => rfl
  | cons c rest =>
    refine List.dropWhile_cons_of_neg ?_
    simp [h c List.mem_cons_self]

theorem not_mem_of_parts (h : ∀ c ∈ text, isNumeralPart c = true) : '_' ∉ text :=
  fun hmem => absurd (h '_' hmem) (by decide)

theorem underscoresFit_of_not_mem (h : '_' ∉ text) : underscoresFit text = true := by
  fun_induction underscoresFit text with
  | case1 => rfl
  | case2 => exact absurd List.mem_cons_self h
  | case3 | case4 => simp at h
  | case5 c rest _ _ _ ih => exact ih fun hd => h (List.mem_cons_of_mem c hd)

/-! ### Reading -/

/-- Digits after a sign in plain writing are an integer, if they are not too many. -/
theorem readInt_of_plain (hdigits : ∀ c ∈ digits, c.isDigit = true) (hne : digits ≠ []) {s : String}
    (hs : plain s.toList = signed negative digits) :
    readInt s = if digitLimit < digits.length then .error (.tooLong digits.length)
      else .ok (if negative then -valueOf digits else valueOf digits) := by
  have hparts : ∀ c ∈ digits, isNumeralPart c = true := fun c hc => isNumeralPart_of_isDigit (hdigits c hc)
  have hpadding : ∀ c ∈ signed negative digits, isPadding c = false := fun c hc =>
    isPadding_of_part (isNumeralPart_signed hparts c hc)
  have hbody : digits.takeWhile (fun c => c.isDigit || c = '_') = digits :=
    List.takeWhile_eq_self_iff.mpr fun d hd => by simp [hdigits d hd]
  have hfilter : digits.filter Char.isDigit = digits := List.filter_eq_self.mpr hdigits
  have hsign : sign (signed negative digits) = (negative, digits) := by
    obtain ⟨c, rest, rfl⟩ := List.exists_cons_of_ne_nil hne
    exact sign_signed negative (hdigits c List.mem_cons_self) rest
  rw [readInt, hs, dropWhile_isPadding hpadding, hsign]
  simp only [hbody, hfilter, underscoresFit_of_not_mem (not_mem_of_parts hparts), Bool.not_true,
    Bool.false_eq_true, if_false]
  simp [hne]

theorem readInt_signed (hdigits : ∀ c ∈ digits, c.isDigit = true) (hne : digits ≠ [])
    (hlength : digits.length ≤ digitLimit) {s : String} (hs : s.toList = signed negative digits) :
    readInt s = .ok (if negative then -valueOf digits else valueOf digits) := by
  have hparts : ∀ c ∈ digits, isNumeralPart c = true := fun c hc => isNumeralPart_of_isDigit (hdigits c hc)
  have hplain : plain s.toList = signed negative digits := by
    rw [hs, plain_of_parts (isNumeralPart_signed hparts)]
  rw [readInt_of_plain hdigits hne hplain, if_neg (Nat.not_lt.mpr hlength)]

/-- A double is read from the characters after the sign in plain writing. -/
theorem readDouble_of_plain {c : Char} {rest : List Char} (hc : c.isDigit = true)
    (hpadding : ∀ d ∈ signed negative (c :: rest), isPadding d = false)
    (hunderscore : '_' ∉ signed negative (c :: rest)) {x : Double}
    (h : readDecimal? negative (c :: rest) = some x) {s : String}
    (hs : plain s.toList = signed negative (c :: rest)) : readDouble s = .ok x := by
  have hreverse : ∀ d ∈ (signed negative (c :: rest)).reverse, isPadding d = false := fun d hd =>
    hpadding d (List.mem_reverse.mp hd)
  have hfilter : (c :: rest).filter (fun d => decide (d ≠ '_')) = c :: rest := by
    refine List.filter_eq_self.mpr fun d hd => decide_eq_true ?_
    rintro rfl
    cases negative with
    | false => exact hunderscore hd
    | true => exact hunderscore (List.mem_cons_of_mem _ hd)
  rw [readDouble, hs, dropWhile_isPadding hpadding, dropWhile_isPadding hreverse, List.reverse_reverse,
    sign_signed negative hc]
  simp only [underscoresFit_of_not_mem hunderscore, if_true, hfilter, h]

theorem readDouble_signed {c : Char} {rest : List Char} (hc : c.isDigit = true)
    (hparts : ∀ d ∈ c :: rest, isNumeralPart d = true) {x : Double}
    (h : readDecimal? negative (c :: rest) = some x) {s : String}
    (hs : s.toList = signed negative (c :: rest)) : readDouble s = .ok x := by
  have hsigned : ∀ d ∈ signed negative (c :: rest), isNumeralPart d = true := isNumeralPart_signed hparts
  refine readDouble_of_plain hc (fun d hd => isPadding_of_part (hsigned d hd)) (not_mem_of_parts hsigned) h ?_
  rw [hs, plain_of_parts hsigned]

theorem spanDigits_append (hdigits : ∀ c ∈ digits, c.isDigit = true)
    (hhead : ∀ c ∈ text.head?, c.isDigit = false) : spanDigits (digits ++ text) = (digits, text) := by
  have hstop : text.takeWhile Char.isDigit = [] ∧ text.dropWhile Char.isDigit = text := by
    cases text with
    | nil => exact ⟨rfl, rfl⟩
    | cons c rest => simp [hhead c rfl]
  rw [spanDigits, List.span_eq_takeWhile_dropWhile, List.takeWhile_append_of_pos hdigits,
    List.dropWhile_append_of_pos hdigits, hstop.1, hstop.2, List.append_nil]

variable {part : List Char} {e : Int}

/-- Digits with a point between them, and what may be an exponent. -/
theorem readDecimal?_point (negative : Bool) (whole tail : List Char)
    (hwhole : ∀ c ∈ whole, c.isDigit = true) (hne : whole ≠ []) (hpart : ∀ c ∈ part, c.isDigit = true)
    (hhead : ∀ c ∈ tail.head?, c.isDigit = false) (htail : readExponent? tail = some e) :
    readDecimal? negative (whole ++ '.' :: (part ++ tail)) =
      some (Double.ofDecimal negative (valueOf (whole ++ part)) (e - part.length)) := by
  have hspan : spanDigits (whole ++ '.' :: (part ++ tail)) = (whole, '.' :: (part ++ tail)) :=
    spanDigits_append hwhole fun c hc => Option.some.inj hc ▸ rfl
  simp [readDecimal?, hspan, spanDigits_append hpart hhead, htail, hne]

/-- Digits without a point, and what may be an exponent. -/
theorem readDecimal?_whole (negative : Bool) (whole tail : List Char)
    (hwhole : ∀ c ∈ whole, c.isDigit = true) (hne : whole ≠ [])
    (hhead : ∀ c ∈ tail.head?, c.isDigit = false ∧ c ≠ '.') (htail : readExponent? tail = some e) :
    readDecimal? negative (whole ++ tail) = some (Double.ofDecimal negative (valueOf whole) e) := by
  have hspan : spanDigits (whole ++ tail) = (whole, tail) :=
    spanDigits_append hwhole fun c hc => (hhead c hc).1
  unfold readDecimal?
  rw [hspan]
  dsimp only
  split
  · exact absurd rfl (hhead '.' rfl).2
  · simp [htail, hne]

/-- Digits without a point before an exponent. -/
theorem readDecimal?_exponent (negative : Bool) (whole tail : List Char)
    (hwhole : ∀ c ∈ whole, c.isDigit = true) (hne : whole ≠ [])
    (htail : readExponent? ('e' :: tail) = some e) :
    readDecimal? negative (whole ++ 'e' :: tail) =
      some (Double.ofDecimal negative (valueOf whole) e) := by
  refine readDecimal?_whole negative whole ('e' :: tail) hwhole hne (fun c hc => ?_) htail
  obtain rfl := Option.some.inj hc
  decide

/-! ### Layout -/

/-- A power of ten after the digits. -/
def powerText (e : Int) : List Char :=
  'e' :: (if 0 ≤ e then '+' else '-') :: Nat.toDigits 10 e.natAbs

theorem readExponent?_powerText (e : Int) : readExponent? (powerText e) = some e := by
  have hdigits := isDigit_of_mem_toDigits e.natAbs
  have hne : Nat.toDigits 10 e.natAbs ≠ [] := Nat.toDigits_ne_nil
  have hvalue := valueOf_toDigits e.natAbs
  rw [powerText]
  generalize Nat.toDigits 10 e.natAbs = digits at hdigits hne hvalue
  have hnot : ¬ (digits.isEmpty = true ∨ (!digits.all Char.isDigit) = true) := by
    simp only [List.isEmpty_iff, hne, List.all_eq_true.mpr hdigits, Bool.not_true, Bool.false_eq_true,
      or_self, not_false_eq_true]
  by_cases he : 0 ≤ e
  · simp only [readExponent?, he, sign, if_true, true_or, if_neg hnot, hvalue, Bool.false_eq_true, if_false]
    congr 1
    omega
  · simp only [readExponent?, he, sign, if_true, true_or, if_neg hnot, hvalue, if_false]
    congr 1
    omega

theorem isNumeralPart_powerText (e : Int) : ∀ c ∈ powerText e, isNumeralPart c = true := by
  intro c hc
  obtain rfl | hc := List.mem_cons.mp hc
  · rfl
  obtain rfl | hc := List.mem_cons.mp hc
  · split <;> rfl
  · exact isNumeralPart_of_isDigit (isDigit_of_mem_toDigits _ c hc)

/-- A text has the given digits, with the point at a place counted from the left of them. Up to twenty-one
digits stand before the point and up to five zeros after it; else there is an exponent. -/
inductive Laid (digits : List Char) (point : Int) : List Char → Prop
  | whole {zeros : Nat} (hpoint : point = digits.length + zeros) (hhigh : point ≤ 21) :
      Laid digits point (digits ++ List.replicate zeros '0')
  | inner {front back : List Char} (hdigits : digits = front ++ back) (hfront : front ≠ [])
      (hback : back ≠ []) (hpoint : point = front.length) (hhigh : point ≤ 21) :
      Laid digits point (front ++ '.' :: back)
  | leading {zeros : Nat} (hpoint : point = -zeros) (hlow : -6 < point) :
      Laid digits point ('0' :: '.' :: (List.replicate zeros '0' ++ digits))
  | single {d : Char} (hdigits : digits = [d]) (hfar : point ≤ -6 ∨ 21 < point) :
      Laid digits point (d :: powerText (point - 1))
  | scientific {d : Char} {rest : List Char} (hdigits : digits = d :: rest) (hrest : rest ≠ [])
      (hfar : point ≤ -6 ∨ 21 < point) : Laid digits point (d :: '.' :: (rest ++ powerText (point - 1)))

/-- Where the point stands not before the last digit, and not too far, there is nothing but digits. -/
theorem Laid.eq_whole (h : Laid digits point text) (hlength : (digits.length : Int) ≤ point)
    (hhigh : point ≤ 21) (hne : digits ≠ []) :
    text = digits ++ List.replicate (point - digits.length).toNat '0' := by
  have hpos := List.length_pos_iff.mpr hne
  cases h with
  | @whole zeros hpoint =>
    have hzeros : (point - digits.length).toNat = zeros := by omega
    rw [hzeros]
  | inner happend _ hback hpoint =>
    have := List.length_pos_iff.mpr hback
    rw [happend, List.length_append] at hlength
    omega
  | leading | single | scientific => omega

/-- **Numbers are laid out** with their digits and their point. -/
theorem write_laid (d : Decimal) :
    Laid (Nat.toDigits 10 d.digits) (d.exponent + (Nat.toDigits 10 d.digits).length)
      (Ground.style.write d).toList := by
  have hne : Nat.toDigits 10 d.digits ≠ [] := Nat.toDigits_ne_nil
  have hhigh : Ground.style.high = 21 := rfl
  have hlow : Ground.style.low = -6 := rfl
  unfold NumeralStyle.write
  dsimp only
  generalize Nat.toDigits 10 d.digits = digits at hne
  generalize d.exponent + (digits.length : Int) = point
  split
  · rename_i h
    rw [String.toList_append, String.toList_ofList]
    have htext : Laid digits point (digits ++ List.replicate (point - digits.length).toNat '0') :=
      .whole (by omega) h.2
    exact (List.append_nil _).symm ▸ htext
  split
  · rename_i h
    have hlength : (digits.take point.toNat).length = point.toNat := by
      rw [List.length_take]
      omega
    rw [String.toList_ofList]
    refine .inner (List.take_append_drop _ _).symm ?_ ?_ (by omega) h.2
    · exact List.ne_nil_of_length_pos (by omega)
    · refine List.ne_nil_of_length_pos ?_
      rw [List.length_drop]
      omega
  split
  · rename_i h
    rw [String.toList_ofList]
    exact .leading (by omega) h.1
  · have hfar : point ≤ -6 ∨ 21 < point := by omega
    have hpadding : Ground.style.exponentWidth - (Nat.toDigits 10 (point - 1).natAbs).length = 0 :=
      Nat.sub_eq_zero_of_le (List.length_pos_iff.mpr Nat.toDigits_ne_nil)
    obtain ⟨c, rest, rfl⟩ := List.exists_cons_of_ne_nil hne
    rw [String.toList_ofList, hpadding]
    split
    · rename_i hlength
      obtain rfl : rest = [] := by simpa using hlength
      exact .single rfl hfar
    · rename_i hlength
      have hrest : rest ≠ [] := fun hrest => hlength (by rw [hrest]; rfl)
      have htext : Laid (c :: rest) point (c :: '.' :: (rest ++ powerText (point - 1))) :=
        .scientific rfl hrest hfar
      simpa [powerText] using htext

/-- Digits after a sign are read as an integer. -/
theorem read_signed (hdigits : ∀ c ∈ digits, c.isDigit = true) (hne : digits ≠ [])
    (hlength : digits.length ≤ digitLimit) {s : String} (hs : s.toList = signed negative digits) :
    read s = .ok (.int (if negative then -valueOf digits else valueOf digits)) := by
  have hmark : ∀ c ∈ s.toList, ¬ (c = '.' || c = 'e' || c = 'E') = true := by
    intro c hc
    rw [hs, signed] at hc
    obtain rfl | hdigit : c = '-' ∨ c.isDigit = true := by
      split at hc
      · exact (List.mem_cons.mp hc).imp_right (hdigits c)
      · exact .inr (hdigits c hc)
    · decide
    · have hne := ne_of_isDigit hdigit
      simp [hne '.' rfl, hne 'e' rfl, hne 'E' rfl]
  rw [read, List.any_eq_false.mpr hmark, if_neg Bool.false_ne_true, readInt_signed hdigits hne hlength hs]
  rfl

/-- A text with a point or an exponent is read as a double. -/
theorem read_fraction {c : Char} {rest : List Char} (hc : c.isDigit = true)
    (hrest : ∀ d ∈ rest, isNumeralPart d = true) (hmark : '.' ∈ rest ∨ 'e' ∈ rest) {x : Double}
    (h : readDecimal? negative (c :: rest) = some x) {s : String}
    (hs : s.toList = signed negative (c :: rest)) : read s = .ok (.double x) := by
  have hmem : ∀ {d : Char}, d ∈ rest → d ∈ s.toList := by
    intro d hd
    rw [hs]
    cases negative <;> simp [signed, hd]
  have hany : (s.toList.any fun c => c = '.' || c = 'e' || c = 'E') = true :=
    List.any_eq_true.mpr (hmark.elim (fun hd => ⟨_, hmem hd, rfl⟩) fun hd => ⟨_, hmem hd, rfl⟩)
  have hparts : ∀ d ∈ c :: rest, isNumeralPart d = true :=
    List.forall_mem_cons.mpr ⟨isNumeralPart_of_isDigit hc, hrest⟩
  rw [read, if_pos hany, readDouble_signed hc hparts h hs]
  rfl

/-- **A text that is laid out is read as the number of its digits and its point**: as an integer if it has
nothing but digits, and else as the nearest double. -/
theorem read_of_laid (hdigits : ∀ c ∈ digits, c.isDigit = true) (hne : digits ≠ [])
    (h : Laid digits point text) {s : String} (hs : s.toList = signed negative text) :
    (∃ zeros : Nat, point = digits.length + zeros ∧
      read s = .ok (.int (if negative then -(valueOf digits * 10 ^ zeros : Nat)
        else (valueOf digits * 10 ^ zeros : Nat)))) ∨
    read s = .ok (.double (Double.ofDecimal negative (valueOf digits) (point - digits.length))) := by
  have hparts : ∀ {ds : List Char}, (∀ c ∈ ds, c.isDigit = true) → ∀ c ∈ ds, isNumeralPart c = true :=
    fun hds c hc => isNumeralPart_of_isDigit (hds c hc)
  have hdot : isNumeralPart '.' = true := rfl
  cases h with
  | @whole zeros hpoint hhigh =>
    have hall : ∀ c ∈ digits ++ List.replicate zeros '0', c.isDigit = true :=
      List.forall_mem_append.mpr ⟨hdigits, isDigit_of_mem_zeros zeros⟩
    have hlength : (digits ++ List.replicate zeros '0').length ≤ digitLimit := by
      rw [List.length_append, List.length_replicate, digitLimit]
      omega
    have hread := read_signed hall (List.append_ne_nil_of_left_ne_nil hne _) hlength hs
    rw [valueOf_append_zeros] at hread
    exact .inl ⟨zeros, hpoint, hread⟩
  | @inner front back happend hfront hback hpoint hhigh =>
    obtain ⟨hfdigits, hbdigits⟩ := List.forall_mem_append.mp (happend ▸ hdigits)
    have hread := readDecimal?_point negative front [] hfdigits hfront hbdigits (by simp) rfl
    rw [List.append_nil, ← happend] at hread
    have hexp : point - digits.length = 0 - back.length := by
      rw [happend, List.length_append]
      omega
    obtain ⟨c, rest, rfl⟩ := List.exists_cons_of_ne_nil hfront
    obtain ⟨hc, hrest⟩ := List.forall_mem_cons.mp hfdigits
    rw [hexp]
    refine .inr (read_fraction hc ?_ (.inl (by simp)) hread hs)
    exact List.forall_mem_append.mpr ⟨hparts hrest, List.forall_mem_cons.mpr ⟨hdot, hparts hbdigits⟩⟩
  | @leading zeros hpoint hlow =>
    have hall : ∀ c ∈ List.replicate zeros '0' ++ digits, c.isDigit = true :=
      List.forall_mem_append.mpr ⟨isDigit_of_mem_zeros zeros, hdigits⟩
    have hread := readDecimal?_point negative ['0'] [] (by simp) (by simp) hall (by simp) rfl
    have hvalue : valueOf (['0'] ++ (List.replicate zeros '0' ++ digits)) = valueOf digits :=
      valueOf_zeros_append digits (zeros + 1)
    rw [List.append_nil, hvalue] at hread
    have hexp : point - digits.length = 0 - (List.replicate zeros '0' ++ digits).length := by
      rw [List.length_append, List.length_replicate]
      omega
    rw [hexp]
    refine .inr (read_fraction rfl ?_ (.inl List.mem_cons_self) hread hs)
    exact List.forall_mem_cons.mpr ⟨hdot, hparts hall⟩
  | @single d hdigit hfar =>
    have hread := readDecimal?_exponent negative [d] _ (hdigit ▸ hdigits) (by simp)
      (readExponent?_powerText (point - 1))
    rw [hdigit]
    exact .inr (read_fraction (hdigits d (by simp [hdigit])) (isNumeralPart_powerText _)
      (.inr List.mem_cons_self) hread hs)
  | @scientific d rest hdigit hrest hfar =>
    obtain ⟨hd, hrdigits⟩ := List.forall_mem_cons.mp (hdigit ▸ hdigits)
    have hread := readDecimal?_point negative [d] (powerText (point - 1)) (by simpa using hd) (by simp)
      hrdigits (fun c hc => Option.some.inj hc ▸ rfl) (readExponent?_powerText (point - 1))
    have hexp : point - digits.length = point - 1 - rest.length := by
      rw [hdigit, List.length_cons]
      omega
    rw [hexp, hdigit]
    refine .inr (read_fraction hd ?_ (.inl List.mem_cons_self) hread hs)
    exact List.forall_mem_cons.mpr
      ⟨hdot, List.forall_mem_append.mpr ⟨hparts hrdigits, isNumeralPart_powerText _⟩⟩

end Number.Numeral

end RhoScript
