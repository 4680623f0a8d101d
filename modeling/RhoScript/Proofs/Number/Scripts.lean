import Mathlib.Data.Nat.Digits.Defs
import RhoScript.Proofs.Number.Texts

/-!
# Numerals in the digits of any script

A numeral of a source has digits, and after them there may be a point with digits and an exponent with an
optional sign. Its digits may be of any script. In plain writing they are the ASCII digits of the same
values (`plain_of_isNumeralChar`), so numerals are read by their values alone.

Main statement: a numeral without a point and an exponent denotes the positional value of its digits, and
any other the double that is nearest to its decimal value (`Denotes`). All numerals are read as what they
denote, except for integers of too many digits (`read_numeral`).
-/

namespace RhoScript.Number

open Text

/-- The double of a decimal number is nearest to it. -/
theorem Double.ofDecimal_isNearest (digits : Nat) (e : Int) :
    (Double.ofDecimal false digits e).IsNearest (digits * 10 ^ e) := by
  have hnonneg : (0 : ℚ) ≤ digits * 10 ^ e := by positivity
  rw [Double.ofDecimal_eq]
  refine ⟨?_, ?_⟩
  · simp [not_lt.mpr hnonneg]
  · rw [abs_of_nonneg hnonneg]
    exact Double.isNearestPlace_nearestPlace hnonneg

namespace Numeral

/-! ### The values of numerals -/

/-- The number that digits denote by their positions. -/
def positional (digits : List Char) : Nat :=
  Nat.ofDigits 10 (digits.reverse.map fun c => (digitValue? c).getD 0)

/-- One or more digits of any script. -/
def IsDigits (text : List Char) : Prop := text ≠ [] ∧ ∀ c ∈ text, isDecimalDigit c = true

/-- What may stand after the first digits of a numeral, and the digits of the fraction there. -/
inductive Fraction : List Char → List Char → Prop
  | absent : Fraction [] []
  | point {digits : List Char} : IsDigits digits → Fraction ('.' :: digits) digits

/-- What may stand at the end of a numeral, and the exponent that it denotes. -/
inductive Exponent : List Char → Int → Prop
  | absent : Exponent [] 0
  | bare {mark : Char} {digits : List Char} : mark = 'e' ∨ mark = 'E' → IsDigits digits →
      Exponent (mark :: digits) (positional digits)
  | plus {mark : Char} {digits : List Char} : mark = 'e' ∨ mark = 'E' → IsDigits digits →
      Exponent (mark :: '+' :: digits) (positional digits)
  | minus {mark : Char} {digits : List Char} : mark = 'e' ∨ mark = 'E' → IsDigits digits →
      Exponent (mark :: '-' :: digits) (-positional digits)

/-- The number that a numeral denotes. -/
inductive Denotes : List Char → Ground → Prop
  | whole {digits : List Char} : IsDigits digits → Denotes digits (.int (positional digits))
  | decimal {whole point part power : List Char} {e : Int} {x : Double} : IsDigits whole →
      Fraction point part → Exponent power e → point ++ power ≠ [] →
      x.IsNearest (positional (whole ++ part) * 10 ^ (e - part.length)) →
      Denotes (whole ++ (point ++ power)) (.double x)

/-! ### Plain writing -/

theorem positional_eq_foldl (digits : List Char) :
    positional digits = digits.foldl (fun n c => 10 * n + (digitValue? c).getD 0) 0 := by
  rw [positional, Nat.ofDigits_eq_foldr, List.foldr_map, List.foldr_reverse]
  congr
  funext n c
  simp only [Nat.cast_id]
  omega

theorem digitValue?_of_isBlank {c : Char} (h : isBlank c = true) : digitValue? c = none := by
  rw [isBlank, decide_eq_true_eq] at h
  have hnone := (List.all_eq_true (p := fun n => (digitValue? (Char.ofNat n)).isNone)).mp (by decide) _ h
  simpa using hnone

theorem isDigit_of_ascii {c : Char} {d : Nat} (h : digitValue? c = some d) (hc : c.toNat < 0x80) :
    c.isDigit = true := by
  by_contra hdigit
  rw [digitValue?, if_neg hdigit, if_pos hc] at h
  cases h

/-- A digit in plain writing is the ASCII digit of its value. -/
theorem toNat_plainChar {c : Char} {d : Nat} (h : digitValue? c = some d) :
    (plainChar c).toNat = 48 + d := by
  by_cases hlow : c.toNat < 0x7f
  · have hdigit := isDigit_of_ascii h (by omega)
    have hrange := toNat_of_isDigit hdigit
    rw [digitValue?, if_pos hdigit] at h
    have hd := Option.some.inj h
    rw [plainChar, if_pos hlow]
    omega
  · have hblank : ¬ isBlank c = true := by
      intro hblank
      rw [digitValue?_of_isBlank hblank] at h
      cases h
    have hsmall := digitValue?_lt h
    have hall : ∀ n < 10, (Char.ofNat (48 + n)).toNat = 48 + n := by decide
    rw [plainChar, if_neg hlow, if_neg hblank, h]
    exact hall d hsmall

theorem isDigit_of_toNat {c : Char} (hlow : 48 ≤ c.toNat) (hhigh : c.toNat ≤ 57) : c.isDigit = true := by
  have htoNat : c.toNat = c.val.toNat := rfl
  simp only [Char.isDigit, Bool.and_eq_true, decide_eq_true_eq, ge_iff_le, UInt32.le_iff_toNat_le]
  exact ⟨hlow, hhigh⟩

/-- Digits in plain writing are ASCII digits. -/
theorem isDigit_of_mem_map {digits : List Char} (h : ∀ c ∈ digits, isDecimalDigit c = true) :
    ∀ c ∈ digits.map plainChar, c.isDigit = true := by
  refine List.forall_mem_map.mpr fun c hc => ?_
  obtain ⟨d, hd⟩ := Option.isSome_iff_exists.mp (h c hc)
  have hplain := toNat_plainChar hd
  have hsmall := digitValue?_lt hd
  exact isDigit_of_toNat (by omega) (by omega)

/-- Digits in plain writing have the same value. -/
theorem valueOf_map_plainChar {digits : List Char} (h : ∀ c ∈ digits, isDecimalDigit c = true) :
    valueOf (digits.map plainChar) = positional digits := by
  rw [positional_eq_foldl, valueOf, List.foldl_map]
  refine List.foldl_ext _ _ _ fun n c hc => ?_
  obtain ⟨d, hd⟩ := Option.isSome_iff_exists.mp (h c hc)
  rw [toNat_plainChar hd, hd, Option.getD_some]
  omega

/-- The characters of numerals that are no digits. -/
def marks : List Char := ['.', 'e', 'E', '+', '-']

/-- A character of numerals. -/
def IsNumeralChar (c : Char) : Prop := isDecimalDigit c = true ∨ c ∈ marks

theorem plainChar_of_mem_marks {c : Char} (h : c ∈ marks) :
    plainChar c = c ∧ isPadding c = false ∧ c ≠ '_' := by
  have hall : marks.all (fun c => decide (plainChar c = c ∧ isPadding c = false ∧ c ≠ '_')) = true := by
    decide
  exact of_decide_eq_true (List.all_eq_true.mp hall c h)

theorem plainChar_of_ascii {c : Char} (h : IsNumeralChar c) (hc : c.toNat < 0x80) : plainChar c = c := by
  rcases h with hdigit | hmark
  · obtain ⟨d, hd⟩ := Option.isSome_iff_exists.mp hdigit
    have hrange := toNat_of_isDigit (isDigit_of_ascii hd hc)
    exact if_pos (by omega)
  · exact (plainChar_of_mem_marks hmark).1

/-- Numerals become plain character by character. -/
theorem plain_of_isNumeralChar {text : List Char} (h : ∀ c ∈ text, IsNumeralChar c) :
    plain text = text.map plainChar := by
  rw [plain]
  split
  · rename_i hascii
    simp only [List.all_eq_true, decide_eq_true_eq] at hascii
    have hsame : text.map plainChar = text.map id :=
      List.map_congr_left fun c hc => plainChar_of_ascii (h c hc) (hascii c hc)
    rw [hsame, List.map_id]
  · rfl

/-- Plain numerals have no blanks and no underscores. -/
theorem plainChar_of_isNumeralChar {c : Char} (h : IsNumeralChar c) :
    isPadding (plainChar c) = false ∧ plainChar c ≠ '_' := by
  rcases h with hdigit | hmark
  · have hplain := isDigit_of_mem_map (List.forall_mem_singleton.mpr hdigit) _ List.mem_cons_self
    exact ⟨isPadding_of_part (isNumeralPart_of_isDigit hplain), ne_of_isDigit hplain '_' rfl⟩
  · obtain ⟨heq, hpadding, hne⟩ := plainChar_of_mem_marks hmark
    rw [heq]
    exact ⟨hpadding, hne⟩

/-! ### The characters of numerals -/

variable {whole point part power : List Char} {e : Int}

theorem IsDigits.isNumeralChar {digits : List Char} (h : IsDigits digits) : ∀ c ∈ digits, IsNumeralChar c :=
  fun c hc => .inl (h.2 c hc)

theorem Fraction.isNumeralChar (h : Fraction point part) : ∀ c ∈ point, IsNumeralChar c := by
  cases h with
  | absent => simp
  | point hdigits => exact List.forall_mem_cons.mpr ⟨.inr (by decide), hdigits.isNumeralChar⟩

theorem Exponent.isNumeralChar (h : Exponent power e) : ∀ c ∈ power, IsNumeralChar c := by
  have hmark : ∀ {c : Char}, c = 'e' ∨ c = 'E' → IsNumeralChar c := by
    rintro c (rfl | rfl) <;> exact .inr (by decide)
  cases h with
  | absent => simp
  | bare hc hdigits => exact List.forall_mem_cons.mpr ⟨hmark hc, hdigits.isNumeralChar⟩
  | plus hc hdigits =>
    exact List.forall_mem_cons.mpr
      ⟨hmark hc, List.forall_mem_cons.mpr ⟨.inr (by decide), hdigits.isNumeralChar⟩⟩
  | minus hc hdigits =>
    exact List.forall_mem_cons.mpr
      ⟨hmark hc, List.forall_mem_cons.mpr ⟨.inr (by decide), hdigits.isNumeralChar⟩⟩

/-! ### Reading numerals -/

theorem IsDigits.map_ne_nil {digits : List Char} (h : IsDigits digits) : digits.map plainChar ≠ [] := by
  simpa using h.1

theorem readExponent?_of_digits {mark : Char} (hmark : mark = 'e' ∨ mark = 'E') {digits rest : List Char}
    {negative : Bool} (hdigits : IsDigits digits) (hsign : sign rest = (negative, digits.map plainChar)) :
    readExponent? (mark :: rest) =
      some (if negative then -(positional digits : Int) else positional digits) := by
  have hall := List.all_eq_true.mpr (isDigit_of_mem_map hdigits.2)
  rw [readExponent?, if_pos hmark, hsign]
  simp only [hall, hdigits.map_ne_nil, List.isEmpty_iff, Bool.not_true, Bool.false_eq_true, or_self,
    if_false, valueOf_map_plainChar hdigits.2]

/-- An exponent in plain writing. -/
theorem Exponent.readExponent?_eq (h : Exponent power e) :
    readExponent? (power.map plainChar) = some e ∧
      ∀ c ∈ (power.map plainChar).head?, c.isDigit = false ∧ c ≠ '.' := by
  have hhead : ∀ {mark : Char} (rest : List Char), mark = 'e' ∨ mark = 'E' →
      plainChar mark = mark ∧ ∀ c ∈ (mark :: rest).head?, c.isDigit = false ∧ c ≠ '.' := by
    rintro mark rest (rfl | rfl)
    · exact ⟨rfl, by simp⟩
    · exact ⟨rfl, by simp⟩
  cases h with
  | absent => exact ⟨rfl, by simp⟩
  | @bare mark digits hmark hdigits =>
    obtain ⟨hplain, hfirst⟩ := hhead (digits.map plainChar) hmark
    obtain ⟨c, rest, hcons⟩ := List.exists_cons_of_ne_nil hdigits.map_ne_nil
    have hc := isDigit_of_mem_map hdigits.2 c (by rw [hcons]; exact List.mem_cons_self)
    have hsign : sign (digits.map plainChar) = (false, digits.map plainChar) := by
      rw [hcons]
      exact sign_signed false hc rest
    rw [List.map_cons, hplain]
    exact ⟨readExponent?_of_digits hmark hdigits hsign, hfirst⟩
  | @plus mark digits hmark hdigits =>
    obtain ⟨hplain, hfirst⟩ := hhead ('+' :: digits.map plainChar) hmark
    have hsign : sign ('+' :: digits.map plainChar) = (false, digits.map plainChar) := rfl
    rw [List.map_cons, List.map_cons, hplain, show plainChar '+' = '+' from rfl]
    exact ⟨readExponent?_of_digits hmark hdigits hsign, hfirst⟩
  | @minus mark digits hmark hdigits =>
    obtain ⟨hplain, hfirst⟩ := hhead ('-' :: digits.map plainChar) hmark
    have hsign : sign ('-' :: digits.map plainChar) = (true, digits.map plainChar) := rfl
    rw [List.map_cons, List.map_cons, hplain, show plainChar '-' = '-' from rfl]
    exact ⟨readExponent?_of_digits hmark hdigits hsign, hfirst⟩

/-- A numeral in plain writing is read as the double of its digits and its exponent. -/
theorem readDecimal?_numeral (hwhole : IsDigits whole) (hpoint : Fraction point part)
    (hpower : Exponent power e) :
    readDecimal? false ((whole ++ (point ++ power)).map plainChar) =
      some (Double.ofDecimal false (positional (whole ++ part)) (e - part.length)) := by
  obtain ⟨hread, hhead⟩ := hpower.readExponent?_eq
  have hdigits := isDigit_of_mem_map hwhole.2
  rw [List.map_append, List.map_append]
  cases hpoint with
  | absent =>
    have hdecimal := readDecimal?_whole false _ _ hdigits hwhole.map_ne_nil hhead hread
    simpa [valueOf_map_plainChar hwhole.2] using hdecimal
  | point hpart =>
    have hvalue : valueOf (whole.map plainChar ++ part.map plainChar) = positional (whole ++ part) := by
      rw [← List.map_append]
      exact valueOf_map_plainChar (List.forall_mem_append.mpr ⟨hwhole.2, hpart.2⟩)
    have hdecimal := readDecimal?_point false _ _ hdigits hwhole.map_ne_nil (isDigit_of_mem_map hpart.2)
      (fun c hc => (hhead c hc).1) hread
    rw [hvalue, List.length_map] at hdecimal
    exact hdecimal

theorem not_isMark_of_isDecimalDigit {c : Char} (h : isDecimalDigit c = true) :
    (c = '.' || c = 'e' || c = 'E') = false := by
  have hne : ∀ d : Char, isDecimalDigit d = false → c ≠ d := by
    rintro d hd rfl
    rw [h] at hd
    cases hd
  simp [hne '.' (by decide), hne 'e' (by decide), hne 'E' (by decide)]

/-- There is a point or an exponent exactly if there is a mark of one. -/
theorem any_isMark_iff (hwhole : IsDigits whole) (hpoint : Fraction point part) (hpower : Exponent power e) :
    ((whole ++ (point ++ power)).any fun c => c = '.' || c = 'e' || c = 'E') = true ↔
      point ++ power ≠ [] := by
  have hdigits : whole.any (fun c => c = '.' || c = 'e' || c = 'E') = false :=
    List.any_eq_false.mpr fun c hc => by simp [not_isMark_of_isDecimalDigit (hwhole.2 c hc)]
  rw [List.any_append, hdigits, Bool.false_or, List.any_append]
  cases hpoint with
  | point => simp
  | absent =>
    cases hpower with
    | absent => simp
    | bare hmark | plus hmark | minus hmark => rcases hmark with rfl | rfl <;> simp

/-- **Numerals are read as what they denote**, if integers have not too many digits. -/
theorem read_numeral (hwhole : IsDigits whole) (hpoint : Fraction point part) (hpower : Exponent power e)
    {s : String} (hs : s.toList = whole ++ (point ++ power)) :
    (point ++ power = [] ∧ digitLimit < whole.length ∧ read s = .error (.tooLong whole.length)) ∨
      ¬ (point ++ power = [] ∧ digitLimit < whole.length) ∧ ∃ v, read s = .ok v ∧ Denotes s.toList v := by
  have hchars : ∀ c ∈ whole ++ (point ++ power), IsNumeralChar c :=
    List.forall_mem_append.mpr
      ⟨hwhole.isNumeralChar, List.forall_mem_append.mpr ⟨hpoint.isNumeralChar, hpower.isNumeralChar⟩⟩
  have hplain : plain s.toList = (whole ++ (point ++ power)).map plainChar := by
    rw [hs, plain_of_isNumeralChar hchars]
  have hmark := any_isMark_iff hwhole hpoint hpower
  rw [read, hs]
  by_cases hrest : point ++ power = []
  · rw [if_neg (fun h => hmark.mp h hrest)]
    rw [hrest, List.append_nil] at hplain ⊢
    have hsigned : plain s.toList = signed false (whole.map plainChar) := hplain
    rw [readInt_of_plain (isDigit_of_mem_map hwhole.2) hwhole.map_ne_nil hsigned, List.length_map,
      valueOf_map_plainChar hwhole.2]
    by_cases hlong : digitLimit < whole.length
    · rw [if_pos hlong]
      exact .inl ⟨rfl, hlong, rfl⟩
    · rw [if_neg hlong]
      exact .inr ⟨fun h => hlong h.2, _, rfl, .whole hwhole⟩
  · rw [if_pos (hmark.mpr hrest)]
    refine .inr ⟨fun h => hrest h.1, ?_⟩
    have hdecimal := readDecimal?_numeral hwhole hpoint hpower
    have hclean : ∀ c ∈ (whole ++ (point ++ power)).map plainChar, isPadding c = false ∧ c ≠ '_' :=
      List.forall_mem_map.mpr fun c hc => plainChar_of_isNumeralChar (hchars c hc)
    have hdouble : readDouble s = .ok (Double.ofDecimal false (positional (whole ++ part)) (e - part.length)) := by
      obtain ⟨c, tail, hcons⟩ := List.exists_cons_of_ne_nil hwhole.1
      have hc : (plainChar c).isDigit = true :=
        isDigit_of_mem_map hwhole.2 _ (List.mem_map_of_mem (by rw [hcons]; exact List.mem_cons_self))
      rw [hcons, List.cons_append, List.map_cons] at hplain hdecimal hclean
      rw [hcons]
      refine readDouble_of_plain hc ?_ ?_ hdecimal hplain
      · exact fun d hd => (hclean d hd).1
      · exact fun hd => (hclean _ hd).2 rfl
    rw [hdouble]
    exact ⟨_, rfl, .decimal hwhole hpoint hpower hrest (Double.ofDecimal_isNearest _ _)⟩

end Numeral

end RhoScript.Number
