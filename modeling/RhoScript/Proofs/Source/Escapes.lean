import Mathlib.Data.List.Chain
import RhoScript.Proofs.Number.Numerals
import RhoScript.Proofs.Source.Strings

/-!
# Escapes in string literals

What stands between the quotes of a literal is read from left to right as units, each of which denotes some
code points: a character, or an escape (`EscapeUnit`). The reading ends with the text, with a backslash at the
end of it, or at an escape that is no unit (`Fault`). There is only one way to read a text
(`Splits.unique`), and decoding follows it: units contribute what they denote
(`codePoints_append_of_unit`), and the first fault is reported.

The code points are then regrouped. As sequences of 16-bit units nothing changes, only that no two halves of
a surrogate pair are left side by side (`joins_joinPairs`), and there is no other such sequence
(`Joins.eq_joinPairs`).

Main statement: `decodeString_units`.
-/

namespace RhoScript.Source

open Text

/-! ### Units -/

/-- The letters that name control characters, with their code points. -/
def controlLetters : List (Char × Nat) :=
  [('b', 0x08), ('f', 0x0c), ('n', 0x0a), ('r', 0x0d), ('t', 0x09), ('v', 0x0b), ('0', 0x00)]

/-- The characters that end a line. -/
def lineEnds : List Char := ['\n', '\r', '\u2028', '\u2029']

/-- The texts of units, and the code points that they denote. -/
inductive EscapeUnit : List Char → List Nat → Prop
  /-- A character denotes itself. -/
  | plain {c : Char} : c ≠ '\\' → EscapeUnit [c] [c.toNat]
  /-- A letter after a backslash denotes a control character. -/
  | control {l : Char} {n : Nat} : (l, n) ∈ controlLetters → EscapeUnit ['\\', l] [n]
  /-- A code point of two digits in base sixteen. -/
  | byte {a b : Char} {n : Nat} : hexValue? 0 [a, b] = some n → EscapeUnit ['\\', 'x', a, b] [n]
  /-- A code point of four digits in base sixteen. -/
  | four {a b c d : Char} {n : Nat} : hexValue? 0 [a, b, c, d] = some n →
      EscapeUnit ['\\', 'u', a, b, c, d] [n]
  /-- A code point of any number of digits in base sixteen, in braces. -/
  | braced {digits : List Char} {n : Nat} : digits ≠ [] → hexValue? 0 digits = some n → n ≤ 0x10ffff →
      EscapeUnit ('\\' :: 'u' :: '\x7b' :: (digits ++ ['\x7d'])) [n]
  /-- A backslash before a line end denotes nothing, and neither does the line end. -/
  | lineEnd {c : Char} : c ∈ lineEnds → EscapeUnit ['\\', c] []
  /-- Any other character after a backslash denotes itself. -/
  | other {c : Char} : c ∉ controlLetters.map Prod.fst → c ∉ lineEnds → c ≠ 'u' → c ≠ 'x' →
      EscapeUnit ['\\', c] [c.toNat]

/-- The texts that begin with an escape that is no unit, and what is wrong with it. -/
inductive Fault : List Char → EscapeError → Prop
  | byte {rest : List Char} : (∀ a b tail, rest = a :: b :: tail → hexValue? 0 [a, b] = none) →
      Fault ('\\' :: 'x' :: rest) (.malformed 'x')
  | unicode {rest : List Char} :
      (∀ a b c d tail, rest = a :: b :: c :: d :: tail → hexValue? 0 [a, b, c, d] = none) →
      (∀ digits tail, rest = '\x7b' :: (digits ++ '\x7d' :: tail) → digits ≠ [] →
        hexValue? 0 digits = none) →
      Fault ('\\' :: 'u' :: rest) (.malformed 'u')
  | outOfRange {digits rest : List Char} {n : Nat} : digits ≠ [] → hexValue? 0 digits = some n →
      0x10ffff < n → n < 2 ^ 31 → Fault ('\\' :: 'u' :: '\x7b' :: (digits ++ '\x7d' :: rest)) .outOfRange
  | tooLarge {digits rest : List Char} {n : Nat} : digits ≠ [] → hexValue? 0 digits = some n →
      2 ^ 31 ≤ n → Fault ('\\' :: 'u' :: '\x7b' :: (digits ++ '\x7d' :: rest)) .tooLarge

/-! ### Single characters after a backslash -/

theorem simpleEscape_of_mem {l : Char} {n : Nat} (h : (l, n) ∈ controlLetters) :
    simpleEscape l = [n] ∧ l ≠ 'u' ∧ l ≠ 'x' := by
  have hall : controlLetters.all
      (fun p => decide (simpleEscape p.1 = [p.2] ∧ p.1 ≠ 'u' ∧ p.1 ≠ 'x')) = true := by decide
  exact of_decide_eq_true (List.all_eq_true.mp hall _ h)

theorem simpleEscape_of_lineEnd {c : Char} (h : c ∈ lineEnds) :
    simpleEscape c = [] ∧ c ≠ 'u' ∧ c ≠ 'x' := by
  have hall : lineEnds.all (fun c => decide (simpleEscape c = [] ∧ c ≠ 'u' ∧ c ≠ 'x')) = true := by decide
  exact of_decide_eq_true (List.all_eq_true.mp hall _ h)

theorem simpleEscape_of_other {c : Char} (hletter : c ∉ controlLetters.map Prod.fst)
    (hline : c ∉ lineEnds) : simpleEscape c = [c.toNat] := by
  have hne : ∀ d ∈ lineEnds, c.toNat ≠ d.toNat := fun d hd heq => hline (Char.toNat_inj.mp heq ▸ hd)
  have hnot : c.toNat ∉ [0x0a, 0x0d, 0x2028, 0x2029] := by
    simpa [lineEnds] using hne
  simp only [controlLetters, List.map_cons, List.map_nil, List.mem_cons, List.not_mem_nil, or_false,
    not_or] at hletter
  obtain ⟨hb, hf, hn, hr, ht, hv, hz⟩ := hletter
  rw [simpleEscape]
  · exact if_neg hnot
  all_goals assumption

/-- Every character after a backslash but `u` and `x` makes a unit. -/
theorem escapeUnit_simple {c : Char} (hu : c ≠ 'u') (hx : c ≠ 'x') :
    EscapeUnit ['\\', c] (simpleEscape c) := by
  by_cases hletter : c ∈ controlLetters.map Prod.fst
  · obtain ⟨⟨l, n⟩, hmem, rfl⟩ := List.mem_map.mp hletter
    rw [(simpleEscape_of_mem hmem).1]
    exact .control hmem
  by_cases hline : c ∈ lineEnds
  · rw [(simpleEscape_of_lineEnd hline).1]
    exact .lineEnd hline
  · rw [simpleEscape_of_other hletter hline]
    exact .other hletter hline hu hx

/-- A unit is a character, a character after a backslash, or a number. -/
theorem EscapeUnit.shape {text : List Char} {points : List Nat} (h : EscapeUnit text points) :
    (∃ c, c ≠ '\\' ∧ text = [c] ∧ points = [c.toNat]) ∨
    (∃ c, c ≠ 'u' ∧ c ≠ 'x' ∧ text = ['\\', c] ∧ points = simpleEscape c) ∨
    (∃ a b n, hexValue? 0 [a, b] = some n ∧ text = ['\\', 'x', a, b] ∧ points = [n]) ∨
    (∃ a b c d n, hexValue? 0 [a, b, c, d] = some n ∧ text = ['\\', 'u', a, b, c, d] ∧ points = [n]) ∨
    ∃ digits n, digits ≠ [] ∧ hexValue? 0 digits = some n ∧ n ≤ 0x10ffff ∧
      text = '\\' :: 'u' :: '\x7b' :: (digits ++ ['\x7d']) ∧ points = [n] := by
  cases h with
  | plain hc => exact .inl ⟨_, hc, rfl, rfl⟩
  | control hmem =>
    obtain ⟨hpoints, hu, hx⟩ := simpleEscape_of_mem hmem
    exact .inr (.inl ⟨_, hu, hx, rfl, hpoints.symm⟩)
  | byte hvalue => exact .inr (.inr (.inl ⟨_, _, _, hvalue, rfl, rfl⟩))
  | four hvalue => exact .inr (.inr (.inr (.inl ⟨_, _, _, _, _, hvalue, rfl, rfl⟩)))
  | braced hne hvalue hle => exact .inr (.inr (.inr (.inr ⟨_, _, hne, hvalue, hle, rfl, rfl⟩)))
  | lineEnd hmem =>
    obtain ⟨hpoints, hu, hx⟩ := simpleEscape_of_lineEnd hmem
    exact .inr (.inl ⟨_, hu, hx, rfl, hpoints.symm⟩)
  | other hletter hline hu hx =>
    exact .inr (.inl ⟨_, hu, hx, rfl, (simpleEscape_of_other hletter hline).symm⟩)

/-! ### Numbers -/

theorem hexDigit?_lt {c : Char} {d : Nat} (h : hexDigit? c = some d) : d < 16 := by
  have htoNat : c.toNat = c.val.toNat := rfl
  rw [hexDigit?] at h
  split at h
  · have := Number.Numeral.toNat_of_isDigit ‹_›
    have := Option.some.inj h
    omega
  split at h
  · rename_i hrange
    have hhigh : c.val.toNat ≤ 102 := UInt32.le_iff_toNat_le.mp hrange.2
    have := Option.some.inj h
    omega
  split at h
  · rename_i hrange
    have hhigh : c.val.toNat ≤ 70 := UInt32.le_iff_toNat_le.mp hrange.2
    have := Option.some.inj h
    omega
  · cases h

/-- The digits of a number are all digits. -/
theorem isSome_of_hexValue? {digits : List Char} {m n : Nat} (h : hexValue? m digits = some n) :
    ∀ c ∈ digits, (hexDigit? c).isSome = true := by
  induction digits generalizing m with
  | nil => simp
  | cons c rest ih =>
    rw [hexValue?] at h
    split at h
    · rename_i d hd
      exact List.forall_mem_cons.mpr ⟨by rw [hd]; rfl, ih h⟩
    · cases h

theorem hexValue?_lt {digits : List Char} {m n : Nat} (h : hexValue? m digits = some n) :
    n < (m + 1) * 16 ^ digits.length := by
  induction digits generalizing m with
  | nil =>
    obtain rfl := Option.some.inj h
    simp
  | cons c rest ih =>
    rw [hexValue?] at h
    split at h
    · rename_i d hd
      have hlt := hexDigit?_lt hd
      calc n < (16 * m + d + 1) * 16 ^ rest.length := ih h
        _ ≤ ((m + 1) * 16) * 16 ^ rest.length := Nat.mul_le_mul_right _ (by omega)
        _ = (m + 1) * 16 ^ (c :: rest).length := by
          rw [List.length_cons, Nat.pow_succ, Nat.mul_assoc, Nat.mul_comm 16]
    · cases h

/-- Digits in braces are found. -/
theorem bracedHex?_append {digits : List Char} {n : Nat} (hne : digits ≠ [])
    (hvalue : hexValue? 0 digits = some n) (rest : List Char) :
    bracedHex? ('\x7b' :: (digits ++ '\x7d' :: rest)) = some (n, rest) := by
  have htake : (digits ++ '\x7d' :: rest).takeWhile (fun c => (hexDigit? c).isSome) = digits := by
    rw [List.takeWhile_append_of_pos (isSome_of_hexValue? hvalue), List.takeWhile_cons_of_neg (by decide),
      List.append_nil]
  simp only [bracedHex?, htake, hvalue, List.drop_left]
  simp [hne]

/-- What is found in braces are digits. -/
theorem exists_digits_of_bracedHex? {text rest : List Char} {n : Nat}
    (h : bracedHex? text = some (n, rest)) :
    ∃ digits, digits ≠ [] ∧ hexValue? 0 digits = some n ∧ text = '\x7b' :: (digits ++ '\x7d' :: rest) := by
  unfold bracedHex? at h
  split at h
  · rename_i inner
    dsimp only at h
    split at h
    · rename_i m tail hvalue hdrop
      split at h
      · cases h
      · rename_i hempty
        obtain ⟨rfl, rfl⟩ := Prod.mk.inj (Option.some.inj h)
        refine ⟨_, by simpa using hempty, hvalue, ?_⟩
        have htake := List.prefix_iff_eq_take.mp
          (List.takeWhile_prefix (fun c => (hexDigit? c).isSome) (l := inner))
        have happend := List.take_append_drop
          (inner.takeWhile fun c => (hexDigit? c).isSome).length inner
        rw [← htake, hdrop] at happend
        rw [happend]
    · cases h
  · cases h

theorem bracedHex?_eq_none {text : List Char}
    (h : ∀ digits rest, text = '\x7b' :: (digits ++ '\x7d' :: rest) → digits ≠ [] →
      hexValue? 0 digits = none) : bracedHex? text = none := by
  cases hsome : bracedHex? text with
  | none => rfl
  | some found =>
    obtain ⟨digits, hne, hvalue, htext⟩ := exists_digits_of_bracedHex? hsome
    rw [h digits found.2 htext hne] at hvalue
    cases hvalue

theorem bracedHex?_of_digit {c : Char} (h : (hexDigit? c).isSome = true) (rest : List Char) :
    bracedHex? (c :: rest) = none := by
  have hne : c ≠ '\x7b' := by
    rintro rfl
    exact absurd h (by decide)
  rw [bracedHex?]
  simp [hne]

/-! ### Decoding -/

/-- **Units contribute what they denote.** -/
theorem codePoints_append_of_unit {text : List Char} {points : List Nat} (h : EscapeUnit text points)
    (rest : List Char) : codePoints (text ++ rest) = (points ++ ·) <$> codePoints rest := by
  obtain ⟨c, hc, rfl, rfl⟩ | ⟨c, hu, hx, rfl, rfl⟩ | ⟨a, b, n, hvalue, rfl, rfl⟩ |
    ⟨a, b, c, d, n, hvalue, rfl, rfl⟩ | ⟨digits, n, hne, hvalue, hle, rfl, rfl⟩ := h.shape
  · rw [List.singleton_append, codePoints]
    · rfl
    all_goals simp [hc]
  · rw [List.cons_append, List.singleton_append, codePoints, if_neg hx]
    · rfl
    all_goals simp [hu, hx]
  · simp only [List.cons_append, List.nil_append]
    rw [codePoints]
    simp only [hvalue]
    rfl
  · simp only [List.cons_append, List.nil_append]
    have hbraced : bracedHex? (a :: b :: c :: d :: rest) = none :=
      bracedHex?_of_digit (isSome_of_hexValue? hvalue a List.mem_cons_self) _
    rw [codePoints]
    split
    · rename_i hsome
      rw [hbraced] at hsome
      cases hsome
    · simp only [hvalue]
      rfl
  · have hbraced := bracedHex?_append hne hvalue rest
    simp only [List.cons_append, List.append_assoc, List.nil_append]
    rw [codePoints]
    split
    · rename_i m tail hsome
      obtain ⟨rfl, rfl⟩ := Prod.mk.inj (Option.some.inj (hbraced.symm.trans hsome))
      rw [bracedCodePoint, if_pos hle]
      rfl
    · rename_i hnone
      rw [hbraced] at hnone
      cases hnone

/-- A number in braces that is too large is reported. -/
theorem codePoints_braced_error {digits : List Char} {n : Nat} {e : EscapeError} (hne : digits ≠ [])
    (hvalue : hexValue? 0 digits = some n) (he : bracedCodePoint n = .error e) (rest : List Char) :
    codePoints ('\\' :: 'u' :: '\x7b' :: (digits ++ '\x7d' :: rest)) = .error e := by
  have hbraced := bracedHex?_append hne hvalue rest
  rw [codePoints]
  split
  · rename_i m tail hsome
    obtain ⟨rfl, rfl⟩ := Prod.mk.inj (Option.some.inj (hbraced.symm.trans hsome))
    rw [he]
    rfl
  · rename_i hnone
    rw [hbraced] at hnone
    cases hnone

/-- **Faults are reported.** -/
theorem codePoints_of_fault {text : List Char} {e : EscapeError} (h : Fault text e) :
    codePoints text = .error e := by
  cases h with
  | @byte rest hnone =>
    obtain _ | ⟨a, _ | ⟨b, tail⟩⟩ := rest
    · simp [codePoints]
    · simp [codePoints]
    · simp [codePoints, hnone a b tail rfl]
  | @unicode rest hnone hbraced =>
    rw [codePoints]
    split
    · rename_i hsome
      rw [bracedHex?_eq_none hbraced] at hsome
      cases hsome
    · obtain _ | ⟨a, _ | ⟨b, _ | ⟨c, _ | ⟨d, tail⟩⟩⟩⟩ := rest
      · rfl
      · rfl
      · rfl
      · rfl
      · simp only [hnone a b c d tail rfl]
  | outOfRange hne hvalue hgt hlt =>
    refine codePoints_braced_error hne hvalue ?_ _
    rw [bracedCodePoint, if_neg (by omega), if_pos (by omega)]
  | tooLarge hne hvalue hge =>
    refine codePoints_braced_error hne hvalue ?_ _
    rw [bracedCodePoint, if_neg (by omega), if_neg (by omega)]

/-! ### Splitting -/

/-- Where the reading of units stops: at the end, at a backslash there, or at a fault. -/
inductive Stops : List Char → Prop
  | nil : Stops []
  | backslash : Stops ['\\']
  | fault {text : List Char} {e : EscapeError} : Fault text e → Stops text

/-- A text is split into units and a rest at which their reading stops. -/
structure Splits (body : List Char) (units : List (List Char × List Nat)) (rest : List Char) : Prop where
  text : body = units.flatMap Prod.fst ++ rest
  units : ∀ u ∈ units, EscapeUnit u.1 u.2
  stops : Stops rest

/-- The reading stops, or there is a unit. -/
theorem stops_or_unit (text : List Char) :
    Stops text ∨ ∃ front points rest, EscapeUnit front points ∧ text = front ++ rest := by
  obtain _ | ⟨c, rest⟩ := text
  · exact .inl .nil
  by_cases hc : c = '\\'
  swap
  · exact .inr ⟨[c], _, rest, .plain hc, rfl⟩
  obtain rfl := hc
  obtain _ | ⟨c, rest⟩ := rest
  · exact .inl .backslash
  by_cases hx : c = 'x'
  · subst hx
    by_cases hvalue : ∃ a b tail n, rest = a :: b :: tail ∧ hexValue? 0 [a, b] = some n
    · obtain ⟨a, b, tail, n, rfl, hvalue⟩ := hvalue
      exact .inr ⟨_, _, tail, .byte hvalue, rfl⟩
    · refine .inl (.fault (.byte fun a b tail hrest => ?_))
      rw [Option.eq_none_iff_forall_not_mem]
      exact fun n hn => hvalue ⟨a, b, tail, n, hrest, hn⟩
  by_cases hu : c = 'u'
  swap
  · exact .inr ⟨['\\', c], _, rest, escapeUnit_simple hu hx, rfl⟩
  subst hu
  cases hbraced : bracedHex? rest with
  | some found =>
    obtain ⟨n, tail⟩ := found
    obtain ⟨digits, hne, hvalue, rfl⟩ := exists_digits_of_bracedHex? hbraced
    by_cases hle : n ≤ 0x10ffff
    · exact .inr ⟨_, _, tail, .braced hne hvalue hle, by simp⟩
    by_cases hlt : n < 2 ^ 31
    · exact .inl (.fault (.outOfRange hne hvalue (by omega) hlt))
    · exact .inl (.fault (.tooLarge hne hvalue (by omega)))
  | none =>
    by_cases hvalue : ∃ a b c d tail n, rest = a :: b :: c :: d :: tail ∧ hexValue? 0 [a, b, c, d] = some n
    · obtain ⟨a, b, c, d, tail, n, rfl, hvalue⟩ := hvalue
      exact .inr ⟨_, _, tail, .four hvalue, rfl⟩
    · refine .inl (.fault (.unicode (fun a b c d tail hrest => ?_) fun digits tail hrest hne => ?_))
      · rw [Option.eq_none_iff_forall_not_mem]
        exact fun n hn => hvalue ⟨a, b, c, d, tail, n, hrest, hn⟩
      · rw [Option.eq_none_iff_forall_not_mem]
        intro n hn
        rw [hrest, bracedHex?_append hne hn] at hbraced
        cases hbraced

theorem EscapeUnit.ne_nil {text : List Char} {points : List Nat} (h : EscapeUnit text points) :
    text ≠ [] := by
  cases h <;> simp

/-- Every text can be split. -/
theorem exists_splits (body : List Char) : ∃ units rest, Splits body units rest := by
  obtain hstops | ⟨front, points, rest, hunit, htext⟩ := stops_or_unit body
  · exact ⟨[], body, rfl, by simp, hstops⟩
  · have hpos := List.length_pos_iff.mpr hunit.ne_nil
    have hlength : rest.length < body.length := by
      rw [htext, List.length_append]
      omega
    obtain ⟨units, tail, hsplits⟩ := exists_splits rest
    refine ⟨(front, points) :: units, tail, ?_, List.forall_mem_cons.mpr ⟨hunit, hsplits.units⟩, hsplits.stops⟩
    rw [htext, hsplits.text, List.flatMap_cons, List.append_assoc]
termination_by body.length

/-- The code points of the escape after a backslash, and what follows it. -/
def escapeAt? : List Char → Option (List Nat × List Char)
  | [] => none
  | c :: rest =>
    if c = 'x' then
      match rest with
      | a :: b :: rest => (hexValue? 0 [a, b]).map fun n => ([n], rest)
      | _ => none
    else if c = 'u' then
      match bracedHex? rest, rest with
      | some (n, rest), _ => if n ≤ 0x10ffff then some ([n], rest) else none
      | none, a :: b :: c :: d :: rest => (hexValue? 0 [a, b, c, d]).map fun n => ([n], rest)
      | none, _ => none
    else some (simpleEscape c, rest)

/-- The code points of the unit at the front of a text, and what follows the unit. -/
def unitAt? : List Char → Option (List Nat × List Char)
  | [] => none
  | c :: rest => if c = '\\' then escapeAt? rest else some ([c.toNat], rest)

theorem unitAt?_append {front : List Char} {points : List Nat} (h : EscapeUnit front points)
    (rest : List Char) : unitAt? (front ++ rest) = some (points, rest) := by
  obtain ⟨c, hc, rfl, rfl⟩ | ⟨c, hu, hx, rfl, rfl⟩ | ⟨a, b, n, hvalue, rfl, rfl⟩ |
    ⟨a, b, c, d, n, hvalue, rfl, rfl⟩ | ⟨digits, n, hne, hvalue, hle, rfl, rfl⟩ := h.shape
  · simp [unitAt?, hc]
  · simp [unitAt?, escapeAt?, hx, hu]
  · simp [unitAt?, escapeAt?, hvalue]
  · have hbraced := bracedHex?_of_digit (isSome_of_hexValue? hvalue a List.mem_cons_self)
      (b :: c :: d :: rest)
    simp [unitAt?, escapeAt?, hbraced, hvalue]
  · simp [unitAt?, escapeAt?, bracedHex?_append hne hvalue, hle]

theorem unitAt?_of_stops {text : List Char} (h : Stops text) : unitAt? text = none := by
  cases h with
  | nil => rfl
  | backslash => rfl
  | fault hfault =>
    cases hfault with
    | @byte rest hnone =>
      obtain _ | ⟨a, _ | ⟨b, tail⟩⟩ := rest
      · rfl
      · rfl
      · simp [unitAt?, escapeAt?, hnone a b tail rfl]
    | @unicode rest hnone hbraced =>
      have hnobrace := bracedHex?_eq_none hbraced
      obtain _ | ⟨a, _ | ⟨b, _ | ⟨c, _ | ⟨d, tail⟩⟩⟩⟩ := rest
      · simp [unitAt?, escapeAt?, hnobrace]
      · simp [unitAt?, escapeAt?, hnobrace]
      · simp [unitAt?, escapeAt?, hnobrace]
      · simp [unitAt?, escapeAt?, hnobrace]
      · simp [unitAt?, escapeAt?, hnobrace, hnone a b c d tail rfl]
    | outOfRange hne hvalue hgt _ => simp [unitAt?, escapeAt?, bracedHex?_append hne hvalue, hgt]
    | @tooLarge digits rest n hne hvalue hge =>
      have hgt : ¬ n ≤ 0x10ffff := by omega
      simp [unitAt?, escapeAt?, bracedHex?_append hne hvalue, hgt]

/-- The first unit of a text that is split, and the rest of the split. -/
theorem Splits.of_cons {body rest : List Char} {u : List Char × List Nat}
    {units : List (List Char × List Nat)} (h : Splits body (u :: units) rest) :
    ∃ tail, body = u.1 ++ tail ∧ unitAt? body = some (u.2, tail) ∧ Splits tail units rest := by
  obtain ⟨hunit, hunits⟩ := List.forall_mem_cons.mp h.units
  have htext : body = u.1 ++ (units.flatMap Prod.fst ++ rest) := by
    rw [h.text, List.flatMap_cons, List.append_assoc]
  refine ⟨_, htext, ?_, rfl, hunits, h.stops⟩
  rw [htext]
  exact unitAt?_append hunit _

theorem Splits.unitAt?_eq_none {body rest : List Char} (h : Splits body [] rest) :
    unitAt? body = none := by
  rw [h.text]
  exact unitAt?_of_stops h.stops

/-- **There is only one way to split a text.** -/
theorem Splits.unique {body : List Char} {units units' : List (List Char × List Nat)}
    {rest rest' : List Char} (h : Splits body units rest) (h' : Splits body units' rest') :
    units = units' ∧ rest = rest' := by
  induction units generalizing body units' with
  | nil =>
    obtain _ | ⟨u', units'⟩ := units'
    · exact ⟨rfl, h.text.symm.trans h'.text⟩
    · obtain ⟨tail, -, hunit, -⟩ := h'.of_cons
      rw [h.unitAt?_eq_none] at hunit
      cases hunit
  | cons u units ih =>
    obtain ⟨tail, htext, hunit, hrest⟩ := h.of_cons
    obtain _ | ⟨u', units'⟩ := units'
    · rw [h'.unitAt?_eq_none] at hunit
      cases hunit
    · obtain ⟨tail', htext', hunit', hrest'⟩ := h'.of_cons
      obtain ⟨hpoints, rfl⟩ := Prod.mk.inj (Option.some.inj (hunit.symm.trans hunit'))
      have hfront : u.1 = u'.1 := List.append_cancel_right (htext.symm.trans htext')
      obtain ⟨rfl, rfl⟩ := ih hrest hrest'
      exact ⟨by rw [Prod.ext hfront hpoints], rfl⟩

/-! ### Code points of a split -/

theorem codePoints_of_splits {body rest : List Char} {units : List (List Char × List Nat)}
    (h : Splits body units rest) :
    codePoints body = (units.flatMap Prod.snd ++ ·) <$> codePoints rest := by
  induction units generalizing body with
  | nil =>
    rw [h.text, List.flatMap_nil, List.nil_append]
    cases codePoints rest <;> rfl
  | cons u units ih =>
    obtain ⟨hunit, -⟩ := List.forall_mem_cons.mp h.units
    obtain ⟨tail, htext, -, hrest⟩ := h.of_cons
    rw [htext, codePoints_append_of_unit hunit, ih hrest]
    cases codePoints rest with
    | error e => rfl
    | ok points => simp [Functor.map, Except.map, List.append_assoc]

/-- Units denote code points. -/
theorem EscapeUnit.le {text : List Char} {points : List Nat} (h : EscapeUnit text points) :
    ∀ n ∈ points, n ≤ 0x10ffff := by
  have hchar : ∀ c : Char, c.toNat ≤ 0x10ffff := by
    intro c
    have hc := c.valid
    have htoNat : c.toNat = c.val.toNat := rfl
    simp only [UInt32.isValidChar, Nat.isValidChar] at hc
    omega
  cases h with
  | plain => simp [hchar]
  | control hmem =>
    have hall : controlLetters.all (fun p => decide (p.2 ≤ 0x10ffff)) = true := by decide
    simpa using of_decide_eq_true (List.all_eq_true.mp hall _ hmem)
  | byte hvalue =>
    have := hexValue?_lt hvalue
    simp at this ⊢
    omega
  | four hvalue =>
    have := hexValue?_lt hvalue
    simp at this ⊢
    omega
  | braced _ _ hle => simpa using hle
  | lineEnd => simp
  | other => simp [hchar]

/-! ### Surrogate pairs -/

/-- A code point in 16-bit units. -/
def utf16 (n : Nat) : List Nat :=
  if n < 0x10000 then [n] else [0xd800 + (n - 0x10000) / 0x400, 0xdc00 + (n - 0x10000) % 0x400]

/-- Code points stand for the same 16-bit units as others, and no two of them are the halves of a pair. -/
structure Joins (points joined : List Nat) : Prop where
  le : ∀ n ∈ joined, n ≤ 0x10ffff
  units : joined.flatMap utf16 = points.flatMap utf16
  apart : joined.IsChain fun a b => ¬ (isHighSurrogate a = true ∧ isLowSurrogate b = true)

theorem isHighSurrogate_iff {n : Nat} : isHighSurrogate n = true ↔ 0xd800 ≤ n ∧ n < 0xdc00 := by
  simp [isHighSurrogate]

theorem isLowSurrogate_iff {n : Nat} : isLowSurrogate n = true ↔ 0xdc00 ≤ n ∧ n < 0xe000 := by
  simp [isLowSurrogate]

theorem joinSurrogates_eq (high low : Nat) :
    joinSurrogates high low = 0x10000 + (high - 0xd800) * 0x400 + (low - 0xdc00) := rfl

/-- The 16-bit units of a joined pair are its halves. -/
theorem utf16_joinSurrogates {high low : Nat} (hhigh : isHighSurrogate high = true)
    (hlow : isLowSurrogate low = true) : utf16 (joinSurrogates high low) = [high, low] := by
  rw [isHighSurrogate_iff] at hhigh
  rw [isLowSurrogate_iff] at hlow
  have hjoin := joinSurrogates_eq high low
  have hfirst : 0xd800 + (joinSurrogates high low - 0x10000) / 0x400 = high := by omega
  have hsecond : 0xdc00 + (joinSurrogates high low - 0x10000) % 0x400 = low := by omega
  have hlarge : ¬ joinSurrogates high low < 0x10000 := by omega
  rw [utf16, if_neg hlarge, hfirst, hsecond]

/-- What joining gives is the sequence itself if there are no pairs. -/
theorem joinPairs_of_apart {points : List Nat}
    (h : points.IsChain fun a b => ¬ (isHighSurrogate a = true ∧ isLowSurrogate b = true)) :
    joinPairs points = points := by
  fun_induction joinPairs points with
  | case1 high low rest hpair ih =>
    rw [Bool.and_eq_true] at hpair
    exact absurd hpair (List.isChain_cons_cons.mp h).1
  | case2 high low rest hpair ih => rw [ih (List.isChain_cons_cons.mp h).2]
  | case3 points hshort => rfl

/-- A code point that makes no pair with the next 16-bit unit is found again from its own. -/
theorem joinPairs_utf16_append {n : Nat} (hn : n ≤ 0x10ffff) {rest : List Nat}
    (h : ∀ m ∈ rest.head?, ¬ (isHighSurrogate n = true ∧ isLowSurrogate m = true)) :
    joinPairs (utf16 n ++ rest) = n :: joinPairs rest := by
  rw [utf16]
  split
  · obtain _ | ⟨m, rest⟩ := rest
    · rfl
    · have hpair : (isHighSurrogate n && isLowSurrogate m) = false := by
        rw [Bool.eq_false_iff, ne_eq, Bool.and_eq_true]
        exact h m rfl
      rw [List.singleton_append, joinPairs, hpair, if_neg Bool.false_ne_true]
  · have hhigh : isHighSurrogate (0xd800 + (n - 0x10000) / 0x400) = true := by
      rw [isHighSurrogate_iff]
      omega
    have hlow : isLowSurrogate (0xdc00 + (n - 0x10000) % 0x400) = true := by
      rw [isLowSurrogate_iff]
      omega
    have hjoin := joinSurrogates_eq (0xd800 + (n - 0x10000) / 0x400) (0xdc00 + (n - 0x10000) % 0x400)
    have hsame : joinSurrogates (0xd800 + (n - 0x10000) / 0x400) (0xdc00 + (n - 0x10000) % 0x400) = n := by
      omega
    rw [List.cons_append, List.singleton_append, joinPairs, hhigh, hlow, hsame]
    rfl

/-- The first 16-bit unit of a code point is the second half of a pair only if the code point is. -/
theorem isLowSurrogate_of_head_utf16 {n m : Nat} {rest : List Nat} (hn : n ≤ 0x10ffff)
    (hm : m ∈ (utf16 n ++ rest).head?) (h : isLowSurrogate m = true) : isLowSurrogate n = true := by
  rw [utf16] at hm
  split at hm
  · obtain rfl := Option.some.inj hm
    exact h
  · obtain rfl := Option.some.inj hm
    rw [isLowSurrogate_iff] at h
    omega

/-- Joining does not depend on whether code points are given as such or by their 16-bit units. -/
theorem joinPairs_flatMap_utf16 {points : List Nat} (h : ∀ n ∈ points, n ≤ 0x10ffff) :
    joinPairs (points.flatMap utf16) = joinPairs points := by
  fun_induction joinPairs points with
  | case1 high low rest hpair ih =>
    have hpair' := hpair
    rw [Bool.and_eq_true] at hpair'
    have hhigh : utf16 high = [high] := if_pos (by have := isHighSurrogate_iff.mp hpair'.1; omega)
    have hlow : utf16 low = [low] := if_pos (by have := isLowSurrogate_iff.mp hpair'.2; omega)
    rw [List.flatMap_cons, List.flatMap_cons, hhigh, hlow, List.singleton_append, List.singleton_append,
      joinPairs, if_pos hpair, ih fun n hn => h n (by simp [hn])]
  | case2 high low rest hpair ih =>
    obtain ⟨hle, hrest⟩ := List.forall_mem_cons.mp h
    rw [List.flatMap_cons, joinPairs_utf16_append hle, ih hrest]
    rintro m hm ⟨hhigh, hlow⟩
    rw [List.flatMap_cons] at hm
    refine hpair ?_
    rw [hhigh, isLowSurrogate_of_head_utf16 (hrest low List.mem_cons_self) hm hlow]
    rfl
  | case3 points hshort =>
    obtain _ | ⟨n, _ | ⟨m, rest⟩⟩ := points
    · rfl
    · have hjoin : joinPairs (utf16 n ++ []) = n :: joinPairs [] :=
        joinPairs_utf16_append (h n List.mem_cons_self) (by simp)
      rw [List.flatMap_cons, List.flatMap_nil]
      exact hjoin
    · exact absurd rfl (hshort n m rest)

/-- The first code point is kept, or is the first half of a pair. -/
theorem head_joinPairs {n m : Nat} {rest : List Nat} (h : m ∈ (joinPairs (n :: rest)).head?) :
    m = n ∨ 0x10000 ≤ m := by
  obtain _ | ⟨k, rest⟩ := rest
  · exact .inl (Option.some.inj h).symm
  · rw [joinPairs] at h
    split at h
    · have hjoin := joinSurrogates_eq n k
      have hm := Option.some.inj h
      exact .inr (by omega)
    · exact .inl (Option.some.inj h).symm

/-- **Joining keeps the 16-bit units and leaves no pairs.** -/
theorem joins_joinPairs {points : List Nat} (h : ∀ n ∈ points, n ≤ 0x10ffff) :
    Joins points (joinPairs points) := by
  fun_induction joinPairs points with
  | case1 high low rest hpair ih =>
    rw [Bool.and_eq_true] at hpair
    obtain ⟨hle, hunits, hapart⟩ := ih fun n hn => h n (by simp [hn])
    have hhigh := isHighSurrogate_iff.mp hpair.1
    have hlow := isLowSurrogate_iff.mp hpair.2
    have hjoin := joinSurrogates_eq high low
    refine ⟨List.forall_mem_cons.mpr ⟨by omega, hle⟩, ?_, List.isChain_cons.mpr ⟨?_, hapart⟩⟩
    · have hhalves : ∀ n ∈ [high, low], utf16 n = [n] := by
        intro n hn
        refine if_pos ?_
        simp only [List.mem_cons, List.not_mem_nil, or_false] at hn
        omega
      rw [List.flatMap_cons, utf16_joinSurrogates hpair.1 hpair.2, hunits, List.flatMap_cons,
        List.flatMap_cons, hhalves high (by simp), hhalves low (by simp)]
      rfl
    · rintro m - ⟨hjoined, -⟩
      rw [isHighSurrogate_iff] at hjoined
      omega
  | case2 high low rest hpair ih =>
    obtain ⟨hfirst, hrest⟩ := List.forall_mem_cons.mp h
    obtain ⟨hle, hunits, hapart⟩ := ih hrest
    refine ⟨List.forall_mem_cons.mpr ⟨hfirst, hle⟩, ?_, List.isChain_cons.mpr ⟨?_, hapart⟩⟩
    · rw [List.flatMap_cons, hunits]
      rfl
    · rintro m hm ⟨hhigh, hlow⟩
      obtain rfl | hge := head_joinPairs hm
      · exact hpair (by rw [hhigh, hlow]; rfl)
      · rw [isLowSurrogate_iff] at hlow
        omega
  | case3 points hshort =>
    refine ⟨h, rfl, ?_⟩
    obtain _ | ⟨n, _ | ⟨m, rest⟩⟩ := points
    · exact .nil
    · exact .singleton n
    · exact absurd rfl (hshort n m rest)

/-- **There is only one way to join.** -/
theorem Joins.eq_joinPairs {points joined : List Nat} (hpoints : ∀ n ∈ points, n ≤ 0x10ffff)
    (h : Joins points joined) : joined = joinPairs points := by
  rw [← joinPairs_flatMap_utf16 hpoints, ← h.units, joinPairs_flatMap_utf16 h.le,
    joinPairs_of_apart h.apart]

/-- **String literals denote what their units denote.** What stands between the first and the last character
of a literal is split in one way only, into units and a rest at which their reading stops. If that is a fault,
it is what decoding reports. If it is the end of the text, or a backslash there, which denotes itself, decoding
gives the one sequence of code points with the 16-bit units of what was denoted in which no two code points
are the halves of a surrogate pair. -/
theorem decodeString_units (first last : Char) (body : List Char) :
    ∃ units rest, Splits body units rest ∧
      (∀ units' rest', Splits body units' rest' → units' = units ∧ rest' = rest) ∧
      ((∃ e, Fault rest e ∧ decodeString (String.ofList (first :: (body ++ [last]))) = .error e) ∨
        (rest = [] ∨ rest = ['\\']) ∧
          ∃ joined, decodeString (String.ofList (first :: (body ++ [last]))) = .ok joined ∧
            Joins (units.flatMap Prod.snd ++ rest.map Char.toNat) joined ∧
            ∀ joined', Joins (units.flatMap Prod.snd ++ rest.map Char.toNat) joined' → joined' = joined) := by
  obtain ⟨units, rest, hsplits⟩ := exists_splits body
  have hbody : ((String.ofList (first :: (body ++ [last]))).toList.drop 1).dropLast = body := by simp
  refine ⟨units, rest, hsplits, fun units' rest' h' => h'.unique hsplits, ?_⟩
  rw [decodeString, hbody, codePoints_of_splits hsplits]
  have hunits : ∀ n ∈ units.flatMap Prod.snd, n ≤ 0x10ffff := by
    intro n hn
    obtain ⟨u, hu, hn⟩ := List.mem_flatMap.mp hn
    exact (hsplits.units u hu).le n hn
  -- the end of the text and a backslash there are decoded, a fault is reported
  have hok : ∀ points, codePoints rest = .ok points → rest.map Char.toNat = points →
      (∀ n ∈ points, n ≤ 0x10ffff) →
      ∃ joined, (joinPairs <$> (units.flatMap Prod.snd ++ ·) <$> codePoints rest) = .ok joined ∧
        Joins (units.flatMap Prod.snd ++ rest.map Char.toNat) joined ∧
        ∀ joined', Joins (units.flatMap Prod.snd ++ rest.map Char.toNat) joined' → joined' = joined := by
    rintro points hpoints rfl hle
    have hall := List.forall_mem_append.mpr ⟨hunits, hle⟩
    rw [hpoints]
    exact ⟨_, rfl, joins_joinPairs hall, fun joined' h => h.eq_joinPairs hall⟩
  cases hsplits.stops with
  | nil => exact .inr ⟨.inl rfl, hok [] (by rw [codePoints]) rfl (by simp)⟩
  | backslash => exact .inr ⟨.inr rfl, hok ['\\'.toNat] (by rw [codePoints]) rfl (by simp)⟩
  | @fault _ e hfault =>
    refine .inl ⟨e, hfault, ?_⟩
    rw [codePoints_of_fault hfault]
    rfl

end RhoScript.Source
