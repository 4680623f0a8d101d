import RhoScript.Source.Literal

/-!
# The text of a string is a string literal

Ground values and sources write strings alike. Main statements: the text of a string is a literal that
denotes this string (`decodeString_stringText`), and it is taken as a whole from the front of a
source (`stringLength_stringText_append`). Different strings are written differently, also those that are
no texts (`flatMap_escapePoint_injective`).
-/

namespace RhoScript.Source

open Text Ground

/-! ### Single characters -/

/-- A character that may stand between the quotes as it is. -/
abbrev IsPlain (c : Char) : Prop := c ≠ '"' ∧ c ≠ '\\' ∧ c ≠ '\n'

/-- A control character has four digits, which denote it. -/
theorem hex_control {n : Nat} (hn : n < 0x20) :
    ∃ a b c d, hex 4 n = [a, b, c, d] ∧ hexValue? 0 [a, b, c, d] = some n ∧ a ≠ '\x7b' ∧
      ∀ x ∈ [a, b, c, d], IsPlain x := by
  have hdigits : ∀ n < 0x20, (hex 4 n).length = 4 ∧ hexValue? 0 (hex 4 n) = some n ∧
      (hex 4 n).head? ≠ some '\x7b' ∧
      (hex 4 n).all (fun x => decide (IsPlain x)) = true := by decide +kernel
  specialize hdigits n hn
  generalize hex 4 n = digits at hdigits
  obtain ⟨hlength, hvalue, hhead, hplain⟩ := hdigits
  match digits with
  | [a, b, c, d] => exact ⟨a, b, c, d, rfl, hvalue, fun h => hhead (congrArg some h),
      by simpa only [List.all_eq_true, decide_eq_true_eq] using hplain⟩

/-- How a character stands inside the text of a string: as it is, as another character after a
backslash, or by its number. -/
theorem escape_cases (c : Char) :
    (escape c = [c] ∧ IsPlain c) ∨
    (∃ l, escape c = ['\\', l] ∧ l ≠ '\n' ∧ l ≠ 'u' ∧ l ≠ 'x' ∧ simpleEscape l = [c.toNat]) ∨
    (∃ i j k l, escape c = ['\\', 'u', i, j, k, l] ∧ hexValue? 0 [i, j, k, l] = some c.toNat ∧
      i ≠ '\x7b' ∧ ∀ x ∈ [i, j, k, l], IsPlain x) := by
  unfold escape
  split
  · rename_i h
    refine .inr (.inl ⟨c, rfl, ?_⟩)
    obtain rfl | rfl := h <;> decide
  split
  · rename_i h
    subst h
    exact .inr (.inl ⟨'n', rfl, by decide⟩)
  split
  · rename_i h
    subst h
    exact .inr (.inl ⟨'r', rfl, by decide⟩)
  split
  · rename_i h
    subst h
    exact .inr (.inl ⟨'t', rfl, by decide⟩)
  split
  · rename_i h
    subst h
    exact .inr (.inl ⟨'b', rfl, by decide⟩)
  split
  · rename_i h
    subst h
    exact .inr (.inl ⟨'f', rfl, by decide⟩)
  split
  · rename_i h
    obtain ⟨i, j, k, l, heq, hrest⟩ := hex_control h
    rw [heq]
    exact .inr (.inr ⟨i, j, k, l, rfl, hrest⟩)
  · rename_i hquote hfeed _ _ _ _ _
    rw [not_or] at hquote
    exact .inl ⟨rfl, hquote.1, hquote.2, hfeed⟩

/-! ### Decoding -/

/-- The unit of a character denotes that character. -/
theorem codePoints_escape_append (c : Char) (rest : List Char) :
    codePoints (escape c ++ rest) = (c.toNat :: ·) <$> codePoints rest := by
  obtain ⟨heq, -, hc, -⟩ | ⟨l, heq, -, hu, hx, hl⟩ | ⟨i, j, k, l, heq, hvalue, hi, -⟩ :=
    escape_cases c
  · rw [heq, List.singleton_append, codePoints]
    · rfl
    all_goals simp [hc]
  · rw [heq, List.cons_append, List.singleton_append, codePoints, if_neg hx, hl]
    · rfl
    all_goals simp [hu, hx]
  · rw [heq]
    simp only [List.cons_append, List.nil_append]
    have hbraced : bracedHex? (i :: j :: k :: l :: rest) = none := by
      rw [bracedHex?]
      simp [hi]
    rw [codePoints]
    split
    · rename_i hsome
      rw [hbraced] at hsome
      cases hsome
    · simp only [hvalue]
      rfl

/-- The units of a string denote its characters. -/
theorem codePoints_flatMap_escape (text : List Char) :
    codePoints (text.flatMap escape) = .ok (text.map Char.toNat) := by
  induction text with
  | nil => rw [List.flatMap_nil, codePoints, List.map_nil]
  | cons c rest ih => rw [List.flatMap_cons, codePoints_escape_append, ih, List.map_cons]; rfl

/-- A character is no half of a surrogate pair. -/
theorem isHighSurrogate_toNat (c : Char) : isHighSurrogate c.toNat = false := by
  have hc := c.valid
  simp only [UInt32.isValidChar, Nat.isValidChar] at hc
  simp only [isHighSurrogate, Bool.and_eq_false_iff, decide_eq_false_iff_not]
  have : c.toNat = c.val.toNat := rfl
  omega

theorem joinPairs_map_toNat (text : List Char) :
    joinPairs (text.map Char.toNat) = text.map Char.toNat := by
  induction text with
  | nil => rfl
  | cons c rest ih =>
    cases rest with
    | nil => rfl
    | cons d rest =>
      rw [List.map_cons, List.map_cons, joinPairs, isHighSurrogate_toNat, Bool.false_and, if_neg nofun,
        ← List.map_cons, ih]

theorem stringOf_map_toNat (text : List Char) : stringOf (text.map Char.toNat) = String.ofList text := by
  rw [stringOf, List.map_map, WideString.ofString_ofList]
  exact List.map_congr_left fun c _ => CodePoint.ofNat_toNat c

/-- **The text of a string denotes the characters of the string.** -/
theorem decodeString_stringText (s : String) :
    decodeString (stringText s) = .ok (s.toList.map Char.toNat) := by
  have hbody : ((stringText s).toList.drop 1).dropLast = s.toList.flatMap escape := by
    simp [stringText]
  rw [decodeString, hbody, codePoints_flatMap_escape]
  simp only [Functor.map, Except.map]
  rw [joinPairs_map_toNat]

/-! ### Telling strings apart -/

theorem escape_injective {c d : Char} (h : escape c = escape d) : c = d := by
  have hpoints := codePoints_escape_append c []
  rw [h, codePoints_escape_append, codePoints] at hpoints
  exact Char.toNat_inj.mp (List.cons.inj (Except.ok.inj hpoints)).1.symm

theorem escapePoint_injective {p q : CodePoint} (h : escapePoint p = escapePoint q) : p = q := by
  cases p with
  | char c =>
    cases q with
    | char d =>
      rw [escape_injective (List.map_inj_right (fun _ _ => CodePoint.char.inj) |>.mp h)]
    | half n =>
      have hmem : .half n ∈ escapePoint (.char c) := h ▸ List.mem_singleton_self _
      simp [escapePoint] at hmem
  | half n =>
    cases q with
    | char d =>
      have hmem : .half n ∈ escapePoint (.char d) := h ▸ List.mem_singleton_self _
      simp [escapePoint] at hmem
    | half m => exact (List.cons.inj h).1

/-- The length of the unit at the front of a text. -/
def unitLength : WideString → Nat
  | .char '\\' :: .char 'u' :: _ => 6
  | .char '\\' :: _ => 2
  | _ => 1

theorem unitLength_escapePoint_append (p : CodePoint) (rest : WideString) :
    unitLength (escapePoint p ++ rest) = (escapePoint p).length := by
  cases p with
  | half n => rfl
  | char c =>
    rw [escapePoint]
    obtain ⟨heq, -, hc, -⟩ | ⟨l, heq, -, hu, -⟩ | ⟨i, j, k, l, heq, -⟩ := escape_cases c
    · rw [heq]
      unfold unitLength
      split <;> simp_all
    · rw [heq]
      unfold unitLength
      split <;> simp_all
    · rw [heq]
      rfl

/-- Different strings are written differently between the quotes. -/
theorem flatMap_escapePoint_injective {s t : WideString}
    (h : s.flatMap escapePoint = t.flatMap escapePoint) : s = t := by
  have hne : ∀ (p : CodePoint) (rest : WideString), escapePoint p ++ rest ≠ [] := by
    intro p rest hnil
    have hlength := unitLength_escapePoint_append p rest
    rw [List.append_eq_nil_iff.mp hnil |>.1, List.append_eq_nil_iff.mp hnil |>.2] at hlength
    cases hlength
  induction s generalizing t with
  | nil =>
    cases t with
    | nil => rfl
    | cons q t => exact absurd h.symm (hne q _)
  | cons p s ih =>
    cases t with
    | nil => exact absurd h (hne p _)
    | cons q t =>
      rw [List.flatMap_cons, List.flatMap_cons] at h
      -- the units at the front are of one length, since that is seen from the front
      have hlength : (escapePoint p).length = (escapePoint q).length := by
        rw [← unitLength_escapePoint_append p, h, unitLength_escapePoint_append]
      obtain ⟨hunits, hrest⟩ := List.append_inj h hlength
      rw [escapePoint_injective hunits, ih hrest]

/-! ### Reading from a source -/

theorem closingLength?_plain_append {text : List Char} (h : ∀ c ∈ text, IsPlain c)
    (rest : List Char) :
    closingLength? '"' (text ++ rest) = (closingLength? '"' rest).map (· + text.length) := by
  induction text with
  | nil => simp
  | cons c text ih =>
    obtain ⟨⟨hquote, hslash, hfeed⟩, htext⟩ := List.forall_mem_cons.mp h
    rw [List.cons_append, closingLength?, ih htext]
    · simp [hquote, hslash, hfeed, Function.comp_def, Nat.add_assoc]
    · simp [hslash]

/-- The search for the closing quote passes the unit of a character. -/
theorem closingLength?_escape_append (c : Char) (rest : List Char) :
    closingLength? '"' (escape c ++ rest) =
      (closingLength? '"' rest).map (· + (escape c).length) := by
  obtain ⟨heq, hc⟩ | ⟨l, heq, hl, -⟩ | ⟨i, j, k, l, heq, -, -, hplain⟩ := escape_cases c
  · rw [heq]
    exact closingLength?_plain_append (List.forall_mem_singleton.mpr hc) rest
  · rw [heq, List.cons_append, List.singleton_append, closingLength?, if_neg hl]
    rfl
  · rw [heq, List.cons_append, List.cons_append, closingLength?, if_neg (by decide),
      closingLength?_plain_append hplain, Option.map_map]
    rfl

theorem closingLength?_flatMap_escape (text rest : List Char) :
    closingLength? '"' (text.flatMap escape ++ '"' :: rest) =
      some ((text.flatMap escape).length + 1) := by
  induction text with
  | nil => simp [closingLength?]
  | cons c text ih =>
    rw [List.flatMap_cons, List.append_assoc, closingLength?_escape_append, ih]
    simp
    omega

/-- The text of a string is taken as a whole from the front of a source. -/
theorem stringLength_stringText_append (s : String) (rest : List Char) :
    stringLength ((stringText s).toList ++ rest) = (stringText s).toList.length := by
  have htext : (stringText s).toList = '"' :: s.toList.flatMap escape ++ ['"'] := by
    simp [stringText]
  rw [htext]
  simp only [List.cons_append, List.append_assoc, List.nil_append]
  rw [stringLength, closingLength?_flatMap_escape]
  simp
  omega

end RhoScript.Source
