import RhoScript.Proofs.Number.Numerals
import RhoScript.Proofs.Source.LookAhead
import RhoScript.Proofs.Source.Strings

/-!
# Words with blanks between them

A word is a terminal and how it is written. A text of words, each with a blank after it, is read word by
word, at whatever places accept their terminals: keywords and marks are told from longer and shorter ones,
and a name from the keywords that are accepted beside it, as long as it is no keyword itself.

Main statements: a word is found wherever it is accepted (`lexeme?_word`), so tokens that are linked are
scanned from the text of their words (`exists_scans_of_linked`), and a derivation is found in the text of
its words (`parseProgram_textOf`).
-/

namespace RhoScript.Source

open Text Number.Numeral

/-- A terminal and how it is written. -/
structure Word where
  terminal : Terminal
  text : String
deriving DecidableEq, Repr, Inhabited

/-- A token without its positions. -/
def Token.word (t : Token) : Word := ⟨t.terminal, t.text⟩

/-! ### Spellings -/

namespace Terminal

/-- The terminals that have a spelling of their own. -/
def spelled : List Terminal :=
  [.importWord, .exportWord, .defaultWord, .functionWord, .asWord, .fromWord, .asyncWord, .constWord,
    .letWord, .varWord, .ifWord, .elseWord, .switchWord, .caseWord, .returnWord, .breakWord, .throwWord,
    .awaitWord, .trueWord, .falseWord, .nullWord, .thisWord, .braceOpen, .braceClose, .parenOpen,
    .parenClose, .bracketOpen, .bracketClose, .semicolon, .comma, .colon, .dot, .assign, .star, .percent,
    .plus, .minus, .bang, .orOr, .andAnd, .equal, .notEqual, .strictEqual, .strictNotEqual, .less,
    .lessEqual, .greater, .greaterEqual]

/-- The terminal of a spelling. -/
def ofSpelling? (s : String) : Option Terminal := spelled.find? (·.spelling? = some s)

theorem ofSpelling?_eq {t : Terminal} {s : String} (h : t.spelling? = some s) :
    ofSpelling? s = some t := by
  cases t <;> cases h <;> rfl

theorem eq_of_spelling?_eq {t u : Terminal} {s : String} (ht : t.spelling? = some s)
    (hu : u.spelling? = some s) : t = u :=
  Option.some.inj ((ofSpelling?_eq ht).symm.trans (ofSpelling?_eq hu))

end Terminal

/-- The characters of marks and operators. -/
def markCharacters : List Char :=
  ['\x7b', '\x7d', '(', ')', '[', ']', ';', ',', ':', '.', '=', '*', '%', '+', '-', '!', '|', '&', '<',
    '>']

/-- A character of marks and operators. -/
def isMark (c : Char) : Bool := c ∈ markCharacters

theorem isNameText_iff {text : List Char} :
    IsNameText text ↔ text ≠ [] ∧ nameLength text = text.length := by
  constructor
  · rintro ⟨c, rest, rfl, hc, hrest⟩
    have htake := List.takeWhile_eq_self_iff.mpr hrest
    exact ⟨List.cons_ne_nil c rest, by rw [nameLength, if_pos hc, htake, List.length_cons, Nat.add_comm]⟩
  · rintro ⟨hne, hlength⟩
    have htake := isNameText_take (show nameLength text ≠ 0 by simpa [hlength] using hne)
    rwa [hlength, List.take_length] at htake

/-- A spelling is a word of letters, or it consists of marks. -/
theorem spelling_cases {t : Terminal} {s : String} (h : t.spelling? = some s) :
    IsNameText s.toList ∨ s.toList ≠ [] ∧ s.toList.all isMark = true := by
  have hcases : s.toList ≠ [] ∧
      (nameLength s.toList = s.toList.length ∨ s.toList.all isMark = true) := by
    cases t <;> cases h <;> decide +kernel
  exact hcases.2.imp (fun hname => isNameText_iff.mpr ⟨hcases.1, hname⟩) fun hmarks => ⟨hcases.1, hmarks⟩

/-- A name that is no keyword. -/
def IsIdentifier (x : String) : Prop := IsNameText x.toList ∧ ∀ t : Terminal, t.spelling? ≠ some x

theorem isIdentifier_iff {x : String} : IsIdentifier x ↔
    (x.toList ≠ [] ∧ nameLength x.toList = x.toList.length) ∧ Terminal.ofSpelling? x = none := by
  refine and_congr isNameText_iff ⟨fun h => ?_, fun h t ht => ?_⟩
  · cases hfind : Terminal.ofSpelling? x with
    | none => rfl
    | some t => exact absurd (by simpa using List.find?_some hfind) (h t)
  · rw [Terminal.ofSpelling?_eq ht] at h
    cases h

instance (x : String) : Decidable (IsIdentifier x) := decidable_of_iff _ isIdentifier_iff.symm

/-- A word is written as its terminal demands. A number is an integer that is not too long. -/
inductive Word.IsSpelled : Word → Prop
  | spelling {t : Terminal} {s : String} : t.spelling? = some s → IsSpelled ⟨t, s⟩
  | name {x : String} : IsIdentifier x → IsSpelled ⟨.name, x⟩
  | string (s : String) : IsSpelled ⟨.string, Ground.stringText s⟩
  | number {n : Nat} : (Nat.toDigits 10 n).length ≤ Number.Numeral.digitLimit →
      IsSpelled ⟨.number, Ground.digitsText n⟩

/-! ### The first characters of words -/

/-- A character that begins no string, number, blank or comment. -/
def isPlainStart (c : Char) : Bool :=
  c != '"' && c != '\x27' && !isDecimalDigit c && !isLayoutBlank c && c != '/'

theorem isPlainStart_of_isMark {c : Char} (h : isMark c = true) : isPlainStart c = true := by
  have hmarks : markCharacters.all isPlainStart = true := by decide +kernel
  exact List.all_eq_true.mp hmarks c (of_decide_eq_true h)

theorem isNameStart_of_isMark {c : Char} (h : isMark c = true) : isNameStart c = false := by
  have hmarks : markCharacters.all (fun c => !isNameStart c) = true := by decide +kernel
  simpa using List.all_eq_true.mp hmarks c (of_decide_eq_true h)

theorem toNat_of_isAlpha {c : Char} (h : c.isAlpha = true) : 57 < c.toNat ∧ c.toNat < 0x80 := by
  have hletter : (decide ('A'.val ≤ c.val ∧ c.val ≤ 'Z'.val) ||
      (decide ('a'.val ≤ c.val) && decide (c.val ≤ 'z'.val))) = true := h
  simp only [Bool.or_eq_true, Bool.and_eq_true, decide_eq_true_eq, UInt32.le_iff_toNat_le] at hletter
  change (65 ≤ c.toNat ∧ c.toNat ≤ 90) ∨ (97 ≤ c.toNat ∧ c.toNat ≤ 122) at hletter
  omega

theorem isDecimalDigit_of_isNameStart {c : Char} (h : isNameStart c = true) :
    isDecimalDigit c = false := by
  have hcases : c.isAlpha = true ∨ c = '_' ∨ c = '$' := by simpa [isNameStart, or_assoc] using h
  obtain hc | rfl | rfl := hcases
  · have hrange := toNat_of_isAlpha hc
    have hdigit : c.isDigit = false := by
      refine Bool.eq_false_iff.mpr fun hdigit => ?_
      have := toNat_of_isDigit hdigit
      omega
    simp [isDecimalDigit, digitValue?, hdigit, hrange.2]
  · decide
  · decide

theorem isPlainStart_of_isNameStart {c : Char} (h : isNameStart c = true) : isPlainStart c = true := by
  have hne : ∀ d ∈ ['"', '\x27', ' ', '\t', '\x0c', '\r', '\n', '/'], c ≠ d := by
    intro d hd heq
    have hnot := List.all_eq_true.mp (show ['"', '\x27', ' ', '\t', '\x0c', '\r', '\n', '/'].all
      (fun d => !isNameStart d) = true by decide) d hd
    rw [← heq, h] at hnot
    cases hnot
  simp only [List.forall_mem_cons] at hne
  obtain ⟨h1, h2, h3, h4, h5, h6, h7, h8, -⟩ := hne
  simp [isPlainStart, isLayoutBlank, isDecimalDigit_of_isNameStart h, h1, h2, h3, h4, h5, h6, h7, h8]

/-- What begins with a plain character is no string and no number. -/
theorem lengths_of_isPlainStart {c : Char} (h : isPlainStart c = true) (rest : List Char) :
    stringLength (c :: rest) = 0 ∧ numberLength (c :: rest) = 0 := by
  simp only [isPlainStart, Bool.and_eq_true, bne_iff_ne, ne_eq, Bool.not_eq_true'] at h
  obtain ⟨⟨⟨⟨hquote, htick⟩, hdigit⟩, -⟩, -⟩ := h
  exact ⟨by simp [stringLength, hquote, htick], by simp [numberLength, digitsLength, hdigit]⟩

/-- A character that begins no blank and no comment. -/
def isSolid (c : Char) : Bool := !isLayoutBlank c && c != '/'

theorem isSolid_of_isPlainStart {c : Char} (h : isPlainStart c = true) : isSolid c = true := by
  simp only [isPlainStart, Bool.and_eq_true] at h
  rw [isSolid, h.1.2, h.2, Bool.and_self]

theorem isSolid_of_isDigit {c : Char} (h : c.isDigit = true) : isSolid c = true := by
  have hne := ne_of_isDigit h
  have hblank : isLayoutBlank c = false := by
    simp [isLayoutBlank, hne ' ' rfl, hne '\t' rfl, hne '\x0c' rfl, hne '\r' rfl, hne '\n' rfl]
  simp [isSolid, hblank, hne '/' rfl]

theorem layoutLength_of_isSolid {c : Char} (h : isSolid c = true) (rest : List Char) :
    layoutLength (c :: rest) = 0 := by
  simp only [isSolid, Bool.and_eq_true, Bool.not_eq_true', bne_iff_ne, ne_eq] at h
  rw [layoutLength, h.1]
  · rfl
  all_goals
    rintro _ rfl
    exact absurd rfl h.2

/-! ### Lexemes -/

/-- A terminal is found if its spelling is there and all others that are accepted have shorter ones. -/
theorem longest?_eq {text : List Char} {ts : List Terminal} {t : Terminal} (hmem : t ∈ ts)
    (hlonger : ∀ u ∈ ts, u ≠ t → spellingLength text u < spellingLength text t)
    (hpos : spellingLength text t ≠ 0) : longest? text ts = some (t, spellingLength text t) := by
  induction ts with
  | nil => cases hmem
  | cons u rest ih =>
    rw [List.forall_mem_cons] at hlonger
    simp only [longest?]
    by_cases hrest : t ∈ rest
    · rw [ih hrest hlonger.2]
      dsimp only
      by_cases hu : u = t
      · rw [hu, if_neg (Nat.lt_irrefl _)]
      · rw [if_neg (Nat.lt_asymm (hlonger.1 hu))]
    · obtain rfl : t = u := (List.mem_cons.mp hmem).resolve_right hrest
      split
      · rename_i v m hv
        obtain ⟨hvmem, rfl⟩ := longest?_spec hv
        rw [if_pos (hlonger.2 v hvmem fun h => hrest (h ▸ hvmem))]
      · rw [if_neg hpos]

/-- What stands at the front of a word and more, but lacks the next character, stands at the front of the
word. -/
theorem prefix_of_prefix_append {xs ys rest : List Char} {c : Char} (hc : c ∉ xs)
    (h : xs <+: ys ++ c :: rest) : xs <+: ys := by
  obtain hle | ⟨zs, rfl⟩ := List.prefix_or_prefix_of_prefix h (List.prefix_append ys _)
  · exact hle
  · rw [List.prefix_append_right_inj] at h
    cases zs with
    | nil => simp
    | cons z zs =>
      obtain ⟨rfl, -⟩ := List.cons_prefix_cons.mp h
      simp at hc

theorem blank_not_mem_of_spelling {t : Terminal} {s : String} (h : t.spelling? = some s) :
    ' ' ∉ s.toList := by
  obtain hname | ⟨-, hmarks⟩ := spelling_cases h
  · exact hname.not_mem (by decide +kernel) rfl
  · exact fun hmem => absurd (List.all_eq_true.mp hmarks _ hmem) (by decide)

theorem spellingLength_append {t : Terminal} {s : String} (h : t.spelling? = some s)
    (rest : List Char) : spellingLength (s.toList ++ rest) t = s.toList.length := by
  rw [spellingLength, h]
  simp [List.isPrefixOf_iff_prefix, String.length_toList]

theorem nameLength_append {text : List Char} (h : IsNameText text) {d : Char}
    (hd : isNamePart d = false) (rest : List Char) : nameLength (text ++ d :: rest) = text.length := by
  obtain ⟨c, tail, rfl, hc, htail⟩ := h
  rw [List.cons_append, nameLength, if_pos hc, List.takeWhile_append_of_pos htail,
    List.takeWhile_cons_of_neg (by simp [hd]), List.append_nil, List.length_cons, Nat.add_comm]

/-- A word ends where the rest begins: neither a name nor a spelling reaches into it. -/
structure Ends (word rest : List Char) : Prop where
  name : IsNameText word → nameLength (word ++ rest) = word.length
  spelling : ∀ {u : Terminal} {s : String}, u.spelling? = some s → s.toList <+: word ++ rest →
    s.toList <+: word

theorem ends_blank (word rest : List Char) : Ends word (' ' :: rest) where
  name h := nameLength_append h (by decide +kernel) rest
  spelling hu hprefix := prefix_of_prefix_append (blank_not_mem_of_spelling hu) hprefix

/-- A spelling that ends is longer than all others that are there. -/
theorem spellingLength_lt {t u : Terminal} {s : String} {rest : List Char} (h : t.spelling? = some s)
    (hends : Ends s.toList rest) (hne : u ≠ t) :
    spellingLength (s.toList ++ rest) u < spellingLength (s.toList ++ rest) t := by
  have hpos : 0 < s.toList.length := by
    rw [List.length_pos_iff]
    obtain ⟨c, _, htext, -⟩ | ⟨hne, -⟩ := spelling_cases h
    · exact htext ▸ List.cons_ne_nil c _
    · exact hne
  rw [spellingLength_append h, spellingLength]
  split
  · rename_i s' hu
    split
    · rename_i hprefix
      have hle := hends.spelling hu (List.isPrefixOf_iff_prefix.mp hprefix)
      refine Nat.lt_of_le_of_ne hle.length_le fun hlength => hne ?_
      obtain rfl : s' = s := String.toList_injective (hle.eq_of_length hlength)
      exact Terminal.eq_of_spelling?_eq hu h
    · exact hpos
  · exact hpos

theorem wordTerminal_spelling {accepted : List Terminal} {t : Terminal} {s : String}
    (hmem : t ∈ accepted) (h : t.spelling? = some s) : wordTerminal accepted s.toList = t := by
  rw [wordTerminal, String.ofList_toList]
  cases hfind : accepted.find? fun t => t.spelling? = some s with
  | none => simpa [h] using List.find?_eq_none.mp hfind t hmem
  | some u =>
    have hu : u.spelling? = some s := by simpa using List.find?_some hfind
    exact Terminal.eq_of_spelling?_eq hu h

theorem wordTerminal_name {accepted : List Terminal} {x : String}
    (h : ∀ t ∈ accepted, t.spelling? ≠ some x) : wordTerminal accepted x.toList = .name := by
  rw [wordTerminal, String.ofList_toList, List.find?_eq_none.mpr]
  · rfl
  · exact fun t ht => by simpa using h t ht

theorem lexeme?_spelling {accepted : List Terminal} {t : Terminal} {s : String} {rest : List Char}
    (hmem : t ∈ accepted) (h : t.spelling? = some s) (hends : Ends s.toList rest) :
    lexeme? accepted (s.toList ++ rest) = some (t, s.toList.length) := by
  have hlength := spellingLength_append h rest
  have hlongest : s.toList ≠ [] →
      longest? (s.toList ++ rest) accepted = some (t, s.toList.length) := fun hne =>
    hlength ▸ longest?_eq hmem (fun _ _ hu => spellingLength_lt h hends hu)
      (by simpa [hlength] using hne)
  unfold lexeme?
  obtain hname | ⟨hne, hmarks⟩ := spelling_cases h
  · obtain ⟨c, tail, htext, hc, -⟩ := id hname
    obtain ⟨hstring, hnumber⟩ :=
      lengths_of_isPlainStart (isPlainStart_of_isNameStart hc) (tail ++ rest)
    rw [← List.cons_append, ← htext] at hstring hnumber
    rw [if_neg (fun h => h.2 hstring), if_neg (fun h => h.2 hnumber), hends.name hname]
    split
    · rw [List.take_left, wordTerminal_spelling hmem h]
    · exact hlongest (htext ▸ List.cons_ne_nil c tail)
  · obtain ⟨c, tail, htext⟩ := List.exists_cons_of_ne_nil hne
    have hc : isMark c = true := List.all_eq_true.mp hmarks c (htext ▸ List.mem_cons_self)
    obtain ⟨hstring, hnumber⟩ :=
      lengths_of_isPlainStart (isPlainStart_of_isMark hc) (tail ++ rest)
    rw [← List.cons_append, ← htext] at hstring hnumber
    have hname : nameLength (s.toList ++ rest) = 0 := by
      rw [htext, List.cons_append, nameLength, isNameStart_of_isMark hc]
      rfl
    rw [if_neg (fun h => h.2 hstring), if_neg (fun h => h.2 hnumber), if_neg (fun h => h.2 hname)]
    exact hlongest hne

/-- A word is a name where no keyword that is accepted beside names is spelled like it. -/
theorem lexeme?_name {accepted : List Terminal} {x : String} {rest : List Char}
    (hmem : .name ∈ accepted) (hname : IsNameText x.toList) (hword : ∀ t ∈ accepted, t.spelling? ≠ some x)
    (hends : nameLength (x.toList ++ rest) = x.toList.length) :
    lexeme? accepted (x.toList ++ rest) = some (.name, x.toList.length) := by
  obtain ⟨c, tail, htext, hc, -⟩ := hname
  obtain ⟨hstring, hnumber⟩ :=
    lengths_of_isPlainStart (isPlainStart_of_isNameStart hc) (tail ++ rest)
  rw [← List.cons_append, ← htext] at hstring hnumber
  have hne : x.toList.length ≠ 0 := by simp [htext]
  rw [lexeme?, if_neg (fun h => h.2 hstring), if_neg (fun h => h.2 hnumber), hends,
    if_pos ⟨hmem, hne⟩, List.take_left, wordTerminal_name hword]

theorem lexeme?_string {accepted : List Terminal} (hmem : .string ∈ accepted) (s : String)
    (rest : List Char) : lexeme? accepted ((Ground.stringText s).toList ++ rest) =
      some (.string, (Ground.stringText s).toList.length) := by
  rw [lexeme?, stringLength_stringText_append, if_pos]
  exact ⟨hmem, by simp [Ground.stringText]⟩

/-- The digits of a number. -/
theorem digitsText_natCast (n : Nat) : (Ground.digitsText n).toList = Nat.toDigits 10 n := by
  have hnot : ¬ (n : Int) < 0 := by omega
  rw [Ground.digitsText, if_neg hnot]
  simp

theorem numberLength_digits {digits : List Char} (hne : digits ≠ [])
    (h : ∀ c ∈ digits, isDecimalDigit c = true) (rest : List Char) :
    numberLength (digits ++ ' ' :: rest) = digits.length := by
  have hdigits : digitsLength (digits ++ ' ' :: rest) = digits.length := by
    rw [digitsLength, List.takeWhile_append_of_pos h, List.takeWhile_cons_of_neg (by decide),
      List.append_nil]
  have hpos : digits.length ≠ 0 := by simpa using hne
  simp only [numberLength, hdigits, if_neg hpos, List.drop_left]
  rw [fractionLength, Nat.add_zero, List.drop_left]
  · rfl
  · nofun

theorem lexeme?_number {accepted : List Terminal} (hmem : .number ∈ accepted) (n : Nat)
    (rest : List Char) : lexeme? accepted ((Ground.digitsText n).toList ++ ' ' :: rest) =
      some (.number, (Ground.digitsText n).toList.length) := by
  rw [digitsText_natCast]
  have hne : Nat.toDigits 10 n ≠ [] := Nat.toDigits_ne_nil
  have hdigit : ∀ c ∈ Nat.toDigits 10 n, c.isDigit = true := fun c hc =>
    Nat.isDigit_of_mem_toDigits (by decide) (by decide) hc
  have hnumber := numberLength_digits hne
    (fun c hc => by simp [isDecimalDigit, digitValue?, hdigit c hc]) rest
  obtain ⟨c, tail, htext⟩ := List.exists_cons_of_ne_nil hne
  have hstring : stringLength (Nat.toDigits 10 n ++ ' ' :: rest) = 0 := by
    have hne := ne_of_isDigit (hdigit c (htext ▸ List.mem_cons_self))
    simp [htext, stringLength, hne '"' rfl, hne '\x27' rfl]
  rw [lexeme?, if_neg (fun h => h.2 hstring), hnumber, if_pos ⟨hmem, by simp⟩]

/-- **A word is found where it is accepted**, if a blank is after it. -/
theorem lexeme?_word {w : Word} (h : w.IsSpelled) {accepted : List Terminal}
    (hmem : w.terminal ∈ accepted) (rest : List Char) :
    lexeme? accepted (w.text.toList ++ ' ' :: rest) = some (w.terminal, w.text.toList.length) := by
  cases h with
  | spelling h => exact lexeme?_spelling hmem h (ends_blank _ rest)
  | name h => exact lexeme?_name hmem h.1 (fun t _ => h.2 t) ((ends_blank _ rest).name h.1)
  | string s => exact lexeme?_string hmem s _
  | @number n => exact lexeme?_number hmem n rest

/-! ### Texts of words -/

/-- The text of words, each with a blank after it. -/
def textOf (ws : List Word) : List Char := ws.flatMap fun w => w.text.toList ++ [' ']

theorem textOf_cons (w : Word) (ws : List Word) :
    textOf (w :: ws) = w.text.toList ++ ' ' :: textOf ws := by
  simp [textOf]

/-- A word is not empty, and begins no layout. -/
def Word.IsSolid (w : Word) : Prop := ∃ c tail, w.text.toList = c :: tail ∧ isSolid c = true

theorem IsNameText.exists_isSolid {x : List Char} (h : IsNameText x) :
    ∃ c tail, x = c :: tail ∧ isSolid c = true := by
  obtain ⟨c, tail, htext, hc, -⟩ := h
  exact ⟨c, tail, htext, isSolid_of_isPlainStart (isPlainStart_of_isNameStart hc)⟩

theorem Word.IsSpelled.isSolid {w : Word} (h : w.IsSpelled) : w.IsSolid := by
  cases h with
  | spelling h =>
    obtain hname | ⟨hne, hmarks⟩ := spelling_cases h
    · exact hname.exists_isSolid
    · obtain ⟨c, tail, htext⟩ := List.exists_cons_of_ne_nil hne
      have hc : isMark c = true := List.all_eq_true.mp hmarks c (htext ▸ List.mem_cons_self)
      exact ⟨c, tail, htext, isSolid_of_isPlainStart (isPlainStart_of_isMark hc)⟩
  | name h => exact h.1.exists_isSolid
  | string s => exact ⟨'"', _, String.toList_ofList, rfl⟩
  | @number n =>
    obtain ⟨c, tail, htext⟩ := List.exists_cons_of_ne_nil (Nat.toDigits_ne_nil (b := 10) (n := n))
    refine ⟨c, tail, (digitsText_natCast n).trans htext, isSolid_of_isDigit ?_⟩
    exact Nat.isDigit_of_mem_toDigits (by decide) (by decide) (htext ▸ List.mem_cons_self)

/-- There is no layout before the first of some words. -/
theorem skipLayout_textOf {ws : List Word} (h : ∀ w ∈ ws, w.IsSolid) (p : Position) :
    (Cursor.mk (textOf ws) p).skipLayout = ⟨textOf ws, p⟩ := by
  have hlayout : layoutLength (textOf ws) = 0 := by
    cases ws with
    | nil => rfl
    | cons w ws =>
      obtain ⟨c, tail, htext, hc⟩ := h w List.mem_cons_self
      rw [textOf_cons, htext, List.cons_append, layoutLength_of_isSolid hc]
  rw [Cursor.skipLayout, dif_pos hlayout]

/-- The blank before a word is skipped. -/
theorem skipLayout_blank {ws : List Word} (h : ∀ w ∈ ws, w.IsSolid) (p : Position) :
    (Cursor.mk (' ' :: textOf ws) p).skipLayout = ⟨textOf ws, p.after ' '⟩ := by
  rw [Cursor.skipLayout, dif_neg nofun]
  exact skipLayout_textOf h (p.after ' ')

/-- The position after a word that begins at a position. -/
def Word.stop (w : Word) (p : Position) : Position := w.text.toList.foldl Position.after p

/-- The token of a word that begins at a position. -/
def Word.token (w : Word) (p : Position) : Token := ⟨w.terminal, w.text, p, w.stop p⟩

/-- A word that is found after layout is read. -/
theorem read_of_lexeme? {w : Word} {rest : List Char} {place : Place} {cursor : Cursor} {p : Position}
    (hcursor : cursor.skipLayout = ⟨w.text.toList ++ rest, p⟩)
    (h : lexeme? place.accepts (w.text.toList ++ rest) = some (w.terminal, w.text.toList.length)) :
    read place cursor = .ok (some (w.token p), ⟨rest, w.stop p⟩) := by
  have hne : (w.text.toList ++ rest).isEmpty = false := by
    cases htext : w.text.toList with
    | nil =>
      rw [htext] at h
      exact absurd rfl (lexeme?_pos h)
    | cons c tail => rfl
  unfold read
  simp only [hcursor, hne, Bool.false_eq_true, if_false, h]
  simp only [Cursor.advance, List.take_left, List.drop_left, String.ofList_toList]
  rfl

/-- The tokens of words in a text that begins at a position. -/
def spread (p : Position) : List Word → List Token
  | [] => []
  | w :: ws => w.token p :: spread ((w.stop p).after ' ') ws

theorem map_word_spread (p : Position) (ws : List Word) : (spread p ws).map Token.word = ws := by
  induction ws generalizing p with
  | nil => rfl
  | cons w ws ih => rw [spread, List.map_cons, ih, Word.token, Token.word]

/-- Each token with the place where it is read, the first at the given one. -/
def readAt (place : Place) : List (Token × Place) → List (Place × Token)
  | [] => []
  | (token, next) :: rest => (place, token) :: readAt next rest

theorem map_readAt (place : Place) (ls : List (Token × Place)) :
    (readAt place ls).map (·.2) = ls.map (·.1) := by
  induction ls generalizing place with
  | nil => rfl
  | cons l rest ih => rw [readAt, List.map_cons, List.map_cons, ih]

/-- Linked tokens are read where they are accepted, if the first is. -/
theorem Linked.accepts_of_mem_readAt {ls : List (Token × Place)} (h : Linked ls) {place : Place}
    (haccepts : ∀ t ∈ nextOf ls, t ∈ place.accepts) :
    ∀ x ∈ readAt place ls, x.2.terminal ∈ x.1.accepts := by
  induction ls generalizing place with
  | nil => exact List.forall_mem_nil _
  | cons l rest ih => exact List.forall_mem_cons.mpr ⟨haccepts _ rfl, ih h.2 h.1⟩

/-- Tokens are scanned from the text of their words, if every word is found where its token is read. -/
theorem exists_scans_of_found {ws : List Word} {p : Position} {ls : List (Token × Place)} {place : Place}
    {c : Cursor} (hsolid : ∀ w ∈ ws, w.IsSolid) (hls : ls.map (·.1) = spread p ws)
    (hfound : ∀ x ∈ readAt place ls, ∀ rest, lexeme? x.1.accepts (x.2.text.toList ++ ' ' :: rest) =
      some (x.2.terminal, x.2.text.toList.length)) (hc : c.skipLayout = ⟨textOf ws, p⟩) :
    ∃ ahead cursor, read place c = .ok (ahead, cursor) ∧ Scans ls ahead cursor := by
  induction ws generalizing p ls place c with
  | nil =>
    obtain rfl := List.map_eq_nil_iff.mp hls
    refine ⟨none, c.skipLayout, ?_, .done⟩
    unfold read
    simp only [hc]
    rfl
  | cons w ws ih =>
    obtain ⟨⟨token, next⟩, rest, rfl, rfl, hrest⟩ := List.map_eq_cons_iff.mp hls
    obtain ⟨hw, hmore⟩ := List.forall_mem_cons.mp hfound
    obtain ⟨-, hsolid⟩ := List.forall_mem_cons.mp hsolid
    obtain ⟨ahead, cursor, hread, hscans⟩ := ih hsolid hrest hmore (skipLayout_blank hsolid _)
    rw [textOf_cons] at hc
    exact ⟨_, _, read_of_lexeme? hc (hw (textOf ws)), .next hread hscans⟩

/-- Linked tokens are scanned from the text of their words, if the first is accepted. -/
theorem exists_scans_of_linked {ws : List Word} {p : Position} {ls : List (Token × Place)} {place : Place}
    {c : Cursor} (hws : ∀ w ∈ ws, w.IsSpelled) (hls : ls.map (·.1) = spread p ws) (hlinked : Linked ls)
    (haccepts : ∀ t ∈ nextOf ls, t ∈ place.accepts) (hc : c.skipLayout = ⟨textOf ws, p⟩) :
    ∃ ahead cursor, read place c = .ok (ahead, cursor) ∧ Scans ls ahead cursor := by
  refine exists_scans_of_found (fun w hw => (hws w hw).isSolid) hls (fun x hx rest => ?_) hc
  have hmem : x.2 ∈ spread p ws := by
    rw [← hls, ← map_readAt place ls]
    exact List.mem_map_of_mem hx
  have hword : x.2.word ∈ ws := by
    rw [← map_word_spread p ws]
    exact List.mem_map_of_mem hmem
  exact lexeme?_word (hws _ hword) (hlinked.accepts_of_mem_readAt haccepts x hx) rest

/-- **A derivation is found in the text of its words**, with the positions that they have there. -/
theorem parseProgram_textOf {ws : List Word} (hws : ∀ w ∈ ws, w.IsSpelled) {tree : Tree (.sub .program)}
    (htokens : tree.tokens = spread ⟨1, 0⟩ ws) :
    parseProgram (String.ofList (textOf ws)) = .ok tree := by
  refine parseProgram_eq_ok_iff.mpr ?_
  refine exists_scans_of_linked hws (tree.map_leaves.trans htokens) tree.linked_program
    tree.starts_program ?_
  rw [Cursor.start, String.toList_ofList]
  exact skipLayout_textOf (fun w hw => (hws w hw).isSolid) _

end RhoScript.Source
