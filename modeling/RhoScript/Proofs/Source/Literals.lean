import RhoScript.Proofs.Number.Scripts
import RhoScript.Proofs.Source.Escapes
import RhoScript.Proofs.Source.Faithful
import RhoScript.Proofs.Source.Interruption
import RhoScript.Proofs.Source.Shape

/-!
# The literals of a source

The tree of a source is built from its derivation, and that can fail only at a literal. A string token has
a quote at either end, and a number token is a numeral in the digits of any script (`Token.IsRead.numeral`);
so a string has no value only if an escape in it is faulty, and a number only if it is an integer of too many
digits (`Token.IsRead.value_cases`). No production fails, and each asks for the values of all its tokens
(`Tree.exists_value_iff`).

Main statement: `readProgram_of_parseProgram`.
-/

namespace RhoScript.Source

open Text Node Number Number.Numeral

/-! ### The texts of numbers -/

theorem take_digitsLength (text : List Char) :
    text.take (digitsLength text) = text.takeWhile isDecimalDigit :=
  (List.prefix_iff_eq_take.mp (List.takeWhile_prefix isDecimalDigit)).symm

theorem isDigits_take {text : List Char} (h : digitsLength text ≠ 0) :
    IsDigits (text.take (digitsLength text)) := by
  rw [take_digitsLength]
  refine ⟨fun hnil => h ?_, List.all_eq_true.mp List.all_takeWhile⟩
  rw [digitsLength, hnil]
  rfl

theorem exists_fraction (text : List Char) : ∃ part, Fraction (text.take (fractionLength text)) part := by
  unfold fractionLength
  split
  · rename_i rest
    by_cases hzero : digitsLength rest = 0
    · rw [if_pos hzero]
      exact ⟨[], .absent⟩
    · rw [if_neg hzero, Nat.add_comm, List.take_succ_cons]
      exact ⟨_, .point (isDigits_take hzero)⟩
  · exact ⟨[], .absent⟩

theorem signLength_cases (text : List Char) :
    (∃ c rest, (c = '+' ∨ c = '-') ∧ text = c :: rest ∧ signLength text = 1) ∨ signLength text = 0 := by
  unfold signLength
  split
  · exact .inl ⟨_, _, .inl rfl, rfl, rfl⟩
  · exact .inl ⟨_, _, .inr rfl, rfl, rfl⟩
  · exact .inr rfl

theorem exists_exponent (text : List Char) : ∃ e, Exponent (text.take (exponentLength text)) e := by
  cases text with
  | nil => exact ⟨0, .absent⟩
  | cons mark rest =>
    by_cases hmark : (mark = 'e' || mark = 'E') = true
    swap
    · rw [exponentLength, if_neg hmark]
      exact ⟨0, .absent⟩
    by_cases hzero : digitsLength (rest.drop (signLength rest)) = 0
    · rw [exponentLength, if_pos hmark, if_pos hzero]
      exact ⟨0, .absent⟩
    rw [exponentLength, if_pos hmark, if_neg hzero, Nat.add_assoc, Nat.add_comm 1, List.take_succ_cons]
    have hdigits := isDigits_take hzero
    rw [Bool.or_eq_true, decide_eq_true_eq, decide_eq_true_eq] at hmark
    obtain ⟨c, tail, hc, rfl, hsign⟩ | hsign := signLength_cases rest
    · rw [hsign] at hdigits ⊢
      rw [Nat.add_comm 1, List.take_succ_cons]
      rcases hc with rfl | rfl
      · exact ⟨_, .plus hmark hdigits⟩
      · exact ⟨_, .minus hmark hdigits⟩
    · rw [hsign, List.drop_zero] at hdigits ⊢
      rw [Nat.zero_add]
      exact ⟨_, .bare hmark hdigits⟩

/-- What is read as a number is a numeral. -/
theorem numeral_take {text : List Char} (h : numberLength text ≠ 0) :
    ∃ whole point part power e, text.take (numberLength text) = whole ++ (point ++ power) ∧
      IsDigits whole ∧ Fraction point part ∧ Exponent power e := by
  unfold numberLength at h ⊢
  dsimp only at h ⊢
  by_cases hzero : digitsLength text = 0
  · rw [if_pos hzero] at h
    exact absurd rfl h
  obtain ⟨part, hpoint⟩ := exists_fraction (text.drop (digitsLength text))
  obtain ⟨e, hpower⟩ := exists_exponent
    (text.drop (digitsLength text + fractionLength (text.drop (digitsLength text))))
  refine ⟨_, _, part, _, e, ?_, isDigits_take hzero, hpoint, hpower⟩
  rw [if_neg hzero, List.take_add, List.take_add, List.append_assoc]

/-! ### The texts of strings -/

/-- What is read as a string stands between quotes. -/
theorem quoted_take {text : List Char} (h : stringLength text ≠ 0) :
    ∃ quote body, text.take (stringLength text) = quote :: (body ++ [quote]) := by
  cases text with
  | nil => exact absurd rfl h
  | cons c rest =>
    rw [stringLength] at h ⊢
    by_cases hquote : (c = '"' || c = '\x27') = true
    · rw [if_pos hquote] at h ⊢
      cases hclosing : closingLength? c rest with
      | none =>
        rw [hclosing] at h
        exact absurd rfl h
      | some n =>
        obtain ⟨body, hbody⟩ := take_of_closingLength? hclosing
        refine ⟨c, body, ?_⟩
        dsimp only
        rw [Nat.add_comm, List.take_succ_cons, hbody]
    · rw [if_neg hquote] at h
      exact absurd rfl h

/-! ### Tokens of literals -/

theorem wordTerminal_cases (accepted : List Terminal) (word : List Char) :
    wordTerminal accepted word = .name ∨ (wordTerminal accepted word).spelling? ≠ none := by
  unfold wordTerminal
  cases hfind : accepted.find? fun t => t.spelling? = some (String.ofList word) with
  | none => exact .inl rfl
  | some t =>
    have hword : t.spelling? = some (String.ofList word) := by simpa using List.find?_some hfind
    rw [Option.getD_some, hword]
    exact .inr (Option.some_ne_none _)

/-- A lexeme of a terminal without a spelling is a string, a number or a name. -/
theorem lexeme?_cases {accepted : List Terminal} {text : List Char} {t : Terminal} {n : Nat}
    (h : lexeme? accepted text = some (t, n)) (ht : t.spelling? = none) :
    t = .string ∧ stringLength text ≠ 0 ∧ n = stringLength text ∨
      t = .number ∧ numberLength text ≠ 0 ∧ n = numberLength text ∨ t = .name := by
  unfold lexeme? at h
  split at h
  · rename_i hstring
    cases h
    exact .inl ⟨rfl, hstring.2, rfl⟩
  split at h
  · rename_i hnumber
    cases h
    exact .inr (.inl ⟨rfl, hnumber.2, rfl⟩)
  split at h
  · cases h
    exact .inr (.inr ((wordTerminal_cases _ _).resolve_right (not_not.mpr ht)))
  · exact absurd ht (spelling?_of_longest? h)

variable {t : Token}

/-- The text of a number is a numeral. -/
theorem Token.IsRead.numeral (h : t.IsRead) (ht : t.terminal = .number) :
    ∃ whole point part power e, t.text.toList = whole ++ (point ++ power) ∧
      IsDigits whole ∧ Fraction point part ∧ Exponent power e := by
  obtain ⟨place, c, c', hread⟩ := h
  obtain ⟨n, -, hlexeme, htext, -⟩ := read_eq_ok_some hread
  rw [htext, String.toList_ofList]
  rw [ht] at hlexeme
  obtain ⟨hstring, -⟩ | ⟨-, hne, rfl⟩ | hname := lexeme?_cases hlexeme rfl
  · cases hstring
  · exact numeral_take hne
  · cases hname

/-- The text of a string stands between quotes. -/
theorem Token.IsRead.quoted (h : t.IsRead) (ht : t.terminal = .string) :
    ∃ quote body, t.text.toList = quote :: (body ++ [quote]) := by
  obtain ⟨place, c, c', hread⟩ := h
  obtain ⟨n, -, hlexeme, htext, -⟩ := read_eq_ok_some hread
  rw [htext, String.toList_ofList]
  rw [ht] at hlexeme
  obtain ⟨-, hne, rfl⟩ | ⟨hnumber, -⟩ | hname := lexeme?_cases hlexeme rfl
  · exact quoted_take hne
  · cases hnumber
  · cases hname

/-! ### Values of tokens -/

/-- The token is a literal that denotes nothing: a string in which an escape is faulty, or an integer of more
than 4300 digits. -/
def Token.IsUndecodable (t : Token) : Prop :=
  t.terminal = .string ∧ (∃ quote body units rest e, t.text.toList = quote :: (body ++ [quote]) ∧
    Splits body units rest ∧ Fault rest e) ∨
  t.terminal = .number ∧ '.' ∉ t.text.toList ∧ 'e' ∉ t.text.toList ∧ 'E' ∉ t.text.toList ∧
    4300 < t.text.toList.countP isDecimalDigit

/-- What the literal of a number or a string denotes. -/
inductive Token.Denotes (t : Token) : Ground → Prop
  | number {v : Ground} : t.terminal = .number → Numeral.Denotes t.text.toList v → t.Denotes v
  | string {s : WideString} {points : List Nat} : t.terminal = .string →
      decodeString t.text = .ok points → s.map CodePoint.toNat = points → t.Denotes (.string s)

theorem Fault.ne {text : List Char} {e : EscapeError} (h : Fault text e) : text ≠ [] ∧ text ≠ ['\\'] := by
  cases h <;> simp

/-- A string is decoded unless an escape is faulty. -/
theorem decodeString_cases (quote : Char) (body : List Char) :
    (∃ units rest e, Splits body units rest ∧ Fault rest e ∧
        decodeString (String.ofList (quote :: (body ++ [quote]))) = .error e) ∨
      (∀ units rest e, Splits body units rest → ¬ Fault rest e) ∧
        ∃ points, decodeString (String.ofList (quote :: (body ++ [quote]))) = .ok points ∧
          ∀ n ∈ points, n ≤ 0x10ffff := by
  obtain ⟨units, rest, hsplits⟩ := exists_splits body
  have hbody : ((String.ofList (quote :: (body ++ [quote]))).toList.drop 1).dropLast = body := by simp
  rw [decodeString, hbody, codePoints_of_splits hsplits]
  have hunits : ∀ n ∈ units.flatMap Prod.snd, n ≤ 0x10ffff := by
    intro n hn
    obtain ⟨u, hu, hn⟩ := List.mem_flatMap.mp hn
    exact (hsplits.units u hu).le n hn
  have hok : ∀ points, codePoints rest = .ok points → (∀ n ∈ points, n ≤ 0x10ffff) →
      (∀ e, ¬ Fault rest e) → (∀ units rest e, Splits body units rest → ¬ Fault rest e) ∧
        ∃ joined, (joinPairs <$> (units.flatMap Prod.snd ++ ·) <$> codePoints rest) = .ok joined ∧
          ∀ n ∈ joined, n ≤ 0x10ffff := by
    intro points hpoints hle hfault
    refine ⟨fun units' rest' e hsplits' => ?_, _, by rw [hpoints]; rfl,
      (joins_joinPairs (List.forall_mem_append.mpr ⟨hunits, hle⟩)).le⟩
    rw [(hsplits'.unique hsplits).2]
    exact hfault e
  cases hsplits.stops with
  | nil => exact .inr (hok [] (by rw [codePoints]) (by simp) fun e h => h.ne.1 rfl)
  | backslash => exact .inr (hok ['\\'.toNat] (by rw [codePoints]) (by simp) fun e h => h.ne.2 rfl)
  | @fault _ e hfault =>
    refine .inl ⟨units, rest, e, hsplits, hfault, ?_⟩
    rw [codePoints_of_fault hfault]
    rfl

/-- A string consists of the code points that it was made of. -/
theorem map_toNat_stringOf {points : List Nat} (h : ∀ n ∈ points, n ≤ 0x10ffff) :
    (stringOf points).map CodePoint.toNat = points := by
  rw [stringOf, List.map_map]
  exact (List.map_congr_left fun n hn => CodePoint.toNat_ofNat (h n hn)).trans (List.map_id points)

/-- The marks of points and exponents are absent exactly if there is neither. -/
theorem marks_not_mem_iff {whole point part power : List Char} {e : Int} (hwhole : IsDigits whole)
    (hpoint : Fraction point part) (hpower : Exponent power e) :
    '.' ∉ whole ++ (point ++ power) ∧ 'e' ∉ whole ++ (point ++ power) ∧ 'E' ∉ whole ++ (point ++ power) ↔
      point ++ power = [] := by
  rw [← not_iff_not, ← ne_eq (point ++ power), ← any_isMark_iff hwhole hpoint hpower]
  generalize whole ++ (point ++ power) = text
  simp only [List.any_eq_true, Bool.or_eq_true, decide_eq_true_eq, not_and_or, not_not]
  constructor
  · rintro (h | h | h)
    · exact ⟨_, h, .inl (.inl rfl)⟩
    · exact ⟨_, h, .inl (.inr rfl)⟩
    · exact ⟨_, h, .inr rfl⟩
  · rintro ⟨c, hc, (rfl | rfl) | rfl⟩
    · exact .inl hc
    · exact .inr (.inl hc)
    · exact .inr (.inr hc)

theorem Token.IsRead.number_value_cases (h : t.IsRead) (ht : t.terminal = .number) :
    t.IsUndecodable ∧ (∃ e, t.value = .error e) ∨
      ¬ t.IsUndecodable ∧ ∃ v, t.value = .ok (some v) ∧ t.Denotes v := by
  obtain ⟨whole, point, part, power, e, htext, hwhole, hpoint, hpower⟩ := h.numeral ht
  have hmarks := marks_not_mem_iff hwhole hpoint hpower
  have hcount : whole.countP isDecimalDigit = whole.length := List.countP_eq_length.mpr hwhole.2
  rw [← htext] at hmarks
  obtain ⟨hrest, hlong, herror⟩ | ⟨hnot, v, hread, hdenotes⟩ := read_numeral hwhole hpoint hpower htext
  · obtain ⟨hdot, hlower, hupper⟩ := hmarks.mpr hrest
    refine .inl ⟨.inr ⟨ht, hdot, hlower, hupper, ?_⟩, ?_⟩
    · rw [htext, hrest, List.append_nil, hcount]
      exact hlong
    · rw [Token.value, ht, herror]
      exact ⟨_, rfl⟩
  · refine .inr ⟨?_, v, ?_, .number ht hdenotes⟩
    · rintro (⟨hstring, -⟩ | ⟨-, hdot, hlower, hupper, hlong⟩)
      · rw [ht] at hstring
        cases hstring
      · have hrest := hmarks.mp ⟨hdot, hlower, hupper⟩
        rw [htext, hrest, List.append_nil, hcount] at hlong
        exact hnot ⟨hrest, hlong⟩
    · rw [Token.value, ht, hread]

theorem Token.IsRead.string_value_cases (h : t.IsRead) (ht : t.terminal = .string) :
    t.IsUndecodable ∧ (∃ e, t.value = .error e) ∨
      ¬ t.IsUndecodable ∧ ∃ v, t.value = .ok (some v) ∧ t.Denotes v := by
  obtain ⟨quote, body, htext⟩ := h.quoted ht
  have hofList : t.text = String.ofList (quote :: (body ++ [quote])) := by
    rw [← htext, String.ofList_toList]
  obtain ⟨units, rest, e, hsplits, hfault, herror⟩ | ⟨hnone, points, hok, hle⟩ :=
    decodeString_cases quote body
  · rw [← hofList] at herror
    refine .inl ⟨.inl ⟨ht, quote, body, units, rest, e, htext, hsplits, hfault⟩, ?_⟩
    rw [Token.value, ht, herror]
    exact ⟨_, rfl⟩
  · rw [← hofList] at hok
    refine .inr ⟨?_, .string (stringOf points), ?_, .string ht hok (map_toNat_stringOf hle)⟩
    · rintro (⟨-, quote', body', units, rest, e, htext', hsplits, hfault⟩ | ⟨hnumber, -⟩)
      · obtain ⟨rfl, hbody⟩ := List.cons.inj (htext.symm.trans htext')
        rw [List.append_cancel_right hbody] at hnone
        exact hnone units rest e hsplits hfault
      · rw [ht] at hnumber
        cases hnumber
    · rw [Token.value, ht, hok]

theorem Token.exists_value_of_ne (hstring : t.terminal ≠ .string) (hnumber : t.terminal ≠ .number) :
    ∃ value, t.value = .ok value := by
  unfold Token.value
  split
  · exact absurd ‹_› hstring
  · exact absurd ‹_› hnumber
  all_goals exact ⟨_, rfl⟩

/-- **Literals have values**, unless they cannot be decoded. -/
theorem Token.IsRead.exists_value_iff (h : t.IsRead) :
    (∃ value, t.value = .ok value) ↔ ¬ t.IsUndecodable := by
  by_cases hnumber : t.terminal = .number
  · obtain ⟨hundecodable, e, he⟩ | ⟨hdecodable, v, hv, -⟩ := h.number_value_cases hnumber
    · simp [he, hundecodable]
    · simp [hv, hdecodable]
  by_cases hstring : t.terminal = .string
  · obtain ⟨hundecodable, e, he⟩ | ⟨hdecodable, v, hv, -⟩ := h.string_value_cases hstring
    · simp [he, hundecodable]
    · simp [hv, hdecodable]
  · refine iff_of_true (Token.exists_value_of_ne hstring hnumber) ?_
    rintro (⟨ht, -⟩ | ⟨ht, -⟩)
    · exact hstring ht
    · exact hnumber ht

/-- The values of numbers and strings are what they denote. -/
theorem Token.IsRead.denotes (h : t.IsRead) (ht : t.terminal = .number ∨ t.terminal = .string)
    {value : Option Ground} (hvalue : t.value = .ok value) :
    ∃ v, value = some v ∧ t.Denotes v := by
  have hsome : ∀ {v : Ground}, t.value = .ok (some v) → t.Denotes v → ∃ v, value = some v ∧ t.Denotes v := by
    intro v hv hdenotes
    rw [hvalue] at hv
    exact ⟨v, Except.ok.inj hv, hdenotes⟩
  rcases ht with hnumber | hstring
  · obtain ⟨-, e, he⟩ | ⟨-, v, hv, hdenotes⟩ := h.number_value_cases hnumber
    · rw [hvalue] at he
      cases he
    · exact hsome hv hdenotes
  · obtain ⟨-, e, he⟩ | ⟨-, v, hv, hdenotes⟩ := h.string_value_cases hstring
    · rw [hvalue] at he
      cases he
    · exact hsome hv hdenotes

/-! ### Building the tree -/

mutual

/-- A derivation has a value exactly if all its tokens have. -/
theorem Tree.exists_value_iff {s : Symbol} (tree : Tree s) :
    (∃ v, tree.value = .ok v) ↔ ∀ t ∈ tree.tokens, ∃ value, t.value = .ok value := by
  cases tree with
  | leaf token belongs => simp [Tree.tokens, Tree.value_leaf_eq_ok_iff]
  | node p children =>
    rw [Tree.tokens, ← children.exists_values_iff]
    simp [Tree.value_node_eq_ok_iff]
termination_by structural tree

theorem Forest.exists_values_iff {ss : List Symbol} (forest : Forest ss) :
    (∃ vs, forest.values = .ok vs) ↔ ∀ t ∈ forest.tokens, ∃ value, t.value = .ok value := by
  cases forest with
  | nil => simp [Forest.tokens, Forest.values]
  | cons tree more =>
    rw [Forest.tokens, List.forall_mem_append, ← tree.exists_value_iff, ← more.exists_values_iff]
    simp [Forest.values_cons_eq_ok_iff]
termination_by structural forest

end

/-- Tokens at the same location are the same. -/
theorem Row.eq_of_loc {ts : List Token} (h : Row ts) {t u : Token} (ht : t ∈ ts) (hu : u ∈ ts)
    (hloc : t.loc = u.loc) : t = u := by
  induction ts with
  | nil => cases ht
  | cons v rest ih =>
    -- the first token ends before any other begins, so none of them is where it is
    have hfirst : ∀ w ∈ rest, v.loc ≠ w.loc := by
      intro w hw heq
      have hle := (List.pairwise_cons.mp h.pairwise).1 w hw
      have hlt := (h.nonempty v List.mem_cons_self).trans_le hle
      rw [Token.loc, Token.loc, Option.some.injEq, SourceLocation.mk.injEq] at heq
      exact hlt.ne heq.1
    rcases List.mem_cons.mp ht with rfl | htrest
    · rcases List.mem_cons.mp hu with rfl | hurest
      · rfl
      · exact absurd hloc (hfirst u hurest)
    · rcases List.mem_cons.mp hu with rfl | hurest
      · exact absurd hloc.symm (hfirst t htrest)
      · exact ih (h.of_sublist (List.sublist_cons_self v rest)) htrest hurest

/-- A token that stands for a leaf has one in the tree. -/
theorem exists_leaf {source : String} {tree : Tree (.sub .program)} (hparse : parseProgram source = .ok tree)
    {n : Node} (h : readProgram source = .ok n) {t : Token} (ht : t ∈ tree.tokens)
    (hterminal : t.terminal.isLeaf = true) : ∃ m ∈ n.nodes, t.IsLeaf m := by
  obtain ⟨tree', hparse', hsound, hleaves, -⟩ := placed_of_readProgram h
  obtain rfl := Except.ok.inj (hparse.symm.trans hparse')
  have hpos : 0 < tree.tokens.countP (·.isLeafAt t.loc) :=
    List.countP_pos_iff.mpr ⟨t, ht, Token.isLeafAt_iff.mpr ⟨hterminal, rfl⟩⟩
  have hcount := hleaves t.loc
  obtain ⟨m, hm, htest⟩ := exists_of_tally_pos (show 0 < tally (isLeafAt t.loc) [n] by omega)
  obtain ⟨hleaf, hloc⟩ := Node.isLeafAt_iff.mp htest
  obtain ⟨u, hu, huleaf⟩ := (hsound m hm).leaf hleaf
  have hsame : t = u :=
    (standIn_of_parseProgram hparse).2.eq_of_loc ht hu (hloc.symm.trans huleaf.eq.2.1)
  exact ⟨m, hm, hsame ▸ huleaf⟩

/-- The leaf of a number or a string is a literal with its value. -/
theorem Token.IsLeaf.eq_literal {m : Node} (h : t.IsLeaf m)
    (ht : t.terminal = .number ∨ t.terminal = .string) :
    ∃ value, t.value = .ok value ∧ m = .literal t.loc value (some t.text) := by
  obtain ⟨value, hvalue, hm⟩ := h
  refine ⟨value, hvalue, ?_⟩
  rcases ht with ht | ht <;> rw [ht] at hm <;> exact List.mem_singleton.mp hm

/-- A literal with a value other than a truth value is the leaf of a number or a string. -/
theorem Token.IsLeaf.of_literal {loc : Loc} {v : Ground} {raw : Option String}
    (h : t.IsLeaf (.literal loc (some v) raw)) (hv : ∀ b, v ≠ .bool b) :
    (t.terminal = .number ∨ t.terminal = .string) ∧ t.value = .ok (some v) ∧ loc = t.loc ∧
      raw = some t.text := by
  obtain ⟨value, hvalue, hm⟩ := h
  have hother : t.terminal = .trueWord ∨ t.terminal = .falseWord ∨ t.terminal = .nullWord → value ≠ some v := by
    rintro ht rfl
    rw [Token.value] at hvalue
    rcases ht with ht | ht | ht <;> rw [ht] at hvalue <;> cases hvalue
    · exact hv true rfl
    · exact hv false rfl
  unfold Leaf.nodes at hm
  split at hm
  case h_2 ht =>
    cases List.mem_singleton.mp hm
    exact ⟨.inr ht, hvalue, rfl, rfl⟩
  case h_3 ht =>
    cases List.mem_singleton.mp hm
    exact ⟨.inl ht, hvalue, rfl, rfl⟩
  case h_4 ht =>
    cases List.mem_singleton.mp hm
    exact absurd rfl (hother (.inl ht))
  case h_5 ht =>
    cases List.mem_singleton.mp hm
    exact absurd rfl (hother (.inr (.inl ht)))
  case h_6 ht =>
    cases List.mem_singleton.mp hm
    exact absurd rfl (hother (.inr (.inr ht)))
  all_goals simp [Leaf.identifier] at hm

/-- A source that is parsed is read, or a literal has no value. -/
theorem readProgram_cases {source : String} {tree : Tree (.sub .program)}
    (hparse : parseProgram source = .ok tree) :
    (∃ v, tree.value = .ok v ∧ readProgram source = .ok v.meaning) ∨
      ∃ e, tree.value = .error e ∧ readProgram source = .error (literalError e) := by
  cases hvalue : tree.value with
  | ok v =>
    have hprogram : tree.program = .ok v.meaning := by rw [Tree.program, hvalue]; rfl
    refine .inl ⟨v, rfl, ?_⟩
    simp only [readProgram, hparse, hprogram]
  | error e =>
    have hprogram : tree.program = .error e := by rw [Tree.program, hvalue]; rfl
    refine .inr ⟨e, rfl, ?_⟩
    simp only [readProgram, hparse, hprogram]

/-- A number or a string of a source that is read has a literal with what it denotes. -/
theorem exists_literal_of_token {source : String} {tree : Tree (.sub .program)} {n : Node} {t : Token}
    (hparse : parseProgram source = .ok tree) (hread : readProgram source = .ok n) (ht : t ∈ tree.tokens)
    (hterminal : t.terminal = .number ∨ t.terminal = .string) :
    ∃ v, .literal t.loc (some v) (some t.text) ∈ n.nodes ∧ t.Denotes v := by
  have hleaf : t.terminal.isLeaf = true := by rcases hterminal with h | h <;> rw [h] <;> rfl
  obtain ⟨m, hm, hleaf⟩ := exists_leaf hparse hread ht hleaf
  obtain ⟨value, hvalue, rfl⟩ := hleaf.eq_literal hterminal
  obtain ⟨v, rfl, hdenotes⟩ := (isRead_of_mem_tokens hparse ht).denotes hterminal hvalue
  exact ⟨v, hm, hdenotes⟩

/-- A literal of a source that is read, other than truth values and null, stands for a number or a string. -/
theorem exists_token_of_literal {source : String} {tree : Tree (.sub .program)} {n : Node} {l : Loc}
    {v : Ground} {raw : Option String} (hparse : parseProgram source = .ok tree)
    (hread : readProgram source = .ok n) (hm : .literal l (some v) raw ∈ n.nodes) (hv : ∀ b, v ≠ .bool b) :
    ∃ t ∈ tree.tokens, l = t.loc ∧ raw = some t.text ∧ t.Denotes v := by
  obtain ⟨tree', hparse', hsound, -⟩ := placed_of_readProgram hread
  obtain rfl := Except.ok.inj (hparse.symm.trans hparse')
  obtain ⟨t, ht, hleaf⟩ := (hsound _ hm).leaf rfl
  obtain ⟨hterminal, hvalue, hloc, hraw⟩ := hleaf.of_literal hv
  obtain ⟨w, hw, hdenotes⟩ := (isRead_of_mem_tokens hparse ht).denotes hterminal hvalue
  obtain rfl := Option.some.inj hw
  exact ⟨t, ht, hloc, hraw, hdenotes⟩

/-- **Building the tree fails exactly at literals that cannot be decoded.** Of a source that is parsed, the
tree cannot be built exactly if a token cannot be decoded. Else the tree is a program in which the numbers
and strings have literals with what they denote, and there are no other literals but truth values and
null. -/
theorem readProgram_of_parseProgram {source : String} {tree : Tree (.sub .program)}
    (hparse : parseProgram source = .ok tree) :
    ((∃ report e, readProgram source = .error report ∧
        report.message = ↑("Could not build syntax tree: " ++ LiteralError.message e)) ↔
      ∃ t ∈ tree.tokens, t.IsUndecodable) ∧
    ((∀ t ∈ tree.tokens, ¬ t.IsUndecodable) → ∃ loc body, readProgram source = .ok (.program loc body) ∧
      (∀ t ∈ tree.tokens, t.terminal = .number ∨ t.terminal = .string →
        ∃ v, .literal t.loc (some v) (some t.text) ∈ (Node.program loc body).nodes ∧ t.Denotes v) ∧
      ∀ l v raw, .literal l (some v) raw ∈ (Node.program loc body).nodes → (∀ b, v ≠ .bool b) →
        ∃ t ∈ tree.tokens, l = t.loc ∧ raw = some t.text ∧ t.Denotes v) := by
  have hvalues : (∃ v, tree.value = .ok v) ↔ ∀ t ∈ tree.tokens, ¬ t.IsUndecodable := by
    rw [tree.exists_value_iff]
    exact forall₂_congr fun t ht => (isRead_of_mem_tokens hparse ht).exists_value_iff
  obtain ⟨v, hvalue, hread⟩ | ⟨e, hvalue, hread⟩ := readProgram_cases hparse
  · have hdecodable := hvalues.mp ⟨v, hvalue⟩
    refine ⟨iff_of_false ?_ ?_, fun _ => ?_⟩
    · rintro ⟨report, e, herror, -⟩
      rw [hread] at herror
      cases herror
    · rintro ⟨t, ht, hundecodable⟩
      exact hdecodable t ht hundecodable
    · obtain ⟨⟨loc, body, hprogram⟩, -⟩ := wellShaped_of_readProgram hread
      rw [hprogram] at hread
      refine ⟨loc, body, hread, fun t ht hterminal => ?_, fun l v raw hm hv => ?_⟩
      · exact exists_literal_of_token hparse hread ht hterminal
      · exact exists_token_of_literal hparse hread hm hv
  · have hnone : ¬ ∀ t ∈ tree.tokens, ¬ t.IsUndecodable := by
      rw [← hvalues]
      rintro ⟨v, hv⟩
      rw [hvalue] at hv
      cases hv
    refine ⟨iff_of_true ⟨literalError e, e, hread, rfl⟩ ?_, fun h => absurd h hnone⟩
    by_contra hall
    exact hnone fun t ht hundecodable => hall ⟨t, ht, hundecodable⟩

/-- A source with a surrogate pair in escapes, a lone half of one, an Arabic digit and an exponent. -/
def pairAndDigits : String := "f(\"\\ud83d\\ude00\", \"\\ud83d\", ٣.5e1);"

theorem pairAndDigits_read : ∃ tree, parseProgram pairAndDigits = .ok tree ∧
    (∀ t ∈ tree.tokens, ¬ t.IsUndecodable) ∧
    ∃ loc body, readProgram pairAndDigits = .ok (.program loc body) ∧
      ∀ t ∈ tree.tokens, t.terminal = .number ∨ t.terminal = .string →
        ∃ v, .literal t.loc (some v) (some t.text) ∈ (Node.program loc body).nodes ∧ t.Denotes v := by
  obtain ⟨tree, hparse, htest⟩ := exists_parseProgram_of_derivedWithin 400 pairAndDigits
    (fun tree => tree.program.toOption.isSome) (by decide +kernel)
  have hresult := readProgram_of_parseProgram hparse
  have hdecodable : ∀ t ∈ tree.tokens, ¬ t.IsUndecodable := by
    intro t ht hundecodable
    obtain ⟨report, e, herror, -⟩ := hresult.1.mpr ⟨t, ht, hundecodable⟩
    obtain ⟨v, -, hread⟩ | ⟨e, hvalue, -⟩ := readProgram_cases hparse
    · rw [hread] at herror
      cases herror
    · rw [Tree.program, hvalue] at htest
      cases htest
  obtain ⟨loc, body, hread, hliterals, -⟩ := hresult.2 hdecodable
  exact ⟨tree, hparse, hdecodable, loc, body, hread, hliterals⟩

end RhoScript.Source
