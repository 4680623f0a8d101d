import Mathlib.Data.List.Infix
import RhoScript.Proofs.Source.Words

/-!
# Lexemes before layout

No name, number, keyword or mark reaches into layout, and a string ends where it is closed. Main
statement: a token that is found before some text is also found if layout begins further on
(`lexeme?_of_interrupted`).
-/

namespace RhoScript.Source

open Text

/-! ### Lexemes before layout -/

/-- The characters that begin a blank or a comment. -/
def layoutStarts : List Char := [' ', '\t', '\x0c', '\r', '\n', '/']

theorem mem_layoutStarts {c : Char} (h : isSolid c = false) : c ∈ layoutStarts := by
  simp only [isSolid, isLayoutBlank, Bool.and_eq_false_iff, Bool.not_eq_false', Bool.or_eq_true,
    decide_eq_true_eq, bne_eq_false_iff_eq] at h
  simpa [layoutStarts, or_assoc] using h

theorem eq_false_of_not_isSolid {p : Char → Bool} (hp : layoutStarts.all (fun c => !p c) = true)
    {c : Char} (h : isSolid c = false) : p c = false := by
  simpa using List.all_eq_true.mp hp c (mem_layoutStarts h)

/-- A length at the front of a text does not reach into layout: where it ends, it also ends if layout
begins further on. -/
def StopsAtLayout (f : List Char → Nat) : Prop :=
  ∀ (x v w : List Char) (c : Char), isSolid c = false → f (x ++ v) ≤ x.length →
    f (x ++ c :: w) = f (x ++ v)

theorem StopsAtLayout.ne_zero {f : List Char → Nat} (hf : StopsAtLayout f) {x v w : List Char}
    {c : Char} (hc : isSolid c = false) (h : f (x ++ c :: w) ≠ 0) : f (x ++ v) ≠ 0 := by
  intro hzero
  rw [hf x v w c hc (by omega)] at h
  exact h hzero

theorem stopsAtLayout_takeWhile {p : Char → Bool} (hp : layoutStarts.all (fun c => !p c) = true) :
    StopsAtLayout fun text => (text.takeWhile p).length := by
  intro x v w c hc hle
  induction x with
  | nil =>
    have hpc := eq_false_of_not_isSolid hp hc
    simp only [List.nil_append, List.length_nil, Nat.le_zero_eq] at hle
    simp [hle, hpc]
  | cons a x ih =>
    by_cases ha : p a = true
    · simp only [List.cons_append, List.takeWhile_cons_of_pos ha, List.length_cons] at hle ⊢
      exact congrArg (· + 1) (ih (Nat.le_of_succ_le_succ hle))
    · simp [ha]

theorem stopsAtLayout_digitsLength : StopsAtLayout digitsLength :=
  stopsAtLayout_takeWhile (by decide +kernel)

theorem fractionLength_of_ne {c : Char} (h : c ≠ '.') (rest : List Char) :
    fractionLength (c :: rest) = 0 := by
  unfold fractionLength
  split
  · rename_i heq
    exact absurd (List.cons.inj heq).1 h
  · rfl

theorem stopsAtLayout_fractionLength : StopsAtLayout fractionLength := by
  intro x v w c hc hle
  cases x with
  | nil =>
    have hpoint : c ≠ '.' := by simpa using eq_false_of_not_isSolid (p := (· = '.')) (by decide) hc
    rw [List.nil_append, fractionLength_of_ne hpoint]
    exact (Nat.le_zero.mp hle).symm
  | cons a x =>
    by_cases ha : a = '.'
    · subst ha
      simp only [List.cons_append, fractionLength, List.length_cons] at hle ⊢
      rw [stopsAtLayout_digitsLength x v w c hc (by split at hle <;> omega)]
    · rw [List.cons_append, List.cons_append, fractionLength_of_ne ha, fractionLength_of_ne ha]

theorem signLength_le (text : List Char) : signLength text ≤ 1 := by
  unfold signLength
  split <;> omega

theorem signLength_cons (a : Char) (x y : List Char) :
    signLength (a :: x) = signLength (a :: y) := by
  unfold signLength
  split <;> simp_all

theorem digitsLength_of_not_isSolid {c : Char} (h : isSolid c = false) (w : List Char) :
    digitsLength (c :: w) = 0 := by
  have hdigit := eq_false_of_not_isSolid (p := isDecimalDigit) (by decide +kernel) h
  simp [digitsLength, hdigit]

theorem stopsAtLayout_exponentLength : StopsAtLayout exponentLength := by
  intro x v w c hc hle
  cases x with
  | nil =>
    have hmark : ¬ (c = 'e' ∨ c = 'E') := by
      simpa using eq_false_of_not_isSolid (p := fun c => c = 'e' || c = 'E') (by decide) hc
    have hzero : exponentLength v = 0 := Nat.le_zero.mp hle
    rw [List.nil_append, List.nil_append, hzero]
    simp [exponentLength, hmark]
  | cons a x =>
    simp only [List.cons_append, exponentLength, List.length_cons] at hle ⊢
    by_cases ha : (a = 'e' || a = 'E') = true
    · simp only [if_pos ha] at hle ⊢
      cases x with
      | nil =>
        -- no digits follow, neither in the one text nor in the other
        have hsign : signLength (c :: w) = 0 := by
          have hne : ¬ (c = '+' ∨ c = '-') := by
            simpa using eq_false_of_not_isSolid (p := fun c => c = '+' || c = '-') (by decide) hc
          unfold signLength
          split <;> simp_all
        have hnone : digitsLength (v.drop (signLength v)) = 0 := by
          by_contra hsome
          rw [List.nil_append, if_neg hsome, List.length_nil] at hle
          omega
        simp [hsign, hnone, digitsLength_of_not_isSolid hc]
      | cons b x =>
        have hsign := signLength_cons b (x ++ c :: w) (x ++ v)
        have hle' := signLength_le (b :: (x ++ v))
        generalize hs : signLength (b :: (x ++ v)) = s at *
        have hdrop : ∀ rest, (b :: (x ++ rest)).drop s = (b :: x).drop s ++ rest := fun rest => by
          rw [← List.cons_append, List.drop_append_of_le_length (by rw [List.length_cons]; omega)]
        have hdigits := stopsAtLayout_digitsLength ((b :: x).drop s) v w c hc (by
          rw [List.length_drop, List.length_cons]
          rw [List.cons_append, hs, hdrop, List.length_cons] at hle
          split at hle <;> omega)
        simp only [List.cons_append, hsign, hs, hdrop, hdigits]
    · simp only [if_neg ha]

theorem stopsAtLayout_numberLength : StopsAtLayout numberLength := by
  intro x v w c hc hle
  simp only [numberLength] at hle ⊢
  have hwhole := stopsAtLayout_digitsLength x v w c hc (by split at hle <;> omega)
  rw [hwhole]
  generalize digitsLength (x ++ v) = n at *
  by_cases hzero : n = 0
  · simp only [if_pos hzero]
  · simp only [if_neg hzero] at hle ⊢
    have hdrop : ∀ m, m ≤ x.length → ∀ rest, (x ++ rest).drop m = x.drop m ++ rest := fun m hm rest =>
      List.drop_append_of_le_length hm
    have hfraction := stopsAtLayout_fractionLength (x.drop n) v w c hc (by
      rw [List.length_drop, ← hdrop n (by omega)]
      omega)
    simp only [hdrop n (by omega)] at hle ⊢
    rw [hfraction]
    generalize fractionLength (x.drop n ++ v) = m at *
    have hexponent := stopsAtLayout_exponentLength (x.drop (n + m)) v w c hc (by
      rw [List.length_drop, ← hdrop (n + m) (by omega)]
      omega)
    rw [hdrop (n + m) (by omega), hdrop (n + m) (by omega), hexponent]

theorem stopsAtLayout_nameLength : StopsAtLayout nameLength := by
  intro x v w c hc hle
  cases x with
  | nil =>
    have hstart := eq_false_of_not_isSolid (p := isNameStart) (by decide) hc
    simp only [List.nil_append, nameLength, hstart]
    exact (Nat.le_zero.mp hle).symm
  | cons a x =>
    have hparts : StopsAtLayout fun text => (text.takeWhile isNamePart).length :=
      stopsAtLayout_takeWhile (by decide +kernel)
    simp only [List.cons_append, nameLength, List.length_cons] at hle ⊢
    by_cases ha : isNameStart a = true
    · simp only [if_pos ha] at hle ⊢
      exact congrArg (1 + ·) (hparts x v w c hc (by dsimp only; omega))
    · simp only [if_neg ha]

theorem not_isSolid_not_mem_spelling {t : Terminal} {s : String} (h : t.spelling? = some s) {c : Char}
    (hc : isSolid c = false) : c ∉ s.toList := by
  intro hmem
  obtain ⟨d, tail, htext, hd, htail⟩ | ⟨-, hmarks⟩ := spelling_cases h
  · rw [htext] at hmem
    obtain rfl | hmem := List.mem_cons.mp hmem
    · rw [eq_false_of_not_isSolid (p := isNameStart) (by decide) hc] at hd
      cases hd
    · have hpart := htail c hmem
      rw [eq_false_of_not_isSolid (p := isNamePart) (by decide +kernel) hc] at hpart
      cases hpart
  · have hmark := List.all_eq_true.mp hmarks c hmem
    rw [eq_false_of_not_isSolid (p := isMark) (by decide) hc] at hmark
    cases hmark

theorem stopsAtLayout_spellingLength (t : Terminal) : StopsAtLayout (spellingLength · t) := by
  intro x v w c hc hle
  simp only [spellingLength] at hle ⊢
  cases hs : t.spelling? with
  | none => rfl
  | some s =>
    simp only [hs, List.isPrefixOf_iff_prefix] at hle ⊢
    have hiff : s.toList <+: x ++ c :: w ↔ s.toList <+: x ++ v := by
      constructor
      · intro h
        have hx := prefix_of_prefix_append (not_isSolid_not_mem_spelling hs hc) h
        exact hx.trans (List.prefix_append x v)
      · intro h
        rw [if_pos h, ← String.length_toList] at hle
        have hx := List.prefix_of_prefix_length_le h (List.prefix_append x v) hle
        exact hx.trans (List.prefix_append x _)
    simp only [hiff]

/-- The longest spelling is as long as all others that are there. -/
theorem spellingLength_le_longest? {text : List Char} {ts : List Terminal} {t : Terminal}
    (h : t ∈ ts) : spellingLength text t ≤ ((longest? text ts).map (·.2)).getD 0 := by
  induction ts with
  | nil => cases h
  | cons u ts ih =>
    rw [longest?]
    rcases hrest : longest? text ts with _ | ⟨v, m⟩
    · rw [hrest] at ih
      obtain rfl | ht := List.mem_cons.mp h
      · by_cases hzero : spellingLength text t = 0
        · omega
        · simp [hzero]
      · have hle := ih ht
        simp only [Option.map_none, Option.getD_none] at hle
        omega
    · rw [hrest] at ih
      obtain rfl | ht := List.mem_cons.mp h
      · by_cases hless : m < spellingLength text t
        · simp [hless]
        · simp only [if_neg hless, Option.map_some, Option.getD_some]
          omega
      · have hle := ih ht
        simp only [Option.map_some, Option.getD_some] at hle
        by_cases hless : m < spellingLength text u
        · simp only [if_pos hless, Option.map_some, Option.getD_some]
          omega
        · simpa only [if_neg hless, Option.map_some, Option.getD_some] using hle

theorem longest?_congr {text text' : List Char} {ts : List Terminal}
    (h : ∀ t ∈ ts, spellingLength text t = spellingLength text' t) :
    longest? text ts = longest? text' ts := by
  induction ts with
  | nil => rfl
  | cons t ts ih =>
    obtain ⟨ht, hts⟩ := List.forall_mem_cons.mp h
    rw [longest?, longest?, ih hts, ht]

/-- A string that is closed within a text does not depend on what is after the text. -/
theorem closingLength?_append {quote : Char} (hquote : quote ≠ '\\') {x v : List Char} {n : Nat}
    (h : closingLength? quote (x ++ v) = some n) (hn : n ≤ x.length) (w : List Char) :
    closingLength? quote (x ++ w) = some n := by
  generalize htext : x ++ v = text at h
  fun_induction closingLength? quote text generalizing x n with
  | case1 => cases h
  | case2 => cases h
  | case3 c rest hc ih =>
    obtain ⟨m, hm, rfl⟩ := Option.map_eq_some_iff.mp h
    rcases x with _ | ⟨a, _ | ⟨b, x⟩⟩
    · simp at hn
    · simp at hn
    · obtain ⟨rfl, hmore⟩ := List.cons.inj htext
      obtain ⟨rfl, hrest⟩ := List.cons.inj hmore
      rw [List.cons_append, List.cons_append, closingLength?, if_neg hc,
        ih (by simpa using hn) hrest hm]
      rfl
  | case4 rest hslash =>
    cases h
    cases x with
    | nil => simp at hn
    | cons a x =>
      obtain ⟨rfl, -⟩ := List.cons.inj htext
      rw [List.cons_append, closingLength?, if_pos rfl]
      exact fun _ _ h => absurd h hquote
  | case5 => cases h
  | case6 c rest hslash hc hother ih =>
    obtain ⟨m, hm, rfl⟩ := Option.map_eq_some_iff.mp h
    cases x with
    | nil => simp at hn
    | cons a x =>
      obtain ⟨rfl, hrest⟩ := List.cons.inj htext
      rw [List.cons_append, closingLength?, if_neg hc, if_neg hother, ih (by simpa using hn) hrest hm]
      · rfl
      · rintro _ _ rfl
        simp at hother

theorem stringLength_append {x v : List Char} (h : stringLength (x ++ v) ≠ 0)
    (hle : stringLength (x ++ v) ≤ x.length) (w : List Char) :
    stringLength (x ++ w) = stringLength (x ++ v) := by
  cases x with
  | nil => exact absurd (Nat.le_zero.mp hle) h
  | cons a x =>
    simp only [List.cons_append, stringLength, List.length_cons] at h hle ⊢
    by_cases ha : (a = '"' || a = '\x27') = true
    · simp only [if_pos ha] at h hle ⊢
      have hslash : a ≠ '\\' := by
        rintro rfl
        simp at ha
      cases hclosing : closingLength? a (x ++ v) with
      | none => simp [hclosing] at h
      | some n =>
        simp only [hclosing] at hle
        rw [closingLength?_append hslash hclosing (by omega)]
    · simp only [if_neg ha] at h
      exact absurd rfl h

/-! ### Where lexemes begin and end -/

theorem digitsLength_le (text : List Char) : digitsLength text ≤ text.length :=
  (List.takeWhile_prefix _).length_le

theorem fractionLength_le (text : List Char) : fractionLength text ≤ text.length := by
  unfold fractionLength
  split
  · rename_i rest
    have hle := digitsLength_le rest
    rw [List.length_cons]
    split <;> omega
  · exact Nat.zero_le _

theorem exponentLength_le (text : List Char) : exponentLength text ≤ text.length := by
  cases text with
  | nil => exact Nat.le_refl 0
  | cons c rest =>
    have hle := digitsLength_le (rest.drop (signLength rest))
    have hsign : digitsLength (rest.drop (signLength rest)) ≠ 0 → signLength rest ≤ rest.length := by
      intro hsome
      by_contra hlong
      rw [List.drop_eq_nil_of_le (by omega)] at hsome
      exact hsome rfl
    rw [List.length_drop] at hle
    simp only [exponentLength, List.length_cons]
    split
    · split <;> omega
    · exact Nat.zero_le _

theorem numberLength_le (text : List Char) : numberLength text ≤ text.length := by
  have hwhole := digitsLength_le text
  have hfraction := fractionLength_le (text.drop (digitsLength text))
  have hexponent := exponentLength_le
    (text.drop (digitsLength text + fractionLength (text.drop (digitsLength text))))
  rw [List.length_drop] at hfraction hexponent
  simp only [numberLength]
  split <;> omega

theorem nameLength_le (text : List Char) : nameLength text ≤ text.length := by
  cases text with
  | nil => exact Nat.le_refl 0
  | cons c rest =>
    have hle := (List.takeWhile_prefix isNamePart (l := rest)).length_le
    rw [nameLength, List.length_cons]
    split <;> omega

theorem le_of_closingLength? {quote : Char} {text : List Char} {n : Nat}
    (h : closingLength? quote text = some n) : n ≤ text.length := by
  fun_induction closingLength? quote text generalizing n with
  | case1 => cases h
  | case2 => cases h
  | case3 c rest hc ih =>
    obtain ⟨m, hm, rfl⟩ := Option.map_eq_some_iff.mp h
    exact Nat.add_le_add_right (ih hm) 2
  | case4 =>
    cases h
    exact Nat.le_add_left 1 _
  | case5 => cases h
  | case6 c rest hslash hc hother ih =>
    obtain ⟨m, hm, rfl⟩ := Option.map_eq_some_iff.mp h
    exact Nat.add_le_add_right (ih hm) 1

/-- A string ends with its quote. -/
theorem take_of_closingLength? {quote : Char} {text : List Char} {n : Nat}
    (h : closingLength? quote text = some n) : ∃ body, text.take n = body ++ [quote] := by
  fun_induction closingLength? quote text generalizing n with
  | case1 => cases h
  | case2 => cases h
  | case3 c rest hc ih =>
    obtain ⟨m, hm, rfl⟩ := Option.map_eq_some_iff.mp h
    obtain ⟨body, hbody⟩ := ih hm
    exact ⟨'\\' :: c :: body, by rw [List.take_succ_cons, List.take_succ_cons, hbody]; rfl⟩
  | case4 =>
    cases h
    exact ⟨[], rfl⟩
  | case5 => cases h
  | case6 c rest hslash hc hother ih =>
    obtain ⟨m, hm, rfl⟩ := Option.map_eq_some_iff.mp h
    obtain ⟨body, hbody⟩ := ih hm
    exact ⟨c :: body, by rw [List.take_succ_cons, hbody]; rfl⟩

theorem stringLength_le (text : List Char) : stringLength text ≤ text.length := by
  cases text with
  | nil => exact Nat.le_refl 0
  | cons c rest =>
    rw [stringLength, List.length_cons]
    split
    · split
      · rename_i n hn
        have hle := le_of_closingLength? hn
        omega
      · exact Nat.zero_le _
    · exact Nat.zero_le _

theorem spellingLength_le (text : List Char) (t : Terminal) : spellingLength text t ≤ text.length := by
  rw [spellingLength]
  split
  · rename_i s _
    split
    · rename_i hprefix
      rw [← String.length_toList]
      exact (List.isPrefixOf_iff_prefix.mp hprefix).length_le
    · exact Nat.zero_le _
  · exact Nat.zero_le _

/-- A lexeme is a piece of the text. -/
theorem le_of_lexeme? {accepted : List Terminal} {text : List Char} {t : Terminal} {n : Nat}
    (h : lexeme? accepted text = some (t, n)) : n ≤ text.length := by
  unfold lexeme? at h
  split at h
  · cases h
    exact stringLength_le text
  split at h
  · cases h
    exact numberLength_le text
  split at h
  · cases h
    exact nameLength_le text
  · rw [(longest?_spec h).2]
    exact spellingLength_le text t

theorem isPlainStart_of_spelling {t : Terminal} {s : String} (h : t.spelling? = some s) {c : Char}
    {tail : List Char} (hs : s.toList = c :: tail) : isPlainStart c = true := by
  obtain ⟨d, rest, htext, hd, -⟩ | ⟨-, hmarks⟩ := spelling_cases h
  · obtain ⟨rfl, -⟩ := List.cons.inj (hs.symm.trans htext)
    exact isPlainStart_of_isNameStart hd
  · exact isPlainStart_of_isMark (List.all_eq_true.mp hmarks c (hs ▸ List.mem_cons_self))

/-- A lexeme begins no layout, and it begins no string unless it is one. -/
theorem start_of_lexeme? {accepted : List Terminal} {c : Char} {rest : List Char} {t : Terminal}
    {n : Nat} (h : lexeme? accepted (c :: rest) = some (t, n)) :
    isSolid c = true ∧ ((.string ∈ accepted ∧ stringLength (c :: rest) ≠ 0) ∨
      ∀ more, stringLength (c :: more) = 0) := by
  have hplain : isPlainStart c = true → isSolid c = true ∧
      ((.string ∈ accepted ∧ stringLength (c :: rest) ≠ 0) ∨
        ∀ more, stringLength (c :: more) = 0) := fun hc =>
    ⟨isSolid_of_isPlainStart hc, .inr fun more => (lengths_of_isPlainStart hc more).1⟩
  unfold lexeme? at h
  split at h
  · rename_i hstring
    refine ⟨?_, .inl hstring⟩
    by_contra hc
    have hquote := eq_false_of_not_isSolid (p := fun c => c = '"' || c = '\x27') (by decide)
      (Bool.eq_false_iff.mpr hc)
    exact hstring.2 (by rw [stringLength, hquote]; rfl)
  split at h
  · rename_i hnumber
    have hdigit : isDecimalDigit c = true := by
      by_contra hc
      exact hnumber.2 (by simp [numberLength, digitsLength, hc])
    refine ⟨?_, .inr fun more => ?_⟩
    · by_contra hc
      rw [eq_false_of_not_isSolid (p := isDecimalDigit) (by decide +kernel)
        (Bool.eq_false_iff.mpr hc)] at hdigit
      cases hdigit
    · have hquote : ¬ (c = '"' ∨ c = '\x27') := by
        rintro (rfl | rfl)
        · exact absurd hdigit (by decide)
        · exact absurd hdigit (by decide)
      simp [stringLength, hquote]
  split at h
  · rename_i hname
    refine hplain (isPlainStart_of_isNameStart ?_)
    by_contra hc
    exact hname.2 (by rw [nameLength, if_neg hc])
  · have hpos := longest?_pos h
    have hlength := (longest?_spec h).2
    rw [spellingLength] at hlength
    split at hlength
    · rename_i s hs
      split at hlength
      · rename_i hprefix
        obtain ⟨d, tail, htext⟩ := List.exists_cons_of_ne_nil (l := s.toList) (by
          intro hnil
          rw [← String.length_toList, hnil] at hlength
          exact hpos hlength)
        rw [List.isPrefixOf_iff_prefix, htext] at hprefix
        obtain ⟨rfl, -⟩ := List.cons_prefix_cons.mp hprefix
        exact hplain (isPlainStart_of_spelling hs htext)
      · exact absurd hlength hpos
    · exact absurd hlength hpos

/-- **A token is found also if layout begins further on**: what is found at the front of `x` and more is
found there if a blank or a comment begins after `x`. -/
theorem lexeme?_of_interrupted {accepted : List Terminal} {x v w : List Char} {c : Char}
    {t : Terminal} {n : Nat} (h : lexeme? accepted (x ++ v) = some (t, n)) (hn : n ≤ x.length)
    (hc : isSolid c = false) : lexeme? accepted (x ++ c :: w) = some (t, n) := by
  have hx : x ≠ [] := by
    rintro rfl
    exact lexeme?_pos h (Nat.le_zero.mp hn)
  obtain ⟨a, y, rfl⟩ := List.exists_cons_of_ne_nil hx
  obtain ⟨-, hstart⟩ := start_of_lexeme? h
  unfold lexeme? at h ⊢
  split at h
  · rename_i hstring
    obtain ⟨rfl, rfl⟩ := Prod.mk.inj (Option.some.inj h)
    rw [stringLength_append hstring.2 hn, if_pos hstring]
  rename_i hstring
  have hnone := hstart.resolve_left hstring
  rw [if_neg (fun h => h.2 (hnone _))]
  split at h
  · rename_i hnumber
    obtain ⟨rfl, rfl⟩ := Prod.mk.inj (Option.some.inj h)
    rw [stopsAtLayout_numberLength _ v w c hc hn, if_pos hnumber]
  rename_i hnumber
  rw [if_neg (fun h => hnumber ⟨h.1, stopsAtLayout_numberLength.ne_zero hc h.2⟩)]
  split at h
  · rename_i hname
    obtain ⟨rfl, rfl⟩ := Prod.mk.inj (Option.some.inj h)
    rw [stopsAtLayout_nameLength _ v w c hc hn, if_pos hname, List.take_append_of_le_length hn,
      List.take_append_of_le_length hn]
  rename_i hname
  rw [if_neg (fun h => hname ⟨h.1, stopsAtLayout_nameLength.ne_zero hc h.2⟩), ← h]
  refine longest?_congr fun u hu => stopsAtLayout_spellingLength u _ v w c hc (le_trans ?_ hn)
  have hle : spellingLength (a :: y ++ v) u ≤ _ := spellingLength_le_longest? hu
  rw [h] at hle
  exact hle

end RhoScript.Source
