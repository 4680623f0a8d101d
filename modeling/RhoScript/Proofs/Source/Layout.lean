import Mathlib.Data.List.Infix
import RhoScript.Proofs.Source.Words

/-!
# Layout

Layout is a text of blanks and of comments that are closed, a line comment by a line feed. It is skipped
before a token (`IsLayout.skipLayout`), and what is skipped before a token is layout
(`exists_layout_of_skipLayout`).
-/

namespace RhoScript.Source

open Text

/-! ### Blanks and comments -/

/-- Blanks and comments. A comment to the end of a line comes with its line feed. -/
inductive IsLayout : List Char → Prop
  | nil : IsLayout []
  | blank {c : Char} {rest : List Char} :
      isLayoutBlank c = true → IsLayout rest → IsLayout (c :: rest)
  | lineComment {body rest : List Char} :
      '\n' ∉ body → IsLayout rest → IsLayout ('/' :: '/' :: (body ++ '\n' :: rest))
  | blockComment {body rest : List Char} :
      ¬ ['*', '/'] <:+: body → IsLayout rest → IsLayout ('/' :: '*' :: (body ++ '*' :: '/' :: rest))

theorem IsLayout.append {a b : List Char} (ha : IsLayout a) (hb : IsLayout b) : IsLayout (a ++ b) := by
  induction ha with
  | nil => exact hb
  | blank hc _ ih => exact .blank hc ih
  | lineComment hbody _ ih => simpa using IsLayout.lineComment hbody ih
  | blockComment hbody _ ih => simpa using IsLayout.blockComment hbody ih

/-- Layout begins with a blank or a comment. -/
theorem IsLayout.isSolid_head {c : Char} {rest : List Char} (h : IsLayout (c :: rest)) :
    isSolid c = false := by
  cases h with
  | blank hc => simp [isSolid, hc]
  | lineComment | blockComment => rfl

theorem ne_slash_of_isLayoutBlank {c : Char} (h : isLayoutBlank c = true) : c ≠ '/' := by
  rintro rfl
  cases h

theorem layoutLength_blank {c : Char} (h : isLayoutBlank c = true) (rest : List Char) :
    layoutLength (c :: rest) = 1 := by
  have hne := ne_slash_of_isLayoutBlank h
  rw [layoutLength, h]
  · rfl
  all_goals
    rintro _ rfl
    exact absurd rfl hne

theorem layoutLength_lineComment {body : List Char} (h : '\n' ∉ body) (rest : List Char) :
    layoutLength ('/' :: '/' :: (body ++ '\n' :: rest)) = body.length + 2 := by
  have hbody : ∀ c ∈ body, decide (c ≠ '\n') = true := by
    intro c hc
    simpa using fun heq : c = '\n' => h (heq ▸ hc)
  rw [layoutLength, List.takeWhile_append_of_pos hbody, List.takeWhile_cons_of_neg (by simp),
    List.append_nil, Nat.add_comm]

/-- A comment ends where it is closed first. -/
theorem commentLength?_append {body : List Char} (h : ¬ ['*', '/'] <:+: body) (rest : List Char) :
    commentLength? (body ++ '*' :: '/' :: rest) = some (body.length + 2) := by
  induction body with
  | nil => rfl
  | cons c body ih =>
    have hbody : ¬ ['*', '/'] <:+: body := fun hin => h (List.infix_cons hin)
    rw [List.cons_append, commentLength?, ih hbody]
    · simp
    · -- the comment is not closed by its first two characters
      intro r hc hr
      subst hc
      cases body with
      | nil => simp at hr
      | cons d body =>
        obtain ⟨rfl, -⟩ := List.cons.inj hr
        exact h (List.prefix_append ['*', '/'] body).isInfix

theorem layoutLength_blockComment {body : List Char} (h : ¬ ['*', '/'] <:+: body) (rest : List Char) :
    layoutLength ('/' :: '*' :: (body ++ '*' :: '/' :: rest)) = body.length + 4 := by
  rw [layoutLength, commentLength?_append h]
  exact Nat.add_comm 2 _

/-! ### Skipping layout -/

/-- A piece of layout in front is skipped. -/
theorem skipLayout_append (piece rest : List Char) (hne : piece ≠ [])
    (h : layoutLength (piece ++ rest) = piece.length) (p : Position) :
    (Cursor.mk (piece ++ rest) p).skipLayout =
      (Cursor.mk rest (piece.foldl Position.after p)).skipLayout := by
  have hpos : layoutLength (piece ++ rest) ≠ 0 := by
    rw [h]
    exact fun hzero => hne (List.length_eq_zero_iff.mp hzero)
  rw [Cursor.skipLayout, dif_neg hpos]
  simp only [Cursor.advance, h, List.drop_left, List.take_left]

/-- **Layout is skipped.** -/
theorem IsLayout.skipLayout {l : List Char} (h : IsLayout l) (rest : List Char) (p : Position) :
    (Cursor.mk (l ++ rest) p).skipLayout =
      (Cursor.mk rest (l.foldl Position.after p)).skipLayout := by
  induction h generalizing p with
  | nil => rfl
  | @blank c l hc _ ih =>
    rw [List.foldl_cons, ← ih]
    exact skipLayout_append [c] _ (List.cons_ne_nil c []) (layoutLength_blank hc _) p
  | @lineComment body l hbody _ ih =>
    have hcomment := skipLayout_append ('/' :: '/' :: body) ('\n' :: (l ++ rest))
      (List.cons_ne_nil _ _) (by simpa using layoutLength_lineComment hbody (l ++ rest)) p
    have hfeed := skipLayout_append ['\n'] (l ++ rest) (List.cons_ne_nil _ _)
      (layoutLength_blank rfl _) (('/' :: '/' :: body).foldl Position.after p)
    simpa [ih] using hcomment.trans hfeed
  | @blockComment body l hbody _ ih =>
    have hcomment := skipLayout_append ('/' :: '*' :: (body ++ ['*', '/'])) (l ++ rest)
      (List.cons_ne_nil _ _) (by simpa using layoutLength_blockComment hbody (l ++ rest)) p
    simpa [ih] using hcomment

theorem layoutLength_skipLayout (c : Cursor) : layoutLength c.skipLayout.rest = 0 := by
  fun_induction Cursor.skipLayout c with
  | case1 c hzero => exact hzero
  | case2 c hzero hless ih => exact ih

/-- Where there is no layout nothing is skipped. -/
theorem skipLayout_of_isSolid {c : Char} (h : isSolid c = true) (rest : List Char) (p : Position) :
    (Cursor.mk (c :: rest) p).skipLayout = ⟨c :: rest, p⟩ := by
  rw [Cursor.skipLayout, dif_pos (layoutLength_of_isSolid h rest)]

/-- What is skipped does not depend on the position. -/
theorem rest_skipLayout (c : Cursor) (p : Position) :
    (Cursor.mk c.rest p).skipLayout.rest = c.skipLayout.rest := by
  fun_induction Cursor.skipLayout c generalizing p with
  | case1 c hzero => rw [Cursor.skipLayout, dif_pos hzero]
  | case2 c hzero hless ih =>
    conv_lhs => rw [Cursor.skipLayout, dif_neg hzero]
    exact ih _

/-- An opened comment is closed for the first time by its last two characters. -/
theorem eq_of_commentLength? {text : List Char} {n : Nat} (h : commentLength? text = some n) :
    ∃ body rest, ¬ ['*', '/'] <:+: body ∧ text = body ++ '*' :: '/' :: rest ∧ n = body.length + 2 := by
  fun_induction commentLength? text generalizing n with
  | case1 => cases h
  | case2 rest =>
    cases h
    exact ⟨[], rest, by simp, rfl, rfl⟩
  | case3 c text hnot ih =>
    obtain ⟨m, hm, rfl⟩ := Option.map_eq_some_iff.mp h
    obtain ⟨body, rest, hbody, rfl, rfl⟩ := ih hm
    refine ⟨c :: body, rest, fun hin => ?_, rfl, rfl⟩
    obtain ⟨tail, htail⟩ | hin := List.infix_cons_iff.mp hin
    · -- then the comment is closed by its first two characters already
      obtain ⟨rfl, rfl⟩ := List.cons.inj htail
      exact hnot (tail ++ '*' :: '/' :: rest) rfl rfl
    · exact hbody hin

/-- What is skipped at once is a blank or a comment, and a comment to the end of a line reaches up to a
line feed or to the end of the text. -/
theorem layoutLength_spec {text : List Char} (h : layoutLength text ≠ 0) :
    ∃ piece rest, text = piece ++ rest ∧ layoutLength text = piece.length ∧
      (IsLayout piece ∨ ∃ body, '\n' ∉ body ∧ piece = '/' :: '/' :: body ∧
        (rest = [] ∨ ∃ more, rest = '\n' :: more)) := by
  fun_cases layoutLength text with
  | case1 => exact absurd rfl h
  | case2 rest =>
    refine ⟨'/' :: '/' :: rest.takeWhile (· ≠ '\n'), rest.dropWhile (· ≠ '\n'), ?_, ?_, .inr
      ⟨rest.takeWhile (· ≠ '\n'), ?_, rfl, ?_⟩⟩
    · rw [List.cons_append, List.cons_append, List.takeWhile_append_dropWhile]
    · rw [List.length_cons, List.length_cons]
      omega
    · intro hmem
      simpa using List.mem_takeWhile_imp hmem
    · cases hdrop : rest.dropWhile (· ≠ '\n') with
      | nil => exact .inl rfl
      | cons d more =>
        have hd := List.head?_dropWhile_not (· ≠ '\n') rest
        rw [hdrop] at hd
        exact .inr ⟨more, by simpa using hd⟩
  | case3 rest n hn =>
    obtain ⟨body, rest, hbody, rfl, rfl⟩ := eq_of_commentLength? hn
    refine ⟨'/' :: '*' :: (body ++ ['*', '/']), rest, ?_, ?_, .inl (.blockComment hbody .nil)⟩
    · simp
    · simp only [List.length_cons, List.length_append, List.length_nil]
      omega
  | case4 rest hn =>
    rw [layoutLength, hn] at h
    exact absurd rfl h
  | case5 c rest hline hblock hc => exact ⟨[c], rest, rfl, rfl, .inl (.blank hc .nil)⟩
  | case6 c rest hline hblock hc =>
    rw [layoutLength, if_neg hc] at h
    · exact absurd rfl h
    · exact hline
    · exact hblock

/-- **What is skipped before a token is layout.** -/
theorem exists_layout_of_skipLayout {c : Cursor} (h : c.skipLayout.rest ≠ []) :
    ∃ gap, IsLayout gap ∧ c.rest = gap ++ c.skipLayout.rest := by
  fun_induction Cursor.skipLayout c with
  | case1 c hzero => exact ⟨[], .nil, rfl⟩
  | case2 c hzero hless ih =>
    obtain ⟨gap, hgap, hrest⟩ := ih h
    have hstop := layoutLength_skipLayout (c.advance (layoutLength c.rest))
    obtain ⟨piece, rest, htext, hlength, hpiece⟩ := layoutLength_spec hzero
    have hadvance : (c.advance (layoutLength c.rest)).rest = rest := by
      rw [Cursor.advance, hlength, htext, List.drop_left]
    generalize (c.advance (layoutLength c.rest)).skipLayout.rest = stop at *
    obtain hpiece | ⟨body, hbody, rfl, hend⟩ := hpiece
    · refine ⟨piece ++ gap, hpiece.append hgap, ?_⟩
      rw [htext, ← hadvance, hrest, List.append_assoc]
    · -- a line feed ends the comment, or else nothing would be left
      obtain rfl | ⟨more, rfl⟩ := hend
      · simp [hadvance, h] at hrest
      · rw [hadvance] at hrest
        cases hgap with
        | nil =>
          rw [List.nil_append] at hrest
          rw [← hrest, layoutLength_blank rfl] at hstop
          cases hstop
        | @blank d gap _ hgap =>
          obtain ⟨rfl, rfl⟩ := List.cons.inj hrest
          exact ⟨_, .lineComment hbody hgap, by simp [htext]⟩
        | lineComment | blockComment => cases hrest

end RhoScript.Source
