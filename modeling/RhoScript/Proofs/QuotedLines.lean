import Mathlib.Data.List.TakeWhile
import RhoScript.Proofs.Compile
import RhoScript.Proofs.Source.Faithful
import RhoScript.Proofs.Source.ViablePrefix

/-!
# The quoted line

Two counts of lines meet in a report. Positions count line feeds, so that the offending line reaches from
one line feed to the next; what is quoted is a line between two boundaries of any kind. The counts agree
up to a line if the lines before it are unbroken (`Text.Unbroken`), that is if no boundary stands in them
but a carriage return before the line feed.

Main statement: a report with a line number quotes the line of that number in the count of all
boundaries. After unbroken lines that is the offending line up to its first boundary, and it is the whole
of it, without the blanks around it, exactly if only blanks follow (`context_eq_line_iff`). A carriage
return in front of what is at fault hides it (`carriage_return_hides_line`).
-/

namespace RhoScript

namespace Text

/-! ### Trimmed texts -/

/-- Trimming takes away nothing but blanks. -/
theorem filter_trim (text : List Char) :
    (trim text).filter (!isBlank ·) = text.filter (!isBlank ·) := by
  have hdrop : ∀ l : List Char, (l.dropWhile isBlank).filter (!isBlank ·) = l.filter (!isBlank ·) := by
    intro l
    induction l with
    | nil => rfl
    | cons c rest ih => by_cases hc : isBlank c = true <;> simp [hc, ih]
  rw [trim, List.filter_reverse, hdrop, List.filter_reverse, List.reverse_reverse, hdrop]

/-- What stands at the end of a text is trimmed away exactly if it is blank. -/
theorem trim_eq_trim_append_iff (u v : List Char) :
    trim u = trim (u ++ v) ↔ ∀ c ∈ v, isBlank c = true := by
  constructor
  · -- the trimmed texts have the same other characters
    intro h
    have hfilter := congrArg (List.filter (!isBlank ·)) h
    rw [filter_trim, filter_trim, List.filter_append, List.self_eq_append_right] at hfilter
    simpa using hfilter
  · intro h
    have hreverse : ∀ c ∈ v.reverse, isBlank c = true := fun c hc => h c (List.mem_reverse.mp hc)
    have hv : v.dropWhile isBlank = [] := List.dropWhile_eq_nil_iff.mpr h
    rw [trim, trim, List.dropWhile_append]
    split
    · rename_i hu
      rw [List.isEmpty_iff.mp hu, hv]
    · rw [List.reverse_append, List.dropWhile_append_of_pos hreverse]

/-! ### Lines -/

theorem lines_cons {c : Char} (h : isLineBreak c = false) (rest : List Char) :
    lines (c :: rest) = (c :: (lines rest).headD []) :: (lines rest).tail := by
  have hc : c ≠ '\r' := by
    rintro rfl
    cases h
  rw [lines]
  · rw [h]
    rcases lines rest with _ | ⟨line, more⟩ <;> rfl
  · rintro _ rfl
    exact absurd rfl hc

theorem lines_feed (rest : List Char) : lines ('\n' :: rest) = [] :: lines rest := by
  rw [lines]
  · rfl
  · rintro _ ⟨⟩

/-- A boundary ends a line, unless it makes one boundary with a line feed after it. -/
theorem lines_boundary {c : Char} (h : isLineBreak c = true) (rest : List Char) :
    lines (c :: rest) = [] :: lines rest ∨
      ∃ more, rest = '\n' :: more ∧ lines (c :: rest) = [] :: lines more := by
  by_cases hpair : c = '\r' ∧ ∃ more, rest = '\n' :: more
  · obtain ⟨rfl, more, rfl⟩ := hpair
    exact .inr ⟨more, rfl, rfl⟩
  · refine .inl ?_
    rw [lines]
    · rw [h]
      rfl
    · intro more hc hrest
      exact hpair ⟨hc, more, hrest⟩

/-- A line reaches up to its boundary. -/
theorem lines_append {body tail : List Char} {more : List (List Char)}
    (hbody : ∀ c ∈ body, isLineBreak c = false) (htail : lines tail = [] :: more) :
    lines (body ++ tail) = body :: more := by
  induction body with
  | nil => exact htail
  | cons c rest ih =>
    obtain ⟨hc, hrest⟩ := List.forall_mem_cons.mp hbody
    rw [List.cons_append, lines_cons hc, ih hrest]
    rfl

/-- No boundary stands in a line but a carriage return at its end. -/
def Unbroken (line : List Char) : Prop :=
  ∃ body, (∀ c ∈ body, isLineBreak c = false) ∧ (line = body ∨ line = body ++ ['\r'])

/-- An unbroken line is the first of a text, and the others follow its line feed. -/
theorem Unbroken.lines_append_feed {line : List Char} (h : Unbroken line) (rest : List Char) :
    ∃ body, lines (line ++ '\n' :: rest) = body :: lines rest := by
  obtain ⟨body, hbody, rfl | rfl⟩ := h
  · exact ⟨_, lines_append hbody (lines_feed rest)⟩
  · rw [List.append_assoc]
    exact ⟨body, lines_append hbody rfl⟩

/-- The first line of a text reaches up to the first boundary. -/
theorem head?_lines {text : List Char} (h : text ≠ []) :
    (lines text).head? = some (text.takeWhile (!isLineBreak ·)) := by
  induction text with
  | nil => exact absurd rfl h
  | cons c rest ih =>
    by_cases hc : isLineBreak c = true
    · rw [List.takeWhile_cons_of_neg (by simpa using hc)]
      rcases lines_boundary hc rest with hlines | ⟨more, -, hlines⟩ <;> rw [hlines] <;> rfl
    · have hc : isLineBreak c = false := by simpa using hc
      rw [lines_cons hc, List.takeWhile_cons_of_pos (by simpa using hc)]
      by_cases hrest : rest = []
      · subst hrest
        rfl
      · rw [List.head?_cons, List.headD_eq_head?_getD, ih hrest]
        rfl

theorem length_lines_le_cons (c : Char) (rest : List Char) :
    (lines rest).length ≤ (lines (c :: rest)).length := by
  by_cases hc : isLineBreak c = true
  · rcases lines_boundary hc rest with hlines | ⟨more, rfl, hlines⟩
    · rw [hlines, List.length_cons]
      exact Nat.le_succ _
    · rw [hlines, lines_feed]
  · rw [lines_cons (by simpa using hc), List.length_cons, List.length_tail]
    omega

/-- A text has a line for each line feed, and another one for what follows. -/
theorem count_lt_length_lines (before : List Char) {after : List Char} (h : after ≠ []) :
    before.count '\n' < (lines (before ++ after)).length := by
  induction before with
  | nil =>
    have hhead := head?_lines h
    rw [List.head?_eq_some_iff] at hhead
    obtain ⟨more, hmore⟩ := hhead
    rw [List.nil_append, hmore]
    exact Nat.succ_pos _
  | cons c rest ih =>
    by_cases hc : c = '\n'
    · subst hc
      rw [List.cons_append, lines_feed, List.count_cons_self, List.length_cons]
      omega
    · rw [List.cons_append, List.count_cons_of_ne hc]
      exact ih.trans_le (length_lines_le_cons c _)

/-- The first line that positions count begins with the first line of the text. -/
theorem head?_splitOn (text : List Char) :
    ∃ line, (text.splitOn '\n').head? = some line ∧
      line.takeWhile (!isLineBreak ·) = text.takeWhile (!isLineBreak ·) := by
  by_cases hfeed : '\n' ∈ text
  · obtain ⟨line, rest, rfl, hline⟩ := List.eq_append_cons_of_mem hfeed
    refine ⟨line, by rw [List.splitOn_append_cons_self_of_not_mem hline]; rfl, ?_⟩
    rw [List.takeWhile_append]
    split
    · rename_i hlength
      rw [(List.takeWhile_prefix _).eq_of_length hlength, List.takeWhile_cons_of_neg (by decide),
        List.append_nil]
    · rfl
  · exact ⟨text, by rw [List.splitOn_eq_singleton hfeed]; rfl, rfl⟩

/-- **The line at a place**: after as many line feeds there is another line, and if the lines before it are
unbroken, then as many lines of the text go before its beginning. -/
theorem line_at {before after : List Char} (hafter : after ≠ []) :
    ∃ line, ((before ++ after).splitOn '\n')[before.count '\n']? = some line ∧
      ((∀ l ∈ ((before ++ after).splitOn '\n').take (before.count '\n'), Unbroken l) →
        (lines (before ++ after))[before.count '\n']? = some (line.takeWhile (!isLineBreak ·))) := by
  -- by induction on the line feeds before the place, where the first of them ends the first line
  induction hcount : before.count '\n' generalizing before with
  | zero =>
    obtain ⟨line, hline, htake⟩ := head?_splitOn (before ++ after)
    refine ⟨line, by rw [← List.head?_eq_getElem?, hline], fun _ => ?_⟩
    have hne : before ++ after ≠ [] := by simp [hafter]
    rw [← List.head?_eq_getElem?, head?_lines hne, htake]
  | succ k ih =>
    have hfeed : '\n' ∈ before := List.count_pos_iff.mp (by omega)
    obtain ⟨first, rest, rfl, hfirst⟩ := List.eq_append_cons_of_mem hfeed
    rw [List.count_append, List.count_eq_zero.mpr hfirst, List.count_cons_self] at hcount
    obtain ⟨line, hline, hlines⟩ := @ih rest (by omega)
    rw [List.append_assoc, List.cons_append, List.splitOn_append_cons_self_of_not_mem hfirst]
    refine ⟨line, hline, fun hwhole => ?_⟩
    rw [List.take_succ_cons] at hwhole
    obtain ⟨hhead, htail⟩ := List.forall_mem_cons.mp hwhole
    obtain ⟨body, hbody⟩ := hhead.lines_append_feed (rest ++ after)
    rw [hbody]
    exact hlines htail

end Text

namespace Source

open Position Text

/-! ### Places in a source -/

/-- At the position there is text of the source. -/
def IsPlaceIn (source : String) (p : Position) : Prop :=
  ∃ before after, source.toList = before ++ after ∧ after ≠ [] ∧ p = ofText before

theorem Token.StandsIn.isPlaceIn {source : String} {before : List Char} {token : Token}
    (h : token.StandsIn source before) : IsPlaceIn source token.start := by
  obtain ⟨rest, hsource⟩ := h.source_eq
  refine ⟨before, token.text.toList ++ rest, by rw [hsource, List.append_assoc], ?_, h.start_eq⟩
  simp [h.nonempty]

/-- The parser stops at text of the source. -/
theorem isPlaceIn_of_parseProgram {source : String} {p : Position}
    (h : parseProgram source = .error p) : IsPlaceIn source p := by
  obtain ⟨ls, place, c, -, -, hpasses, hstart, -⟩ := isBlameless_of_parseProgram h
  obtain ⟨before, hc⟩ := hpasses.isAt (Cursor.isAt_start source)
  rcases hstart with ⟨token, c', hread, rfl⟩ | hread
  · obtain ⟨blank, htoken, -⟩ := standsIn_of_read hc hread
    exact htoken.isPlaceIn
  · obtain ⟨hne, rfl⟩ := position_of_read_error hread
    obtain ⟨blank, hsource, hposition⟩ := hc.skipLayout
    exact ⟨_, _, hsource, hne, hposition⟩

/-- **The lines at a place**: both counts have a line of its number. -/
theorem IsPlaceIn.exists_lines {source : String} {p : Position} (h : IsPlaceIn source p) :
    ∃ (i : Nat) (line quoted : List Char), p.line = i + 1 ∧
      (source.toList.splitOn '\n')[i]? = some line ∧ (lines source.toList)[i]? = some quoted ∧
      ((∀ l ∈ (source.toList.splitOn '\n').take i, Unbroken l) →
        quoted = line.takeWhile (!isLineBreak ·)) := by
  obtain ⟨before, after, hsource, hafter, rfl⟩ := h
  obtain ⟨line, hline, hunbroken⟩ := @line_at before after hafter
  have hlength := count_lt_length_lines before hafter
  rw [hsource]
  refine ⟨_, line, _, Int.add_comm _ _, hline, List.getElem?_eq_getElem hlength, fun hlines => ?_⟩
  have hquoted := hunbroken hlines
  rw [List.getElem?_eq_getElem hlength] at hquoted
  exact Option.some.inj hquoted

end Source

namespace Compile

open Lowering Source Text

/-! ### Reports -/

/-- The report gives a line where there is text of the source, and quotes the line of that number. -/
def Quotes (source : String) (report : CompileError) : Prop :=
  ∃ p, IsPlaceIn source p ∧ report.line = some p.line ∧ report.context = line? source p.line

/-- Lowering rejects a source at the start of one of its nodes. -/
theorem quotes_of_lowerTree {source : String} {tree : Node} {reason : CompileError} {ledger : Ledger}
    (hread : readProgram source = .ok tree)
    (hrun : ExceptT.run (lowerTree tree) {} = (.error (.rejected reason), ledger)) :
    Quotes source (reason.withContext source) := by
  have hchildren : tree.children ≠ [] := by
    -- an empty program is lowered
    obtain ⟨⟨loc, body, rfl⟩, -⟩ := wellShaped_of_readProgram hread
    intro hempty
    obtain rfl : body = [] := hempty
    cases hrun
  obtain ⟨m, hm, hline, -, hcontext⟩ := cited_of_lowerTree hrun
  obtain ⟨token, before, htoken, hposition⟩ := standsIn_of_mem_nodes hread hchildren hm
  refine ⟨m.position, hposition ▸ htoken.isPlaceIn, ?_, ?_⟩
  · rw [CompileError.withContext, hcontext]
    exact hline
  · rw [CompileError.withContext, hcontext, hline]
    rfl

/-- A report on a source that gives a line quotes a line. -/
theorem quotes_of_toProcess {path source : String} {report : CompileError} {number : Int}
    (h : (toProcess .source path source).2 = .error (.rejected report))
    (hnumber : report.line = some number) : Quotes source report := by
  rcases reason_of_toProcess h with hread | ⟨tree, reason, ledger, hread, hrun, rfl⟩
  · unfold readProgram at hread
    split at hread
    · rename_i p hparse
      cases hread
      exact ⟨p, isPlaceIn_of_parseProgram hparse, rfl, rfl⟩
    · split at hread
      · cases hread
        cases hnumber
      · cases hread
  · exact quotes_of_lowerTree hread hrun

/-- **The quoted line**: a report on a source that gives a line quotes the line of that number, in the
count of all boundaries and without the blanks around it. After unbroken lines it quotes the offending
line up to the first boundary in it, and so all of that line exactly if only blanks follow. -/
theorem context_eq_line_iff {path source : String} {report : CompileError} {number : Int}
    (h : (toProcess .source path source).2 = .error (.rejected report))
    (hnumber : report.line = some number) :
    ∃ (i : Nat) (line quoted : List Char), number = i + 1 ∧
      (source.toList.splitOn '\n')[i]? = some line ∧ (lines source.toList)[i]? = some quoted ∧
      report.context = some (String.ofList (trim quoted)) ∧
      ((∀ l ∈ (source.toList.splitOn '\n').take i, Unbroken l) →
        quoted = line.takeWhile (!isLineBreak ·) ∧
        (report.context = some (String.ofList (trim line)) ↔
          ∀ c ∈ line.dropWhile (!isLineBreak ·), isBlank c = true)) := by
  obtain ⟨p, hplace, hline, hcontext⟩ := quotes_of_toProcess h hnumber
  obtain rfl : number = p.line := Option.some.inj (hnumber.symm.trans hline)
  obtain ⟨i, line, quoted, hi, hfed, hquoted, hunbroken⟩ := hplace.exists_lines
  have hcites : report.context = some (String.ofList (trim quoted)) := by
    have hpositive : ¬ p.line < 1 := by omega
    have hindex : (p.line - 1).toNat = i := by omega
    rw [hcontext, line?, if_neg hpositive, hindex, hquoted]
    rfl
  refine ⟨i, line, quoted, hi, hfed, hquoted, hcites, fun hlines => ⟨hunbroken hlines, ?_⟩⟩
  have hsplit : line = quoted ++ line.dropWhile (!isLineBreak ·) := by
    rw [hunbroken hlines, List.takeWhile_append_dropWhile]
  rw [hcites, Option.some.injEq, String.ofList_inj, ← trim_eq_trim_append_iff quoted, ← hsplit]

/-- The mark is at fault on a line after one that ends in two boundaries, and before a form feed: it is
quoted by itself. -/
theorem mark_quoted : ∃ report,
    (toProcess .source "<input>" "f();\r\n @ \x0c").2 = .error (.rejected report) ∧
    report.line = some 2 ∧ report.context = some "@" := by
  have hstop : rejectedWithin 100 "f();\r\n @ \x0c" = some ⟨2, 1⟩ := by decide +kernel
  have hreject := @toProcess_of_error "<input>" _ _ (readProgram_eq_of_rejectedWithin hstop)
  obtain ⟨i, line, quoted, hi, hline, -, -, hcontext⟩ := context_eq_line_iff hreject rfl
  obtain rfl : i = 1 := by
    have hi : (2 : Int) = i + 1 := hi
    omega
  obtain rfl : [' ', '@', ' ', '\x0c'] = line := Option.some.inj hline
  have hunbroken : Unbroken ['f', '(', ')', ';', '\r'] :=
    ⟨['f', '(', ')', ';'], by simp [isLineBreak], .inr rfl⟩
  refine ⟨_, hreject, rfl, (hcontext ?_).2.mpr ?_⟩
  · exact List.forall_mem_singleton.mpr hunbroken
  · exact List.all_eq_true.mp (by decide)

/-- The mark is at fault and its line is not quoted, since a carriage return stands before it. -/
theorem carriage_return_hides_line : ∃ report,
    (toProcess .source "<input>" "\r@").2 = .error (.rejected report) ∧ report.line = some 1 ∧
    "\r@".toList.splitOn '\n' = [['\r', '@']] ∧ String.ofList (trim ['\r', '@']) = "@" ∧
    report.context = some "" := by
  have hstop : rejectedWithin 100 "\r@" = some ⟨1, 1⟩ := by decide +kernel
  have hreject := @toProcess_of_error "<input>" _ _ (readProgram_eq_of_rejectedWithin hstop)
  exact ⟨_, hreject, rfl, by decide, by decide, by decide⟩

end Compile

end RhoScript
