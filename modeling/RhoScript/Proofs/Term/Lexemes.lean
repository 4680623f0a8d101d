import RhoScript.Proofs.Source.Strings
import RhoScript.Term.Layout

/-!
# The lexemes of a text

The text of a term consists of words, strings between double quotes, resources between backticks, and
marks; blanks and line ends only keep words apart. A reader of such a text is a machine that takes one
code point after another (`step`) and gives a lexeme whenever one has ended.

Main statement: if commands are told to a printer so that words do not touch, then what the printer
writes has the lexemes of the single commands, at every depth of indentation (`Writes`).
-/

namespace RhoScript

open Printer

/-- A piece of a text. -/
inductive Lexeme where
  | word (letters : WideString)
  /-- What stands between double quotes, with its escapes. -/
  | quoted (letters : WideString)
  /-- What stands between backticks. -/
  | resource (letters : WideString)
  | mark (c : Char)
deriving DecidableEq

namespace Lexeme

theorem eq_of_word_eq {x y : String} (h : word x = word y) : x = y :=
  WideString.ofString_injective (word.inj h)

/-! ### The reader -/

/-- Where a reader stands: between lexemes, or inside of one with the letters so far. -/
inductive Mode where
  | between
  | word (letters : WideString)
  | quoted (letters : WideString)
  /-- After a backslash between double quotes. -/
  | escaped (letters : WideString)
  | resource (letters : WideString)

/-- The characters that only keep words apart. -/
def blanks : List Char := [' ', '\n']

/-- The characters that are lexemes by themselves. -/
def marks : List Char := ['(', ')', '\x7b', '\x7d', '[', ']', ',', ';', ':', '!', '*', '@']

/-- A character of words: any but blanks, marks, quotes and backticks. -/
def isLetter (c : Char) : Bool := c ∉ blanks ++ marks ++ ['"', '\x60']

/-- A code point that a reader takes between lexemes. -/
def start : CodePoint → Mode × List Lexeme
  | .char c =>
    if c ∈ blanks then (.between, [])
    else if c ∈ marks then (.between, [.mark c])
    else if c = '"' then (.quoted [], [])
    else if c = '\x60' then (.resource [], [])
    else (.word [.char c], [])
  | .half n => (.word [.half n], [])

/-- Whether a word goes on with a code point. -/
def goesOn : CodePoint → Bool
  | .char c => isLetter c
  | .half _ => true

/-- A code point that a reader takes, where it stands then, and the lexemes that have ended. -/
def step (m : Mode) (c : CodePoint) : Mode × List Lexeme :=
  match m with
  | .between => start c
  | .word letters =>
    if goesOn c then (.word (letters ++ [c]), [])
    else ((start c).1, .word letters :: (start c).2)
  | .quoted letters =>
    if c = .char '"' then (.between, [.quoted letters])
    else if c = .char '\\' then (.escaped letters, [])
    else (.quoted (letters ++ [c]), [])
  | .escaped letters => (.quoted (letters ++ [.char '\\', c]), [])
  | .resource letters =>
    if c = .char '\x60' then (.between, [.resource letters]) else (.resource (letters ++ [c]), [])

/-- The code points of a text that a reader takes. -/
def scan (m : Mode) : WideString → Mode × List Lexeme
  | [] => (m, [])
  | c :: rest => ((scan (step m c).1 rest).1, (step m c).2 ++ (scan (step m c).1 rest).2)

theorem scan_append (m : Mode) (xs ys : WideString) :
    scan m (xs ++ ys) = ((scan (scan m xs).1 ys).1, (scan m xs).2 ++ (scan (scan m xs).1 ys).2) := by
  induction xs generalizing m with
  | nil => rfl
  | cons c rest ih => simp [scan, ih]

/-- The lexemes of a text that has been taken to its end; a text may not end between quotes. -/
def settle : Mode × List Lexeme → Option (List Lexeme)
  | (.between, ls) => some ls
  | (.word letters, ls) => some (ls ++ [.word letters])
  | _ => none

/-- The lexemes of a text. -/
def ofText (text : WideString) : Option (List Lexeme) := settle (scan .between text)

theorem settle_append (m : Mode) (ls ms : List Lexeme) :
    settle (m, ls ++ ms) = (settle (m, ms)).map (ls ++ ·) := by
  cases m <;> simp [settle]

/-- The lexemes of a text before which a reader stands between lexemes. -/
theorem ofText_append_of_between {xs ys : WideString} {ls : List Lexeme}
    (h : scan .between xs = (.between, ls)) : ofText (xs ++ ys) = (ofText ys).map (ls ++ ·) := by
  rw [ofText, scan_append, h]
  exact settle_append _ _ _

/-! ### Words, strings and resources -/

/-- A text that is one word. -/
def IsWord (text : String) : Prop := text.toList ≠ [] ∧ ∀ c ∈ text.toList, isLetter c = true

instance (text : String) : Decidable (IsWord text) :=
  decidable_of_iff ((!text.toList.isEmpty && text.toList.all isLetter) = true) (by simp [IsWord])

/-- What no delimiter is makes letters. -/
theorem isLetter_of {P : Char → Bool} {c : Char} (hc : P c = true)
    (hP : (blanks ++ marks ++ ['"', '\x60']).all (fun d => !P d) = true) : isLetter c = true := by
  rw [isLetter, decide_eq_true_eq]
  intro hmem
  have hnot := List.all_eq_true.mp hP c hmem
  rw [hc] at hnot
  cases hnot

theorem start_letter {c : Char} (h : isLetter c = true) : start (.char c) = (.word [.char c], []) := by
  simp only [isLetter, List.mem_append, List.mem_cons, List.not_mem_nil, not_or,
    decide_eq_true_eq] at h
  obtain ⟨⟨hblank, hmark⟩, hquote, htick, -⟩ := h
  simp [start, hblank, hmark, hquote, htick]

theorem scan_letters {text : List Char} (h : ∀ c ∈ text, isLetter c = true) (letters : WideString) :
    scan (.word letters) (text.map .char) = (.word (letters ++ text.map .char), []) := by
  induction text generalizing letters with
  | nil => simp [scan]
  | cons c rest ih =>
    obtain ⟨hc, hrest⟩ := List.forall_mem_cons.mp h
    simp [scan, step, goesOn, hc, ih hrest]

theorem scan_word {text : String} (h : IsWord text) : scan .between text = (.word text, []) := by
  obtain ⟨hne, hletters⟩ := h
  unfold WideString.ofString
  cases htext : text.toList with
  | nil => exact absurd htext hne
  | cons c rest =>
    rw [htext] at hletters
    obtain ⟨hc, hrest⟩ := List.forall_mem_cons.mp hletters
    simp [scan, step, start_letter hc, scan_letters hrest]

theorem scan_blanks (n : Nat) : scan .between (List.replicate n (.char ' ')) = (.between, []) := by
  induction n with
  | zero => rfl
  | succ n ih =>
    rw [List.replicate_succ, scan, show step .between (.char ' ') = (.between, []) from rfl, ih]
    rfl

theorem scan_plain {text : List Char} (h : ∀ c ∈ text, Source.IsPlain c) (letters : WideString) :
    scan (.quoted letters) (text.map .char) = (.quoted (letters ++ text.map .char), []) := by
  induction text generalizing letters with
  | nil => simp [scan]
  | cons c rest ih =>
    obtain ⟨⟨hquote, hslash, -⟩, hrest⟩ := List.forall_mem_cons.mp h
    simp [scan, step, hquote, hslash, ih hrest]

theorem scan_escape (c : Char) (letters : WideString) : scan (.quoted letters) ((Ground.escape c).map .char) =
    (.quoted (letters ++ (Ground.escape c).map .char), []) := by
  obtain ⟨heq, hc⟩ | ⟨l, heq, -⟩ | ⟨i, j, k, l, heq, -, -, hplain⟩ := Source.escape_cases c
  · rw [heq]
    exact scan_plain (List.forall_mem_singleton.mpr hc) letters
  · rw [heq]
    rfl
  · have hescaped : scan (.quoted letters) (['\\', 'u'].map .char) =
        (.quoted (letters ++ ['\\', 'u'].map .char), []) := rfl
    rw [heq, show ['\\', 'u', i, j, k, l] = ['\\', 'u'] ++ [i, j, k, l] from rfl, List.map_append,
      scan_append, hescaped, scan_plain hplain]
    simp

theorem scan_escapePoint (p : CodePoint) (letters : WideString) :
    scan (.quoted letters) (Ground.escapePoint p) = (.quoted (letters ++ Ground.escapePoint p), []) := by
  cases p with
  | char c => exact scan_escape c letters
  | half n => rfl

theorem scan_flatMap_escapePoint (text letters : WideString) :
    scan (.quoted letters) (text.flatMap Ground.escapePoint) =
      (.quoted (letters ++ text.flatMap Ground.escapePoint), []) := by
  induction text generalizing letters with
  | nil => simp [scan]
  | cons c rest ih => simp [scan_append, scan_escapePoint, ih]

theorem scan_quotedText (s : WideString) :
    scan .between (Ground.quotedText s) = (.between, [.quoted (s.flatMap Ground.escapePoint)]) := by
  rw [Ground.quotedText, List.cons_append, scan, scan_append]
  rw [show step .between (.char '"') = (.quoted [], []) from rfl, scan_flatMap_escapePoint]
  rfl

theorem scan_resource {text : WideString} (h : .char '\x60' ∉ text) (letters : WideString) :
    scan (.resource letters) text = (.resource (letters ++ text), []) := by
  induction text generalizing letters with
  | nil => simp [scan]
  | cons c rest ih =>
    simp only [List.mem_cons, not_or] at h
    simp [scan, step, Ne.symm h.1, ih h.2]

end Lexeme

/-! ### Commands -/

namespace Printer

/-- The text that a command writes at a depth. -/
def Command.chars (indent : Int) (c : Command) : WideString := (c.pieces indent).flatten

section Chars

variable (indent : Int) (text : WideString)

@[simp] theorem Command.chars_print : (Command.print text).chars indent = text := by
  simp [chars, pieces]

@[simp] theorem Command.chars_enter :
    (Command.enter text).chars indent = text ++ line (indent + 1) := by
  simp [chars, pieces]

@[simp] theorem Command.chars_newline : Command.newline.chars indent = line indent := by
  simp [chars, pieces]

@[simp] theorem Command.chars_leave :
    (Command.leave text).chars indent = line indent ++ (text ++ line (indent - 1)) := by
  simp [chars, pieces]

end Chars

/-- The text that commands write from a depth on. -/
def written (indent : Int) : List Command → WideString
  | [] => []
  | c :: rest => c.chars indent ++ written (c.after indent) rest

theorem written_append (indent : Int) (xs ys : List Command) :
    written indent (xs ++ ys) = written indent xs ++ written (xs.foldl Command.after indent) ys := by
  induction xs generalizing indent with
  | nil => rfl
  | cons c rest ih => simp [written, ih]

/-- A printer writes what its commands write, if nothing is stuck. -/
theorem run_eq_written (p : Printer) {cs : List Command} (h : (p.run cs).2 = none) :
    (∀ e, .stuck e ∉ cs) ∧ (p.run cs).1.text = p.text ++ written p.indent cs := by
  induction cs generalizing p with
  | nil => simp [run, written]
  | cons c rest ih =>
    cases c with
    | stuck e => cases h
    | print text | enter text | newline | leave text =>
      obtain ⟨hstuck, htext⟩ := ih _ h
      refine ⟨by simpa using hstuck, ?_⟩
      rw [run, htext]
      simp [written, Command.after, print, newline, enter, leave]

/-- The lexemes of a command by itself. Where nothing can be written stands a word that no text has. -/
def Command.lexemes : Command → List Lexeme
  | .print text | .enter text | .leave text => (Lexeme.ofText text).getD []
  | .newline => []
  | .stuck _ => [.word []]

open Lexeme

/-- After the command a reader stands between lexemes. -/
def Command.Ends (c : Command) : Prop :=
  ∀ indent, scan .between (c.chars indent) = (.between, c.lexemes)

/-- The command ends the word before it, and after it a reader stands between lexemes. -/
def Command.Breaks (c : Command) : Prop :=
  c.Ends ∧ ∀ indent letters,
    scan (.word letters) (c.chars indent) = (.between, .word letters :: c.lexemes)

theorem line_eq (indent : Int) :
    line indent = .char '\n' :: List.replicate (2 * indent).toNat (.char ' ') := by
  simp [line, margin, WideString.ofString]

theorem scan_line (indent : Int) : scan .between (line indent) = (.between, []) := by
  rw [line_eq, scan, show step .between (.char '\n') = (.between, []) from rfl, scan_blanks]
  rfl

theorem breaks_newline : Command.newline.Breaks := by
  refine ⟨fun indent => ?_, fun indent letters => ?_⟩
  · rw [Command.chars_newline, scan_line, Command.lexemes]
  · have hstep : step (.word letters) (.char '\n') = (.between, [.word letters]) := rfl
    rw [Command.chars_newline, line_eq, scan, hstep, scan_blanks]
    rfl

theorem ends_print {text : WideString} {ls : List Lexeme} (h : scan .between text = (.between, ls)) :
    (Command.print text).Ends := by
  intro indent
  simp [Command.lexemes, ofText, settle, h]

theorem ends_enter {text : WideString} (h : (Command.print text).Ends) : (Command.enter text).Ends := by
  intro indent
  have htext := h indent
  rw [Command.chars_print] at htext
  rw [Command.chars_enter, scan_append, htext, scan_line]
  simp [Command.lexemes]

theorem breaks_enter {text : WideString} (h : (Command.print text).Breaks) :
    (Command.enter text).Breaks := by
  refine ⟨ends_enter h.1, fun indent letters => ?_⟩
  have htext := h.2 indent letters
  rw [Command.chars_print] at htext
  rw [Command.chars_enter, scan_append, htext, scan_line]
  simp [Command.lexemes]

theorem breaks_leave {text : WideString} (h : (Command.print text).Ends) :
    (Command.leave text).Breaks := by
  have htext := h 0
  rw [Command.chars_print] at htext
  constructor
  · intro indent
    rw [Command.chars_leave, scan_append, scan_line, scan_append, htext, scan_line]
    simp [Command.lexemes]
  · intro indent letters
    have hline := breaks_newline.2 indent letters
    rw [Command.chars_newline] at hline
    rw [Command.chars_leave, scan_append, hline, scan_append, htext, scan_line]
    simp [Command.lexemes]

/-! ### Commands in a row -/

/-- What the commands write has their lexemes at every depth, unless one of them is stuck. -/
def Writes (cs : List Command) : Prop :=
  (∀ e, .stuck e ∉ cs) →
    ∀ indent, ofText (written indent cs) = some (cs.flatMap Command.lexemes)

theorem writes_nil : Writes [] := fun _ _ => rfl

theorem writes_word {text : String} (h : IsWord text) : Writes [.print text] := by
  intro _ indent
  simp [written, Command.lexemes, ofText, settle, scan_word h]

theorem writes_stuck (e : RenderError) : Writes [.stuck e] :=
  fun h => absurd List.mem_cons_self (h e)

theorem Writes.cons {c : Command} {cs : List Command} (hc : c.Ends) (h : Writes cs) :
    Writes (c :: cs) := by
  intro hstuck indent
  have hcs := h (fun e he => hstuck e (List.mem_cons_of_mem c he)) (c.after indent)
  rw [written, ofText_append_of_between (hc indent), hcs]
  rfl

/-- Commands with one between them that keeps their words apart. -/
theorem Writes.append_cons {c : Command} {xs ys : List Command} (hx : Writes xs) (hc : c.Breaks)
    (hy : Writes ys) : Writes (xs ++ c :: ys) := by
  intro hstuck indent
  have hxs := hx (fun e he => hstuck e (List.mem_append_left _ he)) indent
  have hys := hy (fun e he => hstuck e (List.mem_append_right _ (List.mem_cons_of_mem c he)))
    (c.after (xs.foldl Command.after indent))
  -- Whether the commands before it end with a word or not, after this one nothing is open.
  have hc' : scan .between (written indent xs ++ c.chars (xs.foldl Command.after indent)) =
      (.between, xs.flatMap Command.lexemes ++ c.lexemes) := by
    unfold ofText at hxs
    rcases hscan : scan .between (written indent xs) with ⟨m, ls⟩
    rw [hscan] at hxs
    cases m with
    | between => rw [scan_append, hscan, hc.1, ← Option.some.inj hxs]
    | word letters =>
      rw [scan_append, hscan, hc.2, ← Option.some.inj hxs, List.append_assoc]
      rfl
    | quoted | escaped | resource => cases hxs
  rw [written_append, written, ← List.append_assoc, ofText_append_of_between hc', hys,
    List.flatMap_append, List.flatMap_cons, Option.map_some, List.append_assoc]

/-- What is written up to a command that keeps words apart. -/
theorem Writes.append_singleton {c : Command} {xs : List Command} (h : Writes xs) (hc : c.Breaks) :
    Writes (xs ++ [c]) :=
  h.append_cons hc writes_nil

end Printer

end RhoScript
