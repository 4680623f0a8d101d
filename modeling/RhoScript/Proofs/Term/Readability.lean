import RhoScript.Proofs.Term.Forms
import RhoScript.Proofs.Term.Phrases

/-!
# Reading terms back

What is written for a term can be read in one way only, up to grouping. Operands of data begin and end
by themselves, while data stops where no operator follows it, and an action where no other action stands
beside it.

Main statement: actions that are written by the same lexemes are alike (`IsAction.alike_of_lexemes`).
-/

namespace RhoScript

open Printer Lexeme

/-! ### The phrases of terms -/

/-- Data that no operator joins. -/
def IsOperand (p : Process) : Prop := IsData p ∧ ∀ o a b, p ≠ .binary o a b

/-- An action that does not stand beside another. -/
def IsThread (p : Process) : Prop := IsAction p ∧ ∀ a b, p ≠ .par a b

def operand : Phrase Process := .processes IsOperand fun _ => True

def datum : Phrase Process := .processes IsData fun l => ∀ o ∈ operators, l ≠ .word o

def thread : Phrase Process := .processes IsThread fun l => l = .word ['|'] ∨ l = .mark '\x7d'

def action : Phrase Process := .processes IsAction fun l => l = .mark '\x7d'

def entry : Phrase (WideString × Process) where
  lexemes e := (layoutEntry e).flatMap Command.lexemes
  Valid e := IsData e.2
  Stops := datum.Stops
  Same e f := e.1 = f.1 ∧ Alike e.2 f.2

def pattern : Phrase Name where
  lexemes n := n.layout.flatMap Command.lexemes
  Valid := IsPattern
  Stops _ := True
  Same := AlikeName

def clause : Phrase (List Name × Name) where
  lexemes c := (layoutClause c).flatMap Command.lexemes
  Valid := IsClause
  Stops _ := True
  Same c d := c.1.length = d.1.length ∧ (∀ y ∈ c.1.zip d.1, AlikeName y.1 y.2) ∧ AlikeName c.2 d.2

def branch : Phrase (Process × Process) where
  lexemes c := (layoutCase c).flatMap Command.lexemes
  Valid c := IsData c.1 ∧ IsAction c.2
  Stops _ := True
  Same c d := Alike c.1 d.1 ∧ Alike c.2 d.2

def binding : Phrase Binding where
  lexemes b := (Command.print b.text).lexemes
  Valid := Binding.IsSpelled
  Stops l := l ≠ .mark '('
  Same := Eq

theorem operand_lexemes (p : Process) : operand.lexemes p = p.lexemes := rfl

theorem thread_lexemes (p : Process) : thread.lexemes p = p.lexemes := rfl

/-! ### The lexemes of terms -/

theorem lexemes_word {x : String} (h : IsWord x) : (Command.print x).lexemes = [.word x] := by
  simp [Command.lexemes, ofText, settle, scan_word h]

theorem lexemes_row {α : Type} {P : Phrase α} {c : Command} {separator : Lexeme}
    (hc : c.lexemes = [separator]) {f : α → List Command}
    (hP : P.lexemes = fun x => (f x).flatMap Command.lexemes) (xs : List α) :
    (row c (xs.map f)).flatMap Command.lexemes = P.row separator xs := by
  induction xs with
  | nil => rfl
  | cons x rest ih =>
    cases rest with
    | nil => simp [row, Phrase.row, hP]
    | cons y rest =>
      simp only [List.map_cons] at ih
      simp [row, Phrase.row, hP, hc, ih, Phrase.after]

theorem lexemes_commas {α : Type} (P : Phrase α) {f : α → List Command}
    (hP : P.lexemes = fun x => (f x).flatMap Command.lexemes) (xs : List α) :
    (row (.print ", ") (xs.map f)).flatMap Command.lexemes = P.row (.mark ',') xs :=
  lexemes_row rfl hP xs

theorem lexemes_arguments (ps : List Process) :
    (row (.print ", ") (ps.map Process.layout)).flatMap Command.lexemes = datum.row (.mark ',') ps :=
  lexemes_commas datum rfl ps

theorem lexemes_patterns (ns : List Name) :
    (row (.print ", ") (ns.map Name.layout)).flatMap Command.lexemes = pattern.row (.mark ',') ns :=
  lexemes_commas pattern rfl ns

theorem lexemes_nil : Process.nil.lexemes = [.word "Nil"] := rfl

theorem lexemes_ground (v : Ground) : (Process.ground v).lexemes = v.layout.lexemes := by
  simp [Process.lexemes, Process.layout]

theorem lexemes_drop {x : String} (hx : IsName x) :
    (Process.drop (.var x)).lexemes = [.mark '*', .word x] := by
  simp only [Process.lexemes, Process.layout, Name.layout, List.flatMap_cons, lexemes_word hx.1]
  rfl

theorem lexemes_binary {o : String} (ho : o ∈ operators) (p q : Process) :
    (Process.binary o p q).lexemes = p.lexemes ++ .word o :: q.lexemes := by
  have hoperator : (Command.print (" " ++ o ++ " ")).lexemes = [.word o] := by
    simp only [operators, List.mem_cons, List.not_mem_nil, or_false] at ho
    obtain rfl | rfl | rfl := ho <;> rfl
  rw [Process.lexemes, Process.layout, List.flatMap_append, List.flatMap_cons, hoperator]
  rfl

theorem lexemes_unary (p : Process) : (Process.unary "bundle+" p).lexemes =
    .word "bundle+" :: .mark '\x7b' :: (p.lexemes ++ [.mark '\x7d']) := by
  simp only [Process.lexemes, Process.layout, List.flatMap_cons, List.flatMap_append,
    List.flatMap_nil, List.append_nil]
  rfl

theorem lexemes_tuple (ps : List Process) : (Process.tuple ps).lexemes =
    .mark '(' :: (datum.row (.mark ',') ps ++ [.mark ')']) := by
  rw [Process.lexemes, Process.layout, Process.layoutAll_eq, List.cons_append, List.flatMap_cons,
    List.flatMap_append, lexemes_arguments]
  rfl

theorem lexemes_map (es : List (WideString × Process)) : (Process.map es).lexemes =
    .mark '\x7b' :: (entry.row (.mark ',') es ++ [.mark '\x7d']) := by
  rw [Process.lexemes, Process.layout, Process.layoutEntries_eq, List.cons_append, List.flatMap_cons,
    List.flatMap_append, lexemes_commas entry (by rw [entry])]
  rfl

theorem lexemes_entry (e : WideString × Process) : entry.lexemes e =
    .quoted (e.1.flatMap Ground.escapePoint) :: .mark ':' :: e.2.lexemes := by
  have hkey : (Command.print (Ground.quotedText e.1)).lexemes =
      [.quoted (e.1.flatMap Ground.escapePoint)] := by
    simp [Command.lexemes, ofText, settle, scan_quotedText]
  simp only [entry, layoutEntry, List.flatMap_cons, hkey]
  rfl

theorem lexemes_var {x : String} (hx : IsName x) : pattern.lexemes (.var x) = [.word x] := by
  simp [pattern, Name.layout, lexemes_word hx.1]

theorem lexemes_quote (p : Process) : pattern.lexemes (.quote p) =
    .mark '@' :: .mark '\x7b' :: (p.lexemes ++ [.mark '\x7d']) := by
  simp only [pattern, Name.layout, Process.lexemes, List.cons_append, List.flatMap_cons,
    List.flatMap_append, List.flatMap_nil, List.append_nil]
  rfl

theorem lexemes_clause {ns : List Name} {x : String} (hx : IsName x) : clause.lexemes (ns, .var x) =
    pattern.row (.mark ',') ns ++ [.word "<-", .word x] := by
  simp only [clause, layoutClause, List.flatMap_append, lexemes_patterns]
  simp [Name.layout, lexemes_word hx.1]
  rfl

theorem lexemes_plain {x : String} (hx : IsName x) :
    binding.lexemes (.plain x) = [.word x] :=
  lexemes_word hx.1

theorem lexemes_resource {x : String} {uri : WideString} (hx : IsName x) (huri : .char '\x60' ∉ uri) :
    binding.lexemes (.resource x uri) =
      [.word x, .mark '(', .resource uri, .mark ')'] := by
  simp [binding, Command.lexemes, ofText, settle, scan_resource_text hx.1 huri]

theorem lexemes_bindings (bs : List Binding) :
    (Binding.layoutAll bs).flatMap Command.lexemes = binding.row (.mark ',') bs := by
  have hnext : ∀ b : Binding, b.layoutNext.flatMap Command.lexemes =
      (binding.after (.mark ',')).lexemes b := by
    intro b
    cases b <;> simp [Binding.layoutNext, Phrase.after, binding] <;> rfl
  cases bs with
  | nil => rfl
  | cons b rest => simp [Binding.layoutAll, Phrase.row, List.flatMap_assoc, hnext, binding]

theorem lexemes_case (c : Process × Process) : branch.lexemes c =
    c.1.lexemes ++ .word "=>" :: .mark '\x7b' :: (c.2.lexemes ++ [.mark '\x7d']) := by
  simp only [branch, layoutCase, Process.lexemes, List.cons_append, List.append_assoc,
    List.flatMap_append, List.flatMap_cons, List.flatMap_nil, List.append_nil]
  rfl

theorem lexemes_select (p : Process) (cs : List (Process × Process)) : (Process.select p cs).lexemes =
    .word "match" :: .mark '(' :: (p.lexemes ++ .mark ')' :: .mark '\x7b' ::
      (cs.flatMap branch.lexemes ++ [.mark '\x7d'])) := by
  simp only [Process.lexemes, Process.layout, Process.layoutCases_eq, List.cons_append,
    List.append_assoc, List.flatMap_append, List.flatMap_cons, List.flatMap_nil, List.append_nil,
    List.flatMap_assoc]
  rfl

theorem lexemes_send {x : String} (hx : IsName x) (ps : List Process) :
    (Process.send (.var x) ps).lexemes =
      .word x :: .mark '!' :: .mark '(' :: (datum.row (.mark ',') ps ++ [.mark ')']) := by
  simp only [Process.lexemes, Process.layout, Name.layout, Process.layoutAll_eq, List.cons_append,
    List.nil_append, List.flatMap_append, List.flatMap_cons, List.flatMap_nil, lexemes_word hx.1,
    lexemes_arguments]
  rfl

theorem lexemes_receive (cs : List (List Name × Name)) (p : Process) :
    (Process.receive cs p).lexemes =
      .word "for" :: .mark '(' :: (clause.row (.mark ';') cs ++ .mark ')' :: .mark '\x7b' ::
        (p.lexemes ++ [.mark '\x7d'])) := by
  simp only [Process.lexemes, Process.layout, Name.layoutClauses_eq, List.cons_append,
    List.append_assoc, List.flatMap_append, List.flatMap_cons, List.flatMap_nil,
    lexemes_row (P := clause) (c := .print "; ") rfl rfl]
  rfl

theorem lexemes_contract {x : String} (hx : IsName x) (ns : List Name) (p : Process) :
    (Process.contract (.var x) ns p).lexemes =
      .word "contract" :: .word x :: .mark '(' :: (pattern.row (.mark ',') ns ++
        .mark ')' :: .word "=" :: .mark '\x7b' :: (p.lexemes ++ [.mark '\x7d'])) := by
  simp only [Process.lexemes, Process.layout, Name.layout, Name.layoutAll_eq, List.cons_append,
    List.nil_append, List.append_assoc, List.flatMap_append, List.flatMap_cons, List.flatMap_nil,
    lexemes_word hx.1, lexemes_patterns]
  rfl

theorem lexemes_par (p q : Process) :
    (Process.par p q).lexemes = p.lexemes ++ .word ['|'] :: q.lexemes := by
  simp only [Process.lexemes, Process.layout, List.flatMap_append, List.flatMap_cons]
  rfl

theorem lexemes_new (bs : List Binding) (p : Process) : (Process.new bs p).lexemes =
    .word "new" :: (binding.row (.mark ',') bs ++ .word "in" :: .mark '\x7b' ::
      (p.lexemes ++ [.mark '\x7d'])) := by
  simp only [Process.lexemes, Process.layout, List.cons_append, List.append_assoc,
    List.flatMap_append, List.flatMap_cons, List.flatMap_nil, lexemes_bindings]
  rfl

/-! ### Ground values -/

/-- The lexeme of a ground value. -/
def Ground.lexeme (v : Ground) : Lexeme :=
  match v with
  | .bool b => .word (if b then "true" else "false" : String)
  | .string s => .quoted (s.flatMap Ground.escapePoint)
  | _ => .word (v.text?.getD [])

theorem lexemes_layout (v : Ground) : v.layout.lexemes = [v.lexeme] := by
  cases v with
  | bool b => cases b <;> rfl
  | string s =>
    simp [Ground.layout, Ground.text?, Ground.lexeme, Command.lexemes, ofText, settle,
      scan_quotedText]
  | int | double =>
    unfold Ground.layout
    split
    · rename_i text htext
      obtain ⟨_, rfl, hword⟩ := isWord_number rfl htext
      simp [Ground.lexeme, htext, lexemes_word hword]
    · rename_i htext
      simp [Ground.lexeme, htext, Command.lexemes]

/-- Words that no number is written by. -/
def reserved : List String := ["Nil", "bundle+", "true", "false"]

theorem number_ne_reserved {v : Ground} (hv : v.isNumber = true) {w : String} (hw : w ∈ reserved) :
    v.text?.getD [] ≠ w := by
  have hreserved : ∀ w ∈ reserved, w ≠ "" ∧ w ≠ "null" ∧
      w.toList.any (fun c => !isNumeralPart c) = true := by decide
  obtain ⟨hempty, hnull, hany⟩ := hreserved w hw
  obtain ⟨c, hc, hpart⟩ := List.any_eq_true.mp hany
  cases htext : v.text? with
  | none => exact fun h => hempty (WideString.ofString_injective (s := "") h).symm
  | some out =>
    obtain ⟨text, rfl, hnumeral⟩ := numeral_of_text? hv htext
    intro h
    obtain rfl := WideString.ofString_injective h
    obtain h | ⟨-, hparts⟩ := hnumeral
    · exact hnull h
    · simp [hparts c hc] at hpart

theorem text?_eq_of_getD_eq {v w : Ground} (hv : v.isNumber = true) (hw : w.isNumber = true)
    (h : v.text?.getD [] = w.text?.getD []) : v.text? = w.text? := by
  have hsome : ∀ {u : Ground} {out : WideString}, u.isNumber = true → u.text? = some out →
      out ≠ [] := by
    rintro u _ hu htext hempty
    obtain ⟨text, rfl, hword⟩ := isWord_number hu htext
    exact hword.1 (List.map_eq_nil_iff.mp hempty)
  cases hv' : v.text? with
  | none =>
    cases hw' : w.text? with
    | none => rfl
    | some text =>
      rw [hv', hw'] at h
      exact absurd h.symm (hsome hw hw')
  | some text =>
    cases hw' : w.text? with
    | none =>
      rw [hv', hw'] at h
      exact absurd h (hsome hv hv')
    | some text' =>
      rw [hv', hw'] at h
      exact congrArg some h

/-- Ground values with the same lexeme are equal, or numbers of the same text. -/
theorem alike_of_lexeme_eq {v w : Ground} (h : v.lexeme = w.lexeme) :
    Alike (.ground v) (.ground w) := by
  have hbool : ∀ b : Bool, (if b then "true" else "false" : String) ∈ reserved := by decide
  have hnumbers : v.isNumber = true → w.isNumber = true →
      v.text?.getD [] = w.text?.getD [] → Alike (.ground v) (.ground w) :=
    fun hv hw heq => .number hv hw (text?_eq_of_getD_eq hv hw heq)
  cases v with
  | bool b =>
    cases w with
    | bool c => cases b <;> cases c <;> first | exact .refl _ | exact absurd h (by decide)
    | string => cases h
    | int | double => exact absurd (Lexeme.word.inj h).symm (number_ne_reserved rfl (hbool b))
  | string s =>
    cases w with
    | string t =>
      rw [Source.flatMap_escapePoint_injective (Lexeme.quoted.inj h)]
      exact .refl _
    | bool | int | double => cases h
  | int | double =>
    cases w with
    | bool c => exact absurd (Lexeme.word.inj h) (number_ne_reserved rfl (hbool c))
    | string => cases h
    | int | double => exact hnumbers rfl rfl (Lexeme.word.inj h)

/-! ### Operands -/

/-- How operands begin that are no ground values. -/
def headings : List Lexeme :=
  [.word "Nil", .word "bundle+", .mark '*', .mark '(', .mark '\x7b']

/-- How an operand begins, if it is no ground value. -/
def Process.heading? : Process → Option Lexeme
  | .nil => some (.word "Nil")
  | .drop _ => some (.mark '*')
  | .unary _ _ => some (.word "bundle+")
  | .tuple _ => some (.mark '(')
  | .map _ => some (.mark '\x7b')
  | _ => none

theorem lexeme_notMem_headings (v : Ground) : v.lexeme ∉ headings := by
  have hnumber : v.isNumber = true → .word (v.text?.getD []) ∉ headings := by
    intro hv h
    simp only [headings, List.mem_cons, List.not_mem_nil, or_false, reduceCtorEq] at h
    obtain h | h := h
    · exact number_ne_reserved hv (by decide) (Lexeme.word.inj h)
    · exact number_ne_reserved hv (by decide) (Lexeme.word.inj h)
  cases v with
  | bool b => cases b <;> decide
  | string => simp [Ground.lexeme, headings]
  | int | double => exact hnumber rfl

theorem IsOperand.exists_heading {p : Process} (h : IsOperand p) :
    ∃ l rest, p.lexemes = l :: rest ∧ p.heading? = if l ∈ headings then some l else none := by
  obtain ⟨hp, hbinary⟩ := h
  cases hp with
  | nil => exact ⟨_, _, lexemes_nil, rfl⟩
  | ground v =>
    exact ⟨_, _, (lexemes_ground v).trans (lexemes_layout v),
      by simp [Process.heading?, lexeme_notMem_headings v]⟩
  | drop hx => exact ⟨_, _, lexemes_drop hx, rfl⟩
  | binary => exact absurd rfl (hbinary _ _ _)
  | unary => exact ⟨_, _, lexemes_unary _, rfl⟩
  | tuple => exact ⟨_, _, lexemes_tuple _, rfl⟩
  | map => exact ⟨_, _, lexemes_map _, rfl⟩

theorem heading?_eq {p q : Process} (hp : IsOperand p) (hq : IsOperand q) {r s : List Lexeme}
    (h : p.lexemes ++ r = q.lexemes ++ s) : p.heading? = q.heading? := by
  obtain ⟨l, rest, hl, hheading⟩ := hp.exists_heading
  obtain ⟨l', rest', hl', hheading'⟩ := hq.exists_heading
  rw [hl, hl'] at h
  obtain rfl := (List.cons.inj h).1
  rw [hheading, hheading']

theorem reads_nil : operand.Reads .nil := by
  rintro q hq r s - - h
  have hheading := heading?_eq ⟨.nil, nofun⟩ hq h
  obtain ⟨hq, hbinary⟩ := hq
  cases hq with
  | nil => exact ⟨.refl _, (List.cons.inj h).2⟩
  | binary => exact absurd rfl (hbinary _ _ _)
  | _ => cases hheading

theorem reads_ground (v : Ground) : operand.Reads (.ground v) := by
  rintro q hq r s - - h
  have hheading := heading?_eq ⟨.ground v, nofun⟩ hq h
  obtain ⟨hq, hbinary⟩ := hq
  cases hq with
  | ground w =>
    simp only [operand_lexemes, lexemes_ground, lexemes_layout] at h
    obtain ⟨hlexeme, hrest⟩ := List.cons.inj h
    exact ⟨alike_of_lexeme_eq hlexeme, hrest⟩
  | binary => exact absurd rfl (hbinary _ _ _)
  | _ => cases hheading

theorem reads_drop {x : String} (hx : IsName x) : operand.Reads (.drop (.var x)) := by
  rintro q hq r s - - h
  have hheading := heading?_eq ⟨.drop hx, nofun⟩ hq h
  obtain ⟨hq, hbinary⟩ := hq
  cases hq with
  | @drop y hy =>
    simp only [operand_lexemes, lexemes_drop hx, lexemes_drop hy, List.cons_append, List.nil_append,
      List.cons.injEq, Lexeme.word.injEq, true_and] at h
    obtain ⟨hname, hrest⟩ := h
    obtain rfl := WideString.ofString_injective hname
    exact ⟨.refl _, hrest⟩
  | binary => exact absurd rfl (hbinary _ _ _)
  | _ => cases hheading

theorem stops_mark (c : Char) : datum.Stops (.mark c) := fun _ _ => nofun

theorem reads_unary {p : Process} (hp : IsData p) (hreads : datum.Reads p) :
    operand.Reads (.unary "bundle+" p) := by
  rintro q hq r s - - h
  have hheading := heading?_eq ⟨.unary hp, nofun⟩ hq h
  obtain ⟨hq, hbinary⟩ := hq
  cases hq with
  | @unary q hq =>
    simp only [operand_lexemes, lexemes_unary, List.cons_append, List.append_assoc, List.cons.injEq,
      true_and, List.nil_append] at h
    obtain ⟨halike, hrest⟩ :=
      hreads hq (Phrase.stopsAt_cons (stops_mark _)) (Phrase.stopsAt_cons (stops_mark _)) h
    exact ⟨.unary halike, (List.cons.inj hrest).2⟩
  | binary => exact absurd rfl (hbinary _ _ _)
  | _ => cases hheading

/-- No data begins with a closing bracket. -/
theorem IsData.exists_head {p : Process} (h : IsData p) :
    ∃ l rest, p.lexemes = l :: rest ∧ l ≠ .mark ')' ∧ l ≠ .mark '\x7d' := by
  induction h with
  | nil => exact ⟨_, _, lexemes_nil, nofun, nofun⟩
  | ground v =>
    refine ⟨_, _, (lexemes_ground v).trans (lexemes_layout v), ?_⟩
    cases v <;> exact ⟨nofun, nofun⟩
  | drop hx => exact ⟨_, _, lexemes_drop hx, by decide⟩
  | binary ho _ _ hp _ =>
    obtain ⟨l, rest, hl, hne⟩ := hp
    exact ⟨l, _, by rw [lexemes_binary ho, hl, List.cons_append], hne⟩
  | unary => exact ⟨_, _, lexemes_unary _, nofun, nofun⟩
  | tuple => exact ⟨_, _, lexemes_tuple _, by decide⟩
  | map => exact ⟨_, _, lexemes_map _, by decide⟩

/-- Data between parentheses. -/
theorem reads_arguments {ps qs : List Process} (hps : ∀ p ∈ ps, IsData p ∧ datum.Reads p)
    (hqs : ∀ q ∈ qs, IsData q) {r s : List Lexeme}
    (h : datum.row (.mark ',') ps ++ .mark ')' :: r = datum.row (.mark ',') qs ++ .mark ')' :: s) :
    ps.length = qs.length ∧ (∀ x ∈ ps.zip qs, Alike x.1 x.2) ∧ r = s :=
  Phrase.reads_row (stops_mark ',') (stops_mark ')') (by decide)
    (fun _ hp => have ⟨l, rest, hl, hne, _⟩ := IsData.exists_head hp; ⟨l, rest, hl, hne⟩) hps hqs h

theorem reads_tuple {ps : List Process} (hps : ∀ p ∈ ps, IsData p)
    (hreads : ∀ p ∈ ps, datum.Reads p) : operand.Reads (.tuple ps) := by
  rintro q hq r s - - h
  have hheading := heading?_eq ⟨.tuple hps, nofun⟩ hq h
  obtain ⟨hq, hbinary⟩ := hq
  cases hq with
  | @tuple qs hqs =>
    simp only [operand_lexemes, lexemes_tuple, List.cons_append, List.append_assoc, List.cons.injEq,
      true_and, List.nil_append] at h
    obtain ⟨hlength, halike, hrest⟩ := reads_arguments (fun p hp => ⟨hps p hp, hreads p hp⟩) hqs h
    exact ⟨.tuple hlength halike, hrest⟩
  | binary => exact absurd rfl (hbinary _ _ _)
  | _ => cases hheading

theorem reads_entry {e : WideString × Process} (h : datum.Reads e.2) : entry.Reads e := by
  intro f hf r s hr hs heq
  simp only [lexemes_entry, List.cons_append, List.cons.injEq, Lexeme.quoted.injEq, true_and] at heq
  obtain ⟨hkey, hrest⟩ := heq
  obtain ⟨halike, hend⟩ := h hf hr hs hrest
  exact ⟨⟨Source.flatMap_escapePoint_injective hkey, halike⟩, hend⟩

theorem reads_map {es : List (WideString × Process)} (hes : ∀ e ∈ es, IsData e.2)
    (hreads : ∀ e ∈ es, datum.Reads e.2) : operand.Reads (.map es) := by
  rintro q hq r s - - h
  have hheading := heading?_eq ⟨.map hes, nofun⟩ hq h
  obtain ⟨hq, hbinary⟩ := hq
  cases hq with
  | @map fs hfs =>
    simp only [operand_lexemes, lexemes_map, List.cons_append, List.append_assoc, List.cons.injEq,
      true_and, List.nil_append] at h
    obtain ⟨hlength, hsame, hrest⟩ := Phrase.reads_row (P := entry) (stops_mark ',')
      (stops_mark '\x7d') (by decide) (fun e _ => ⟨_, _, lexemes_entry e, nofun⟩)
      (fun e he => ⟨hes e he, reads_entry (hreads e he)⟩) hfs h
    exact ⟨.map hlength (fun x hx => (hsame x hx).1) fun x hx => (hsame x hx).2, hrest⟩
  | binary => exact absurd rfl (hbinary _ _ _)
  | _ => cases hheading

/-! ### Data -/

/-- Operators join operands. -/
def operatorJoint : Joint String where
  node := .binary
  Valid o := o ∈ operators
  lexeme o := .word o
  lexeme_injective _ _ h := Lexeme.eq_of_word_eq h
  lexemes_node p q ho := lexemes_binary ho p q
  regroup := .binaryRegroup
  congr := .binary

theorem IsData.joins {p : Process} (h : IsData p) :
    ∃ a xs, operatorJoint.Joins IsOperand p a xs := by
  induction h with
  | binary ho _ _ hp hq =>
    obtain ⟨a, xs, hp⟩ := hp
    obtain ⟨b, ys, hq⟩ := hq
    exact ⟨_, _, .node ho hp hq⟩
  | nil => exact ⟨_, _, .single ⟨.nil, nofun⟩⟩
  | ground v => exact ⟨_, _, .single ⟨.ground v, nofun⟩⟩
  | drop hx => exact ⟨_, _, .single ⟨.drop hx, nofun⟩⟩
  | unary hp => exact ⟨_, _, .single ⟨.unary hp, nofun⟩⟩
  | tuple hps => exact ⟨_, _, .single ⟨.tuple hps, nofun⟩⟩
  | map hes => exact ⟨_, _, .single ⟨.map hes, nofun⟩⟩

theorem reads_of_joins {p a : Process} {xs : List (String × Process)}
    (h : operatorJoint.Joins (fun c => IsOperand c ∧ operand.Reads c) p a xs) : datum.Reads p := by
  intro q hq r s hr hs heq
  obtain ⟨b, ys, hq⟩ := hq.joins
  exact h.reads (fun _ _ => trivial) hq (fun l hl => ⟨trivial, hr l hl⟩)
    (fun l hl => ⟨trivial, hs l hl⟩) heq

/-- Data can be read where no operator follows. -/
theorem IsData.reads {p : Process} (h : IsData p) : datum.Reads p := by
  -- What is carried along is that the operands can be read.
  suffices hjoins : ∃ a xs, operatorJoint.Joins (fun c => IsOperand c ∧ operand.Reads c) p a xs by
    obtain ⟨a, xs, hjoins⟩ := hjoins
    exact reads_of_joins hjoins
  have hdatum : ∀ {p}, (∃ a xs, operatorJoint.Joins (fun c => IsOperand c ∧ operand.Reads c) p a xs) →
      datum.Reads p := fun ⟨_, _, h⟩ => reads_of_joins h
  induction h with
  | binary ho _ _ hp hq =>
    obtain ⟨a, xs, hp⟩ := hp
    obtain ⟨b, ys, hq⟩ := hq
    exact ⟨_, _, .node ho hp hq⟩
  | nil => exact ⟨_, _, .single ⟨⟨.nil, nofun⟩, reads_nil⟩⟩
  | ground v => exact ⟨_, _, .single ⟨⟨.ground v, nofun⟩, reads_ground v⟩⟩
  | drop hx => exact ⟨_, _, .single ⟨⟨.drop hx, nofun⟩, reads_drop hx⟩⟩
  | unary hp hreads => exact ⟨_, _, .single ⟨⟨.unary hp, nofun⟩, reads_unary hp (hdatum hreads)⟩⟩
  | tuple hps hreads =>
    exact ⟨_, _, .single ⟨⟨.tuple hps, nofun⟩, reads_tuple hps fun p hp => hdatum (hreads p hp)⟩⟩
  | map hes hreads =>
    exact ⟨_, _, .single ⟨⟨.map hes, nofun⟩, reads_map hes fun e he => hdatum (hreads e he)⟩⟩

/-! ### Patterns, clauses and bindings -/

theorem IsPattern.exists_head {n : Name} (h : IsPattern n) :
    ∃ l rest, pattern.lexemes n = l :: rest ∧ l ≠ .mark ')' ∧ l ≠ .word "<-" := by
  cases h with
  | var hx =>
    refine ⟨_, _, lexemes_var hx, nofun, ?_⟩
    intro heq
    obtain ⟨c, hc, hstart⟩ := hx.2
    rw [Lexeme.eq_of_word_eq heq] at hc
    obtain rfl := Option.some.inj hc
    exact absurd hstart (by decide)
  | quote => exact ⟨_, _, lexemes_quote _, by decide⟩

theorem IsPattern.reads {n : Name} (h : IsPattern n) : pattern.Reads n := by
  intro m hm r s _ _ heq
  cases h with
  | @var x hx =>
    cases hm with
    | @var y hy =>
      rw [lexemes_var hx, lexemes_var hy] at heq
      obtain ⟨hname, hrest⟩ := List.cons.inj heq
      rw [Lexeme.eq_of_word_eq hname]
      exact ⟨.refl _, hrest⟩
    | quote =>
      rw [lexemes_var hx, lexemes_quote] at heq
      cases (List.cons.inj heq).1
  | @quote p hp =>
    cases hm with
    | var hy =>
      rw [lexemes_var hy, lexemes_quote] at heq
      cases (List.cons.inj heq).1
    | @quote q hq =>
      simp only [lexemes_quote, List.cons_append, List.append_assoc, List.cons.injEq, true_and,
        List.nil_append] at heq
      obtain ⟨halike, hrest⟩ :=
        hp.reads hq (Phrase.stopsAt_cons (stops_mark _)) (Phrase.stopsAt_cons (stops_mark _)) heq
      exact ⟨.quote halike, (List.cons.inj hrest).2⟩

/-- Patterns up to what closes them. -/
theorem reads_patterns {closing : Lexeme} (hclosing : closing = .mark ')' ∨ closing = .word "<-")
    {ns ms : List Name} (hns : ∀ n ∈ ns, IsPattern n) (hms : ∀ m ∈ ms, IsPattern m)
    {r s : List Lexeme}
    (h : pattern.row (.mark ',') ns ++ closing :: r = pattern.row (.mark ',') ms ++ closing :: s) :
    ns.length = ms.length ∧ (∀ x ∈ ns.zip ms, AlikeName x.1 x.2) ∧ r = s := by
  refine Phrase.reads_row (P := pattern) trivial trivial ?_ ?_ (fun n hn => ⟨hns n hn, (hns n hn).reads⟩)
    hms h
  · obtain rfl | rfl := hclosing <;> decide
  · intro n hn
    obtain ⟨l, rest, hl, hparen, harrow⟩ := IsPattern.exists_head hn
    obtain rfl | rfl := hclosing
    · exact ⟨l, rest, hl, hparen⟩
    · exact ⟨l, rest, hl, harrow⟩

theorem IsClause.exists_head {c : List Name × Name} (h : IsClause c) :
    ∃ l rest, clause.lexemes c = l :: rest ∧ l ≠ .mark ')' := by
  obtain ⟨ns, n⟩ := c
  obtain ⟨x, hx, rfl⟩ := h.channel
  rw [lexemes_clause hx]
  cases ns with
  | nil => exact ⟨_, _, rfl, nofun⟩
  | cons n ns =>
    obtain ⟨l, rest, hl, hne, -⟩ := (h.patterns n List.mem_cons_self).exists_head
    rw [Phrase.row, hl]
    exact ⟨l, _, rfl, hne⟩

theorem IsClause.reads {c : List Name × Name} (h : IsClause c) : clause.Reads c := by
  intro d hd r s _ _ heq
  obtain ⟨ns, n⟩ := c
  obtain ⟨ms, m⟩ := d
  obtain ⟨x, hx, rfl⟩ := h.channel
  obtain ⟨y, hy, rfl⟩ := hd.channel
  simp only [lexemes_clause hx, lexemes_clause hy, List.append_assoc, List.cons_append,
    List.nil_append] at heq
  obtain ⟨hlength, halike, hrest⟩ := reads_patterns (.inr rfl) h.patterns hd.patterns heq
  obtain ⟨hname, hend⟩ := List.cons.inj hrest
  rw [Lexeme.eq_of_word_eq hname]
  exact ⟨⟨hlength, halike, .refl _⟩, hend⟩

theorem Binding.IsSpelled.reads {b : Binding} (h : b.IsSpelled) : binding.Reads b := by
  intro b' hb' r s hr hs heq
  cases b with
  | plain x =>
    cases b' with
    | plain y =>
      rw [lexemes_plain h, lexemes_plain hb'] at heq
      obtain ⟨hname, hrest⟩ := List.cons.inj heq
      rw [Lexeme.eq_of_word_eq hname]
      exact ⟨rfl, hrest⟩
    | resource y uri =>
      rw [lexemes_plain h, lexemes_resource hb'.1 hb'.2] at heq
      obtain ⟨-, rfl⟩ := List.cons.inj heq
      exact absurd rfl (hr _ rfl)
  | resource x uri =>
    cases b' with
    | plain y =>
      rw [lexemes_plain hb', lexemes_resource h.1 h.2] at heq
      obtain ⟨-, rfl⟩ := List.cons.inj heq
      exact absurd rfl (hs _ rfl)
    | resource y uri' =>
      rw [lexemes_resource h.1 h.2, lexemes_resource hb'.1 hb'.2] at heq
      simp only [List.cons_append, List.nil_append, List.cons.injEq, Lexeme.word.injEq,
        Lexeme.resource.injEq, true_and] at heq
      obtain ⟨hname, huri, hrest⟩ := heq
      rw [WideString.ofString_injective hname, huri]
      exact ⟨rfl, hrest⟩

theorem reads_bindings {bs bs' : List Binding} (hne : bs ≠ []) (hne' : bs' ≠ [])
    (hbs : ∀ b ∈ bs, b.IsSpelled) (hbs' : ∀ b ∈ bs', b.IsSpelled) {r s : List Lexeme}
    (h : binding.row (.mark ',') bs ++ .word "in" :: r =
      binding.row (.mark ',') bs' ++ .word "in" :: s) : bs = bs' ∧ r = s := by
  obtain ⟨b, rest, rfl⟩ := List.exists_cons_of_ne_nil hne
  obtain ⟨b', rest', rfl⟩ := List.exists_cons_of_ne_nil hne'
  have hcomma : binding.Stops (.mark ',') := fun h => absurd h (by decide)
  have hin : binding.Stops (.word "in") := nofun
  obtain ⟨hlength, hsame, hend⟩ := Phrase.reads_row_cons hcomma hin nofun
    (fun b hb => ⟨hbs b hb, (hbs b hb).reads⟩) hbs' h
  exact ⟨by simpa using map_congr_zip (f := id) hlength hsame, hend⟩

/-! ### Actions -/

/-- Actions stand side by side. -/
def barJoint : Joint Unit where
  node _ := .par
  Valid _ := True
  lexeme _ := .word ['|']
  lexeme_injective _ _ _ := rfl
  lexemes_node p q _ := lexemes_par p q
  regroup _ _ := .parRegroup
  congr := .par

theorem IsAction.joins {p : Process} (h : IsAction p) : ∃ a xs, barJoint.Joins IsThread p a xs := by
  induction h with
  | par _ _ hp hq =>
    obtain ⟨a, xs, hp⟩ := hp
    obtain ⟨b, ys, hq⟩ := hq
    exact ⟨_, _, .node (l := ()) trivial hp hq⟩
  | nil => exact ⟨_, _, .single ⟨.nil, nofun⟩⟩
  | placeholder s => exact ⟨_, _, .single ⟨.placeholder s, nofun⟩⟩
  | select hp hpatterns hbodies _ => exact ⟨_, _, .single ⟨.select hp hpatterns hbodies, nofun⟩⟩
  | send hx hps => exact ⟨_, _, .single ⟨.send hx hps, nofun⟩⟩
  | receive hcs hp _ => exact ⟨_, _, .single ⟨.receive hcs hp, nofun⟩⟩
  | contract hx hns hp _ => exact ⟨_, _, .single ⟨.contract hx hns hp, nofun⟩⟩
  | new hne hbs hp _ => exact ⟨_, _, .single ⟨.new hne hbs hp, nofun⟩⟩

theorem action_reads_of_joins {p a : Process} {xs : List (Unit × Process)}
    (h : barJoint.Joins (fun c => IsThread c ∧ thread.Reads c) p a xs) : action.Reads p := by
  intro q hq r s hr hs heq
  obtain ⟨b, ys, hq⟩ := hq.joins
  have hend : ∀ {l : Lexeme}, l = .mark '\x7d' →
      (l = .word ['|'] ∨ l = .mark '\x7d') ∧ ∀ m : Unit, True → l ≠ .word ['|'] := by
    rintro l rfl
    exact ⟨.inr rfl, nofun⟩
  exact h.reads (fun _ _ => .inl rfl) hq (fun l hl => hend (hr l hl)) (fun l hl => hend (hs l hl)) heq

/-- How a thread begins: a send by its second lexeme, and all others by the first. -/
def Process.opening? : Process → Option Lexeme
  | .nil => some (.word "Nil")
  | .ground v => some v.lexeme
  | .select _ _ => some (.word "match")
  | .send _ _ => some (.mark '!')
  | .receive _ _ => some (.word "for")
  | .contract _ _ _ => some (.word "contract")
  | .new _ _ => some (.word "new")
  | _ => none

/-- The opening of a thread as it is found in lexemes. -/
def openingOf (ls : List Lexeme) : Option Lexeme :=
  if ls[1]? = some (.mark '!') then some (.mark '!') else ls[0]?

theorem IsThread.opening?_eq {p : Process} (h : IsThread p) {r : List Lexeme} (hr : thread.StopsAt r) :
    openingOf (p.lexemes ++ r) = p.opening? := by
  have hbang : ∀ {l : Lexeme}, openingOf (l :: r) = some l := by
    intro l
    have hne : (l :: r)[1]? ≠ some (.mark '!') := by
      intro heq
      rw [List.getElem?_cons_succ, ← List.head?_eq_getElem?] at heq
      obtain heq | heq := hr _ heq
      · cases heq
      · exact absurd heq (by decide)
    rw [openingOf, if_neg hne]
    rfl
  obtain ⟨hp, hpar⟩ := h
  cases hp with
  | nil => exact hbang
  | placeholder s =>
    rw [lexemes_ground, lexemes_layout]
    exact hbang
  | select => simp [lexemes_select, openingOf, Process.opening?]
  | send hx => simp [lexemes_send hx, openingOf, Process.opening?]
  | receive => simp [lexemes_receive, openingOf, Process.opening?]
  | contract hx => simp [lexemes_contract hx, openingOf, Process.opening?]
  | par => exact absurd rfl (hpar _ _)
  | @new bs p hne hbs =>
    obtain ⟨b, rest, rfl⟩ := List.exists_cons_of_ne_nil hne
    have hb := hbs b List.mem_cons_self
    cases b with
    | plain x => simp [lexemes_new, Phrase.row, lexemes_plain hb, openingOf, Process.opening?]
    | resource x uri =>
      simp [lexemes_new, Phrase.row, lexemes_resource hb.1 hb.2, openingOf, Process.opening?]

theorem opening?_eq {p q : Process} (hp : IsThread p) (hq : IsThread q) {r s : List Lexeme}
    (hr : thread.StopsAt r) (hs : thread.StopsAt s) (h : p.lexemes ++ r = q.lexemes ++ s) :
    p.opening? = q.opening? := by
  rw [← hp.opening?_eq hr, h, hq.opening?_eq hs]

theorem reads_thread_nil : thread.Reads .nil := by
  intro q hq r s hr hs heq
  have hopening := opening?_eq ⟨.nil, nofun⟩ hq hr hs heq
  obtain ⟨hq, hpar⟩ := hq
  cases hq with
  | nil => exact ⟨.refl _, (List.cons.inj heq).2⟩
  | par => exact absurd rfl (hpar _ _)
  | _ => simp [Process.opening?, Ground.lexeme] at hopening

theorem reads_placeholder (t : WideString) : thread.Reads (.ground (.string t)) := by
  intro q hq r s hr hs heq
  rw [thread_lexemes, thread_lexemes] at heq
  have hopening := opening?_eq ⟨.placeholder t, nofun⟩ hq hr hs heq
  obtain ⟨hq, hpar⟩ := hq
  cases hq with
  | placeholder u =>
    simp only [lexemes_ground, lexemes_layout] at heq
    exact ⟨alike_of_lexeme_eq (List.cons.inj heq).1, (List.cons.inj heq).2⟩
  | par => exact absurd rfl (hpar _ _)
  | _ => simp [Process.opening?, Ground.lexeme] at hopening

theorem reads_send {x : String} (hx : IsName x) {ps : List Process} (hps : ∀ p ∈ ps, IsData p) :
    thread.Reads (.send (.var x) ps) := by
  intro q hq r s hr hs heq
  have hopening := opening?_eq ⟨.send hx hps, nofun⟩ hq hr hs heq
  obtain ⟨hq, hpar⟩ := hq
  cases hq with
  | @send y qs hy hqs =>
    simp only [thread_lexemes, lexemes_send hx, lexemes_send hy, List.cons_append, List.append_assoc,
      List.cons.injEq, Lexeme.word.injEq, true_and, List.nil_append] at heq
    obtain ⟨hname, hrest⟩ := heq
    obtain ⟨hlength, halike, hend⟩ :=
      reads_arguments (fun p hp => ⟨hps p hp, (hps p hp).reads⟩) hqs hrest
    rw [WideString.ofString_injective hname]
    exact ⟨.send (.refl _) hlength halike, hend⟩
  | par => exact absurd rfl (hpar _ _)
  | _ => simp [Process.opening?, Ground.lexeme] at hopening

/-- What stands between braces, up to the closing one. -/
theorem reads_body {p q : Process} (hp : action.Reads p) (hq : IsAction q) {r s : List Lexeme}
    (h : p.lexemes ++ .mark '\x7d' :: r = q.lexemes ++ .mark '\x7d' :: s) : Alike p q ∧ r = s := by
  obtain ⟨halike, hrest⟩ := hp hq (Phrase.stopsAt_cons rfl) (Phrase.stopsAt_cons rfl) h
  exact ⟨halike, (List.cons.inj hrest).2⟩

theorem reads_receive {cs : List (List Name × Name)} (hcs : ∀ c ∈ cs, IsClause c) {p : Process}
    (hp : IsAction p) (hreads : action.Reads p) : thread.Reads (.receive cs p) := by
  intro q hq r s hr hs heq
  have hopening := opening?_eq ⟨.receive hcs hp, nofun⟩ hq hr hs heq
  obtain ⟨hq, hpar⟩ := hq
  cases hq with
  | @receive ds q hds hq =>
    simp only [thread_lexemes, lexemes_receive, List.cons_append, List.append_assoc, List.cons.injEq,
      true_and, List.nil_append] at heq
    obtain ⟨hlength, hsame, hrest⟩ := Phrase.reads_row (P := clause) trivial trivial (by decide)
      (fun _ hc => IsClause.exists_head hc) (fun c hc => ⟨hcs c hc, (hcs c hc).reads⟩) hds heq
    obtain ⟨halike, hend⟩ := reads_body hreads hq (List.cons.inj hrest).2
    exact ⟨.receive hlength (fun x hx => (hsame x hx).1) (fun x hx => (hsame x hx).2.1)
      (fun x hx => (hsame x hx).2.2) halike, hend⟩
  | par => exact absurd rfl (hpar _ _)
  | _ => simp [Process.opening?, Ground.lexeme] at hopening

theorem reads_contract {x : String} (hx : IsName x) {ns : List Name} (hns : ∀ n ∈ ns, IsPattern n)
    {p : Process} (hp : IsAction p) (hreads : action.Reads p) :
    thread.Reads (.contract (.var x) ns p) := by
  intro q hq r s hr hs heq
  have hopening := opening?_eq ⟨.contract hx hns hp, nofun⟩ hq hr hs heq
  obtain ⟨hq, hpar⟩ := hq
  cases hq with
  | @contract y ms q hy hms hq =>
    simp only [thread_lexemes, lexemes_contract hx, lexemes_contract hy, List.cons_append,
      List.append_assoc, List.cons.injEq, Lexeme.word.injEq, true_and, List.nil_append] at heq
    obtain ⟨hname, hrest⟩ := heq
    obtain ⟨hlength, halike, hrest⟩ := reads_patterns (.inl rfl) hns hms hrest
    obtain ⟨hbody, hend⟩ := reads_body hreads hq (List.cons.inj (List.cons.inj hrest).2).2
    rw [WideString.ofString_injective hname]
    exact ⟨.contract (.refl _) hlength halike hbody, hend⟩
  | par => exact absurd rfl (hpar _ _)
  | _ => simp [Process.opening?, Ground.lexeme] at hopening

theorem reads_new {bs : List Binding} (hne : bs ≠ []) (hbs : ∀ b ∈ bs, b.IsSpelled) {p : Process}
    (hp : IsAction p) (hreads : action.Reads p) : thread.Reads (.new bs p) := by
  intro q hq r s hr hs heq
  have hopening := opening?_eq ⟨.new hne hbs hp, nofun⟩ hq hr hs heq
  obtain ⟨hq, hpar⟩ := hq
  cases hq with
  | @new bs' q hne' hbs' hq =>
    simp only [thread_lexemes, lexemes_new, List.cons_append, List.append_assoc, List.cons.injEq,
      true_and, List.nil_append] at heq
    obtain ⟨rfl, hrest⟩ := reads_bindings hne hne' hbs hbs' heq
    obtain ⟨halike, hend⟩ := reads_body hreads hq (List.cons.inj hrest).2
    exact ⟨.new halike, hend⟩
  | par => exact absurd rfl (hpar _ _)
  | _ => simp [Process.opening?, Ground.lexeme] at hopening

theorem reads_branch {c : Process × Process} (hpattern : IsData c.1) (hbody : action.Reads c.2) :
    branch.Reads c := by
  intro d hd r s _ _ heq
  have harrow : ∀ o ∈ operators, Lexeme.word "=>" ≠ .word o := by decide
  have hstop : ∀ {ls : List Lexeme}, datum.StopsAt (.word "=>" :: ls) :=
    Phrase.stopsAt_cons harrow
  simp only [lexemes_case, List.append_assoc, List.cons_append, List.nil_append] at heq
  obtain ⟨halike, hrest⟩ := hpattern.reads hd.1 hstop hstop heq
  obtain ⟨hbody, hend⟩ := reads_body hbody hd.2 (List.cons.inj (List.cons.inj hrest).2).2
  exact ⟨⟨halike, hbody⟩, hend⟩

theorem reads_select {p : Process} (hp : IsData p) {cs : List (Process × Process)}
    (hpatterns : ∀ c ∈ cs, IsData c.1) (hbodies : ∀ c ∈ cs, IsAction c.2)
    (hreads : ∀ c ∈ cs, action.Reads c.2) : thread.Reads (.select p cs) := by
  intro q hq r s hr hs heq
  have hopening := opening?_eq ⟨.select hp hpatterns hbodies, nofun⟩ hq hr hs heq
  obtain ⟨hq, hpar⟩ := hq
  cases hq with
  | @select q ds hq hpatterns' hbodies' =>
    simp only [thread_lexemes, lexemes_select, List.cons_append, List.append_assoc, List.cons.injEq,
      true_and, List.nil_append] at heq
    obtain ⟨halike, hrest⟩ :=
      hp.reads hq (Phrase.stopsAt_cons (stops_mark _)) (Phrase.stopsAt_cons (stops_mark _)) heq
    have hend : ∀ {t : List Lexeme}, ∀ l ∈ (Lexeme.mark '\x7d' :: t).head?,
        branch.Stops l ∧ ¬ l ≠ .mark '\x7d' :=
      fun l hl => ⟨trivial, fun hne => hne (Option.some.inj hl).symm⟩
    obtain ⟨hlength, hsame, hrest⟩ := Phrase.reads_all (P := branch) (· ≠ .mark '\x7d')
      (fun _ _ => trivial)
      (fun c hc => have ⟨l, rest, hl, _, hne⟩ := hc.1.exists_head
        ⟨l, _, by rw [lexemes_case, hl, List.cons_append], hne⟩)
      (fun c hc => ⟨⟨hpatterns c hc, hbodies c hc⟩, reads_branch (hpatterns c hc) (hreads c hc)⟩)
      (fun d hd => ⟨hpatterns' d hd, hbodies' d hd⟩) hend hend (List.cons.inj (List.cons.inj hrest).2).2
    exact ⟨.select halike hlength (fun x hx => (hsame x hx).1) fun x hx => (hsame x hx).2,
      (List.cons.inj hrest).2⟩
  | par => exact absurd rfl (hpar _ _)
  | _ => simp [Process.opening?, Ground.lexeme] at hopening

/-- Actions can be read at their end, or before a closing brace. -/
theorem IsAction.reads {p : Process} (h : IsAction p) : action.Reads p := by
  suffices hjoins : ∃ a xs, barJoint.Joins (fun c => IsThread c ∧ thread.Reads c) p a xs by
    obtain ⟨a, xs, hjoins⟩ := hjoins
    exact action_reads_of_joins hjoins
  have haction : ∀ {p}, (∃ a xs, barJoint.Joins (fun c => IsThread c ∧ thread.Reads c) p a xs) →
      action.Reads p := fun ⟨_, _, h⟩ => action_reads_of_joins h
  induction h with
  | par _ _ hp hq =>
    obtain ⟨a, xs, hp⟩ := hp
    obtain ⟨b, ys, hq⟩ := hq
    exact ⟨_, _, .node (l := ()) trivial hp hq⟩
  | nil => exact ⟨_, _, .single ⟨⟨.nil, nofun⟩, reads_thread_nil⟩⟩
  | placeholder s => exact ⟨_, _, .single ⟨⟨.placeholder s, nofun⟩, reads_placeholder s⟩⟩
  | select hp hpatterns hbodies hreads =>
    exact ⟨_, _, .single ⟨⟨.select hp hpatterns hbodies, nofun⟩,
      reads_select hp hpatterns hbodies fun c hc => haction (hreads c hc)⟩⟩
  | send hx hps => exact ⟨_, _, .single ⟨⟨.send hx hps, nofun⟩, reads_send hx hps⟩⟩
  | receive hcs hp hreads =>
    exact ⟨_, _, .single ⟨⟨.receive hcs hp, nofun⟩, reads_receive hcs hp (haction hreads)⟩⟩
  | contract hx hns hp hreads =>
    exact ⟨_, _, .single ⟨⟨.contract hx hns hp, nofun⟩, reads_contract hx hns hp (haction hreads)⟩⟩
  | new hne hbs hp hreads =>
    exact ⟨_, _, .single ⟨⟨.new hne hbs hp, nofun⟩, reads_new hne hbs hp (haction hreads)⟩⟩

/-- Actions that are written by the same lexemes are alike. -/
theorem IsAction.alike_of_lexemes {p q : Process} (hp : IsAction p) (hq : IsAction q)
    (h : p.lexemes = q.lexemes) : Alike p q :=
  (hp.reads hq (r := []) (s := []) nofun nofun (by simpa [action, Phrase.processes] using h)).1

/-- The lexemes of the text of an action. -/
theorem IsAction.ofText_text {p : Process} (hp : IsAction p) {text : WideString}
    (h : p.text = .ok text) : ofText text = some p.lexemes := by
  unfold Process.text Process.render at h
  split at h
  · rename_i out hrun
    cases h
    have hnone : (run {} p.layout).2 = none := by rw [hrun]
    obtain ⟨hstuck, htext⟩ := run_eq_written {} hnone
    rw [hrun] at htext
    rw [htext]
    simpa [Process.lexemes] using hp.writes hstuck 0
  · cases h

/-- Actions with the same text are alike. -/
theorem IsAction.alike_of_text {p q : Process} (hp : IsAction p) (hq : IsAction q)
    {text : WideString} (hptext : p.text = .ok text) (hqtext : q.text = .ok text) : Alike p q := by
  have hlexemes := (hp.ofText_text hptext).symm.trans (hq.ofText_text hqtext)
  exact hp.alike_of_lexemes hq (Option.some.inj hlexemes)

end RhoScript
