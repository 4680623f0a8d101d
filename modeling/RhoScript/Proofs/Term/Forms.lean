import RhoScript.Proofs.Number.Numerals
import RhoScript.Proofs.Term.Grouping
import RhoScript.Proofs.Term.Lexemes
import RhoScript.Source.Token

/-!
# The forms of terms

Not every term can be read back from its text. Those that programs are made into have two forms: data
stands for values, and actions are what data is sent by and received into. Operators join data only, and
only actions stand side by side.

Main statement: what is written for a term of these forms has the lexemes of the commands that write it
(`IsData.writes`, `IsAction.writes`).
-/

namespace RhoScript

open Printer Lexeme

/-! ### Names -/

/-- A text that names can be: one word that begins as names of the source do. -/
def IsName (x : String) : Prop := IsWord x ∧ ∃ c ∈ x.toList.head?, Source.isNameStart c = true

/-- A binding whose name and resource can be read back. -/
def Binding.IsSpelled : Binding → Prop
  | .plain x => IsName x
  | .resource x uri => IsName x ∧ .char '\x60' ∉ uri

/-! ### Numbers -/

theorem isNumeralPart_of_mem_toDigits {n : Nat} {c : Char} (h : c ∈ Nat.toDigits 10 n) :
    isNumeralPart c = true :=
  isNumeralPart_of_isDigit (Number.Numeral.isDigit_of_mem_toDigits n c h)

/-- A number is written with characters of numbers. -/
theorem isNumeralPart_of_mem_write {x : Number.Decimal} {c : Char}
    (h : c ∈ (Ground.style.write x).toList) : isNumeralPart c = true := by
  have hdigits : ∀ n, ∀ c ∈ Nat.toDigits 10 n, isNumeralPart c = true := fun n c hc =>
    isNumeralPart_of_mem_toDigits hc
  have hzeros : ∀ n, ∀ c ∈ List.replicate n '0', isNumeralPart c = true := fun n c hc =>
    List.eq_of_mem_replicate hc ▸ rfl
  unfold Number.NumeralStyle.write at h
  dsimp only at h
  split at h
  · simp only [Ground.style, String.toList_append, String.toList_ofList, List.mem_append] at h
    obtain (h | h) | h := h
    · exact hdigits _ c h
    · exact hzeros _ c h
    · cases h
  split at h
  · simp only [String.toList_ofList, List.mem_append, List.mem_cons] at h
    obtain h | rfl | h := h
    · exact hdigits _ c (List.mem_of_mem_take h)
    · rfl
    · exact hdigits _ c (List.mem_of_mem_drop h)
  split at h
  · simp only [String.toList_ofList, List.cons_append, List.mem_append, List.mem_cons] at h
    obtain rfl | rfl | h | h := h
    · rfl
    · rfl
    · exact hzeros _ c h
    · exact hdigits _ c h
  · simp only [String.toList_ofList, List.cons_append, List.append_assoc, List.mem_append,
      List.mem_cons] at h
    obtain h | h | rfl | h | h | h := h
    · exact hdigits _ c (List.mem_of_mem_take h)
    · split at h
      · cases h
      · obtain rfl | h := List.mem_cons.mp h
        · rfl
        · exact hdigits _ c (List.mem_of_mem_drop h)
    · rfl
    · split at h <;> exact h ▸ rfl
    · exact hzeros _ c h
    · exact hdigits _ c h

theorem write_ne_nil (x : Number.Decimal) : (Ground.style.write x).toList ≠ [] := by
  have hdigits : Nat.toDigits 10 x.digits ≠ [] := Nat.toDigits_ne_nil
  unfold Number.NumeralStyle.write
  dsimp only
  split
  · simp [hdigits]
  split
  · simp
  split <;> simp

theorem numeral_doubleText (x : Number.Double) :
    Ground.doubleText x = "null" ∨ (Ground.doubleText x).toList ≠ [] ∧
      ∀ c ∈ (Ground.doubleText x).toList, isNumeralPart c = true := by
  unfold Ground.doubleText
  split
  · exact .inl rfl
  split
  · exact .inr ⟨by decide, List.all_eq_true.mp (by decide)⟩
  · refine .inr ⟨?_, ?_⟩
    · rw [String.toList_append]
      exact List.append_ne_nil_of_right_ne_nil _ (write_ne_nil _)
    · intro c hc
      rw [String.toList_append, List.mem_append] at hc
      obtain hc | hc := hc
      · split at hc
        · exact List.mem_singleton.mp hc ▸ rfl
        · cases hc
      · exact isNumeralPart_of_mem_write hc

/-- A number that has a text is written with characters of numbers, or is `null`. -/
theorem numeral_of_text? {v : Ground} (hv : v.isNumber = true) {out : WideString}
    (h : v.text? = some out) : ∃ text : String, out = text ∧
      (text = "null" ∨ text.toList ≠ [] ∧ ∀ c ∈ text.toList, isNumeralPart c = true) := by
  cases v with
  | bool | string => cases hv
  | double x => exact ⟨_, (Option.some.inj h).symm, numeral_doubleText x⟩
  | int n =>
    rw [Ground.text?] at h
    split at h
    · refine ⟨_, (Option.some.inj h).symm, .inr ⟨?_, ?_⟩⟩
      · simp [Ground.digitsText, Nat.toDigits_ne_nil]
      · intro c hc
        rw [Ground.digitsText, String.toList_append, List.mem_append, String.toList_ofList] at hc
        obtain hc | hc := hc
        · split at hc
          · exact List.mem_singleton.mp hc ▸ rfl
          · cases hc
        · exact isNumeralPart_of_mem_toDigits hc
    · dsimp only at h
      split at h
      · exact ⟨_, (Option.some.inj h).symm, numeral_doubleText _⟩
      · cases h

theorem isWord_of_numeralPart {text : String} (hne : text.toList ≠ [])
    (h : ∀ c ∈ text.toList, isNumeralPart c = true) : IsWord text :=
  ⟨hne, fun c hc => isLetter_of (h c hc) (by decide)⟩

theorem isWord_number {v : Ground} (hv : v.isNumber = true) {out : WideString}
    (h : v.text? = some out) : ∃ text : String, out = text ∧ IsWord text := by
  obtain ⟨text, rfl, rfl | ⟨hne, hparts⟩⟩ := numeral_of_text? hv h
  · exact ⟨_, rfl, by decide⟩
  · exact ⟨_, rfl, isWord_of_numeralPart hne hparts⟩

/-! ### Data and actions -/

/-- The operators that join data. -/
def operators : List String := ["and", "or", "=="]

/-- What stands for a value. -/
inductive IsData : Process → Prop
  | nil : IsData .nil
  | ground (v : Ground) : IsData (.ground v)
  | drop {x : String} : IsName x → IsData (.drop (.var x))
  | binary {o : String} {p q : Process} : o ∈ operators → IsData p → IsData q →
      IsData (.binary o p q)
  | unary {p : Process} : IsData p → IsData (.unary "bundle+" p)
  | tuple {ps : List Process} : (∀ p ∈ ps, IsData p) → IsData (.tuple ps)
  | map {es : List (WideString × Process)} : (∀ e ∈ es, IsData e.2) → IsData (.map es)

/-- What data can be received into. -/
inductive IsPattern : Name → Prop
  | var {x : String} : IsName x → IsPattern (.var x)
  | quote {p : Process} : IsData p → IsPattern (.quote p)

/-- A clause of a receiver. -/
structure IsClause (c : List Name × Name) : Prop where
  patterns : ∀ n ∈ c.1, IsPattern n
  channel : ∃ x, IsName x ∧ c.2 = .var x

/-- What the statements of a program become. -/
inductive IsAction : Process → Prop
  | nil : IsAction .nil
  | placeholder (s : WideString) : IsAction (.ground (.string s))
  | select {p : Process} {cs : List (Process × Process)} : IsData p → (∀ c ∈ cs, IsData c.1) →
      (∀ c ∈ cs, IsAction c.2) → IsAction (.select p cs)
  | send {x : String} {ps : List Process} : IsName x → (∀ p ∈ ps, IsData p) →
      IsAction (.send (.var x) ps)
  | receive {cs : List (List Name × Name)} {p : Process} : (∀ c ∈ cs, IsClause c) → IsAction p →
      IsAction (.receive cs p)
  | contract {x : String} {ns : List Name} {p : Process} : IsName x → (∀ n ∈ ns, IsPattern n) →
      IsAction p → IsAction (.contract (.var x) ns p)
  | par {p q : Process} : IsAction p → IsAction q → IsAction (.par p q)
  | new {bs : List Binding} {p : Process} : bs ≠ [] → (∀ b ∈ bs, b.IsSpelled) → IsAction p →
      IsAction (.new bs p)

/-! ### What is written for them -/

theorem writes_row {c : Command} (hc : c.Breaks) {xss : List (List Command)}
    (h : ∀ xs ∈ xss, Writes xs) : Writes (row c xss) := by
  induction xss with
  | nil => exact writes_nil
  | cons xs rest ih =>
    obtain ⟨hxs, hrest⟩ := List.forall_mem_cons.mp h
    cases rest with
    | nil => exact hxs
    | cons ys rest => exact hxs.append_cons hc (ih hrest)

theorem breaks_comma : (Command.print ", ").Breaks := ⟨fun _ => rfl, fun _ _ => rfl⟩

theorem ends_quotedText (s : WideString) : (Command.print (Ground.quotedText s)).Ends :=
  ends_print (scan_quotedText s)

theorem writes_ground (v : Ground) : Writes [v.layout] := by
  unfold Ground.layout
  split
  · rename_i text htext
    cases v with
    | bool b =>
      obtain rfl := Option.some.inj htext
      cases b <;> exact writes_word (by decide)
    | string s =>
      obtain rfl := Option.some.inj htext
      exact writes_nil.cons (ends_quotedText s)
    | int | double =>
      obtain ⟨_, rfl, hword⟩ := isWord_number rfl htext
      exact writes_word hword
  · exact writes_stuck _

/-- A bracketed row of what can be written. -/
theorem writes_bracketed {opening closing : Command} (hopening : opening.Ends)
    (hclosing : closing.Breaks) {xss : List (List Command)} (h : ∀ xs ∈ xss, Writes xs) :
    Writes (opening :: row (.print ", ") xss ++ [closing]) :=
  ((writes_row breaks_comma h).append_singleton hclosing).cons hopening

theorem IsData.writes {p : Process} (h : IsData p) : Writes p.layout := by
  induction h with
  | nil => exact writes_word (by decide)
  | ground v => exact writes_ground v
  | drop hx => exact (writes_word hx.1).cons fun _ => rfl
  | binary ho _ _ hp hq =>
    refine hp.append_cons ?_ hq
    simp only [operators, List.mem_cons, List.not_mem_nil, or_false] at ho
    obtain rfl | rfl | rfl := ho <;> exact ⟨fun _ => rfl, fun _ _ => rfl⟩
  | unary _ hp =>
    have hoperator : Writes [.print "bundle+"] := writes_word (by decide)
    exact hoperator.append_cons ⟨fun _ => rfl, fun _ _ => rfl⟩
      (hp.append_singleton ⟨fun _ => rfl, fun _ _ => rfl⟩)
  | tuple _ hps =>
    rw [Process.layout, Process.layoutAll_eq]
    exact writes_bracketed (fun _ => rfl) ⟨fun _ => rfl, fun _ _ => rfl⟩ (by simpa using hps)
  | map _ hes =>
    rw [Process.layout, Process.layoutEntries_eq]
    refine writes_bracketed (fun _ => rfl) ⟨fun _ => rfl, fun _ _ => rfl⟩ ?_
    intro xs hxs
    obtain ⟨e, he, rfl⟩ := List.mem_map.mp hxs
    exact ((hes e he).cons fun _ => rfl).cons (ends_quotedText e.1)

theorem IsPattern.writes {n : Name} (h : IsPattern n) : Writes n.layout := by
  cases h with
  | var hx => exact writes_word hx.1
  | quote hp => exact (hp.writes.append_singleton ⟨fun _ => rfl, fun _ _ => rfl⟩).cons fun _ => rfl

theorem writes_patterns {ns : List Name} (h : ∀ n ∈ ns, IsPattern n) :
    Writes (row (.print ", ") (ns.map Name.layout)) :=
  writes_row breaks_comma (List.forall_mem_map.mpr fun n hn => (h n hn).writes)

theorem IsClause.writes {c : List Name × Name} (h : IsClause c) : Writes (layoutClause c) := by
  obtain ⟨x, hx, hchannel⟩ := h.channel
  rw [layoutClause, hchannel]
  exact (writes_patterns h.patterns).append_cons ⟨fun _ => rfl, fun _ _ => rfl⟩ (writes_word hx.1)

theorem Binding.text_resource (x : String) (uri : WideString) : (Binding.resource x uri).text =
    (x : WideString) ++ ([.char '(', .char '\x60'] ++ (uri ++ [.char '\x60', .char ')'])) := by
  simp [Binding.text, WideString.ofString]

theorem scan_resource_text {x : String} {uri : WideString} (hx : IsWord x) (huri : .char '\x60' ∉ uri) :
    scan .between (Binding.resource x uri).text =
      (.between, [.word x, .mark '(', .resource uri, .mark ')']) := by
  have hopening : scan (.word x) [.char '(', .char '\x60'] = (.resource [], [.word x, .mark '(']) := rfl
  have hclosing : scan (.resource uri) [.char '\x60', .char ')'] =
      (.between, [.resource uri, .mark ')']) := rfl
  rw [Binding.text_resource, scan_append, scan_word hx, scan_append, hopening, scan_append,
    scan_resource huri, List.nil_append, hclosing]
  rfl

theorem Binding.IsSpelled.writes {b : Binding} (h : b.IsSpelled) : Writes [.print b.text] := by
  cases b with
  | plain x => exact writes_word h.1
  | resource x uri => exact writes_nil.cons (ends_print (scan_resource_text h.1.1 h.2))

theorem Binding.IsSpelled.writes_layoutNext {b : Binding} (h : b.IsSpelled) {xs : List Command}
    (hxs : Writes xs) : Writes (xs ++ b.layoutNext) := by
  cases b with
  | plain x => exact hxs.append_cons breaks_comma h.writes
  | resource x uri =>
    exact hxs.append_cons ⟨fun _ => rfl, fun _ _ => rfl⟩ (h.writes.cons breaks_newline.1)

theorem writes_bindings {bs : List Binding} (h : ∀ b ∈ bs, b.IsSpelled) :
    Writes (Binding.layoutAll bs) := by
  have hnext : ∀ xs, Writes xs → ∀ bs : List Binding, (∀ b ∈ bs, b.IsSpelled) →
      Writes (xs ++ bs.flatMap Binding.layoutNext) := by
    intro xs hxs bs h
    induction bs generalizing xs with
    | nil => simpa using hxs
    | cons b rest ih =>
      obtain ⟨hb, hrest⟩ := List.forall_mem_cons.mp h
      rw [List.flatMap_cons, ← List.append_assoc]
      exact ih _ (hb.writes_layoutNext hxs) hrest
  cases bs with
  | nil => exact writes_nil
  | cons b rest =>
    obtain ⟨hb, hrest⟩ := List.forall_mem_cons.mp h
    exact hnext _ hb.writes rest hrest

/-- What is written up to a level that is opened, and on that level. -/
theorem writes_level (text : WideString) (htext : (Command.print text).Breaks) {xs ys zs : List Command}
    (hxs : Writes xs) (hys : Writes ys) (hzs : Writes zs) :
    Writes (xs ++ .enter text :: (ys ++ .leave "\x7d" :: zs)) :=
  hxs.append_cons (breaks_enter htext) (hys.append_cons (breaks_leave fun _ => rfl) hzs)

theorem writes_cases {cs : List (Process × Process)} (hpatterns : ∀ c ∈ cs, IsData c.1)
    (hbodies : ∀ c ∈ cs, Writes c.2.layout) : Writes (cs.flatMap layoutCase) := by
  induction cs with
  | nil => exact writes_nil
  | cons c rest ih =>
    obtain ⟨hpattern, hpatterns⟩ := List.forall_mem_cons.mp hpatterns
    obtain ⟨hbody, hbodies⟩ := List.forall_mem_cons.mp hbodies
    simpa [layoutCase] using writes_level " => \x7b" ⟨fun _ => rfl, fun _ _ => rfl⟩
      hpattern.writes hbody (ih hpatterns hbodies)

theorem IsAction.writes {p : Process} (h : IsAction p) : Writes p.layout := by
  induction h with
  | nil => exact writes_word (by decide)
  | placeholder s => exact writes_ground (.string s)
  | @select p cs hp hpatterns _ hbodies =>
    have hcases := writes_cases hpatterns hbodies
    have hselect := writes_level ") \x7b" ⟨fun _ => rfl, fun _ _ => rfl⟩ hp.writes hcases
      writes_nil
    rw [Process.layout, Process.layoutCases_eq]
    simpa using (hselect.cons (c := .print "match (") fun _ => rfl).cons breaks_newline.1
  | @send x ps hx hps =>
    have harguments : Writes (row (.print ", ") (ps.map Process.layout)) :=
      writes_row breaks_comma (List.forall_mem_map.mpr fun p hp => (hps p hp).writes)
    rw [Process.layout, Process.layoutAll_eq, Name.layout]
    simpa using (writes_word hx.1).append_cons (c := .print "!(") ⟨fun _ => rfl, fun _ _ => rfl⟩
      (harguments.append_singleton (c := .print ")") ⟨fun _ => rfl, fun _ _ => rfl⟩)
  | @receive cs p hcs _ hp =>
    have hclauses : Writes (row (.print "; ") (cs.map layoutClause)) :=
      writes_row ⟨fun _ => rfl, fun _ _ => rfl⟩ (List.forall_mem_map.mpr fun c hc => (hcs c hc).writes)
    have hlevel := writes_level ") \x7b" ⟨fun _ => rfl, fun _ _ => rfl⟩ hclauses hp
      writes_nil
    rw [Process.layout, Name.layoutClauses_eq]
    simpa using hlevel.cons (c := .print "for(") fun _ => rfl
  | @contract x ns p hx hns _ hp =>
    have hlevel := writes_level ") = \x7b" ⟨fun _ => rfl, fun _ _ => rfl⟩
      (writes_patterns hns) hp writes_nil
    rw [Process.layout, Name.layoutAll_eq, Name.layout]
    simpa using ((writes_word hx.1).append_cons (c := .print "(") ⟨fun _ => rfl, fun _ _ => rfl⟩
      hlevel).cons (c := .print "contract ") fun _ => rfl
  | par _ _ hp hq =>
    have hbar : Writes [.print "|"] := writes_word (by decide)
    exact hp.append_cons breaks_newline (hbar.append_cons breaks_newline hq)
  | @new bs p _ hbs _ hp =>
    have hlevel := (hp.append_singleton (c := .leave "\x7d") (breaks_leave fun _ => rfl)).cons
      (c := .enter "in \x7b") (ends_enter fun _ => rfl)
    rw [Process.layout]
    simpa using (((writes_bindings hbs).append_cons breaks_newline hlevel).cons
      (c := .print "new ") fun _ => rfl).cons breaks_newline.1

end RhoScript
