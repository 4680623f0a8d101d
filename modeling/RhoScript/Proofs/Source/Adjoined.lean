import RhoScript.Proofs.Source.RoundTrip
import RhoScript.Proofs.Source.Spacing

/-!
# Words without blanks between them

A word needs no blank after it if what follows cannot be taken for a part of it: a character that is in no
name ends a name, a mark that begins no longer mark ends by itself, and so does a string. A text of such
words is a recast form of the text with blanks (`Adjoined.recast`), so what the words derive is found in
it too (`exists_readProgram_of_adjoined`).
-/

namespace RhoScript.Source

open Node

/-- What is found is accepted. -/
theorem mem_of_lexeme? {accepted : List Terminal} {text : List Char} {t : Terminal} {n : Nat}
    (h : lexeme? accepted text = some (t, n)) : t ∈ accepted := by
  unfold lexeme? at h
  split at h
  · rename_i hstring
    cases h
    exact hstring.1
  split at h
  · rename_i hnumber
    cases h
    exact hnumber.1
  split at h
  · rename_i hname
    cases h
    unfold wordTerminal
    cases hfind : accepted.find? fun t =>
        t.spelling? = some (String.ofList (text.take (nameLength text))) with
    | none => exact hname.1
    | some u => exact List.mem_of_find?_eq_some hfind
  · exact (longest?_spec h).1

/-- The marks that begin no longer mark. -/
def loneMarks : List Char := ['\x7b', '\x7d', '(', ')', '[', ']', ';', ',', ':', '.', '*', '%', '+', '-']

/-- A lone mark ends whatever follows. -/
theorem ends_loneMark {c : Char} (hc : c ∈ loneMarks) (rest : List Char) : Ends [c] rest where
  name h := by
    obtain ⟨d, tail, heq, hd, -⟩ := h
    obtain ⟨rfl, -⟩ := List.cons.inj heq
    have hnot : loneMarks.all (fun c => !isNameStart c) = true := by decide +kernel
    simpa [hd] using List.all_eq_true.mp hnot c hc
  spelling := by
    intro u s hu hprefix
    have hlone : loneMarks.all (fun c => s.toList.head? != some c || s.toList == [c]) = true := by
      cases u <;> cases hu <;> decide +kernel
    have hs := List.all_eq_true.mp hlone c hc
    cases htext : s.toList with
    | nil => exact List.nil_prefix
    | cons d tail =>
      rw [htext] at hprefix hs
      obtain ⟨rfl, -⟩ := List.cons_prefix_cons.mp hprefix
      simp only [List.head?_cons, bne_self_eq_false, Bool.false_or, beq_iff_eq] at hs
      exact hs ▸ List.prefix_refl _

/-- `Adjoined ws text`: the text consists of the words, and each ends where the next begins. -/
inductive Adjoined : List Word → List Char → Prop
  | nil : Adjoined [] []
  | spelling {t : Terminal} {s : String} {ws : List Word} {rest : List Char} :
      t.spelling? = some s → Ends s.toList rest → Adjoined ws rest →
      Adjoined (⟨t, s⟩ :: ws) (s.toList ++ rest)
  | name {x : String} {ws : List Word} {rest : List Char} : IsIdentifier x →
      nameLength (x.toList ++ rest) = x.toList.length → Adjoined ws rest →
      Adjoined (⟨.name, x⟩ :: ws) (x.toList ++ rest)
  | string {ws : List Word} {rest : List Char} (s : String) : Adjoined ws rest →
      Adjoined (⟨.string, Ground.stringText s⟩ :: ws) ((Ground.stringText s).toList ++ rest)

theorem Adjoined.mark {t : Terminal} {c : Char} {ws : List Word} {rest : List Char}
    (ht : t.spelling?.map String.toList = some [c]) (hc : c ∈ loneMarks) (h : Adjoined ws rest) :
    Adjoined (.mark t :: ws) (c :: rest) := by
  obtain ⟨s, hs, hchars⟩ := Option.map_eq_some_iff.mp ht
  have hword : Word.mark t = ⟨t, s⟩ := by
    rw [Word.mark, Terminal.spelling, hs]
    rfl
  have hends : Ends s.toList rest := hchars ▸ ends_loneMark hc rest
  have hmark := Adjoined.spelling hs hends h
  rwa [hchars, List.singleton_append, ← hword] at hmark

/-- A word with blanks after it can lose them if it is found without them. -/
theorem Recast.join {w : Word} {ws : List Word} {rest : List Char}
    (hfound : ∀ {accepted}, w.terminal ∈ accepted →
      lexeme? accepted (w.text.toList ++ rest) = some (w.terminal, w.text.toList.length))
    (h : Recast ws (textOf ws) rest) :
    Recast (w :: ws) (textOf (w :: ws)) (w.text.toList ++ rest) := by
  have hblank : IsLayout [' '] := .blank rfl .nil
  rw [textOf_cons]
  exact .word .nil .nil (fun _ hlexeme => hfound (mem_of_lexeme? hlexeme)) (h.prepend hblank .nil)

/-- **The blanks between words can be left out** where the words end by themselves. -/
theorem Adjoined.recast {ws : List Word} {text : List Char} (h : Adjoined ws text) :
    Recast ws (textOf ws) text := by
  induction h with
  | nil =>
    have hnil : ∀ p, (Cursor.mk [] p).skipLayout.rest = [] := fun p =>
      congrArg Cursor.rest (@skipLayout_textOf [] (List.forall_mem_nil _) p)
    exact .done hnil hnil
  | spelling hs hends _ ih => exact .join (fun hmem => lexeme?_spelling hmem hs hends) ih
  | name hx hends _ ih => exact .join (fun hmem => lexeme?_name hmem hx.1 (fun t _ => hx.2 t) hends) ih
  | string s _ ih => exact .join (fun hmem => lexeme?_string hmem s _) ih

/-- What words derive is found in their text without blanks. -/
theorem exists_readProgram_of_adjoined {ws : List Word} {n : Node} {source : String}
    (h : Derives (.sub .program) ws n) (htext : Adjoined ws source.toList) :
    ∃ m, readProgram source = .ok m ∧ m.bare = n.bare := by
  obtain ⟨tree, v, htokens, hvalue, hsame⟩ := h.exists_tree (spread ⟨1, 0⟩ ws) (map_word_spread _ ws)
  have hrecast : Recast (tree.tokens.map Token.word) (String.ofList (textOf ws)).toList
      source.toList := by
    rw [htokens, map_word_spread, String.toList_ofList]
    exact htext.recast
  obtain ⟨m, hm, hrelated⟩ :=
    exists_readProgram_of_recast (parseProgram_textOf h.isSpelled htokens) hvalue hrecast
  exact ⟨m, hm, (hrelated _ congruence_bareEq).symm.trans hsame⟩

end RhoScript.Source
