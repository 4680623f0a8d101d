import RhoScript.Source.Tree

/-!
# Parsing

A predictive parser keeps the symbols that are still to be found, the next token, and the cursor
after it. If the first symbol is a terminal, the token must belong to it, and another token is read
at the place after that terminal; if it is a category, the next token chooses a production, whose
parts take the place of the category. The derivation tree grows along: its open end is a function of
the derivations of the pending symbols.

A token that cannot go on is reported where it starts. If the source ends too early, the report is
at the start of its last token.
-/

namespace RhoScript.Source

/-! ### Reading takes characters -/

theorem Cursor.length_skipLayout_le (c : Cursor) : c.skipLayout.rest.length ≤ c.rest.length := by
  fun_induction Cursor.skipLayout c with
  | case1 c h => exact Nat.le_refl _
  | case2 c h hlt ih => exact Nat.le_trans ih (Nat.le_of_lt hlt)

theorem longest?_pos {text : List Char} {ts : List Terminal} {t : Terminal} {n : Nat}
    (h : longest? text ts = some (t, n)) : n ≠ 0 := by
  induction ts generalizing t n with
  | nil => simp [longest?] at h
  | cons u rest ih =>
    simp only [longest?] at h
    split at h
    · rename_i v m hr
      have := ih hr
      split at h <;> simp only [Option.some.injEq, Prod.mk.injEq] at h <;> omega
    · split at h
      · simp at h
      · simp only [Option.some.injEq, Prod.mk.injEq] at h
        omega

theorem lexeme?_pos {accepted : List Terminal} {text : List Char} {t : Terminal} {n : Nat}
    (h : lexeme? accepted text = some (t, n)) : n ≠ 0 := by
  unfold lexeme? at h
  split at h
  · rename_i hs
    simp only [Option.some.injEq, Prod.mk.injEq] at h
    exact h.2 ▸ hs.2
  · split at h
    · rename_i hs
      simp only [Option.some.injEq, Prod.mk.injEq] at h
      exact h.2 ▸ hs.2
    · split at h
      · rename_i hs
        simp only [Option.some.injEq, Prod.mk.injEq] at h
        exact h.2 ▸ hs.2
      · exact longest?_pos h

/-- How much of a source is unread: the characters after the next token, and the token. -/
def unread (ahead : Option Token) (c : Cursor) : Nat :=
  c.rest.length + if ahead.isSome then 1 else 0

/-- To read a token leaves at most what was unread before. -/
theorem unread_read_le {place : Place} {c c' : Cursor} {ahead : Option Token}
    (h : read place c = .ok (ahead, c')) : unread ahead c' ≤ c.rest.length := by
  have hle := c.length_skipLayout_le
  unfold read at h
  simp only at h
  split at h
  · simp only [Except.ok.injEq, Prod.mk.injEq] at h
    obtain ⟨rfl, rfl⟩ := h
    simpa [unread] using hle
  · rename_i hne
    split at h
    · rename_i t n hl
      have hn := lexeme?_pos hl
      simp only [Except.ok.injEq, Prod.mk.injEq] at h
      obtain ⟨rfl, rfl⟩ := h
      have hpos : 0 < c.skipLayout.rest.length := by
        rw [List.length_pos_iff]
        simpa using hne
      simp only [unread, Cursor.advance, List.length_drop, Option.isSome_some, if_true]
      omega
    · simp at h

/-! ### The parser -/

/-- Finds the pending symbols in the rest of a source, and gives the value that is built from their
derivations. The next token has been read already; `last` is where the token before it starts. -/
def parse {α : Type} (pending : List Symbol) (build : Forest pending → α)
    (ahead : Option Token) (cursor : Cursor) (last : Position) : Except Position α :=
  let stop := match ahead with
    | some token => token.start
    | none => last
  match pending with
  | [] => if ahead.isSome then .error stop else .ok (build .nil)
  | .tok t place :: rest =>
    match ahead with
    | none => .error stop
    | some token =>
      if belongs : token.terminal = t then
        match _h : read place cursor with
        | .error position => .error position
        | .ok (next, cursor') =>
          parse rest (fun more => build (.cons (.leaf token belongs) more)) next cursor' token.start
      else .error stop
  | .sub n :: rest =>
    match predict n (ahead.map (·.terminal)) with
    | none => .error stop
    | some p =>
      let grow (more : Forest (p.parts ++ rest)) :=
        let halves := more.split
        build (.cons (.node p halves.1) halves.2)
      parse (p.parts ++ rest) grow ahead cursor last
termination_by (unread ahead cursor, leadWeight pending)
decreasing_by
  · apply Prod.Lex.left
    have hle := unread_read_le _h
    simp only [unread, Option.isSome_some, if_true]
    simp only [unread] at hle
    omega
  · apply Prod.Lex.right
    exact leadWeight_expand_lt p rest

/-- The derivation of a source, or the position of its first error. -/
def parseProgram (source : String) : Except Position (Tree (.sub .program)) :=
  match read .item (.start source) with
  | .error position => .error position
  | .ok (ahead, cursor) =>
    parse [.sub .program] (fun | .cons tree .nil => tree) ahead cursor ⟨1, 0⟩

end RhoScript.Source
