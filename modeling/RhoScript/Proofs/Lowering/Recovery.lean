import RhoScript.Proofs.Lowering.Composition
import RhoScript.Proofs.Lowering.Placeholders
import RhoScript.Proofs.Term.Erasure

/-!
# Recovery is local

A statement that is replaced by a placeholder is noted, and lowering goes on. Main statement: with such a
statement or without it, a block fails with the same report, or is lowered to the same process apart from
placeholders, with the same reply channels and the same diagnostics but for the one of the statement
(`lowerBlock_append_soft`). The statements before it must not be ones that nothing may follow.
-/

namespace RhoScript.Lowering

/-- A return, or an expression statement that sends a message. Nothing may follow it in its block. -/
def isFinal : Node → Bool
  | .returnStatement .. => true
  | .expressionStatement _ e => (loggedArgument? e).isNone && (eventualCall (some e)).isOk
  | _ => false

/-- The runs fail alike, or the second differs from the first in placeholders and in that it did not note
the shape `d`. -/
inductive Recovered (d : Diagnostic) :
    Except Failure Process × Ledger → Except Failure Process × Ledger → Prop
  | error {e : Failure} {l l' : Ledger} : Recovered d (.error e, l) (.error e, l')
  | ok {p q : Process} {l l' : Ledger} {ds es : List Diagnostic} :
      l.counter = l'.counter → l.diagnostics = ds ++ d :: es → l'.diagnostics = ds ++ es →
      p.without isMarked = q.without isMarked → Recovered d (.ok p, l) (.ok q, l')

/-- From every ledger, the second part runs like the first without noting the shape `d`. -/
def RecoversAs (d : Diagnostic) (m m' : LowerM Process) : Prop :=
  ∀ l, Recovered d (ExceptT.run m l) (ExceptT.run m' l)

namespace RecoversAs

variable {α : Type} {d : Diagnostic} {rest rest' : LowerM Process} {t : Node} {after after' : List Node}

theorem of_error (e : Failure) (f f' : α → LowerM Process) :
    RecoversAs d (liftM (Except.error e : Except Failure α) >>= f)
      (liftM (Except.error e : Except Failure α) >>= f') := fun _ => .error

/-- What comes first in both parts runs in the same way. -/
theorem bind (m : LowerM α) {f f' : α → LowerM Process} (h : ∀ a, RecoversAs d (f a) (f' a)) :
    RecoversAs d (m >>= f) (m >>= f') := by
  intro l
  rw [run_bind, run_bind]
  rcases ExceptT.run m l with ⟨e | a, l₁⟩
  · exact .error
  · exact h a l₁

/-- What the parts become is put in the same place. -/
theorem map (h : RecoversAs d rest rest') {f : Process → Process}
    (hf : ∀ {p q : Process}, p.without isMarked = q.without isMarked →
      (f p).without isMarked = (f q).without isMarked) :
    RecoversAs d (rest >>= fun p => pure (f p)) (rest' >>= fun p => pure (f p)) := by
  intro l
  have hrest := h l
  rw [run_bind, run_bind]
  generalize ExceptT.run rest l = r, ExceptT.run rest' l = r' at hrest
  cases hrest with
  | error => exact .error
  | ok hcounter hds hds' hpq => exact .ok hcounter hds hds' (hf hpq)

theorem beside (p : Process) (h : RecoversAs d rest rest') :
    RecoversAs d (do return p.beside (← rest)) (do return p.beside (← rest')) :=
  h.map fun hpq => by rw [Process.without_beside, Process.without_beside, hpq]

/-! ### Statements that do not end a block -/

theorem lowerInitial (d₀ id : Node) (init : Option Node) (h : RecoversAs d rest rest') :
    RecoversAs d (lowerInitial d₀ id init rest) (lowerInitial d₀ id init rest') := by
  obtain _ | n := init
  · exact bind _ fun p => h.beside p
  cases n
  case awaitExpression loc argument =>
    refine bind _ fun awaited => h.map fun hpq => ?_
    simp only [Process.without, Process.without_beside, hpq]
  case objectExpression loc properties =>
    have hname : RecoversAs d (do return Process.new [.plain (← identifierName id)] (← rest))
        (do return Process.new [.plain (← identifierName id)] (← rest')) :=
      bind _ fun _ => h.map fun hpq => by simp only [Process.without, hpq]
    rw [Lowering.lowerInitial, Lowering.lowerInitial]
    split
    · exact bind _ fun _ => hname
    · exact hname
  case callExpression loc callee arguments =>
    refine bind _ fun name => ?_
    have hsuite := bind (lowerSuite id (.callExpression loc callee arguments) arguments) fun a =>
      h.map (f := fun q => .new [.plain a.1] (.besideAll (a.2 ++ [q]))) fun hpq => by
        simp only [Process.without, Process.without_besideAll, List.map_append, List.map_cons, hpq]
    split
    · exact bind _ fun _ => hsuite
    · exact hsuite
  case literal loc value raw =>
    refine bind _ fun name => bind _ fun specimen => h.map fun hpq => ?_
    simp only [Process.without, Process.withoutCases, hpq]
  all_goals exact bind _ fun p => h.beside p

theorem lowerDeclarators (declarations : List Node) (h : RecoversAs d rest rest') :
    RecoversAs d (lowerDeclarators declarations rest) (lowerDeclarators declarations rest') := by
  cases declarations with
  | nil => exact h
  | cons n tail =>
    cases n
    case variableDeclarator loc id init => exact h.lowerInitial _ id init
    all_goals exact h

theorem expressionStatement {loc : Loc} {e : Node} (ht : isFinal (.expressionStatement loc e) = false)
    (h : RecoversAs d rest rest') :
    RecoversAs d (lowerStatement (.expressionStatement loc e) after rest)
      (lowerStatement (.expressionStatement loc e) after' rest') := by
  simp only [isFinal] at ht
  simp only [lowerStatement]
  split
  · exact bind _ fun value => h.beside _
  · rename_i hlogged
    cases e
    case callExpression cloc callee arguments =>
      cases hcall : eventualCall (some (.callExpression cloc callee arguments)) with
      | error e =>
        dsimp only
        rw [hcall]
        exact of_error e _ _
      | ok call => simp [hlogged, hcall, Except.isOk, Except.toBool] at ht
    all_goals exact bind _ fun p => h.beside p

/-- A statement that others may follow goes on in the same way. -/
theorem lowerStatement (ht : isFinal t = false) (h : RecoversAs d rest rest') :
    RecoversAs d (lowerStatement t after rest) (lowerStatement t after' rest') := by
  cases t
  case variableDeclaration loc declarations kind =>
    exact bind _ fun _ => h.lowerDeclarators declarations
  case expressionStatement loc e => exact expressionStatement ht h
  case switchStatement loc discriminant cases => exact bind _ fun _ => bind _ fun _ => h.beside _
  case returnStatement loc argument => cases ht
  all_goals exact bind _ fun p => h.beside p

end RecoversAs

/-! ### The statement that is replaced -/

theorem lowerStatement_soft {s n : Node} {expected : String} (h : Soft s expected n)
    (after : List Node) (rest : LowerM Process) :
    lowerStatement s after rest = do return .beside (← replace expected n) (← rest) := by
  cases h with
  | statement hs => cases s <;> first | rfl | cases hs
  | expression hn => cases n <;> first | rfl | cases hn
  | initial hn => cases n <;> first | rfl | cases hn
  | missing => rfl

theorem without_placeholder (n : Node) : (placeholder n).without isMarked = .nil := by
  rw [placeholder, Process.without, Ground.without, if_pos (isMarked_placeholder n)]

theorem recoversAs_soft {s n : Node} {expected : String} (h : Soft s expected n) (body : List Node) :
    RecoversAs ⟨n.position, expected, n.type⟩ (lowerBlock (s :: body)) (lowerBlock body) := by
  intro l
  obtain ⟨result, k, ds, hrun⟩ := uniform_lowerBlock body l.counter
  rw [lowerBlock, lowerStatement_soft h, run_bind, run_replace]
  simp only
  rw [run_bind, hrun (l.note _) rfl, hrun l rfl]
  cases result with
  | error e => exact .error
  | ok q =>
    refine .ok rfl (List.append_assoc ..) rfl ?_
    rw [Process.without_beside, without_placeholder, Process.nil_beside]

/-- **Recovery is local**: a block with a statement that is replaced by a placeholder fails in the same
way as the block without it, or both are lowered, with the same reply channels, with one diagnostic more,
and with the same process, apart from placeholders. -/
theorem lowerBlock_append_soft {s n : Node} {expected : String} (hs : Soft s expected n)
    {b₁ : List Node} (hb₁ : ∀ t ∈ b₁, isFinal t = false) (b₂ : List Node) (l : Ledger) :
    (∃ e l₁ l₂, ExceptT.run (lowerBlock (b₁ ++ s :: b₂)) l = (.error e, l₁) ∧
      ExceptT.run (lowerBlock (b₁ ++ b₂)) l = (.error e, l₂)) ∨
    ∃ p q l₁ l₂ ds es, Yields (lowerBlock (b₁ ++ s :: b₂)) l p l₁ ∧
      Yields (lowerBlock (b₁ ++ b₂)) l q l₂ ∧ l₁.counter = l₂.counter ∧
      l₁.diagnostics = ds ++ ⟨n.position, expected, n.type⟩ :: es ∧ l₂.diagnostics = ds ++ es ∧
      p.without isMarked = q.without isMarked := by
  have hrecovers : RecoversAs ⟨n.position, expected, n.type⟩ (lowerBlock (b₁ ++ s :: b₂))
      (lowerBlock (b₁ ++ b₂)) := by
    induction b₁ with
    | nil => exact recoversAs_soft hs b₂
    | cons t rest ih =>
      obtain ⟨ht, hrest⟩ := List.forall_mem_cons.mp hb₁
      exact (ih hrest).lowerStatement ht
  have hl := hrecovers l
  unfold Yields
  generalize ExceptT.run (lowerBlock (b₁ ++ s :: b₂)) l = r at hl
  generalize ExceptT.run (lowerBlock (b₁ ++ b₂)) l = r' at hl
  cases hl with
  | error => exact .inl ⟨_, _, _, rfl, rfl⟩
  | ok hcounter hds hds' hpq => exact .inr ⟨_, _, _, _, _, _, rfl, rfl, hcounter, hds, hds', hpq⟩

/-- The declaration of a channel. -/
def channelDeclaration : Node :=
  constant none none (.identifier none "x") (some (.objectExpression none []))

/-- In the scope of a declaration, a `throw` is replaced by a placeholder, and the `return` after it is
lowered as if it were not there. -/
theorem lowerBlock_append_throw : ∃ p q l₁ l₂,
    Yields (lowerBlock ([channelDeclaration] ++
      .throwStatement none (.identifier none "x") :: [.returnStatement none none])) {} p l₁ ∧
    Yields (lowerBlock ([channelDeclaration] ++ [.returnStatement none none])) {} q l₂ ∧
    l₁.diagnostics.length = l₂.diagnostics.length + 1 ∧
    p.without isMarked = q.without isMarked := by
  have hfinal : ∀ t ∈ [channelDeclaration], isFinal t = false := List.forall_mem_singleton.mpr rfl
  have hsoft : Soft (.throwStatement none (.identifier none "x")) statementShapes _ := .statement rfl
  obtain ⟨e, _, _, herror, -⟩ | ⟨p, q, l₁, l₂, ds, es, hp, hq, -, hds, hds', hpq⟩ :=
    lowerBlock_append_soft hsoft hfinal [.returnStatement none none] {}
  · cases herror
  · refine ⟨p, q, l₁, l₂, hp, hq, ?_, hpq⟩
    rw [hds, hds', List.length_append, List.length_append, List.length_cons, Nat.add_assoc]

end RhoScript.Lowering
