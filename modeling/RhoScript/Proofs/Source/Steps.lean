import RhoScript.Source.Program

/-!
# The steps of the parser

The parser finds a token that belongs to the first pending symbol, or it expands that symbol. It ends
because what is unread gets less and the pending symbols get lighter; so its definition does not
evaluate in proofs, but its steps can be taken one by one. With a bound on their number they evaluate:
if the bound suffices, the result is that of the parser (`parse_eq_of_parseWithin`), and the tree of a
given text can be computed (`readProgram_eq_of_readWithin`), or the position where it is rejected
(`readProgram_eq_of_rejectedWithin`).
-/

namespace RhoScript.Source

variable {α : Type} {place : Place} {rest : List Symbol} {ahead : Option Token} {cursor : Cursor}
  {last : Position}

/-! ### Single steps -/

/-- At the end of a source nothing may be pending. -/
theorem parse_nil (build : Forest [] → α) :
    parse [] build none cursor last = .ok (build .nil) := by
  simp [parse]

/-- A token is found where its terminal is pending, and the next one is read. -/
theorem parse_leaf {t : Terminal} {token : Token} {next : Option Token} {cursor' : Cursor}
    (build : Forest (.tok t place :: rest) → α) (belongs : token.terminal = t)
    (hread : read place cursor = .ok (next, cursor')) :
    parse (.tok t place :: rest) build (some token) cursor last =
      parse rest (fun more => build (.cons (.leaf token belongs) more)) next cursor' token.start := by
  rw [parse]
  simp only [belongs, dite_true]
  split
  · rename_i heq
    rw [hread] at heq
    cases heq
  · rename_i heq
    rw [hread] at heq
    cases heq
    rfl

/-- A category is expanded by the production that the next token chooses. -/
theorem parse_node {n : Nonterminal} {p : Production n} (build : Forest (.sub n :: rest) → α)
    (hpredict : predict n (ahead.map (·.terminal)) = some p) :
    parse (.sub n :: rest) build ahead cursor last =
      parse (p.parts ++ rest) (fun more => build (.cons (.node p more.split.1) more.split.2)) ahead
        cursor last := by
  rw [parse.eq_def]
  simp only [hpredict]

/-- After a token that is found, none can be read. -/
theorem parse_unreadable {t : Terminal} {token : Token} {position : Position}
    (build : Forest (.tok t place :: rest) → α) (belongs : token.terminal = t)
    (hread : read place cursor = .error position) :
    parse (.tok t place :: rest) build (some token) cursor last = .error position := by
  rw [parse]
  simp only [belongs, dite_true]
  split
  · rename_i heq
    rw [hread] at heq
    cases heq
    rfl
  · rename_i heq
    rw [hread] at heq
    cases heq

/-! ### A bound on the number of steps -/

/-- Finds the pending symbols in at most `bound` steps; there is no result if these do not suffice, or
if the source is rejected. -/
def parseWithin (bound : Nat) (pending : List Symbol) (build : Forest pending → α)
    (ahead : Option Token) (cursor : Cursor) (last : Position) : Option α :=
  match bound, pending, ahead with
  | _ + 1, [], none => some (build .nil)
  | bound + 1, .tok t place :: rest, some token =>
    if belongs : token.terminal = t then
      match read place cursor with
      | .error _ => none
      | .ok (next, cursor') =>
        parseWithin bound rest (fun more => build (.cons (.leaf token belongs) more)) next cursor'
          token.start
    else none
  | bound + 1, .sub n :: rest, ahead =>
    match predict n (ahead.map (·.terminal)) with
    | none => none
    | some p =>
      parseWithin bound (p.parts ++ rest)
        (fun more => build (.cons (.node p more.split.1) more.split.2)) ahead cursor last
  | _, _, _ => none

/-- A result within the bound is the result of the parser. -/
theorem parse_eq_of_parseWithin {bound : Nat} {pending : List Symbol} {build : Forest pending → α}
    {result : α} (h : parseWithin bound pending build ahead cursor last = some result) :
    parse pending build ahead cursor last = .ok result := by
  fun_induction parseWithin bound pending build ahead cursor last with
  | case1 =>
    cases h
    exact parse_nil _
  | case2 => cases h
  | case3 cursor last bound place rest token next cursor' hread build ih =>
    rw [parse_leaf build rfl hread]
    exact ih h
  | case4 => cases h
  | case5 => cases h
  | case6 cursor last bound n rest ahead p hpredict build ih =>
    rw [parse_node build hpredict]
    exact ih h
  | case7 => cases h

/-- The tree of a source, if the parser finds it in at most `bound` steps. -/
def readWithin (bound : Nat) (source : String) : Option Node :=
  match read .item (.start source) with
  | .error _ => none
  | .ok (ahead, cursor) =>
    (parseWithin bound [.sub .program] (fun | .cons tree .nil => tree) ahead cursor ⟨1, 0⟩).bind
      fun tree => tree.program.toOption

theorem readProgram_eq_of_readWithin {bound : Nat} {source : String} {n : Node}
    (h : readWithin bound source = some n) : readProgram source = .ok n := by
  unfold readWithin at h
  split at h
  · cases h
  · rename_i ahead cursor hread
    obtain ⟨tree, htree, hprogram⟩ := Option.bind_eq_some_iff.mp h
    have hparse : parseProgram source = .ok tree := by
      unfold parseProgram
      rw [hread]
      exact parse_eq_of_parseWithin htree
    unfold readProgram
    rw [hparse]
    dsimp only
    cases hvalue : tree.program with
    | error e =>
      rw [hvalue] at hprogram
      cases hprogram
    | ok program =>
      rw [hvalue] at hprogram
      cases hprogram
      rfl

/-- The property `P` holds of the tree of a text if it is found to hold after reading the text in a bounded
number of steps. -/
theorem exists_readProgram_of_readWithin (bound : Nat) (text : String) (P : Node → Prop)
    [DecidablePred P] (h : (readWithin bound text).any (decide <| P ·) = true) :
    ∃ n, readProgram text = .ok n ∧ P n := by
  obtain ⟨n, hn, htest⟩ := (Option.any_eq_true _ _).mp h
  exact ⟨n, readProgram_eq_of_readWithin hn, of_decide_eq_true htest⟩

/-- The derivation of a source, if the parser finds it in at most `bound` steps. -/
def derivedWithin (bound : Nat) (source : String) : Option (Tree (.sub .program)) :=
  match read .item (.start source) with
  | .error _ => none
  | .ok (ahead, cursor) =>
    parseWithin bound [.sub .program] (fun | .cons tree .nil => tree) ahead cursor ⟨1, 0⟩

/-- The test succeeds on the derivation of a text if it succeeds after parsing the text in a bounded number
of steps. -/
theorem exists_parseProgram_of_derivedWithin (bound : Nat) (text : String)
    (test : Tree (.sub .program) → Bool) (h : (derivedWithin bound text).any test = true) :
    ∃ tree, parseProgram text = .ok tree ∧ test tree = true := by
  obtain ⟨tree, htree, htest⟩ := (Option.any_eq_true _ _).mp h
  refine ⟨tree, ?_, htest⟩
  unfold derivedWithin at htree
  unfold parseProgram
  rcases hread : read .item (.start text) with position | ⟨ahead, cursor⟩
  · rw [hread] at htree
    cases htree
  · rw [hread] at htree
    exact parse_eq_of_parseWithin htree

/-! ### Where sources are rejected -/

/-- The position where the parser stops, if it rejects the source in at most `bound` steps. -/
def stopWithin (bound : Nat) (pending : List Symbol) (ahead : Option Token) (cursor : Cursor)
    (last : Position) : Option Position :=
  match bound, pending, ahead with
  | _ + 1, [], some token => some token.start
  | bound + 1, .tok t place :: rest, some token =>
    if token.terminal = t then
      match read place cursor with
      | .error position => some position
      | .ok (next, cursor') => stopWithin bound rest next cursor' token.start
    else some token.start
  | _ + 1, .tok _ _ :: _, none => some last
  | bound + 1, .sub n :: rest, ahead =>
    match predict n (ahead.map (·.terminal)) with
    | none => some (ahead.elim last (·.start))
    | some p => stopWithin bound (p.parts ++ rest) ahead cursor last
  | _, _, _ => none

/-- A position that is found within the bound is where the parser stops. -/
theorem parse_eq_of_stopWithin {bound : Nat} {pending : List Symbol} (build : Forest pending → α)
    {p : Position} (h : stopWithin bound pending ahead cursor last = some p) :
    parse pending build ahead cursor last = .error p := by
  fun_induction stopWithin bound pending ahead cursor last with
  | case1 cursor last bound token =>
    cases h
    simp [parse]
  | case2 cursor last bound place rest token q hread =>
    cases h
    exact parse_unreadable build rfl hread
  | case3 cursor last bound place rest token next cursor' hread ih =>
    rw [parse_leaf build rfl hread]
    exact ih _ h
  | case4 cursor last bound t place rest token hne =>
    cases h
    rw [parse]
    simp [hne]
  | case5 cursor last bound t place rest =>
    cases h
    simp [parse]
  | case6 cursor last bound n rest ahead hpredict =>
    cases h
    rw [parse.eq_def]
    simp only [hpredict]
    cases ahead <;> rfl
  | case7 cursor last bound n rest ahead p hpredict ih =>
    rw [parse_node build hpredict]
    exact ih _ h
  | case8 => cases h

/-- The position where a source is rejected, if the parser finds it in at most `bound` steps. -/
def rejectedWithin (bound : Nat) (source : String) : Option Position :=
  match read .item (.start source) with
  | .error position => some position
  | .ok (ahead, cursor) => stopWithin bound [.sub .program] ahead cursor ⟨1, 0⟩

theorem readProgram_eq_of_rejectedWithin {bound : Nat} {source : String} {p : Position}
    (h : rejectedWithin bound source = some p) : readProgram source = .error (syntaxError source p) := by
  have hparse : parseProgram source = .error p := by
    unfold rejectedWithin at h
    unfold parseProgram
    rcases hread : read .item (.start source) with position | ⟨ahead, cursor⟩
    · rw [hread] at h
      cases h
      rfl
    · rw [hread] at h
      exact parse_eq_of_stopWithin _ h
  unfold readProgram
  rw [hparse]

end RhoScript.Source
