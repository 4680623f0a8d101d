import RhoScript.Proofs.Lowering.Rules

/-!
# The rules of expressions

What an expression can look like that becomes a process, and which process that is, as rules: one for
each shape, with a rule for the members of a list.

Main statement: an expression that becomes a process follows the rules (`evaluates_of_toProcess`), and a
pattern is an identifier or a tuple of such expressions (`toPattern_cases`).
-/

namespace RhoScript.Lowering

mutual

/-- `Evaluates n p`: the expression `n` becomes the process `p`. -/
inductive Evaluates : Node → Process → Prop
  | null {loc : Loc} {raw : Option String} : Evaluates (.literal loc none raw) .nil
  | literal {loc : Loc} {value : Ground} {raw : Option String} :
      Evaluates (.literal loc (some value) raw) (.ground value)
  | identifier {loc : Loc} {name : String} : Evaluates (.identifier loc name) (.drop (.var name))
  | binary {loc : Loc} {written operator : String} {left right : Node} {p q : Process} :
      operator? written = some operator → Evaluates left p → Evaluates right q →
      Evaluates (.binaryExpression loc written left right) (.binary operator p q)
  | logical {loc : Loc} {written operator : String} {left right : Node} {p q : Process} :
      operator? written = some operator → Evaluates left p → Evaluates right q →
      Evaluates (.logicalExpression loc written left right) (.binary operator p q)
  | bundlePlus {loc nloc : Loc} {argument : Node} {p : Process} :
      Evaluates argument p →
      Evaluates (.callExpression loc (.identifier nloc "bundlePlus") [argument]) (.unary "bundle+" p)
  | tuple {loc nloc : Loc} {arguments : List Node} {ps : List Process} :
      EvaluatesAll arguments ps →
      Evaluates (.callExpression loc (.identifier nloc "tuple") arguments) (.tuple ps)
  | object {loc : Loc} {properties : List Node} {es : List (WideString × Process)} :
      EntersAll properties es → Evaluates (.objectExpression loc properties) (.map es)

/-- The expressions become the processes, in order. -/
inductive EvaluatesAll : List Node → List Process → Prop
  | nil : EvaluatesAll [] []
  | cons {n : Node} {p : Process} {ns : List Node} {ps : List Process} :
      Evaluates n p → EvaluatesAll ns ps → EvaluatesAll (n :: ns) (p :: ps)

/-- The property becomes the entry of a map: it has a string for its key, and is no method. -/
inductive Enters : Node → WideString × Process → Prop
  | property {loc kloc : Loc} {key : WideString} {raw : Option String} {value : Node} {kind : String}
      {shorthand computed : Bool} {p : Process} :
      Evaluates value p →
      Enters (.property loc (.literal kloc (some (.string key)) raw) value kind false shorthand
        computed) (key, p)

/-- The properties become the entries of a map, in order. -/
inductive EntersAll : List Node → List (WideString × Process) → Prop
  | nil : EntersAll [] []
  | cons {n : Node} {e : WideString × Process} {ns : List Node} {es : List (WideString × Process)} :
      Enters n e → EntersAll ns es → EntersAll (n :: ns) (e :: es)

end

/-- A call is one of the two functions, applied to expressions. -/
theorem toProcess_call {loc : Loc} {callee : Node} {arguments : List Node} {p : Process}
    (h : toProcess (.callExpression loc callee arguments) = .ok p) :
    ∃ nloc ps, toProcesses arguments = .ok ps ∧
      (callee = .identifier nloc "tuple" ∧ p = .tuple ps ∨
        ∃ q, callee = .identifier nloc "bundlePlus" ∧ ps = [q] ∧ p = .unary "bundle+" q) := by
  unfold toProcess at h
  split at h
  · cases h
  rename_i name hname
  obtain ⟨nloc, rfl⟩ := eq_identifier_of_name? hname
  split at h
  · rename_i hbundle
    subst hbundle
    split at h
    · simp only [except_bind_eq_ok, except_pure_eq_ok] at h
      obtain ⟨q, hq, rfl⟩ := h
      refine ⟨nloc, [q], ?_, .inr ⟨q, rfl, rfl, rfl⟩⟩
      simp [toProcesses, hq, bind, Except.bind, pure, Except.pure]
    · cases h
  · split at h
    · rename_i htuple
      subst htuple
      simp only [except_bind_eq_ok, except_pure_eq_ok] at h
      obtain ⟨ps, hps, rfl⟩ := h
      exact ⟨nloc, ps, hps, .inl ⟨rfl, rfl⟩⟩
    · cases h

mutual

/-- **An expression that becomes a process follows the rules.** -/
theorem evaluates_of_toProcess (n : Node) {p : Process} (h : toProcess n = .ok p) :
    Evaluates n p := by
  cases n
  case literal loc value raw =>
    cases value with
    | none =>
      cases h
      exact .null
    | some value =>
      cases h
      exact .literal
  case identifier loc name =>
    cases h
    exact .identifier
  case binaryExpression loc operator left right | logicalExpression loc operator left right =>
    simp only [toProcess] at h
    split at h
    · cases h
    · rename_i hoperator
      simp only [except_bind_eq_ok, except_pure_eq_ok] at h
      obtain ⟨a, ha, b, hb, rfl⟩ := h
      constructor
      · exact hoperator
      · exact evaluates_of_toProcess left ha
      · exact evaluates_of_toProcess right hb
  case callExpression loc callee arguments =>
    obtain ⟨nloc, ps, hps, ⟨rfl, rfl⟩ | ⟨q, rfl, rfl, rfl⟩⟩ := toProcess_call h
    · exact .tuple (evaluatesAll_of_toProcesses arguments hps)
    · cases evaluatesAll_of_toProcesses arguments hps with
      | cons hargument hnone =>
        cases hnone
        exact .bundlePlus hargument
  case objectExpression loc properties =>
    simp only [toProcess, except_bind_eq_ok, except_pure_eq_ok] at h
    obtain ⟨es, hes, rfl⟩ := h
    exact .object (entersAll_of_toEntries properties hes)
  all_goals cases h
termination_by structural n

theorem evaluatesAll_of_toProcesses (ns : List Node) {ps : List Process}
    (h : toProcesses ns = .ok ps) : EvaluatesAll ns ps := by
  cases ns with
  | nil =>
    cases h
    exact .nil
  | cons n rest =>
    simp only [toProcesses, except_bind_eq_ok, except_pure_eq_ok] at h
    obtain ⟨p, hp, ps, hps, rfl⟩ := h
    exact .cons (evaluates_of_toProcess n hp) (evaluatesAll_of_toProcesses rest hps)
termination_by structural ns

theorem enters_of_toEntry (n : Node) {e : WideString × Process} (h : toEntry n = .ok e) : Enters n e := by
  cases n
  case property loc key value kind method shorthand computed =>
    simp only [toEntry] at h
    split at h
    · cases h
    rename_i hmethod
    obtain rfl := Bool.eq_false_iff.mpr hmethod
    split at h
    · simp only [except_bind_eq_ok, except_pure_eq_ok] at h
      obtain ⟨p, hp, rfl⟩ := h
      exact .property (evaluates_of_toProcess value hp)
    · cases h
  all_goals cases h
termination_by structural n

theorem entersAll_of_toEntries (ns : List Node) {es : List (WideString × Process)}
    (h : toEntries ns = .ok es) : EntersAll ns es := by
  cases ns with
  | nil =>
    cases h
    exact .nil
  | cons n rest =>
    simp only [toEntries, except_bind_eq_ok, except_pure_eq_ok] at h
    obtain ⟨e, he, es, hes, rfl⟩ := h
    exact .cons (enters_of_toEntry n he) (entersAll_of_toEntries rest hes)
termination_by structural ns

end

/-- **A pattern is an identifier or a tuple** of expressions. -/
theorem toPattern_cases {n : Node} {name : Name} (h : toPattern n = .ok name) :
    (∃ loc x, n = .identifier loc x ∧ name = .var x) ∨
      ∃ loc properties ps, n = .objectPattern loc properties ∧ tupleKeys 0 properties = true ∧
        EvaluatesAll (propertyValues properties) ps ∧ name = .quote (.tuple ps) := by
  cases n
  case identifier loc x =>
    cases h
    exact .inl ⟨loc, x, rfl, rfl⟩
  case objectPattern loc properties =>
    simp only [toPattern] at h
    split at h
    · rename_i hkeys
      simp only [except_bind_eq_ok, except_pure_eq_ok] at h
      obtain ⟨ps, hps, rfl⟩ := h
      exact .inr ⟨loc, properties, ps, rfl, hkeys, evaluatesAll_of_toProcesses _ hps, rfl⟩
    · cases h
  all_goals cases h

end RhoScript.Lowering
