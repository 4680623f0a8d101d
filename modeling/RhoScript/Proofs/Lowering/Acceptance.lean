import RhoScript.Proofs.Lowering.Safety
import RhoScript.Proofs.Lowering.Success
import RhoScript.Proofs.Source.Steps

/-!
# Lowering accepts the supported subset

A statement is lowered together with what follows it. `Followed s after R` is what that takes: `s` is a
statement of the subset, and either nothing may follow it and nothing does, or the rest is lowered.

Main statement: the tree of a source text is lowered if it is a module of the subset, and else it is
rejected with a report (`accepts_iff_module`).
-/

namespace RhoScript.Lowering

open Subset

/-! ### Statements -/

/-- `s` may be followed by `after`, which is lowered if `R`. -/
def Followed (s : Node) (after : List Node) (R : Prop) : Prop :=
  Statement s ∧ (Final s → after = []) ∧ (¬ Final s → R)

section Followed

variable {s : Node} {after : List Node} {R : Prop}

theorem followed_of_final (h : Final s) : Statement s ∧ after = [] ↔ Followed s after R := by
  simp [Followed, h]

theorem followed_of_not_final (h : ¬ Final s) : Statement s ∧ R ↔ Followed s after R := by
  simp [Followed, h]

theorem block_cons {rest : List Node} : Block (s :: rest) ↔ Followed s rest (Block rest) := by
  constructor
  · intro h
    cases h with
    | mk hbody hfinal =>
      obtain ⟨hs, hrest⟩ := List.forall_mem_cons.mp hbody
      cases rest with
      | nil => exact ⟨hs, fun _ => rfl, fun _ => .mk hrest (by simp)⟩
      | cons t rest =>
        rw [List.dropLast_cons_cons] at hfinal
        obtain ⟨hnot, hfinal⟩ := List.forall_mem_cons.mp hfinal
        exact ⟨hs, fun h => absurd h hnot, fun _ => .mk hrest hfinal⟩
  · rintro ⟨hs, hafter, hrest⟩
    by_cases hfinal : Final s
    · obtain rfl := hafter hfinal
      exact .mk (by simpa using hs) (by simp)
    · cases hrest hfinal with
      | mk hbody hnot =>
        refine .mk (List.forall_mem_cons.mpr ⟨hs, hbody⟩) ?_
        cases rest with
        | nil => simp
        | cons t rest =>
          rw [List.dropLast_cons_cons]
          exact List.forall_mem_cons.mpr ⟨hfinal, hnot⟩

end Followed

/-- What is replaced by a placeholder. -/
theorem acceptsIff_replace_bind {expected : String} {n : Node} {P R : Prop} {rest : LowerM Process}
    (hp : P) (hrest : AcceptsIff rest R) :
    AcceptsIff (do return Process.beside (← replace expected n) (← rest)) (P ∧ R) :=
  .congr (and_congr_left' (iff_of_true trivial hp))
    (acceptsIff_bind (acceptsIff_replace expected n) fun _ => acceptsIff_map hrest)

theorem acceptsIff_replaced {expected : String} {s n : Node} {after : List Node} {R : Prop}
    {rest : LowerM Process} (hs : Statement s) (hfinal : ¬ Final s) (hrest : AcceptsIff rest R) :
    AcceptsIff (do return Process.beside (← replace expected n) (← rest)) (Followed s after R) :=
  .congr (followed_of_not_final hfinal) (acceptsIff_replace_bind hs hrest)

theorem succeedsIff_lastOfBlock (s : Node) (after : List Node) :
    SucceedsIff (lastOfBlock s after) (after = []) := by
  cases after with
  | nil => exact succeedsIff_ok rfl
  | cons n rest => exact succeedsIff_error nofun

theorem eq_of_loggedArgument? {e argument : Node} (h : loggedArgument? e = some argument) :
    ∃ loc mloc oloc nloc, e = .callExpression loc
      (.memberExpression mloc (.identifier oloc "console") (.identifier nloc "log") false)
      [argument] := by
  unfold loggedArgument? at h
  repeat' split at h
  all_goals cases h
  rename_i hnames
  obtain ⟨oloc, rfl⟩ := eq_identifier_of_name? hnames.1
  obtain ⟨nloc, rfl⟩ := eq_identifier_of_name? hnames.2
  exact ⟨_, _, _, _, rfl⟩

theorem not_message_of_loggedArgument? {e argument : Node} (h : loggedArgument? e = some argument) :
    ¬ Message e := by
  obtain ⟨_, _, _, _, rfl⟩ := eq_of_loggedArgument? h
  intro h
  cases h with
  | mk htarget => cases htarget with
    | plain h => cases h
    | method h => cases h

theorem final_expressionStatement {loc : Loc} {e : Node} :
    Final (.expressionStatement loc e) ↔ Message e := by
  constructor
  · intro h
    cases h with
    | message h => exact h
  · intro h
    exact .message h

theorem not_final_of_not_call {loc : Loc} {e : Node} (h : isCall e = false) :
    ¬ Final (.expressionStatement loc e) := by
  rw [final_expressionStatement]
  intro hmessage
  cases hmessage
  cases h

/-- A call that is a statement is a message, unless it logs. -/
theorem statement_call {loc cloc : Loc} {callee : Node} {arguments : List Node}
    (hlogged : loggedArgument? (.callExpression cloc callee arguments) = none) :
    Statement (.expressionStatement loc (.callExpression cloc callee arguments)) ↔
      Message (.callExpression cloc callee arguments) := by
  constructor
  · intro h
    cases h with
    | log => cases hlogged
    | message h => exact h
    | replaced h => cases h
    | other h => cases h
  · intro h
    exact .message h

theorem acceptsIff_expressionStatement (loc : Loc) (e : Node) (after : List Node)
    {rest : LowerM Process} {R : Prop} (hrest : AcceptsIff rest R) :
    AcceptsIff (lowerStatement (.expressionStatement loc e) after rest)
      (Followed (.expressionStatement loc e) after R) := by
  simp only [lowerStatement]
  split
  · rename_i argument hlogged
    have hnot : ¬ Final (.expressionStatement loc e) :=
      fun h => not_message_of_loggedArgument? hlogged (final_expressionStatement.mp h)
    refine .congr (followed_of_not_final hnot) (.congr (and_congr_left' ⟨?_, ?_⟩)
      (acceptsIff_lift_bind (succeedsIff_toProcess argument) fun _ _ => acceptsIff_map hrest))
    · intro h
      obtain ⟨_, _, _, _, rfl⟩ := eq_of_loggedArgument? hlogged
      exact .log h
    · intro h
      cases h with
      | log h =>
        cases hlogged
        exact h
      | message h => exact absurd (.message h) hnot
      | replaced h =>
        obtain ⟨_, _, _, _, rfl⟩ := eq_of_loggedArgument? hlogged
        cases h
      | other h => cases h
  · rename_i hlogged
    cases e
    case callExpression cloc callee arguments =>
      have hmessage : AcceptsIff (lowerStatement (.expressionStatement loc
          (.callExpression cloc callee arguments)) after rest)
          (Target callee ∧ after = [] ∧ ∀ n ∈ arguments, Expression n) := by
        simp only [lowerStatement, hlogged]
        refine acceptsIff_lift_bind (succeedsIff_eventualCall cloc callee arguments) ?_
        intro call hcall
        obtain rfl := arguments_of_eventualCall hcall
        exact acceptsIff_lift_bind (succeedsIff_lastOfBlock _ after) fun _ _ =>
          acceptsIff_map (acceptsIff_lift (succeedsIff_toProcesses call.arguments))
      simp only [lowerStatement, hlogged] at hmessage
      refine .congr ⟨?_, ?_⟩ hmessage
      · rintro ⟨htarget, hafter, harguments⟩
        have h : Message (.callExpression cloc callee arguments) := .mk htarget harguments
        exact (followed_of_final (.message h)).mp ⟨.message h, hafter⟩
      · rintro ⟨hs, hafter, -⟩
        have h := (statement_call hlogged).mp hs
        obtain ⟨htarget, harguments⟩ := message_iff.mp h
        exact ⟨htarget, hafter (.message h), harguments⟩
    all_goals exact acceptsIff_replaced (.replaced rfl) (not_final_of_not_call rfl) hrest

theorem succeedsIff_declarator (loc : Loc) (declarations : List Node) (kind : String) :
    SucceedsIff (declarator (.variableDeclaration loc declarations kind))
      (kind = "const" ∧ ∃ dloc id init, declarations = [.variableDeclarator dloc id init]) := by
  constructor
  · rintro ⟨d, hd⟩
    exact eq_const_of_declarator hd
  · rintro ⟨rfl, dloc, id, init, rfl⟩
    exact ⟨_, rfl⟩

theorem statement_variableDeclaration {loc : Loc} {declarations : List Node} {kind : String} :
    Statement (.variableDeclaration loc declarations kind) ↔ kind = "const" ∧
      ∃ dloc id init, declarations = [.variableDeclarator dloc id init] ∧ Declares id init := by
  constructor
  · intro h
    cases h with
    | declaration h => exact ⟨rfl, _, _, _, rfl, h⟩
    | other h => cases h
  · rintro ⟨rfl, dloc, id, init, rfl, h⟩
    exact .declaration h

theorem acceptsIff_returned (argument : Option Node) :
    AcceptsIff (do
      let value ← match argument with
        | some n => toProcess n
        | none => pure .nil
      return .send (.var returnChannel) [value] : LowerM Process)
      (∀ n ∈ argument, Expression n) := by
  cases argument with
  | none => exact acceptsIff_pure (by simp)
  | some n => exact .congr (by simp) (acceptsIff_map (acceptsIff_lift (succeedsIff_toProcess n)))

theorem declares_call {id callee : Node} {loc : Loc} {arguments : List Node} :
    Declares id (some (.callExpression loc callee arguments)) ↔
      (∃ nloc, callee = .identifier nloc "harden") ∧ (∃ iloc x, id = .identifier iloc x) ∧
        ∃ n, arguments = [n] ∧ Suite n := by
  constructor
  · intro h
    cases h with
    | suite h => exact ⟨⟨_, rfl⟩, ⟨_, _, rfl⟩, _, rfl, h⟩
    | replaced h => cases h
  · rintro ⟨⟨nloc, rfl⟩, ⟨iloc, x, rfl⟩, n, rfl, h⟩
    exact .suite h

theorem block_nil : Block [] := .mk (by simp) (by simp)

mutual

theorem acceptsIff_lowerBlock (body : List Node) : AcceptsIff (lowerBlock body) (Block body) := by
  cases body with
  | nil => exact acceptsIff_pure block_nil
  | cons s rest =>
    rw [lowerBlock]
    exact .congr block_cons.symm (acceptsIff_lowerStatement s rest (acceptsIff_lowerBlock rest))
termination_by structural body

theorem acceptsIff_lowerStatement (s : Node) (after : List Node) {rest : LowerM Process} {R : Prop}
    (hrest : AcceptsIff rest R) : AcceptsIff (lowerStatement s after rest) (Followed s after R) := by
  cases s
  case variableDeclaration loc declarations kind =>
    refine .congr (followed_of_not_final nofun) (.congr ⟨?_, ?_⟩
      (acceptsIff_lift_bind (succeedsIff_declarator loc declarations kind) fun d hd =>
        acceptsIff_lowerDeclarators declarations (eq_const_of_declarator hd).2 hrest))
    · rintro ⟨⟨rfl, -⟩, hdeclares, hR⟩
      exact ⟨statement_variableDeclaration.mpr ⟨rfl, hdeclares⟩, hR⟩
    · rintro ⟨hs, hR⟩
      obtain ⟨rfl, dloc, id, init, rfl, hdeclares⟩ := statement_variableDeclaration.mp hs
      exact ⟨⟨rfl, _, _, _, rfl⟩, ⟨_, _, _, rfl, hdeclares⟩, hR⟩
  case expressionStatement loc e => exact acceptsIff_expressionStatement loc e after hrest
  case switchStatement loc discriminant cases =>
    refine .congr (followed_of_not_final nofun) (.congr ⟨?_, ?_⟩
      (acceptsIff_lift_bind (succeedsIff_toProcess discriminant) fun _ _ =>
        acceptsIff_bind (acceptsIff_lowerCases cases) fun _ => acceptsIff_map hrest))
    · rintro ⟨hdiscriminant, hcases, hR⟩
      exact ⟨.switch hdiscriminant hcases, hR⟩
    · rintro ⟨hs, hR⟩
      cases hs with
      | switch hdiscriminant hcases => exact ⟨hdiscriminant, hcases, hR⟩
      | other h => cases h
  case returnStatement loc argument =>
    refine .congr ⟨?_, ?_⟩ (acceptsIff_lift_bind (succeedsIff_lastOfBlock _ after) fun _ _ =>
      acceptsIff_returned argument)
    · rintro ⟨hafter, hargument⟩
      exact (followed_of_final .returns).mp ⟨.returns hargument, hafter⟩
    · rintro ⟨hs, hafter, -⟩
      cases hs with
      | returns hargument => exact ⟨hafter .returns, hargument⟩
      | other h => cases h
  all_goals exact acceptsIff_replaced (.other rfl) nofun hrest
termination_by structural s

theorem acceptsIff_lowerDeclarators (declarations : List Node) {rest : LowerM Process} {R : Prop}
    (hone : ∃ loc id init, declarations = [.variableDeclarator loc id init])
    (hrest : AcceptsIff rest R) :
    AcceptsIff (lowerDeclarators declarations rest)
      ((∃ loc id init, declarations = [.variableDeclarator loc id init] ∧ Declares id init) ∧ R) := by
  cases declarations with
  | nil => cases hone.choose_spec.choose_spec.choose_spec
  | cons d tail =>
    cases d
    case variableDeclarator loc id init =>
      obtain ⟨_, _, _, h⟩ := hone
      cases h
      refine .congr (and_congr_left' ⟨?_, ?_⟩) (acceptsIff_lowerInitial _ id init hrest)
      · intro h
        exact ⟨_, _, _, rfl, h⟩
      · rintro ⟨_, _, _, heq, h⟩
        cases heq
        exact h
    all_goals
      obtain ⟨_, _, _, h⟩ := hone
      cases h
termination_by structural declarations

theorem acceptsIff_lowerInitial (d id : Node) (init : Option Node) {rest : LowerM Process} {R : Prop}
    (hrest : AcceptsIff rest R) :
    AcceptsIff (lowerInitial d id init rest) (Declares id init ∧ R) := by
  obtain _ | n := init
  · exact acceptsIff_replace_bind .missing hrest
  cases n
  case awaitExpression loc argument =>
    refine .congr (and_congr_left' ⟨?_, ?_⟩)
      (acceptsIff_bind (acceptsIff_awaitInto id _ argument) fun _ => acceptsIff_map hrest)
    · intro h
      exact .awaited h
    · intro h
      cases h with
      | awaited h => exact h
      | replaced h => cases h
  case objectExpression loc properties =>
    rw [lowerInitial]
    cases properties with
    | nil =>
      refine .congr (and_congr_left' ⟨?_, ?_⟩)
        (acceptsIff_lift_bind (succeedsIff_identifierName id) fun _ _ => acceptsIff_map hrest)
      · rintro ⟨_, _, rfl⟩
        exact .channel
      · intro h
        cases h with
        | channel => exact ⟨_, _, rfl⟩
        | replaced h => cases h
    | cons p rest =>
      apply acceptsIff_throw_bind
      rintro ⟨h, -⟩
      cases h with
      | replaced h => cases h
  case callExpression loc callee arguments =>
    have hsuite := acceptsIff_lowerSuite id (.callExpression loc callee arguments) arguments
    refine .congr (and_iff_right_of_imp fun h => ?_)
      (acceptsIff_lift_bind (succeedsIff_identifierName callee) fun name hname => ?_)
    · obtain ⟨⟨nloc, rfl⟩, -⟩ := declares_call.mp h.1
      exact ⟨nloc, _, rfl⟩
    · obtain ⟨nloc, rfl⟩ := eq_identifier_of_identifierName hname
      refine .congr (and_congr_left' declares_call.symm) ?_
      split
      · rename_i hne
        apply acceptsIff_throw_bind
        rintro ⟨⟨⟨_, h⟩, -⟩, -⟩
        cases h
        exact hne rfl
      · rename_i heq
        obtain rfl := Decidable.not_not.mp heq
        exact .congr (by simp) (acceptsIff_bind hsuite fun _ => acceptsIff_map hrest)
  case literal loc value raw =>
    refine .congr ⟨?_, ?_⟩ (acceptsIff_lift_bind (succeedsIff_identifierName id) fun _ _ =>
      acceptsIff_lift_bind (succeedsIff_toProcess _) fun _ _ => acceptsIff_map hrest)
    · rintro ⟨⟨_, _, rfl⟩, -, hR⟩
      exact ⟨.literal, hR⟩
    · rintro ⟨h, hR⟩
      cases h with
      | literal => exact ⟨⟨_, _, rfl⟩, .literal, hR⟩
      | replaced h => cases h
  all_goals exact acceptsIff_replace_bind (.replaced rfl) hrest
termination_by structural init

theorem acceptsIff_lowerSuite (id call : Node) (arguments : List Node) :
    AcceptsIff (lowerSuite id call arguments)
      ((∃ loc x, id = .identifier loc x) ∧ ∃ n, arguments = [n] ∧ Suite n) := by
  obtain _ | ⟨argument, _ | ⟨_, _⟩⟩ := arguments
  · exact acceptsIff_lift_bind (succeedsIff_identifierName id) fun _ _ => acceptsIff_throw nofun
  · refine acceptsIff_lift_bind (succeedsIff_identifierName id) fun target _ => ?_
    exact .congr (by simp) (acceptsIff_map (acceptsIff_lowerObject target argument))
  · exact acceptsIff_lift_bind (succeedsIff_identifierName id) fun _ _ => acceptsIff_throw nofun
termination_by structural arguments

theorem acceptsIff_lowerObject (target : String) (n : Node) :
    AcceptsIff (lowerObject target n) (Suite n) := by
  cases n
  case objectExpression loc properties =>
    refine .congr ⟨?_, ?_⟩ (acceptsIff_lowerMethods target properties)
    · intro h
      exact .mk h
    · intro h
      cases h with
      | mk h => exact h
  all_goals
    apply acceptsIff_throw
    intro h
    cases h
termination_by structural n

theorem acceptsIff_lowerMethods (target : String) (properties : List Node) :
    AcceptsIff (lowerMethods target properties) (∀ p ∈ properties, Method p) := by
  cases properties with
  | nil => exact acceptsIff_pure (by simp)
  | cons p rest =>
    exact .congr List.forall_mem_cons.symm (acceptsIff_bind (acceptsIff_lowerMethod target p)
      fun _ => acceptsIff_map (acceptsIff_lowerMethods target rest))
termination_by structural properties

theorem acceptsIff_lowerMethod (target : String) (p : Node) :
    AcceptsIff (lowerMethod target p) (Method p) := by
  cases p
  case property loc key value kind method shorthand computed =>
    rw [lowerMethod]
    split
    · rename_i name hkey
      obtain ⟨hplain, rfl⟩ := propertyKey?_eq_some_iff.mp hkey
      refine .congr ⟨?_, ?_⟩ (acceptsIff_lowerFunction target name value)
      · intro h
        exact .mk hplain h
      · intro h
        cases h with
        | mk _ h => exact h
    · rename_i hkey
      apply acceptsIff_throw
      intro h
      cases h with
      | mk h =>
        rw [propertyKey?_eq_some_iff.mpr ⟨h, rfl⟩] at hkey
        cases hkey
  all_goals
    apply acceptsIff_throw
    intro h
    cases h
termination_by structural p

theorem acceptsIff_lowerFunction (target : String) (method : WideString) (f : Node) :
    AcceptsIff (lowerFunction target method f) (Function f) := by
  cases f
  case functionExpression loc id params body isAsync =>
    refine .congr ⟨?_, ?_⟩ (acceptsIff_lift_bind (succeedsIff_identifierNames params) fun _ _ =>
      acceptsIff_map (acceptsIff_lowerBody body))
    · rintro ⟨hparams, hbody⟩
      exact .mk hparams hbody
    · intro h
      cases h with
      | mk hparams hbody => exact ⟨hparams, hbody⟩
  all_goals
    apply acceptsIff_throw
    intro h
    cases h
termination_by structural f

theorem acceptsIff_lowerBody (n : Node) : AcceptsIff (lowerBody n) (Body n) := by
  cases n
  case program loc body | blockStatement loc body =>
    refine .congr ⟨?_, ?_⟩ (acceptsIff_lowerBlock body)
    · intro h
      exact .mk rfl h
    · intro h
      cases h with
      | mk heq h =>
        cases heq
        exact h
  all_goals exact acceptsIff_throw fun ⟨heq, _⟩ => nomatch heq
termination_by structural n

theorem acceptsIff_lowerCases (cases : List Node) :
    AcceptsIff (lowerCases cases) (∀ c ∈ cases, Case c) := by
  obtain _ | ⟨c, rest⟩ := cases
  · exact acceptsIff_pure (by simp)
  · exact .congr List.forall_mem_cons.symm (acceptsIff_bind (acceptsIff_lowerCase c) fun _ =>
      acceptsIff_map (acceptsIff_lowerCases rest))
termination_by structural cases

theorem acceptsIff_lowerCase (c : Node) : AcceptsIff (lowerCase c) (Case c) := by
  cases c
  case switchCase loc test body =>
    cases test with
    | none => exact acceptsIff_throw nofun
    | some test =>
      refine .congr ⟨?_, ?_⟩ (acceptsIff_lift_bind (succeedsIff_toProcess test) fun _ _ =>
        acceptsIff_map (acceptsIff_lowerBlock body))
      · rintro ⟨htest, hbody⟩
        exact .mk htest hbody
      · intro h
        cases h with
        | mk htest hbody => exact ⟨htest, hbody⟩
  case ifStatement loc test consequent alternate =>
    exact .congr (by constructor <;> nofun) (acceptsIff_lift_bind (succeedsIff_toProcess test)
      fun _ _ => acceptsIff_throw id)
  all_goals
    apply acceptsIff_throw
    intro h
    cases h
termination_by structural c

end

/-! ### Modules -/

theorem localName_eq_ok_iff {n : Node} {x : String} : localName n = .ok x ↔ Local n x := by
  constructor
  · intro h
    unfold localName at h
    repeat' split at h
    all_goals cases h
    · exact .byDefault
    · exact .named
    · exact .all
  · intro h
    cases h <;> rfl

theorem exists_localNames_iff {ns : List Node} {known : List String} :
    (∃ names, localNames ns = .ok names ∧ ∀ x ∈ names, x ∈ known) ↔
      ∀ n ∈ ns, ∃ x ∈ known, Local n x := by
  induction ns with
  | nil => simp [localNames]
  | cons n rest ih =>
    simp only [localNames, except_bind_eq_ok, except_pure_eq_ok, localName_eq_ok_iff]
    rw [List.forall_mem_cons, ← ih]
    constructor
    · rintro ⟨_, ⟨x, hx, names, hnames, rfl⟩, hknown⟩
      obtain ⟨hx', hrest⟩ := List.forall_mem_cons.mp hknown
      exact ⟨⟨x, hx', hx⟩, names, hnames, hrest⟩
    · rintro ⟨⟨x, hx', hx⟩, names, hnames, hrest⟩
      exact ⟨x :: names, ⟨x, hx, names, hnames, rfl⟩, List.forall_mem_cons.mpr ⟨hx', hrest⟩⟩

theorem knownNames?_eq_some_iff {uri : WideString} {names : List String} :
    knownNames? uri = some names ↔ ∃ text : String, uri = text ∧ (text, names) ∈ bundles := by
  unfold knownNames?
  split
  case h_5 h₁ h₂ h₃ h₄ =>
    simp only [WideString.encode_eq_ok_iff] at h₁ h₂ h₃ h₄
    apply iff_of_false
    · intro h
      cases h
    · rintro ⟨text, rfl, hmem⟩
      simp_all [bundles]
  all_goals
    rename_i huri
    rw [WideString.encode_eq_ok_iff] at huri
    simp [huri, bundles, eq_comm]

/-- No known module is named like a system resource. -/
theorem not_resource_of_mem_bundles {text : String} {names : List String}
    (h : (text, names) ∈ bundles) : isResource text = false := by
  simp only [bundles, List.mem_cons, Prod.mk.injEq, List.not_mem_nil, or_false] at h
  rcases h with ⟨rfl, -⟩ | ⟨rfl, -⟩ | ⟨rfl, -⟩ | ⟨rfl, -⟩ <;> decide +kernel

theorem succeedsIff_resourceBinding (n : Node) (uri : WideString) (specifiers : List Node) :
    SucceedsIff (resourceBinding n uri specifiers)
      (∃ loc nloc x, specifiers = [.importDefaultSpecifier loc (.identifier nloc x)]) := by
  unfold resourceBinding
  split
  · rename_i loc binding
    cases binding
    case identifier nloc x => exact succeedsIff_ok ⟨loc, nloc, x, rfl⟩
    all_goals
      apply succeedsIff_error
      rintro ⟨_, _, _, h⟩
      cases h
  · rename_i hspecifiers
    apply succeedsIff_error
    rintro ⟨loc, nloc, x, rfl⟩
    exact hspecifiers _ _ rfl

theorem isResource_iff {uri : WideString} :
    isResource uri = true ↔ (resourceScheme : WideString) <+: uri :=
  List.isPrefixOf_iff_prefix

theorem import_iff {loc lloc : Loc} {specifiers : List Node} {uri : WideString} {raw : Option String} :
    Import (.importDeclaration loc specifiers (.literal lloc (some (.string uri)) raw)) ↔
      (isResource uri = true ∧
        ∃ sloc nloc x, specifiers = [.importDefaultSpecifier sloc (.identifier nloc x)]) ∨
      ∃ names, knownNames? uri = some names ∧ ∀ n ∈ specifiers, ∃ x ∈ names, Local n x := by
  simp only [knownNames?_eq_some_iff]
  constructor
  · intro h
    cases h with
    | resource h => exact .inl ⟨isResource_iff.mpr h, _, _, _, rfl⟩
    | bundle hmem hnames => exact .inr ⟨_, ⟨_, rfl, hmem⟩, hnames⟩
  · rintro (⟨h, _, _, _, rfl⟩ | ⟨names, ⟨_, rfl, hmem⟩, hnames⟩)
    · exact .resource (isResource_iff.mp h)
    · exact .bundle hmem hnames

theorem succeedsIff_localNames_bind {α : Type} {specifiers : List Node} (known : List String)
    {f : List String → Except Failure α}
    (hf : ∀ names, SucceedsIff (f names) (∀ x ∈ names, x ∈ known)) :
    SucceedsIff (localNames specifiers >>= f) (∀ n ∈ specifiers, ∃ x ∈ known, Local n x) := by
  refine Iff.trans ?_ exists_localNames_iff
  simp only [except_bind_eq_ok]
  constructor
  · rintro ⟨a, names, hnames, ha⟩
    exact ⟨names, hnames, (hf names).mp ⟨a, ha⟩⟩
  · rintro ⟨names, hnames, hknown⟩
    obtain ⟨a, ha⟩ := (hf names).mpr hknown
    exact ⟨a, names, hnames, ha⟩

theorem succeedsIff_importBindings (n : Node) : SucceedsIff (importBindings n) (Import n) := by
  cases n
  case importDeclaration loc specifiers source =>
    cases source
    case literal lloc value raw =>
      refine .congr (iff_of_eq (true_and _)) (succeedsIff_bind (succeedsIff_ok trivial) ?_)
      rintro _ ⟨⟩
      split
      · rename_i uri
        refine .congr import_iff.symm ?_
        split
        · rename_i hresource
          refine .congr ⟨fun h => .inl ⟨hresource, h⟩, ?_⟩ (succeedsIff_resourceBinding _ uri specifiers)
          rintro (⟨-, h⟩ | ⟨names, hmem, -⟩)
          · exact h
          · obtain ⟨text, rfl, hbundle⟩ := knownNames?_eq_some_iff.mp hmem
            rw [not_resource_of_mem_bundles hbundle] at hresource
            cases hresource
        · rename_i hresource
          split
          · rename_i hnone
            apply succeedsIff_error
            rintro (⟨h, -⟩ | ⟨names, hmem, -⟩)
            · exact hresource h
            · cases hnone.symm.trans hmem
          · rename_i known hknown
            refine .congr ⟨fun h => .inr ⟨known, hknown, h⟩, ?_⟩
              (succeedsIff_localNames_bind known fun names => ?_)
            · rintro (⟨h, -⟩ | ⟨names, hmem, h⟩)
              · exact absurd h hresource
              · cases hknown.symm.trans hmem
                exact h
            · dsimp only
              split
              · rename_i hempty
                exact succeedsIff_ok (by simpa using hempty)
              · rename_i hempty
                exact succeedsIff_error (by simpa using hempty)
      · rename_i hstring
        apply succeedsIff_error
        intro h
        cases h <;> exact hstring _ rfl
    all_goals
      apply succeedsIff_error
      intro h
      cases h
  all_goals
    apply succeedsIff_error
    intro h
    cases h

theorem succeedsIff_importsBindings (ns : List Node) :
    SucceedsIff (importsBindings ns) (∀ n ∈ ns, Import n) :=
  succeedsIff_each importsBindings rfl (fun _ _ => rfl) succeedsIff_importBindings ns

theorem contents_export {loc : Loc} {declaration : Node} {after : List Node} :
    Contents (.exportDefaultDeclaration loc declaration :: after) ↔ after = [] ∧
      ∃ floc id params body isAsync,
        declaration = .functionDeclaration floc id params body isAsync ∧ Body body := by
  constructor
  · intro h
    cases h with
    | exported h => exact ⟨rfl, _, _, _, _, _, rfl, h⟩
    | statements hhead => cases hhead _ rfl
  · rintro ⟨rfl, _, _, _, _, _, rfl, h⟩
    exact .exported h

theorem acceptsIff_lowerItems {items : List Node} (h : ∀ n ∈ items.head?, isImport n = false) :
    AcceptsIff (lowerItems items) (Contents items) := by
  unfold lowerItems
  split
  · refine .congr contents_export.symm ?_
    split
    · split
      · refine .congr ⟨?_, ?_⟩ (acceptsIff_lowerBody _)
        · intro h
          exact ⟨rfl, _, _, _, _, _, rfl, h⟩
        · rintro ⟨-, _, _, _, _, _, heq, h⟩
          cases heq
          exact h
      · apply acceptsIff_throw
        rintro ⟨hrest, -⟩
        cases hrest
    · rename_i hfunction
      apply acceptsIff_throw
      rintro ⟨-, _, _, _, _, _, rfl, -⟩
      exact hfunction _ _ _ _ _ rfl
  · rename_i hexport
    refine .congr ⟨fun hblock => .statements ?_ hblock, ?_⟩ (acceptsIff_lowerBlock items)
    · intro n hn
      have himport := h n hn
      obtain ⟨rest, rfl⟩ := List.head?_eq_some_iff.mp hn
      cases n
      case importDeclaration => cases himport
      case exportDefaultDeclaration => exact absurd rfl (hexport _ _ _)
      all_goals rfl
    · intro h
      cases h with
      | exported => exact absurd rfl (hexport _ _ _)
      | statements _ h => exact h

theorem isImport_of_import {n : Node} (h : Import n) : isImport n = true := by
  cases h <;> rfl

theorem head?_of_contents {items : List Node} (h : Contents items) :
    ∀ n ∈ items.head?, isImport n = false := by
  cases h with
  | exported =>
    rintro _ ⟨⟩
    rfl
  | statements hhead =>
    intro n hn
    have hopens := hhead n hn
    cases n
    case importDeclaration => cases hopens
    all_goals rfl

theorem takeWhile_of_head? {items : List Node} (h : ∀ n ∈ items.head?, isImport n = false) :
    items.takeWhile isImport = [] ∧ items.dropWhile isImport = items := by
  cases items with
  | nil => exact ⟨rfl, rfl⟩
  | cons n rest => simp [h n rfl]

theorem head?_dropWhile_isImport (items : List Node) :
    ∀ n ∈ (items.dropWhile isImport).head?, isImport n = false := by
  intro n hn
  have h := List.head?_dropWhile_not isImport items
  rw [hn] at h
  exact h

/-- A module is parted where its imports end. -/
theorem module_iff {loc : Loc} {items : List Node} :
    Module (.program loc items) ↔ (∀ n ∈ items.takeWhile isImport, Import n) ∧
      Contents (items.dropWhile isImport) := by
  constructor
  · intro h
    cases h with
    | @mk _ imports rest himports hcontents =>
      have hall : ∀ n ∈ imports, isImport n = true := fun n hn => isImport_of_import (himports n hn)
      obtain ⟨htake, hdrop⟩ := takeWhile_of_head? (head?_of_contents hcontents)
      rw [List.takeWhile_append_of_pos hall, List.dropWhile_append_of_pos hall, htake, hdrop,
        List.append_nil]
      exact ⟨himports, hcontents⟩
  · rintro ⟨himports, hcontents⟩
    rw [← List.takeWhile_append_dropWhile (p := isImport) (l := items)]
    exact .mk himports hcontents

theorem acceptsIff_lowerProgram (loc : Loc) (items : List Node) :
    AcceptsIff (lowerProgram items) (Module (.program loc items)) := by
  refine .congr module_iff.symm ?_
  unfold lowerProgram
  cases items with
  | nil => exact acceptsIff_pure ⟨by simp, .statements (by simp) block_nil⟩
  | cons n rest =>
    exact acceptsIff_lift_bind (succeedsIff_importsBindings _) fun _ _ =>
      acceptsIff_map (acceptsIff_lowerItems (head?_dropWhile_isImport _))

theorem acceptsIff_lowerTree (loc : Loc) (items : List Node) :
    AcceptsIff (lowerTree (.program loc items)) (Module (.program loc items)) := by
  have hmodify : AcceptsIff (modify Ledger.restart) True :=
    fun _ => iff_of_true ⟨⟨⟩, _, yields_modify.mpr rfl⟩ trivial
  have hget : AcceptsIff (get : LowerM Ledger) True :=
    fun _ => iff_of_true ⟨_, _, yields_get.mpr ⟨rfl, rfl⟩⟩ trivial
  exact .congr (by simp) (acceptsIff_bind hmodify fun _ =>
    acceptsIff_bind (acceptsIff_lowerProgram loc items) fun _ => acceptsIff_map hget)

/-- **Lowering accepts the supported subset**: the tree of a source text is lowered if it is a module of
the subset, and else it is rejected with a report, whatever the ledger. -/
theorem accepts_iff_module {source : String} {n : Node} (h : Source.readProgram source = .ok n)
    (l : Ledger) :
    ((∃ c l', Yields (lowerTree n) l c l') ↔ Module n) ∧
      (¬ Module n →
        ∃ report l', ExceptT.run (lowerTree n) l = (.error (.rejected report), l')) := by
  obtain ⟨⟨loc, items, rfl⟩, hshape⟩ := Source.wellShaped_of_readProgram h
  have haccepts := acceptsIff_lowerTree loc items l
  refine ⟨haccepts, fun hnot => ?_⟩
  have hsafe := safe_lowerTree hshape l
  rcases hrun : ExceptT.run (lowerTree (.program loc items)) l with ⟨(report | misfit) | c, l'⟩
  · exact ⟨report, l', rfl⟩
  · rw [hrun] at hsafe
    exact (hsafe misfit rfl).elim
  · exact absurd (haccepts.mp ⟨c, l', hrun⟩) hnot

/-- A reply is awaited, and then a message ends the block. -/
def sendsLast : String := "const [a] = await Promise.all([E(x)()]); E(a)();"

/-- The message comes too early. -/
def sendsEarly : String := "E(x)(1); console.log(1);"

theorem sendsLast_accepted : ∃ n m, Source.readProgram sendsLast = .ok n ∧ Module n ∧
    Source.readProgram sendsEarly = .ok m ∧ ¬ Module m := by
  obtain ⟨n, hn, hlowered⟩ := Source.exists_readProgram_of_readWithin 400 sendsLast
    (fun n => (ExceptT.run (lowerTree n) {}).1.toBool = true) (by decide +kernel)
  obtain ⟨m, hm, hrejected⟩ := Source.exists_readProgram_of_readWithin 400 sendsEarly
    (fun m => (ExceptT.run (lowerTree m) {}).1.toBool = false) (by decide +kernel)
  refine ⟨n, m, hn, ?_, hm, ?_⟩
  · rcases hrun : ExceptT.run (lowerTree n) {} with ⟨e | c, l'⟩
    · rw [hrun] at hlowered
      cases hlowered
    · exact (accepts_iff_module hn {}).1.mp ⟨c, l', hrun⟩
  · intro hmodule
    obtain ⟨c, l', hrun⟩ := (accepts_iff_module hm {}).1.mpr hmodule
    rw [Yields] at hrun
    rw [hrun] at hrejected
    cases hrejected

end RhoScript.Lowering
