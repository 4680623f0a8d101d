import RhoScript.Lowering.Statement
import RhoScript.Proofs.Lowering.Run

/-!
# Properties of all parts of lowering

A property is compositional if the elementary parts of lowering have it and parts that are put together
inherit it. Then statements are lowered by parts that all have it (`Compositional.lowerBlock`).

Main statement: lowering statements is uniform, that is, it depends on a ledger only by the number of the
next reply channel (`uniform_lowerBlock`). What else is in the ledger stays, and is added to.
-/

namespace RhoScript.Lowering

/-- The elementary parts have the property, and two parts in a row inherit it. -/
structure Compositional (P : {α : Type} → LowerM α → Prop) : Prop where
  pure {α : Type} (a : α) : P (pure a)
  throw {α : Type} (e : Failure) : P (throw e : LowerM α)
  lift {α : Type} (x : Except Failure α) : P (liftM x)
  bind {α β : Type} {m : LowerM α} {f : α → LowerM β} : P m → (∀ a, P (f a)) → P (m >>= f)
  freshChannel (n : Node) : P (freshChannel n)
  replace (expected : String) (n : Node) : P (replace expected n)

namespace Compositional

variable {P : {α : Type} → LowerM α → Prop}

/-! ### Messages -/

theorem freshChannels (h : Compositional P) (ns : List Node) : P (freshChannels ns) := by
  induction ns with
  | nil => exact h.pure _
  | cons n rest ih => exact h.bind (h.freshChannel n) fun _ => h.bind ih fun _ => h.pure _

theorem promiseAll (h : Compositional P) (n : Node) : P (promiseAll n) :=
  h.bind (h.lift _) fun calls => h.bind (h.freshChannels calls) fun _ =>
    h.bind (h.lift _) fun _ => h.pure _

theorem awaitInto (h : Compositional P) (pattern awaiting argument : Node) :
    P (awaitInto pattern awaiting (some argument)) := by
  unfold Lowering.awaitInto
  split
  · refine h.bind (h.promiseAll argument) fun r => h.bind (h.lift _) fun patterns => ?_
    split
    · exact h.pure _
    · exact h.throw _
  · exact h.bind (h.freshChannel awaiting) fun _ => h.bind (h.lift _) fun _ =>
      h.bind (h.lift _) fun _ => h.pure _

/-! ### Statements -/

theorem expressionStatement (h : Compositional P) (loc : Loc) (e : Node) (after : List Node)
    {rest : LowerM Process} (hrest : P rest) :
    P (lowerStatement (.expressionStatement loc e) after rest) := by
  simp only [lowerStatement]
  split
  · exact h.bind (h.lift _) fun _ => h.bind hrest fun _ => h.pure _
  · cases e
    case callExpression cloc callee arguments =>
      exact h.bind (h.lift _) fun _ => h.bind (h.lift _) fun _ => h.bind (h.lift _) fun _ => h.pure _
    all_goals exact h.bind (h.replace _ _) fun _ => h.bind hrest fun _ => h.pure _

mutual

theorem lowerBlock (h : Compositional P) (body : List Node) : P (lowerBlock body) := by
  cases body with
  | nil => exact h.pure _
  | cons s rest =>
    rw [Lowering.lowerBlock]
    exact h.lowerStatement s rest (h.lowerBlock rest)
termination_by structural body

theorem lowerStatement (h : Compositional P) (s : Node) (after : List Node) {rest : LowerM Process}
    (hrest : P rest) : P (lowerStatement s after rest) := by
  cases s
  case variableDeclaration loc declarations kind =>
    exact h.bind (h.lift _) fun _ => h.lowerDeclarators declarations hrest
  case expressionStatement loc e => exact h.expressionStatement loc e after hrest
  case switchStatement loc discriminant cases =>
    exact h.bind (h.lift _) fun _ => h.bind (h.lowerCases cases) fun _ =>
      h.bind hrest fun _ => h.pure _
  case returnStatement loc argument =>
    refine h.bind (h.lift _) fun _ => ?_
    cases argument with
    | none => exact h.pure _
    | some n => exact h.bind (h.lift _) fun _ => h.pure _
  all_goals exact h.bind (h.replace _ _) fun _ => h.bind hrest fun _ => h.pure _
termination_by structural s

theorem lowerDeclarators (h : Compositional P) (declarations : List Node) {rest : LowerM Process}
    (hrest : P rest) : P (lowerDeclarators declarations rest) := by
  cases declarations with
  | nil => exact hrest
  | cons d tail =>
    cases d
    case variableDeclarator loc id init => exact h.lowerInitial _ id init hrest
    all_goals exact hrest
termination_by structural declarations

theorem lowerInitial (h : Compositional P) (d id : Node) (init : Option Node) {rest : LowerM Process}
    (hrest : P rest) : P (lowerInitial d id init rest) := by
  obtain _ | n := init
  · exact h.bind (h.replace _ _) fun _ => h.bind hrest fun _ => h.pure _
  cases n
  case awaitExpression loc argument =>
    exact h.bind (h.awaitInto id _ argument) fun _ => h.bind hrest fun _ => h.pure _
  case objectExpression loc properties =>
    have hname : P (do return Process.new [.plain (← identifierName id)] (← rest)) :=
      h.bind (h.lift _) fun _ => h.bind hrest fun _ => h.pure _
    rw [Lowering.lowerInitial]
    split
    · exact h.bind (h.throw _) fun _ => hname
    · exact hname
  case callExpression loc callee arguments =>
    refine h.bind (h.lift _) fun name => ?_
    have hsuite := h.bind (h.lowerSuite id (.callExpression loc callee arguments) arguments) fun a =>
      h.bind hrest fun q => h.pure (Process.new [.plain a.1] (.besideAll (a.2 ++ [q])))
    split
    · exact h.bind (h.throw _) fun _ => hsuite
    · exact hsuite
  case literal loc value raw =>
    exact h.bind (h.lift _) fun _ => h.bind (h.lift _) fun _ => h.bind hrest fun _ => h.pure _
  all_goals exact h.bind (h.replace _ _) fun _ => h.bind hrest fun _ => h.pure _
termination_by structural init

theorem lowerSuite (h : Compositional P) (id call : Node) (arguments : List Node) :
    P (lowerSuite id call arguments) := by
  obtain _ | ⟨argument, _ | ⟨_, _⟩⟩ := arguments
  · exact h.bind (h.lift _) fun _ => h.throw _
  · exact h.bind (h.lift _) fun target => h.bind (h.lowerObject target argument) fun _ => h.pure _
  · exact h.bind (h.lift _) fun _ => h.throw _
termination_by structural arguments

theorem lowerObject (h : Compositional P) (target : String) (n : Node) :
    P (lowerObject target n) := by
  cases n
  case objectExpression loc properties => exact h.lowerMethods target properties
  all_goals exact h.throw _
termination_by structural n

theorem lowerMethods (h : Compositional P) (target : String) (properties : List Node) :
    P (lowerMethods target properties) := by
  cases properties with
  | nil => exact h.pure _
  | cons p rest =>
    exact h.bind (h.lowerMethod target p) fun _ =>
      h.bind (h.lowerMethods target rest) fun _ => h.pure _
termination_by structural properties

theorem lowerMethod (h : Compositional P) (target : String) (p : Node) :
    P (lowerMethod target p) := by
  cases p
  case property loc key value kind method shorthand computed =>
    rw [Lowering.lowerMethod]
    split
    · exact h.lowerFunction target _ value
    · exact h.throw _
  all_goals exact h.throw _
termination_by structural p

theorem lowerFunction (h : Compositional P) (target : String) (method : WideString) (f : Node) :
    P (lowerFunction target method f) := by
  cases f
  case functionExpression loc id params body isAsync =>
    exact h.bind (h.lift _) fun _ => h.bind (h.lowerBody body) fun _ => h.pure _
  all_goals exact h.throw _
termination_by structural f

theorem lowerBody (h : Compositional P) (n : Node) : P (lowerBody n) := by
  cases n
  case program loc body => exact h.lowerBlock body
  case blockStatement loc body => exact h.lowerBlock body
  all_goals exact h.throw _
termination_by structural n

theorem lowerCases (h : Compositional P) (cases : List Node) : P (lowerCases cases) := by
  obtain _ | ⟨c, rest⟩ := cases
  · exact h.pure _
  · exact h.bind (h.lowerCase c) fun _ => h.bind (h.lowerCases rest) fun _ => h.pure _
termination_by structural cases

theorem lowerCase (h : Compositional P) (c : Node) : P (lowerCase c) := by
  cases c
  case switchCase loc test body =>
    cases test with
    | none => exact h.throw _
    | some test => exact h.bind (h.lift _) fun _ => h.bind (h.lowerBlock body) fun _ => h.pure _
  case ifStatement loc test consequent alternate => exact h.bind (h.lift _) fun _ => h.throw _
  all_goals exact h.throw _
termination_by structural c

end

end Compositional

/-! ### Uniform parts -/

/-- A part that runs in the same way from all ledgers with the same number for the next reply channel: it
gives the same result, and adds the same to each. -/
def Uniform {α : Type} (m : LowerM α) : Prop :=
  ∀ k, ∃ result k' ds, ∀ l : Ledger, l.counter = k → ExceptT.run m l = (result, l.extend k' ds)

theorem uniform_bind {α β : Type} {m : LowerM α} {f : α → LowerM β} (hm : Uniform m)
    (hf : ∀ a, Uniform (f a)) : Uniform (m >>= f) := by
  intro k
  obtain ⟨result, k₁, ds, hrun⟩ := hm k
  cases result with
  | error e =>
    refine ⟨.error e, k₁, ds, fun l hl => ?_⟩
    rw [run_bind, hrun l hl]
  | ok a =>
    obtain ⟨result, k₂, es, hnext⟩ := hf a k₁
    refine ⟨result, k₂, ds ++ es, fun l hl => ?_⟩
    rw [run_bind, hrun l hl]
    simp only
    rw [hnext _ (l.counter_extend k₁ ds), Ledger.extend_extend]

/-- A part that leaves the ledger as it is. -/
theorem uniform_of_run {α : Type} {m : LowerM α} (result : Except Failure α)
    (h : ∀ l, ExceptT.run m l = (result, l)) : Uniform m := by
  refine fun k => ⟨result, k, [], fun l hl => ?_⟩
  rw [h, ← hl, Ledger.extend_self]

theorem compositional_uniform : Compositional Uniform where
  pure a := uniform_of_run (.ok a) fun _ => rfl
  throw e := uniform_of_run (.error e) fun _ => rfl
  lift x := uniform_of_run x fun _ => by cases x <;> rfl
  bind := uniform_bind
  freshChannel n k := by
    refine ⟨.ok (replyChannel n k), k + 1, [], fun l hl => ?_⟩
    rw [run_freshChannel, hl, Ledger.extend, List.append_nil, List.append_nil]
  replace expected n k := by
    refine ⟨.ok (placeholder n), k, [⟨n.position, expected, n.type⟩], fun l hl => ?_⟩
    rw [run_replace, Ledger.note, hl]
    rfl

/-- **Lowering statements is uniform.** -/
theorem uniform_lowerBlock (body : List Node) : Uniform (lowerBlock body) :=
  compositional_uniform.lowerBlock body

end RhoScript.Lowering
