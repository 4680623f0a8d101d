import RhoScript.Proofs.Lowering.Reading
import RhoScript.Proofs.Source.Shape

/-!
# How lowering fails

A part of lowering that fails either rejects the tree with a report or misses something that it takes
for granted. `Node.Fails` are the failures that a node itself gives rise to: a report that gives the
position of the node, or something missed in the parts of it. `Confined P` and `RunConfined P` say
that a failure is in `P`, of a part without and with a ledger.

Expressions, patterns and messages miss nothing, whatever their shape; what is taken for granted are
the local names of imports, the cases of a switch and the blocks of functions. `Node.misfits` are the
misfits that the parts of a node give rise to. Main statements: lowering a tree fails only as some
node of it does (`runConfined_lowerTree`). So a report is about a node of the tree
(`cited_of_lowerTree`), nothing is missed but the misfits of its nodes (`safeBut_lowerTree`), and a
well-shaped tree is lowered or rejected with a report (`safe_lowerTree`).
-/

namespace RhoScript

namespace Node

/-- What is missed in the place of a function's body. -/
def bodyMisfits : Node → List Misfit
  | .program .. | .blockStatement .. => []
  | .functionDeclaration _ _ _ body _ | .functionExpression _ _ _ body _ => [.notList body.tag]
  | n => [.noField n.tag "body"]

/-- What is missed in the place of a case. -/
def caseMisfits : Node → List Misfit
  | .switchCase .. => []
  | .ifStatement _ _ consequent _ => [.notList consequent.tag]
  | n => [.noField n.tag "test"]

/-- What is missed in the place of an import specifier. -/
def specifierMisfits : Node → List Misfit
  | .importDefaultSpecifier _ binding | .importSpecifier _ binding _
  | .importNamespaceSpecifier _ binding => match binding with
    | .identifier .. => []
    | n => [.noField n.tag "name"]
  | n => [.noField n.tag "local"]

/-- What may be missed in the parts of a node that are taken for granted. -/
def misfits : Node → List Misfit
  | .functionDeclaration _ _ _ body _ | .functionExpression _ _ _ body _ => body.bodyMisfits
  | .importDeclaration _ specifiers _ => specifiers.flatMap specifierMisfits
  | .switchStatement _ _ cases => cases.flatMap caseMisfits
  | _ => []

/-- What may be missed anywhere in the tree is in `E`. -/
def MisfitsIn (E : Misfit → Prop) (n : Node) : Prop :=
  n.Everywhere fun m => ∀ misfit ∈ m.misfits, E misfit

/-- Nothing is missed in parts of the right kinds. -/
theorem misfits_of_fits {n : Node} (h : n.fits = true) : n.misfits = [] := by
  cases n
  case functionDeclaration loc id params body isAsync => cases body <;> first | rfl | cases h
  case functionExpression loc id params body isAsync => cases body <;> first | rfl | cases h
  case importDeclaration loc specifiers source =>
    refine List.flatMap_eq_nil_iff.mpr fun m hm => ?_
    have hm := List.all_eq_true.mp h m hm
    unfold isSpecifier at hm
    split at hm
    · rfl
    · rfl
    · rfl
    · cases hm
  case switchStatement loc discriminant cases =>
    refine List.flatMap_eq_nil_iff.mpr fun m hm => ?_
    have hm := List.all_eq_true.mp h m hm
    cases m <;> first | rfl | cases hm
  all_goals rfl

theorem WellShaped.misfitsIn {n : Node} (h : n.WellShaped) (E : Misfit → Prop) : n.MisfitsIn E := by
  intro m hm misfit hmisfit
  rw [misfits_of_fits (h m hm)] at hmisfit
  cases hmisfit

/-- The report is about the node: it gives its position, and does not quote the source yet. -/
structure Cited (n : Node) (report : CompileError) : Prop where
  line : report.line = some n.position.line
  column : report.column = some n.position.column
  context : report.context = none

/-- The failures that a node itself gives rise to. -/
inductive Fails (n : Node) : Lowering.Failure → Prop
  | rejected {report : CompileError} (h : n.Cited report) : Fails n (.rejected report)
  | misfit {misfit : Misfit} (h : misfit ∈ n.misfits) : Fails n (.misfit misfit)

/-- The failures of all nodes of the tree are in `P`. -/
def FailsIn (P : Lowering.Failure → Prop) (n : Node) : Prop :=
  n.Everywhere fun m => ∀ e, m.Fails e → P e

namespace FailsIn

variable {P : Lowering.Failure → Prop} {n m : Node}

theorem child (hn : n.FailsIn P) (hm : m ∈ n.children) : m.FailsIn P := Everywhere.child hn hm

theorem unexpected (hn : n.FailsIn P) {expected found : String} {suggestion : Option String} :
    P (.unexpected expected n found suggestion) :=
  hn.here _ (.rejected ⟨rfl, rfl, rfl⟩)

theorem located (hn : n.FailsIn P) {message : WideString} : P (.located message n) :=
  hn.here _ (.rejected ⟨rfl, rfl, rfl⟩)

theorem misfit (hn : n.FailsIn P) {misfit : Misfit} (h : misfit ∈ n.misfits) : P (.misfit misfit) :=
  hn.here _ (.misfit h)

end FailsIn

end Node

namespace Lowering

variable {α β : Type} {P : Failure → Prop}

/-- If this fails, then in a way that is in `P`. -/
def Confined (P : Failure → Prop) (x : Except Failure α) : Prop := ∀ e, x = .error e → P e

/-- If this part of lowering fails, then in a way that is in `P`, whatever the ledger. -/
def RunConfined (P : Failure → Prop) (m : LowerM α) : Prop := ∀ l, Confined P (ExceptT.run m l).1

theorem confined_ok (a : α) : Confined P (.ok a) := by
  rintro _ ⟨⟩

theorem confined_error {e : Failure} (h : P e) : Confined P (.error e : Except Failure α) := by
  rintro _ ⟨⟩
  exact h

theorem Confined.bind {x : Except Failure α} {f : α → Except Failure β} (hx : Confined P x)
    (hf : ∀ a, x = .ok a → Confined P (f a)) : Confined P (x >>= f) := by
  cases x with
  | error e => exact confined_error (hx e rfl)
  | ok a => exact hf a rfl

/-- A part that goes through a list fails as a member does. -/
theorem confined_each {γ : Type} (g : List α → Except Failure γ) {f : α → Except Failure β} {z : γ}
    {join : β → γ → γ} (hnil : g [] = .ok z)
    (hcons : ∀ a rest, g (a :: rest) = do return join (← f a) (← g rest)) {as : List α}
    (has : ∀ a ∈ as, Confined P (f a)) : Confined P (g as) := by
  induction as with
  | nil =>
    rw [hnil]
    exact confined_ok z
  | cons a rest ih =>
    obtain ⟨ha, hrest⟩ := List.forall_mem_cons.mp has
    rw [hcons]
    exact ha.bind fun _ _ => (ih hrest).bind fun _ _ => confined_ok _

theorem RunConfined.bind {m : LowerM α} {f : α → LowerM β} (hm : RunConfined P m)
    (hf : ∀ a, RunConfined P (f a)) : RunConfined P (m >>= f) := by
  intro l
  rw [run_bind]
  have hl := hm l
  rcases hrun : ExceptT.run m l with ⟨e | a, l₁⟩
  · rw [hrun] at hl
    exact confined_error (hl e rfl)
  · exact hf a l₁

theorem runConfined_pure (a : α) : RunConfined P (pure a) := fun _ => confined_ok a

theorem runConfined_throw {e : Failure} (h : P e) : RunConfined P (throw e : LowerM α) :=
  fun _ => confined_error h

theorem Confined.lift {x : Except Failure α} (h : Confined P x) : RunConfined P (liftM x) := by
  intro l
  cases x with
  | error e => exact h
  | ok a => exact h

/-- What follows a part without a ledger may count on the result of that. -/
theorem Confined.lift_bind {x : Except Failure α} {f : α → LowerM β} (hx : Confined P x)
    (hf : ∀ a, x = .ok a → RunConfined P (f a)) : RunConfined P (liftM x >>= f) := by
  cases x with
  | error e => exact runConfined_throw (hx e rfl)
  | ok a => exact hf a rfl

theorem runConfined_replace (expected : String) (n : Node) : RunConfined P (replace expected n) :=
  fun _ => confined_ok _

theorem runConfined_freshChannel (n : Node) : RunConfined P (freshChannel n) :=
  fun _ => confined_ok _

/-! ### Expressions, patterns and messages -/

theorem confined_identifierName {n : Node} (hn : n.FailsIn P) : Confined P (identifierName n) := by
  cases n
  case identifier loc name => exact confined_ok name
  all_goals exact confined_error hn.unexpected

theorem confined_identifierNames {ns : List Node} (hns : ∀ n ∈ ns, n.FailsIn P) :
    Confined P (identifierNames ns) :=
  confined_each identifierNames rfl (fun _ _ => rfl) fun n hn => confined_identifierName (hns n hn)

theorem confined_of_toProcesses_singleton {n : Node} (h : Confined P (toProcesses [n])) :
    Confined P (toProcess n) := by
  intro e hn
  apply h e
  rw [toProcesses, hn]
  rfl

mutual

theorem confined_toProcess (n : Node) (hn : n.FailsIn P) : Confined P (toProcess n) := by
  cases n
  case literal loc value raw => cases value <;> exact confined_ok _
  case identifier loc name => exact confined_ok _
  case binaryExpression loc operator left right | logicalExpression loc operator left right =>
    have hleft := hn.child List.mem_cons_self
    have hright := hn.child (List.mem_cons_of_mem _ List.mem_cons_self)
    rw [toProcess]
    split
    · exact confined_error hn.unexpected
    · exact (confined_toProcess left hleft).bind fun _ _ =>
        (confined_toProcess right hright).bind fun _ _ => confined_ok _
  case callExpression loc callee arguments =>
    have hcallee := hn.child List.mem_cons_self
    have harguments := confined_toProcesses arguments fun a ha =>
      hn.child (List.mem_cons_of_mem _ ha)
    unfold toProcess
    split
    · exact confined_error hcallee.unexpected
    split
    · split
      · exact (confined_of_toProcesses_singleton harguments).bind fun _ _ => confined_ok _
      · exact confined_error hn.unexpected
    · split
      · exact harguments.bind fun _ _ => confined_ok _
      · exact confined_error hcallee.unexpected
  case objectExpression loc properties =>
    exact (confined_toEntries properties fun p hp => hn.child hp).bind fun _ _ => confined_ok _
  all_goals exact confined_error hn.unexpected
termination_by structural n

theorem confined_toProcesses (ns : List Node) (hns : ∀ n ∈ ns, n.FailsIn P) :
    Confined P (toProcesses ns) := by
  cases ns with
  | nil => exact confined_ok _
  | cons n rest =>
    obtain ⟨hn, hrest⟩ := List.forall_mem_cons.mp hns
    exact (confined_toProcess n hn).bind fun _ _ =>
      (confined_toProcesses rest hrest).bind fun _ _ => confined_ok _
termination_by structural ns

theorem confined_toEntry (n : Node) (hn : n.FailsIn P) : Confined P (toEntry n) := by
  cases n
  case property loc key value kind method shorthand computed =>
    have hkey := hn.child List.mem_cons_self
    have hvalue := hn.child (List.mem_cons_of_mem _ List.mem_cons_self)
    unfold toEntry
    split
    · exact confined_error hn.unexpected
    split
    · exact (confined_toProcess value hvalue).bind fun _ _ => confined_ok _
    · exact confined_error hkey.unexpected
  all_goals exact confined_error hn.unexpected
termination_by structural n

theorem confined_toEntries (ns : List Node) (hns : ∀ n ∈ ns, n.FailsIn P) :
    Confined P (toEntries ns) := by
  cases ns with
  | nil => exact confined_ok _
  | cons n rest =>
    obtain ⟨hn, hrest⟩ := List.forall_mem_cons.mp hns
    exact (confined_toEntry n hn).bind fun _ _ =>
      (confined_toEntries rest hrest).bind fun _ _ => confined_ok _
termination_by structural ns

end

theorem confined_toPattern {n : Node} (hn : n.FailsIn P) : Confined P (toPattern n) := by
  cases n
  case identifier loc name => exact confined_ok _
  case objectPattern loc properties =>
    rw [toPattern]
    split
    · exact (confined_toProcesses _ (everywhere_propertyValues hn)).bind fun _ _ => confined_ok _
    · exact confined_error hn.unexpected
  all_goals exact confined_error hn.unexpected

theorem confined_toPatterns {ns : List Node} (hns : ∀ n ∈ ns, n.FailsIn P) :
    Confined P (toPatterns ns) :=
  confined_each toPatterns rfl (fun _ _ => rfl) fun n hn => confined_toPattern (hns n hn)

/-- The members of a list without holes stand in the list. -/
theorem mem_of_members? {elements : List (Option Node)} {ns : List Node}
    (h : members? elements = some ns) {n : Node} (hn : n ∈ ns) : n ∈ elements.filterMap id := by
  rw [eq_map_some_of_members? h]
  simpa using hn

theorem confined_toArrayPattern {n : Node} (hn : n.FailsIn P) : Confined P (toArrayPattern n) := by
  cases n
  case arrayPattern loc elements =>
    rw [toArrayPattern]
    split
    · exact confined_error hn.unexpected
    · rename_i ns hmembers
      exact confined_toPatterns fun m hm => hn.child (mem_of_members? hmembers hm)
  all_goals exact confined_error hn.unexpected

theorem confined_recipient {n : Node} (hn : n.FailsIn P) : Confined P (recipient n) := by
  unfold recipient
  split
  · split
    · split
      · exact confined_identifierName (hn.child (List.mem_cons_of_mem _ List.mem_cons_self))
      · exact confined_error hn.unexpected
    · exact confined_error hn.unexpected
  · exact confined_error hn.unexpected

theorem confined_eventualTarget {n : Node} (hn : n.FailsIn P) : Confined P (eventualTarget n) := by
  unfold eventualTarget
  split
  · exact (confined_recipient hn).bind fun _ _ => confined_ok _
  · exact (confined_recipient (hn.child List.mem_cons_self)).bind fun _ _ => confined_ok _
  · have hproperty := hn.child (List.mem_cons_of_mem _ List.mem_cons_self)
    exact confined_error hproperty.unexpected
  · exact confined_error hn.unexpected

theorem confined_eventualCall {n : Node} (hn : n.FailsIn P) :
    Confined P (eventualCall (some n)) := by
  cases n
  case callExpression loc callee arguments =>
    exact (confined_eventualTarget (hn.child List.mem_cons_self)).bind fun _ _ => confined_ok _
  all_goals exact confined_error hn.unexpected

theorem confined_arguments {n : Node} {call : EventualCall} (hn : n.FailsIn P)
    (h : eventualCall (some n) = .ok call) : Confined P (toProcesses call.arguments) :=
  confined_toProcesses _ (everywhere_of_eventualCall hn h).2.2

theorem confined_eventualSend {n : Node} (hn : n.FailsIn P) (reply : String) :
    Confined P (eventualSend (some n) reply) :=
  (confined_eventualCall hn).bind fun _ hcall =>
    (confined_arguments hn hcall).bind fun _ _ => confined_ok _

theorem confined_eventualSends {calls : List (Node × String)} (h : ∀ c ∈ calls, c.1.FailsIn P) :
    Confined P (eventualSends calls) :=
  confined_each eventualSends rfl (fun _ _ => rfl) fun c hc => confined_eventualSend (h c hc) c.2

theorem runConfined_freshChannels (ns : List Node) : RunConfined P (freshChannels ns) := by
  induction ns with
  | nil => exact runConfined_pure _
  | cons n rest ih =>
    exact (runConfined_freshChannel n).bind fun _ => ih.bind fun _ => runConfined_pure _

/-- A call of a member of `Promise` is a call. -/
theorem confined_promises {n : Node} (h : isPromiseCall n = true) (hn : n.FailsIn P) :
    Confined P (promises n) := by
  cases n
  case callExpression loc callee arguments =>
    have hcallee := hn.child List.mem_cons_self
    cases callee
    case memberExpression mloc object property computed =>
      unfold promises
      dsimp only
      split
      · split
        · have harray := hn.child (List.mem_cons_of_mem _ List.mem_cons_self)
          split
          · exact confined_ok _
          · exact confined_error harray.unexpected
        · exact confined_error hn.unexpected
      · exact confined_error hcallee.unexpected
    all_goals exact confined_error hcallee.unexpected
  all_goals cases h

/-- What `Promise.all` is applied to stands in the source. -/
theorem everywhere_of_promises {Q : Node → Prop} {n : Node} {calls : List Node}
    (hn : n.Everywhere Q) (h : promises n = .ok calls) : ∀ c ∈ calls, c.Everywhere Q := by
  unfold promises at h
  split at h
  · split at h
    · split at h
      · split at h
        · split at h
          · rename_i hmembers
            cases h
            have harray := hn.child (List.mem_cons_of_mem _ List.mem_cons_self)
            exact fun c hc => harray.child (mem_of_members? hmembers hc)
          · cases h
        · cases h
      · cases h
    · cases h
  · cases h

theorem runConfined_promiseAll {n : Node} (h : isPromiseCall n = true) (hn : n.FailsIn P) :
    RunConfined P (promiseAll n) := by
  refine (confined_promises h hn).lift_bind fun calls hcalls => ?_
  have hsends : ∀ channels, Confined P (eventualSends (calls.zip channels)) := fun channels =>
    confined_eventualSends fun c hc => everywhere_of_promises hn hcalls _ (List.of_mem_zip hc).1
  exact (runConfined_freshChannels calls).bind fun channels =>
    (hsends channels).lift.bind fun _ => runConfined_pure _

theorem runConfined_awaitInto {pattern argument : Node} (awaiting : Node)
    (hpattern : pattern.FailsIn P) (hargument : argument.FailsIn P) :
    RunConfined P (awaitInto pattern awaiting (some argument)) := by
  unfold awaitInto
  split
  · rename_i hpromise
    refine (runConfined_promiseAll (by simpa using hpromise) hargument).bind fun a => ?_
    refine (confined_toArrayPattern hpattern).lift.bind fun _ => ?_
    split
    · exact runConfined_pure _
    · exact runConfined_throw hpattern.located
  · exact (runConfined_freshChannel awaiting).bind fun channel =>
      (confined_eventualSend hargument channel).lift.bind fun _ =>
        (confined_toPattern hpattern).lift.bind fun _ => runConfined_pure _

/-! ### Statements -/

theorem confined_lastOfBlock (s : Node) {after : List Node} (hafter : ∀ n ∈ after, n.FailsIn P) :
    Confined P (lastOfBlock s after) := by
  cases after with
  | nil => exact confined_ok _
  | cons n rest => exact confined_error (hafter n List.mem_cons_self).unexpected

theorem confined_declarator {loc : Loc} {declarations : List Node} {kind : String}
    (hn : (Node.variableDeclaration loc declarations kind).FailsIn P) :
    Confined P (declarator (.variableDeclaration loc declarations kind)) := by
  simp only [declarator]
  split
  · exact confined_error hn.unexpected
  · split
    · exact confined_ok _
    · have hd := hn.child List.mem_cons_self
      exact confined_error hd.unexpected
    · exact confined_error hn.unexpected

theorem runConfined_placeholder (expected : String) (n : Node) {rest : LowerM Process}
    (hrest : RunConfined P rest) :
    RunConfined P (do return Process.beside (← replace expected n) (← rest)) :=
  (runConfined_replace expected n).bind fun _ => hrest.bind fun _ => runConfined_pure _

theorem runConfined_expressionStatement {loc : Loc} {e : Node} {after : List Node}
    {rest : LowerM Process} (he : e.FailsIn P) (hafter : ∀ n ∈ after, n.FailsIn P)
    (hrest : RunConfined P rest) :
    RunConfined P (lowerStatement (.expressionStatement loc e) after rest) := by
  simp only [lowerStatement]
  split
  · rename_i argument hlogged
    have hargument := everywhere_of_loggedArgument? he hlogged
    exact (confined_toProcess argument hargument).lift.bind fun _ =>
      hrest.bind fun _ => runConfined_pure _
  · cases e
    case callExpression cloc callee arguments =>
      exact (confined_eventualCall he).lift_bind fun call hcall =>
        (confined_lastOfBlock _ hafter).lift.bind fun _ =>
          (confined_arguments he hcall).lift.bind fun _ => runConfined_pure _
    all_goals exact runConfined_placeholder _ _ hrest

mutual

theorem runConfined_lowerBlock (body : List Node) (hbody : ∀ s ∈ body, s.FailsIn P) :
    RunConfined P (lowerBlock body) := by
  cases body with
  | nil => exact runConfined_pure _
  | cons s rest =>
    obtain ⟨hs, hrest⟩ := List.forall_mem_cons.mp hbody
    rw [lowerBlock]
    exact runConfined_lowerStatement s hs hrest (runConfined_lowerBlock rest hrest)
termination_by structural body

theorem runConfined_lowerStatement (s : Node) {after : List Node} {rest : LowerM Process}
    (hs : s.FailsIn P) (hafter : ∀ n ∈ after, n.FailsIn P) (hrest : RunConfined P rest) :
    RunConfined P (lowerStatement s after rest) := by
  cases s
  case variableDeclaration loc declarations kind =>
    exact (confined_declarator hs).lift.bind fun _ =>
      runConfined_lowerDeclarators declarations (fun d hd => hs.child hd) hrest
  case expressionStatement loc e =>
    exact runConfined_expressionStatement (hs.child List.mem_cons_self) hafter hrest
  case switchStatement loc discriminant cases =>
    have hcases : ∀ c ∈ cases, ∀ misfit ∈ c.caseMisfits, P (.misfit misfit) :=
      fun c hc misfit hm => hs.misfit (List.mem_flatMap.mpr ⟨c, hc, hm⟩)
    exact (confined_toProcess discriminant (hs.child List.mem_cons_self)).lift.bind fun _ =>
      (runConfined_lowerCases cases fun c hc =>
        ⟨hcases c hc, hs.child (List.mem_cons_of_mem _ hc)⟩).bind fun _ =>
        hrest.bind fun _ => runConfined_pure _
  case returnStatement loc argument =>
    refine (confined_lastOfBlock _ hafter).lift.bind fun _ => ?_
    cases argument with
    | none => exact runConfined_pure _
    | some n =>
      have hn := hs.child (List.mem_singleton_self n)
      exact (confined_toProcess n hn).lift.bind fun _ => runConfined_pure _
  all_goals exact runConfined_placeholder _ _ hrest
termination_by structural s

theorem runConfined_lowerDeclarators (declarations : List Node) {rest : LowerM Process}
    (hds : ∀ d ∈ declarations, d.FailsIn P) (hrest : RunConfined P rest) :
    RunConfined P (lowerDeclarators declarations rest) := by
  cases declarations with
  | nil => exact hrest
  | cons d tail =>
    obtain ⟨hd, -⟩ := List.forall_mem_cons.mp hds
    cases d
    case variableDeclarator loc id init =>
      exact runConfined_lowerInitial _ init (hd.child List.mem_cons_self)
        (fun n hn => hd.child (List.mem_cons_of_mem _ (Option.mem_toList.mpr hn))) hrest
    all_goals exact hrest
termination_by structural declarations

theorem runConfined_lowerInitial (d : Node) {id : Node} (init : Option Node)
    {rest : LowerM Process} (hid : id.FailsIn P) (hinit : ∀ n ∈ init, n.FailsIn P)
    (hrest : RunConfined P rest) : RunConfined P (lowerInitial d id init rest) := by
  obtain _ | n := init
  · exact runConfined_placeholder _ _ hrest
  have hn := hinit n rfl
  have hname := (confined_identifierName hid).lift
  cases n
  case awaitExpression loc argument =>
    exact (runConfined_awaitInto _ hid (hn.child List.mem_cons_self)).bind fun _ =>
      hrest.bind fun _ => runConfined_pure _
  case objectExpression loc properties =>
    rw [lowerInitial]
    split
    · exact (runConfined_throw hn.unexpected).bind fun _ =>
        hname.bind fun _ => hrest.bind fun _ => runConfined_pure _
    · exact hname.bind fun _ => hrest.bind fun _ => runConfined_pure _
  case callExpression loc callee arguments =>
    have hcallee := hn.child List.mem_cons_self
    refine (confined_identifierName hcallee).lift.bind fun name => ?_
    have hsuite := (runConfined_lowerSuite arguments hid hn fun n hn' =>
      hn.child (List.mem_cons_of_mem _ hn')).bind fun a => hrest.bind fun q =>
        runConfined_pure (Process.new [.plain a.1] (.besideAll (a.2 ++ [q])))
    split
    · exact (runConfined_throw hcallee.unexpected).bind fun _ => hsuite
    · exact hsuite
  case literal loc value raw =>
    exact hname.bind fun _ => (confined_toProcess _ hn).lift.bind fun _ =>
      hrest.bind fun _ => runConfined_pure _
  all_goals exact runConfined_placeholder _ _ hrest
termination_by structural init

theorem runConfined_lowerSuite {id call : Node} (arguments : List Node) (hid : id.FailsIn P)
    (hcall : call.FailsIn P) (harguments : ∀ n ∈ arguments, n.FailsIn P) :
    RunConfined P (lowerSuite id call arguments) := by
  have hname := (confined_identifierName hid).lift
  obtain _ | ⟨argument, _ | ⟨_, _⟩⟩ := arguments
  · exact hname.bind fun _ => runConfined_throw hcall.unexpected
  · have hargument := harguments _ List.mem_cons_self
    exact hname.bind fun target =>
      (runConfined_lowerObject target argument hargument).bind fun _ => runConfined_pure _
  · exact hname.bind fun _ => runConfined_throw hcall.unexpected
termination_by structural arguments

theorem runConfined_lowerObject (target : String) (n : Node) (hn : n.FailsIn P) :
    RunConfined P (lowerObject target n) := by
  cases n
  case objectExpression loc properties =>
    exact runConfined_lowerMethods target properties fun p hp => hn.child hp
  all_goals exact runConfined_throw hn.unexpected
termination_by structural n

theorem runConfined_lowerMethods (target : String) (properties : List Node)
    (hproperties : ∀ p ∈ properties, p.FailsIn P) :
    RunConfined P (lowerMethods target properties) := by
  cases properties with
  | nil => exact runConfined_pure _
  | cons p rest =>
    obtain ⟨hp, hrest⟩ := List.forall_mem_cons.mp hproperties
    exact (runConfined_lowerMethod target p hp).bind fun _ =>
      (runConfined_lowerMethods target rest hrest).bind fun _ => runConfined_pure _
termination_by structural properties

theorem runConfined_lowerMethod (target : String) (p : Node) (hp : p.FailsIn P) :
    RunConfined P (lowerMethod target p) := by
  cases p
  case property loc key value kind method shorthand computed =>
    have hkey := hp.child List.mem_cons_self
    rw [lowerMethod]
    split
    · exact runConfined_lowerFunction target _ value
        (hp.child (List.mem_cons_of_mem _ List.mem_cons_self))
    · exact runConfined_throw hkey.unexpected
  all_goals exact runConfined_throw hp.unexpected
termination_by structural p

theorem runConfined_lowerFunction (target : String) (method : WideString) (f : Node) (hf : f.FailsIn P) :
    RunConfined P (lowerFunction target method f) := by
  cases f
  case functionExpression loc id params body isAsync =>
    have hparams : ∀ p ∈ params, p.FailsIn P := fun p hp => hf.child (by simp [Node.children, hp])
    exact (confined_identifierNames hparams).lift.bind fun _ =>
      (runConfined_lowerBody body (fun _ h => hf.misfit h)
        (hf.child (by simp [Node.children]))).bind fun _ => runConfined_pure _
  all_goals exact runConfined_throw hf.unexpected
termination_by structural f

theorem runConfined_lowerBody (n : Node) (hbody : ∀ misfit ∈ n.bodyMisfits, P (.misfit misfit))
    (hn : n.FailsIn P) : RunConfined P (lowerBody n) := by
  cases n
  case program loc body => exact runConfined_lowerBlock body fun s hs => hn.child hs
  case blockStatement loc body => exact runConfined_lowerBlock body fun s hs => hn.child hs
  all_goals exact runConfined_throw (hbody _ List.mem_cons_self)
termination_by structural n

theorem runConfined_lowerCases (cases : List Node)
    (hcases : ∀ c ∈ cases, (∀ misfit ∈ c.caseMisfits, P (.misfit misfit)) ∧ c.FailsIn P) :
    RunConfined P (lowerCases cases) := by
  obtain _ | ⟨c, rest⟩ := cases
  · exact runConfined_pure _
  · obtain ⟨⟨hcase, hc⟩, hrest⟩ := List.forall_mem_cons.mp hcases
    exact (runConfined_lowerCase c hcase hc).bind fun _ =>
      (runConfined_lowerCases rest hrest).bind fun _ => runConfined_pure _
termination_by structural cases

theorem runConfined_lowerCase (c : Node) (hcase : ∀ misfit ∈ c.caseMisfits, P (.misfit misfit))
    (hc : c.FailsIn P) : RunConfined P (lowerCase c) := by
  cases c
  case switchCase loc test body =>
    cases test with
    | none => exact runConfined_throw hc.located
    | some test =>
      exact (confined_toProcess test (hc.child List.mem_cons_self)).lift.bind fun _ =>
        (runConfined_lowerBlock body fun s hs => hc.child (List.mem_cons_of_mem _ hs)).bind
          fun _ => runConfined_pure _
  case ifStatement loc test consequent alternate =>
    exact (confined_toProcess test (hc.child List.mem_cons_self)).lift.bind fun _ =>
      runConfined_throw (hcase _ List.mem_cons_self)
  all_goals exact runConfined_throw (hcase _ List.mem_cons_self)
termination_by structural c

end

/-! ### Programs -/

theorem confined_localName {n : Node} (h : ∀ misfit ∈ n.specifierMisfits, P (.misfit misfit)) :
    Confined P (localName n) := by
  cases n
  case importDefaultSpecifier loc binding | importSpecifier loc binding _
      | importNamespaceSpecifier loc binding =>
    cases binding
    case identifier => exact confined_ok _
    all_goals exact confined_error (h _ List.mem_cons_self)
  all_goals exact confined_error (h _ List.mem_cons_self)

theorem confined_localNames {ns : List Node}
    (h : ∀ n ∈ ns, ∀ misfit ∈ n.specifierMisfits, P (.misfit misfit)) :
    Confined P (localNames ns) :=
  confined_each localNames rfl (fun _ _ => rfl) fun n hn => confined_localName (h n hn)

theorem confined_literalValue {n : Node} (hn : n.FailsIn P) : Confined P (literalValue n) := by
  cases n
  case literal loc value raw => exact confined_ok value
  all_goals exact confined_error hn.unexpected

theorem confined_resourceBinding {n : Node} (uri : WideString) {specifiers : List Node}
    (hn : n.FailsIn P) (h : ∀ m ∈ specifiers, ∀ misfit ∈ m.specifierMisfits, P (.misfit misfit)) :
    Confined P (resourceBinding n uri specifiers) := by
  unfold resourceBinding
  split
  · exact (confined_localName (h _ List.mem_cons_self)).bind fun _ _ => confined_ok _
  · exact confined_error hn.located

theorem confined_importBindings {n : Node} (himport : isImport n = true) (hn : n.FailsIn P) :
    Confined P (importBindings n) := by
  cases n
  case importDeclaration loc specifiers source =>
    have hsource := hn.child (m := source) (by simp [Node.children])
    have hspecifiers : ∀ m ∈ specifiers, ∀ misfit ∈ m.specifierMisfits, P (.misfit misfit) :=
      fun m hm misfit hmisfit => hn.misfit (List.mem_flatMap.mpr ⟨m, hm, hmisfit⟩)
    refine (confined_literalValue hsource).bind fun value _ => ?_
    split
    · split
      · exact confined_resourceBinding _ hn hspecifiers
      split
      · exact confined_error hn.located
      · refine (confined_localNames hspecifiers).bind fun names _ => ?_
        dsimp only
        split
        · exact confined_ok _
        · exact confined_error hn.located
    · exact confined_error hn.located
  all_goals cases himport

theorem confined_importsBindings {ns : List Node}
    (h : ∀ n ∈ ns, isImport n = true ∧ n.FailsIn P) : Confined P (importsBindings ns) :=
  confined_each importsBindings rfl (fun _ _ => rfl) fun n hn => confined_importBindings (h n hn).1 (h n hn).2

theorem runConfined_lowerItems {items : List Node} (h : ∀ n ∈ items, n.FailsIn P) :
    RunConfined P (lowerItems items) := by
  unfold lowerItems
  split
  · have hdeclaration := (h _ List.mem_cons_self).child List.mem_cons_self
    split
    · split
      · exact runConfined_lowerBody _ (fun _ h => hdeclaration.misfit h)
          (hdeclaration.child (by simp [Node.children]))
      · have hn := h _ (List.mem_cons_of_mem _ List.mem_cons_self)
        exact runConfined_throw hn.unexpected
    · exact runConfined_throw hdeclaration.unexpected
  · exact runConfined_lowerBlock _ h

theorem runConfined_lowerProgram {items : List Node} (h : ∀ n ∈ items, n.FailsIn P) :
    RunConfined P (lowerProgram items) := by
  have himports : ∀ n ∈ items.takeWhile isImport, isImport n = true ∧ n.FailsIn P := by
    intro n hn
    exact ⟨List.all_eq_true.mp List.all_takeWhile n hn, h n ((List.takeWhile_sublist _).mem hn)⟩
  have hrest := fun n hn => h n ((List.dropWhile_sublist isImport).mem hn)
  unfold lowerProgram
  split
  · exact runConfined_pure _
  · exact (confined_importsBindings himports).lift.bind fun _ =>
      (runConfined_lowerItems hrest).bind fun _ => runConfined_pure _

/-- **Lowering a tree fails only as some node of it does.** -/
theorem runConfined_lowerTree {n : Node} (hn : n.FailsIn P) : RunConfined P (lowerTree n) := by
  have hlower : RunConfined P (lower n) := by
    cases n
    case program loc body => exact runConfined_lowerProgram fun s hs => hn.child hs
    case blockStatement loc body => exact runConfined_lowerBlock body fun s hs => hn.child hs
    case expressionStatement loc e =>
      exact (confined_toProcess e (hn.child List.mem_cons_self)).lift
    all_goals exact runConfined_replace _ _
  exact RunConfined.bind (fun _ => confined_ok _) fun _ =>
    hlower.bind fun _ => RunConfined.bind (fun _ => confined_ok _) fun _ => runConfined_pure _

/-- **A report on a tree is about one of its nodes.** -/
theorem cited_of_lowerTree {n : Node} {l l' : Ledger} {report : CompileError}
    (h : ExceptT.run (lowerTree n) l = (.error (.rejected report), l')) :
    ∃ m ∈ n.nodes, m.Cited report := by
  have hn : n.FailsIn fun e => ∀ report, e = .rejected report → ∃ m ∈ n.nodes, m.Cited report := by
    intro m hm e he report' heq
    cases he with
    | rejected hcited =>
      cases heq
      exact ⟨m, hm, hcited⟩
    | misfit => cases heq
  exact runConfined_lowerTree hn l _ (congrArg Prod.fst h) report rfl

/-! ### What is taken for granted -/

section

variable {E : Misfit → Prop}

/-- If this fails without a report, then what is missed is in `E`. -/
def ReportsBut (E : Misfit → Prop) (x : Except Failure α) : Prop :=
  ∀ misfit, x = .error (.misfit misfit) → E misfit

/-- If this part of lowering fails without a report, then what is missed is in `E`, whatever the
ledger. -/
def SafeBut (E : Misfit → Prop) (m : LowerM α) : Prop := ∀ l, ReportsBut E (ExceptT.run m l).1

/-- **Lowering a tree misses nothing but the misfits of its nodes.** -/
theorem safeBut_lowerTree {n : Node} (hn : n.MisfitsIn E) : SafeBut E (lowerTree n) := by
  have hfails : n.FailsIn fun e => ∀ misfit, e = .misfit misfit → E misfit := by
    intro m hm e he misfit heq
    cases he with
    | rejected => cases heq
    | misfit hmisfit =>
      cases heq
      exact hn m hm misfit hmisfit
  intro l misfit h
  exact runConfined_lowerTree hfails l _ h misfit rfl

/-- **Lowering a well-shaped tree gives a process or a report.** -/
theorem safe_lowerTree {n : Node} (hn : n.WellShaped) :
    SafeBut (fun _ => False) (lowerTree n) :=
  safeBut_lowerTree (hn.misfitsIn _)

end

end Lowering

end RhoScript
