import RhoScript.Proofs.Lowering.Sketches

/-!
# Locations only label

The locations in a tree are cited in reports and diagnostics, and they are part of the names of reply
channels. Nothing else depends on them: two trees that differ in locations only are rejected alike, or
their processes are one skeleton, filled with the reply channels of each (`mirrored_of_relocated`).
-/

namespace RhoScript.Lowering

open Node

/-! ### Statements -/

section Statements

variable {a b : Node} {after after' : List Node} {rest rest' : LowerM Process} {k k₁ k₂ : Nat}
  {ds ds' es es' : List Dispatch} {p p' q q' : Process}

theorem sketched_process (hds : labels ds = []) (hds' : labels ds' = []) (p : Process) :
    Sketched Skeleton.fill k ds ds' k p p :=
  sketched_fixed hds hds' (s := .fixed p) fun _ => rfl

theorem Sketched.beside (hp : Sketched Skeleton.fill k ds ds' k₁ p p')
    (hq : Sketched Skeleton.fill k₁ es es' k₂ q q') :
    Sketched Skeleton.fill k (ds ++ es) (ds' ++ es') k₂ (p.beside q) (p'.beside q') :=
  hp.map₂ Process.beside Skeleton.beside (fun s t names => (s.fill_beside t names).symm) hq

/-- What only acts stands beside the rest. -/
theorem twinAt_beside (hp : Sketched Skeleton.fill k ds ds' k₁ p p')
    (hrest : TwinAt k₁ rest rest' (Sketched Skeleton.fill k₁ es es')) :
    TwinAt k₁ (do return p.beside (← rest)) (do return p'.beside (← rest'))
      (Sketched Skeleton.fill k (ds ++ es) (ds' ++ es')) :=
  twinAt_map hrest fun _ _ _ hq => hp.beside hq

theorem twinAt_replaced (h : a.Relocated b) (hds : labels ds = []) (hds' : labels ds' = [])
    {expected : String} (hrest : ∀ k, TwinAt k rest rest' (Sketched Skeleton.fill k es es')) (k : Nat) :
    TwinAt k (do return Process.beside (← replace expected a) (← rest))
      (do return Process.beside (← replace expected b) (← rest'))
      (Sketched Skeleton.fill k (ds ++ es) (ds' ++ es')) := by
  refine twinAt_bind (twinAt_replace h expected) ?_
  rintro _ _ _ ⟨rfl, rfl, rfl⟩
  exact twinAt_beside (sketched_process hds hds' _) (hrest _)

theorem agree_lastOfBlock (h : a.Relocated b) (hafter : List.Forall₂ Relocated after after') :
    Agree (fun _ _ => after = []) (lastOfBlock a after) (lastOfBlock b after') := by
  cases hafter with
  | nil => exact .ok rfl
  | cons hn _ =>
    rw [lastOfBlock, lastOfBlock, h.type_eq]
    exact agree_unexpected hn

theorem agree_declarator {loc loc' : Loc} {as bs : List Node} {kind : String}
    (h : List.Forall₂ Relocated as bs) :
    Agree (fun _ _ => ∃ dloc id init, as = [.variableDeclarator dloc id init])
      (declarator (.variableDeclaration loc as kind))
      (declarator (.variableDeclaration loc' bs kind)) := by
  have hab : (variableDeclaration loc as kind).Relocated (.variableDeclaration loc' bs kind) :=
    .variableDeclaration h
  simp only [declarator]
  split
  · exact agree_unexpected hab
  · cases h with
    | nil => exact agree_unexpected hab
    | cons hd hrest => cases hrest with
      | nil =>
        have hdeclarator := hd
        cases hd
        case variableDeclarator => exact .ok ⟨_, _, _, rfl⟩
        all_goals exact agree_unexpected hdeclarator
      | cons _ hmore =>
        simp only [List.length_cons, hmore.length_eq]
        exact agree_unexpected hab

theorem relocated_loggedArgument? (h : a.Relocated b) :
    Option.Rel Relocated (loggedArgument? a) (loggedArgument? b) := by
  cases h
  case callExpression hcallee harguments =>
    cases hcallee
    case memberExpression computed hobject hproperty =>
      rcases harguments with _ | ⟨hargument, _ | ⟨_, _⟩⟩
      · cases computed <;> exact .none
      · cases computed with
        | true => exact .none
        | false =>
          simp only [loggedArgument?, name?_eq hobject, name?_eq hproperty]
          split
          · exact .some hargument
          · exact .none
      · cases computed <;> exact .none
    all_goals exact .none
  all_goals exact .none

/-- The skeleton of a declaration that awaits replies. -/
def awaitSkeleton (s : AwaitSketch) (t : Skeleton) : Skeleton :=
  .replies s.numbers
    ((Skeleton.besideAll (List.zipWith (fun m i => .request m.1 m.2 i) s.messages s.numbers)).beside
      (.receive ((s.patterns.zip s.numbers).map fun (p, i) => ([p], i)) t))

theorem fill_awaitSkeleton (s : AwaitSketch) (t : Skeleton) (names : Nat → String) :
    .new ((s.fill names).channels.map .plain)
        (.beside (s.fill names).sends (.receive (s.fill names).clauses (t.fill names))) =
      (awaitSkeleton s t).fill names := by
  have hsends : (s.fill names).sends = (Skeleton.besideAll
      (List.zipWith (fun m i => .request m.1 m.2 i) s.messages s.numbers)).fill names := by
    rw [Skeleton.fill_besideAll, List.map_zipWith]
    simp only [AwaitSketch.fill, List.zipWith_map_right]
    rfl
  rw [awaitSkeleton, Skeleton.fill, Skeleton.fill_beside, Skeleton.fill, hsends]
  simp only [AwaitSketch.fill, List.zip_map_right, List.map_map]
  rfl

theorem twinAt_expressionStatement {loc loc' : Loc} (h : a.Relocated b)
    (hafter : List.Forall₂ Relocated after after') (hempty : after = [] → es = [] ∧ es' = [])
    (hrest : ∀ k, TwinAt k rest rest' (Sketched Skeleton.fill k es es')) (k : Nat) :
    TwinAt k (lowerStatement (.expressionStatement loc a) after rest)
      (lowerStatement (.expressionStatement loc' b) after' rest')
      (Sketched Skeleton.fill k (statementDispatches (.expressionStatement loc a) ++ es)
        (statementDispatches (.expressionStatement loc' b) ++ es')) := by
  have hab := h
  have hlogged := relocated_loggedArgument? h
  simp only [lowerStatement, statementDispatches]
  generalize loggedArgument? a = x, loggedArgument? b = y at hlogged
  cases hlogged with
  | some hargument =>
    refine twinAt_lift_bind (agree_toProcess _ _ hargument) ?_
    rintro value _ rfl
    exact twinAt_beside (sketched_process rfl rfl _) (hrest k)
  | none =>
    cases h
    case callExpression =>
      refine twinAt_lift_bind (agree_eventualCall hab) ?_
      rintro ⟨target, method, arguments⟩ ⟨_, _, arguments'⟩ ⟨rfl, rfl, harguments⟩
      refine twinAt_lift_bind (agree_lastOfBlock (.expressionStatement hab) hafter) ?_
      intro _ _ hnil
      -- nothing follows the message, so nothing is dispatched after it
      obtain ⟨rfl, rfl⟩ := hempty hnil
      refine twinAt_lift_bind (agree_toProcesses arguments arguments' harguments) ?_
      rintro processes _ rfl
      exact twinAt_pure (sketched_process rfl rfl _)
    all_goals exact twinAt_replaced hab rfl rfl hrest k

/-- A list of processes. -/
def fillAll (ss : List Skeleton) (names : Nat → String) : List Process :=
  ss.map fun s => s.fill names

/-- A target with its contracts. -/
def fillSuite (s : String × List Skeleton) (names : Nat → String) : String × List Process :=
  (s.1, fillAll s.2 names)

/-- A case of a pattern and a body. -/
def fillCase (s : Process × Skeleton) (names : Nat → String) : Process × Process :=
  (s.1, s.2.fill names)

theorem name?_of_identifierName {n : Node} {x : String} (h : identifierName n = .ok x) :
    name? n = some x := by
  obtain ⟨loc, rfl⟩ := eq_identifier_of_identifierName h
  rfl

mutual

theorem twinAt_lowerBlock (as bs : List Node) (h : List.Forall₂ Relocated as bs) (k : Nat) :
    TwinAt k (lowerBlock as) (lowerBlock bs)
      (Sketched Skeleton.fill k (blockDispatches as) (blockDispatches bs)) := by
  cases as with
  | nil =>
    cases h
    exact twinAt_pure (sketched_process rfl rfl _)
  | cons a as =>
    cases h with
    | cons ha hrest =>
      rw [lowerBlock, lowerBlock, blockDispatches, blockDispatches]
      refine twinAt_lowerStatement a _ ha hrest ?_ (twinAt_lowerBlock as _ hrest) k
      rintro rfl
      cases hrest
      exact ⟨rfl, rfl⟩
termination_by structural as

theorem twinAt_lowerStatement (a b : Node) (h : a.Relocated b)
    {after after' : List Node} (hafter : List.Forall₂ Relocated after after')
    {es es' : List Dispatch} (hempty : after = [] → es = [] ∧ es' = []) {rest rest' : LowerM Process}
    (hrest : ∀ k, TwinAt k rest rest' (Sketched Skeleton.fill k es es')) (k : Nat) :
    TwinAt k (lowerStatement a after rest) (lowerStatement b after' rest')
      (Sketched Skeleton.fill k (statementDispatches a ++ es) (statementDispatches b ++ es')) := by
  -- the recursion is on the first tree, which the cases of the relation open
  have hab := h
  cases h
  case variableDeclaration hdeclarations =>
    refine twinAt_lift_bind (agree_declarator hdeclarations) ?_
    intro _ _ hone
    exact twinAt_lowerDeclarators _ _ hdeclarations hone hrest k
  case expressionStatement he => exact twinAt_expressionStatement he hafter hempty hrest k
  case switchStatement hdiscriminant hcases =>
    refine twinAt_lift_bind (agree_toProcess _ _ hdiscriminant) ?_
    rintro specimen _ rfl
    refine twinAt_bind (twinAt_lowerCases _ _ hcases k) ?_
    intro k₁ bodies bodies' hbodies
    refine twinAt_beside (hbodies.map (Process.select specimen) (Skeleton.select specimen) ?_)
      (hrest k₁)
    intro ss names
    rw [Skeleton.fill]
  case returnStatement hargument =>
    refine twinAt_lift_bind (agree_lastOfBlock hab hafter) ?_
    intro _ _ hnil
    obtain ⟨rfl, rfl⟩ := hempty hnil
    cases hargument with
    | none => exact twinAt_pure (sketched_process rfl rfl _)
    | some hn =>
      refine twinAt_lift_bind (agree_toProcess _ _ hn) ?_
      rintro value _ rfl
      exact twinAt_pure (sketched_process rfl rfl _)
  all_goals exact twinAt_replaced hab rfl rfl hrest k
termination_by structural a

theorem twinAt_lowerDeclarators (as bs : List Node) (h : List.Forall₂ Relocated as bs)
    (hone : ∃ loc id init, as = [.variableDeclarator loc id init])
    {es es' : List Dispatch} {rest rest' : LowerM Process}
    (hrest : ∀ k, TwinAt k rest rest' (Sketched Skeleton.fill k es es')) (k : Nat) :
    TwinAt k (lowerDeclarators as rest) (lowerDeclarators bs rest')
      (Sketched Skeleton.fill k (partsDispatches as ++ es) (partsDispatches bs ++ es')) := by
  cases as with
  | nil => nomatch hone
  | cons d tail =>
    obtain ⟨hd, rfl⟩ : (∃ loc id init, d = .variableDeclarator loc id init) ∧ tail = [] := by
      obtain ⟨loc, id, init, heq⟩ := hone
      cases heq
      exact ⟨⟨loc, id, init, rfl⟩, rfl⟩
    cases d
    case variableDeclarator loc id init =>
      rcases h with _ | ⟨hdeclarator, _ | _⟩
      have hab := hdeclarator
      cases hdeclarator with
      | variableDeclarator hid hinit =>
        simp only [partsDispatches, partDispatches, List.append_nil]
        exact twinAt_lowerInitial hab hid init _ hinit hrest k
    all_goals
      obtain ⟨_, _, _, heq⟩ := hd
      cases heq
termination_by structural as

theorem twinAt_lowerInitial {d d' id id' : Node} (hd : d.Relocated d') (hid : id.Relocated id')
    (init init' : Option Node) (h : Option.Rel Relocated init init')
    {es es' : List Dispatch} {rest rest' : LowerM Process}
    (hrest : ∀ k, TwinAt k rest rest' (Sketched Skeleton.fill k es es')) (k : Nat) :
    TwinAt k (lowerInitial d id init rest) (lowerInitial d' id' init' rest')
      (Sketched Skeleton.fill k (initialDispatches id init ++ es)
        (initialDispatches id' init' ++ es')) := by
  obtain _ | n := init
  · cases h
    exact twinAt_replaced hd rfl rfl hrest k
  cases h with
  | some h =>
  have hab := h
  cases h
  case awaitExpression hargument =>
    refine twinAt_bind (twinAt_awaitInto hid hargument) ?_
    intro k₁ awaited awaited' hawaited
    refine twinAt_map (hrest k₁) ?_
    intro k₂ q q' hq
    exact hawaited.map₂ (fun a q => Process.new (a.channels.map .plain)
      (.beside a.sends (.receive a.clauses q))) awaitSkeleton fill_awaitSkeleton hq
  case objectExpression hproperties =>
    cases hproperties with
    | nil =>
      refine twinAt_lift_bind (agree_identifierName hid) ?_
      rintro name _ rfl
      refine twinAt_map (hrest k) fun k₁ q q' hq => ?_
      exact hq.map (Process.new [.plain name]) (Skeleton.new [.plain name])
        fun _ _ => by rw [Skeleton.fill]
    | cons => exact twinAt_throw_bind (Failure.alike_unexpected hab _ _ _)
  case callExpression hcallee harguments =>
    refine twinAt_lift_bind (agree_identifierName hcallee).with_eq ?_
    rintro name _ ⟨rfl, hname, hname'⟩
    dsimp only
    split
    · exact twinAt_throw_bind (Failure.alike_unexpected hcallee _ _ _)
    · -- both trees harden an object, so that the methods of both are dispatched
      rename_i hharden
      obtain rfl := Decidable.not_not.mp hharden
      simp only [initialDispatches, name?_of_identifierName hname, name?_of_identifierName hname',
        if_true]
      refine twinAt_bind (twinAt_lowerSuite hid hab _ _ harguments k) ?_
      intro k₁ r r' hr
      refine twinAt_map (hrest k₁) fun k₂ q q' hq => ?_
      refine hr.map₂ (fun r q => Process.new [.plain r.1] (.besideAll (r.2 ++ [q])))
        (fun s t => Skeleton.new [.plain s.1] (.besideAll (s.2 ++ [t]))) (fun s t names => ?_) hq
      rw [Skeleton.fill, Skeleton.fill_besideAll]
      simp [fillSuite, fillAll]
  case literal =>
    refine twinAt_lift_bind (agree_identifierName hid) ?_
    rintro name _ rfl
    refine twinAt_lift_bind (agree_toProcess _ _ hab) ?_
    rintro specimen _ rfl
    refine twinAt_map (hrest k) fun k₁ q q' hq => ?_
    exact hq.map (fun q => Process.select specimen [(.drop (.var name), q)])
      (fun t => Skeleton.select specimen [(.drop (.var name), t)]) fun _ _ => by
        simp [Skeleton.fill, Skeleton.fillCases]
  all_goals exact twinAt_replaced hab rfl rfl hrest k
termination_by structural init

theorem twinAt_lowerSuite {id id' call call' : Node} (hid : id.Relocated id')
    (hcall : call.Relocated call') (as bs : List Node) (h : List.Forall₂ Relocated as bs) (k : Nat) :
    TwinAt k (lowerSuite id call as) (lowerSuite id' call' bs)
      (Sketched fillSuite k (partsDispatches as) (partsDispatches bs)) := by
  have hcount := argumentCount_eq h
  obtain _ | ⟨argument, _ | ⟨_, _⟩⟩ := as
  · cases h
    refine twinAt_lift_bind (agree_identifierName hid) ?_
    intro _ _ _
    exact twinAt_unexpected hcall
  · rcases h with _ | ⟨h, _ | _⟩
    refine twinAt_lift_bind (agree_identifierName hid) ?_
    rintro target _ rfl
    simp only [partsDispatches, List.append_nil]
    refine twinAt_map (twinAt_lowerObject target argument _ h k) fun k₁ ps ps' hps => ?_
    exact hps.map (Prod.mk target) (Prod.mk target) fun _ _ => rfl
  · rcases h with _ | ⟨_, _ | ⟨_, _⟩⟩
    refine twinAt_lift_bind (agree_identifierName hid) ?_
    intro _ _ _
    simp only [hcount]
    exact twinAt_unexpected hcall
termination_by structural as

theorem twinAt_lowerObject (target : String) (a b : Node) (h : a.Relocated b) (k : Nat) :
    TwinAt k (lowerObject target a) (lowerObject target b)
      (Sketched fillAll k (partDispatches a) (partDispatches b)) := by
  have hab := h
  cases h
  case objectExpression hproperties => exact twinAt_lowerMethods target _ _ hproperties k
  all_goals exact twinAt_unexpected hab
termination_by structural a

theorem twinAt_lowerMethods (target : String) (as bs : List Node) (h : List.Forall₂ Relocated as bs)
    (k : Nat) :
    TwinAt k (lowerMethods target as) (lowerMethods target bs)
      (Sketched fillAll k (partsDispatches as) (partsDispatches bs)) := by
  cases as with
  | nil =>
    cases h
    exact twinAt_pure (sketched_fixed rfl rfl (s := []) fun _ => rfl)
  | cons a as =>
    cases h with
    | cons ha hrest =>
      rw [partsDispatches, partsDispatches]
      refine twinAt_bind (twinAt_lowerMethod target a _ ha k) fun k₁ p p' hp => ?_
      refine twinAt_map (twinAt_lowerMethods target as _ hrest k₁) fun k₂ ps ps' hps => ?_
      exact hp.map₂ List.cons List.cons (fun _ _ _ => rfl) hps
termination_by structural as

theorem twinAt_lowerMethod (target : String) (a b : Node) (h : a.Relocated b) (k : Nat) :
    TwinAt k (lowerMethod target a) (lowerMethod target b)
      (Sketched Skeleton.fill k (partDispatches a) (partDispatches b)) := by
  have hab := h
  cases h
  case property hkey hvalue =>
    rw [lowerMethod, lowerMethod, ← propertyKey?_eq hab, partDispatches, partDispatches]
    split
    · exact twinAt_lowerFunction target _ _ _ hvalue k
    · exact twinAt_unexpected hkey
  all_goals exact twinAt_unexpected hab
termination_by structural a

theorem twinAt_lowerFunction (target : String) (method : WideString) (a b : Node) (h : a.Relocated b)
    (k : Nat) :
    TwinAt k (lowerFunction target method a) (lowerFunction target method b)
      (Sketched Skeleton.fill k (partDispatches a) (partDispatches b)) := by
  have hab := h
  cases h
  case functionExpression hparams hbody =>
    rw [partDispatches, partDispatches]
    refine twinAt_lift_bind (agree_identifierNames hparams) ?_
    rintro names _ rfl
    refine twinAt_map (twinAt_lowerBody _ _ hbody k) fun k₁ p p' hp => ?_
    exact hp.map (Process.contract (.var target) (formals method names))
      (Skeleton.contract (.var target) (formals method names)) fun _ _ => by rw [Skeleton.fill]
  all_goals exact twinAt_unexpected hab
termination_by structural a

theorem twinAt_lowerBody (a b : Node) (h : a.Relocated b) (k : Nat) :
    TwinAt k (lowerBody a) (lowerBody b)
      (Sketched Skeleton.fill k (partDispatches a) (partDispatches b)) := by
  have hab := h
  cases h
  case program hbody => exact twinAt_lowerBlock _ _ hbody k
  case blockStatement hbody => exact twinAt_lowerBlock _ _ hbody k
  case functionDeclaration hbody =>
    rw [lowerBody, lowerBody, hbody.tag_eq]
    exact twinAt_throw .misfit
  case functionExpression hbody =>
    rw [lowerBody, lowerBody, hbody.tag_eq]
    exact twinAt_throw .misfit
  all_goals exact twinAt_throw (Failure.alike_noField hab _)
termination_by structural a

theorem twinAt_lowerCases (as bs : List Node) (h : List.Forall₂ Relocated as bs) (k : Nat) :
    TwinAt k (lowerCases as) (lowerCases bs)
      (Sketched Skeleton.fillCases k (partsDispatches as) (partsDispatches bs)) := by
  obtain _ | ⟨a, as⟩ := as
  · cases h
    exact twinAt_pure (sketched_fixed rfl rfl (s := []) fun _ => rfl)
  · cases h with
    | cons ha hrest =>
      rw [partsDispatches, partsDispatches]
      refine twinAt_bind (twinAt_lowerCase a _ ha k) fun k₁ c c' hc => ?_
      refine twinAt_map (twinAt_lowerCases as _ hrest k₁) fun k₂ cs cs' hcs => ?_
      exact hc.map₂ List.cons List.cons (fun _ _ _ => by rw [Skeleton.fillCases]; rfl) hcs
termination_by structural as

theorem twinAt_lowerCase (a b : Node) (h : a.Relocated b) (k : Nat) :
    TwinAt k (lowerCase a) (lowerCase b)
      (Sketched fillCase k (partDispatches a) (partDispatches b)) := by
  have hab := h
  cases h
  case switchCase htest hbody =>
    cases htest with
    | none => exact twinAt_throw (Failure.alike_located _ _ _)
    | some htest =>
      rw [partDispatches, partDispatches]
      refine twinAt_lift_bind (agree_toProcess _ _ htest) ?_
      rintro pattern _ rfl
      refine twinAt_map (twinAt_lowerBlock _ _ hbody k) fun k₁ p p' hp => ?_
      exact hp.map (Prod.mk pattern) (Prod.mk pattern) fun _ _ => rfl
  case ifStatement htest hconsequent _ =>
    refine twinAt_lift_bind (agree_toProcess _ _ htest) ?_
    intro _ _ _
    rw [hconsequent.tag_eq]
    exact twinAt_throw .misfit
  all_goals exact twinAt_throw (Failure.alike_noField hab _)
termination_by structural a

end

end Statements

/-! ### Whole trees -/

section Trees

variable {a b : Node} {as bs : List Node} {k : Nat}

theorem partDispatches_eq {n : Node} {statements : List Node} (h : bodyStatements? n = some statements) :
    partDispatches n = blockDispatches statements := by
  unfold bodyStatements? at h
  split at h <;> cases h <;> rw [partDispatches]

theorem isSome_bodyStatements?_eq (h : a.Relocated b) :
    (bodyStatements? a).isSome = (bodyStatements? b).isSome := by
  cases h <;> rfl

/-- The body of a function is a block if it is lowered. -/
theorem twinAt_exported (h : a.Relocated b) :
    TwinAt k (lowerBody a) (lowerBody b)
      (Sketched Skeleton.fill k (blockDispatches ((bodyStatements? a).getD []))
        (blockDispatches ((bodyStatements? b).getD []))) := by
  refine (twinAt_lowerBody a b h k).mono fun l p l₁ hp k₁ q hpq => ?_
  obtain ⟨statements, _, _, ha, -⟩ := body_of_yields a hp
  have hsome := isSome_bodyStatements?_eq h
  rw [ha] at hsome
  obtain ⟨statements', hb⟩ := Option.isSome_iff_exists.mp hsome.symm
  rw [partDispatches_eq ha, partDispatches_eq hb] at hpq
  rw [ha, hb]
  exact hpq

theorem twinAt_lowerItems (h : List.Forall₂ Relocated as bs) :
    TwinAt k (lowerItems as) (lowerItems bs)
      (Sketched Skeleton.fill k (blockDispatches (contents as)) (blockDispatches (contents bs))) := by
  have hblock := twinAt_lowerBlock as bs h k
  cases h with
  | nil => exact hblock
  | cons ha hrest =>
    cases ha
    case exportDefaultDeclaration hdeclaration =>
      have hfunction := hdeclaration
      cases hdeclaration
      case functionDeclaration hbody =>
        cases hrest with
        | nil => exact twinAt_exported hbody
        | cons hn _ => exact twinAt_unexpected hn
      all_goals exact twinAt_unexpected hfunction
    all_goals exact hblock

theorem isImport_eq (h : a.Relocated b) : isImport a = isImport b := by
  cases h <;> rfl

theorem relocated_takeWhile (h : List.Forall₂ Relocated as bs) :
    List.Forall₂ Relocated (as.takeWhile isImport) (bs.takeWhile isImport) := by
  induction h with
  | nil => exact .nil
  | cons h _ ih =>
    rw [List.takeWhile_cons, List.takeWhile_cons, isImport_eq h]
    split
    · exact .cons h ih
    · exact .nil

theorem relocated_dropWhile (h : List.Forall₂ Relocated as bs) :
    List.Forall₂ Relocated (as.dropWhile isImport) (bs.dropWhile isImport) := by
  induction h with
  | nil => exact .nil
  | cons h hrest ih =>
    rw [List.dropWhile_cons, List.dropWhile_cons, isImport_eq h]
    split
    · exact ih
    · exact .cons h hrest

theorem twinAt_lowerProgram {loc loc' : Loc} (h : List.Forall₂ Relocated as bs) :
    TwinAt k (lowerProgram as) (lowerProgram bs)
      (Sketched Skeleton.fill k (treeDispatches (.program loc as))
        (treeDispatches (.program loc' bs))) := by
  have himports := agree_importsBindings (relocated_takeWhile h)
  have hitems := twinAt_lowerItems (k := k) (relocated_dropWhile h)
  cases h with
  | nil => exact twinAt_pure (sketched_process rfl rfl _)
  | cons =>
    refine twinAt_lift_bind himports ?_
    rintro bindings _ rfl
    refine twinAt_map hitems fun k₁ p p' hp => ?_
    exact hp.map (Process.new (bindings ++ [consoleBinding]))
      (Skeleton.new (bindings ++ [consoleBinding])) fun _ _ => by rw [Skeleton.fill]

theorem twinAt_lower (h : a.Relocated b) :
    TwinAt k (lower a) (lower b)
      (Sketched Skeleton.fill k (treeDispatches a) (treeDispatches b)) := by
  have hab := h
  cases h
  case program h => exact twinAt_lowerProgram h
  case blockStatement h => exact twinAt_lowerBlock _ _ h k
  case expressionStatement h =>
    refine twinAt_lift (agree_toProcess _ _ h) ?_
    rintro p _ rfl
    exact sketched_process rfl rfl p
  all_goals
    refine (twinAt_replace hab _).mono ?_
    rintro _ _ _ _ _ _ ⟨rfl, rfl, rfl⟩
    exact sketched_process rfl rfl _

end Trees

/-- The process is the skeleton with each hole filled by the reply channel of that number: the channels
are numbered as they are bound in the process, from left to right. -/
def Fills (p : Process) (s : Skeleton) : Prop :=
  ∀ names : Nat → String, (∀ i x, p.replyBindings[i]? = some x → names i = x) → p = s.fill names

/-- What two runs give is the same but for locations: they fail alike, or their diagnostics are alike
and their processes fill one skeleton. -/
inductive Mirrored : Except Failure Lowered → Except Failure Lowered → Prop
  | failed {e e' : Failure} : e.Alike e' → Mirrored (.error e) (.error e')
  | lowered {c c' : Lowered} (s : Skeleton) :
      List.Forall₂ Diagnostic.Alike c.diagnostics c'.diagnostics → Fills c.process s →
      Fills c'.process s → Mirrored (.ok c) (.ok c')

theorem run_lowerTree (n : Node) (l : Ledger) :
    ExceptT.run (lowerTree n) l = match ExceptT.run (lower n) l.restart with
      | (.ok p, l₁) => (.ok ⟨p, l₁.diagnostics⟩, l₁)
      | (.error e, l₁) => (.error e, l₁) := by
  have hrestart : ExceptT.run (modify Ledger.restart : LowerM PUnit) l = (.ok ⟨⟩, l.restart) := rfl
  rw [lowerTree, run_bind, hrestart]
  dsimp only
  rw [run_bind]
  rcases ExceptT.run (lower n) l.restart with ⟨e | p, l₁⟩ <;> rfl

/-- What is drawn by a skeleton fills it. -/
theorem Drawn.fills {n : Node} {l l' : Ledger} {p : Process} {s : Skeleton} {k : Nat}
    (hp : Yields (lower n) l p l') (hl : l.counter = 0) (h : Drawn s.fill 0 (treeDispatches n) k p) :
    Fills p s := by
  obtain ⟨_, _, hlowers, -⟩ := lowers_of_yields_lower hl hp
  intro names hnames
  rw [hlowers.replyBindings_eq.1] at hnames
  -- the channels bound in the process are those of the tree, in the same order
  refine h.2 names (List.ext_getElem (by simp [length_replyChannels]) fun i hi hi' => ?_)
  rw [List.getElem_map, List.getElem_range', Nat.zero_add, Nat.one_mul]
  exact hnames i _ (List.getElem?_eq_getElem hi')

/-- **Locations only label**: trees that differ in locations only are rejected alike, or lowered to
processes that fill one skeleton and with diagnostics that are alike, whatever the ledgers. -/
theorem mirrored_of_relocated {a b : Node} (h : a.Relocated b) (l l' : Ledger) :
    Mirrored (ExceptT.run (lowerTree a) l).1 (ExceptT.run (lowerTree b) l').1 := by
  have hrun := twinAt_lower (k := 0) h l.restart l'.restart rfl rfl .nil
  rw [run_lowerTree, run_lowerTree]
  generalize ha : ExceptT.run (lower a) l.restart = r, hb : ExceptT.run (lower b) l'.restart = r'
    at hrun
  cases hrun with
  | ok _ hdiagnostics hsketched =>
    obtain ⟨s, hp, hq⟩ := hsketched
    exact .lowered s hdiagnostics (hp.fills ha rfl) (hq.fills hb rfl)
  | error h => exact .failed h

/-- A request whose parts stand in the given line. -/
def asksIn (line : Int) : Node :=
  let loc : Loc := some ⟨⟨line, 0⟩, none⟩
  .program loc [
    constant loc loc (.identifier loc "r") (some (.awaitExpression loc (.callExpression loc
      (.callExpression loc (.identifier loc "E") [.identifier loc "x"]) []))),
    .throwStatement loc (.identifier loc "r")]

theorem asksIn_mirrored : (asksIn 1).Relocated (asksIn 2) ∧
    (∃ c l, Yields (lowerTree (asksIn 1)) {} c l ∧
      c.process.replyBindings = ["AwaitExpression_1c0_0"] ∧ c.diagnostics.length = 1) ∧
    (∃ c l, Yields (lowerTree (asksIn 2)) {} c l ∧
      c.process.replyBindings = ["AwaitExpression_2c0_0"] ∧ c.diagnostics.length = 1) ∧
    Mirrored (ExceptT.run (lowerTree (asksIn 1)) {}).1 (ExceptT.run (lowerTree (asksIn 2)) {}).1 := by
  have h : (asksIn 1).Relocated (asksIn 2) := by
    repeat' constructor
  exact ⟨h, ⟨_, _, rfl, by decide +kernel, rfl⟩, ⟨_, _, rfl, by decide +kernel, rfl⟩,
    mirrored_of_relocated h {} {}⟩

end RhoScript.Lowering
