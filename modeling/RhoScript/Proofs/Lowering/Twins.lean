import RhoScript.Lowering.Program
import RhoScript.Proofs.Lowering.Run
import RhoScript.Proofs.Node.Relocated

/-!
# Lowering two trees side by side

Two trees that differ in locations only are lowered side by side. `Agree R x y` says of parts without a
ledger that they fail alike or succeed with results related by `R`. `TwinAt k m m' Φ` says so of parts
with a ledger, from ledgers that both have `k` for the number of the next reply channel, and whose
diagnostics are alike; `Φ` relates the number after the parts and the results. Failures, reports and
diagnostics are alike if they differ in positions only.

What expressions, patterns and imports become does not depend on locations, nor does the message that
a call sends.
-/

namespace RhoScript

/-- The report cites the position and then says the text. -/
def CompileError.Says (e : CompileError) (p : Position) (text : WideString) : Prop :=
  e.line = some p.line ∧ e.column = some p.column ∧
    e.message = (s!"{p.label}: " : WideString) ++ text

theorem CompileError.says_unexpected (expected : String) (p : Position) (found : String) :
    (unexpected expected p found).Says p s!"expected {expected}; found {found}" := by
  have hcolon : ": expected " = ": " ++ "expected " := rfl
  refine ⟨rfl, rfl, ?_⟩
  simp only [unexpected, toString, hcolon, WideString.ofString_append, List.append_assoc]

/-- Reports that differ in positions only. -/
structure CompileError.Alike (e e' : CompileError) : Prop where
  message : ∃ p p' text, e.Says p text ∧ e'.Says p' text
  expected : e.expected = e'.expected
  found : e.found = e'.found
  context : e.context = e'.context
  suggestion : e.suggestion = e'.suggestion

/-- Diagnostics that differ in positions only. -/
def Diagnostic.Alike (d d' : Diagnostic) : Prop := d.expected = d'.expected ∧ d.found = d'.found

namespace Lowering

open Node

/-- Failures that differ in positions only. -/
inductive Failure.Alike : Failure → Failure → Prop
  | rejected {report report' : CompileError} :
      report.Alike report' → Alike (.rejected report) (.rejected report')
  | misfit {misfit : Misfit} : Alike (.misfit misfit) (.misfit misfit)

theorem Failure.alike_unexpected {a b : Node} (h : a.Relocated b) (expected found : String)
    (suggestion : Option String) :
    Alike (.unexpected expected a found suggestion) (.unexpected expected b found suggestion) := by
  unfold unexpected
  rw [h.type_eq]
  exact .rejected ⟨⟨_, _, _, CompileError.says_unexpected .., CompileError.says_unexpected ..⟩,
    rfl, rfl, rfl, rfl⟩

theorem Failure.alike_located (message : WideString) (a b : Node) :
    Alike (.located message a) (.located message b) :=
  .rejected ⟨⟨_, _, message, ⟨rfl, rfl, rfl⟩, rfl, rfl, rfl⟩, rfl, rfl, rfl, rfl⟩

theorem Failure.alike_noField {a b : Node} (h : a.Relocated b) (field : String) :
    Alike (.noField a field) (.noField b field) := by
  unfold noField
  rw [h.tag_eq]
  exact .misfit

/-! ### Parts without a ledger -/

section Agree

variable {α β γ δ : Type} {R : α → β → Prop} {S : γ → δ → Prop} {a b : Node}

/-- The parts fail alike, or succeed with related results. -/
inductive Agree (R : α → β → Prop) : Except Failure α → Except Failure β → Prop
  | ok {x : α} {y : β} : R x y → Agree R (.ok x) (.ok y)
  | error {e e' : Failure} : e.Alike e' → Agree R (.error e) (.error e')

theorem agree_bind {x : Except Failure α} {y : Except Failure β} {f : α → Except Failure γ}
    {g : β → Except Failure δ} (h : Agree R x y) (hfg : ∀ a b, R a b → Agree S (f a) (g b)) :
    Agree S (x >>= f) (y >>= g) := by
  cases h with
  | ok h => exact hfg _ _ h
  | error h => exact .error h

theorem agree_unexpected (h : a.Relocated b) {expected found : String} {suggestion : Option String} :
    Agree R (.error (.unexpected expected a found suggestion))
      (.error (.unexpected expected b found suggestion)) :=
  .error (Failure.alike_unexpected h expected found suggestion)

/-- Parts that are put together in the same way. -/
theorem agree_map {x y : Except Failure α} {f : α → γ} (h : Agree Eq x y) :
    Agree Eq (x >>= fun a => pure (f a)) (y >>= fun a => pure (f a)) :=
  agree_bind h fun _ _ hab => .ok (congrArg f hab)

theorem agree_map₂ {x y : Except Failure α} {x' y' : Except Failure β} {f : α → β → γ}
    (h : Agree Eq x y) (h' : Agree Eq x' y') :
    Agree Eq (x >>= fun a => x' >>= fun b => pure (f a b)) (y >>= fun a => y' >>= fun b => pure (f a b)) := by
  refine agree_bind h fun a _ hab => ?_
  subst hab
  exact agree_map h'

end Agree

/-! ### Expressions -/

section Expressions

variable {a b : Node} {as bs : List Node}

theorem name?_eq (h : a.Relocated b) : name? a = name? b := by
  cases h <;> rfl

theorem propertyKey?_eq (h : a.Relocated b) : propertyKey? a = propertyKey? b := by
  cases h
  case property loc loc' key key' value value' kind method shorthand computed hkey hvalue =>
    cases computed with
    | true => rfl
    | false =>
      cases hkey
      case literal kloc kloc' content raw =>
        rcases content with _ | content
        · rfl
        · cases content <;> rfl
      all_goals rfl
  all_goals rfl

theorem argumentCount_eq (h : List.Forall₂ Relocated as bs) :
    argumentCount as = argumentCount bs := by
  rw [argumentCount, argumentCount, h.length_eq]

theorem agree_identifierName (h : a.Relocated b) :
    Agree Eq (identifierName a) (identifierName b) := by
  have hab := h
  cases h
  case identifier => exact .ok rfl
  all_goals exact agree_unexpected hab

theorem agree_identifierNames (h : List.Forall₂ Relocated as bs) :
    Agree Eq (identifierNames as) (identifierNames bs) := by
  induction h with
  | nil => exact .ok rfl
  | cons h _ ih => exact agree_map₂ (agree_identifierName h) ih

theorem agree_of_toProcesses_singleton (h : Agree Eq (toProcesses [a]) (toProcesses [b])) :
    Agree Eq (toProcess a) (toProcess b) := by
  simp only [toProcesses] at h
  cases ha : toProcess a <;> cases hb : toProcess b <;> rw [ha, hb] at h <;> cases h
  · exact .error ‹_›
  · rename_i h
    cases h
    exact .ok rfl

mutual

theorem agree_toProcess (a b : Node) (h : a.Relocated b) : Agree Eq (toProcess a) (toProcess b) := by
  have hab := h
  cases h
  case literal value raw => cases value <;> exact .ok rfl
  case identifier => exact .ok rfl
  case binaryExpression hleft hright =>
    unfold toProcess
    split
    · exact agree_unexpected hab
    · exact agree_map₂ (agree_toProcess _ _ hleft) (agree_toProcess _ _ hright)
  case logicalExpression hleft hright =>
    unfold toProcess
    split
    · exact agree_unexpected hab
    · exact agree_map₂ (agree_toProcess _ _ hleft) (agree_toProcess _ _ hright)
  case callExpression hcallee harguments =>
    have hprocesses := agree_toProcesses _ _ harguments
    unfold toProcess
    have hcount := argumentCount_eq harguments
    rw [name?_eq hcallee]
    split
    · exact agree_unexpected hcallee
    split
    · cases harguments with
      | nil => exact agree_unexpected hab
      | cons _ hrest => cases hrest with
        | nil => exact agree_map (agree_of_toProcesses_singleton hprocesses)
        | cons =>
          simp only [hcount]
          exact agree_unexpected hab
    · split
      · exact agree_map hprocesses
      · exact agree_unexpected hcallee
  case objectExpression hproperties => exact agree_map (agree_toEntries _ _ hproperties)
  all_goals exact agree_unexpected hab
termination_by structural a

theorem agree_toProcesses (as bs : List Node) (h : List.Forall₂ Relocated as bs) :
    Agree Eq (toProcesses as) (toProcesses bs) := by
  cases as with
  | nil =>
    cases h
    exact .ok rfl
  | cons a as =>
    cases h with
    | cons h hrest => exact agree_map₂ (agree_toProcess a _ h) (agree_toProcesses as _ hrest)
termination_by structural as

theorem agree_toEntry (a b : Node) (h : a.Relocated b) : Agree Eq (toEntry a) (toEntry b) := by
  have hab := h
  cases h
  case property hkey hvalue =>
    have hprocess := agree_toProcess _ _ hvalue
    have hkeys := hkey
    unfold toEntry
    split
    · exact agree_unexpected hab
    · cases hkey
      case literal kloc kloc' content raw =>
        rcases content with _ | content
        · exact agree_unexpected hkeys
        · cases content
          case string => exact agree_map hprocess
          all_goals exact agree_unexpected hkeys
      all_goals exact agree_unexpected hkeys
  all_goals exact agree_unexpected hab
termination_by structural a

theorem agree_toEntries (as bs : List Node) (h : List.Forall₂ Relocated as bs) :
    Agree Eq (toEntries as) (toEntries bs) := by
  cases as with
  | nil =>
    cases h
    exact .ok rfl
  | cons a as =>
    cases h with
    | cons h hrest => exact agree_map₂ (agree_toEntry a _ h) (agree_toEntries as _ hrest)
termination_by structural as

end

/-! ### Patterns -/

theorem tupleKeys_eq (h : List.Forall₂ Relocated as bs) (i : Nat) :
    tupleKeys i as = tupleKeys i bs := by
  induction h generalizing i with
  | nil => rfl
  | cons h _ ih => rw [tupleKeys, tupleKeys, propertyKey?_eq h, ih]

theorem relocated_propertyValues (h : List.Forall₂ Relocated as bs) :
    List.Forall₂ Relocated (propertyValues as) (propertyValues bs) := by
  induction h with
  | nil => exact .nil
  | cons h _ ih =>
    cases h
    case property hvalue => exact .cons hvalue ih
    all_goals exact ih

theorem agree_toPattern (h : a.Relocated b) : Agree Eq (toPattern a) (toPattern b) := by
  have hab := h
  cases h
  case identifier => exact .ok rfl
  case objectPattern hproperties =>
    simp only [toPattern, tupleKeys_eq hproperties]
    split
    · exact agree_map (agree_toProcesses _ _ (relocated_propertyValues hproperties))
    · exact agree_unexpected hab
  all_goals exact agree_unexpected hab

theorem agree_toPatterns (h : List.Forall₂ Relocated as bs) :
    Agree Eq (toPatterns as) (toPatterns bs) := by
  induction h with
  | nil => exact .ok rfl
  | cons h _ ih => exact agree_map₂ (agree_toPattern h) ih

theorem relocated_members? {xs ys : List (Option Node)}
    (h : List.Forall₂ (Option.Rel Relocated) xs ys) :
    Option.Rel (List.Forall₂ Relocated) (members? xs) (members? ys) := by
  induction h with
  | nil => exact .some .nil
  | @cons x y xs ys h _ ih =>
    cases h with
    | none => exact .none
    | some h =>
      simp only [members?]
      generalize members? xs = ns, members? ys = ms at ih
      cases ih with
      | none => exact .none
      | some hrest => exact .some (.cons h hrest)

theorem agree_toArrayPattern (h : a.Relocated b) :
    Agree Eq (toArrayPattern a) (toArrayPattern b) := by
  have hab := h
  cases h
  case arrayPattern loc loc' xs ys helements =>
    have hmembers := relocated_members? helements
    simp only [toArrayPattern]
    generalize members? xs = ns, members? ys = ms at hmembers
    cases hmembers with
    | none => exact agree_unexpected hab
    | some h => exact agree_toPatterns h
  all_goals exact agree_unexpected hab

/-! ### Messages -/

theorem agree_recipient (h : a.Relocated b) : Agree Eq (recipient a) (recipient b) := by
  have hab := h
  cases h
  case callExpression hcallee harguments =>
    have hcount := argumentCount_eq harguments
    simp only [recipient, name?_eq hcallee]
    split
    · cases harguments with
      | nil => exact agree_unexpected hab
      | cons h hrest => cases hrest with
        | nil => exact agree_identifierName h
        | cons =>
          simp only [hcount]
          exact agree_unexpected hab
    · exact agree_unexpected hab
  all_goals exact agree_unexpected hab

theorem agree_eventualTarget (h : a.Relocated b) :
    Agree Eq (eventualTarget a) (eventualTarget b) := by
  have hab := h
  cases h
  case callExpression => exact agree_map (agree_recipient hab)
  case memberExpression computed hobject hproperty =>
    have hproperties := hproperty
    cases hproperty
    case identifier =>
      cases computed with
      | true => exact agree_unexpected hproperties
      | false => exact agree_map (agree_recipient hobject)
    all_goals exact agree_unexpected hproperties
  all_goals exact agree_unexpected hab

/-- Messages that differ in locations only. -/
structure EventualCall.Relocated (c c' : EventualCall) : Prop where
  target : c.target = c'.target
  method : c.method = c'.method
  arguments : List.Forall₂ Node.Relocated c.arguments c'.arguments

theorem agree_eventualCall (h : a.Relocated b) :
    Agree EventualCall.Relocated (eventualCall (some a)) (eventualCall (some b)) := by
  have hab := h
  cases h
  case callExpression hcallee harguments =>
    refine agree_bind (agree_eventualTarget hcallee) ?_
    rintro ⟨target, method⟩ _ rfl
    exact .ok ⟨rfl, rfl, harguments⟩
  all_goals exact agree_unexpected hab

/-! ### Imports -/

theorem agree_literalValue (h : a.Relocated b) : Agree Eq (literalValue a) (literalValue b) := by
  have hab := h
  cases h
  case literal => exact .ok rfl
  all_goals exact agree_unexpected hab

theorem agree_binding (h : a.Relocated b) :
    Agree Eq (localName (.importDefaultSpecifier none a)) (localName (.importDefaultSpecifier none b)) := by
  have hab := h
  cases h
  case identifier => exact .ok rfl
  all_goals exact .error (Failure.alike_noField hab _)

theorem agree_localName (h : a.Relocated b) : Agree Eq (localName a) (localName b) := by
  have hab := h
  cases h
  case importDefaultSpecifier h | importSpecifier h _ | importNamespaceSpecifier h =>
    exact agree_binding h
  all_goals exact .error (Failure.alike_noField hab _)

theorem agree_localNames (h : List.Forall₂ Relocated as bs) :
    Agree Eq (localNames as) (localNames bs) := by
  induction h with
  | nil => exact .ok rfl
  | cons h _ ih => exact agree_map₂ (agree_localName h) ih

theorem agree_resourceBinding (n m : Node) (uri : WideString) (h : List.Forall₂ Relocated as bs) :
    Agree Eq (resourceBinding n uri as) (resourceBinding m uri bs) := by
  cases h with
  | nil => exact .error (Failure.alike_located _ n m)
  | cons h hrest =>
    have hlocal := agree_localName h
    cases hrest with
    | nil =>
      cases h
      case importDefaultSpecifier => exact agree_map hlocal
      all_goals exact .error (Failure.alike_located _ n m)
    | cons => cases h <;> exact .error (Failure.alike_located _ n m)

theorem agree_importBindings (h : a.Relocated b) :
    Agree Eq (importBindings a) (importBindings b) := by
  have hab := h
  cases h
  case importDeclaration hspecifiers hsource =>
    refine agree_bind (agree_literalValue hsource) ?_
    rintro value _ rfl
    split
    · split
      · exact agree_resourceBinding _ _ _ hspecifiers
      split
      · exact .error (Failure.alike_located _ _ _)
      · refine agree_bind (agree_localNames hspecifiers) ?_
        rintro names _ rfl
        dsimp only
        split
        · exact .ok rfl
        · exact .error (Failure.alike_located _ _ _)
    · exact .error (Failure.alike_located _ _ _)
  all_goals exact .error (Failure.alike_noField hab _)

theorem agree_importsBindings (h : List.Forall₂ Relocated as bs) :
    Agree Eq (importsBindings as) (importsBindings bs) := by
  induction h with
  | nil => exact .ok rfl
  | cons h _ ih => exact agree_map₂ (agree_importBindings h) ih

end Expressions

/-! ### Parts with a ledger -/

section TwinAt

variable {α β γ δ : Type} {k : Nat} {Φ : Nat → α → β → Prop} {Ψ : Nat → γ → δ → Prop}

/-- The runs fail alike, or succeed with related results, the same number for the next channel and
diagnostics that are alike. -/
inductive Outcome (Φ : Nat → α → β → Prop) :
    Except Failure α × Ledger → Except Failure β × Ledger → Prop
  | ok {x : α} {y : β} {l l' : Ledger} : l.counter = l'.counter →
      List.Forall₂ Diagnostic.Alike l.diagnostics l'.diagnostics → Φ l.counter x y →
      Outcome Φ (.ok x, l) (.ok y, l')
  | error {e e' : Failure} {l l' : Ledger} : e.Alike e' → Outcome Φ (.error e, l) (.error e', l')

/-- The parts run alike from the number `k` for the next channel. -/
def TwinAt (k : Nat) (m : LowerM α) (m' : LowerM β) (Φ : Nat → α → β → Prop) : Prop :=
  ∀ l l', l.counter = k → l'.counter = k → List.Forall₂ Diagnostic.Alike l.diagnostics l'.diagnostics →
    Outcome Φ (ExceptT.run m l) (ExceptT.run m' l')

theorem twinAt_pure {x : α} {y : β} (h : Φ k x y) : TwinAt k (pure x) (pure y) Φ := by
  rintro l l' rfl hl' hdiagnostics
  exact .ok hl'.symm hdiagnostics h

theorem twinAt_throw {e e' : Failure} (h : e.Alike e') :
    TwinAt k (throw e : LowerM α) (throw e' : LowerM β) Φ :=
  fun _ _ _ _ _ => .error h

theorem twinAt_unexpected {a b : Node} (h : a.Relocated b) {expected found : String}
    {suggestion : Option String} :
    TwinAt k (throw (.unexpected expected a found suggestion) : LowerM α)
      (throw (.unexpected expected b found suggestion) : LowerM β) Φ :=
  twinAt_throw (Failure.alike_unexpected h expected found suggestion)

theorem twinAt_throw_bind {e e' : Failure} {f : α → LowerM γ} {f' : β → LowerM δ} (h : e.Alike e') :
    TwinAt k (throw e >>= f) (throw e' >>= f') Ψ := twinAt_throw h

theorem twinAt_bind {m : LowerM α} {m' : LowerM β} {f : α → LowerM γ} {f' : β → LowerM δ}
    (hm : TwinAt k m m' Φ) (hf : ∀ k₁ x y, Φ k₁ x y → TwinAt k₁ (f x) (f' y) Ψ) :
    TwinAt k (m >>= f) (m' >>= f') Ψ := by
  intro l l' hl hl' hdiagnostics
  have h := hm l l' hl hl' hdiagnostics
  rw [run_bind, run_bind]
  generalize ExceptT.run m l = r, ExceptT.run m' l' = r' at h
  cases h with
  | ok hcounter hdiagnostics hxy => exact hf _ _ _ hxy _ _ rfl hcounter.symm hdiagnostics
  | error h => exact .error h

theorem twinAt_lift_bind {R : α → β → Prop} {x : Except Failure α} {y : Except Failure β}
    {f : α → LowerM γ} {f' : β → LowerM δ} (h : Agree R x y)
    (hf : ∀ a b, R a b → TwinAt k (f a) (f' b) Ψ) :
    TwinAt k (liftM x >>= f) (liftM y >>= f') Ψ := by
  cases h with
  | ok h => exact hf _ _ h
  | error h => exact fun _ _ _ _ _ => .error h

theorem twinAt_map {m : LowerM α} {m' : LowerM β} {f : α → γ} {f' : β → δ} (hm : TwinAt k m m' Φ)
    (hf : ∀ k₁ x y, Φ k₁ x y → Ψ k₁ (f x) (f' y)) :
    TwinAt k (m >>= fun x => pure (f x)) (m' >>= fun y => pure (f' y)) Ψ :=
  twinAt_bind hm fun k₁ x y h => twinAt_pure (hf k₁ x y h)

theorem twinAt_lift {R : α → β → Prop} {x : Except Failure α} {y : Except Failure β} (h : Agree R x y)
    (hR : ∀ a b, R a b → Φ k a b) : TwinAt k (liftM x) (liftM y) Φ := by
  cases h with
  | ok h => exact twinAt_pure (hR _ _ h)
  | error h => exact fun _ _ _ _ _ => .error h

/-- The results may be related otherwise, as far as the first part succeeds. -/
theorem TwinAt.mono {m : LowerM α} {m' : LowerM β} {Φ' : Nat → α → β → Prop} (h : TwinAt k m m' Φ)
    (hΦ : ∀ l x l₁, Yields m l x l₁ → ∀ k₁ y, Φ k₁ x y → Φ' k₁ x y) : TwinAt k m m' Φ' := by
  intro l l' hl hl' hdiagnostics
  have hrun := h l l' hl hl' hdiagnostics
  have himp := hΦ l
  unfold Yields at himp
  generalize ExceptT.run m l = r, ExceptT.run m' l' = r' at hrun himp
  cases hrun with
  | ok hcounter hdiagnostics hxy => exact .ok hcounter hdiagnostics (himp _ _ rfl _ _ hxy)
  | error h => exact .error h

end TwinAt

theorem twinAt_replace {k : Nat} {a b : Node} (h : a.Relocated b) (expected : String) :
    TwinAt k (replace expected a) (replace expected b)
      fun k₁ p q => k₁ = k ∧ p = placeholder a ∧ q = placeholder a := by
  rintro l l' rfl hl' hdiagnostics
  rw [run_replace, run_replace]
  refine .ok hl'.symm (List.rel_append hdiagnostics (.cons ⟨rfl, h.type_eq⟩ .nil)) ⟨rfl, rfl, ?_⟩
  rw [placeholder, placeholder, h.type_eq]

end Lowering

end RhoScript
