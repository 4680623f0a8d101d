import RhoScript.Proofs.Lowering.Evaluation
import RhoScript.Proofs.Node.Everywhere
import RhoScript.Proofs.Term.Subprocesses

/-!
# What expressions and patterns become

An expression becomes a process without effects: ground values that are literals of the expression,
the contents of names that are its identifiers, and what is built from these. Such a process is a
value (`IsValue`). The process in a pattern is one, too.
-/

namespace RhoScript.Lowering

/-- A process that may stand in the value of an expression whose nodes all have the property `P`. The
name of a method is a value as well. -/
inductive ValuePart (P : Node → Prop) : Process → Prop
  | nil : ValuePart P .nil
  | ground {loc : Loc} {value : Ground} {raw : Option String} :
      P (.literal loc (some value) raw) → ValuePart P (.ground value)
  | method {loc : Loc} {name : String} :
      P (.identifier loc name) → ValuePart P (.ground (.string name))
  | drop {loc : Loc} {name : String} :
      P (.identifier loc name) → ValuePart P (.drop (.var name))
  | binary {operator : String} {left right : Process} : ValuePart P (.binary operator left right)
  | unary {operator : String} {operand : Process} : ValuePart P (.unary operator operand)
  | tuple {items : List Process} : ValuePart P (.tuple items)
  | map {entries : List (WideString × Process)} : ValuePart P (.map entries)

/-- All that stands in the process may stand in a value. -/
def IsValue (P : Node → Prop) (p : Process) : Prop := ∀ q ∈ p.subprocesses, ValuePart P q

variable {P : Node → Prop}

theorem IsValue.part {p : Process} (h : IsValue P p) : ValuePart P p := h p p.self_mem_subprocesses

theorem isValue_nil : IsValue P .nil := by
  simp [IsValue, Process.subprocesses, ValuePart.nil]

theorem isValue_ground {value : Ground} (h : ValuePart P (.ground value)) :
    IsValue P (.ground value) := by
  simp [IsValue, Process.subprocesses, h]

theorem isValue_drop {loc : Loc} {name : String} (h : P (.identifier loc name)) :
    IsValue P (.drop (.var name)) := by
  simp [IsValue, Process.subprocesses, Name.subprocesses, ValuePart.drop h]

theorem isValue_binary {operator : String} {left right : Process} (hleft : IsValue P left)
    (hright : IsValue P right) : IsValue P (.binary operator left right) := by
  intro q hq
  simp only [Process.subprocesses, List.mem_cons, List.mem_append] at hq
  obtain rfl | hq | hq := hq
  · exact .binary
  · exact hleft q hq
  · exact hright q hq

theorem isValue_unary {operator : String} {operand : Process} (h : IsValue P operand) :
    IsValue P (.unary operator operand) := by
  intro q hq
  simp only [Process.subprocesses, List.mem_cons] at hq
  obtain rfl | hq := hq
  · exact .unary
  · exact h q hq

theorem isValue_tuple {items : List Process} (h : ∀ p ∈ items, IsValue P p) :
    IsValue P (.tuple items) := by
  intro q hq
  simp only [Process.subprocesses, List.mem_cons, Process.mem_subprocessesAll] at hq
  obtain rfl | ⟨p, hp, hq⟩ := hq
  · exact .tuple
  · exact h p hp q hq

theorem isValue_map {entries : List (WideString × Process)} (h : ∀ e ∈ entries, IsValue P e.2) :
    IsValue P (.map entries) := by
  intro q hq
  simp only [Process.subprocesses, List.mem_cons, Process.mem_subprocessesEntries] at hq
  obtain rfl | ⟨e, he, hq⟩ := hq
  · exact .map
  · exact h e he q hq

mutual

/-- An expression becomes a value. -/
theorem Evaluates.isValue {n : Node} {p : Process} (h : Evaluates n p) (hn : n.Everywhere P) :
    IsValue P p := by
  match h with
  | .null => exact isValue_nil
  | .literal => exact isValue_ground (.ground hn.here)
  | .identifier => exact isValue_drop hn.here
  | .binary _ hleft hright | .logical _ hleft hright =>
    have hl := hleft.isValue (hn.child List.mem_cons_self)
    have hr := hright.isValue (hn.child (List.mem_cons_of_mem _ List.mem_cons_self))
    exact isValue_binary hl hr
  | .bundlePlus hargument =>
    exact isValue_unary
      (hargument.isValue (hn.child (List.mem_cons_of_mem _ List.mem_cons_self)))
  | .tuple harguments =>
    exact isValue_tuple (harguments.isValue fun m hm => hn.child (List.mem_cons_of_mem _ hm))
  | .object hentries => exact isValue_map (hentries.isValue fun m hm => hn.child hm)
termination_by structural h

theorem EvaluatesAll.isValue {ns : List Node} {ps : List Process} (h : EvaluatesAll ns ps)
    (hns : ∀ n ∈ ns, n.Everywhere P) : ∀ p ∈ ps, IsValue P p := by
  match h with
  | .nil => exact nofun
  | .cons hfirst hrest =>
    obtain ⟨hn, hns⟩ := List.forall_mem_cons.mp hns
    exact List.forall_mem_cons.mpr ⟨hfirst.isValue hn, hrest.isValue hns⟩
termination_by structural h

theorem Enters.isValue {n : Node} {e : WideString × Process} (h : Enters n e) (hn : n.Everywhere P) :
    IsValue P e.2 := by
  match h with
  | .property hvalue =>
    exact hvalue.isValue (hn.child (List.mem_cons_of_mem _ List.mem_cons_self))
termination_by structural h

theorem EntersAll.isValue {ns : List Node} {es : List (WideString × Process)} (h : EntersAll ns es)
    (hns : ∀ n ∈ ns, n.Everywhere P) : ∀ e ∈ es, IsValue P e.2 := by
  match h with
  | .nil => exact nofun
  | .cons hfirst hrest =>
    obtain ⟨hn, hns⟩ := List.forall_mem_cons.mp hns
    exact List.forall_mem_cons.mpr ⟨hfirst.isValue hn, hrest.isValue hns⟩
termination_by structural h

end

theorem mem_children_of_mem_propertyValues {properties : List Node} {m : Node}
    (h : m ∈ propertyValues properties) : ∃ p ∈ properties, m ∈ p.children := by
  fun_induction propertyValues properties with
  | case1 => cases h
  | case2 loc key value kind method shorthand computed rest ih =>
    obtain rfl | h := List.mem_cons.mp h
    · exact ⟨_, List.mem_cons_self, by simp [Node.children]⟩
    · obtain ⟨p, hp, hm⟩ := ih h
      exact ⟨p, List.mem_cons_of_mem _ hp, hm⟩
  | case3 p rest _ ih =>
    obtain ⟨p, hp, hm⟩ := ih h
    exact ⟨p, List.mem_cons_of_mem _ hp, hm⟩

/-- The values of the properties of an object pattern stand in the pattern. -/
theorem everywhere_propertyValues {loc : Loc} {properties : List Node}
    (h : (Node.objectPattern loc properties).Everywhere P) :
    ∀ m ∈ propertyValues properties, m.Everywhere P := by
  intro m hm
  obtain ⟨p, hp, hmp⟩ := mem_children_of_mem_propertyValues hm
  exact (h.child hp).child hmp

/-- A pattern becomes a variable that is its identifier, or the name of a value. -/
theorem isValue_of_toPattern {n : Node} {name : Name} (hn : n.Everywhere P)
    (h : toPattern n = .ok name) :
    (∃ loc x, P (.identifier loc x) ∧ name = .var x) ∨ ∃ p, name = .quote p ∧ IsValue P p := by
  obtain ⟨loc, x, rfl, rfl⟩ | ⟨loc, properties, ps, rfl, -, hps, rfl⟩ := toPattern_cases h
  · exact .inl ⟨loc, x, hn.here, rfl⟩
  · exact .inr ⟨_, rfl, isValue_tuple (hps.isValue (everywhere_propertyValues hn))⟩

/-- Of the formal parameters of a contract only the method is more than a variable. -/
theorem collect_formals {α : Type} (f : Process → List α) (method : WideString)
    (params : List String) :
    (formals method params).flatMap (Name.collect f) = f (.ground (.string method)) := by
  have hvars : ∀ xs : List String, (xs.map Name.var).flatMap (Name.collect f) = [] := by
    intro xs
    rw [List.flatMap_map]
    simp
  unfold formals
  split
  · simp [hvars]
  · simp [hvars]

end RhoScript.Lowering
