import RhoScript.Term.Basic

/-!
# Free names

A process binds names in four ways: `new` binds its names over the body, a receiver the names in its
patterns over the continuation, a contract the names in its formal parameters over the body, and a
case of a selection the names in its pattern over the body of that case. What occurs outside of such
a scope is free. The names in a pattern are those that are free in it.
-/

namespace RhoScript

/-- The names that are not bound. -/
def unbound (bound names : List String) : List String := names.filter (· ∉ bound)

theorem mem_unbound {x : String} {bound names : List String} :
    x ∈ unbound bound names ↔ x ∈ names ∧ x ∉ bound := by
  simp [unbound]

@[simp] theorem unbound_nil (names : List String) : unbound [] names = names := by
  simp [unbound]

mutual

/-- The names that are free in a process. -/
def Process.free : Process → List String
  | .nil | .ground _ | .unspecified => []
  | .list items | .tuple items => Process.freeAll items
  | .map entries => Process.freeEntries entries
  | .select specimen cases => specimen.free ++ Process.freeCases cases
  | .send destination arguments => destination.free ++ Process.freeAll arguments
  | .binary _ left right | .par left right => left.free ++ right.free
  | .unary _ operand => operand.free
  | .receive clauses continuation =>
    Name.freeSources clauses ++ unbound (Name.freePatterns clauses) continuation.free
  | .contract name formals body => name.free ++ unbound (Name.freeAll formals) body.free
  | .drop name => name.free
  | .new bindings body => unbound (bindings.map Binding.name) body.free

/-- The names that are free in a name. -/
def Name.free : Name → List String
  | .var identifier => [identifier]
  | .quote process => process.free
  | .unspecified => []

/-- The names that are free in processes. -/
def Process.freeAll : List Process → List String
  | [] => []
  | p :: rest => p.free ++ Process.freeAll rest

/-- The names that are free in the entries of a map. -/
def Process.freeEntries : List (WideString × Process) → List String
  | [] => []
  | (_, p) :: rest => p.free ++ Process.freeEntries rest

/-- The names that are free in cases: those of the bodies but for what the patterns bind. -/
def Process.freeCases : List (Process × Process) → List String
  | [] => []
  | (pattern, body) :: rest => unbound pattern.free body.free ++ Process.freeCases rest

/-- The names that are free in names. -/
def Name.freeAll : List Name → List String
  | [] => []
  | n :: rest => n.free ++ Name.freeAll rest

/-- The names in the patterns of a receiver. -/
def Name.freePatterns : List (List Name × Name) → List String
  | [] => []
  | (patterns, _) :: rest => Name.freeAll patterns ++ Name.freePatterns rest

/-- The names in the channels that a receiver listens on. -/
def Name.freeSources : List (List Name × Name) → List String
  | [] => []
  | (_, channel) :: rest => channel.free ++ Name.freeSources rest

end

attribute [local simp] Process.free Name.free Process.freeAll Name.freeAll

namespace Process

theorem freeAll_eq (ps : List Process) : freeAll ps = ps.flatMap free := by
  induction ps with
  | nil => rfl
  | cons p rest ih => simp [ih]

@[simp] theorem freeAll_append (ps qs : List Process) :
    freeAll (ps ++ qs) = freeAll ps ++ freeAll qs := by
  simp [freeAll_eq]

theorem free_beside (p q : Process) : (beside p q).free = p.free ++ q.free := by
  unfold beside
  split <;> simp

theorem free_foldl_beside (p : Process) (ps : List Process) :
    (ps.foldl beside p).free = p.free ++ freeAll ps := by
  induction ps generalizing p with
  | nil => simp
  | cons q rest ih => simp [ih, free_beside]

theorem free_besideAll (ps : List Process) : (besideAll ps).free = freeAll ps := by
  cases ps with
  | nil => simp [besideAll]
  | cons p rest => simp [besideAll, free_foldl_beside]

end Process

/-- Variables are the names in them. -/
theorem Name.freeAll_map_var (xs : List String) : Name.freeAll (xs.map .var) = xs := by
  induction xs with
  | nil => rfl
  | cons x rest ih => simp [ih]

theorem Name.freeAll_append (ns ms : List Name) :
    Name.freeAll (ns ++ ms) = Name.freeAll ns ++ Name.freeAll ms := by
  induction ns with
  | nil => rfl
  | cons n rest ih => simp [ih]

end RhoScript
