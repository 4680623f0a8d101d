import RhoScript.Term.Basic

/-!
# The processes in a term

A process has all the processes that stand in it, itself first and the others in the order in which
the text of the term comes to them. What is to be listed of a term from left to right, its sends or
its strings, is collected along this list. To collect from processes side by side is to collect from
each of them, as long as nothing is taken from the composition itself (`collect_beside`).
-/

namespace RhoScript

mutual

/-- A process and all processes in it, in the order of the text. -/
def Process.subprocesses : Process → List Process
  | .nil => [.nil]
  | .ground value => [.ground value]
  | .list items => .list items :: Process.subprocessesAll items
  | .tuple items => .tuple items :: Process.subprocessesAll items
  | .map entries => .map entries :: Process.subprocessesEntries entries
  | .select specimen cases =>
    .select specimen cases :: (specimen.subprocesses ++ Process.subprocessesCases cases)
  | .send destination arguments =>
    .send destination arguments ::
      (destination.subprocesses ++ Process.subprocessesAll arguments)
  | .binary operator left right =>
    .binary operator left right :: (left.subprocesses ++ right.subprocesses)
  | .unary operator operand => .unary operator operand :: operand.subprocesses
  | .receive clauses continuation =>
    .receive clauses continuation ::
      (Name.subprocessesClauses clauses ++ continuation.subprocesses)
  | .contract name formals body =>
    .contract name formals body ::
      (name.subprocesses ++ (Name.subprocessesAll formals ++ body.subprocesses))
  | .drop name => .drop name :: name.subprocesses
  | .par left right => .par left right :: (left.subprocesses ++ right.subprocesses)
  | .new bindings body => .new bindings body :: body.subprocesses
  | .unspecified => [.unspecified]

/-- All processes in a name. -/
def Name.subprocesses : Name → List Process
  | .quote process => process.subprocesses
  | .var _ | .unspecified => []

/-- All processes in several. -/
def Process.subprocessesAll : List Process → List Process
  | [] => []
  | p :: rest => p.subprocesses ++ Process.subprocessesAll rest

/-- All processes in the entries of a map. -/
def Process.subprocessesEntries : List (WideString × Process) → List Process
  | [] => []
  | (_, p) :: rest => p.subprocesses ++ Process.subprocessesEntries rest

/-- All processes in cases. -/
def Process.subprocessesCases : List (Process × Process) → List Process
  | [] => []
  | (pattern, body) :: rest =>
    pattern.subprocesses ++ (body.subprocesses ++ Process.subprocessesCases rest)

/-- All processes in several names. -/
def Name.subprocessesAll : List Name → List Process
  | [] => []
  | n :: rest => n.subprocesses ++ Name.subprocessesAll rest

/-- All processes in the clauses of a receiver. -/
def Name.subprocessesClauses : List (List Name × Name) → List Process
  | [] => []
  | (patterns, channel) :: rest =>
    Name.subprocessesAll patterns ++ (channel.subprocesses ++ Name.subprocessesClauses rest)

end

attribute [local simp] Process.subprocesses Name.subprocesses Process.subprocessesAll
  Process.subprocessesEntries Process.subprocessesCases Name.subprocessesAll
  Name.subprocessesClauses

theorem Process.self_mem_subprocesses (p : Process) : p ∈ p.subprocesses := by
  cases p <;> simp

theorem Process.mem_subprocessesAll {q : Process} {ps : List Process} :
    q ∈ Process.subprocessesAll ps ↔ ∃ p ∈ ps, q ∈ p.subprocesses := by
  induction ps with
  | nil => simp
  | cons p rest ih => simp [ih]

theorem Process.mem_subprocessesEntries {q : Process} {es : List (WideString × Process)} :
    q ∈ Process.subprocessesEntries es ↔ ∃ e ∈ es, q ∈ e.2.subprocesses := by
  induction es with
  | nil => simp
  | cons e rest ih => simp [ih]

theorem Process.beside_ne_nil {p : Process} (hp : p ≠ .nil) (q : Process) :
    Process.beside p q ≠ .nil := by
  by_cases hq : q = .nil
  · rw [hq, Process.beside_nil]
    exact hp
  · rw [Process.beside_of_ne_nil hp hq]
    simp

/-! ### Collecting -/

section Collect

variable {α : Type} (f : Process → List α)

/-- What `f` finds in a process, from left to right. -/
def Process.collect (p : Process) : List α := p.subprocesses.flatMap f

/-- What `f` finds in a name, from left to right. -/
def Name.collect (n : Name) : List α := n.subprocesses.flatMap f

@[simp] theorem Name.collect_var (x : String) : Name.collect f (.var x) = [] := rfl

@[simp] theorem Name.collect_quote (p : Process) : Name.collect f (.quote p) = p.collect f := rfl

theorem Name.flatMap_subprocessesAll (ns : List Name) :
    (Name.subprocessesAll ns).flatMap f = ns.flatMap (Name.collect f) := by
  induction ns with
  | nil => rfl
  | cons n rest ih => simp [Name.collect, ih]

theorem Name.flatMap_subprocessesClauses (cs : List (List Name × Name)) :
    (Name.subprocessesClauses cs).flatMap f =
      cs.flatMap fun c => c.1.flatMap (Name.collect f) ++ c.2.collect f := by
  induction cs with
  | nil => rfl
  | cons c rest ih =>
    simp [Name.flatMap_subprocessesAll, Name.collect, ih]

namespace Process

theorem flatMap_subprocessesAll (ps : List Process) :
    (subprocessesAll ps).flatMap f = ps.flatMap (collect f) := by
  induction ps with
  | nil => rfl
  | cons p rest ih => simp [collect, ih]

theorem flatMap_subprocessesCases (cs : List (Process × Process)) :
    (subprocessesCases cs).flatMap f = cs.flatMap fun c => c.1.collect f ++ c.2.collect f := by
  induction cs with
  | nil => rfl
  | cons c rest ih => simp [collect, ih]

@[simp] theorem collect_nil : collect f .nil = f .nil := by
  simp [collect]

@[simp] theorem collect_ground (v : Ground) : collect f (.ground v) = f (.ground v) := by
  simp [collect]

@[simp] theorem collect_select (p : Process) (cs : List (Process × Process)) :
    collect f (.select p cs) =
      f (.select p cs) ++ (p.collect f ++ cs.flatMap fun c => c.1.collect f ++ c.2.collect f) := by
  simp [collect, flatMap_subprocessesCases]

@[simp] theorem collect_send (n : Name) (ps : List Process) :
    collect f (.send n ps) = f (.send n ps) ++ (n.collect f ++ ps.flatMap (collect f)) := by
  simp [collect, Name.collect, flatMap_subprocessesAll]

@[simp] theorem collect_receive (cs : List (List Name × Name)) (p : Process) :
    collect f (.receive cs p) = f (.receive cs p) ++
      ((cs.flatMap fun c => c.1.flatMap (Name.collect f) ++ c.2.collect f) ++ p.collect f) := by
  simp [collect, Name.flatMap_subprocessesClauses]

@[simp] theorem collect_contract (n : Name) (ns : List Name) (p : Process) :
    collect f (.contract n ns p) =
      f (.contract n ns p) ++ (n.collect f ++ (ns.flatMap (Name.collect f) ++ p.collect f)) := by
  simp [collect, Name.collect, Name.flatMap_subprocessesAll]

@[simp] theorem collect_drop (n : Name) : collect f (.drop n) = f (.drop n) ++ n.collect f := by
  simp [collect, Name.collect]

@[simp] theorem collect_par (p q : Process) :
    collect f (.par p q) = f (.par p q) ++ (p.collect f ++ q.collect f) := by
  simp [collect]

@[simp] theorem collect_new (bs : List Binding) (p : Process) :
    collect f (.new bs p) = f (.new bs p) ++ p.collect f := by
  simp [collect]

theorem collect_eq_nil {p : Process} (h : ∀ q ∈ p.subprocesses, f q = []) : p.collect f = [] :=
  List.flatMap_eq_nil_iff.mpr h

end Process

/-! ### Processes side by side -/

/-- `f` takes nothing from the ended process and from a composition of two. -/
structure SeesThrough : Prop where
  nil : f .nil = []
  par (p q : Process) : f (.par p q) = []

namespace Process

variable {f}

theorem collect_beside (hf : SeesThrough f) (p q : Process) :
    (beside p q).collect f = p.collect f ++ q.collect f := by
  by_cases hp : p = .nil
  · subst hp
    simp [hf.nil]
  by_cases hq : q = .nil
  · subst hq
    simp [hf.nil]
  · rw [beside_of_ne_nil hp hq, collect_par, hf.par, List.nil_append]

theorem collect_foldl_beside (hf : SeesThrough f) (p : Process) (ps : List Process) :
    (ps.foldl beside p).collect f = p.collect f ++ ps.flatMap (collect f) := by
  induction ps generalizing p with
  | nil => simp
  | cons q rest ih => simp [ih, collect_beside hf]

theorem collect_besideAll (hf : SeesThrough f) (ps : List Process) :
    (besideAll ps).collect f = ps.flatMap (collect f) := by
  cases ps with
  | nil => simp [besideAll, hf.nil]
  | cons p rest => simp [besideAll, collect_foldl_beside hf]

end Process

end Collect

end RhoScript
