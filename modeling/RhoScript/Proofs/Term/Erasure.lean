import RhoScript.Proofs.Term.Subprocesses

/-!
# Processes without some strings

In a process, the strings of some kind can be taken out: the ended process takes their place, and the
processes side by side are put together anew, so that ended ones are left out. This goes through putting
processes side by side (`without_besideAll`).
-/

namespace RhoScript

variable (P : WideString → Bool)

/-- The process of a ground value, unless it is a string with `P`. -/
def Ground.without : Ground → Process
  | .string s => if P s then .nil else .ground (.string s)
  | v => .ground v

mutual

/-- The process without the strings with `P`. -/
def Process.without : Process → Process
  | .nil => .nil
  | .ground value => value.without P
  | .list items => .list (Process.withoutAll items)
  | .tuple items => .tuple (Process.withoutAll items)
  | .map entries => .map (Process.withoutEntries entries)
  | .select specimen cases => .select specimen.without (Process.withoutCases cases)
  | .send destination arguments => .send destination.without (Process.withoutAll arguments)
  | .binary operator left right => .binary operator left.without right.without
  | .unary operator operand => .unary operator operand.without
  | .receive clauses continuation => .receive (Name.withoutClauses clauses) continuation.without
  | .contract name formals body =>
    .contract name.without (Name.withoutAll formals) body.without
  | .drop name => .drop name.without
  | .par left right => .beside left.without right.without
  | .new bindings body => .new bindings body.without
  | .unspecified => .unspecified

/-- The name without the strings with `P`. -/
def Name.without : Name → Name
  | .var identifier => .var identifier
  | .quote process => .quote process.without
  | .unspecified => .unspecified

/-- Processes without the strings with `P`. -/
def Process.withoutAll : List Process → List Process
  | [] => []
  | p :: rest => p.without :: Process.withoutAll rest

/-- Entries of a map without the strings with `P`; keys are no processes. -/
def Process.withoutEntries : List (WideString × Process) → List (WideString × Process)
  | [] => []
  | (key, p) :: rest => (key, p.without) :: Process.withoutEntries rest

/-- Cases without the strings with `P`. -/
def Process.withoutCases : List (Process × Process) → List (Process × Process)
  | [] => []
  | (pattern, body) :: rest => (pattern.without, body.without) :: Process.withoutCases rest

/-- Names without the strings with `P`. -/
def Name.withoutAll : List Name → List Name
  | [] => []
  | n :: rest => n.without :: Name.withoutAll rest

/-- Clauses without the strings with `P`. -/
def Name.withoutClauses : List (List Name × Name) → List (List Name × Name)
  | [] => []
  | (patterns, channel) :: rest =>
    (Name.withoutAll patterns, channel.without) :: Name.withoutClauses rest

end

namespace Process

theorem without_beside (p q : Process) :
    (beside p q).without P = beside (p.without P) (q.without P) := by
  by_cases hp : p = .nil
  · rw [hp, nil_beside, without, nil_beside]
  by_cases hq : q = .nil
  · rw [hq, beside_nil, without, beside_nil]
  · rw [beside_of_ne_nil hp hq, without]

theorem without_foldl_beside (p : Process) (ps : List Process) :
    (ps.foldl beside p).without P = (ps.map (without P)).foldl beside (p.without P) := by
  induction ps generalizing p with
  | nil => rfl
  | cons q rest ih => rw [List.foldl_cons, ih, without_beside, List.map_cons, List.foldl_cons]

theorem without_besideAll (ps : List Process) :
    (besideAll ps).without P = besideAll (ps.map (without P)) := by
  cases ps with
  | nil => rfl
  | cons p rest => exact without_foldl_beside P p rest

end Process

end RhoScript
