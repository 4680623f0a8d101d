import RhoScript.Ground

/-!
# Terms of the calculus

Processes act concurrently and talk over channels; names denote channels. The two sorts refer to
each other: a process can be quoted into a name, and a name can be dropped back into a process.
-/

namespace RhoScript

/-- What `new` binds: a name, or a name for a system resource. -/
inductive Binding where
  | plain (name : String)
  | resource (name : String) (uri : WideString)
deriving DecidableEq, Repr, Inhabited

/-- The name that a binding introduces. -/
def Binding.name : Binding → String
  | .plain name => name
  | .resource name _ => name

mutual

/-- A concurrent behaviour. -/
inductive Process where
  /-- The process that has ended. -/
  | nil
  /-- A ground value. -/
  | ground (value : Ground)
  | list (items : List Process)
  | tuple (items : List Process)
  /-- A map; entries keep their order and may repeat a key. -/
  | map (entries : List (WideString × Process))
  /-- Cases of a pattern and a body, tried in order against a specimen. -/
  | select (specimen : Process) (cases : List (Process × Process))
  /-- Sends arguments over a channel. -/
  | send (destination : Name) (arguments : List Process)
  | binary (operator : String) (left right : Process)
  | unary (operator : String) (operand : Process)
  /-- Waits for all clauses, each of patterns and a channel, and goes on. -/
  | receive (clauses : List (List Name × Name)) (continuation : Process)
  /-- A persistent receiver. -/
  | contract (name : Name) (formals : List Name) (body : Process)
  /-- The process that a name quotes. -/
  | drop (name : Name)
  /-- Two processes side by side. -/
  | par (left right : Process)
  /-- Names that are private to the body. -/
  | new (bindings : List Binding) (body : Process)
  /-- A process left unspecified: it may stand in a term, but has no text. -/
  | unspecified

/-- A channel. -/
inductive Name where
  | var (identifier : String)
  | quote (process : Process)
  /-- A name left unspecified: it may stand in a term, but has no text. -/
  | unspecified

end

instance : Inhabited Process := ⟨.nil⟩

instance : Inhabited Name := ⟨.unspecified⟩

namespace Process

/-- Two processes side by side, where the ended process is left out. -/
def beside : Process → Process → Process
  | .nil, q => q
  | p, .nil => p
  | p, q => .par p q

@[simp] theorem nil_beside (q : Process) : beside .nil q = q := by cases q <;> rfl

@[simp] theorem beside_nil (p : Process) : beside p .nil = p := by cases p <;> rfl

theorem beside_of_ne_nil {p q : Process} (hp : p ≠ .nil) (hq : q ≠ .nil) : beside p q = .par p q := by
  unfold beside
  split
  · exact absurd rfl hp
  · exact absurd rfl hq
  · rfl

/-- All the processes side by side, grouped from the left. -/
def besideAll : List Process → Process
  | [] => .nil
  | p :: rest => rest.foldl beside p

/-- The name of a process; quoting undoes dropping. -/
def quoted : Process → Name
  | .drop name => name
  | p => .quote p

end Process

/-- The process of a name; dropping undoes quoting. An unspecified name has none. -/
def Name.dropped? : Name → Option Process
  | .var identifier => some (.drop (.var identifier))
  | .quote process => some process
  | .unspecified => none

end RhoScript
