import RhoScript.Term.Basic

/-!
# Processes with holes for reply channels

A skeleton is a process in which the reply channels are left open: a hole has a number, and stands
where a channel is bound, where it goes along with a message and where the reply is received. All else
is fixed. Filling the holes with names gives a process.
-/

namespace RhoScript

/-- A process with holes for reply channels. -/
inductive Skeleton where
  /-- A process without holes. -/
  | fixed (p : Process)
  | select (specimen : Process) (cases : List (Process × Skeleton))
  /-- A message whose last argument is a reply channel. -/
  | request (destination : Name) (arguments : List Process) (reply : Nat)
  /-- Waits for replies, each into patterns. -/
  | receive (clauses : List (List Name × Nat)) (continuation : Skeleton)
  | contract (name : Name) (formals : List Name) (body : Skeleton)
  | par (left right : Skeleton)
  /-- Binds reply channels. -/
  | replies (channels : List Nat) (body : Skeleton)
  | new (bindings : List Binding) (body : Skeleton)

namespace Skeleton

mutual

/-- The process in which the holes are filled with names. -/
def fill : Skeleton → (Nat → String) → Process
  | .fixed p, _ => p
  | .select specimen cases, names => .select specimen (fillCases cases names)
  | .request destination arguments reply, names =>
    .send destination (arguments ++ [.drop (.var (names reply))])
  | .receive clauses continuation, names =>
    .receive (clauses.map fun (patterns, i) => (patterns, .var (names i))) (fill continuation names)
  | .contract name formals body, names => .contract name formals (fill body names)
  | .par left right, names => .par (fill left names) (fill right names)
  | .replies channels body, names =>
    .new (channels.map fun i => .plain (names i)) (fill body names)
  | .new bindings body, names => .new bindings (fill body names)

/-- The cases in which the holes are filled with names. -/
def fillCases : List (Process × Skeleton) → (Nat → String) → List (Process × Process)
  | [], _ => []
  | (pattern, body) :: rest, names => (pattern, fill body names) :: fillCases rest names

end

/-- Whether the skeleton is the process that has ended. -/
def isNil : Skeleton → Bool
  | .fixed .nil => true
  | _ => false

theorem fill_eq_nil_iff (s : Skeleton) (names : Nat → String) :
    s.fill names = .nil ↔ s.isNil = true := by
  cases s
  case fixed p => cases p <;> simp [fill, isNil]
  all_goals simp [fill, isNil]

/-- Two skeletons side by side, where the ended process is left out. -/
def beside (s t : Skeleton) : Skeleton :=
  if s.isNil then t else if t.isNil then s else .par s t

theorem fill_beside (s t : Skeleton) (names : Nat → String) :
    (s.beside t).fill names = (s.fill names).beside (t.fill names) := by
  unfold beside
  split
  · rename_i hs
    rw [(fill_eq_nil_iff s names).mpr hs, Process.nil_beside]
  split
  · rename_i ht
    rw [(fill_eq_nil_iff t names).mpr ht, Process.beside_nil]
  · rename_i hs ht
    rw [← fill_eq_nil_iff s names] at hs
    rw [← fill_eq_nil_iff t names] at ht
    rw [Process.beside_of_ne_nil hs ht, fill]

/-- All the skeletons side by side, grouped from the left. -/
def besideAll : List Skeleton → Skeleton
  | [] => .fixed .nil
  | s :: rest => rest.foldl beside s

theorem fill_besideAll (ss : List Skeleton) (names : Nat → String) :
    (besideAll ss).fill names = Process.besideAll (ss.map (fill · names)) := by
  cases ss with
  | nil => rfl
  | cons s rest =>
    simp only [besideAll, Process.besideAll, List.map_cons]
    induction rest generalizing s with
    | nil => rfl
    | cons t rest ih => rw [List.foldl_cons, ih, List.map_cons, List.foldl_cons, fill_beside]

end Skeleton

end RhoScript
