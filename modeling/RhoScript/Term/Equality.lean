import RhoScript.Term.Basic

/-!
# Equality of terms

Two terms are the same when they are built alike from the same values, where ground values are
compared as values: `1` and `1.0` are the same. A NaN is the same as no value, not even itself; the
comparison of terms takes the equality of values as a parameter, for terms that share a NaN.
-/

namespace RhoScript

mutual

/-- The two processes are built alike from values that `eq` relates. -/
def Process.sameBy (eq : Ground → Ground → Bool) : Process → Process → Bool
  | .nil, .nil => true
  | .ground a, .ground b => eq a b
  | .list ps, .list qs => Process.sameAll eq ps qs
  | .tuple ps, .tuple qs => Process.sameAll eq ps qs
  | .map es, .map fs => Process.sameEntries eq es fs
  | .select p cs, .select q ds => p.sameBy eq q && Process.sameCases eq cs ds
  | .send n ps, .send m qs => n.sameBy eq m && Process.sameAll eq ps qs
  | .binary a p p', .binary b q q' => a = b && p.sameBy eq q && p'.sameBy eq q'
  | .unary a p, .unary b q => a = b && p.sameBy eq q
  | .receive cs p, .receive ds q => Name.sameClauses eq cs ds && p.sameBy eq q
  | .contract n ns p, .contract m ms q => n.sameBy eq m && Name.sameAll eq ns ms && p.sameBy eq q
  | .drop n, .drop m => n.sameBy eq m
  | .par p p', .par q q' => p.sameBy eq q && p'.sameBy eq q'
  | .new bs p, .new cs q => bs = cs && p.sameBy eq q
  | .unspecified, .unspecified => true
  | _, _ => false
termination_by structural p => p

/-- The two names are built alike. -/
def Name.sameBy (eq : Ground → Ground → Bool) : Name → Name → Bool
  | .var x, .var y => x = y
  | .quote p, .quote q => p.sameBy eq q
  | .unspecified, .unspecified => true
  | _, _ => false
termination_by structural n => n

/-- The processes of the two lists are built alike. -/
def Process.sameAll (eq : Ground → Ground → Bool) : List Process → List Process → Bool
  | [], [] => true
  | p :: ps, q :: qs => p.sameBy eq q && Process.sameAll eq ps qs
  | _, _ => false
termination_by structural ps => ps

/-- The two lists have the same keys, and their processes are built alike. -/
def Process.sameEntries (eq : Ground → Ground → Bool) :
    List (WideString × Process) → List (WideString × Process) → Bool
  | [], [] => true
  | (k, p) :: es, (l, q) :: fs => k = l && p.sameBy eq q && Process.sameEntries eq es fs
  | _, _ => false
termination_by structural es => es

/-- The cases of the two lists are built alike. -/
def Process.sameCases (eq : Ground → Ground → Bool) :
    List (Process × Process) → List (Process × Process) → Bool
  | [], [] => true
  | (p, p') :: cs, (q, q') :: ds => p.sameBy eq q && p'.sameBy eq q' && Process.sameCases eq cs ds
  | _, _ => false
termination_by structural cs => cs

/-- The names of the two lists are built alike. -/
def Name.sameAll (eq : Ground → Ground → Bool) : List Name → List Name → Bool
  | [], [] => true
  | n :: ns, m :: ms => n.sameBy eq m && Name.sameAll eq ns ms
  | _, _ => false
termination_by structural ns => ns

/-- The clauses of the two lists are built alike. -/
def Name.sameClauses (eq : Ground → Ground → Bool) :
    List (List Name × Name) → List (List Name × Name) → Bool
  | [], [] => true
  | (ns, n) :: cs, (ms, m) :: ds => Name.sameAll eq ns ms && n.sameBy eq m && Name.sameClauses eq cs ds
  | _, _ => false
termination_by structural cs => cs

end

/-- The two processes are the same. -/
def Process.same (p q : Process) : Bool := p.sameBy Ground.same q

/-- The two names are the same. -/
def Name.same (n m : Name) : Bool := n.sameBy Ground.same m

end RhoScript
