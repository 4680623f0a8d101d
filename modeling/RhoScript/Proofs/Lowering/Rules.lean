import RhoScript.Lowering.Program
import RhoScript.Proofs.Lowering.Run

/-!
# The rules of lowering

What a successful run of lowering can look like, as rules. A statement of a block either opens it,
which puts the process of the statements after it into a larger one, or ends it. All that a statement
adds to the ledger comes before what the statements after it add. The relations speak of the number
of the next reply channel before and after, and of the shapes that were noted in between.

Main statement: a run that succeeds follows the rules (`lowers_of_yields`). What is then to be shown
of every run is shown rule by rule, and the functions that lower are not opened again.
-/

namespace RhoScript.Lowering

/-! ### Awaited calls -/

/-- An awaited call. -/
structure Request where
  /-- The node that names the reply channel. -/
  label : Node
  /-- What is sent. -/
  call : Node
  /-- Where the reply goes. -/
  pattern : Option Node

/-- The patterns of an array pattern. -/
def patternElements : Node → List (Option Node)
  | .arrayPattern _ elements => elements
  | _ => []

/-- A request for each element of an array, for the pattern at the same place. -/
def elementRequests : List (Option Node) → List (Option Node) → List Request
  | [], _ => []
  | none :: calls, patterns => elementRequests calls patterns.tail
  | some call :: calls, patterns =>
    ⟨call, call, patterns.head?.join⟩ :: elementRequests calls patterns.tail

/-- The calls that a declaration awaits. Under `Promise.all` each element of the array is one and
names its channel; else the awaiting node does. -/
def requests (pattern awaiting argument : Node) : List Request :=
  if isPromiseCall argument then
    match argument with
    | .callExpression _ _ [.arrayExpression _ calls] =>
      elementRequests calls (patternElements pattern)
    | _ => []
  else [⟨awaiting, argument, some pattern⟩]

/-- The patterns of a declaration for the replies that it awaits. -/
def awaitedPatterns (pattern argument : Node) : List (Option Node) :=
  if isPromiseCall argument then patternElements pattern else [some pattern]

/-- The reply channels of requests, the first with the number `k`, the sends of their calls and the
clauses that receive the replies. -/
inductive Requested : List Request → Nat → List String → List Process → List (List Name × Name) → Prop
  | nil {k : Nat} : Requested [] k [] [] []
  | cons {r : Request} {rs : List Request} {k : Nat} {pattern : Node} {send : Process} {name : Name}
      {channels : List String} {sends : List Process} {clauses : List (List Name × Name)} :
      eventualSend (some r.call) (replyChannel r.label k) = .ok send → r.pattern = some pattern →
      toPattern pattern = .ok name → Requested rs (k + 1) channels sends clauses →
      Requested (r :: rs) k (replyChannel r.label k :: channels) (send :: sends)
        (([name], .var (replyChannel r.label k)) :: clauses)

/-- The reply channels of nodes in a row, the first with the number `k`. -/
def replyChannels : List Node → Nat → List String
  | [], _ => []
  | n :: rest, k => replyChannel n k :: replyChannels rest (k + 1)

theorem Requested.channels_eq {rs : List Request} {k : Nat} {channels : List String}
    {sends : List Process} {clauses : List (List Name × Name)}
    (h : Requested rs k channels sends clauses) :
    channels = replyChannels (rs.map Request.label) k := by
  induction h with
  | nil => rfl
  | cons _ _ _ _ ih => simp [replyChannels, ih]

/-! ### Statements -/

/-- A declaration `const id = init` of one variable. -/
abbrev constant (loc dloc : Loc) (id : Node) (init : Option Node) : Node :=
  .variableDeclaration loc [.variableDeclarator dloc id init] "const"

/-- A statement of a kind that is supported, in some shapes at least. -/
def isHandled : Node → Bool
  | .variableDeclaration .. | .expressionStatement .. | .switchStatement ..
  | .returnStatement .. => true
  | _ => false

/-- A call. -/
def isCall : Node → Bool
  | .callExpression .. => true
  | _ => false

/-- A value of a kind that may be declared, in some shapes at least. -/
def isDeclarable : Node → Bool
  | .awaitExpression .. | .objectExpression .. | .callExpression .. | .literal .. => true
  | _ => false

/-- `Soft s expected n`: the statement `s` is replaced by a placeholder, because `n` is not one of the
expected shapes. -/
inductive Soft : Node → String → Node → Prop
  | statement {s : Node} : isHandled s = false → Soft s statementShapes s
  | expression {loc : Loc} {e : Node} :
      isCall e = false → Soft (.expressionStatement loc e) expressionShapes e
  | initial {loc dloc : Loc} {id n : Node} :
      isDeclarable n = false → Soft (constant loc dloc id (some n)) initialShapes n
  | missing {loc dloc : Loc} {id : Node} :
      Soft (constant loc dloc id none) initialShapes (.variableDeclarator dloc id none)

/-- `Ends s p`: the statement `s` ends its block, and its process is `p`. -/
inductive Ends : Node → Process → Prop
  | message {loc : Loc} {e : Node} {call : EventualCall} {arguments : List Process} :
      loggedArgument? e = none → eventualCall (some e) = .ok call →
      toProcesses call.arguments = .ok arguments →
      Ends (.expressionStatement loc e) (sendTo call.target call.method arguments)
  | answer {loc : Loc} {n : Node} {value : Process} :
      toProcess n = .ok value →
      Ends (.returnStatement loc (some n)) (.send (.var returnChannel) [value])
  | done {loc : Loc} : Ends (.returnStatement loc none) (.send (.var returnChannel) [.nil])

/-- The statements of a function's body. -/
def bodyStatements? : Node → Option (List Node)
  | .program _ body | .blockStatement _ body => some body
  | _ => none

mutual

/-- `Blocks body k p k' ds`: the statements become the process `p`, with reply channels from `k` up to
`k'`, and the shapes `ds` are noted. -/
inductive Blocks : List Node → Nat → Process → Nat → List Diagnostic → Prop
  | nil {k : Nat} : Blocks [] k .nil k []
  | last {s : Node} {k : Nat} {p : Process} : Ends s p → Blocks [s] k p k []
  | cons {s : Node} {rest : List Node} {k k₁ k₂ : Nat} {p q : Process} {ds es : List Diagnostic} :
      Opens s k q p k₁ ds → Blocks rest k₁ q k₂ es → Blocks (s :: rest) k p k₂ (ds ++ es)

/-- `Opens s k q p k' ds`: in front of statements that become `q`, the statement `s` makes `p` of
them. -/
inductive Opens : Node → Nat → Process → Process → Nat → List Diagnostic → Prop
  | log {loc : Loc} {e argument : Node} {k : Nat} {q value : Process} :
      loggedArgument? e = some argument → toProcess argument = .ok value →
      Opens (.expressionStatement loc e) k q (.beside (.send (.var "console") [value]) q) k []
  | soft {s n : Node} {expected : String} {k : Nat} {q : Process} :
      Soft s expected n →
      Opens s k q (.beside (placeholder n) q) k [⟨n.position, expected, n.type⟩]
  | switch {loc : Loc} {discriminant : Node} {cases : List Node} {k k' : Nat} {q specimen : Process}
      {bodies : List (Process × Process)} {ds : List Diagnostic} :
      toProcess discriminant = .ok specimen → Cases cases k bodies k' ds →
      Opens (.switchStatement loc discriminant cases) k q (.beside (.select specimen bodies) q) k' ds
  | await {loc dloc aloc : Loc} {id argument : Node} {k : Nat} {q : Process} {channels : List String}
      {sends : List Process} {clauses : List (List Name × Name)} :
      Requested (requests id (.awaitExpression aloc argument) argument) k channels sends clauses →
      (requests id (.awaitExpression aloc argument) argument).map Request.pattern =
        awaitedPatterns id argument →
      sends ≠ [] →
      Opens (constant loc dloc id (some (.awaitExpression aloc argument))) k q
        (.new (channels.map .plain) (.beside (.besideAll sends) (.receive clauses q)))
        (k + channels.length) []
  | channel {loc dloc iloc oloc : Loc} {name : String} {k : Nat} {q : Process} :
      Opens (constant loc dloc (.identifier iloc name) (some (.objectExpression oloc []))) k q
        (.new [.plain name] q) k []
  | suite {loc dloc iloc cloc hloc oloc : Loc} {target : String} {properties : List Node}
      {k k' : Nat} {q : Process} {contracts : List Process} {ds : List Diagnostic} :
      Methods target properties k contracts k' ds →
      Opens (constant loc dloc (.identifier iloc target) (some (.callExpression cloc
          (.identifier hloc "harden") [.objectExpression oloc properties]))) k q
        (.new [.plain target] (.besideAll (contracts ++ [q]))) k' ds
  | literal {loc dloc iloc vloc : Loc} {name : String} {value : Option Ground} {raw : Option String}
      {k : Nat} {q specimen : Process} :
      toProcess (.literal vloc value raw) = .ok specimen →
      Opens (constant loc dloc (.identifier iloc name) (some (.literal vloc value raw))) k q
        (.select specimen [(.drop (.var name), q)]) k []

/-- The patterns and processes of the cases of a switch. -/
inductive Cases : List Node → Nat → List (Process × Process) → Nat → List Diagnostic → Prop
  | nil {k : Nat} : Cases [] k [] k []
  | cons {loc : Loc} {test : Node} {body rest : List Node} {k k₁ k₂ : Nat} {pattern p : Process}
      {bodies : List (Process × Process)} {ds es : List Diagnostic} :
      toProcess test = .ok pattern → Blocks body k p k₁ ds → Cases rest k₁ bodies k₂ es →
      Cases (.switchCase loc (some test) body :: rest) k ((pattern, p) :: bodies) k₂ (ds ++ es)

/-- The contracts for the methods of a target. -/
inductive Methods : String → List Node → Nat → List Process → Nat → List Diagnostic → Prop
  | nil {target : String} {k : Nat} : Methods target [] k [] k []
  | cons {target : String} {name : WideString} {loc floc : Loc} {key body : Node} {id : Option Node}
      {params statements rest : List Node} {isAsync method shorthand computed : Bool}
      {kind : String} {names : List String} {k k₁ k₂ : Nat} {p : Process}
      {contracts : List Process} {ds es : List Diagnostic} :
      propertyKey? (.property loc key (.functionExpression floc id params body isAsync) kind method
        shorthand computed) = some name →
      identifierNames params = .ok names → bodyStatements? body = some statements →
      Blocks statements k p k₁ ds → Methods target rest k₁ contracts k₂ es →
      Methods target (.property loc key (.functionExpression floc id params body isAsync) kind method
          shorthand computed :: rest) k
        (.contract (.var target) (formals name names) p :: contracts) k₂ (ds ++ es)

end

/-! ### Whole trees -/

/-- The statements of what follows the imports: if it is just a default export, those of the exported
function. -/
def contents : List Node → List Node
  | [.exportDefaultDeclaration _ (.functionDeclaration _ _ _ body _)] =>
    (bodyStatements? body).getD []
  | items => items

/-- The statements of a program. -/
def programStatements (items : List Node) : List Node := contents (items.dropWhile isImport)

/-- A tree that can be lowered as a whole. -/
def isWhole : Node → Bool
  | .program .. | .blockStatement .. | .expressionStatement .. => true
  | _ => false

/-- `Lowers n p k ds`: the tree becomes the process `p`, with `k` reply channels, and the shapes `ds`
are noted. -/
inductive Lowers : Node → Process → Nat → List Diagnostic → Prop
  | empty {loc : Loc} : Lowers (.program loc []) .nil 0 []
  | program {loc : Loc} {items : List Node} {bindings : List Binding} {p : Process} {k : Nat}
      {ds : List Diagnostic} :
      items ≠ [] → importsBindings (items.takeWhile isImport) = .ok bindings →
      Blocks (programStatements items) 0 p k ds →
      Lowers (.program loc items) (.new (bindings ++ [consoleBinding]) p) k ds
  | block {loc : Loc} {body : List Node} {p : Process} {k : Nat} {ds : List Diagnostic} :
      Blocks body 0 p k ds → Lowers (.blockStatement loc body) p k ds
  | expression {loc : Loc} {e : Node} {p : Process} :
      toProcess e = .ok p → Lowers (.expressionStatement loc e) p 0 []
  | other {n : Node} : isWhole n = false →
      Lowers n (placeholder n) 0
        [⟨n.position, "Program | BlockStatement | ExpressionStatement", n.type⟩]

/-! ### Success follows the rules -/

theorem except_bind_eq_ok {α β : Type} {x : Except Failure α} {f : α → Except Failure β} {b : β} :
    x >>= f = .ok b ↔ ∃ a, x = .ok a ∧ f a = .ok b := by
  cases x <;> simp [bind, Except.bind]

theorem except_pure_eq_ok {α : Type} {a b : α} :
    (pure a : Except Failure α) = .ok b ↔ a = b := by
  simp [pure, Except.pure]

theorem yields_freshChannels {ns : List Node} {l l' : Ledger} {channels : List String}
    (h : Yields (freshChannels ns) l channels l') :
    channels = replyChannels ns l.counter ∧ l' = l.extend (l.counter + ns.length) [] := by
  induction ns generalizing l channels with
  | nil =>
    obtain ⟨rfl, rfl⟩ := yields_pure.mp h
    simp [replyChannels]
  | cons n rest ih =>
    simp only [freshChannels, yields_bind, yields_freshChannel, yields_pure] at h
    obtain ⟨_, _, ⟨rfl, rfl⟩, _, _, hrest, rfl, rfl⟩ := h
    obtain ⟨rfl, rfl⟩ := ih hrest
    simp [replyChannels, Nat.add_assoc, Nat.add_comm 1]

/-- A list without holes is the list of its members. -/
theorem eq_map_some_of_members? {elements : List (Option Node)} {ns : List Node}
    (h : members? elements = some ns) : elements = ns.map some := by
  induction elements generalizing ns with
  | nil =>
    cases h
    rfl
  | cons e rest ih =>
    cases e with
    | none => cases h
    | some n =>
      simp only [members?, Option.map_eq_some_iff] at h
      obtain ⟨ms, hms, rfl⟩ := h
      rw [ih hms, List.map_cons]

/-- Calls and patterns that were lowered apart make requests that were lowered together. -/
theorem requested_of_parts {ns ps : List Node} {k : Nat} {sends : List Process} {names : List Name}
    (hlength : ns.length = names.length)
    (hsends : eventualSends (ns.zip (replyChannels ns k)) = .ok sends)
    (hnames : toPatterns ps = .ok names) :
    Requested (elementRequests (ns.map some) (ps.map some)) k (replyChannels ns k) sends
      ((names.zip (replyChannels ns k)).map fun (p, c) => ([p], .var c)) := by
  induction ns generalizing ps k sends names with
  | nil =>
    cases hsends
    simpa [replyChannels, elementRequests] using Requested.nil
  | cons n ns ih =>
    cases ps with
    | nil =>
      cases hnames
      cases hlength
    | cons p ps =>
      simp only [toPatterns, except_bind_eq_ok, except_pure_eq_ok] at hnames
      obtain ⟨name, hname, names, hnames, rfl⟩ := hnames
      simp only [replyChannels, List.zip_cons_cons, eventualSends, except_bind_eq_ok,
        except_pure_eq_ok] at hsends
      obtain ⟨send, hsend, sends, hsends, rfl⟩ := hsends
      exact .cons hsend rfl hname (ih (Nat.succ.inj hlength) hsends hnames)

theorem length_of_toPatterns {ps : List Node} {names : List Name} (h : toPatterns ps = .ok names) :
    names.length = ps.length := by
  induction ps generalizing names with
  | nil =>
    cases h
    rfl
  | cons p rest ih =>
    simp only [toPatterns, except_bind_eq_ok, except_pure_eq_ok] at h
    obtain ⟨_, -, names, hnames, rfl⟩ := h
    rw [List.length_cons, List.length_cons, ih hnames]

/-- Calls and patterns of the same number are paired without a rest. -/
theorem map_pattern_elementRequests {ns ps : List Node} (h : ns.length = ps.length) :
    (elementRequests (ns.map some) (ps.map some)).map Request.pattern = ps.map some := by
  induction ns generalizing ps with
  | nil =>
    obtain rfl := List.eq_nil_of_length_eq_zero h.symm
    rfl
  | cons n ns ih =>
    cases ps with
    | nil => cases h
    | cons p ps => simp [elementRequests, ih (Nat.succ.inj h)]

/-- `Promise.all` is applied to an array without holes that is not empty. -/
theorem eq_call_of_promises {n : Node} {ns : List Node} (h : promises n = .ok ns) :
    ∃ loc callee aloc, n = .callExpression loc callee [.arrayExpression aloc (ns.map some)] ∧
      ns ≠ [] := by
  unfold promises at h
  repeat' split at h
  all_goals try cases h
  rename_i hmembers
  obtain rfl := eq_map_some_of_members? hmembers
  exact ⟨_, _, _, rfl, List.cons_ne_nil _ _⟩

theorem eq_arrayPattern_of_toArrayPattern {n : Node} {names : List Name}
    (h : toArrayPattern n = .ok names) :
    ∃ loc ps, n = .arrayPattern loc (ps.map some) ∧ toPatterns ps = .ok names := by
  unfold toArrayPattern at h
  repeat' split at h
  all_goals try cases h
  rename_i hmembers
  obtain rfl := eq_map_some_of_members? hmembers
  exact ⟨_, _, rfl, h⟩

theorem yields_promiseAll {n : Node} {l l' : Ledger} {channels : List String} {sends : Process}
    (h : Yields (promiseAll n) l (channels, sends) l') :
    ∃ loc callee aloc ns processes,
      n = .callExpression loc callee [.arrayExpression aloc (ns.map some)] ∧ ns ≠ [] ∧
      channels = replyChannels ns l.counter ∧
      eventualSends (ns.zip channels) = .ok processes ∧ sends = .besideAll processes ∧
      l' = l.extend (l.counter + ns.length) [] := by
  simp only [promiseAll, yields_bind, yields_lift, yields_pure] at h
  obtain ⟨ns, _, ⟨hns, rfl⟩, _, _, hfresh, processes, _, ⟨hsends, rfl⟩, heq, rfl⟩ := h
  cases heq
  obtain ⟨hchannels, rfl⟩ := yields_freshChannels hfresh
  obtain ⟨loc, callee, aloc, rfl, hne⟩ := eq_call_of_promises hns
  exact ⟨loc, callee, aloc, ns, processes, rfl, hne, hchannels, hsends, rfl, rfl⟩

theorem length_replyChannels (ns : List Node) (k : Nat) :
    (replyChannels ns k).length = ns.length := by
  induction ns generalizing k with
  | nil => rfl
  | cons n rest ih => simp [replyChannels, ih]

theorem yields_awaitInto {pattern awaiting argument : Node} {l l' : Ledger} {a : Awaited}
    (h : Yields (awaitInto pattern awaiting (some argument)) l a l') :
    ∃ sends, Requested (requests pattern awaiting argument) l.counter a.channels sends a.clauses ∧
      (requests pattern awaiting argument).map Request.pattern = awaitedPatterns pattern argument ∧
      sends ≠ [] ∧ a.sends = .besideAll sends ∧
      l' = l.extend (l.counter + a.channels.length) [] := by
  unfold awaitInto at h
  split at h
  · rename_i hpromise
    simp only [yields_bind, yields_lift] at h
    obtain ⟨⟨channels, sends⟩, l₁, hall, names, _, ⟨hnames, rfl⟩, h⟩ := h
    split at h
    · rename_i hlength
      obtain ⟨rfl, rfl⟩ := yields_pure.mp h
      obtain ⟨loc, callee, aloc, ns, processes, rfl, hne, rfl, hsends, rfl, rfl⟩ :=
        yields_promiseAll hall
      obtain ⟨ploc, ps, rfl, hps⟩ := eq_arrayPattern_of_toArrayPattern hnames
      rw [length_replyChannels] at hlength
      simp only [Option.any_some] at hpromise
      refine ⟨processes, ?_, ?_, ?_, rfl, by rw [length_replyChannels]⟩
      · simp only [requests, hpromise, if_true]
        exact requested_of_parts hlength hsends hps
      · simp only [requests, awaitedPatterns, hpromise, if_true]
        exact map_pattern_elementRequests (hlength.trans (length_of_toPatterns hps))
      · rintro rfl
        cases ns with
        | nil => exact hne rfl
        | cons n rest =>
          simp only [replyChannels, List.zip_cons_cons, eventualSends, except_bind_eq_ok,
            except_pure_eq_ok] at hsends
          obtain ⟨_, _, _, _, hcons⟩ := hsends
          cases hcons
    · exact absurd h not_yields_throw
  · rename_i hpromise
    simp only [yields_bind, yields_lift, yields_freshChannel, yields_pure] at h
    obtain ⟨_, _, ⟨rfl, rfl⟩, send, _, ⟨hsend, rfl⟩, name, _, ⟨hname, rfl⟩, rfl, rfl⟩ := h
    simp only [Option.any_some] at hpromise
    refine ⟨[send], ?_, by simp [requests, awaitedPatterns, hpromise], List.cons_ne_nil _ _, rfl, rfl⟩
    simp only [requests, hpromise]
    exact .cons hsend rfl hname .nil

theorem eq_identifier_of_name? {n : Node} {x : String} (h : name? n = some x) :
    ∃ loc, n = .identifier loc x := by
  unfold name? at h
  split at h <;> cases h
  exact ⟨_, rfl⟩

theorem eq_identifier_of_identifierName {n : Node} {name : String}
    (h : identifierName n = .ok name) : ∃ loc, n = .identifier loc name := by
  unfold identifierName at h
  split at h <;> cases h
  exact ⟨_, rfl⟩

/-- The declaration is a `const` declaration of one variable. -/
theorem eq_const_of_declarator {loc : Loc} {declarations : List Node} {kind : String} {d : Node}
    (h : declarator (.variableDeclaration loc declarations kind) = .ok d) :
    kind = "const" ∧ ∃ dloc id init, declarations = [.variableDeclarator dloc id init] := by
  simp only [declarator] at h
  repeat' split at h
  all_goals try cases h
  rename_i hkind _ _ _ _
  exact ⟨Decidable.not_not.mp hkind, _, _, _, rfl⟩

theorem nil_of_lastOfBlock {s : Node} {after : List Node} {u : Unit}
    (h : lastOfBlock s after = .ok u) : after = [] := by
  cases after with
  | nil => rfl
  | cons n rest => cases h

/-- An expression statement logs, sends a message or is replaced. -/
theorem expression_of_yields {loc : Loc} {e : Node} {after : List Node} {rest : LowerM Process}
    {l l' : Ledger} {p : Process}
    (h : Yields (lowerStatement (.expressionStatement loc e) after rest) l p l') :
    (after = [] ∧ Ends (.expressionStatement loc e) p ∧ l' = l) ∨
      ∃ k ds q, Opens (.expressionStatement loc e) l.counter q p k ds ∧
        Yields rest (l.extend k ds) q l' := by
  simp only [lowerStatement] at h
  split at h
  · rename_i argument hlog
    simp only [yields_bind, yields_lift, yields_pure] at h
    obtain ⟨value, _, ⟨hvalue, rfl⟩, q, _, hrest, rfl, rfl⟩ := h
    exact .inr ⟨_, _, q, .log hlog hvalue, by simpa using hrest⟩
  · rename_i hlog
    cases e
    case callExpression cloc callee arguments =>
      simp only [yields_bind, yields_lift, yields_pure] at h
      obtain ⟨call, _, ⟨hcall, rfl⟩, _, _, ⟨hlast, rfl⟩, values, _, ⟨hvalues, rfl⟩, rfl, rfl⟩ := h
      exact .inl ⟨nil_of_lastOfBlock hlast, .message hlog hcall hvalues, rfl⟩
    all_goals
      simp only [yields_bind, yields_replace, yields_pure] at h
      obtain ⟨_, _, ⟨rfl, rfl⟩, q, _, hrest, rfl, rfl⟩ := h
      exact .inr ⟨_, _, q, .soft (.expression rfl), hrest⟩

/-- A return ends its block. -/
theorem return_of_yields {loc : Loc} {argument : Option Node} {after : List Node}
    {rest : LowerM Process} {l l' : Ledger} {p : Process}
    (h : Yields (lowerStatement (.returnStatement loc argument) after rest) l p l') :
    after = [] ∧ Ends (.returnStatement loc argument) p ∧ l' = l := by
  cases argument with
  | none =>
    simp only [lowerStatement, yields_bind, yields_lift, yields_pure] at h
    obtain ⟨_, _, ⟨hlast, rfl⟩, _, _, ⟨rfl, rfl⟩, rfl, rfl⟩ := h
    exact ⟨nil_of_lastOfBlock hlast, .done, rfl⟩
  | some n =>
    simp only [lowerStatement, yields_bind, yields_lift, yields_pure] at h
    obtain ⟨_, _, ⟨hlast, rfl⟩, value, _, ⟨hvalue, rfl⟩, rfl, rfl⟩ := h
    exact ⟨nil_of_lastOfBlock hlast, .answer hvalue, rfl⟩

/-- The contract of a method's function, and what the ledger is after it. -/
def ContractOf (target : String) (name : WideString) (f : Node) (l : Ledger) (contract : Process)
    (l' : Ledger) : Prop :=
  ∃ floc id params body isAsync statements names p k ds,
    f = .functionExpression floc id params body isAsync ∧ identifierNames params = .ok names ∧
    bodyStatements? body = some statements ∧ Blocks statements l.counter p k ds ∧
    contract = .contract (.var target) (formals name names) p ∧ l' = l.extend k ds

mutual

/-- The statements of a block. -/
theorem blocks_of_yields (body : List Node) {l l' : Ledger} {p : Process}
    (h : Yields (lowerBlock body) l p l') :
    ∃ k ds, Blocks body l.counter p k ds ∧ l' = l.extend k ds := by
  cases body with
  | nil =>
    simp only [lowerBlock, yields_pure] at h
    obtain ⟨rfl, rfl⟩ := h
    exact ⟨_, _, .nil, by simp⟩
  | cons s rest =>
    rw [lowerBlock] at h
    obtain ⟨rfl, hends, rfl⟩ | ⟨k₁, ds, q, hopens, hrest⟩ := statement_of_yields s h
    · exact ⟨_, _, .last hends, by simp⟩
    · obtain ⟨k₂, es, hblocks, rfl⟩ := blocks_of_yields rest hrest
      exact ⟨k₂, ds ++ es, .cons hopens hblocks, by simp⟩
termination_by structural body

/-- A statement ends its block or opens it. -/
theorem statement_of_yields (s : Node) {after : List Node} {rest : LowerM Process} {l l' : Ledger}
    {p : Process} (h : Yields (lowerStatement s after rest) l p l') :
    (after = [] ∧ Ends s p ∧ l' = l) ∨
      ∃ k ds q, Opens s l.counter q p k ds ∧ Yields rest (l.extend k ds) q l' := by
  cases s
  case variableDeclaration loc declarations kind =>
    simp only [lowerStatement, yields_bind, yields_lift] at h
    obtain ⟨d, _, ⟨hd, rfl⟩, h⟩ := h
    obtain ⟨rfl, hds⟩ := eq_const_of_declarator hd
    exact .inr (declarators_of_yields declarations loc hds h)
  case expressionStatement loc e => exact expression_of_yields h
  case switchStatement loc discriminant cases =>
    simp only [lowerStatement, yields_bind, yields_lift, yields_pure] at h
    obtain ⟨specimen, _, ⟨hspecimen, rfl⟩, bodies, _, hbodies, q, _, hrest, rfl, rfl⟩ := h
    obtain ⟨k, ds, hcases, rfl⟩ := cases_of_yields cases hbodies
    exact .inr ⟨k, ds, q, .switch hspecimen hcases, hrest⟩
  case returnStatement loc argument => exact .inl (return_of_yields h)
  all_goals
    simp only [lowerStatement, yields_bind, yields_replace, yields_pure] at h
    obtain ⟨_, _, ⟨rfl, rfl⟩, q, _, hrest, rfl, rfl⟩ := h
    exact .inr ⟨_, _, q, .soft (.statement rfl), hrest⟩
termination_by structural s

/-- A declaration opens its block. -/
theorem declarators_of_yields (declarations : List Node) (loc : Loc) {rest : LowerM Process}
    {l l' : Ledger} {p : Process}
    (hd : ∃ dloc id init, declarations = [.variableDeclarator dloc id init])
    (h : Yields (lowerDeclarators declarations rest) l p l') :
    ∃ k ds q, Opens (.variableDeclaration loc declarations "const") l.counter q p k ds ∧
      Yields rest (l.extend k ds) q l' := by
  obtain _ | ⟨d, _ | ⟨d', tail⟩⟩ := declarations
  · obtain ⟨_, _, _, hd⟩ := hd
    cases hd
  · cases d
    case variableDeclarator dloc id init =>
      rw [lowerDeclarators] at h
      exact initial_of_yields init loc h
    all_goals
      obtain ⟨_, _, _, hd⟩ := hd
      cases hd
  · obtain ⟨_, _, _, hd⟩ := hd
    cases hd
termination_by structural declarations

/-- A variable with its initial value opens its block. -/
theorem initial_of_yields (init : Option Node) (loc : Loc) {dloc : Loc} {id : Node}
    {rest : LowerM Process} {l l' : Ledger} {p : Process}
    (h : Yields (lowerInitial (.variableDeclarator dloc id init) id init rest) l p l') :
    ∃ k ds q, Opens (constant loc dloc id init) l.counter q p k ds ∧
      Yields rest (l.extend k ds) q l' := by
  obtain _ | n := init
  · simp only [lowerInitial, yields_bind, yields_replace, yields_pure] at h
    obtain ⟨_, _, ⟨rfl, rfl⟩, q, _, hrest, rfl, rfl⟩ := h
    exact ⟨_, _, q, .soft .missing, hrest⟩
  cases n
  case awaitExpression aloc argument =>
    simp only [lowerInitial, yields_bind, yields_pure] at h
    obtain ⟨a, _, ha, q, _, hrest, rfl, rfl⟩ := h
    obtain ⟨sends, hrequested, hpatterns, hne, hsends, rfl⟩ := yields_awaitInto ha
    rw [hsends]
    exact ⟨_, _, q, .await hrequested hpatterns hne, hrest⟩
  case objectExpression oloc properties =>
    rw [lowerInitial] at h
    split at h
    · obtain ⟨_, _, hthrow, -⟩ := yields_bind.mp h
      exact absurd hthrow not_yields_throw
    · rename_i hempty
      simp only [yields_bind, yields_lift, yields_pure] at h
      obtain ⟨name, _, ⟨hname, rfl⟩, q, _, hrest, rfl, rfl⟩ := h
      obtain ⟨iloc, rfl⟩ := eq_identifier_of_identifierName hname
      obtain rfl : properties = [] := by simpa using hempty
      exact ⟨_, _, q, .channel, by simpa using hrest⟩
  case callExpression cloc callee arguments =>
    simp only [lowerInitial, yields_bind, yields_lift] at h
    obtain ⟨name, _, ⟨hname, rfl⟩, h⟩ := h
    obtain ⟨hloc, rfl⟩ := eq_identifier_of_identifierName hname
    split at h
    · obtain ⟨_, _, hthrow, -⟩ := yields_bind.mp h
      exact absurd hthrow not_yields_throw
    · rename_i hharden
      obtain rfl := Decidable.not_not.mp hharden
      simp only [yields_bind, yields_pure] at h
      obtain ⟨⟨target, contracts⟩, _, hsuite, q, _, hrest, rfl, rfl⟩ := h
      obtain ⟨iloc, oloc, properties, k, ds, rfl, rfl, hmethods, rfl⟩ :=
        suite_of_yields arguments hsuite
      exact ⟨k, ds, q, .suite hmethods, hrest⟩
  case literal vloc value raw =>
    simp only [lowerInitial, yields_bind, yields_lift, yields_pure] at h
    obtain ⟨name, _, ⟨hname, rfl⟩, specimen, _, ⟨hspecimen, rfl⟩, q, _, hrest, rfl, rfl⟩ := h
    obtain ⟨iloc, rfl⟩ := eq_identifier_of_identifierName hname
    exact ⟨_, _, q, .literal hspecimen, by simpa using hrest⟩
  all_goals
    simp only [lowerInitial, yields_bind, yields_replace, yields_pure] at h
    obtain ⟨_, _, ⟨rfl, rfl⟩, q, _, hrest, rfl, rfl⟩ := h
    exact ⟨_, _, q, .soft (.initial rfl), hrest⟩
termination_by structural init

/-- The argument of `harden`. -/
theorem suite_of_yields (arguments : List Node) {id call : Node} {l l' : Ledger} {target : String}
    {contracts : List Process}
    (h : Yields (lowerSuite id call arguments) l (target, contracts) l') :
    ∃ iloc oloc properties k ds, id = .identifier iloc target ∧
      arguments = [.objectExpression oloc properties] ∧
      Methods target properties l.counter contracts k ds ∧ l' = l.extend k ds := by
  obtain _ | ⟨argument, _ | ⟨_, _⟩⟩ := arguments
  · simp only [lowerSuite, yields_bind, yields_lift] at h
    obtain ⟨_, _, -, h⟩ := h
    exact absurd h not_yields_throw
  · simp only [lowerSuite, yields_bind, yields_lift, yields_pure] at h
    obtain ⟨_, _, ⟨hid, rfl⟩, _, _, hobject, heq, rfl⟩ := h
    cases heq
    obtain ⟨iloc, rfl⟩ := eq_identifier_of_identifierName hid
    obtain ⟨oloc, properties, k, ds, rfl, hmethods, rfl⟩ := object_of_yields argument hobject
    exact ⟨iloc, oloc, properties, k, ds, rfl, rfl, hmethods, rfl⟩
  · simp only [lowerSuite, yields_bind, yields_lift] at h
    obtain ⟨_, _, -, h⟩ := h
    exact absurd h not_yields_throw
termination_by structural arguments

/-- An object of methods. -/
theorem object_of_yields (n : Node) {target : String} {l l' : Ledger} {contracts : List Process}
    (h : Yields (lowerObject target n) l contracts l') :
    ∃ oloc properties k ds, n = .objectExpression oloc properties ∧
      Methods target properties l.counter contracts k ds ∧ l' = l.extend k ds := by
  cases n
  case objectExpression oloc properties =>
    rw [lowerObject] at h
    obtain ⟨k, ds, hmethods, rfl⟩ := methods_of_yields properties h
    exact ⟨oloc, properties, k, ds, rfl, hmethods, rfl⟩
  all_goals exact absurd h not_yields_throw
termination_by structural n

/-- The methods of an object. -/
theorem methods_of_yields (properties : List Node) {target : String} {l l' : Ledger}
    {contracts : List Process} (h : Yields (lowerMethods target properties) l contracts l') :
    ∃ k ds, Methods target properties l.counter contracts k ds ∧ l' = l.extend k ds := by
  obtain _ | ⟨p, rest⟩ := properties
  · simp only [lowerMethods, yields_pure] at h
    obtain ⟨rfl, rfl⟩ := h
    exact ⟨_, _, .nil, by simp⟩
  · simp only [lowerMethods, yields_bind, yields_pure] at h
    obtain ⟨contract, _, hp, contracts, _, hrest, rfl, rfl⟩ := h
    obtain ⟨loc, key, value, kind, method, shorthand, computed, name, rfl, hkey, hvalue⟩ :=
      method_of_yields p hp
    obtain ⟨floc, id, params, body, isAsync, statements, names, q, k₁, ds, rfl, hnames, hbody,
      hblocks, rfl, rfl⟩ := hvalue
    obtain ⟨k₂, es, hmethods, rfl⟩ := methods_of_yields rest hrest
    exact ⟨k₂, ds ++ es, .cons hkey hnames hbody hblocks hmethods, by simp⟩
termination_by structural properties

/-- A method, which has a plain key and a function as its value. -/
theorem method_of_yields (p : Node) {target : String} {l l' : Ledger} {contract : Process}
    (h : Yields (lowerMethod target p) l contract l') :
    ∃ loc key value kind method shorthand computed name,
      p = .property loc key value kind method shorthand computed ∧ propertyKey? p = some name ∧
      ContractOf target name value l contract l' := by
  cases p
  case property loc key value kind method shorthand computed =>
    rw [lowerMethod] at h
    split at h
    · rename_i name hkey
      exact ⟨loc, key, value, kind, method, shorthand, computed, name, rfl, hkey,
        function_of_yields value h⟩
    · exact absurd h not_yields_throw
  all_goals exact absurd h not_yields_throw
termination_by structural p

/-- A method's function, whose parameters are names. -/
theorem function_of_yields (f : Node) {target : String} {name : WideString} {l l' : Ledger}
    {contract : Process} (h : Yields (lowerFunction target name f) l contract l') :
    ContractOf target name f l contract l' := by
  cases f
  case functionExpression floc id params body isAsync =>
    simp only [lowerFunction, yields_bind, yields_lift, yields_pure] at h
    obtain ⟨names, _, ⟨hnames, rfl⟩, q, _, hq, rfl, rfl⟩ := h
    obtain ⟨statements, k, ds, hstatements, hblocks, rfl⟩ := body_of_yields body hq
    exact ⟨floc, id, params, body, isAsync, statements, names, q, k, ds, rfl, hnames, hstatements,
      hblocks, rfl, rfl⟩
  all_goals exact absurd h not_yields_throw
termination_by structural f

/-- A function's body, which is a block. -/
theorem body_of_yields (n : Node) {l l' : Ledger} {p : Process} (h : Yields (lowerBody n) l p l') :
    ∃ statements k ds, bodyStatements? n = some statements ∧ Blocks statements l.counter p k ds ∧
      l' = l.extend k ds := by
  cases n
  case program loc body =>
    rw [lowerBody] at h
    obtain ⟨k, ds, hblocks, rfl⟩ := blocks_of_yields body h
    exact ⟨body, k, ds, rfl, hblocks, rfl⟩
  case blockStatement loc body =>
    rw [lowerBody] at h
    obtain ⟨k, ds, hblocks, rfl⟩ := blocks_of_yields body h
    exact ⟨body, k, ds, rfl, hblocks, rfl⟩
  all_goals exact absurd h not_yields_throw
termination_by structural n

/-- The cases of a switch. -/
theorem cases_of_yields (cases : List Node) {l l' : Ledger} {bodies : List (Process × Process)}
    (h : Yields (lowerCases cases) l bodies l') :
    ∃ k ds, Cases cases l.counter bodies k ds ∧ l' = l.extend k ds := by
  obtain _ | ⟨c, rest⟩ := cases
  · simp only [lowerCases, yields_pure] at h
    obtain ⟨rfl, rfl⟩ := h
    exact ⟨_, _, .nil, by simp⟩
  · simp only [lowerCases, yields_bind, yields_pure] at h
    obtain ⟨⟨pattern, p⟩, _, hc, bodies, _, hrest, rfl, rfl⟩ := h
    obtain ⟨loc, test, body, k₁, ds, rfl, hpattern, hbody, rfl⟩ := case_of_yields c hc
    obtain ⟨k₂, es, hcases, rfl⟩ := cases_of_yields rest hrest
    exact ⟨k₂, ds ++ es, .cons hpattern hbody hcases, by simp⟩
termination_by structural cases

/-- A case of a switch. -/
theorem case_of_yields (c : Node) {l l' : Ledger} {pattern p : Process}
    (h : Yields (lowerCase c) l (pattern, p) l') :
    ∃ loc test body k ds, c = .switchCase loc (some test) body ∧ toProcess test = .ok pattern ∧
      Blocks body l.counter p k ds ∧ l' = l.extend k ds := by
  cases c
  case switchCase loc test body =>
    cases test with
    | none => exact absurd h not_yields_throw
    | some test =>
      simp only [lowerCase, yields_bind, yields_lift, yields_pure] at h
      obtain ⟨_, _, ⟨hpattern, rfl⟩, _, _, hbody, heq, rfl⟩ := h
      cases heq
      obtain ⟨k, ds, hblocks, rfl⟩ := blocks_of_yields body hbody
      exact ⟨loc, test, body, k, ds, rfl, hpattern, hblocks, rfl⟩
  case ifStatement loc test consequent alternate =>
    simp only [lowerCase, yields_bind, yields_lift] at h
    obtain ⟨_, _, -, h⟩ := h
    exact absurd h not_yields_throw
  all_goals exact absurd h not_yields_throw
termination_by structural c

end

/-- What follows the imports of a program. -/
theorem items_of_yields {items : List Node} {l l' : Ledger} {p : Process}
    (h : Yields (lowerItems (items.dropWhile isImport)) l p l') :
    ∃ k ds, Blocks (programStatements items) l.counter p k ds ∧ l' = l.extend k ds := by
  unfold lowerItems at h
  unfold programStatements contents
  split at h
  · split at h
    · split at h
      · rename_i hitems
        obtain ⟨statements, k, ds, hstatements, hblocks, rfl⟩ := body_of_yields _ h
        refine ⟨k, ds, ?_, rfl⟩
        simpa only [hitems, hstatements, Option.getD_some] using hblocks
      · exact absurd h not_yields_throw
    · exact absurd h not_yields_throw
  · rename_i hexport
    obtain ⟨k, ds, hblocks, rfl⟩ := blocks_of_yields _ h
    refine ⟨k, ds, ?_, rfl⟩
    split
    · rename_i heq
      exact absurd heq (hexport _ _ _)
    · exact hblocks

theorem lowers_of_yields_lower {n : Node} {l l' : Ledger} {p : Process} (hl : l.counter = 0)
    (h : Yields (lower n) l p l') : ∃ k ds, Lowers n p k ds ∧ l' = l.extend k ds := by
  cases n
  case program loc items =>
    simp only [lower, lowerProgram] at h
    split at h
    · rename_i hempty
      obtain ⟨rfl, rfl⟩ := yields_pure.mp h
      obtain rfl := List.isEmpty_iff.mp hempty
      exact ⟨0, [], .empty, by simp [← hl]⟩
    · rename_i hempty
      simp only [yields_bind, yields_lift, yields_pure] at h
      obtain ⟨bindings, _, ⟨hbindings, rfl⟩, q, _, hitems, rfl, rfl⟩ := h
      obtain ⟨k, ds, hblocks, rfl⟩ := items_of_yields hitems
      exact ⟨k, ds, .program (fun h => hempty (List.isEmpty_iff.mpr h)) hbindings (hl ▸ hblocks),
        rfl⟩
  case blockStatement loc body =>
    rw [lower] at h
    obtain ⟨k, ds, hblocks, rfl⟩ := blocks_of_yields body h
    exact ⟨k, ds, .block (hl ▸ hblocks), rfl⟩
  case expressionStatement loc e =>
    obtain ⟨hp, rfl⟩ := yields_lift.mp h
    exact ⟨0, [], .expression hp, by simp [← hl]⟩
  all_goals
    obtain ⟨rfl, rfl⟩ := yields_replace.mp h
    exact ⟨0, _, .other rfl, by rw [hl]⟩

/-- **Success follows the rules**: a tree that is lowered becomes a process by the rules, and the
ledger is a new one, but for the warnings, that was extended by what they say. -/
theorem lowers_of_yields {n : Node} {l l' : Ledger} {c : Lowered}
    (h : Yields (lowerTree n) l c l') :
    ∃ k, Lowers n c.process k c.diagnostics ∧ l' = l.restart.extend k c.diagnostics := by
  simp only [lowerTree, yields_bind, yields_modify, yields_get, yields_pure] at h
  obtain ⟨_, _, rfl, p, _, hp, _, _, ⟨rfl, rfl⟩, rfl, rfl⟩ := h
  obtain ⟨k, ds, hlowers, rfl⟩ := lowers_of_yields_lower rfl hp
  exact ⟨k, hlowers, rfl⟩

/-! ### A program with all of this -/

/-- The message `E(x).m(y)`. -/
def ask (x m y : String) : Node :=
  .callExpression none (.memberExpression none (.callExpression none (.identifier none "E")
    [.identifier none x]) (.identifier none m) false) [.identifier none y]

/-- A method that awaits two replies, logs the first, throws, which is not supported, and returns the
second. -/
def serviceMethod : Node :=
  .property none (.identifier none "get") (.functionExpression none none [.identifier none "x"]
    (.blockStatement none [
      constant none none (.arrayPattern none [some (.identifier none "a"), some (.identifier none "b")])
        (some (.awaitExpression none (.callExpression none (.memberExpression none
          (.identifier none "Promise") (.identifier none "all") false)
          [.arrayExpression none [some (ask "x" "m" "s"), some (ask "x" "n" "x")]]))),
      .expressionStatement none (.callExpression none (.memberExpression none
        (.identifier none "console") (.identifier none "log") false) [.identifier none "a"]),
      .throwStatement none (.identifier none "a"),
      .returnStatement none (some (.identifier none "b"))]) false) "init" true false false

/-- A program that offers this method and, in a case of a switch, calls it and awaits the reply. -/
def service : Node :=
  .program none [
    constant none none (.identifier none "s") (some (.callExpression none (.identifier none "harden")
      [.objectExpression none [serviceMethod]])),
    .switchStatement none (.identifier none "s") [.switchCase none (some (.identifier none "t")) [
      constant none none (.identifier none "r") (some (.awaitExpression none (ask "s" "get" "t"))),
      .breakStatement none none]]]

end RhoScript.Lowering
