import RhoScript.Proofs.Lowering.Channels
import RhoScript.Proofs.Term.FreeNames

/-!
# No name escapes its scope

A source binds names as well: a `const` declaration over the later statements of its block, and the
target of `harden` also over its methods, the parameters of a method over its body, and imports of
system resources, with the console, over the whole program. The words that calls of the language's
own functions start with, the keys of properties and statements that are replaced by placeholders use
nothing. The parameters of a function that is exported are not bound.

Main statement: what is free in the process of a tree is free in the tree or is the return channel, and
that only if there is a `return` outside of all methods (`free_process_subset`). Here a declaration
that is replaced by a placeholder binds nothing: the names that it declares escape
(`replaced_declaration_escapes`).
-/

namespace RhoScript

namespace Lowering

/-! ### Names of the source -/

/-- The words that calls of the language's own functions start with. -/
def calleeWords : List String := ["E", "harden", "Promise", "bundlePlus", "tuple"]

/-- A call of `harden`. -/
def isHarden : Node → Bool
  | .callExpression _ callee _ => name? callee == some "harden"
  | _ => false

mutual

/-- The names that are free in a part of a source, if `declares` says what a statement binds over the
statements after it. The part may stand in the place of a function that is applied. -/
def freeIn (declares : Node → List String) (applied : Bool) (n : Node) : List String :=
  match n with
  | .identifier _ name => if applied ∧ name ∈ calleeWords then [] else [name]
  | .memberExpression _ object member computed =>
    freeIn declares applied object ++ if computed then freeIn declares false member else []
  | .callExpression _ callee arguments =>
    freeIn declares true callee ++ freeInAll declares arguments
  | .binaryExpression _ _ left right | .logicalExpression _ _ left right =>
    freeIn declares false left ++ freeIn declares false right
  | .unaryExpression _ _ argument _ | .awaitExpression _ argument => freeIn declares false argument
  | .objectExpression _ properties | .objectPattern _ properties => freeInAll declares properties
  | .property _ key value _ _ _ computed =>
    (if computed then freeIn declares false key else []) ++ freeIn declares false value
  | .arrayExpression _ elements | .arrayPattern _ elements => freeInElements declares elements
  | .functionExpression _ _ params body _ =>
    unbound (freeInAll declares params) (freeIn declares false body)
  | .program _ body | .blockStatement _ body => freeInBlock declares body
  | .expressionStatement _ e => if isCall e then freeIn declares false e else []
  | .returnStatement _ argument => freeInOption declares argument
  | .switchStatement _ discriminant cases =>
    freeIn declares false discriminant ++ freeInAll declares cases
  | .switchCase _ test body => freeInOption declares test ++ freeInBlock declares body
  | .variableDeclaration _ declarations _ => freeInAll declares declarations
  | .variableDeclarator _ id init =>
    if init.any isDeclarable then
      unbound (if init.any isHarden then freeIn declares false id else [])
        (freeInOption declares init)
    else []
  | _ => []
termination_by structural n

/-- The names that are free in parts of a source. -/
def freeInAll (declares : Node → List String) (ns : List Node) : List String :=
  match ns with
  | [] => []
  | n :: rest => freeIn declares false n ++ freeInAll declares rest
termination_by structural ns

/-- The names that are free in a part of a source, if it is there. -/
def freeInOption (declares : Node → List String) (n : Option Node) : List String :=
  match n with
  | none => []
  | some n => freeIn declares false n
termination_by structural n

/-- The names that are free in the elements of an array. -/
def freeInElements (declares : Node → List String) (es : List (Option Node)) : List String :=
  match es with
  | [] => []
  | e :: rest => freeInOption declares e ++ freeInElements declares rest
termination_by structural es

/-- The names that are free in a block: what a statement declares is bound in those after it. -/
def freeInBlock (declares : Node → List String) (body : List Node) : List String :=
  match body with
  | [] => []
  | s :: rest => freeIn declares false s ++ unbound (declares s) (freeInBlock declares rest)
termination_by structural body

end

/-- The names that a declarator declares. -/
def declaratorNames : Node → List String
  | .variableDeclarator _ id _ => freeIn (fun _ => []) false id
  | _ => []

/-- The names that a statement declares, if it is a `const` declaration. -/
def declaredNames : Node → List String
  | .variableDeclaration _ declarations "const" => declarations.flatMap declaratorNames
  | _ => []

/-- A declarator that is replaced by a placeholder. -/
def isReplaced : Node → Bool
  | .variableDeclarator _ _ init => !init.any isDeclarable
  | _ => false

/-- The names that a statement binds: those that it declares, unless it is replaced. -/
def boundNames : Node → List String
  | .variableDeclaration loc declarations kind =>
    if declarations.any isReplaced then []
    else declaredNames (.variableDeclaration loc declarations kind)
  | _ => []

/-- The local name of an import specifier. -/
def localName? : Node → Option String
  | .importDefaultSpecifier _ binding | .importSpecifier _ binding _
  | .importNamespaceSpecifier _ binding => name? binding
  | _ => none

/-- The names that an import of a system resource binds. -/
def resourceNames : Node → List String
  | .importDeclaration _ specifiers (.literal _ (some (.string uri)) _) =>
    if isResource uri then specifiers.filterMap localName? else []
  | _ => []

/-- The names that are free in a whole tree. -/
def freeInTree (declares : Node → List String) : Node → List String
  | .program _ items =>
    unbound ("console" :: (items.takeWhile isImport).flatMap resourceNames)
      (freeInBlock declares (programStatements items))
  | .blockStatement _ body => freeInBlock declares body
  | .expressionStatement _ e => freeIn declares false e
  | _ => []

mutual

/-- Whether a part of a source has a `return` outside of all methods. -/
def returns (n : Node) : Bool :=
  match n with
  | .returnStatement _ _ => true
  | .switchStatement _ _ cases => returnsAny cases
  | .switchCase _ _ body => returnsAny body
  | _ => false
termination_by structural n

/-- Whether one of the parts has a `return` outside of all methods. -/
def returnsAny (ns : List Node) : Bool :=
  match ns with
  | [] => false
  | n :: rest => returns n || returnsAny rest
termination_by structural ns

end

/-- Whether a tree has a `return` outside of all methods. -/
def treeReturns : Node → Bool
  | .program _ items => returnsAny (programStatements items)
  | .blockStatement _ body => returnsAny body
  | _ => false

attribute [local simp] freeIn freeInAll freeInOption freeInElements freeInBlock returns returnsAny
  Process.free Name.free Process.freeAll Name.freeAll Process.freeEntries Process.freeCases
  Name.freePatterns Name.freeSources

variable (declares : Node → List String)

/-! ### Expressions and patterns -/

mutual

/-- An expression becomes a process with its names. -/
theorem Evaluates.free_eq {n : Node} {p : Process} (h : Evaluates n p) :
    p.free = freeIn declares false n := by
  match h with
  | .null | .literal | .identifier => simp
  | .binary _ hleft hright | .logical _ hleft hright =>
    simp [hleft.free_eq, hright.free_eq]
  | .bundlePlus hargument => simp [hargument.free_eq, calleeWords]
  | .tuple harguments => simp [harguments.free_eq, calleeWords]
  | .object hentries => simp [hentries.free_eq]
termination_by structural h

theorem EvaluatesAll.free_eq {ns : List Node} {ps : List Process} (h : EvaluatesAll ns ps) :
    Process.freeAll ps = freeInAll declares ns := by
  match h with
  | .nil => simp
  | .cons hfirst hrest => simp [hfirst.free_eq, hrest.free_eq]
termination_by structural h

theorem Enters.free_eq {n : Node} {e : WideString × Process} (h : Enters n e) :
    e.2.free = freeIn declares false n := by
  match h with
  | .property hvalue => simp [hvalue.free_eq]
termination_by structural h

theorem EntersAll.free_eq {ns : List Node} {es : List (WideString × Process)} (h : EntersAll ns es) :
    Process.freeEntries es = freeInAll declares ns := by
  match h with
  | .nil => simp
  | .cons hfirst hrest => simp [hfirst.free_eq, hrest.free_eq]
termination_by structural h

end

theorem freeInAll_propertyValues {i : Nat} {properties : List Node}
    (h : tupleKeys i properties = true) :
    freeInAll declares (propertyValues properties) = freeInAll declares properties := by
  induction properties generalizing i with
  | nil => rfl
  | cons p rest ih =>
    simp only [tupleKeys, Bool.and_eq_true, beq_iff_eq] at h
    obtain ⟨hkey, hrest⟩ := h
    unfold propertyKey? at hkey
    split at hkey
    · simp [propertyValues, ih hrest]
    · cases hkey

/-- A pattern becomes a name with the names that the pattern declares. -/
theorem free_of_toPattern {n : Node} {name : Name} (h : toPattern n = .ok name) :
    name.free = freeIn declares false n := by
  obtain ⟨loc, x, rfl, rfl⟩ | ⟨loc, properties, ps, rfl, hkeys, hps, rfl⟩ := toPattern_cases h
  · simp
  · simp [hps.free_eq declares, freeInAll_propertyValues declares hkeys]

/-! ### Messages -/

/-- A message uses its recipient and its arguments. -/
theorem freeIn_of_eventualCall {n : Node} {call : EventualCall}
    (h : eventualCall (some n) = .ok call) :
    freeIn declares false n = call.target :: freeInAll declares call.arguments := by
  have hmessage := message?_of_eventualCall h
  unfold message? at hmessage
  split at hmessage <;> cases hmessage <;> simp [calleeWords]

theorem isCall_of_loggedArgument? {n argument : Node} (h : loggedArgument? n = some argument) :
    isCall n = true := by
  cases n
  case callExpression => rfl
  all_goals cases h

theorem freeIn_of_loggedArgument? {n argument : Node} (h : loggedArgument? n = some argument) :
    freeIn declares false n = "console" :: freeIn declares false argument := by
  unfold loggedArgument? at h
  split at h
  · rename_i object member _
    split at h <;> cases h
    rename_i hnames
    cases object <;> simp only [name?, reduceCtorEq, Option.some.injEq, false_and] at hnames
    simp [hnames.1, calleeWords]
  · cases h

theorem free_sendTo (target : String) (method : Option String) (arguments : List Process) :
    (sendTo target method arguments).free = target :: Process.freeAll arguments := by
  cases method <;> simp [sendTo]

theorem free_of_eventualSend {n : Node} {channel : String} {p : Process}
    (h : eventualSend (some n) channel = .ok p) : p.free = freeIn declares false n ++ [channel] := by
  simp only [eventualSend, except_bind_eq_ok, except_pure_eq_ok] at h
  obtain ⟨call, hcall, arguments, harguments, rfl⟩ := h
  rw [free_sendTo, Process.freeAll_append, (evaluatesAll_of_toProcesses _ harguments).free_eq declares,
    freeIn_of_eventualCall declares hcall]
  simp

/-- The sends of requests use the names of the calls and the reply channels, the receiver listens on
the reply channels and binds the names of the patterns. -/
theorem Requested.free_eq {rs : List Request} {k : Nat} {channels : List String}
    {sends : List Process} {clauses : List (List Name × Name)}
    (h : Requested rs k channels sends clauses) :
    (∀ x ∈ Process.freeAll sends,
      x ∈ channels ∨ x ∈ freeInAll declares (rs.map Request.call)) ∧
    Name.freeSources clauses = channels ∧
    Name.freePatterns clauses = freeInElements declares (rs.map Request.pattern) := by
  induction h with
  | nil => simp
  | @cons r rs k pattern send name channels sends clauses hsend hpattern hname _ ih =>
    obtain ⟨hsends, hsources, hpatterns⟩ := ih
    refine ⟨?_, by simp [hsources], ?_⟩
    · intro x hx
      rw [Process.freeAll, free_of_eventualSend declares hsend] at hx
      simp only [List.append_assoc, List.mem_append, List.mem_singleton] at hx
      obtain hx | rfl | hx := hx
      · exact .inr (by simp [hx])
      · exact .inl List.mem_cons_self
      · obtain hx | hx := hsends x hx
        · exact .inl (List.mem_cons_of_mem _ hx)
        · exact .inr (by simp [hx])
    · simp [hpattern, hpatterns, free_of_toPattern declares hname]

/-- The patterns of an awaiting declaration have the names that it declares. -/
theorem freeInElements_awaitedPatterns {id aloc argument} {k : Nat} {channels : List String}
    {sends : List Process} {clauses : List (List Name × Name)}
    (h : Requested (requests id (.awaitExpression aloc argument) argument) k channels sends clauses)
    (hpatterns : (requests id (.awaitExpression aloc argument) argument).map Request.pattern =
      awaitedPatterns id argument) (hne : sends ≠ []) :
    freeInElements declares (awaitedPatterns id argument) = freeIn declares false id := by
  unfold awaitedPatterns at hpatterns ⊢
  split
  · rename_i hpromise
    cases id
    case arrayPattern loc elements => simp [patternElements]
    all_goals
      -- Without an array pattern there is no request, and so no send.
      simp only [hpromise, if_true, patternElements, List.map_eq_nil_iff] at hpatterns
      rw [hpatterns] at h
      cases h
      exact absurd rfl hne
  · simp

/-- The calls that a declaration awaits have the names of what it awaits. -/
theorem mem_freeIn_of_mem_requests {id awaiting argument : Node} {x : String}
    (h : x ∈ freeInAll declares ((requests id awaiting argument).map Request.call)) :
    x ∈ freeIn declares false argument := by
  have helements : ∀ calls patterns : List (Option Node),
      freeInAll declares ((elementRequests calls patterns).map Request.call) =
        freeInElements declares calls := by
    intro calls patterns
    fun_induction elementRequests calls patterns with
    | case1 => rfl
    | case2 calls patterns ih => simpa using ih
    | case3 call calls patterns ih => simp [ih]
  unfold requests at h
  split at h
  · split at h
    · rw [helements] at h
      simp [h]
    · simp at h
  · simpa using h

/-! ### Statements -/

/-- The names `free` are among `names`, but for the return channel if there is a `return`. -/
def Accounted (names : List String) (returning : Bool) (free : List String) : Prop :=
  ∀ x ∈ free, x ∈ names ∨ x = returnChannel ∧ returning = true

theorem Accounted.append {names names' free free' : List String} {b b' : Bool}
    (h : Accounted names b free) (h' : Accounted names' b' free') :
    Accounted (names ++ names') (b || b') (free ++ free') := by
  intro x hx
  rw [List.mem_append] at hx ⊢
  obtain hx | hx := hx
  · obtain hx | ⟨rfl, rfl⟩ := h x hx
    · exact .inl (.inl hx)
    · exact .inr ⟨rfl, rfl⟩
  · obtain hx | ⟨rfl, rfl⟩ := h' x hx
    · exact .inl (.inr hx)
    · exact .inr ⟨rfl, Bool.or_true b⟩

theorem Accounted.of_eq {names free : List String} (h : free = names) (b : Bool) :
    Accounted names b free :=
  fun _ hx => .inl (h ▸ hx)

/-- What is bound on both sides need not be accounted for. -/
theorem Accounted.unbound {names free bound bound' : List String} {b : Bool}
    (h : Accounted names b free) (hbound : ∀ x ∈ bound', x ∈ bound) :
    Accounted (unbound bound' names) b (RhoScript.unbound bound free) := by
  intro x hx
  obtain ⟨hx, hfree⟩ := mem_unbound.mp hx
  obtain hx | hx := h x hx
  · exact .inl (mem_unbound.mpr ⟨hx, fun hmem => hfree (hbound x hmem)⟩)
  · exact .inr hx

theorem Soft.boundNames_eq {s n : Node} {expected : String} (h : Soft s expected n) :
    boundNames s = [] := by
  cases h with
  | statement hs =>
    cases s
    case variableDeclaration | expressionStatement | switchStatement | returnStatement => cases hs
    all_goals rfl
  | expression => rfl
  | initial hn => simp [boundNames, isReplaced, hn]
  | missing => rfl

/-- A statement that ends its block. -/
theorem Ends.accounted {s : Node} {p : Process} (h : Ends s p) :
    Accounted (freeIn declares false s) (returns s) p.free := by
  cases h with
  | message _ hcall harguments =>
    refine .of_eq ?_ _
    rw [free_sendTo, (evaluatesAll_of_toProcesses _ harguments).free_eq declares, freeIn,
      if_pos (isCall_of_eventualCall hcall), freeIn_of_eventualCall declares hcall]
  | answer hvalue =>
    intro x hx
    simp only [Process.free, Name.free, Process.freeAll, List.append_nil, List.singleton_append,
      List.mem_cons, (evaluates_of_toProcess _ hvalue).free_eq declares] at hx
    obtain rfl | hx := hx
    · exact .inr ⟨rfl, by simp⟩
    · exact .inl (by simpa using hx)
  | done =>
    intro x hx
    exact .inr ⟨by simpa using hx, by simp⟩

theorem map_name_plain (channels : List String) :
    (channels.map Binding.plain).map Binding.name = channels := by
  simp [Binding.name, Function.comp_def]

theorem boundNames_constant (loc dloc : Loc) (id : Node) {n : Node} (hn : isDeclarable n = true) :
    boundNames (constant loc dloc id (some n)) = freeIn (fun _ => []) false id := by
  simp [boundNames, isReplaced, declaredNames, declaratorNames, hn]

theorem freeInAll_of_identifierNames {ns : List Node} {names : List String}
    (h : identifierNames ns = .ok names) : freeInAll declares ns = names := by
  induction ns generalizing names with
  | nil =>
    cases h
    simp
  | cons n rest ih =>
    simp only [identifierNames, except_bind_eq_ok, except_pure_eq_ok] at h
    obtain ⟨x, hx, names, hnames, rfl⟩ := h
    obtain ⟨loc, rfl⟩ := eq_identifier_of_identifierName hx
    simp [ih hnames]

/-- The formal parameters of a method bind its parameters and the return channel. -/
theorem mem_freeAll_formals {method : WideString} {x : String} {params : List String} :
    x ∈ Name.freeAll (formals method params) ↔ x ∈ params ∨ x = returnChannel := by
  simp only [formals, List.cons_append, Name.freeAll, Name.freeAll_append, Name.freeAll_map_var]
  split
  · rename_i hreturn
    simp only [Name.free, Process.free, List.nil_append, List.append_nil, Name.freeAll]
    exact ⟨.inl, fun h => h.elim id (· ▸ hreturn)⟩
  · simp

theorem freeIn_body {body : Node} {statements : List Node}
    (h : bodyStatements? body = some statements) :
    freeIn declares false body = freeInBlock declares statements := by
  unfold bodyStatements? at h
  split at h <;> cases h <;> simp

theorem freeIn_method {loc floc : Loc} {key body : Node} {id : Option Node}
    {params : List Node} {isAsync method shorthand computed : Bool} {kind : String}
    {name : WideString}
    (h : propertyKey? (.property loc key (.functionExpression floc id params body isAsync) kind method
      shorthand computed) = some name) :
    freeIn declares false (.property loc key (.functionExpression floc id params body isAsync) kind
      method shorthand computed) =
      unbound (freeInAll declares params) (freeIn declares false body) := by
  unfold propertyKey? at h
  split at h
  · rename_i heq
    cases heq
    simp
  · cases h

mutual

theorem Blocks.accounted {body : List Node} {k k' : Nat} {p : Process} {ds : List Diagnostic}
    (h : Blocks body k p k' ds) :
    Accounted (freeInBlock boundNames body) (returnsAny body) p.free := by
  match h with
  | .nil => exact .of_eq (by simp) _
  | .last hends => simpa [unbound] using hends.accounted boundNames
  | .cons hopens hblocks => simpa using hopens.accounted hblocks.accounted
termination_by structural h

/-- A statement that opens its block, in front of a process whose names are accounted for. -/
theorem Opens.accounted {s : Node} {k k' : Nat} {p q : Process} {ds : List Diagnostic}
    {names : List String} {b : Bool} (h : Opens s k q p k' ds) (hq : Accounted names b q.free) :
    Accounted (freeIn boundNames false s ++ unbound (boundNames s) names) (returns s || b) p.free := by
  match h with
  | .log hlog hvalue =>
    rw [Process.free_beside]
    refine .append (.of_eq ?_ _) (by simpa [boundNames] using hq)
    simp [isCall_of_loggedArgument? hlog, freeIn_of_loggedArgument? boundNames hlog,
      (evaluates_of_toProcess _ hvalue).free_eq boundNames]
  | .soft hsoft =>
    rw [Process.free_beside, hsoft.boundNames_eq, unbound_nil]
    exact .append (by simp [Accounted, placeholder]) hq
  | .switch hspecimen hcases =>
    rw [Process.free_beside]
    refine .append ?_ (by simpa [boundNames] using hq)
    have hfree := (evaluates_of_toProcess _ hspecimen).free_eq boundNames
    simpa using Accounted.append (.of_eq hfree false) hcases.accounted
  | .await hrequested hpatterns hne =>
    -- What the sends and the receiver use besides the reply channels is awaited or comes later.
    obtain ⟨-, -, hbound⟩ := hrequested.free_eq (fun _ => [])
    obtain ⟨hsends, hsources, -⟩ := hrequested.free_eq boundNames
    rw [hpatterns, freeInElements_awaitedPatterns _ hrequested hpatterns hne] at hbound
    rw [boundNames_constant _ _ _ rfl, ← hbound]
    intro x hx
    simp only [Process.free, Process.free_beside, Process.free_besideAll, mem_unbound, hsources,
      map_name_plain, List.mem_append] at hx
    obtain ⟨hx | hx | hx, hchannel⟩ := hx
    · obtain hx | hx := hsends x hx
      · exact absurd hx hchannel
      · refine .inl (List.mem_append_left _ ?_)
        simpa [isDeclarable, isHarden] using mem_freeIn_of_mem_requests boundNames hx
    · exact absurd hx hchannel
    · obtain hx | hx := hq.unbound (fun _ => id) x (mem_unbound.mpr hx)
      · exact .inl (List.mem_append_right _ hx)
      · exact .inr (by simpa using hx)
  | .channel =>
    rw [boundNames_constant _ _ _ rfl]
    simpa [isDeclarable, isHarden, Binding.name] using hq.unbound (fun _ => id)
  | .suite hmethods =>
    rw [boundNames_constant _ _ _ rfl]
    intro x hx
    simp only [Process.free, Process.free_besideAll, mem_unbound, List.map_cons, List.map_nil,
      Binding.name, Process.freeAll_append, List.mem_append, List.mem_singleton] at hx
    obtain ⟨hx | hx, htarget⟩ := hx
    · have hx := (hmethods.accounted x hx).resolve_left htarget
      refine .inl (List.mem_append_left _ ?_)
      simp [isDeclarable, isHarden, mem_unbound, hx, htarget, calleeWords, name?]
    · obtain hx | hx := hq x (by simpa using hx)
      · exact .inl (List.mem_append_right _ (mem_unbound.mpr ⟨hx, by simpa using htarget⟩))
      · exact .inr (by simpa using hx)
  | .literal hspecimen =>
    rw [boundNames_constant _ _ _ rfl]
    simpa [isDeclarable, isHarden, (evaluates_of_toProcess _ hspecimen).free_eq boundNames] using
      hq.unbound (fun _ => id)
termination_by structural h

theorem Cases.accounted {cases : List Node} {k k' : Nat} {bodies : List (Process × Process)}
    {ds : List Diagnostic} (h : Cases cases k bodies k' ds) :
    Accounted (freeInAll boundNames cases) (returnsAny cases) (Process.freeCases bodies) := by
  match h with
  | .nil => exact .of_eq (by simp) _
  | .cons hpattern hbody hrest =>
    simp only [freeInAll, returnsAny, Process.freeCases]
    refine .append ?_ hrest.accounted
    intro x hx
    obtain hx | hx := hbody.accounted x (mem_unbound.mp hx).1
    · exact .inl (by simp [hx])
    · exact .inr (by simpa using hx)
termination_by structural h

/-- The contracts for methods use the target and the names of the methods; they return over a channel
of their own. -/
theorem Methods.accounted {target : String} {properties : List Node} {k k' : Nat}
    {contracts : List Process} {ds : List Diagnostic}
    (h : Methods target properties k contracts k' ds) :
    ∀ x ∈ Process.freeAll contracts, x = target ∨ x ∈ freeInAll boundNames properties := by
  match h with
  | .nil => simp
  | .cons hkey hnames hbody hblocks hrest =>
    intro x hx
    simp only [Process.freeAll, Process.free, Name.free, List.mem_append, List.mem_singleton,
      mem_unbound, mem_freeAll_formals, not_or] at hx
    rw [freeInAll, freeIn_method boundNames hkey, freeInAll_of_identifierNames boundNames hnames,
      freeIn_body boundNames hbody, List.mem_append, mem_unbound]
    obtain (hx | ⟨hx, hparams, hreturn⟩) | hx := hx
    · exact .inl hx
    · have hx := (hblocks.accounted x hx).resolve_right fun h => hreturn h.1
      exact .inr (.inl ⟨hx, hparams⟩)
    · exact (hrest.accounted x hx).imp_right .inr
termination_by structural h

end

/-! ### Whole trees -/

/-- An import of a system resource binds its local names. -/
theorem resourceNames_subset {n : Node} {bindings : List Binding} (h : importBindings n = .ok bindings)
    {x : String} (hx : x ∈ resourceNames n) : x ∈ bindings.map Binding.name := by
  unfold resourceNames at hx
  split at hx
  · split at hx
    · rename_i hscheme
      simp only [importBindings, literalValue, except_bind_eq_ok, Except.ok.injEq,
        exists_eq_left'] at h
      rw [if_pos hscheme] at h
      unfold resourceBinding at h
      split at h
      · simp only [except_bind_eq_ok, except_pure_eq_ok] at h
        obtain ⟨name, hname, rfl⟩ := h
        simp only [localName] at hname
        split at hname <;> cases hname
        simpa [localName?, name?, Binding.name] using hx
      · cases h
    · cases hx
  · cases hx

theorem resourceNames_subset_of_importsBindings {ns : List Node} {bindings : List Binding}
    (h : importsBindings ns = .ok bindings) {x : String} (hx : x ∈ ns.flatMap resourceNames) :
    x ∈ bindings.map Binding.name := by
  induction ns generalizing bindings with
  | nil => simp at hx
  | cons n rest ih =>
    simp only [importsBindings, except_bind_eq_ok, except_pure_eq_ok] at h
    obtain ⟨bs, hbs, cs, hcs, rfl⟩ := h
    rw [List.flatMap_cons, List.mem_append] at hx
    rw [List.map_append, List.mem_append]
    exact hx.imp (resourceNames_subset hbs) (ih hcs)

theorem Lowers.accounted {n : Node} {p : Process} {k : Nat} {ds : List Diagnostic}
    (h : Lowers n p k ds) : Accounted (freeInTree boundNames n) (treeReturns n) p.free := by
  cases h with
  | empty => simp [Accounted]
  | program _ hbindings hblocks =>
    refine hblocks.accounted.unbound fun x hx => ?_
    rw [List.map_append, List.mem_append]
    obtain rfl | hx := List.mem_cons.mp hx
    · exact .inr List.mem_cons_self
    · exact .inl (resourceNames_subset_of_importsBindings hbindings hx)
  | block hblocks => exact hblocks.accounted
  | expression he => exact .of_eq ((evaluates_of_toProcess _ he).free_eq boundNames) _
  | other => simp [Accounted, placeholder]

theorem trailingDigits_of_mem_replyChannels {ns : List Node} {k : Nat} {x : String}
    (hx : x ∈ replyChannels ns k) : trailingDigits x ≠ [] := by
  induction ns generalizing k with
  | nil => cases hx
  | cons n rest ih =>
    obtain rfl | hx := List.mem_cons.mp hx
    · exact trailingDigits_replyChannel_ne_nil n k
    · exact ih hx

/-- **No name escapes its scope**: what is free in the process of a tree is free in the tree or is the
return channel, the latter only for a `return` outside of all methods. A reply channel is thus never
free, unless it is a name that is free in the tree. -/
theorem free_process_subset {n : Node} {l l' : Ledger} {c : Lowered}
    (h : Yields (lowerTree n) l c l') :
    (∀ x ∈ c.process.free,
      x ∈ freeInTree boundNames n ∨ x = "__return" ∧ treeReturns n = true) ∧
    ∀ x ∈ c.process.replyBindings, x ∉ freeInTree boundNames n → x ∉ c.process.free := by
  obtain ⟨k, hlowers, -⟩ := lowers_of_yields h
  refine ⟨hlowers.accounted, fun x hx hfree hmem => ?_⟩
  obtain hx' | ⟨rfl, -⟩ := hlowers.accounted x hmem
  · exact hfree hx'
  · rw [hlowers.replyBindings_eq.1] at hx
    exact trailingDigits_of_mem_replyChannels hx (by decide +kernel)

/-- A block that passes a reply on. -/
def relay : Node :=
  .blockStatement none [
    constant none none (.identifier none "r") (some (.awaitExpression none (ask "s" "get" "t"))),
    .returnStatement none (some (.identifier none "r"))]

/-- In the block `relay` the reply and its channel are bound, and the reply is returned. -/
theorem relay_free_subset : ∃ c l', Yields (lowerTree relay) {} c l' ∧
    freeInTree boundNames relay = ["s", "t"] ∧
    (∀ x ∈ c.process.free,
      x ∈ freeInTree boundNames relay ∨ x = "__return" ∧ treeReturns relay = true) ∧
    "AwaitExpression_0c0_0" ∉ c.process.free := by
  have h : Yields (lowerTree relay) {} _ _ := rfl
  obtain ⟨hfree, hreply⟩ := free_process_subset h
  exact ⟨_, _, h, by decide +kernel, hfree,
    hreply "AwaitExpression_0c0_0" (by decide +kernel) (by decide +kernel)⟩

/-- A program that logs a constant of a value that cannot be declared. -/
def logsReplaced : Node :=
  .program none [
    constant none none (.identifier none "x") (some (.memberExpression none (.identifier none "a")
      (.identifier none "b") false)),
    .expressionStatement none (.callExpression none (.memberExpression none
      (.identifier none "console") (.identifier none "log") false) [.identifier none "x"])]

/-- **A replaced declaration binds nothing**: the constant that `logsReplaced` declares is free in its
process, though by the scopes of the source no name is free in the program. -/
theorem replaced_declaration_escapes : ∃ c l', Yields (lowerTree logsReplaced) {} c l' ∧
    c.process.free = ["x"] ∧ freeInTree declaredNames logsReplaced = [] :=
  ⟨_, _, rfl, by decide +kernel, by decide +kernel⟩

end Lowering

end RhoScript
