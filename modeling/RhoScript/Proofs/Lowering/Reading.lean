import RhoScript.Proofs.Lowering.Dispatch

/-!
# Readings of a process

What is to be known about a process as a whole, such as its sends or its placeholders, is read off it
from left to right: `f` says what a process contributes by itself. A reading compares this with the
source: `R k ds es xs k'` says that the dispatches `ds` and the replaced shapes `es`, with reply
channels from `k` up to `k'`, account for the contributions `xs`.

Main statement: if the account is right for each construct that lowering makes, then it is right for
every process that lowering makes (`Lowers.reads`). The induction over the rules is made here, once
for all readings.
-/

namespace RhoScript.Lowering

/-- A name that is the console, the return channel or an identifier with the property `P`. -/
inductive Spelled (P : Node → Prop) : String → Prop
  | console : Spelled P "console"
  | returns : Spelled P returnChannel
  | identifier {loc : Loc} {name : String} : P (.identifier loc name) → Spelled P name

/-- The call and the pattern of the request have the property `P` everywhere. -/
def Request.Everywhere (P : Node → Prop) (r : Request) : Prop :=
  r.call.Everywhere P ∧ ∀ p ∈ r.pattern, p.Everywhere P

/-- A receiver. -/
def isReceive : Process → Bool
  | .receive .. => true
  | _ => false

/-- A process beside a receiver, as it stands under the reply channels of awaited calls. -/
def isAwaiting : Process → Bool
  | .par _ q => isReceive q
  | _ => false

/-- An account of what `f` finds in processes, for trees whose nodes all have the property `P`. -/
structure Reading {α : Type} (P : Node → Prop) (f : Process → List α)
    (R : Nat → List Dispatch → List Diagnostic → List α → Nat → Prop) : Prop where
  seesThrough : SeesThrough f
  nil (k : Nat) : R k [] [] [] k
  append {k k₁ k₂ : Nat} {ds ds' : List Dispatch} {es es' : List Diagnostic} {xs xs' : List α} :
    R k ds es xs k₁ → R k₁ ds' es' xs' k₂ → R k (ds ++ ds') (es ++ es') (xs ++ xs') k₂
  value (p : Process) : ValuePart P p → f p = []
  select (p : Process) (cases : List (Process × Process)) : f (.select p cases) = []
  contract {target : String} {method : WideString} {params : List String} (body : Process) :
    Spelled P target → (∀ x ∈ params, Spelled P x) →
      f (.contract (.var target) (formals method params) body) = []
  new {bindings : List Binding} {body : Process} :
    (∀ b ∈ bindings, Spelled P b.name) → isAwaiting body = false → f (.new bindings body) = []
  send {k : Nat} {d : Dispatch} {x : String} {arguments : List Process} :
    d.send? k = some (.var x, arguments) → requestsOf [d] = [] → Spelled P x →
      (∀ a ∈ arguments, ValuePart P a) → R k [d] [] (f (.send (.var x) arguments)) k
  soft (k : Nat) (n : Node) (expected : String) :
    R k [] [⟨n.position, expected, n.type⟩] (f (placeholder n)) k
  await {k : Nat} {rs : List Request} {channels : List String} {sends : List Process}
    {clauses : List (List Name × Name)} (rest : Process) :
    Requested rs k channels sends clauses → (∀ r ∈ rs, r.Everywhere P) →
      R k (rs.map .request) []
        (f (.new (channels.map .plain) (.par (.besideAll sends) (.receive clauses rest))) ++
          (sends.flatMap (Process.collect f) ++ f (.receive clauses rest)))
        (k + channels.length)

variable {α : Type} {P : Node → Prop} {f : Process → List α}
  {R : Nat → List Dispatch → List Diagnostic → List α → Nat → Prop}

/-! ### Names and values in the source -/

theorem Spelled.plain {x : String} (h : Spelled P x) :
    ∀ b ∈ [Binding.plain x], Spelled P b.name := by
  intro b hb
  rw [List.mem_singleton.mp hb]
  exact h

/-- The recipient, the method and the arguments of a message stand in the source. -/
theorem everywhere_of_eventualCall {n : Node} {call : EventualCall} (hn : n.Everywhere P)
    (h : eventualCall (some n) = .ok call) :
    Spelled P call.target ∧ (∀ m ∈ call.method, ∃ loc, P (.identifier loc m)) ∧
      ∀ a ∈ call.arguments, a.Everywhere P := by
  have hmessage := message?_of_eventualCall h
  unfold message? at hmessage
  split at hmessage <;> cases hmessage
  · rename_i loc cloc eloc iloc target arguments
    have hcallee := hn.child List.mem_cons_self
    have htarget := hcallee.child (List.mem_cons_of_mem _ List.mem_cons_self)
    exact ⟨.identifier htarget.here, by simp, fun a ha => hn.child (List.mem_cons_of_mem _ ha)⟩
  · rename_i loc mloc cloc eloc iloc target nloc method arguments
    have hcallee := hn.child List.mem_cons_self
    have hmethod := hcallee.child (List.mem_cons_of_mem _ List.mem_cons_self)
    have htarget := (hcallee.child List.mem_cons_self).child
      (List.mem_cons_of_mem _ List.mem_cons_self)
    exact ⟨.identifier htarget.here, fun m hm => ⟨nloc, Option.mem_some.mp hm ▸ hmethod.here⟩,
      fun a ha => hn.child (List.mem_cons_of_mem _ ha)⟩

theorem everywhere_of_loggedArgument? {n argument : Node} (hn : n.Everywhere P)
    (h : loggedArgument? n = some argument) : argument.Everywhere P := by
  unfold loggedArgument? at h
  split at h
  · split at h <;> cases h
    exact hn.child (List.mem_cons_of_mem _ List.mem_cons_self)
  · cases h

/-- A declared variable and its initial value. -/
theorem everywhere_of_constant {loc dloc : Loc} {id n : Node}
    (h : (constant loc dloc id (some n)).Everywhere P) : id.Everywhere P ∧ n.Everywhere P := by
  have hd := h.child List.mem_cons_self
  exact ⟨hd.child List.mem_cons_self, hd.child (List.mem_cons_of_mem _ List.mem_cons_self)⟩

theorem everywhere_of_bodyStatements? {body : Node} {statements : List Node}
    (hbody : body.Everywhere P) (h : bodyStatements? body = some statements) :
    ∀ s ∈ statements, s.Everywhere P := by
  unfold bodyStatements? at h
  split at h <;> cases h
  all_goals exact fun s hs => hbody.child hs

/-- What is sent with a message is a value. -/
theorem isValue_of_eventualCall {n : Node} {call : EventualCall} {arguments : List Process}
    (hn : n.Everywhere P) (h : eventualCall (some n) = .ok call)
    (harguments : toProcesses call.arguments = .ok arguments) :
    ∀ p ∈ call.method.toList.map (fun s => .ground (.string s)) ++ arguments, IsValue P p := by
  obtain ⟨-, hmethod, hcall⟩ := everywhere_of_eventualCall hn h
  intro p hp
  obtain hp | hp := List.mem_append.mp hp
  · obtain ⟨m, hm, rfl⟩ := List.mem_map.mp hp
    obtain ⟨loc, hloc⟩ := hmethod m (Option.mem_toList.mp hm)
    exact isValue_ground (.method hloc)
  · exact (evaluatesAll_of_toProcesses _ harguments).isValue hcall p hp

theorem sendTo_eq (target : String) (method : Option String) (arguments : List Process) :
    sendTo target method arguments =
      .send (.var target) (method.toList.map (fun s => .ground (.string s)) ++ arguments) := by
  cases method <;> rfl

/-- An awaited call becomes a send of values and, at the end, of the reply channel. -/
theorem send_of_eventualSend {n : Node} {channel : String} {p : Process} (hn : n.Everywhere P)
    (h : eventualSend (some n) channel = .ok p) :
    ∃ x arguments, p = .send (.var x) (arguments ++ [.drop (.var channel)]) ∧
      messageSend? n (some channel) = some (.var x, arguments ++ [.drop (.var channel)]) ∧
      Spelled P x ∧ ∀ a ∈ arguments, IsValue P a := by
  simp only [eventualSend, except_bind_eq_ok, except_pure_eq_ok] at h
  obtain ⟨call, hcall, arguments, harguments, rfl⟩ := h
  refine ⟨_, _, ?_, messageSend?_of_eventualCall hcall harguments _,
    (everywhere_of_eventualCall hn hcall).1, isValue_of_eventualCall hn hcall harguments⟩
  rw [sendTo_eq, List.append_assoc]

/-- Of what is sent with an awaited call only the reply channel may contribute. -/
theorem collect_request (hvalue : ∀ p, ValuePart P p → f p = []) {x channel : String}
    {arguments : List Process} (h : ∀ a ∈ arguments, IsValue P a) :
    (Process.send (.var x) (arguments ++ [.drop (.var channel)])).collect f =
      f (.send (.var x) (arguments ++ [.drop (.var channel)])) ++ f (.drop (.var channel)) := by
  have harguments : arguments.flatMap (Process.collect f) = [] :=
    List.flatMap_eq_nil_iff.mpr fun a ha =>
      Process.collect_eq_nil _ fun q hq => hvalue q (h a ha q hq)
  simp [harguments]

/-- If neither sends nor reply channels contribute, requests do not. -/
theorem Requested.flatMap_collect_eq_nil (hvalue : ∀ p, ValuePart P p → f p = [])
    (hsend : ∀ x arguments, f (.send (.var x) arguments) = []) (hdrop : ∀ x, f (.drop (.var x)) = [])
    {rs : List Request} {k : Nat} {channels : List String} {sends : List Process}
    {clauses : List (List Name × Name)} (h : Requested rs k channels sends clauses)
    (hrs : ∀ r ∈ rs, r.Everywhere P) : sends.flatMap (Process.collect f) = [] := by
  induction h with
  | nil => rfl
  | cons heventual _ _ _ ih =>
    obtain ⟨hr, hrest⟩ := List.forall_mem_cons.mp hrs
    obtain ⟨x, arguments, rfl, -, -, harguments⟩ := send_of_eventualSend hr.1 heventual
    rw [List.flatMap_cons, collect_request hvalue harguments, hsend, hdrop, ih hrest]
    rfl

theorem spelled_of_identifierNames {ns : List Node} {names : List String}
    (hns : ∀ n ∈ ns, n.Everywhere P) (h : identifierNames ns = .ok names) :
    ∀ x ∈ names, Spelled P x := by
  induction ns generalizing names with
  | nil =>
    cases h
    simp
  | cons n rest ih =>
    simp only [identifierNames, except_bind_eq_ok, except_pure_eq_ok] at h
    obtain ⟨x, hx, names, hnames, rfl⟩ := h
    obtain ⟨loc, rfl⟩ := eq_identifier_of_identifierName hx
    obtain ⟨hn, hrest⟩ := List.forall_mem_cons.mp hns
    exact List.forall_mem_cons.mpr ⟨.identifier hn.here, ih hrest hnames⟩

/-- The key of a method is one of its nodes. -/
theorem valuePart_of_propertyKey? {p : Node} {name : WideString} (hp : p.Everywhere P)
    (h : propertyKey? p = some name) : ValuePart P (.ground (.string name)) := by
  unfold propertyKey? at h
  split at h
  · have hkey := hp.child List.mem_cons_self
    split at h <;> cases h
    · exact .method hkey.here
    · exact .ground hkey.here
  · cases h

theorem spelled_of_localName {n : Node} {name : String} (hn : n.Everywhere P)
    (h : localName n = .ok name) : Spelled P name := by
  unfold localName at h
  repeat' split at h
  all_goals cases h
  all_goals exact .identifier (hn.child List.mem_cons_self).here

/-- What imports bind are local names of their specifiers. -/
theorem spelled_of_importBindings {n : Node} {bindings : List Binding} (hn : n.Everywhere P)
    (h : importBindings n = .ok bindings) : ∀ b ∈ bindings, Spelled P b.name := by
  cases n
  case importDeclaration loc specifiers source =>
    simp only [importBindings, except_bind_eq_ok] at h
    obtain ⟨value, -, h⟩ := h
    split at h
    · split at h
      · unfold resourceBinding at h
        split at h
        · simp only [except_bind_eq_ok, except_pure_eq_ok] at h
          obtain ⟨name, hname, rfl⟩ := h
          have hspecifier := hn.child List.mem_cons_self
          simpa [Binding.name] using spelled_of_localName hspecifier hname
        · cases h
      · split at h
        · cases h
        · simp only [except_bind_eq_ok] at h
          obtain ⟨names, -, h⟩ := h
          split at h
          · obtain rfl := except_pure_eq_ok.mp h
            simp
          · cases h
    · cases h
  all_goals cases h

theorem spelled_of_importsBindings {ns : List Node} {bindings : List Binding}
    (hns : ∀ n ∈ ns, n.Everywhere P) (h : importsBindings ns = .ok bindings) :
    ∀ b ∈ bindings, Spelled P b.name := by
  induction ns generalizing bindings with
  | nil =>
    cases h
    simp
  | cons n rest ih =>
    simp only [importsBindings, except_bind_eq_ok, except_pure_eq_ok] at h
    obtain ⟨bs, hbs, cs, hcs, rfl⟩ := h
    obtain ⟨hn, hrest⟩ := List.forall_mem_cons.mp hns
    exact List.forall_mem_append.mpr ⟨spelled_of_importBindings hn hbs, ih hrest hcs⟩

/-- The calls that a declaration awaits stand in it. -/
theorem everywhere_of_mem_elementRequests {calls patterns : List (Option Node)} {r : Request}
    (hcalls : ∀ n, some n ∈ calls → n.Everywhere P)
    (hpatterns : ∀ n, some n ∈ patterns → n.Everywhere P)
    (h : r ∈ elementRequests calls patterns) : r.Everywhere P := by
  fun_induction elementRequests calls patterns with
  | case1 => cases h
  | case2 calls patterns ih =>
    exact ih (fun n hn => hcalls n (List.mem_cons_of_mem _ hn))
      (fun n hn => hpatterns n (List.mem_of_mem_tail hn)) h
  | case3 call calls patterns ih =>
    obtain rfl | h := List.mem_cons.mp h
    · refine ⟨hcalls call List.mem_cons_self, fun p hp => hpatterns p ?_⟩
      exact List.mem_of_head? (Option.join_eq_some_iff.mp hp)
    · exact ih (fun n hn => hcalls n (List.mem_cons_of_mem _ hn))
        (fun n hn => hpatterns n (List.mem_of_mem_tail hn)) h

theorem everywhere_of_requests {pattern awaiting argument : Node}
    (hpattern : pattern.Everywhere P) (hargument : argument.Everywhere P) :
    ∀ r ∈ requests pattern awaiting argument, r.Everywhere P := by
  intro r h
  unfold requests at h
  split at h
  · split at h
    · rename_i loc callee aloc calls _
      have harray := hargument.child (List.mem_cons_of_mem _ List.mem_cons_self)
      refine everywhere_of_mem_elementRequests (fun n hn => harray.child ?_) (fun n hn => ?_) h
      · exact List.mem_filterMap.mpr ⟨some n, hn, rfl⟩
      · cases pattern
        case arrayPattern ploc elements =>
          exact hpattern.child (List.mem_filterMap.mpr ⟨some n, hn, rfl⟩)
        all_goals cases hn
    · cases h
  · obtain rfl := List.mem_singleton.mp h
    exact ⟨hargument, fun p hp => Option.mem_some.mp hp ▸ hpattern⟩

/-! ### What no block becomes -/

/-- Neither a receiver nor a process beside one. -/
def Quiet (p : Process) : Prop := isReceive p = false ∧ isAwaiting p = false

theorem Quiet.beside {p q : Process} (hp : Quiet p) (hq : Quiet q) : Quiet (.beside p q) := by
  by_cases hpnil : p = .nil
  · rw [hpnil, Process.nil_beside]
    exact hq
  by_cases hqnil : q = .nil
  · rw [hqnil, Process.beside_nil]
    exact hp
  · rw [Process.beside_of_ne_nil hpnil hqnil]
    exact ⟨rfl, hq.1⟩

theorem Quiet.foldl_beside {p : Process} {ps : List Process} (hp : Quiet p)
    (hps : ∀ q ∈ ps, Quiet q) : Quiet (ps.foldl .beside p) := by
  induction ps generalizing p with
  | nil => exact hp
  | cons q rest ih =>
    obtain ⟨hq, hrest⟩ := List.forall_mem_cons.mp hps
    exact ih (hp.beside hq) hrest

theorem Quiet.besideAll {ps : List Process} (hps : ∀ p ∈ ps, Quiet p) : Quiet (.besideAll ps) := by
  cases ps with
  | nil => exact ⟨rfl, rfl⟩
  | cons p rest =>
    obtain ⟨hp, hrest⟩ := List.forall_mem_cons.mp hps
    exact hp.foldl_beside hrest

theorem Methods.quiet {target : String} {properties : List Node} {k k' : Nat}
    {contracts : List Process} {ds : List Diagnostic}
    (h : Methods target properties k contracts k' ds) : ∀ p ∈ contracts, Quiet p := by
  match h with
  | .nil => simp
  | .cons _ _ _ _ hrest => exact List.forall_mem_cons.mpr ⟨⟨rfl, rfl⟩, hrest.quiet⟩
termination_by structural h

theorem Opens.quiet {s : Node} {k k' : Nat} {p q : Process} {ds : List Diagnostic}
    (h : Opens s k q p k' ds) (hq : Quiet q) : Quiet p := by
  cases h with
  | log | soft | switch => exact Quiet.beside ⟨rfl, rfl⟩ hq
  | await | channel | suite | literal => exact ⟨rfl, rfl⟩

theorem Blocks.quiet {body : List Node} {k k' : Nat} {p : Process} {ds : List Diagnostic}
    (h : Blocks body k p k' ds) : Quiet p := by
  match h with
  | .nil => exact ⟨rfl, rfl⟩
  | .last hends =>
    cases hends with
    | message | answer | done => exact ⟨rfl, rfl⟩
  | .cons hopens hblocks => exact hopens.quiet hblocks.quiet
termination_by structural h

/-! ### Values, messages and replies contribute as they should -/

namespace Reading

variable (hf : Reading P f R)
include hf

theorem collect_value {p : Process} (hp : IsValue P p) : p.collect f = [] :=
  Process.collect_eq_nil _ fun q hq => hf.value q (hp q hq)

theorem flatMap_values {ps : List Process} (hps : ∀ p ∈ ps, IsValue P p) :
    ps.flatMap (Process.collect f) = [] :=
  List.flatMap_eq_nil_iff.mpr fun p hp => hf.collect_value (hps p hp)

theorem collect_send {x : String} {arguments : List Process}
    (h : ∀ a ∈ arguments, IsValue P a) :
    (Process.send (.var x) arguments).collect f = f (.send (.var x) arguments) := by
  rw [Process.collect_send, Name.collect_var, hf.flatMap_values h]
  simp

/-- A statement that ends its block. -/
theorem ends {s : Node} {p : Process} (hs : s.Everywhere P) (h : Ends s p) (k : Nat) :
    R k (statementDispatches s) [] (p.collect f) k := by
  cases h with
  | message hlog hcall harguments =>
    have he := hs.child List.mem_cons_self
    have hvalues := isValue_of_eventualCall he hcall harguments
    have hsend := messageSend?_of_eventualCall hcall harguments none
    rw [Option.toList_none, List.map_nil, List.append_nil] at hsend
    rw [sendTo_eq, hf.collect_send hvalues, statementDispatches, hlog]
    simp only [isCall_of_eventualCall hcall, if_true]
    exact hf.send hsend rfl (everywhere_of_eventualCall he hcall).1
      fun a ha => (hvalues a ha).part
  | answer hvalue =>
    have hvalues := (evaluates_of_toProcess _ hvalue).isValue (hs.child List.mem_cons_self)
    rw [hf.collect_send (List.forall_mem_singleton.mpr hvalues)]
    refine hf.send ?_ rfl .returns (List.forall_mem_singleton.mpr hvalues.part)
    simp [Dispatch.send?, hvalue, Except.toOption, returnChannel]
  | done =>
    rw [hf.collect_send (List.forall_mem_singleton.mpr isValue_nil)]
    exact hf.send rfl rfl .returns (List.forall_mem_singleton.mpr .nil)

/-- The patterns that receive replies contribute nothing. -/
theorem collect_clauses {rs : List Request} {k : Nat} {channels : List String}
    {sends : List Process} {clauses : List (List Name × Name)}
    (h : Requested rs k channels sends clauses) (hrs : ∀ r ∈ rs, r.Everywhere P) :
    (clauses.flatMap fun c => c.1.flatMap (Name.collect f) ++ c.2.collect f) = [] := by
  induction h with
  | nil => rfl
  | cons _ hpattern hname _ ih =>
    obtain ⟨hr, hrest⟩ := List.forall_mem_cons.mp hrs
    obtain ⟨_, _, -, rfl⟩ | ⟨p, rfl, hp⟩ := isValue_of_toPattern (hr.2 _ hpattern) hname
    · simp [ih hrest]
    · simp [ih hrest, hf.collect_value hp]

end Reading

/-- The sends of requests are more than the ended process. -/
theorem Requested.besideAll_ne_nil {rs : List Request} {k : Nat} {channels : List String}
    {sends : List Process} {clauses : List (List Name × Name)}
    (h : Requested rs k channels sends clauses) (hne : sends ≠ []) :
    Process.besideAll sends ≠ .nil := by
  have hfoldl : ∀ (ps : List Process) {p : Process}, p ≠ .nil → ps.foldl .beside p ≠ .nil := by
    intro ps
    induction ps with
    | nil => exact fun hp => hp
    | cons q rest ih => exact fun hp => ih (Process.beside_ne_nil hp q)
  cases h with
  | nil => exact absurd rfl hne
  | cons hsend _ _ _ =>
    simp only [eventualSend, except_bind_eq_ok, except_pure_eq_ok] at hsend
    obtain ⟨call, -, arguments, -, rfl⟩ := hsend
    refine hfoldl _ ?_
    rw [sendTo_eq]
    simp

/-! ### The rules -/

mutual

theorem Blocks.reads (hf : Reading P f R) {body : List Node} {k k' : Nat} {p : Process}
    {ds : List Diagnostic} (h : Blocks body k p k' ds) (hbody : ∀ s ∈ body, s.Everywhere P) :
    R k (blockDispatches body) ds (p.collect f) k' := by
  match h with
  | .nil =>
    rw [Process.collect_nil, hf.seesThrough.nil]
    exact hf.nil k
  | .last hends =>
    rw [blockDispatches, blockDispatches, List.append_nil]
    exact hf.ends (hbody _ List.mem_cons_self) hends k
  | .cons hopens hblocks =>
    obtain ⟨hs, hrest⟩ := List.forall_mem_cons.mp hbody
    obtain ⟨xs, hxs, hcollect⟩ := hopens.reads hf hs hblocks.quiet
    rw [blockDispatches, hcollect]
    exact hf.append hxs (hblocks.reads hf hrest)
termination_by structural h

/-- A statement that opens its block contributes before what comes after it. -/
theorem Opens.reads (hf : Reading P f R) {s : Node} {k k' : Nat} {p q : Process}
    {ds : List Diagnostic} (h : Opens s k q p k' ds) (hs : s.Everywhere P) (hq : Quiet q) :
    ∃ xs, R k (statementDispatches s) ds xs k' ∧ p.collect f = xs ++ q.collect f := by
  match h with
  | .log hlog hvalue =>
    have hargument := everywhere_of_loggedArgument? (hs.child List.mem_cons_self) hlog
    have hvalues := (evaluates_of_toProcess _ hvalue).isValue hargument
    rw [statementDispatches, hlog, Process.collect_beside hf.seesThrough,
      hf.collect_send (List.forall_mem_singleton.mpr hvalues)]
    refine ⟨_, hf.send ?_ rfl .console (List.forall_mem_singleton.mpr hvalues.part), rfl⟩
    simp [Dispatch.send?, hvalue, Except.toOption]
  | .soft hsoft =>
    rw [hsoft.dispatches_eq, Process.collect_beside hf.seesThrough]
    exact ⟨_, hf.soft k _ _, by rw [placeholder, Process.collect_ground]⟩
  | .switch hspecimen hcases =>
    have hvalue := (evaluates_of_toProcess _ hspecimen).isValue (hs.child List.mem_cons_self)
    refine ⟨_, hcases.reads hf fun c hc => hs.child (List.mem_cons_of_mem _ hc), ?_⟩
    rw [Process.collect_beside hf.seesThrough, Process.collect_select, hf.select,
      hf.collect_value hvalue, List.nil_append, List.nil_append]
  | .await hrequested _ hne =>
    obtain ⟨hid, hinit⟩ := everywhere_of_constant hs
    have hargument := hinit.child List.mem_cons_self
    rw [statementDispatches_await,
      Process.beside_of_ne_nil (hrequested.besideAll_ne_nil hne) (by simp)]
    refine ⟨_, hf.await q hrequested (everywhere_of_requests hid hargument), ?_⟩
    rw [Process.collect_new, Process.collect_par, hf.seesThrough.par,
      Process.collect_besideAll hf.seesThrough, Process.collect_receive,
      hf.collect_clauses hrequested (everywhere_of_requests hid hargument)]
    simp
  | .channel =>
    obtain ⟨hid, -⟩ := everywhere_of_constant hs
    refine ⟨[], hf.nil k, ?_⟩
    rw [Process.collect_new, hf.new (Spelled.identifier hid.here).plain hq.2]
  | .suite hmethods =>
    obtain ⟨hid, hcall⟩ := everywhere_of_constant hs
    have htarget := Spelled.identifier hid.here
    have hobject := hcall.child (List.mem_cons_of_mem _ List.mem_cons_self)
    have hquiet := List.forall_mem_append.mpr
      ⟨hmethods.quiet, List.forall_mem_singleton.mpr hq⟩
    rw [statementDispatches_suite]
    refine ⟨_, hmethods.reads hf htarget fun p hp => hobject.child hp, ?_⟩
    rw [Process.collect_new, hf.new htarget.plain (Quiet.besideAll hquiet).2,
      Process.collect_besideAll hf.seesThrough]
    simp
  | .literal hspecimen =>
    obtain ⟨hid, hinit⟩ := everywhere_of_constant hs
    have hvalue := (evaluates_of_toProcess _ hspecimen).isValue hinit
    refine ⟨[], hf.nil k, ?_⟩
    rw [Process.collect_select, hf.select, hf.collect_value hvalue]
    simp [hf.collect_value (isValue_drop hid.here)]
termination_by structural h

/-- The bodies of cases. -/
theorem Cases.reads (hf : Reading P f R) {cases : List Node} {k k' : Nat}
    {bodies : List (Process × Process)} {ds : List Diagnostic} (h : Cases cases k bodies k' ds)
    (hcases : ∀ c ∈ cases, c.Everywhere P) :
    R k (partsDispatches cases) ds (bodies.flatMap fun c => c.1.collect f ++ c.2.collect f) k' := by
  match h with
  | .nil => exact hf.nil k
  | .cons hpattern hbody hrest =>
    obtain ⟨hc, htail⟩ := List.forall_mem_cons.mp hcases
    have hvalue := (evaluates_of_toProcess _ hpattern).isValue (hc.child List.mem_cons_self)
    rw [partsDispatches, partDispatches, List.flatMap_cons, hf.collect_value hvalue,
      List.nil_append]
    exact hf.append (hbody.reads hf fun s hs => hc.child (List.mem_cons_of_mem _ hs))
      (hrest.reads hf htail)
termination_by structural h

/-- The contracts for methods. -/
theorem Methods.reads (hf : Reading P f R) {target : String} {properties : List Node} {k k' : Nat}
    {contracts : List Process} {ds : List Diagnostic}
    (h : Methods target properties k contracts k' ds) (htarget : Spelled P target)
    (hproperties : ∀ p ∈ properties, p.Everywhere P) :
    R k (partsDispatches properties) ds (contracts.flatMap (Process.collect f)) k' := by
  match h with
  | .nil => exact hf.nil k
  | .cons hkey hnames hbody hblocks hrest =>
    obtain ⟨hp, htail⟩ := List.forall_mem_cons.mp hproperties
    have hfunction := hp.child (List.mem_cons_of_mem _ List.mem_cons_self)
    have hparams := spelled_of_identifierNames
      (fun n hn => hfunction.child (by simp [Node.children, hn])) hnames
    have hstatements := everywhere_of_bodyStatements?
      (hfunction.child (by simp [Node.children])) hbody
    rw [partsDispatches, partDispatches_method hbody, List.flatMap_cons, Process.collect_contract,
      hf.contract _ htarget hparams, collect_formals, hf.value _ (valuePart_of_propertyKey? hp hkey),
      Name.collect_var]
    exact hf.append (hblocks.reads hf hstatements) (hrest.reads hf htarget htail)
termination_by structural h

end

theorem everywhere_of_programStatements {loc : Loc} {items : List Node}
    (h : (Node.program loc items).Everywhere P) : ∀ s ∈ programStatements items, s.Everywhere P := by
  have hitems : ∀ s ∈ items.dropWhile isImport, s.Everywhere P :=
    fun s hs => h.child ((List.dropWhile_sublist _).mem hs)
  unfold programStatements contents
  split
  · rename_i eloc floc id params body isAsync heq
    rw [heq] at hitems
    have hbody : body.Everywhere P :=
      ((hitems _ List.mem_cons_self).child List.mem_cons_self).child (by simp [Node.children])
    cases hstatements : bodyStatements? body with
    | none => simp
    | some statements => exact everywhere_of_bodyStatements? hbody hstatements
  · exact hitems

/-- **A reading that is right for each construct is right for every tree.** -/
theorem Lowers.reads (hf : Reading P f R) {n : Node} {p : Process} {k : Nat} {ds : List Diagnostic}
    (h : Lowers n p k ds) (hn : n.Everywhere P) :
    R 0 (treeDispatches n) ds (p.collect f) k := by
  cases h with
  | empty =>
    rw [Process.collect_nil, hf.seesThrough.nil]
    exact hf.nil 0
  | program _ hbindings hblocks =>
    have hspelled := spelled_of_importsBindings
      (fun m hm => hn.child ((List.takeWhile_sublist _).mem hm)) hbindings
    rw [Process.collect_new, hf.new (List.forall_mem_append.mpr ⟨hspelled, ?_⟩) hblocks.quiet.2]
    · exact hblocks.reads hf (everywhere_of_programStatements hn)
    · exact List.forall_mem_singleton.mpr .console
  | block hblocks => exact hblocks.reads hf fun s hs => hn.child hs
  | expression hp =>
    have hvalue := (evaluates_of_toProcess _ hp).isValue (hn.child List.mem_cons_self)
    rw [hf.collect_value hvalue]
    exact hf.nil 0
  | other hwhole =>
    have hdispatches : treeDispatches n = [] := by
      cases n
      case program | blockStatement | expressionStatement => cases hwhole
      all_goals rfl
    rw [hdispatches, placeholder, Process.collect_ground]
    exact hf.soft 0 n _

end RhoScript.Lowering
