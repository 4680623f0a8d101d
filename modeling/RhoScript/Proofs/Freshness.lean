import RhoScript.Proofs.Compile
import RhoScript.Proofs.Lowering.Scope
import RhoScript.Proofs.Lowering.Wiring
import RhoScript.Proofs.Source.Steps

/-!
# Whether reply channels are fresh

A reply channel is named after the call that it is for: the type of the node, its position and a
number. Such a name can be written in a source as well. Nothing keeps them apart, so an identifier that
happens to be the name of a reply channel is captured by it (`reply_channel_captures`).

Main statement: the names of reply channels all start in one of two ways, and if no identifier of a
source does, then none is captured: each reply channel is no identifier of the source and occurs three
times, to be bound, to go out with its call and to be received from (`reply_channels_fresh`).
-/

namespace RhoScript

open Lowering

/-- The identifiers of a tree. -/
def Node.identifiers (n : Node) : List String := n.nodes.filterMap name?

theorem Node.everywhere_isNot_iff {n : Node} {x : String} :
    n.Everywhere (IsNot x) ↔ x ∉ n.identifiers := by
  simp [Node.Everywhere, Node.identifiers, IsNot]

namespace Lowering

/-! ### The names of reply channels -/

/-- The request has the awaiting node as its label, or the call. -/
def Request.IsLabelled (r : Request) : Prop := r.label.type = "AwaitExpression" ∨ r.label = r.call

theorem isLabelled_of_mem_elementRequests {calls patterns : List (Option Node)} {r : Request}
    (h : r ∈ elementRequests calls patterns) : r.IsLabelled := by
  fun_induction elementRequests calls patterns with
  | case1 => cases h
  | case2 calls patterns ih => exact ih h
  | case3 call calls patterns ih =>
    obtain rfl | h := List.mem_cons.mp h
    · exact .inr rfl
    · exact ih h

theorem isLabelled_of_mem_requests {pattern argument : Node} {loc : Loc} {r : Request}
    (h : r ∈ requests pattern (.awaitExpression loc argument) argument) : r.IsLabelled := by
  unfold requests at h
  split at h
  · split at h
    · exact isLabelled_of_mem_elementRequests h
    · cases h
  · obtain rfl := List.mem_singleton.mp h
    exact .inl rfl

mutual

theorem isLabelled_of_mem_blockDispatches {body : List Node} {r : Request}
    (h : .request r ∈ blockDispatches body) : r.IsLabelled := by
  cases body with
  | nil => simp [blockDispatches] at h
  | cons s rest =>
    rw [blockDispatches, List.mem_append] at h
    exact h.elim isLabelled_of_mem_statementDispatches isLabelled_of_mem_blockDispatches
termination_by structural body

theorem isLabelled_of_mem_statementDispatches {s : Node} {r : Request}
    (h : .request r ∈ statementDispatches s) : r.IsLabelled := by
  cases s
  case expressionStatement loc e =>
    rw [statementDispatches] at h
    split at h
    · simp at h
    · split at h <;> simp at h
  case returnStatement loc argument => simp [statementDispatches] at h
  case switchStatement loc discriminant cases =>
    rw [statementDispatches] at h
    exact isLabelled_of_mem_partsDispatches h
  case variableDeclaration loc declarations kind =>
    rw [statementDispatches] at h
    exact isLabelled_of_mem_partsDispatches h
  all_goals cases h
termination_by structural s

theorem isLabelled_of_mem_partsDispatches {parts : List Node} {r : Request}
    (h : .request r ∈ partsDispatches parts) : r.IsLabelled := by
  cases parts with
  | nil => simp [partsDispatches] at h
  | cons n rest =>
    rw [partsDispatches, List.mem_append] at h
    exact h.elim isLabelled_of_mem_partDispatches isLabelled_of_mem_partsDispatches
termination_by structural parts

theorem isLabelled_of_mem_partDispatches {n : Node} {r : Request}
    (h : .request r ∈ partDispatches n) : r.IsLabelled := by
  cases n
  case switchCase loc test body | program loc body | blockStatement loc body =>
    rw [partDispatches] at h
    exact isLabelled_of_mem_blockDispatches h
  case variableDeclarator loc id init =>
    rw [partDispatches] at h
    exact isLabelled_of_mem_initialDispatches h
  case objectExpression loc properties =>
    rw [partDispatches] at h
    exact isLabelled_of_mem_partsDispatches h
  case property loc key value kind method shorthand computed =>
    rw [partDispatches] at h
    exact isLabelled_of_mem_partDispatches h
  case functionExpression loc id params body isAsync =>
    rw [partDispatches] at h
    exact isLabelled_of_mem_partDispatches h
  all_goals cases h
termination_by structural n

theorem isLabelled_of_mem_initialDispatches {id : Node} {init : Option Node} {r : Request}
    (h : .request r ∈ initialDispatches id init) : r.IsLabelled := by
  cases init with
  | none => simp [initialDispatches] at h
  | some n =>
    cases n
    case awaitExpression loc argument =>
      rw [initialDispatches] at h
      obtain ⟨r', hr, heq⟩ := List.mem_map.mp h
      cases heq
      exact isLabelled_of_mem_requests hr
    case callExpression loc callee arguments =>
      rw [initialDispatches] at h
      split at h
      · exact isLabelled_of_mem_partsDispatches h
      · cases h
    all_goals cases h
termination_by structural init

end

theorem mem_requestsOf {ds : List Dispatch} {r : Request} :
    r ∈ requestsOf ds ↔ .request r ∈ ds := by
  induction ds with
  | nil => simp [requestsOf]
  | cons d rest ih => cases d <;> simp [requestsOf, ih]

theorem isLabelled_of_mem_treeRequests {n : Node} {r : Request} (h : r ∈ treeRequests n) :
    r.IsLabelled := by
  rw [treeRequests, mem_requestsOf] at h
  cases n
  case program loc items => exact isLabelled_of_mem_blockDispatches h
  case blockStatement loc body => exact isLabelled_of_mem_blockDispatches h
  all_goals cases h

theorem Requested.isCall {rs : List Request} {k : Nat} {channels : List String}
    {sends : List Process} {clauses : List (List Name × Name)}
    (h : Requested rs k channels sends clauses) : ∀ r ∈ rs, isCall r.call = true := by
  induction h with
  | nil => exact nofun
  | cons hsend _ _ _ ih =>
    simp only [eventualSend, except_bind_eq_ok] at hsend
    obtain ⟨call, hcall, -⟩ := hsend
    exact List.forall_mem_cons.mpr ⟨isCall_of_eventualCall hcall, ih⟩

/-- What is awaited in a tree that can be lowered are calls. -/
theorem reading_isCall : Reading (fun _ => True) (fun _ => ([] : List Unit))
    fun _ ds _ _ _ => ∀ r ∈ requestsOf ds, isCall r.call = true where
  seesThrough := ⟨rfl, fun _ _ => rfl⟩
  nil _ := nofun
  append := by
    intro k k₁ k₂ ds ds' es es' xs xs' h h'
    rw [requestsOf_append]
    exact List.forall_mem_append.mpr ⟨h, h'⟩
  value _ _ := rfl
  select _ _ := rfl
  contract _ _ _ := rfl
  new _ _ := rfl
  send _ hd _ _ := by
    rw [hd]
    exact nofun
  soft _ _ _ := nofun
  await _ h _ := by
    rw [requestsOf_map_request]
    exact h.isCall

/-- The types of the nodes that name reply channels. -/
def replyTypes : List String := ["AwaitExpression", "CallExpression"]

/-- A name that starts as those of reply channels do. -/
def startsAsReply (x : String) : Bool :=
  replyTypes.any fun type => (type ++ "_").toList.isPrefixOf x.toList

theorem startsAsReply_replyChannel {n : Node} (h : n.type ∈ replyTypes) (i : Nat) :
    startsAsReply (replyChannel n i) = true := by
  refine List.any_eq_true.mpr ⟨n.type, h, List.isPrefixOf_iff_prefix.mpr ?_⟩
  have heq : replyChannel n i = n.type ++ "_" ++ (n.position.label ++ "_" ++ toString i) := by
    simp [replyChannel, String.append_assoc, toString]
  rw [heq, String.toList_append (s := n.type ++ "_")]
  exact List.prefix_append _ _

/-- Reply channels have names of two kinds: those of awaiting nodes and those of calls. -/
theorem Lowers.startsAsReply {n : Node} {p : Process} {k : Nat} {ds : List Diagnostic}
    (h : Lowers n p k ds) {r : Request} (hr : r ∈ treeRequests n) (i : Nat) :
    startsAsReply (replyChannel r.label i) = true := by
  have hcalls := h.reads reading_isCall (fun _ _ => trivial)
  refine startsAsReply_replyChannel ?_ i
  obtain hlabel | hlabel := isLabelled_of_mem_treeRequests hr
  · simp [hlabel, replyTypes]
  · have hcall := hcalls r hr
    rw [hlabel]
    cases hr : r.call
    case callExpression => exact List.mem_cons_of_mem _ List.mem_cons_self
    all_goals
      rw [hr] at hcall
      cases hcall

end Lowering

namespace Compile

/-- **Reply channels are fresh unless a name starts as theirs do**: a source text that is compiled gets
one reply channel for each awaited call, named after the node, its position and the number of the
call. All these names start in one of two ways. If no identifier of the source starts like this, then
no reply channel is one; and a reply channel that is no identifier of the source captures nothing,
since it occurs three times only. -/
theorem reply_channels_fresh {path text : String} {lowered : Lowered}
    (h : (toProcess .source path text).2 = .ok lowered) :
    ∃ tree, Source.readProgram text = .ok tree ∧
      lowered.process.replyBindings = (treeRequests tree).mapIdx (fun i r =>
        s!"{r.label.type}_{r.label.position.line}c{r.label.position.column}_{i}") ∧
      (∀ x ∈ lowered.process.replyBindings, startsAsReply x = true ∧
        (x ∉ tree.identifiers → lowered.process.names.count x = 3)) ∧
      ((∀ x ∈ tree.identifiers, startsAsReply x = false) →
        ∀ x ∈ lowered.process.replyBindings, x ∉ tree.identifiers) := by
  obtain ⟨tree, ledger, hread, hyields⟩ := yields_of_toProcess h
  obtain ⟨k, hlowers, -⟩ := lowers_of_yields hyields
  obtain ⟨hbindings, -⟩ := hlowers.replyBindings_eq
  have hnames : lowered.process.replyBindings =
      (treeRequests tree).mapIdx fun i r => replyChannel r.label i := by
    rw [hbindings, dispatchChannels, replyChannels_map_label]
    simp only [Nat.zero_add]
    rfl
  have hchannel : ∀ x ∈ lowered.process.replyBindings, ∃ i r,
      (treeRequests tree)[i]? = some r ∧ x = replyChannel r.label i := by
    intro x hx
    rw [hnames] at hx
    obtain ⟨i, hi, rfl⟩ := List.mem_mapIdx.mp hx
    exact ⟨i, _, List.getElem?_eq_getElem hi, rfl⟩
  have hstarts : ∀ x ∈ lowered.process.replyBindings, startsAsReply x = true := by
    intro x hx
    obtain ⟨i, r, hr, rfl⟩ := hchannel x hx
    exact hlowers.startsAsReply (List.mem_of_getElem? hr) i
  refine ⟨tree, hread, ?_, fun x hx => ⟨hstarts x hx, fun hfresh => ?_⟩, fun hnone x hx hmem => ?_⟩
  · simpa only [replyChannel_eq] using hnames
  · obtain ⟨i, r, hr, rfl⟩ := hchannel x hx
    have hcount := (hlowers.reads (reading_occurrences (trailingDigits_replyChannel_ne_nil r.label i))
      (Node.everywhere_isNot_iff.mpr hfresh)).1
    rwa [length_collect_occurrencesAt, count_dispatchChannels hr] at hcount
  · have hfalse := hnone x hmem
    rw [hstarts x hx] at hfalse
    cases hfalse

/-- The property `P` holds of the tree and the process of a text if it is found to hold after reading the
text in a bounded number of steps. -/
theorem compiled_of_readWithin (bound : Nat) (text : String) (P : Node → Lowered → Prop)
    [∀ tree, DecidablePred (P tree)]
    (h : (Source.readWithin bound text).any (fun tree =>
      match ExceptT.run (lowerTree tree) {} with
      | (.ok lowered, _) => decide (P tree lowered)
      | _ => false) = true) :
    ∃ tree lowered, Source.readProgram text = .ok tree ∧
      (toProcess .source "" text).2 = .ok lowered ∧ P tree lowered := by
  obtain ⟨tree, htree, htest⟩ := (Option.any_eq_true _ _).mp h
  have hread := Source.readProgram_eq_of_readWithin htree
  split at htest
  · rename_i lowered ledger hrun
    exact ⟨tree, lowered, hread, toProcess_of_yields hread hrun, of_decide_eq_true htest⟩
  · cases htest

/-- A program that awaits two calls. -/
def twoReplies : String := "const [a, b] = await Promise.all([E(x).m(), E(y).n()]);"

/-- The reply channels of the program `twoReplies` are fresh. -/
theorem twoReplies_fresh : ∃ tree lowered, Source.readProgram twoReplies = .ok tree ∧
    (toProcess .source "" twoReplies).2 = .ok lowered ∧
    lowered.process.replyBindings = ["CallExpression_1c34_0", "CallExpression_1c44_1"] ∧
    ∀ x ∈ lowered.process.replyBindings, x ∉ tree.identifiers := by
  obtain ⟨tree, lowered, hread, hcompiled, hbindings, hnone⟩ := compiled_of_readWithin 400 twoReplies
    (fun tree lowered =>
      lowered.process.replyBindings = ["CallExpression_1c34_0", "CallExpression_1c44_1"] ∧
      ∀ x ∈ tree.identifiers, startsAsReply x = false) (by decide +kernel)
  obtain ⟨tree', hread', -, -, hfresh⟩ := reply_channels_fresh hcompiled
  rw [hread] at hread'
  cases hread'
  exact ⟨tree, lowered, hread, hcompiled, hbindings, hfresh hnone⟩

/-- A program in which a call is sent over the name that its reply channel gets. -/
def capturing : String := "const r = await E(AwaitExpression_1c10_0).m();"

/-- **A reply channel can capture a name**: the reply channel of the program `capturing` is an identifier
that is free in the source, and it is no longer free in the process. -/
theorem reply_channel_captures : ∃ tree lowered, Source.readProgram capturing = .ok tree ∧
    (toProcess .source "" capturing).2 = .ok lowered ∧
    lowered.process.replyBindings = ["AwaitExpression_1c10_0"] ∧
    "AwaitExpression_1c10_0" ∈ tree.identifiers ∧
    freeInTree boundNames tree = ["AwaitExpression_1c10_0"] ∧ lowered.process.free = [] :=
  compiled_of_readWithin 400 capturing (fun tree lowered =>
    lowered.process.replyBindings = ["AwaitExpression_1c10_0"] ∧
    "AwaitExpression_1c10_0" ∈ tree.identifiers ∧
    freeInTree boundNames tree = ["AwaitExpression_1c10_0"] ∧ lowered.process.free = [])
    (by decide +kernel)

end Compile

end RhoScript
