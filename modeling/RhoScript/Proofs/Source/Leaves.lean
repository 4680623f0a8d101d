import RhoScript.Proofs.Source.Placement

/-!
# Where productions place nodes

The evaluation of a derivation makes leaves of the tokens that stand for them, and all other nodes of
nodes. Main statements: what a production makes of its parts is placed over the tokens of these
(`combine_placed`, one case per production), and so the value of a derivation over the tokens of the
derivation (`Tree.value_sits`).
-/

namespace RhoScript.Source

open Node

/-! ### What is placed -/

/-- The nodes that a function is made of. -/
def FunctionParts.roots (f : FunctionParts) : List Node := f.id.toList ++ f.params ++ [f.body]

/-- The nodes that an access adds to an expression. -/
def Access.roots : Access → List Node
  | .member name _ => [name]
  | .call arguments _ => arguments

/-- Where an access ends. -/
def Access.stop : Access → Position
  | .member _ stop | .call _ stop => stop

/-- The nodes that follow the key of a property. -/
def PropertyRest.roots : PropertyRest → List Node
  | .value node => [node]
  | .method f => f.roots

/-- The nodes that a category contributes. For a program these are its items. -/
def roots : (n : Nonterminal) → CategoryMeaning n → List Node
  | .items, ns | .importClause, ns | .importMore, ns | .importGroup, ns | .parameters, ns
  | .moreParameters, ns | .statements, ns | .moreDeclarators, ns | .cases, ns | .arguments, ns
  | .moreArguments, ns | .series _, ns | .seriesRest _, ns => ns
  | .importRest, rest => rest.1 ++ [rest.2]
  | .asName, o | .alternative, o | .initializer, o | .optionalExpression, o | .optionalLabel, o
  | .propertyPatternRest, o => o.toList
  | .function, f | .functionRest, f | .functionNamed, f | .signature, f => f.roots
  | .binaryRest _, fs => fs.map (·.operand)
  | .accesses, as => as.flatMap Access.roots
  | .propertyRest, rest => rest.roots
  | .program, n => n.children
  | .item, n | .specifier, n | .block, n | .statement, n | .ifStatement, n | .elseBody, n
  | .declarator, n | .case, n | .pattern, n | .propertyPattern, n | .binary _, n | .unary, n
  | .primary, n | .property, n | .propertyKey, n => [n]

/-- What is to be joined to an expression, part by part: each is placed over tokens of its own and ends
where these do. -/
inductive Chain {α : Type} (roots : α → List Node) (stop : α → Position) :
    List α → List Token → Prop
  | nil : Chain roots stop [] []
  | cons {a : α} {as : List α} {us vs : List Token} : Placed us (roots a) → us ≠ [] →
      stopOf (spanOf us) = stop a → Chain roots stop as vs → Chain roots stop (a :: as) (us ++ vs)

/-- What is known of a category besides the place of its nodes. -/
def Contributes : (n : Nonterminal) → CategoryMeaning n → List Token → Prop
  | .program, n, ts => n = .program ((spanOf ts).elim (some ⟨⟨1, 0⟩, none⟩) Span.loc) n.children
  | .signature, f, _ => f.id = none
  | .binaryRest _, fs, ts => Chain (fun f : FurtherOperand => [f.operand]) (·.stop) fs ts
  | .accesses, as, ts => Chain Access.roots Access.stop as ts
  | _, _, _ => True

/-- What a symbol contributes, over its tokens. -/
def Sits : (s : Symbol) → Meaning s → List Token → Prop
  | .tok t _, leaf, ts => leaf.Sits t ts
  | .sub n, meaning, ts => Placed ts (roots n meaning) ∧ Contributes n meaning ts

/-- A value over its tokens. -/
structure Value.Sits {s : Symbol} (v : Value s) (ts : List Token) : Prop where
  span : v.span = spanOf ts
  meaning : Source.Sits s v.meaning ts

/-- Values in a row, over their tokens. -/
inductive Values.Sit : {ss : List Symbol} → Values ss → List Token → Prop
  | nil : Values.Sit .nil []
  | last {s : Symbol} {v : Value s} {ts : List Token} : v.Sits ts → Values.Sit (.cons v .nil) ts
  | cons {s s' : Symbol} {rest : List Symbol} {v : Value s} {w : Value s'} {more : Values rest}
      {us vs : List Token} : v.Sits us → Values.Sit (.cons w more) vs →
      Values.Sit (.cons v (.cons w more)) (us ++ vs)

namespace Value.Sits

variable {us : List Token}

theorem placed {n : Nonterminal} {v : Value (.sub n)} (h : v.Sits us) :
    Placed us (roots n v.meaning) :=
  h.meaning.1

theorem contributes {n : Nonterminal} {v : Value (.sub n)} (h : v.Sits us) :
    Contributes n v.meaning us :=
  h.meaning.2

variable {t : Terminal} {place : Place} {v : Value (.tok t place)}

theorem leaf (h : v.Sits us) : Placed us (v.meaning.nodes t) := Leaf.Sits.placed h.meaning

theorem mark (h : v.Sits us) (ht : t.isLeaf = false) : Placed us [] := Leaf.Sits.mark h.meaning ht

theorem append_ne_nil (h : v.Sits us) (vs : List Token) : us ++ vs ≠ [] :=
  List.append_ne_nil_of_left_ne_nil (Leaf.Sits.ne_nil h.meaning) vs

end Value.Sits

/-! ### Expressions -/

theorem spanOf_append_of_ne {us vs : List Token} (hus : us ≠ []) (hvs : vs ≠ []) :
    spanOf (us ++ vs) = some ⟨startOf (spanOf us), stopOf (spanOf vs)⟩ := by
  have hsome : ∀ {ts : List Token}, ts ≠ [] → ∃ span, spanOf ts = some span := by
    intro ts hts
    obtain ⟨t, rest, rfl⟩ := List.exists_cons_of_ne_nil hts
    rw [spanOf]
    cases spanOf rest <;> exact ⟨_, rfl⟩
  obtain ⟨a, ha⟩ := hsome hus
  obtain ⟨b, hb⟩ := hsome hvs
  rw [spanOf_append, ha, hb]
  rfl

theorem startOf_append {us vs : List Token} (hus : us ≠ []) (hvs : vs ≠ []) :
    startOf (spanOf (us ++ vs)) = startOf (spanOf us) := by
  rw [spanOf_append_of_ne hus hvs]
  rfl

/-- A node that joins nodes to an expression is placed over the tokens of both. -/
theorem placed_join {start stop : Position} {left n : Node} {ns : List Node} {ts us : List Token}
    (hleft : Placed ts [left]) (hns : Placed us ns) (hus : us ≠ []) (hrow : Row (ts ++ us))
    (hstart : startOf (spanOf ts) = start) (hstop : stopOf (spanOf us) = stop)
    (hloc : n.loc = (Span.mk start stop).loc) (hleaf : n.isLeaf = false)
    (hshares : ∀ loc, n.sharesAt loc = false) (hchildren : n.children = left :: ns) :
    Placed (ts ++ us) [n] := by
  have hts := hleft.ne_nil (List.cons_ne_nil left [])
  refine (hleft.append hns).node (List.append_ne_nil_of_left_ne_nil hts us) hrow ?_ hleaf hshares ?_
  · rw [hloc, spanOf_append_of_ne hts hus, hstart, hstop]
    rfl
  · rw [hchildren]
    exact .refl _

theorem placed_joinOperands (l : Level) {start : Position} {left : Node} {fs : List FurtherOperand}
    {ts us : List Token} (hleft : Placed ts [left]) (hstart : startOf (spanOf ts) = start)
    (hfs : Chain (fun f : FurtherOperand => [f.operand]) (·.stop) fs us) (hrow : Row (ts ++ us)) :
    Placed (ts ++ us) [joinOperands l start left fs] := by
  induction hfs generalizing left ts with
  | nil => rwa [List.append_nil]
  | @cons f fs us vs hf hne hstop _ ih =>
    rw [← List.append_assoc] at hrow ⊢
    have hts := hleft.ne_nil (List.cons_ne_nil left [])
    have hjoin : Placed (ts ++ us)
        [binaryNode l (Span.mk start f.stop).loc f.operator left f.operand] := by
      refine placed_join hleft hf hne (hrow.of_sublist (List.sublist_append_left _ vs)) hstart hstop
        ?_ ?_ ?_ ?_
      · cases l <;> rfl
      · cases l <;> rfl
      · cases l <;> exact fun _ => rfl
      · cases l <;> rfl
    exact ih hjoin ((startOf_append hts hne).trans hstart) hrow

theorem placed_joinAccesses {start : Position} {object : Node} {as : List Access}
    {ts us : List Token} (hobject : Placed ts [object]) (hstart : startOf (spanOf ts) = start)
    (has : Chain Access.roots Access.stop as us) (hrow : Row (ts ++ us)) :
    Placed (ts ++ us) [joinAccesses start object as] := by
  induction has generalizing object ts with
  | nil => rwa [List.append_nil]
  | @cons a as us vs ha hne hstop _ ih =>
    rw [← List.append_assoc] at hrow ⊢
    have hts := hobject.ne_nil (List.cons_ne_nil object [])
    have hus := hrow.of_sublist (List.sublist_append_left _ vs)
    have hstart' := (startOf_append hts hne).trans hstart
    cases a with
    | member name stop =>
      exact ih (placed_join hobject ha hne hus hstart hstop rfl rfl (fun _ => rfl) rfl) hstart' hrow
    | call arguments stop =>
      exact ih (placed_join hobject ha hne hus hstart hstop rfl rfl (fun _ => rfl) rfl) hstart' hrow

/-! ### Productions -/

/-- Nodes over different tokens of a row are at different locations. -/
theorem loc_ne_of_placed {us vs : List Token} {a b : Node} (ha : Placed us [a]) (hb : Placed vs [b])
    (hrow : Row (us ++ vs)) : a.loc ≠ b.loc := by
  obtain ⟨t, ht, _, _, hloc⟩ := ha.located a List.mem_cons_self
  obtain ⟨u, hu, _, _, hloc'⟩ := hb.located b List.mem_cons_self
  have hle := (List.pairwise_append.mp hrow.pairwise).2.2 t ht u hu
  have hlt := (hrow.nonempty t (List.mem_append_left vs ht)).trans_le hle
  intro heq
  rw [hloc, hloc', Option.some.injEq, SourceLocation.mk.injEq] at heq
  exact hlt.ne heq.1

theorem filterMap_map_some (ns : List Node) : (ns.map some).filterMap id = ns := by simp

theorem placed_defaultSpecifier {name : Leaf} {us : List Token} (h : name.Sits .name us)
    (hrow : Row us) : Placed us [.importDefaultSpecifier name.span.loc name.identifier] := by
  have hloc : name.span.loc = locOf (spanOf us) := by
    rw [h.tokens]
    rfl
  exact h.placed.node h.ne_nil hrow hloc rfl (fun _ => rfl) (.refl _)

/-- An import specifier has the imported name and a local one, or the imported name for both. -/
theorem placed_specifier {name : Node} {binding : Option Node} {us vs : List Token}
    (hname : Placed us [name]) (hleaf : name.isLeaf = true) (hbinding : Placed vs binding.toList)
    (hrow : Row (us ++ vs)) :
    Placed (us ++ vs) [.importSpecifier (locOf (spanOf (us ++ vs))) (binding.getD name) name] := by
  have hplaced := hname.append hbinding
  cases binding with
  | none =>
    exact hplaced.shared hrow rfl rfl hleaf (fun loc => Bool.and_self _) rfl
  | some b =>
    have hne := loc_ne_of_placed hname hbinding hrow
    refine hplaced.node (hplaced.ne_nil (List.cons_ne_nil _ _)) hrow rfl rfl (fun loc => ?_)
      (.swap _ _ _)
    rw [sharesAt, Option.getD_some, Bool.and_eq_false_imp, Bool.eq_false_iff]
    exact fun hb hn => hne ((isLeafAt_iff.mp hn).2.trans (isLeafAt_iff.mp hb).2.symm)

/-- A property of a pattern has a name and a pattern, or the name for both. -/
theorem placed_namedPattern {name : Node} {rest : Option Node} {us vs : List Token}
    (hname : Placed us [name]) (hleaf : name.isLeaf = true) (hrest : Placed vs rest.toList)
    (hrow : Row (us ++ vs)) :
    Placed (us ++ vs)
      [propertyNode (locOf (spanOf (us ++ vs))) name (rest.getD name) rest.isNone] := by
  have hplaced := hname.append hrest
  cases rest with
  | none =>
    exact hplaced.shared hrow rfl rfl hleaf (fun loc => Bool.and_self _) rfl
  | some pattern =>
    exact hplaced.node (hplaced.ne_nil (List.cons_ne_nil _ _)) hrow rfl rfl (fun _ => rfl) (.refl _)

theorem FunctionParts.placed_named {f : FunctionParts} {name : Node} {us vs : List Token}
    (hname : Placed us [name]) (hf : Placed vs f.roots) (hid : f.id = none) :
    Placed (us ++ vs) ({ f with id := some name } : FunctionParts).roots := by
  have hroots : f.roots = f.params ++ [f.body] := by
    rw [FunctionParts.roots, hid]
    rfl
  rw [hroots] at hf
  exact hname.append hf

theorem FunctionParts.placed_declaration {f : FunctionParts} {ts : List Token} {loc : Loc}
    (h : Placed ts f.roots) (hrow : Row ts) (hloc : loc = locOf (spanOf ts)) :
    Placed ts [f.declaration loc] :=
  h.node (h.ne_nil (by simp [FunctionParts.roots])) hrow hloc rfl (fun _ => rfl) (.refl _)

theorem FunctionParts.placed_expression {f : FunctionParts} {ts : List Token} (h : Placed ts f.roots)
    (hrow : Row ts) : Placed ts [f.expression (locOf (spanOf ts))] :=
  h.node (h.ne_nil (by simp [FunctionParts.roots])) hrow rfl rfl (fun _ => rfl) (.refl _)

/-- A method and its function are both located at the whole property. -/
theorem placed_methodNode {key : Node} {f : FunctionParts} {ts : List Token}
    (h : Placed ts ([key] ++ f.roots)) (hrow : Row ts) :
    Placed ts [methodNode (locOf (spanOf ts)) key f] := by
  have hne := h.ne_nil (List.cons_ne_nil key f.roots)
  have hfunction : Placed ts ([key] ++ [f.expression (locOf (spanOf ts))]) :=
    h.append_node hne hrow rfl rfl (fun _ => rfl) (.refl _)
  exact hfunction.node hne hrow rfl rfl (fun _ => rfl) (.refl _)

theorem placed_property {key : Node} {rest : PropertyRest} {ts : List Token} (hrow : Row ts) :
    Placed ts ([key] ++ rest.roots) → Placed ts [match rest with
      | .value node => propertyNode (locOf (spanOf ts)) key node false
      | .method f => methodNode (locOf (spanOf ts)) key f] := by
  intro h
  cases rest with
  | value node =>
    exact h.node (h.ne_nil (List.cons_ne_nil _ _)) hrow rfl rfl (fun _ => rfl) (.refl _)
  | method f => exact placed_methodNode h hrow

theorem placed_operandMeaning (l : Level) {meaning : CategoryMeaning (.operandOf l)}
    {ts : List Token} (h : Placed ts (roots (.operandOf l) meaning)) :
    Placed ts [combine.operandMeaning l meaning] := by
  cases l <;> exact h

/-- **Productions place nodes**: what a production makes of its parts is placed over the tokens of these.
-/
theorem combine_placed {n : Nonterminal} (p : Production n) {values : Values p.parts}
    {ts : List Token} (h : values.Sit ts) (hrow : Row ts) :
    Placed ts (roots n (combine p (spanOf ts) values)) := by
  cases p with
  | program =>
    obtain _ | ⟨hitems⟩ | _ := h
    exact hitems.placed
  | noItems | noImportMore | noAsName | noParameters | noMoreParameters | noStatements
  | noAlternative | noMoreDeclarators | noInitializer | noCases | noExpression | noLabel
  | shorthandPattern | noMoreOperands | noAccesses | noArguments | noMoreArguments | noMembers
  | noMoreMembers =>
    obtain _ | _ | _ := h
    exact .nil
  | moreItems | parameters | moreStatements | moreCases | arguments =>
    obtain _ | _ | ⟨hfirst, _ | ⟨hmore⟩ | _⟩ := h
    exact hfirst.placed.append hmore.placed
  | importItem =>
    obtain _ | _ | ⟨hword, _ | ⟨hrest⟩ | _⟩ := h
    exact ((hword.mark rfl).append hrest.placed).node (hword.append_ne_nil _) hrow rfl rfl
      (fun _ => rfl) (.refl _)
  | exportItem =>
    obtain _ | _ | ⟨hword, _ | _ | ⟨hdefault, _ | ⟨hfunction⟩ | _⟩⟩ := h
    have hdeclaration := FunctionParts.placed_declaration hfunction.placed
      (hrow.of_sublist ((List.sublist_append_right _ _).trans (List.sublist_append_right _ _)))
      (congrArg locOf hfunction.span)
    exact ((hword.mark rfl).append ((hdefault.mark rfl).append hdeclaration)).node
      (hword.append_ne_nil _) hrow rfl rfl (fun _ => rfl) (.refl _)
  | statementItem | groupClause | plainFunction | anonymousFunction | conditional | elseBlock
  | elseIf | someExpression | methodProperty =>
    obtain _ | ⟨honly⟩ | _ := h
    exact honly.placed
  | bareImport =>
    obtain _ | _ | ⟨hsource, _ | ⟨hend⟩ | _⟩ := h
    exact hsource.leaf.append_mark (hend.mark rfl)
  | boundImport =>
    obtain _ | _ | ⟨hclause, _ | _ | ⟨hfrom, _ | _ | ⟨hsource, _ | ⟨hend⟩ | _⟩⟩⟩ := h
    exact hclause.placed.append ((hfrom.mark rfl).append (hsource.leaf.append_mark (hend.mark rfl)))
  | defaultClause =>
    obtain _ | _ | ⟨hname, _ | ⟨hmore⟩ | _⟩ := h
    exact (placed_defaultSpecifier hname.meaning
      (hrow.of_sublist (List.sublist_append_left _ _))).append hmore.placed
  | importMore | functionRest | asyncFunction | alternative | initializer | renamedPattern
  | valueProperty | moreMembers =>
    obtain _ | _ | ⟨hmark, _ | ⟨hrest⟩ | _⟩ := h
    exact (hmark.mark rfl).mark_append hrest.placed
  | namedGroup | parentheses =>
    obtain _ | _ | ⟨hopen, _ | _ | ⟨hinner, _ | ⟨hclose⟩ | _⟩⟩ := h
    exact (hopen.mark rfl).mark_append (hinner.placed.append_mark (hclose.mark rfl))
  | namespaceGroup =>
    obtain _ | _ | ⟨hstar, _ | _ | ⟨has, _ | ⟨hname⟩ | _⟩⟩ := h
    exact ((hstar.mark rfl).append ((has.mark rfl).append hname.leaf)).node (hstar.append_ne_nil _)
      hrow rfl rfl (fun _ => rfl) (.refl _)
  | specifier =>
    obtain _ | _ | ⟨hname, _ | ⟨hlocal⟩ | _⟩ := h
    exact placed_specifier hname.leaf rfl hlocal.placed hrow
  | asName =>
    obtain _ | _ | ⟨has, _ | ⟨hname⟩ | _⟩ := h
    exact (has.mark rfl).mark_append hname.leaf
  | namedFunction =>
    obtain _ | _ | ⟨hname, _ | ⟨hsignature⟩ | _⟩ := h
    exact FunctionParts.placed_named hname.leaf hsignature.placed hsignature.contributes
  | signature =>
    obtain _ | _ | ⟨hopen, _ | _ | ⟨hparameters, _ | _ | ⟨hclose, _ | ⟨hblock⟩ | _⟩⟩⟩ := h
    exact (hopen.mark rfl).mark_append
      (hparameters.placed.append ((hclose.mark rfl).mark_append hblock.placed))
  | moreParameters | moreDeclarators | moreArguments =>
    obtain _ | _ | ⟨hcomma, _ | _ | ⟨hfirst, _ | ⟨hmore⟩ | _⟩⟩ := h
    exact (hcomma.mark rfl).mark_append (hfirst.placed.append hmore.placed)
  | block | returns | breaks | throws | objectPattern | object =>
    obtain _ | _ | ⟨hopen, _ | _ | ⟨hinner, _ | ⟨hclose⟩ | _⟩⟩ := h
    exact ((hopen.mark rfl).mark_append (hinner.placed.append_mark (hclose.mark rfl))).node
      (hopen.append_ne_nil _) hrow rfl rfl (fun _ => rfl) (.refl _)
  | arrayPattern | array =>
    obtain _ | _ | ⟨hopen, _ | _ | ⟨hinner, _ | ⟨hclose⟩ | _⟩⟩ := h
    exact ((hopen.mark rfl).mark_append (hinner.placed.append_mark (hclose.mark rfl))).node
      (hopen.append_ne_nil _) hrow rfl rfl (fun _ => rfl) (.of_eq (filterMap_map_some _))
  | declaration d =>
    obtain _ | _ | ⟨hword, _ | _ | ⟨hfirst, _ | _ | ⟨hmore, _ | ⟨hend⟩ | _⟩⟩⟩ := h
    have hword' := hword.mark (by cases d <;> rfl)
    exact (hword'.mark_append (hfirst.placed.append (hmore.placed.append_mark (hend.mark rfl)))).node
      (hword.append_ne_nil _) hrow rfl rfl (fun _ => rfl) (.refl _)
  | switch =>
    obtain _ | _ | ⟨hword, _ | _ | ⟨hopen, _ | _ | ⟨hdiscriminant, _ | _ | ⟨hclose, _ | _ |
      ⟨hbrace, _ | _ | ⟨hcases, _ | ⟨hend⟩ | _⟩⟩⟩⟩⟩⟩ := h
    exact ((hword.mark rfl).mark_append ((hopen.mark rfl).mark_append (hdiscriminant.placed.append
      ((hclose.mark rfl).mark_append ((hbrace.mark rfl).mark_append
        (hcases.placed.append_mark (hend.mark rfl))))))).node
      (hword.append_ne_nil _) hrow rfl rfl (fun _ => rfl) (.refl _)
  | expression =>
    obtain _ | _ | ⟨hexpression, _ | ⟨hend⟩ | _⟩ := h
    have hplaced := hexpression.placed.append_mark (hend.mark rfl)
    exact hplaced.node (hplaced.ne_nil (List.cons_ne_nil _ _)) hrow rfl rfl (fun _ => rfl) (.refl _)
  | ifStatement =>
    obtain _ | _ | ⟨hword, _ | _ | ⟨hopen, _ | _ | ⟨htest, _ | _ | ⟨hclose, _ | _ |
      ⟨hblock, _ | ⟨helse⟩ | _⟩⟩⟩⟩⟩ := h
    exact ((hword.mark rfl).mark_append ((hopen.mark rfl).mark_append (htest.placed.append
      ((hclose.mark rfl).mark_append (hblock.placed.append helse.placed))))).node
      (hword.append_ne_nil _) hrow rfl rfl (fun _ => rfl) (.refl _)
  | declarator =>
    obtain _ | _ | ⟨hpattern, _ | ⟨hinit⟩ | _⟩ := h
    have hplaced := hpattern.placed.append hinit.placed
    exact hplaced.node (hplaced.ne_nil (List.cons_ne_nil _ _)) hrow rfl rfl (fun _ => rfl) (.refl _)
  | testCase =>
    obtain _ | _ | ⟨hword, _ | _ | ⟨htest, _ | _ | ⟨hcolon, _ | ⟨hstatements⟩ | _⟩⟩⟩ := h
    exact ((hword.mark rfl).mark_append (htest.placed.append
      ((hcolon.mark rfl).mark_append hstatements.placed))).node
      (hword.append_ne_nil _) hrow rfl rfl (fun _ => rfl) (.refl _)
  | defaultCase =>
    obtain _ | _ | ⟨hword, _ | _ | ⟨hcolon, _ | ⟨hstatements⟩ | _⟩⟩ := h
    exact ((hword.mark rfl).mark_append ((hcolon.mark rfl).mark_append hstatements.placed)).node
      (hword.append_ne_nil _) hrow rfl rfl (fun _ => rfl) (.refl _)
  | label | namePattern | nameKey | stringKey | numberKey =>
    obtain _ | ⟨honly⟩ | _ := h
    exact honly.leaf
  | namedPropertyPattern =>
    obtain _ | _ | ⟨hname, _ | ⟨hrest⟩ | _⟩ := h
    exact placed_namedPattern hname.leaf rfl hrest.placed hrow
  | stringPropertyPattern | numberPropertyPattern =>
    obtain _ | _ | ⟨hkey, _ | _ | ⟨hcolon, _ | ⟨hpattern⟩ | _⟩⟩ := h
    exact (hkey.leaf.append ((hcolon.mark rfl).mark_append hpattern.placed)).node
      (hkey.append_ne_nil _) hrow rfl rfl (fun _ => rfl) (.refl _)
  | binary l =>
    obtain _ | _ | ⟨hoperand, _ | ⟨hmore⟩ | _⟩ := h
    exact placed_joinOperands l (placed_operandMeaning l hoperand.placed)
      (congrArg startOf hoperand.span.symm) hmore.contributes hrow
  | @moreOperands l o =>
    obtain _ | _ | ⟨hoperator, _ | _ | ⟨hoperand, _ | ⟨hmore⟩ | _⟩⟩ := h
    exact (hoperator.mark (by cases o <;> rfl)).mark_append
      ((placed_operandMeaning l hoperand.placed).append hmore.placed)
  | unary o =>
    obtain _ | _ | ⟨hoperator, _ | ⟨hargument⟩ | _⟩ := h
    have hplaced := (hoperator.mark (by cases o <;> rfl)).mark_append hargument.placed
    cases o <;> exact hplaced.node (hoperator.append_ne_nil _) hrow rfl rfl (fun _ => rfl) (.refl _)
  | operand =>
    obtain _ | _ | ⟨hprimary, _ | ⟨haccesses⟩ | _⟩ := h
    exact placed_joinAccesses hprimary.placed (congrArg startOf hprimary.span.symm)
      haccesses.contributes hrow
  | member =>
    obtain _ | _ | ⟨hdot, _ | _ | ⟨hname, _ | ⟨hmore⟩ | _⟩⟩ := h
    exact (hdot.mark rfl).mark_append (hname.leaf.append hmore.placed)
  | call =>
    obtain _ | _ | ⟨hopen, _ | _ | ⟨harguments, _ | _ | ⟨hclose, _ | ⟨hmore⟩ | _⟩⟩⟩ := h
    exact (hopen.mark rfl).mark_append
      (harguments.placed.append ((hclose.mark rfl).mark_append hmore.placed))
  | atom a =>
    obtain _ | ⟨honly⟩ | _ := h
    have hplaced := honly.leaf
    cases a <;> exact hplaced
  | functionExpression =>
    obtain _ | ⟨hfunction⟩ | _ := h
    exact FunctionParts.placed_expression hfunction.placed hrow
  | asyncMethod =>
    obtain _ | _ | ⟨hword, _ | _ | ⟨hkey, _ | ⟨hsignature⟩ | _⟩⟩ := h
    exact placed_methodNode
      ((hword.mark rfl).mark_append (hkey.placed.append hsignature.placed)) hrow
  | plainProperty =>
    obtain _ | _ | ⟨hkey, _ | ⟨hrest⟩ | _⟩ := h
    exact placed_property hrow (hkey.placed.append hrest.placed)
  | members s =>
    obtain _ | _ | ⟨hmember, _ | ⟨hrest⟩ | _⟩ := h
    have hplaced := hmember.placed.append hrest.placed
    cases s <;> exact hplaced

theorem stopOf_append {us vs : List Token} (hvs : vs ≠ []) :
    stopOf (spanOf (us ++ vs)) = stopOf (spanOf vs) := by
  cases us with
  | nil => rfl
  | cons u us => rw [spanOf_append_of_ne (List.cons_ne_nil u us) hvs]; rfl

theorem Value.Sits.stopOf_eq {t : Terminal} {place : Place} {v : Value (.tok t place)}
    {us : List Token} (h : v.Sits us) : stopOf (spanOf us) = v.meaning.token.stop := by
  rw [Leaf.Sits.tokens h.meaning]
  rfl

/-- What else productions contribute. -/
theorem combine_contributes {n : Nonterminal} (p : Production n) {values : Values p.parts}
    {ts : List Token} (h : values.Sit ts) : Contributes n (combine p (spanOf ts) values) ts := by
  cases p with
  | program =>
    obtain _ | ⟨_⟩ | _ := h
    rfl
  | signature =>
    obtain _ | _ | ⟨_, _ | _ | ⟨_, _ | _ | ⟨_, _ | ⟨_⟩ | _⟩⟩⟩ := h
    rfl
  | noMoreOperands | noAccesses =>
    obtain _ | _ | _ := h
    exact .nil
  | @moreOperands l o =>
    obtain _ | _ | ⟨hoperator, _ | _ | ⟨hoperand, _ | ⟨hmore⟩ | _⟩⟩ := h
    have hplaced := placed_operandMeaning l hoperand.placed
    have hne := hplaced.ne_nil (List.cons_ne_nil _ _)
    rw [← List.append_assoc]
    refine .cons ((hoperator.mark (by cases o <;> rfl)).mark_append hplaced)
      (hoperator.append_ne_nil _) ?_ hmore.contributes
    rw [stopOf_append hne, ← hoperand.span]
  | member =>
    obtain _ | _ | ⟨hdot, _ | _ | ⟨hname, _ | ⟨hmore⟩ | _⟩⟩ := h
    rw [← List.append_assoc]
    refine .cons ((hdot.mark rfl).mark_append hname.leaf) (hdot.append_ne_nil _) ?_ hmore.contributes
    exact (stopOf_append (Leaf.Sits.ne_nil hname.meaning)).trans hname.stopOf_eq
  | call =>
    obtain _ | _ | ⟨hopen, _ | _ | ⟨harguments, _ | _ | ⟨hclose, _ | ⟨hmore⟩ | _⟩⟩⟩ := h
    rw [← List.append_assoc, ← List.append_assoc]
    refine .cons (((hopen.mark rfl).mark_append harguments.placed).append_mark (hclose.mark rfl))
      (List.append_ne_nil_of_left_ne_nil (hopen.append_ne_nil _) _) ?_ hmore.contributes
    exact (stopOf_append (Leaf.Sits.ne_nil hclose.meaning)).trans hclose.stopOf_eq
  | _ => trivial

/-! ### Derivations -/

theorem Values.Sit.span_eq {ss : List Symbol} {values : Values ss} {ts : List Token}
    (h : values.Sit ts) : values.span = spanOf ts := by
  induction h with
  | nil => rfl
  | last hv =>
    rw [Values.span, hv.span]
    cases spanOf _ <;> rfl
  | cons hv _ ih => rw [Values.span, hv.span, ih, spanOf_append]

mutual

theorem Tree.value_sits {s : Symbol} (tree : Tree s) (hrow : Row tree.tokens) {v : Value s}
    (h : tree.value = .ok v) : v.Sits tree.tokens := by
  cases tree with
  | leaf token belongs =>
    obtain ⟨value, hvalue, rfl⟩ := Tree.value_leaf_eq_ok_iff.mp h
    exact ⟨rfl, rfl, belongs, hvalue⟩
  | node p children =>
    obtain ⟨values, hvalues, rfl⟩ := Tree.value_node_eq_ok_iff.mp h
    have hsit := children.values_sit hrow hvalues
    rw [hsit.span_eq]
    exact ⟨rfl, combine_placed p hsit hrow, combine_contributes p hsit⟩
termination_by structural tree

theorem Forest.values_sit {ss : List Symbol} (forest : Forest ss) (hrow : Row forest.tokens)
    {vs : Values ss} (h : forest.values = .ok vs) : vs.Sit forest.tokens := by
  cases forest with
  | nil =>
    cases h
    exact .nil
  | cons tree more =>
    have htree := hrow.of_sublist (List.sublist_append_left tree.tokens more.tokens)
    have hmore := hrow.of_sublist (List.sublist_append_right tree.tokens more.tokens)
    obtain ⟨value, values, hvalue, hvalues, rfl⟩ := Forest.values_cons_eq_ok_iff.mp h
    have hfirst := tree.value_sits htree hvalue
    have hrest := more.values_sit hmore hvalues
    cases values with
    | nil =>
      have hnil : more.tokens = [] := by
        generalize more.tokens = us at hrest
        cases hrest
        rfl
      rw [Forest.tokens, hnil, List.append_nil]
      exact .last hfirst
    | cons w rest => exact .cons hfirst hrest
termination_by structural forest

end

end RhoScript.Source
