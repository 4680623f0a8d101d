import RhoScript.Proofs.Freshness
import RhoScript.Proofs.Term.Forms

/-!
# Programs become actions

Expressions become data and statements become actions, so that what is written for a program can be read
back. For this the identifiers of the program have to be names, and no source of a system resource may
contain a backtick.

Main statement: such a tree is lowered to an action (`Lowers.isAction`).
-/

namespace RhoScript

open Lexeme

theorem Process.isAction_beside {p q : Process} (hp : IsAction p) (hq : IsAction q) :
    IsAction (.beside p q) := by
  cases p with
  | nil => simpa using hq
  | _ =>
    cases q with
    | nil => exact hp
    | _ => exact .par hp hq

theorem Process.isAction_besideAll {ps : List Process} (h : ∀ p ∈ ps, IsAction p) :
    IsAction (.besideAll ps) := by
  have hfold : ∀ (qs : List Process) (p : Process), IsAction p → (∀ q ∈ qs, IsAction q) →
      IsAction (qs.foldl Process.beside p) := by
    intro qs
    induction qs with
    | nil => exact fun p hp _ => hp
    | cons q rest ih =>
      intro p hp hqs
      obtain ⟨hq, hrest⟩ := List.forall_mem_cons.mp hqs
      exact ih _ (isAction_beside hp hq) hrest
  cases ps with
  | nil => exact .nil
  | cons p rest =>
    obtain ⟨hp, hrest⟩ := List.forall_mem_cons.mp h
    exact hfold rest p hp hrest

namespace Lowering

/-- The node is no identifier, or a name can be of that text. -/
def IsNamed (n : Node) : Prop := ∀ x, name? n = some x → IsName x

/-! ### Expressions and patterns -/

theorem operator?_mem {o o' : String} (h : operator? o = some o') : o' ∈ operators := by
  unfold operator? at h
  split at h <;> cases h <;> decide

mutual

/-- An expression becomes data. -/
theorem Evaluates.isData {n : Node} {p : Process} (h : Evaluates n p) (hn : n.Everywhere IsNamed) :
    IsData p := by
  match h with
  | .null => exact .nil
  | .literal => exact .ground _
  | .identifier => exact .drop (hn.here _ rfl)
  | .binary hoperator hleft hright | .logical hoperator hleft hright =>
    have hl := hleft.isData (hn.child List.mem_cons_self)
    have hr := hright.isData (hn.child (List.mem_cons_of_mem _ List.mem_cons_self))
    exact .binary (operator?_mem hoperator) hl hr
  | .bundlePlus hargument =>
    exact .unary (hargument.isData (hn.child (List.mem_cons_of_mem _ List.mem_cons_self)))
  | .tuple harguments =>
    exact .tuple (harguments.isData fun m hm => hn.child (List.mem_cons_of_mem _ hm))
  | .object hentries => exact .map (hentries.isData fun m hm => hn.child hm)
termination_by structural h

theorem EvaluatesAll.isData {ns : List Node} {ps : List Process} (h : EvaluatesAll ns ps)
    (hns : ∀ n ∈ ns, n.Everywhere IsNamed) : ∀ p ∈ ps, IsData p := by
  match h with
  | .nil => exact nofun
  | .cons hfirst hrest =>
    obtain ⟨hn, hns⟩ := List.forall_mem_cons.mp hns
    exact List.forall_mem_cons.mpr ⟨hfirst.isData hn, hrest.isData hns⟩
termination_by structural h

theorem Enters.isData {n : Node} {e : WideString × Process} (h : Enters n e)
    (hn : n.Everywhere IsNamed) : IsData e.2 := by
  match h with
  | .property hvalue =>
    exact hvalue.isData (hn.child (List.mem_cons_of_mem _ List.mem_cons_self))
termination_by structural h

theorem EntersAll.isData {ns : List Node} {es : List (WideString × Process)} (h : EntersAll ns es)
    (hns : ∀ n ∈ ns, n.Everywhere IsNamed) : ∀ e ∈ es, IsData e.2 := by
  match h with
  | .nil => exact nofun
  | .cons hfirst hrest =>
    obtain ⟨hn, hns⟩ := List.forall_mem_cons.mp hns
    exact List.forall_mem_cons.mpr ⟨hfirst.isData hn, hrest.isData hns⟩
termination_by structural h

end

theorem isPattern_of_toPattern {n : Node} {name : Name} (hn : n.Everywhere IsNamed)
    (h : toPattern n = .ok name) : IsPattern name := by
  obtain ⟨loc, x, rfl, rfl⟩ | ⟨loc, properties, ps, rfl, -, hps, rfl⟩ := toPattern_cases h
  · exact .var (hn.here x rfl)
  · exact .quote (.tuple (hps.isData (everywhere_propertyValues hn)))

/-! ### Messages -/

theorem Spelled.isName {x : String} (h : Spelled IsNamed x) : IsName x := by
  cases h with
  | console => exact ⟨by decide, 'c', by decide, by decide⟩
  | returns => exact ⟨by decide, '_', by decide, by decide⟩
  | identifier hx => exact hx x rfl

theorem isAction_sendTo {target : String} (htarget : IsName target) {arguments : List Process}
    (harguments : ∀ p ∈ arguments, IsData p) (method : Option String) :
    IsAction (sendTo target method arguments) := by
  cases method with
  | none => exact .send htarget harguments
  | some method =>
    exact .send htarget (List.forall_mem_cons.mpr ⟨.ground (.string method), harguments⟩)

/-! ### Reply channels -/

theorem isLetter_of_mem_toDigits {n : Nat} {c : Char} (h : c ∈ Nat.toDigits 10 n) :
    isLetter c = true :=
  isLetter_of (isNumeralPart_of_mem_toDigits h) (by decide)

theorem isLetter_of_mem_repr {n : Int} {c : Char} (h : c ∈ n.repr.toList) : isLetter c = true := by
  cases n with
  | ofNat m => exact isLetter_of_mem_toDigits (n := m) (by simpa [Int.repr] using h)
  | negSucc m =>
    obtain rfl | h := List.mem_cons.mp (by simpa [Int.repr] using h)
    · rfl
    · exact isLetter_of_mem_toDigits h

/-- The name of a reply channel can be read. -/
theorem isName_replyChannel {n : Node} (h : n.type ∈ replyTypes) (k : Nat) :
    IsName (replyChannel n k) := by
  have htypes : ∀ type ∈ replyTypes, IsWord type ∧
      ∃ c rest, type.toList = c :: rest ∧ Source.isNameStart c = true := by
    intro type htype
    simp only [replyTypes, List.mem_cons, List.not_mem_nil, or_false] at htype
    obtain rfl | rfl := htype <;> exact ⟨by decide, _, _, rfl, by decide⟩
  obtain ⟨⟨-, hletters⟩, d, rest, htype, hstart⟩ := htypes n.type h
  have htext : (replyChannel n k).toList = d :: (rest ++ '_' :: (n.position.line.repr.toList ++ 'c' ::
      (n.position.column.repr.toList ++ '_' :: Nat.toDigits 10 k))) := by
    simp [replyChannel, Position.label, toString, htype]
  refine ⟨⟨by simp [htext], fun c hc => ?_⟩, d, by simp [htext], hstart⟩
  have hmem : c ∈ n.type.toList ∨ c = '_' ∨ c ∈ n.position.line.repr.toList ∨ c = 'c' ∨
      c ∈ n.position.column.repr.toList ∨ c = '_' ∨ c ∈ Nat.toDigits 10 k := by
    simpa [htext, htype, or_assoc] using hc
  obtain hc | rfl | hc | rfl | hc | rfl | hc := hmem
  · exact hletters c hc
  · rfl
  · exact isLetter_of_mem_repr hc
  · rfl
  · exact isLetter_of_mem_repr hc
  · rfl
  · exact isLetter_of_mem_toDigits hc

theorem type_mem_replyTypes {r : Request} (hlabel : r.IsLabelled) (hcall : isCall r.call = true) :
    r.label.type ∈ replyTypes := by
  obtain hlabel | hlabel := hlabel
  · simp [hlabel, replyTypes]
  · rw [hlabel]
    cases hr : r.call
    case callExpression => exact List.mem_cons_of_mem _ List.mem_cons_self
    all_goals
      rw [hr] at hcall
      cases hcall

theorem Requested.channels_ne_nil {rs : List Request} {k : Nat} {channels : List String}
    {sends : List Process} {clauses : List (List Name × Name)}
    (h : Requested rs k channels sends clauses) (hne : sends ≠ []) : channels ≠ [] := by
  cases h with
  | nil => exact absurd rfl hne
  | cons => exact List.cons_ne_nil _ _

/-- The channels, sends and clauses of requests whose patterns and calls are named. -/
theorem Requested.isAction {rs : List Request} {k : Nat} {channels : List String}
    {sends : List Process} {clauses : List (List Name × Name)}
    (h : Requested rs k channels sends clauses) (hlabels : ∀ r ∈ rs, r.IsLabelled)
    (hrs : ∀ r ∈ rs, r.Everywhere IsNamed) :
    (∀ c ∈ channels, IsName c) ∧ (∀ p ∈ sends, IsAction p) ∧ ∀ c ∈ clauses, IsClause c := by
  induction h with
  | nil => simp
  | @cons r rs k pattern send name channels sends clauses hsend hpattern hname hrest ih =>
    obtain ⟨hlabel, hlabels⟩ := List.forall_mem_cons.mp hlabels
    obtain ⟨⟨hcall, hnamed⟩, hrs⟩ := List.forall_mem_cons.mp hrs
    obtain ⟨hchannels, hsends, hclauses⟩ := ih hlabels hrs
    simp only [eventualSend, except_bind_eq_ok, except_pure_eq_ok] at hsend
    obtain ⟨call, heventual, arguments, harguments, rfl⟩ := hsend
    obtain ⟨htarget, -, hnodes⟩ := everywhere_of_eventualCall hcall heventual
    have hchannel : IsName (replyChannel r.label k) :=
      isName_replyChannel (type_mem_replyTypes hlabel (isCall_of_eventualCall heventual)) k
    have hdata := (evaluatesAll_of_toProcesses _ harguments).isData hnodes
    refine ⟨List.forall_mem_cons.mpr ⟨hchannel, hchannels⟩,
      List.forall_mem_cons.mpr ⟨isAction_sendTo htarget.isName ?_ call.method, hsends⟩,
      List.forall_mem_cons.mpr ⟨⟨?_, _, hchannel, rfl⟩, hclauses⟩⟩
    · exact List.forall_mem_append.mpr ⟨hdata, List.forall_mem_singleton.mpr (.drop hchannel)⟩
    · exact List.forall_mem_singleton.mpr (isPattern_of_toPattern (hnamed pattern hpattern) hname)

/-! ### Statements -/

theorem Ends.isAction {s : Node} {p : Process} (h : Ends s p) (hs : s.Everywhere IsNamed) :
    IsAction p := by
  cases h with
  | message _ hcall harguments =>
    obtain ⟨htarget, -, hnodes⟩ := everywhere_of_eventualCall (hs.child List.mem_cons_self) hcall
    exact isAction_sendTo htarget.isName ((evaluatesAll_of_toProcesses _ harguments).isData hnodes) _
  | answer hvalue =>
    have hdata := (evaluates_of_toProcess _ hvalue).isData (hs.child List.mem_cons_self)
    exact .send Spelled.returns.isName (List.forall_mem_singleton.mpr hdata)
  | done => exact .send Spelled.returns.isName (List.forall_mem_singleton.mpr .nil)

theorem isPattern_formals {method : WideString} {params : List String}
    (h : ∀ x ∈ params, Spelled IsNamed x) : ∀ n ∈ formals method params, IsPattern n := by
  have hvars : ∀ {xs : List String}, (∀ x ∈ xs, Spelled IsNamed x) →
      ∀ n ∈ xs.map Name.var, IsPattern n :=
    fun h => List.forall_mem_map.mpr fun x hx => .var (h x hx).isName
  refine List.forall_mem_append.mpr
    ⟨List.forall_mem_cons.mpr ⟨.quote (.ground (.string method)), hvars h⟩, ?_⟩
  split
  · exact nofun
  · exact List.forall_mem_singleton.mpr (.var Spelled.returns.isName)

mutual

theorem Blocks.isAction {body : List Node} {k k' : Nat} {p : Process} {ds : List Diagnostic}
    (h : Blocks body k p k' ds) (hbody : ∀ s ∈ body, s.Everywhere IsNamed) : IsAction p := by
  match h with
  | .nil => exact .nil
  | .last hends => exact hends.isAction (hbody _ List.mem_cons_self)
  | .cons hopens hblocks =>
    obtain ⟨hs, hrest⟩ := List.forall_mem_cons.mp hbody
    exact hopens.isAction hs (hblocks.isAction hrest)
termination_by structural h

theorem Opens.isAction {s : Node} {k k' : Nat} {p q : Process} {ds : List Diagnostic}
    (h : Opens s k q p k' ds) (hs : s.Everywhere IsNamed) (hq : IsAction q) : IsAction p := by
  match h with
  | .log hlog hvalue =>
    have hargument := everywhere_of_loggedArgument? (hs.child List.mem_cons_self) hlog
    have hdata := (evaluates_of_toProcess _ hvalue).isData hargument
    exact Process.isAction_beside (.send Spelled.console.isName (List.forall_mem_singleton.mpr hdata)) hq
  | .soft _ => exact Process.isAction_beside (.placeholder _) hq
  | .switch hspecimen hcases =>
    have hdata := (evaluates_of_toProcess _ hspecimen).isData (hs.child List.mem_cons_self)
    obtain ⟨hpatterns, hbodies⟩ := hcases.isAction fun c hc => hs.child (List.mem_cons_of_mem _ hc)
    exact Process.isAction_beside (.select hdata hpatterns hbodies) hq
  | .await hrequested hpatterns hne =>
    obtain ⟨hid, hawait⟩ := everywhere_of_constant hs
    obtain ⟨hchannels, hsends, hclauses⟩ :=
      hrequested.isAction (fun r hr => isLabelled_of_mem_requests hr)
        (everywhere_of_requests hid (hawait.child List.mem_cons_self))
    exact .new (by simpa using hrequested.channels_ne_nil hne)
      (List.forall_mem_map.mpr fun c hc => hchannels c hc)
      (Process.isAction_beside (Process.isAction_besideAll hsends) (.receive hclauses hq))
  | .channel =>
    obtain ⟨hid, -⟩ := everywhere_of_constant hs
    exact .new (List.cons_ne_nil _ _) (List.forall_mem_singleton.mpr (hid.here _ rfl)) hq
  | .suite hmethods =>
    obtain ⟨hid, hcall⟩ := everywhere_of_constant hs
    have hobject := hcall.child (List.mem_cons_of_mem _ List.mem_cons_self)
    have htarget := hid.here _ rfl
    have hcontracts := hmethods.isAction htarget fun m hm => hobject.child hm
    exact .new (List.cons_ne_nil _ _) (List.forall_mem_singleton.mpr htarget)
      (Process.isAction_besideAll
        (List.forall_mem_append.mpr ⟨hcontracts, List.forall_mem_singleton.mpr hq⟩))
  | .literal hspecimen =>
    obtain ⟨hid, hvalue⟩ := everywhere_of_constant hs
    exact .select ((evaluates_of_toProcess _ hspecimen).isData hvalue)
      (List.forall_mem_singleton.mpr (.drop (hid.here _ rfl))) (List.forall_mem_singleton.mpr hq)
termination_by structural h

theorem Cases.isAction {cases : List Node} {k k' : Nat} {bodies : List (Process × Process)}
    {ds : List Diagnostic} (h : Cases cases k bodies k' ds)
    (hcases : ∀ c ∈ cases, c.Everywhere IsNamed) :
    (∀ c ∈ bodies, IsData c.1) ∧ ∀ c ∈ bodies, IsAction c.2 := by
  match h with
  | .nil => exact ⟨nofun, nofun⟩
  | .cons hpattern hblocks hrest =>
    obtain ⟨hc, htail⟩ := List.forall_mem_cons.mp hcases
    obtain ⟨hpatterns, hbodies⟩ := hrest.isAction htail
    have hdata := (evaluates_of_toProcess _ hpattern).isData (hc.child List.mem_cons_self)
    have hbody := hblocks.isAction fun s hs => hc.child (List.mem_cons_of_mem _ hs)
    exact ⟨List.forall_mem_cons.mpr ⟨hdata, hpatterns⟩, List.forall_mem_cons.mpr ⟨hbody, hbodies⟩⟩
termination_by structural h

theorem Methods.isAction {target : String} {properties : List Node} {k k' : Nat}
    {contracts : List Process} {ds : List Diagnostic}
    (h : Methods target properties k contracts k' ds) (htarget : IsName target)
    (hproperties : ∀ m ∈ properties, m.Everywhere IsNamed) : ∀ p ∈ contracts, IsAction p := by
  match h with
  | .nil => exact nofun
  | .cons _ hnames hbody hblocks hrest =>
    obtain ⟨hproperty, htail⟩ := List.forall_mem_cons.mp hproperties
    have hfunction := hproperty.child (List.mem_cons_of_mem _ List.mem_cons_self)
    have hparams := spelled_of_identifierNames
      (fun m hm => hfunction.child (by simp [Node.children, hm])) hnames
    have hstatements := everywhere_of_bodyStatements?
      (hfunction.child (by simp [Node.children])) hbody
    exact List.forall_mem_cons.mpr
      ⟨.contract htarget (isPattern_formals hparams) (hblocks.isAction hstatements),
        hrest.isAction htarget htail⟩
termination_by structural h

end

/-! ### Whole trees -/

/-- The source of a system resource that an import is from. -/
def resourceSource? : Node → Option WideString
  | .importDeclaration _ _ (.literal _ (some (.string uri)) _) =>
    if isResource uri then some uri else none
  | _ => none

/-- The sources of the system resources that a program imports. -/
def resourceSources : Node → List WideString
  | .program _ items => items.filterMap resourceSource?
  | _ => []

/-- An import binds nothing, or one resource: the source that it is from. -/
theorem importBindings_cases {n : Node} {bindings : List Binding} (h : importBindings n = .ok bindings) :
    bindings = [] ∨ ∃ x, ∃ uri ∈ resourceSource? n, bindings = [.resource x uri] := by
  cases n
  case importDeclaration loc specifiers source =>
    cases source
    case literal lloc value raw =>
      simp only [importBindings, literalValue, except_bind_eq_ok, Except.ok.injEq,
        exists_eq_left'] at h
      split at h
      · rename_i uri
        split at h
        · rename_i hscheme
          unfold resourceBinding at h
          split at h
          · simp only [except_bind_eq_ok, except_pure_eq_ok] at h
            obtain ⟨name, -, rfl⟩ := h
            exact .inr ⟨name, uri, by simp [resourceSource?, hscheme], rfl⟩
          · cases h
        · split at h
          · cases h
          · simp only [except_bind_eq_ok] at h
            obtain ⟨names, -, h⟩ := h
            split at h
            · exact .inl (except_pure_eq_ok.mp h).symm
            · cases h
      · cases h
    all_goals cases h
  all_goals cases h

theorem mem_resourceSource? {n : Node} {bindings : List Binding} {x : String}
    {uri : WideString} (h : importBindings n = .ok bindings) (hmem : .resource x uri ∈ bindings) :
    uri ∈ resourceSource? n := by
  obtain rfl | ⟨y, uri', huri, rfl⟩ := importBindings_cases h
  · cases hmem
  · cases List.mem_singleton.mp hmem
    exact huri

theorem isSpelled_of_importBindings {n : Node} {bindings : List Binding} (hn : n.Everywhere IsNamed)
    (huri : ∀ uri ∈ resourceSource? n, .char '\x60' ∉ uri) (h : importBindings n = .ok bindings) :
    ∀ b ∈ bindings, b.IsSpelled := by
  have hspelled := spelled_of_importBindings hn h
  intro b hb
  cases b with
  | plain x => exact (hspelled _ hb).isName
  | resource x uri => exact ⟨(hspelled _ hb).isName, huri uri (mem_resourceSource? h hb)⟩

theorem isSpelled_of_importsBindings {ns : List Node} {bindings : List Binding}
    (hns : ∀ n ∈ ns, n.Everywhere IsNamed)
    (huris : ∀ uri ∈ ns.filterMap resourceSource?, .char '\x60' ∉ uri)
    (h : importsBindings ns = .ok bindings) : ∀ b ∈ bindings, b.IsSpelled := by
  induction ns generalizing bindings with
  | nil =>
    cases h
    exact nofun
  | cons n rest ih =>
    simp only [importsBindings, except_bind_eq_ok, except_pure_eq_ok] at h
    obtain ⟨bs, hbs, cs, hcs, rfl⟩ := h
    obtain ⟨hn, hrest⟩ := List.forall_mem_cons.mp hns
    have hmem : ∀ m ∈ n :: rest, ∀ uri ∈ resourceSource? m, .char '\x60' ∉ uri :=
      fun m hm uri huri => huris uri (List.mem_filterMap.mpr ⟨m, hm, huri⟩)
    refine List.forall_mem_append.mpr
      ⟨isSpelled_of_importBindings hn (hmem n List.mem_cons_self) hbs, ih hrest ?_ hcs⟩
    intro uri huri
    obtain ⟨m, hm, huri⟩ := List.mem_filterMap.mp huri
    exact hmem m (List.mem_cons_of_mem n hm) uri huri

/-- A program becomes an action, if its identifiers are names and its resources have no backtick in
their sources. -/
theorem Lowers.isAction {loc : Loc} {items : List Node} {p : Process} {k : Nat} {ds : List Diagnostic}
    (h : Lowers (.program loc items) p k ds) (hn : (Node.program loc items).Everywhere IsNamed)
    (huris : ∀ uri ∈ resourceSources (.program loc items), .char '\x60' ∉ uri) : IsAction p := by
  cases h with
  | empty => exact .nil
  | program _ hbindings hblocks =>
    have himports : ∀ m ∈ items.takeWhile isImport, m.Everywhere IsNamed :=
      fun m hm => hn.child ((List.takeWhile_sublist _).mem hm)
    have hspelled := isSpelled_of_importsBindings himports
      (fun uri hmem => huris uri (((List.takeWhile_sublist _).filterMap _).mem hmem)) hbindings
    refine .new (by simp) (List.forall_mem_append.mpr ⟨hspelled, List.forall_mem_singleton.mpr ?_⟩)
      (hblocks.isAction (everywhere_of_programStatements hn))
    exact ⟨Spelled.console.isName, by decide⟩
  | other hwhole => cases hwhole

end Lowering

end RhoScript
