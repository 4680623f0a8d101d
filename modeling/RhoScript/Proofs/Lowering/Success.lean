import RhoScript.Proofs.Lowering.Subset

/-!
# When parts of lowering succeed

`SucceedsIff x P` and `AcceptsIff m P` say of a part without and with a ledger that it succeeds if `P`,
and only then; of a part with a ledger, from whatever ledger. Parts that are put together succeed if
both do, so the order in which they run, and what they leave behind, plays no role.

Expressions, patterns and messages are lowered if they are of the supported subset.
-/

namespace RhoScript.Lowering

open Subset

section Parts

variable {α β : Type} {P Q : Prop}

/-- The part succeeds if and only if `P`. -/
def SucceedsIff (x : Except Failure α) (P : Prop) : Prop := (∃ a, x = .ok a) ↔ P

/-- The part succeeds if and only if `P`, whatever the ledger. -/
def AcceptsIff (m : LowerM α) (P : Prop) : Prop := ∀ l, (∃ a l', Yields m l a l') ↔ P

theorem SucceedsIff.congr {x : Except Failure α} (h : P ↔ Q) (hx : SucceedsIff x P) :
    SucceedsIff x Q := Iff.trans hx h

theorem AcceptsIff.congr {m : LowerM α} (h : P ↔ Q) (hm : AcceptsIff m P) : AcceptsIff m Q :=
  fun l => (hm l).trans h

theorem succeedsIff_ok {a : α} (h : P) : SucceedsIff (.ok a) P := iff_of_true ⟨a, rfl⟩ h

theorem succeedsIff_error {e : Failure} (h : ¬ P) :
    SucceedsIff (.error e : Except Failure α) P := by
  refine iff_of_false ?_ h
  rintro ⟨a, ha⟩
  cases ha

theorem succeedsIff_bind {x : Except Failure α} {f : α → Except Failure β} (hx : SucceedsIff x P)
    (hf : ∀ a, x = .ok a → SucceedsIff (f a) Q) : SucceedsIff (x >>= f) (P ∧ Q) := by
  cases x with
  | error e =>
    apply succeedsIff_error
    rintro ⟨hp, -⟩
    obtain ⟨a, ha⟩ := hx.mpr hp
    cases ha
  | ok a =>
    have hp : P := hx.mp ⟨a, rfl⟩
    exact (hf a rfl).trans (iff_and_self.mpr fun _ => hp)

/-- What a part gives is only put together. -/
theorem succeedsIff_map {x : Except Failure α} {f : α → β} (hx : SucceedsIff x P) :
    SucceedsIff (x >>= fun a => pure (f a)) P :=
  .congr (iff_of_eq (and_true P)) (succeedsIff_bind hx fun _ _ => succeedsIff_ok trivial)

/-- A part that goes through a list succeeds if it does for every member. -/
theorem succeedsIff_each {γ : Type} (g : List α → Except Failure γ) {f : α → Except Failure β} {z : γ}
    {join : β → γ → γ} {R : α → Prop} (hnil : g [] = .ok z)
    (hcons : ∀ a rest, g (a :: rest) = do return join (← f a) (← g rest))
    (hf : ∀ a, SucceedsIff (f a) (R a)) (as : List α) : SucceedsIff (g as) (∀ a ∈ as, R a) := by
  induction as with
  | nil =>
    rw [hnil]
    exact succeedsIff_ok (by simp)
  | cons a rest ih =>
    rw [hcons]
    exact .congr List.forall_mem_cons.symm
      (succeedsIff_bind (hf a) fun _ _ => succeedsIff_map ih)

theorem acceptsIff_pure {a : α} (h : P) : AcceptsIff (pure a) P :=
  fun l => iff_of_true ⟨a, l, yields_pure.mpr ⟨rfl, rfl⟩⟩ h

theorem acceptsIff_throw {e : Failure} (h : ¬ P) : AcceptsIff (throw e : LowerM α) P := by
  intro l
  refine iff_of_false ?_ h
  rintro ⟨a, l', hyields⟩
  exact not_yields_throw hyields

theorem acceptsIff_throw_bind {e : Failure} {f : α → LowerM β} (h : ¬ P) :
    AcceptsIff (throw e >>= f) P := acceptsIff_throw h

theorem acceptsIff_lift {x : Except Failure α} (hx : SucceedsIff x P) : AcceptsIff (liftM x) P := by
  intro l
  refine Iff.trans ?_ hx
  simp [yields_lift]

theorem acceptsIff_bind_of_yields {m : LowerM α} {f : α → LowerM β} (hm : AcceptsIff m P)
    (hf : ∀ l a l', Yields m l a l' → AcceptsIff (f a) Q) : AcceptsIff (m >>= f) (P ∧ Q) := by
  intro l
  simp only [yields_bind]
  constructor
  · rintro ⟨b, l', a, l₁, hma, hfa⟩
    exact ⟨(hm l).mp ⟨a, l₁, hma⟩, (hf l a l₁ hma l₁).mp ⟨b, l', hfa⟩⟩
  · rintro ⟨hp, hq⟩
    obtain ⟨a, l₁, hma⟩ := (hm l).mpr hp
    obtain ⟨b, l', hfa⟩ := (hf l a l₁ hma l₁).mpr hq
    exact ⟨b, l', a, l₁, hma, hfa⟩

theorem acceptsIff_bind {m : LowerM α} {f : α → LowerM β} (hm : AcceptsIff m P)
    (hf : ∀ a, AcceptsIff (f a) Q) : AcceptsIff (m >>= f) (P ∧ Q) :=
  acceptsIff_bind_of_yields hm fun _ a _ _ => hf a

theorem acceptsIff_lift_bind {x : Except Failure α} {f : α → LowerM β} (hx : SucceedsIff x P)
    (hf : ∀ a, x = .ok a → AcceptsIff (f a) Q) : AcceptsIff (liftM x >>= f) (P ∧ Q) :=
  acceptsIff_bind_of_yields (acceptsIff_lift hx) fun _ a _ h => hf a (yields_lift.mp h).1

theorem acceptsIff_ite {c : Prop} [Decidable c] {a : α} {e : Failure} :
    AcceptsIff (if c then pure a else throw e : LowerM α) c := by
  split
  · rename_i h
    exact acceptsIff_pure h
  · rename_i h
    exact acceptsIff_throw h

theorem acceptsIff_map {m : LowerM α} {f : α → β} (hm : AcceptsIff m P) :
    AcceptsIff (m >>= fun a => pure (f a)) P :=
  .congr (iff_of_eq (and_true P)) (acceptsIff_bind hm fun _ => acceptsIff_pure trivial)

theorem acceptsIff_freshChannel (n : Node) : AcceptsIff (freshChannel n) True :=
  fun _ => iff_of_true ⟨_, _, yields_freshChannel.mpr ⟨rfl, rfl⟩⟩ trivial

theorem acceptsIff_freshChannels (ns : List Node) : AcceptsIff (freshChannels ns) True := by
  induction ns with
  | nil => exact acceptsIff_pure trivial
  | cons n rest ih =>
    exact .congr (iff_of_eq (and_true True))
      (acceptsIff_bind (acceptsIff_freshChannel n) fun _ => acceptsIff_map ih)

/-- A placeholder may stand anywhere. -/
theorem acceptsIff_replace (expected : String) (n : Node) : AcceptsIff (replace expected n) True :=
  fun _ => iff_of_true ⟨_, _, yields_replace.mpr ⟨rfl, rfl⟩⟩ trivial

end Parts

/-! ### Expressions and patterns -/

theorem exists_operator? {o : String} : (∃ o', operator? o = some o') ↔ o ∈ Subset.operators := by
  unfold operator?
  split <;> simp_all [Subset.operators]

theorem succeedsIff_identifierName (n : Node) :
    SucceedsIff (identifierName n) (∃ loc x, n = .identifier loc x) := by
  cases n
  case identifier loc x => exact succeedsIff_ok ⟨loc, x, rfl⟩
  all_goals
    apply succeedsIff_error
    rintro ⟨_, _, h⟩
    cases h

theorem succeedsIff_identifierNames (ns : List Node) :
    SucceedsIff (identifierNames ns) (∀ n ∈ ns, ∃ loc x, n = .identifier loc x) :=
  succeedsIff_each identifierNames rfl (fun _ _ => rfl) succeedsIff_identifierName ns

theorem succeedsIff_of_toProcesses_singleton {n : Node} {P : Prop}
    (h : SucceedsIff (toProcesses [n]) P) : SucceedsIff (toProcess n) P := by
  refine Iff.trans ?_ h
  simp only [toProcesses, except_bind_eq_ok, except_pure_eq_ok]
  constructor
  · rintro ⟨p, hp⟩
    exact ⟨[p], p, hp, [], rfl, rfl⟩
  · rintro ⟨_, p, hp, -⟩
    exact ⟨p, hp⟩

/-- An operator with its operands. -/
theorem succeedsIff_operands {operator : String} {left right : Node} {e : Failure} {P Q : Prop}
    (hleft : SucceedsIff (toProcess left) P) (hright : SucceedsIff (toProcess right) Q) :
    SucceedsIff (match operator? operator with
      | none => .error e
      | some operator => return Process.binary operator (← toProcess left) (← toProcess right))
      (operator ∈ Subset.operators ∧ P ∧ Q) := by
  split
  · rename_i hnone
    apply succeedsIff_error
    rintro ⟨hmem, -⟩
    obtain ⟨o, ho⟩ := exists_operator?.mpr hmem
    rw [hnone] at ho
    cases ho
  · rename_i o ho
    have hmem : operator ∈ Subset.operators := exists_operator?.mp ⟨o, ho⟩
    exact .congr (iff_and_self.mpr fun _ => hmem)
      (succeedsIff_bind hleft fun _ _ => succeedsIff_map hright)

theorem expression_call {loc nloc : Loc} {name : String} {arguments : List Node} :
    Expression (.callExpression loc (.identifier nloc name) arguments) ↔
      (name = "bundlePlus" ∧ ∃ n, arguments = [n] ∧ Expression n) ∨
        (name = "tuple" ∧ ∀ n ∈ arguments, Expression n) := by
  constructor
  · intro h
    cases h with
    | bundlePlus h => exact .inl ⟨rfl, _, rfl, h⟩
    | tuple h => exact .inr ⟨rfl, h⟩
  · rintro (⟨rfl, n, rfl, h⟩ | ⟨rfl, h⟩)
    · exact .bundlePlus h
    · exact .tuple h

mutual

theorem succeedsIff_toProcess (n : Node) : SucceedsIff (toProcess n) (Expression n) := by
  cases n
  case literal loc value raw => cases value <;> exact succeedsIff_ok .literal
  case identifier loc name => exact succeedsIff_ok .identifier
  case binaryExpression loc operator left right =>
    rw [toProcess]
    refine .congr ⟨?_, ?_⟩
      (succeedsIff_operands (succeedsIff_toProcess left) (succeedsIff_toProcess right))
    · rintro ⟨hop, hleft, hright⟩
      exact .binary hop hleft hright
    · intro h
      cases h with
      | binary hop hleft hright => exact ⟨hop, hleft, hright⟩
  case logicalExpression loc operator left right =>
    rw [toProcess]
    refine .congr ⟨?_, ?_⟩
      (succeedsIff_operands (succeedsIff_toProcess left) (succeedsIff_toProcess right))
    · rintro ⟨hop, hleft, hright⟩
      exact .logical hop hleft hright
    · intro h
      cases h with
      | logical hop hleft hright => exact ⟨hop, hleft, hright⟩
  case callExpression loc callee arguments =>
    have harguments := succeedsIff_toProcesses arguments
    cases callee
    case identifier nloc name =>
      refine .congr expression_call.symm ?_
      unfold toProcess
      simp only [name?]
      by_cases hbundle : name = "bundlePlus"
      · subst hbundle
        rw [if_pos rfl]
        split
        · exact .congr (by simp)
            (succeedsIff_map (succeedsIff_of_toProcesses_singleton harguments))
        · rename_i hne
          exact succeedsIff_error (by simpa using fun a ha => absurd ha (hne a))
      · rw [if_neg hbundle]
        by_cases htuple : name = "tuple"
        · subst htuple
          rw [if_pos rfl]
          exact .congr (by simp) (succeedsIff_map harguments)
        · rw [if_neg htuple]
          exact succeedsIff_error (by simp [hbundle, htuple])
    all_goals
      apply succeedsIff_error
      intro h
      cases h
  case objectExpression loc properties =>
    refine .congr ⟨?_, ?_⟩ (succeedsIff_map (succeedsIff_toEntries properties))
    · intro h
      exact .object h
    · intro h
      cases h with
      | object h => exact h
  all_goals
    apply succeedsIff_error
    intro h
    cases h
termination_by structural n

theorem succeedsIff_toProcesses (ns : List Node) :
    SucceedsIff (toProcesses ns) (∀ n ∈ ns, Expression n) := by
  cases ns with
  | nil => exact succeedsIff_ok (by simp)
  | cons n rest =>
    exact .congr List.forall_mem_cons.symm (succeedsIff_bind (succeedsIff_toProcess n) fun _ _ =>
      succeedsIff_map (succeedsIff_toProcesses rest))
termination_by structural ns

theorem succeedsIff_toEntry (n : Node) : SucceedsIff (toEntry n) (Entry n) := by
  cases n
  case property loc key value kind method shorthand computed =>
    have hvalue := succeedsIff_toProcess value
    unfold toEntry
    split
    · rename_i hmethod
      subst hmethod
      exact succeedsIff_error nofun
    · rename_i hmethod
      obtain rfl := Bool.eq_false_iff.mpr hmethod
      split
      · refine .congr ⟨?_, ?_⟩ (succeedsIff_map hvalue)
        · intro h
          exact .property h
        · intro h
          cases h with
          | property h => exact h
      · rename_i hkey
        apply succeedsIff_error
        intro h
        cases h
        exact hkey _ _ _ rfl
  all_goals
    apply succeedsIff_error
    intro h
    cases h
termination_by structural n

theorem succeedsIff_toEntries (ns : List Node) :
    SucceedsIff (toEntries ns) (∀ n ∈ ns, Entry n) := by
  cases ns with
  | nil => exact succeedsIff_ok (by simp)
  | cons n rest =>
    exact .congr List.forall_mem_cons.symm (succeedsIff_bind (succeedsIff_toEntry n) fun _ _ =>
      succeedsIff_map (succeedsIff_toEntries rest))
termination_by structural ns

end

theorem propertyKey?_eq_some_iff {loc : Loc} {key value : Node} {kind : String} {name : WideString}
    {method shorthand computed : Bool} :
    propertyKey? (.property loc key value kind method shorthand computed) = some name ↔
      Key key name ∧ computed = false := by
  constructor
  · intro h
    simp only [propertyKey?] at h
    split at h
    · rename_i heq
      injection heq with _ hkey _ _ _ _ hcomputed
      subst hkey hcomputed
      split at h <;> cases h
      · exact ⟨.plain, rfl⟩
      · exact ⟨.string, rfl⟩
    · cases h
  · rintro ⟨hkey, rfl⟩
    cases hkey <;> rfl

theorem components_iff {i : Nat} {properties : List Node} :
    Components i properties ↔
      tupleKeys i properties = true ∧ ∀ n ∈ propertyValues properties, Expression n := by
  induction properties generalizing i with
  | nil => exact iff_of_true .nil ⟨rfl, by simp [propertyValues]⟩
  | cons p rest ih =>
    cases p
    case property loc key value kind method shorthand computed =>
      simp only [tupleKeys, propertyValues, Bool.and_eq_true, beq_iff_eq, propertyKey?_eq_some_iff,
        List.forall_mem_cons]
      constructor
      · intro h
        cases h with
        | cons hkey hvalue hrest =>
          obtain ⟨hkeys, hvalues⟩ := ih.mp hrest
          exact ⟨⟨⟨hkey, rfl⟩, hkeys⟩, hvalue, hvalues⟩
      · rintro ⟨⟨⟨hkey, rfl⟩, hkeys⟩, hvalue, hvalues⟩
        exact .cons hkey hvalue (ih.mpr ⟨hkeys, hvalues⟩)
    all_goals exact iff_of_false nofun nofun

theorem succeedsIff_toPattern (n : Node) : SucceedsIff (toPattern n) (Pattern n) := by
  cases n
  case identifier loc name => exact succeedsIff_ok .identifier
  case objectPattern loc properties =>
    rw [toPattern]
    split
    · rename_i hkeys
      refine .congr ⟨?_, ?_⟩ (succeedsIff_map (succeedsIff_toProcesses (propertyValues properties)))
      · intro hvalues
        exact .tuple (components_iff.mpr ⟨hkeys, hvalues⟩)
      · intro h
        cases h with
        | tuple h => exact (components_iff.mp h).2
    · rename_i hkeys
      apply succeedsIff_error
      intro h
      cases h with
      | tuple h => exact hkeys (components_iff.mp h).1
  all_goals
    apply succeedsIff_error
    intro h
    cases h

theorem succeedsIff_toPatterns (ns : List Node) :
    SucceedsIff (toPatterns ns) (∀ n ∈ ns, Pattern n) :=
  succeedsIff_each toPatterns rfl (fun _ _ => rfl) succeedsIff_toPattern ns

/-! ### Messages -/

theorem succeedsIff_recipient (n : Node) : SucceedsIff (recipient n) (Recipient n) := by
  cases n
  case callExpression loc callee arguments =>
    simp only [recipient]
    split
    · rename_i hname
      split
      · rename_i argument
        refine .congr ⟨?_, ?_⟩ (succeedsIff_identifierName argument)
        · rintro ⟨xloc, x, rfl⟩
          cases callee <;> cases hname
          exact .mk
        · intro h
          cases h
          exact ⟨_, _, rfl⟩
      · rename_i harguments
        apply succeedsIff_error
        intro h
        cases h
        exact harguments _ rfl
    · rename_i hname
      apply succeedsIff_error
      intro h
      cases h
      exact hname rfl
  all_goals
    apply succeedsIff_error
    intro h
    cases h

theorem succeedsIff_eventualTarget (n : Node) : SucceedsIff (eventualTarget n) (Target n) := by
  cases n
  case callExpression loc callee arguments =>
    refine .congr ⟨?_, ?_⟩ (succeedsIff_map (succeedsIff_recipient _))
    · intro h
      exact .plain h
    · intro h
      cases h with
      | plain h => exact h
  case memberExpression loc object property computed =>
    unfold eventualTarget
    split
    · cases ‹_ = _›
    · rename_i heq
      cases heq
      refine .congr ⟨?_, ?_⟩ (succeedsIff_map (succeedsIff_recipient _))
      · intro h
        exact .method h
      · intro h
        cases h with
        | plain h => cases h
        | method h => exact h
    · rename_i hmethod heq
      cases heq
      apply succeedsIff_error
      intro h
      cases h with
      | plain h => cases h
      | method h => exact hmethod _ _ rfl rfl
    · rename_i hmember
      exact absurd rfl (hmember _ _ _ _)
  all_goals exact succeedsIff_error fun h => nomatch h

theorem message_iff {loc : Loc} {callee : Node} {arguments : List Node} :
    Message (.callExpression loc callee arguments) ↔
      Target callee ∧ ∀ n ∈ arguments, Expression n := by
  constructor
  · intro h
    cases h with
    | mk htarget harguments => exact ⟨htarget, harguments⟩
  · rintro ⟨htarget, harguments⟩
    exact .mk htarget harguments

theorem succeedsIff_eventualCall (loc : Loc) (callee : Node) (arguments : List Node) :
    SucceedsIff (eventualCall (some (.callExpression loc callee arguments))) (Target callee) :=
  succeedsIff_map (succeedsIff_eventualTarget callee)

theorem arguments_of_eventualCall {loc : Loc} {callee : Node} {arguments : List Node}
    {call : EventualCall}
    (h : eventualCall (some (.callExpression loc callee arguments)) = .ok call) :
    call.arguments = arguments := by
  simp only [eventualCall, except_bind_eq_ok, except_pure_eq_ok] at h
  obtain ⟨_, -, rfl⟩ := h
  rfl

theorem succeedsIff_eventualSend (n : Node) (reply : String) :
    SucceedsIff (eventualSend (some n) reply) (Message n) := by
  cases n
  case callExpression loc callee arguments =>
    refine .congr message_iff.symm
      (succeedsIff_bind (succeedsIff_eventualCall loc callee arguments) fun call hcall => ?_)
    obtain rfl := arguments_of_eventualCall hcall
    exact succeedsIff_map (succeedsIff_toProcesses call.arguments)
  all_goals
    apply succeedsIff_error
    intro h
    cases h

theorem succeedsIff_eventualSends {ns : List Node} {channels : List String}
    (h : channels.length = ns.length) :
    SucceedsIff (eventualSends (ns.zip channels)) (∀ n ∈ ns, Message n) := by
  induction ns generalizing channels with
  | nil => exact succeedsIff_ok (by simp)
  | cons n rest ih =>
    cases channels with
    | nil => cases h
    | cons c channels =>
      exact .congr List.forall_mem_cons.symm (succeedsIff_bind (succeedsIff_eventualSend n c)
        fun _ _ => succeedsIff_map (ih (Nat.succ.inj h)))

/-! ### Awaited messages -/

theorem members?_map_some (ns : List Node) : members? (ns.map some) = some ns := by
  induction ns with
  | nil => rfl
  | cons n rest ih => simp [members?, ih]

theorem promises_eq_ok_iff {n : Node} {calls : List Node} :
    promises n = .ok calls ↔ calls ≠ [] ∧
      ∃ loc mloc oloc nloc aloc computed, n = promiseAllOf loc mloc oloc nloc aloc computed calls := by
  constructor
  · intro h
    unfold promises at h
    repeat' split at h
    all_goals try cases h
    rename_i hnames _ _ _ _ _ _ hmembers
    obtain rfl := eq_map_some_of_members? hmembers
    obtain ⟨oloc, rfl⟩ := eq_identifier_of_name? hnames.1
    obtain ⟨nloc, rfl⟩ := eq_identifier_of_name? hnames.2
    exact ⟨List.cons_ne_nil _ _, _, _, _, _, _, _, rfl⟩
  · rintro ⟨hne, loc, mloc, oloc, nloc, aloc, computed, rfl⟩
    obtain ⟨n, rest, rfl⟩ := List.exists_cons_of_ne_nil hne
    simp only [promises, name?, members?_map_some, and_self, if_true]

theorem succeedsIff_toArrayPattern (n : Node) :
    SucceedsIff (toArrayPattern n)
      (∃ loc, ∃ patterns : List Node, n = .arrayPattern loc (patterns.map some) ∧
        ∀ p ∈ patterns, Pattern p) := by
  constructor
  · rintro ⟨names, h⟩
    obtain ⟨loc, patterns, rfl, hpatterns⟩ := eq_arrayPattern_of_toArrayPattern h
    exact ⟨loc, patterns, rfl, (succeedsIff_toPatterns patterns).mp ⟨names, hpatterns⟩⟩
  · rintro ⟨loc, patterns, rfl, h⟩
    rw [toArrayPattern, members?_map_some]
    exact (succeedsIff_toPatterns patterns).mpr h

theorem length_of_toArrayPattern {n : Node} {names : List Name} (h : toArrayPattern n = .ok names) :
    names.length = (patternElements n).length := by
  obtain ⟨loc, patterns, rfl, hpatterns⟩ := eq_arrayPattern_of_toArrayPattern h
  rw [length_of_toPatterns hpatterns]
  simp [patternElements]

theorem length_of_promiseAll {n : Node} {calls : List Node} (hcalls : promises n = .ok calls)
    {l l' : Ledger} {r : List String × Process} (h : Yields (promiseAll n) l r l') :
    r.1.length = calls.length := by
  simp only [promiseAll, yields_bind, yields_lift, yields_pure] at h
  obtain ⟨calls', _, ⟨hcalls', rfl⟩, channels, _, hfresh, _, _, -, rfl, -⟩ := h
  cases hcalls.symm.trans hcalls'
  rw [(yields_freshChannels hfresh).1]
  exact length_replyChannels calls _

theorem acceptsIff_promiseAll {n : Node} {calls : List Node} (hcalls : promises n = .ok calls) :
    AcceptsIff (promiseAll n) (∀ c ∈ calls, Message c) := by
  unfold promiseAll
  rw [hcalls]
  refine .congr (iff_of_eq (true_and _)) (acceptsIff_lift_bind (succeedsIff_ok trivial) ?_)
  rintro _ ⟨⟩
  refine .congr (iff_of_eq (true_and _))
    (acceptsIff_bind_of_yields (acceptsIff_freshChannels calls) fun l channels l' h => ?_)
  obtain ⟨rfl, -⟩ := yields_freshChannels h
  exact acceptsIff_map
    (acceptsIff_lift (succeedsIff_eventualSends (length_replyChannels calls l.counter)))

theorem awaits_promiseAllOf {pattern : Node} {loc mloc oloc nloc aloc : Loc} {computed : Bool}
    {calls : List Node} (hne : calls ≠ []) :
    Awaits pattern (promiseAllOf loc mloc oloc nloc aloc computed calls) ↔
      (∀ n ∈ calls, Message n) ∧
      (∃ ploc, ∃ patterns : List Node, pattern = .arrayPattern ploc (patterns.map some) ∧
        ∀ p ∈ patterns, Pattern p) ∧ calls.length = (patternElements pattern).length := by
  constructor
  · intro h
    generalize hn : promiseAllOf loc mloc oloc nloc aloc computed calls = n at h
    cases h with
    | message h =>
      subst hn
      cases h with
      | mk htarget => cases htarget with
        | plain h => cases h
        | method h => cases h
    | all _ hcalls hpatterns hlength =>
      simp only [Node.callExpression.injEq, List.cons.injEq, Node.arrayExpression.injEq] at hn
      obtain rfl := (List.map_inj_right fun _ _ => Option.some.inj).mp hn.2.2.1.2
      exact ⟨hcalls, ⟨_, _, rfl, hpatterns⟩, by simp [patternElements, hlength]⟩
  · rintro ⟨hcalls, ⟨ploc, patterns, rfl, hpatterns⟩, hlength⟩
    exact .all hne hcalls hpatterns (by simpa [patternElements] using hlength.symm)

theorem not_isPromiseCall_of_message {n : Node} (h : Message n) : isPromiseCall n = false := by
  cases h with
  | mk htarget => cases htarget with
    | plain h =>
      cases h
      rfl
    | method h =>
      cases h
      rfl

theorem acceptsIff_awaitInto (pattern awaiting argument : Node) :
    AcceptsIff (awaitInto pattern awaiting (some argument)) (Awaits pattern argument) := by
  unfold awaitInto
  split
  · rename_i hpromise
    cases hcalls : promises argument with
    | error e =>
      have hnot : ¬ Awaits pattern argument := by
        intro h
        cases h with
        | message h => simp [not_isPromiseCall_of_message h] at hpromise
        | all hne =>
          rw [promises_eq_ok_iff.mpr ⟨hne, _, _, _, _, _, _, rfl⟩] at hcalls
          cases hcalls
      refine fun l => iff_of_false ?_ hnot
      rintro ⟨a, l', h⟩
      simp only [promiseAll, yields_bind, yields_lift, hcalls] at h
      obtain ⟨_, _, ⟨_, _, ⟨h, -⟩, -⟩, -⟩ := h
      cases h
    | ok calls =>
      obtain ⟨hne, loc, mloc, oloc, nloc, aloc, computed, rfl⟩ := promises_eq_ok_iff.mp hcalls
      refine .congr (awaits_promiseAllOf hne).symm
        (acceptsIff_bind_of_yields (acceptsIff_promiseAll hcalls) fun l r l' h =>
          acceptsIff_lift_bind (succeedsIff_toArrayPattern pattern) fun names hnames => ?_)
      rw [length_of_promiseAll hcalls h, length_of_toArrayPattern hnames]
      exact acceptsIff_ite
  · rename_i hpromise
    refine .congr ⟨?_, ?_⟩ (acceptsIff_bind (acceptsIff_freshChannel awaiting) fun channel =>
      acceptsIff_lift_bind (succeedsIff_eventualSend argument channel) fun _ _ =>
        acceptsIff_map (acceptsIff_lift (succeedsIff_toPattern pattern)))
    · rintro ⟨-, hmessage, hpattern⟩
      exact .message hmessage hpattern
    · intro h
      cases h with
      | message hmessage hpattern => exact ⟨trivial, hmessage, hpattern⟩
      | all => exact absurd rfl hpromise

end RhoScript.Lowering
