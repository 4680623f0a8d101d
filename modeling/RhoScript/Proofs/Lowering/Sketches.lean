import RhoScript.Proofs.Lowering.Channels
import RhoScript.Proofs.Lowering.Twins
import RhoScript.Proofs.Term.Skeleton

/-!
# Sketches of what two runs give

Two trees that differ in locations only become processes that differ in the names of their reply
channels. `Drawn f k ds k' x` says that `x` is drawn by `f` once the reply channels of `ds` have their
names, the first with the number `k`; `Sketched` says so of the results of two runs, for one sketch.
What is put together from sketched parts is sketched (`Sketched.map₂`).

Main statement: what a declaration awaits is sketched by messages and patterns (`twinAt_awaitInto`).
-/

namespace RhoScript.Lowering

open Node

/-! ### Sketches -/

section Sketches

variable {α β γ σ τ υ : Type} {k k₁ k₂ : Nat} {ds ds' es es' : List Dispatch}

/-- The nodes that name the reply channels of what is dispatched. -/
def labels (ds : List Dispatch) : List Node := (requestsOf ds).map Request.label

theorem labels_append (ds es : List Dispatch) : labels (ds ++ es) = labels ds ++ labels es := by
  rw [labels, requestsOf_append, List.map_append]
  rfl

/-- The reply channels of the nodes have their names, the first with the number `k`. -/
def Named (names : Nat → String) (k : Nat) (ns : List Node) : Prop :=
  (List.range' k ns.length).map names = replyChannels ns k

theorem Named.of_append {names : Nat → String} {ms ns : List Node}
    (h : Named names k (ms ++ ns)) : Named names k ms ∧ Named names (k + ms.length) ns := by
  unfold Named at h
  rw [List.length_append, ← List.range'_append_1, List.map_append, replyChannels_append] at h
  exact List.append_inj h (by simp [length_replyChannels])

/-- `x` is drawn by `f`, given the names of the reply channels of `ds`, which have the numbers from `k`
up to `k'`. -/
def Drawn (f : (Nat → String) → α) (k : Nat) (ds : List Dispatch) (k' : Nat) (x : α) : Prop :=
  k' = k + (labels ds).length ∧ ∀ names, Named names k (labels ds) → x = f names

theorem Drawn.map₂ {f : (Nat → String) → α} {g : (Nat → String) → β} {x : α} {y : β} (h : α → β → γ)
    (hx : Drawn f k ds k₁ x) (hy : Drawn g k₁ es k₂ y) :
    Drawn (fun names => h (f names) (g names)) k (ds ++ es) k₂ (h x y) := by
  obtain ⟨rfl, hx⟩ := hx
  obtain ⟨rfl, hy⟩ := hy
  refine ⟨by rw [labels_append, List.length_append, Nat.add_assoc], fun names hnames => ?_⟩
  rw [labels_append] at hnames
  obtain ⟨hds, hes⟩ := hnames.of_append
  exact congrArg₂ h (hx names hds) (hy names hes)

/-- The results of both runs are drawn by one sketch, each given the names of its own channels. -/
def Sketched (fill : σ → (Nat → String) → α) (k : Nat) (ds ds' : List Dispatch) (k' : Nat)
    (x x' : α) : Prop :=
  ∃ s, Drawn (fill s) k ds k' x ∧ Drawn (fill s) k ds' k' x'

variable {f : σ → (Nat → String) → α} {g : τ → (Nat → String) → β} {w : υ → (Nat → String) → γ}
  {x x' : α} {y y' : β}

theorem Sketched.map₂ (h : α → β → γ) (u : σ → τ → υ)
    (hu : ∀ s t names, h (f s names) (g t names) = w (u s t) names)
    (hx : Sketched f k ds ds' k₁ x x') (hy : Sketched g k₁ es es' k₂ y y') :
    Sketched w k (ds ++ es) (ds' ++ es') k₂ (h x y) (h x' y') := by
  obtain ⟨s, hs, hs'⟩ := hx
  obtain ⟨t, ht, ht'⟩ := hy
  have hw : w (u s t) = fun names => h (f s names) (g t names) := funext fun _ => (hu s t _).symm
  refine ⟨u s t, ?_, ?_⟩ <;> rw [hw]
  · exact hs.map₂ h ht
  · exact hs'.map₂ h ht'

theorem Sketched.map (h : α → γ) (u : σ → υ) (hu : ∀ s names, h (f s names) = w (u s) names)
    (hx : Sketched f k ds ds' k₁ x x') : Sketched w k ds ds' k₁ (h x) (h x') := by
  obtain ⟨s, ⟨hk, hs⟩, hk', hs'⟩ := hx
  refine ⟨u s, ⟨hk, fun names hnames => ?_⟩, hk', fun names hnames => ?_⟩
  · rw [hs names hnames, hu]
  · rw [hs' names hnames, hu]

/-- What has no holes is the same in both runs. -/
theorem sketched_fixed (hds : labels ds = []) (hds' : labels ds' = []) {s : σ} {x : α}
    (hs : ∀ names, f s names = x) : Sketched f k ds ds' k x x := by
  refine ⟨s, ⟨by rw [hds]; rfl, fun names _ => (hs names).symm⟩, ?_⟩
  exact ⟨by rw [hds']; rfl, fun names _ => (hs names).symm⟩

end Sketches

/-! ### Awaited messages -/

section Awaited

variable {a b : Node} {as bs : List Node} {k : Nat}

/-- A message with a reply channel after its arguments. -/
def requestSend (message : Name × List Process) (channel : String) : Process :=
  .send message.1 (message.2 ++ [.drop (.var channel)])

theorem agree_eventualSend (h : a.Relocated b) (c c' : String) :
    Agree (fun p p' => ∃ message, p = requestSend message c ∧ p' = requestSend message c')
      (eventualSend (some a) c) (eventualSend (some b) c') := by
  refine agree_bind (agree_eventualCall h) ?_
  rintro ⟨target, method, arguments⟩ ⟨_, _, arguments'⟩ ⟨rfl, rfl, harguments⟩
  refine agree_bind (agree_toProcesses arguments arguments' harguments) ?_
  rintro processes _ rfl
  refine .ok ⟨(.var target, method.toList.map (fun s => .ground (.string s)) ++ processes), ?_, ?_⟩
  all_goals rw [requestSend, sendTo_eq, List.append_assoc]

theorem agree_eventualSends (h : List.Forall₂ Relocated as bs) (k : Nat) :
    Agree (fun ps ps' => ∃ messages, messages.length = as.length ∧
        ps = List.zipWith requestSend messages (replyChannels as k) ∧
        ps' = List.zipWith requestSend messages (replyChannels bs k))
      (eventualSends (as.zip (replyChannels as k))) (eventualSends (bs.zip (replyChannels bs k))) := by
  induction h generalizing k with
  | nil => exact .ok ⟨[], rfl, rfl, rfl⟩
  | cons h _ ih =>
    refine agree_bind (agree_eventualSend h _ _) ?_
    rintro _ _ ⟨message, rfl, rfl⟩
    refine agree_bind (ih (k + 1)) ?_
    rintro _ _ ⟨messages, hlength, rfl, rfl⟩
    exact .ok ⟨message :: messages, congrArg (· + 1) hlength, rfl, rfl⟩

theorem twinAt_freshChannel (a b : Node) :
    TwinAt k (freshChannel a) (freshChannel b)
      fun k₁ c c' => k₁ = k + 1 ∧ c = replyChannel a k ∧ c' = replyChannel b k := by
  rintro l l' rfl hl' hdiagnostics
  rw [run_freshChannel, run_freshChannel, hl']
  exact .ok rfl hdiagnostics ⟨rfl, rfl, rfl⟩

theorem twinAt_freshChannels (h : List.Forall₂ Relocated as bs) :
    TwinAt k (freshChannels as) (freshChannels bs) fun k₁ cs cs' =>
      k₁ = k + as.length ∧ cs = replyChannels as k ∧ cs' = replyChannels bs k := by
  induction h generalizing k with
  | nil => exact twinAt_pure ⟨rfl, rfl, rfl⟩
  | cons _ _ ih =>
    refine twinAt_bind (twinAt_freshChannel _ _) ?_
    rintro _ _ _ ⟨rfl, rfl, rfl⟩
    refine twinAt_map ih ?_
    rintro _ _ _ ⟨rfl, rfl, rfl⟩
    exact ⟨by rw [List.length_cons]; omega, rfl, rfl⟩

theorem agree_promises (h : a.Relocated b) :
    Agree (List.Forall₂ Relocated) (promises a) (promises b) := by
  have hab := h
  cases h
  case callExpression hcallee harguments =>
    have hcallees := hcallee
    have hcount := argumentCount_eq harguments
    cases hcallee
    case memberExpression hobject hproperty =>
      simp only [promises, name?_eq hobject, name?_eq hproperty]
      split
      · cases harguments with
        | nil => exact agree_unexpected hab
        | cons h hrest => cases hrest with
          | nil =>
            have helement := h
            cases h
            case arrayExpression aloc aloc' xs ys helements =>
              have hmembers := relocated_members? helements
              dsimp only
              generalize members? xs = ns, members? ys = ms at hmembers
              rcases hmembers with ⟨_ | ⟨h, hrest⟩⟩ | _
              · exact agree_unexpected helement
              · exact .ok (.cons h hrest)
              · exact agree_unexpected helement
            all_goals exact agree_unexpected hab
          | cons =>
            simp only [hcount]
            cases h <;> exact agree_unexpected hab
      · exact agree_unexpected hcallees
    all_goals exact agree_unexpected hcallees
  all_goals exact .error (Failure.alike_noField hab _)

theorem isPromiseCall_eq (h : a.Relocated b) : isPromiseCall a = isPromiseCall b := by
  cases h
  case callExpression hcallee _ =>
    cases hcallee
    case memberExpression hobject _ => rw [isPromiseCall, isPromiseCall, name?_eq hobject]
    all_goals rfl
  all_goals rfl

/-- Messages and the patterns for their replies, whose channels have the numbers from `start` on. -/
structure AwaitSketch where
  start : Nat
  messages : List (Name × List Process)
  patterns : List Name

/-- The numbers of the reply channels. -/
def AwaitSketch.numbers (s : AwaitSketch) : List Nat := List.range' s.start s.messages.length

/-- What is awaited, with names for the reply channels. -/
def AwaitSketch.fill (s : AwaitSketch) (names : Nat → String) : Awaited :=
  let channels := s.numbers.map names
  ⟨channels, (s.patterns.zip channels).map fun (p, c) => ([p], .var c),
    .besideAll (List.zipWith requestSend s.messages channels)⟩

theorem drawn_awaited {messages : List (Name × List Process)} {patterns : List Name}
    {ds : List Dispatch} {ns : List Node} (hlabels : labels ds = ns)
    (hlength : messages.length = ns.length) :
    Drawn (AwaitSketch.fill ⟨k, messages, patterns⟩) k ds (k + ns.length)
      ⟨replyChannels ns k, (patterns.zip (replyChannels ns k)).map fun (p, c) => ([p], .var c),
        .besideAll (List.zipWith requestSend messages (replyChannels ns k))⟩ := by
  subst hlabels
  refine ⟨rfl, fun names hnames => ?_⟩
  have hchannels : (List.range' k messages.length).map names = replyChannels (labels ds) k := by
    rw [hlength]
    exact hnames
  simp only [AwaitSketch.fill, AwaitSketch.numbers, hchannels]

theorem labels_map_request (rs : List Request) :
    labels (rs.map .request) = rs.map Request.label := by
  rw [labels, requestsOf_map_request]

theorem map_label_elementRequests (ns : List Node) (patterns : List (Option Node)) :
    (elementRequests (ns.map some) patterns).map Request.label = ns := by
  induction ns generalizing patterns with
  | nil => rfl
  | cons n rest ih => simp [elementRequests, ih]

/-- The calls that `Promise.all` is applied to name the reply channels. -/
theorem labels_requests_of_promises {argument : Node} {ns : List Node} (pattern awaiting : Node)
    (hpromise : isPromiseCall argument = true) (h : promises argument = .ok ns) :
    labels ((requests pattern awaiting argument).map .request) = ns := by
  obtain ⟨loc, callee, aloc, rfl, -⟩ := eq_call_of_promises h
  rw [labels_map_request, requests, if_pos hpromise, map_label_elementRequests]

theorem labels_requests {pattern awaiting argument : Node} (h : isPromiseCall argument = false) :
    labels ((requests pattern awaiting argument).map .request) = [awaiting] := by
  have hone : requests pattern awaiting argument = [⟨awaiting, argument, some pattern⟩] := by
    simp [requests, h]
  rw [labels_map_request, hone]
  rfl

theorem Agree.with_eq {α β : Type} {R : α → β → Prop} {x : Except Failure α} {y : Except Failure β}
    (h : Agree R x y) : Agree (fun a b => R a b ∧ x = .ok a ∧ y = .ok b) x y := by
  cases h with
  | ok h => exact .ok ⟨h, rfl, rfl⟩
  | error h => exact .error h

/-- `Promise.all` sends the same messages in both runs, but for the reply channels. -/
theorem twinAt_promiseAll (h : a.Relocated b) :
    TwinAt k (promiseAll a) (promiseAll b) fun k₁ r r' => ∃ as bs messages,
      List.Forall₂ Relocated as bs ∧ promises a = .ok as ∧ promises b = .ok bs ∧
      messages.length = as.length ∧ k₁ = k + as.length ∧
      (r.1 = replyChannels as k ∧
        r.2 = .besideAll (List.zipWith requestSend messages (replyChannels as k))) ∧
      r'.1 = replyChannels bs k ∧
        r'.2 = .besideAll (List.zipWith requestSend messages (replyChannels bs k)) := by
  refine twinAt_lift_bind (agree_promises h).with_eq ?_
  rintro as bs ⟨hcalls, ha, hb⟩
  refine twinAt_bind (twinAt_freshChannels hcalls) ?_
  rintro _ _ _ ⟨rfl, rfl, rfl⟩
  refine twinAt_lift_bind (agree_eventualSends hcalls k) ?_
  rintro _ _ ⟨messages, hlength, rfl, rfl⟩
  exact twinAt_pure ⟨as, bs, messages, hcalls, ha, hb, hlength, rfl, ⟨rfl, rfl⟩, rfl, rfl⟩

theorem twinAt_awaitInto {pattern pattern' awaiting awaiting' argument argument' : Node}
    (hpattern : pattern.Relocated pattern') (hargument : argument.Relocated argument') :
    TwinAt k (awaitInto pattern awaiting (some argument))
      (awaitInto pattern' awaiting' (some argument'))
      (Sketched AwaitSketch.fill k ((requests pattern awaiting argument).map .request)
        ((requests pattern' awaiting' argument').map .request)) := by
  unfold awaitInto
  simp only [Option.any_some, ← isPromiseCall_eq hargument]
  split
  · rename_i hpromise
    refine twinAt_bind (twinAt_promiseAll hargument) ?_
    rintro _ ⟨_, _⟩ ⟨_, _⟩ ⟨as, bs, messages, hcalls, ha, hb, hlength, rfl, ⟨rfl, rfl⟩, rfl, rfl⟩
    refine twinAt_lift_bind (agree_toArrayPattern hpattern) ?_
    rintro names _ rfl
    simp only [length_replyChannels, hcalls.length_eq]
    split
    · have hpromise' := (isPromiseCall_eq hargument).symm.trans hpromise
      refine twinAt_pure ⟨⟨k, messages, names⟩, ?_, ?_⟩
      · rw [← hcalls.length_eq]
        exact drawn_awaited (labels_requests_of_promises pattern awaiting hpromise ha) hlength
      · exact drawn_awaited (labels_requests_of_promises pattern' awaiting' hpromise' hb)
          (hlength.trans hcalls.length_eq)
    · exact twinAt_throw (Failure.alike_located _ _ _)
  · rename_i hpromise
    have ha : isPromiseCall argument = false := Bool.eq_false_iff.mpr hpromise
    have hb : isPromiseCall argument' = false := (isPromiseCall_eq hargument).symm.trans ha
    refine twinAt_bind (twinAt_freshChannel awaiting awaiting') ?_
    rintro _ _ _ ⟨rfl, rfl, rfl⟩
    refine twinAt_lift_bind (agree_eventualSend hargument _ _) ?_
    rintro _ _ ⟨message, rfl, rfl⟩
    refine twinAt_lift_bind (agree_toPattern hpattern) ?_
    rintro name _ rfl
    exact twinAt_pure ⟨⟨k, [message], [name]⟩, drawn_awaited (labels_requests ha) rfl,
      drawn_awaited (labels_requests hb) rfl⟩

end Awaited

end RhoScript.Lowering
