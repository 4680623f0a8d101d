import RhoScript.Proofs.Lowering.Channels

/-!
# Replies arrive where they are awaited

`Process.names` lists every occurrence of a name in a process, bound or not, and `Process.uses` lists
what a name is used for as a reply channel: where it is bound, which sends have it as their last
argument, and which clauses receive from it.

Main statement: a reply channel of an awaited call occurs three times in the whole process. It is bound
once, goes out with that call and no other, and is received from by the clause with the pattern of
that call, both where it is bound (`replies_wired`).
-/

namespace RhoScript

/-! ### Occurrences of names -/

/-- The variable that a name is. -/
def Name.variables : Name → List String
  | .var x => [x]
  | _ => []

/-- The names that a process has by itself. -/
def namesAt : Process → List String
  | .new bindings _ => bindings.map Binding.name
  | .send destination _ => destination.variables
  | .receive clauses _ => clauses.flatMap fun c => c.1.flatMap Name.variables ++ c.2.variables
  | .contract name formals _ => name.variables ++ formals.flatMap Name.variables
  | .drop name => name.variables
  | _ => []

/-- All occurrences of names in a process, from left to right. -/
def Process.names (p : Process) : List String := p.collect namesAt

/-- A use of a name as a reply channel. -/
inductive Use where
  /-- It is bound over a process. -/
  | bound (body : Process)
  /-- It is the last argument of a send. -/
  | reply (send : Send)
  /-- A clause receives from it. -/
  | source (clause : List Name × Name)

/-- Whether a list of arguments ends with what the name quotes. -/
def repliesTo (x : String) (arguments : List Process) : Bool :=
  match arguments.getLast? with
  | some (.drop (.var y)) => y = x
  | _ => false

/-- The uses of a name as a reply channel that a process has by itself. -/
def useAt (x : String) : Process → List Use
  | .new bindings body => (bindings.filter (·.name = x)).map fun _ => .bound body
  | .send destination arguments =>
    if repliesTo x arguments then [.reply (destination, arguments)] else []
  | .receive clauses _ => (clauses.filter fun c => x ∈ c.2.variables).map .source
  | _ => []

/-- The uses of a name as a reply channel in a process, from left to right. -/
def Process.uses (x : String) (p : Process) : List Use := p.collect (useAt x)

namespace Lowering

/-- The node is no identifier of that name. -/
abbrev IsNot (x : String) (n : Node) : Prop := name? n ≠ some x

variable {x : String}

/-- What is spelled in a source without a reply channel is not that channel. -/
theorem Spelled.ne {y : String} (hx : trailingDigits x ≠ []) (h : Spelled (IsNot x) y) : y ≠ x := by
  rintro rfl
  cases h with
  | console => exact hx (by decide)
  | returns => exact hx (by decide)
  | identifier hname => exact hname rfl

/-! ### Three occurrences -/

/-- The occurrences of a name that a process has by itself. -/
def occurrencesAt (x : String) (p : Process) : List String := (namesAt p).filter (· = x)

theorem length_occurrencesAt (x : String) (p : Process) :
    (occurrencesAt x p).length = (namesAt p).count x :=
  List.count_eq_length_filter.symm

theorem length_collect_occurrencesAt (x : String) (p : Process) :
    (p.collect (occurrencesAt x)).length = p.names.count x := by
  rw [Process.names, Process.collect, Process.collect, List.count_eq_length_filter,
    List.filter_flatMap]
  rfl

theorem occurrencesAt_eq_nil {p : Process} (h : ∀ y ∈ namesAt p, y ≠ x) :
    occurrencesAt x p = [] := by
  simpa [occurrencesAt] using h

theorem occurrencesAt_send {y : String} (hy : y ≠ x) (arguments : List Process) :
    occurrencesAt x (.send (.var y) arguments) = [] :=
  occurrencesAt_eq_nil (by simpa [namesAt, Name.variables] using hy)

theorem ValuePart.occurrencesAt_eq {p : Process} (h : ValuePart (IsNot x) p) :
    occurrencesAt x p = [] := by
  cases h with
  | drop hname => exact occurrencesAt_eq_nil (by simpa [namesAt, Name.variables, name?] using hname)
  | nil | ground | method | binary | unary | tuple | map => rfl

/-- Among formal parameters stand only names of the source. -/
theorem ne_of_mem_formals {method : WideString} {params : List String} (hx : trailingDigits x ≠ [])
    (hparams : ∀ y ∈ params, Spelled (IsNot x) y) :
    ∀ y ∈ (formals method params).flatMap Name.variables, y ≠ x := by
  intro y hy
  obtain ⟨name, hname, hy⟩ := List.mem_flatMap.mp hy
  simp only [formals, List.cons_append, List.mem_cons, List.mem_append, List.mem_map] at hname
  obtain rfl | ⟨z, hz, rfl⟩ | hname := hname
  · cases hy
  · obtain rfl := List.mem_singleton.mp hy
    exact (hparams y hz).ne hx
  · split at hname
    · cases hname
    · obtain rfl := List.mem_singleton.mp hname
      obtain rfl := List.mem_singleton.mp hy
      exact Spelled.returns.ne hx

/-- Each reply channel goes out once. -/
theorem Requested.length_occurrences_sends (hx : trailingDigits x ≠ []) {rs : List Request} {k : Nat}
    {channels : List String} {sends : List Process} {clauses : List (List Name × Name)}
    (h : Requested rs k channels sends clauses) (hrs : ∀ r ∈ rs, r.Everywhere (IsNot x)) :
    (sends.flatMap (Process.collect (occurrencesAt x))).length = channels.count x := by
  induction h with
  | nil => rfl
  | cons hsend _ _ _ ih =>
    obtain ⟨hr, hrest⟩ := List.forall_mem_cons.mp hrs
    obtain ⟨y, arguments, rfl, -, hy, harguments⟩ := send_of_eventualSend hr.1 hsend
    rw [List.flatMap_cons, collect_request (fun _ => ValuePart.occurrencesAt_eq) harguments,
      occurrencesAt_send (hy.ne hx), List.nil_append, List.length_append, ih hrest,
      length_occurrencesAt, ← List.count_append]
    rfl

/-- Each reply channel is received from once. -/
theorem Requested.length_occurrences_receive {rs : List Request} {k : Nat}
    {channels : List String} {sends : List Process} {clauses : List (List Name × Name)}
    (h : Requested rs k channels sends clauses) (hrs : ∀ r ∈ rs, r.Everywhere (IsNot x))
    (rest : Process) : (occurrencesAt x (.receive clauses rest)).length = channels.count x := by
  induction h with
  | nil => rfl
  | @cons r _ _ pattern _ name channels _ clauses _ hpattern hname _ ih =>
    obtain ⟨hr, hrest⟩ := List.forall_mem_cons.mp hrs
    have hvariables : ∀ y ∈ name.variables, y ≠ x := by
      obtain ⟨loc, y, hy, rfl⟩ | ⟨p, rfl, -⟩ := isValue_of_toPattern (hr.2 _ hpattern) hname
      · simpa [Name.variables, name?] using hy
      · simp [Name.variables]
    have htail := ih hrest
    rw [length_occurrencesAt, namesAt] at htail ⊢
    rw [List.flatMap_cons, List.count_append, htail, List.count_append]
    simp only [List.flatMap_cons, List.flatMap_nil, List.append_nil]
    rw [List.count_eq_zero.mpr fun hmem => hvariables x hmem rfl, Nat.zero_add, ← List.count_append]
    rfl

/-- The occurrences of a channel are read off a process as three for each awaited call with it. -/
theorem reading_occurrences (hx : trailingDigits x ≠ []) :
    Reading (IsNot x) (occurrencesAt x) fun k ds _ xs k' =>
      xs.length = 3 * (dispatchChannels k ds).count x ∧ k' = k + (requestsOf ds).length where
  seesThrough := ⟨rfl, fun _ _ => rfl⟩
  nil _ := ⟨rfl, rfl⟩
  append := by
    rintro k _ _ ds ds' _ _ xs xs' ⟨hxs, rfl⟩ ⟨hxs', rfl⟩
    rw [dispatchChannels_append, requestsOf_append, List.length_append, List.length_append,
      List.count_append, hxs, hxs']
    omega
  value _ := ValuePart.occurrencesAt_eq
  select _ _ := rfl
  contract _ htarget hparams := by
    refine occurrencesAt_eq_nil (List.forall_mem_append.mpr ⟨?_, ne_of_mem_formals hx hparams⟩)
    simpa [Name.variables] using htarget.ne hx
  new hbindings _ := by
    refine occurrencesAt_eq_nil fun y hy => ?_
    obtain ⟨b, hb, rfl⟩ := List.mem_map.mp hy
    exact (hbindings b hb).ne hx
  send _ hd hy _ := by
    rw [occurrencesAt_send (hy.ne hx)]
    simp [dispatchChannels, hd, replyChannels]
  soft _ _ _ := ⟨rfl, rfl⟩
  await {k rs channels sends clauses} rest h hrs := by
    obtain ⟨hchannels, hk⟩ := h.channels_eq_dispatchChannels
    have hbound : (channels.map Binding.plain).map Binding.name = channels := by
      simp [Binding.name, Function.comp_def]
    refine ⟨?_, hk⟩
    rw [List.length_append, List.length_append, h.length_occurrences_sends hx hrs,
      h.length_occurrences_receive hrs, length_occurrencesAt, namesAt, hbound, ← hchannels]
    omega

/-! ### One use of each kind -/

/-- `Wired x k rs us`: the uses `us` of the channel `x` are those of the requests `rs` with that reply
channel, if the first of them has the number `k`. Where the channel is bound, it goes out and is
received from. -/
inductive Wired (x : String) : Nat → List Request → List Use → Prop
  | nil {k : Nat} : Wired x k [] []
  | skip {k : Nat} {r : Request} {rs : List Request} {us : List Use} :
      replyChannel r.label k ≠ x → Wired x (k + 1) rs us → Wired x k (r :: rs) us
  | wire {k : Nat} {r : Request} {rs : List Request} {us : List Use} {body : Process} {send : Send}
      {pattern : Node} {name : Name} :
      replyChannel r.label k = x → messageSend? r.call (some x) = some send →
      r.pattern = some pattern → toPattern pattern = .ok name →
      [.reply send, .source ([name], .var x)] <+: body.uses x → Wired x (k + 1) rs us →
      Wired x k (r :: rs) (.bound body :: .reply send :: .source ([name], .var x) :: us)

theorem Wired.append {k : Nat} {rs rs' : List Request} {us us' : List Use} (h : Wired x k rs us)
    (h' : Wired x (k + rs.length) rs' us') : Wired x k (rs ++ rs') (us ++ us') := by
  induction h with
  | nil => exact h'
  | skip hne _ ih =>
    rw [List.length_cons, Nat.add_comm _ 1, ← Nat.add_assoc] at h'
    exact .skip hne (ih h')
  | wire heq hsend hpattern hname hbody _ ih =>
    rw [List.length_cons, Nat.add_comm _ 1, ← Nat.add_assoc] at h'
    exact .wire heq hsend hpattern hname hbody (ih h')

/-- Requests with larger numbers do not use a channel. -/
theorem Wired.eq_nil {n : Node} {i k : Nat} {rs : List Request} {us : List Use} (hi : i < k)
    (h : Wired (replyChannel n i) k rs us) : us = [] := by
  induction h with
  | nil => rfl
  | skip _ _ ih => exact ih (by omega)
  | wire heq _ _ _ _ _ _ =>
    have hik := eq_of_replyChannel_eq heq
    omega

/-- The uses `us` of a channel: it is bound, goes out with the call of the request, and is received
from into its pattern, both where it is bound. -/
def Request.Uses (r : Request) (x : String) (us : List Use) : Prop :=
  ∃ body send pattern name, us = [.bound body, .reply send, .source ([name], .var x)] ∧
    messageSend? r.call (some x) = some send ∧ r.pattern = some pattern ∧
    toPattern pattern = .ok name ∧ [.reply send, .source ([name], .var x)] <+: body.uses x

/-- A request is the only one that uses its channel. -/
theorem Wired.uses_eq {k i : Nat} {r : Request} {rs : List Request} {us : List Use}
    (h : Wired x k rs us) (hr : rs[i]? = some r) (hx : x = replyChannel r.label (k + i)) :
    r.Uses x us := by
  induction h generalizing i with
  | nil => simp at hr
  | @skip k r' rs us hne _ ih =>
    cases i with
    | zero =>
      obtain rfl : r' = r := by simpa using hr
      exact absurd hx.symm hne
    | succ i =>
      rw [List.getElem?_cons_succ] at hr
      exact ih hr (by rw [hx, Nat.add_assoc, Nat.add_comm 1])
  | @wire k r' rs us body send pattern name heq hsend hpattern hname hbody hwired _ =>
    obtain rfl : i = 0 := by
      have hki := eq_of_replyChannel_eq (heq.trans hx)
      omega
    obtain rfl : r' = r := by simpa using hr
    have hus := Wired.eq_nil (Nat.lt_succ_self k) (heq ▸ hwired)
    exact ⟨body, send, pattern, name, by rw [hus], hsend, hpattern, hname, hbody⟩

/-- A list of values does not end with a channel. -/
theorem repliesTo_eq_false {arguments : List Process} (h : ∀ a ∈ arguments, ValuePart (IsNot x) a) :
    repliesTo x arguments = false := by
  unfold repliesTo
  split
  · rename_i y hlast
    have hdrop := h _ (List.mem_of_getLast? hlast)
    cases hdrop with
    | drop hname => simpa [name?] using hname
  · rfl

theorem ValuePart.useAt_eq {P : Node → Prop} {p : Process} (h : ValuePart P p) : useAt x p = [] := by
  cases h <;> rfl

theorem useAt_seesThrough : SeesThrough (useAt x) := ⟨rfl, fun _ _ => rfl⟩

theorem useAt_new_cons (c : String) (channels : List String) (body : Process) :
    useAt x (.new ((c :: channels).map .plain) body) =
      (if c = x then [.bound body] else []) ++ useAt x (.new (channels.map .plain) body) := by
  by_cases hc : c = x <;> simp [useAt, Binding.name, hc]

theorem useAt_receive_cons (c : String) (names : List Name) (clauses : List (List Name × Name))
    (rest : Process) :
    useAt x (.receive ((names, .var c) :: clauses) rest) =
      (if c = x then [.source (names, .var c)] else []) ++ useAt x (.receive clauses rest) := by
  by_cases hc : c = x
  · subst hc
    simp [useAt, Name.variables]
  · have hmem : x ∉ (Name.var c).variables := by simpa [Name.variables, eq_comm] using hc
    simp [useAt, hmem, hc]

theorem collect_useAt_send {P : Node → Prop} {y c : String} {arguments : List Process}
    (h : ∀ a ∈ arguments, IsValue P a) :
    (Process.send (.var y) (arguments ++ [.drop (.var c)])).collect (useAt x) =
      if c = x then [.reply (.var y, arguments ++ [.drop (.var c)])] else [] := by
  rw [collect_request (fun _ => ValuePart.useAt_eq) h]
  simp [useAt, repliesTo]

/-- Requests do not use other channels than theirs. -/
theorem Requested.unused {P : Node → Prop} {rs : List Request} {k : Nat} {channels : List String}
    {sends : List Process} {clauses : List (List Name × Name)}
    (h : Requested rs k channels sends clauses) (hrs : ∀ r ∈ rs, r.Everywhere P)
    (hx : x ∉ channels) (body rest : Process) :
    useAt x (.new (channels.map .plain) body) = [] ∧
      sends.flatMap (Process.collect (useAt x)) = [] ∧ useAt x (.receive clauses rest) = [] ∧
      Wired x k rs [] := by
  induction h with
  | nil => exact ⟨rfl, rfl, rfl, .nil⟩
  | cons hsend _ _ _ ih =>
    obtain ⟨hr, hrest⟩ := List.forall_mem_cons.mp hrs
    obtain ⟨y, arguments, rfl, -, -, harguments⟩ := send_of_eventualSend hr.1 hsend
    obtain ⟨hne, htail⟩ := List.ne_and_not_mem_of_not_mem_cons hx
    obtain ⟨hnew, hsends, hreceive, hwired⟩ := ih hrest htail
    rw [useAt_new_cons, useAt_receive_cons, List.flatMap_cons, collect_useAt_send harguments, hnew,
      hsends, hreceive]
    simp only [Ne.symm hne, if_false]
    exact ⟨rfl, rfl, rfl, .skip (Ne.symm hne) hwired⟩

/-- Requests use their channels, each where all are bound. -/
theorem Requested.wired {P : Node → Prop} {rs : List Request} {k : Nat} {channels : List String}
    {sends : List Process} {clauses : List (List Name × Name)}
    (h : Requested rs k channels sends clauses) (hrs : ∀ r ∈ rs, r.Everywhere P)
    {body rest : Process}
    (hbody : sends.flatMap (Process.collect (useAt x)) ++ useAt x (.receive clauses rest) <+:
      body.uses x) :
    Wired x k rs (useAt x (.new (channels.map .plain) body) ++
      (sends.flatMap (Process.collect (useAt x)) ++ useAt x (.receive clauses rest))) := by
  induction h with
  | nil => exact .nil
  | @cons r rs k pattern _ name channels sends clauses hsend hpattern hname hrequested ih =>
    obtain ⟨hr, hrest⟩ := List.forall_mem_cons.mp hrs
    obtain ⟨y, arguments, rfl, hmessage, -, harguments⟩ := send_of_eventualSend hr.1 hsend
    rw [useAt_receive_cons, List.flatMap_cons, collect_useAt_send harguments] at hbody ⊢
    rw [useAt_new_cons]
    by_cases hc : replyChannel r.label k = x
    · -- The channels after this one have larger numbers, so nothing else uses it.
      have hx : x ∉ channels := by
        rw [hrequested.channels_eq, ← hc]
        exact replyChannel_not_mem (Nat.lt_succ_self k)
      obtain ⟨hnew, hsends, hreceive, hwired⟩ := hrequested.unused hrest hx body rest
      rw [hsends, hreceive] at hbody ⊢
      rw [hnew]
      simp only [hc, if_true, List.append_nil] at hbody hmessage ⊢
      exact .wire hc hmessage hpattern hname hbody hwired
    · simp only [hc, if_false, List.nil_append] at hbody ⊢
      exact .skip hc (ih hrest hbody)

/-- The uses of a channel are read off a process as the awaited calls have them. -/
theorem reading_uses (hx : trailingDigits x ≠ []) :
    Reading (IsNot x) (useAt x) fun k ds _ us k' =>
      Wired x k (requestsOf ds) us ∧ k' = k + (requestsOf ds).length where
  seesThrough := useAt_seesThrough
  nil _ := ⟨.nil, rfl⟩
  append := by
    rintro k _ _ ds ds' _ _ us us' ⟨hus, rfl⟩ ⟨hus', rfl⟩
    rw [requestsOf_append, List.length_append, Nat.add_assoc]
    exact ⟨hus.append hus', rfl⟩
  value _ := ValuePart.useAt_eq
  select _ _ := rfl
  contract _ _ _ := rfl
  new hbindings _ := by
    simpa [useAt] using fun b hb => (hbindings b hb).ne hx
  send _ hd _ hvalues := by
    rw [hd, useAt, repliesTo_eq_false hvalues]
    exact ⟨.nil, rfl⟩
  soft _ _ _ := ⟨.nil, rfl⟩
  await {k rs channels sends clauses} rest h hrs := by
    rw [requestsOf_map_request]
    refine ⟨h.wired hrs ?_, h.channels_eq_dispatchChannels.2.trans (by rw [requestsOf_map_request])⟩
    rw [Process.uses, Process.collect_par, Process.collect_besideAll useAt_seesThrough,
      Process.collect_receive, ← List.append_assoc (List.flatMap _ _)]
    exact List.prefix_append _ _

/-! ### Whole trees -/

theorem replyChannels_map_label (rs : List Request) (k : Nat) :
    replyChannels (rs.map Request.label) k = rs.mapIdx fun i r => replyChannel r.label (k + i) := by
  induction rs generalizing k with
  | nil => rfl
  | cons r rest ih =>
    simp [replyChannels, List.mapIdx_cons, ih, Nat.add_assoc, Nat.add_comm 1]

theorem replyChannel_eq (n : Node) (i : Nat) :
    replyChannel n i = s!"{n.type}_{n.position.line}c{n.position.column}_{i}" := by
  simp [replyChannel, Position.label, String.append_assoc, toString]

/-- The awaited calls of a tree, in the order of the source. -/
def treeRequests (n : Node) : List Request := requestsOf (treeDispatches n)

/-- The channel of an awaited call is one of the channels. -/
theorem count_dispatchChannels {n : Node} {i : Nat} {r : Request}
    (hr : (treeRequests n)[i]? = some r) :
    (dispatchChannels 0 (treeDispatches n)).count (replyChannel r.label i) = 1 := by
  have hchannel : (dispatchChannels 0 (treeDispatches n))[i]? = some (replyChannel r.label i) := by
    rw [dispatchChannels, replyChannels_map_label, List.getElem?_mapIdx, ← treeRequests, hr]
    simp
  have hnodup : (dispatchChannels 0 (treeDispatches n)).Nodup := nodup_replyChannels _ 0
  rw [hnodup.count, if_pos (List.mem_of_getElem? hchannel)]

/-- No identifier of the program `service` ends in a digit. -/
theorem service_isNot {x : String} (hx : trailingDigits x ≠ []) : service.Everywhere (IsNot x) := by
  have hnames : ∀ m ∈ service.nodes, ∀ y ∈ name? m, trailingDigits y = [] := by decide +kernel
  intro m hm hname
  exact hx (hnames m hm x hname)

/-- **Replies arrive where they are awaited**: if no identifier of a tree is one of its reply channels,
then the process of the tree binds for replies just the channels of the awaited calls, in order, which
differ and are as many as the numbers that were taken; and each of them occurs three times, to be
bound, to go out with its call and to be received from into its pattern. -/
theorem replies_wired {n : Node} {l l' : Ledger} {c : Lowered} (h : Yields (lowerTree n) l c l')
    (hfresh : ∀ i r, (treeRequests n)[i]? = some r →
      n.Everywhere (IsNot (replyChannel r.label i))) :
    c.process.replyBindings = (treeRequests n).mapIdx (fun i r =>
        s!"{r.label.type}_{r.label.position.line}c{r.label.position.column}_{i}") ∧
      c.process.replyBindings.Nodup ∧ l'.counter = (treeRequests n).length ∧
      ∀ i r, (treeRequests n)[i]? = some r →
        c.process.names.count (replyChannel r.label i) = 3 ∧
        r.Uses (replyChannel r.label i) (c.process.uses (replyChannel r.label i)) := by
  obtain ⟨k, hlowers, rfl⟩ := lowers_of_yields h
  obtain ⟨hbindings, hk⟩ := hlowers.replyBindings_eq
  refine ⟨?_, ?_, hk, fun i r hr => ?_⟩
  · rw [hbindings, dispatchChannels, replyChannels_map_label]
    simp only [Nat.zero_add, replyChannel_eq]
    rfl
  · rw [hbindings]
    exact nodup_replyChannels _ 0
  · have hx := trailingDigits_replyChannel_ne_nil r.label i
    have hcount := (hlowers.reads (reading_occurrences hx) (hfresh i r hr)).1
    have hwired := (hlowers.reads (reading_uses hx) (hfresh i r hr)).1
    rw [length_collect_occurrencesAt, count_dispatchChannels hr] at hcount
    exact ⟨hcount, hwired.uses_eq hr (by rw [Nat.zero_add])⟩

/-- The program `service` is lowered, and its three replies are awaited like this. -/
theorem service_replies_wired : ∃ c l', Yields (lowerTree service) {} c l' ∧
    c.process.replyBindings =
      ["CallExpression_0c0_0", "CallExpression_0c0_1", "AwaitExpression_0c0_2"] ∧
    l'.counter = 3 ∧ c.process.names.count "AwaitExpression_0c0_2" = 3 := by
  have h : Yields (lowerTree service) {} _ _ := rfl
  obtain ⟨hbindings, -, hcounter, hwired⟩ := replies_wired h fun i r _ =>
    service_isNot (trailingDigits_replyChannel_ne_nil r.label i)
  exact ⟨_, _, h, hbindings.trans (by decide +kernel), hcounter, (hwired 2 _ rfl).1⟩

end Lowering

end RhoScript
