import RhoScript.Proofs.Lowering.Reading

/-!
# No dispatch is lost

Main statement: the sends of a process that lowering makes, from left to right, are the ones that the
source prescribes, in its order (`prescribedSends_eq_sends`). Each awaited call has the number of the
next reply channel, and its reply channel is the last thing that is sent with it.
-/

namespace RhoScript

/-- The send that a process is, if it is one. -/
def sendAt : Process → List Send
  | .send destination arguments => [(destination, arguments)]
  | _ => []

/-- The sends in a process, from left to right. -/
def Process.sends (p : Process) : List Send := p.collect sendAt

namespace Lowering

/-- The sends of dispatches, if `k` is the number of the next reply channel. Each awaited call takes
one. -/
def prescribedSends (k : Nat) : List Dispatch → Option (List Send)
  | [] => some []
  | d :: rest => do
    let send ← d.send? k
    let sends ← prescribedSends (k + (requestsOf [d]).length) rest
    return send :: sends

/-- The dispatches `ds` send `sends`, and take the numbers from `k` up to `k'`. -/
def Sent (k : Nat) (ds : List Dispatch) (sends : List Send) (k' : Nat) : Prop :=
  prescribedSends k ds = some sends ∧ k' = k + (requestsOf ds).length

theorem Sent.nil (k : Nat) : Sent k [] [] k := ⟨rfl, rfl⟩

theorem Sent.cons {k k' : Nat} {d : Dispatch} {ds : List Dispatch} {send : Send}
    {sends : List Send} (hd : d.send? k = some send)
    (h : Sent (k + (requestsOf [d]).length) ds sends k') : Sent k (d :: ds) (send :: sends) k' := by
  obtain ⟨hsends, rfl⟩ := h
  refine ⟨by simp [prescribedSends, hd, hsends], ?_⟩
  rw [length_requestsOf_cons d ds, Nat.add_assoc]

/-- Dispatches one after another. -/
theorem Sent.append {k k₁ k₂ : Nat} {ds es : List Dispatch} {xs ys : List Send}
    (hx : Sent k ds xs k₁) (hy : Sent k₁ es ys k₂) : Sent k (ds ++ es) (xs ++ ys) k₂ := by
  induction ds generalizing k xs with
  | nil =>
    obtain ⟨hxs, rfl⟩ := hx
    cases hxs
    exact hy
  | cons d rest ih =>
    obtain ⟨hxs, rfl⟩ := hx
    simp only [prescribedSends, Option.bind_eq_bind, Option.bind_eq_some_iff, Option.pure_def,
      Option.some.injEq] at hxs
    obtain ⟨send, hsend, sends, hsends, rfl⟩ := hxs
    refine .cons hsend (ih ⟨hsends, ?_⟩)
    rw [length_requestsOf_cons d rest, Nat.add_assoc]

theorem ValuePart.sendAt_eq {P : Node → Prop} {p : Process} (h : ValuePart P p) :
    sendAt p = [] := by
  cases h <;> rfl

/-- The sends of requests are the prescribed ones. -/
theorem Requested.sent {P : Node → Prop} {rs : List Request} {k : Nat} {channels : List String}
    {sends : List Process} {clauses : List (List Name × Name)}
    (h : Requested rs k channels sends clauses) (hrs : ∀ r ∈ rs, r.Everywhere P) :
    Sent k (rs.map .request) (sends.flatMap (Process.collect sendAt)) (k + channels.length) := by
  induction h with
  | nil => exact .nil _
  | cons hsend _ _ _ ih =>
    obtain ⟨hr, hrest⟩ := List.forall_mem_cons.mp hrs
    obtain ⟨x, arguments, rfl, hmessage, -, harguments⟩ := send_of_eventualSend hr.1 hsend
    rw [List.map_cons, List.flatMap_cons, collect_request (fun _ => ValuePart.sendAt_eq) harguments,
      List.length_cons, Nat.add_comm _ 1, ← Nat.add_assoc]
    exact .cons hmessage (ih hrest)

/-- The sends are read off a process as the dispatches prescribe them. -/
theorem reading_sends : Reading (fun _ => True) sendAt fun k ds _ sends k' => Sent k ds sends k' where
  seesThrough := ⟨rfl, fun _ _ => rfl⟩
  nil := .nil
  append := .append
  value _ := ValuePart.sendAt_eq
  select _ _ := rfl
  contract _ _ _ := rfl
  new _ _ := rfl
  send hsend hd _ _ := .cons hsend (by rw [hd]; exact .nil _)
  soft _ _ _ := .nil _
  await rest h hrs := by simpa [sendAt] using h.sent hrs

/-- **No dispatch is lost**: a tree that is lowered becomes a process whose sends, from left to right,
are those that its statements prescribe, in the order of the source. -/
theorem prescribedSends_eq_sends {n : Node} {l l' : Ledger} {c : Lowered}
    (h : Yields (lowerTree n) l c l') :
    prescribedSends 0 (treeDispatches n) = some c.process.sends := by
  obtain ⟨k, hlowers, -⟩ := lowers_of_yields h
  exact (hlowers.reads reading_sends (fun _ _ => trivial)).1

/-- The program `service` is lowered, and sends this. -/
theorem sends_service : ∃ c l', Yields (lowerTree service) {} c l' ∧
    prescribedSends 0 (treeDispatches service) = some c.process.sends ∧
    c.process.sends = [
      (.var "x", [.ground (.string "m"), .drop (.var "s"),
        .drop (.var (replyChannel (ask "x" "m" "s") 0))]),
      (.var "x", [.ground (.string "n"), .drop (.var "x"),
        .drop (.var (replyChannel (ask "x" "n" "x") 1))]),
      (.var "console", [.drop (.var "a")]),
      (.var "__return", [.drop (.var "b")]),
      (.var "s", [.ground (.string "get"), .drop (.var "t"),
        .drop (.var (replyChannel (.awaitExpression none (ask "s" "get" "t")) 2))])] :=
  ⟨_, _, rfl, prescribedSends_eq_sends rfl, rfl⟩

end Lowering

end RhoScript
