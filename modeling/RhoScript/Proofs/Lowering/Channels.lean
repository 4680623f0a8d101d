import RhoScript.Proofs.Lowering.Reading

/-!
# Reply channels

The name of a reply channel ends in its number, so that channels of different numbers differ, and so
that no channel is the console or the return channel. Where replies are awaited, `new` binds their
channels over a process beside a receiver.

Main statement: from left to right, the channels that are bound for replies are those of the awaited
calls, in the order of the source (`Lowers.replyBindings_eq`).
-/

namespace RhoScript

/-- The channels that a process binds for replies. -/
def replyBindingsAt : Process → List String
  | .new bindings body => if Lowering.isAwaiting body then bindings.map Binding.name else []
  | _ => []

/-- The channels that are bound for replies in a process, from left to right. -/
def Process.replyBindings (p : Process) : List String := p.collect replyBindingsAt

namespace Lowering

/-! ### Numbers of channels -/

/-- The digits that a text ends in, from the last one on. -/
def trailingDigits (s : String) : List Char := s.toList.reverse.takeWhile Char.isDigit

theorem trailingDigits_replyChannel (n : Node) (k : Nat) :
    trailingDigits (replyChannel n k) = (Nat.toDigits 10 k).reverse := by
  have hdigits : ∀ c ∈ (Nat.toDigits 10 k).reverse, c.isDigit = true := by
    intro c hc
    exact Nat.isDigit_of_mem_toDigits (by decide) (by decide) (List.mem_reverse.mp hc)
  have htext : (replyChannel n k).toList.reverse =
      (Nat.toDigits 10 k).reverse ++ '_' :: (n.type ++ "_" ++ n.position.label).toList.reverse := by
    simp [replyChannel, toString]
  rw [trailingDigits, htext, List.takeWhile_append_of_pos hdigits]
  simp

/-- Channels of different numbers differ. -/
theorem eq_of_replyChannel_eq {m n : Node} {i j : Nat} (h : replyChannel m i = replyChannel n j) :
    i = j := by
  have hdigits := congrArg trailingDigits h
  rw [trailingDigits_replyChannel, trailingDigits_replyChannel, List.reverse_inj] at hdigits
  have hvalue := congrArg (fun ds => Nat.ofDigitChars 10 ds 0) hdigits
  simpa using hvalue

/-- A channel is none of the names that are not in the source. -/
theorem trailingDigits_replyChannel_ne_nil (n : Node) (k : Nat) :
    trailingDigits (replyChannel n k) ≠ [] := by
  rw [trailingDigits_replyChannel]
  simp

/-- Of channels in a row, none has a smaller number than the first. -/
theorem replyChannel_not_mem {ns : List Node} {n : Node} {i k : Nat} (hi : i < k) :
    replyChannel n i ∉ replyChannels ns k := by
  induction ns generalizing k with
  | nil => simp [replyChannels]
  | cons m rest ih =>
    rw [replyChannels, List.mem_cons]
    rintro (heq | hmem)
    · have hik := eq_of_replyChannel_eq heq
      omega
    · exact ih (by omega) hmem

/-- Channels in a row are pairwise different. -/
theorem nodup_replyChannels (ns : List Node) (k : Nat) : (replyChannels ns k).Nodup := by
  induction ns generalizing k with
  | nil => simp [replyChannels]
  | cons n rest ih =>
    rw [replyChannels, List.nodup_cons]
    exact ⟨replyChannel_not_mem (Nat.lt_succ_self k), ih (k + 1)⟩

theorem replyChannels_append (ms ns : List Node) (k : Nat) :
    replyChannels (ms ++ ns) k = replyChannels ms k ++ replyChannels ns (k + ms.length) := by
  induction ms generalizing k with
  | nil => rfl
  | cons m rest ih => simp [replyChannels, ih, Nat.add_assoc, Nat.add_comm 1]

/-! ### Channels that are bound -/

/-- The reply channels of the awaited calls among dispatches, the first with the number `k`. -/
def dispatchChannels (k : Nat) (ds : List Dispatch) : List String :=
  replyChannels ((requestsOf ds).map Request.label) k

theorem dispatchChannels_append (k : Nat) (ds es : List Dispatch) :
    dispatchChannels k (ds ++ es) =
      dispatchChannels k ds ++ dispatchChannels (k + (requestsOf ds).length) es := by
  simp [dispatchChannels, requestsOf_append, replyChannels_append]

theorem requestsOf_map_request (rs : List Request) : requestsOf (rs.map .request) = rs := by
  induction rs with
  | nil => rfl
  | cons r rest ih => rw [List.map_cons, requestsOf, ih]

theorem Requested.channels_eq_dispatchChannels {rs : List Request} {k : Nat}
    {channels : List String} {sends : List Process} {clauses : List (List Name × Name)}
    (h : Requested rs k channels sends clauses) :
    channels = dispatchChannels k (rs.map .request) ∧
      k + channels.length = k + (requestsOf (rs.map .request)).length := by
  rw [dispatchChannels, requestsOf_map_request, h.channels_eq]
  simp [length_replyChannels]

/-- The channels that are bound for replies are read off a process as the awaited calls name them. -/
theorem reading_replyBindings : Reading (fun _ => True) replyBindingsAt fun k ds _ channels k' =>
    channels = dispatchChannels k ds ∧ k' = k + (requestsOf ds).length where
  seesThrough := ⟨rfl, fun _ _ => rfl⟩
  nil _ := ⟨rfl, rfl⟩
  append := by
    rintro k _ _ ds ds' _ _ _ _ ⟨rfl, rfl⟩ ⟨rfl, rfl⟩
    rw [dispatchChannels_append, requestsOf_append, List.length_append, Nat.add_assoc]
    exact ⟨rfl, rfl⟩
  value p hp := by cases hp <;> rfl
  select _ _ := rfl
  contract _ _ _ := rfl
  new _ hbody := by rw [replyBindingsAt, hbody]; rfl
  send _ hd _ _ := by simp [dispatchChannels, hd, replyChannels, replyBindingsAt]
  soft _ _ _ := ⟨rfl, rfl⟩
  await rest h hrs := by
    rw [h.flatMap_collect_eq_nil (fun p hp => by cases hp <;> rfl) (fun _ _ => rfl) (fun _ => rfl) hrs]
    simpa [replyBindingsAt, isAwaiting, isReceive, Binding.name, Function.comp_def] using
      h.channels_eq_dispatchChannels

/-- The channels that are bound for replies in the process of a tree are those of its awaited calls,
and these are as many as the numbers that were taken. -/
theorem Lowers.replyBindings_eq {n : Node} {p : Process} {k : Nat} {ds : List Diagnostic}
    (h : Lowers n p k ds) :
    p.replyBindings = dispatchChannels 0 (treeDispatches n) ∧
      k = (requestsOf (treeDispatches n)).length := by
  have hreads := h.reads reading_replyBindings (fun _ _ => trivial)
  simpa [Process.replyBindings] using hreads

end Lowering

end RhoScript
