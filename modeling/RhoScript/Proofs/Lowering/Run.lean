import RhoScript.Lowering.Ledger

/-!
# Runs of lowering

Lowering may fail and keeps a ledger. `Yields` says that a part of it succeeds: from which ledger, with
which result, and what the ledger is then. Each way to put parts together has one lemma that says
when the whole succeeds, so that a successful run can be taken apart without opening the monad.

A run only adds to a ledger: it goes to another number for reply channels, and notes and warns of the
same shapes (`Ledger.extend`).
-/

namespace RhoScript.Lowering

variable {α β : Type}

/-- The part succeeds from the ledger `l` with the result `a`, and leaves the ledger `l'`. -/
def Yields (m : LowerM α) (l : Ledger) (a : α) (l' : Ledger) : Prop :=
  ExceptT.run m l = (Except.ok a, l')

/-- A run of two parts is a run of the first and, if that succeeds, of the second. -/
theorem run_bind (m : LowerM α) (f : α → LowerM β) (l : Ledger) :
    ExceptT.run (m >>= f) l = match ExceptT.run m l with
      | (.ok a, l₁) => ExceptT.run (f a) l₁
      | (.error e, l₁) => (.error e, l₁) := by
  change ExceptT.bindCont f (ExceptT.run m l).1 (ExceptT.run m l).2 = _
  rcases ExceptT.run m l with ⟨r | r, l₁⟩ <;> rfl

theorem yields_bind {m : LowerM α} {f : α → LowerM β} {l l' : Ledger} {b : β} :
    Yields (m >>= f) l b l' ↔ ∃ a l₁, Yields m l a l₁ ∧ Yields (f a) l₁ b l' := by
  unfold Yields
  rw [run_bind]
  rcases hm : ExceptT.run m l with ⟨e | a, l₁⟩
  · constructor
    · intro h
      cases h
    · rintro ⟨a, l₂, h, -⟩
      cases h
  · constructor
    · intro h
      exact ⟨a, l₁, rfl, h⟩
    · rintro ⟨a', l₂, h, h'⟩
      cases h
      exact h'

theorem yields_pure {a b : α} {l l' : Ledger} :
    Yields (pure a) l b l' ↔ b = a ∧ l' = l := by
  constructor
  · intro h
    cases h
    exact ⟨rfl, rfl⟩
  · rintro ⟨rfl, rfl⟩
    rfl

theorem yields_lift {x : Except Failure α} {a : α} {l l' : Ledger} :
    Yields (liftM x) l a l' ↔ x = .ok a ∧ l' = l := by
  constructor
  · intro h
    cases x <;> cases h
    exact ⟨rfl, rfl⟩
  · rintro ⟨rfl, rfl⟩
    rfl

theorem yields_modify {f : Ledger → Ledger} {u : PUnit} {l l' : Ledger} :
    Yields (modify f) l u l' ↔ l' = f l := by
  constructor
  · intro h
    cases h
    rfl
  · rintro rfl
    rfl

theorem yields_get {a l l' : Ledger} : Yields get l a l' ↔ a = l ∧ l' = l := by
  constructor
  · intro h
    cases h
    exact ⟨rfl, rfl⟩
  · rintro ⟨rfl, rfl⟩
    rfl

theorem not_yields_throw {e : Failure} {a : α} {l l' : Ledger} :
    ¬ Yields (throw e) l a l' := by
  intro h
  cases h

/-! ### What a run adds to a ledger -/

/-- The ledger with the number `k` for the next reply channel, and with the shapes `ds` noted and
warned of. -/
def Ledger.extend (l : Ledger) (k : Nat) (ds : List Diagnostic) : Ledger :=
  ⟨k, l.diagnostics ++ ds, l.warnings ++ ds⟩

@[simp] theorem Ledger.counter_extend (l : Ledger) (k : Nat) (ds : List Diagnostic) :
    (l.extend k ds).counter = k := rfl

@[simp] theorem Ledger.extend_self (l : Ledger) : l.extend l.counter [] = l := by
  simp [Ledger.extend]

@[simp] theorem Ledger.extend_extend (l : Ledger) (j k : Nat) (ds es : List Diagnostic) :
    (l.extend j ds).extend k es = l.extend k (ds ++ es) := by
  simp [Ledger.extend]

theorem yields_freshChannel {n : Node} {l l' : Ledger} {c : String} :
    Yields (freshChannel n) l c l' ↔
      c = replyChannel n l.counter ∧ l' = l.extend (l.counter + 1) [] := by
  unfold Yields
  rw [run_freshChannel]
  simp only [Ledger.extend, List.append_nil]
  constructor
  · intro h
    cases h
    exact ⟨rfl, rfl⟩
  · rintro ⟨rfl, rfl⟩
    rfl

theorem yields_replace {expected : String} {n : Node} {l l' : Ledger} {p : Process} :
    Yields (replace expected n) l p l' ↔
      p = placeholder n ∧ l' = l.extend l.counter [⟨n.position, expected, n.type⟩] := by
  unfold Yields
  rw [run_replace]
  constructor
  · intro h
    cases h
    exact ⟨rfl, rfl⟩
  · rintro ⟨rfl, rfl⟩
    rfl

end RhoScript.Lowering
