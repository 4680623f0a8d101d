import RhoScript.Proofs.Number.Texts
import RhoScript.Term.Layout

/-!
# Terms of integers

Printing a term stops at a leaf that has no text: a ground value without one, or a part that was left
unspecified. Nothing else stops it (`Process.stuck_mem_layout`), so a term has a text if all its leaves
have (`Process.text_cases`).

Main statement: an integer has a text as long as the nearest double is finite, namely its digits below
`2 ^ 53` and the text of that double from there on. It has none if that double is infinite, and a term
whose leaves are integers has a text exactly if all of them have (`integers_print`).
-/

namespace RhoScript

open Number Printer

/-! ### Leaves -/

/-- A part of a term that has no parts and is no name. -/
inductive Leaf where
  | ground (value : Ground)
  /-- A process or a name left unspecified. -/
  | unspecified (sort : String)
deriving DecidableEq, Repr

/-- Why a leaf has no text. -/
def Leaf.error? : Leaf → Option RenderError
  | .ground value => if value.text?.isNone then some .overflow else none
  | .unspecified sort => some (.unspecified sort)

mutual

/-- The leaves of a process. -/
def Process.leaves : Process → List Leaf
  | .nil => []
  | .ground value => [.ground value]
  | .list items | .tuple items => Process.leavesAll items
  | .map entries => Process.leavesEntries entries
  | .select specimen cases => specimen.leaves ++ Process.leavesCases cases
  | .send destination arguments => destination.leaves ++ Process.leavesAll arguments
  | .binary _ left right | .par left right => left.leaves ++ right.leaves
  | .unary _ operand => operand.leaves
  | .receive clauses continuation => Name.leavesClauses clauses ++ continuation.leaves
  | .contract name formals body => name.leaves ++ (Name.leavesAll formals ++ body.leaves)
  | .drop name => name.leaves
  | .new _ body => body.leaves
  | .unspecified => [.unspecified "Process"]

/-- The leaves of a name. -/
def Name.leaves : Name → List Leaf
  | .var _ => []
  | .quote process => process.leaves
  | .unspecified => [.unspecified "Name"]

/-- The leaves of several processes. -/
def Process.leavesAll : List Process → List Leaf
  | [] => []
  | p :: rest => p.leaves ++ Process.leavesAll rest

/-- The leaves of the entries of a map. -/
def Process.leavesEntries : List (WideString × Process) → List Leaf
  | [] => []
  | (_, p) :: rest => p.leaves ++ Process.leavesEntries rest

/-- The leaves of cases. -/
def Process.leavesCases : List (Process × Process) → List Leaf
  | [] => []
  | (pattern, body) :: rest => pattern.leaves ++ (body.leaves ++ Process.leavesCases rest)

/-- The leaves of several names. -/
def Name.leavesAll : List Name → List Leaf
  | [] => []
  | n :: rest => n.leaves ++ Name.leavesAll rest

/-- The leaves of the clauses of a receiver. -/
def Name.leavesClauses : List (List Name × Name) → List Leaf
  | [] => []
  | (patterns, channel) :: rest =>
    Name.leavesAll patterns ++ (channel.leaves ++ Name.leavesClauses rest)

end

/-! ### Where printing stops -/

/-- One of the leaves has no text for the given reason. -/
def Blocked (e : RenderError) (leaves : List Leaf) : Prop := ∃ l ∈ leaves, l.error? = some e

@[simp] theorem blocked_nil (e : RenderError) : Blocked e [] ↔ False := by simp [Blocked]

@[simp] theorem blocked_append (e : RenderError) (ls ms : List Leaf) :
    Blocked e (ls ++ ms) ↔ Blocked e ls ∨ Blocked e ms := by
  simp [Blocked, or_and_right, exists_or]

@[simp] theorem blocked_unspecified (e : RenderError) (sort : String) :
    Blocked e [.unspecified sort] ↔ e = .unspecified sort := by
  simp only [Blocked, Leaf.error?, List.mem_singleton, exists_eq_left, Option.some.injEq]
  exact eq_comm

@[simp] theorem Ground.stuck_eq_layout_iff (v : Ground) (e : RenderError) :
    Command.stuck e = v.layout ↔ Blocked e [.ground v] := by
  rw [Ground.layout]
  cases h : v.text? with
  | some text => simp [Blocked, Leaf.error?, h]
  | none =>
    simp only [Blocked, Leaf.error?, h, List.mem_singleton, exists_eq_left, Option.isNone_none, if_true,
      Option.some.injEq, Command.stuck.injEq]
    exact eq_comm

theorem Binding.stuck_not_mem_layoutAll (e : RenderError) (bs : List Binding) :
    Command.stuck e ∉ Binding.layoutAll bs := by
  have hnext : ∀ b : Binding, Command.stuck e ∉ b.layoutNext := by
    intro b
    cases b <;> simp [Binding.layoutNext]
  cases bs <;> simp [Binding.layoutAll, hnext]

section

attribute [local simp] Process.layout Name.layout Process.layoutAll Process.layoutEntries
  Process.layoutCases Name.layoutAll Name.layoutClauses Process.leaves Name.leaves Process.leavesAll
  Process.leavesEntries Process.leavesCases Name.leavesAll Name.leavesClauses

mutual

/-- **Printing stops only at leaves**: the commands that are stuck are those of leaves without a text. -/
theorem Process.stuck_mem_layout (e : RenderError) (p : Process) :
    .stuck e ∈ p.layout ↔ Blocked e p.leaves := by
  cases p
  case nil => simp
  case ground value => simp
  case list items => simp [Process.stuck_mem_layoutAll e items]
  case tuple items => simp [Process.stuck_mem_layoutAll e items]
  case map entries => simp [Process.stuck_mem_layoutEntries e entries]
  case select specimen cases =>
    simp [specimen.stuck_mem_layout e, Process.stuck_mem_layoutCases e cases]
  case send destination arguments =>
    simp [destination.stuck_mem_layout e, Process.stuck_mem_layoutAll e arguments]
  case binary operator left right => simp [left.stuck_mem_layout e, right.stuck_mem_layout e]
  case unary operator operand => simp [operand.stuck_mem_layout e]
  case receive clauses continuation =>
    simp [Name.stuck_mem_layoutClauses e clauses, continuation.stuck_mem_layout e]
  case contract name formals body =>
    simp [name.stuck_mem_layout e, Name.stuck_mem_layoutAll e formals, body.stuck_mem_layout e]
  case drop name => simp [name.stuck_mem_layout e]
  case par left right => simp [left.stuck_mem_layout e, right.stuck_mem_layout e]
  case new bindings body =>
    simp [Binding.stuck_not_mem_layoutAll e bindings, body.stuck_mem_layout e]
  case unspecified => simp
termination_by structural p

theorem Name.stuck_mem_layout (e : RenderError) (n : Name) : .stuck e ∈ n.layout ↔ Blocked e n.leaves := by
  cases n with
  | var => simp
  | quote process => simp [process.stuck_mem_layout e]
  | unspecified => simp
termination_by structural n

theorem Process.stuck_mem_layoutAll (e : RenderError) (ps : List Process) :
    .stuck e ∈ Process.layoutAll ps ↔ Blocked e (Process.leavesAll ps) := by
  obtain _ | ⟨p, _ | ⟨q, rest⟩⟩ := ps
  · simp
  · simp [p.stuck_mem_layout e]
  · have ih := Process.stuck_mem_layoutAll e (q :: rest)
    rw [Process.layoutAll, Process.leavesAll, blocked_append, ← ih, ← p.stuck_mem_layout e]
    simp only [List.mem_append, List.mem_cons, reduceCtorEq, false_or]
termination_by structural ps

theorem Process.stuck_mem_layoutEntries (e : RenderError) (es : List (WideString × Process)) :
    .stuck e ∈ Process.layoutEntries es ↔ Blocked e (Process.leavesEntries es) := by
  obtain _ | ⟨⟨key, p⟩, _ | ⟨q, rest⟩⟩ := es
  · simp
  · simp [p.stuck_mem_layout e]
  · have ih := Process.stuck_mem_layoutEntries e (q :: rest)
    rw [Process.layoutEntries, Process.leavesEntries, blocked_append, ← ih, ← p.stuck_mem_layout e]
    simp only [List.cons_append, List.mem_append, List.mem_cons, reduceCtorEq, false_or]
termination_by structural es

theorem Process.stuck_mem_layoutCases (e : RenderError) (cs : List (Process × Process)) :
    .stuck e ∈ Process.layoutCases cs ↔ Blocked e (Process.leavesCases cs) := by
  obtain _ | ⟨⟨pattern, body⟩, rest⟩ := cs
  · simp
  · simp [pattern.stuck_mem_layout e, body.stuck_mem_layout e, Process.stuck_mem_layoutCases e rest]
termination_by structural cs

theorem Name.stuck_mem_layoutAll (e : RenderError) (ns : List Name) :
    .stuck e ∈ Name.layoutAll ns ↔ Blocked e (Name.leavesAll ns) := by
  obtain _ | ⟨n, _ | ⟨m, rest⟩⟩ := ns
  · simp
  · simp [n.stuck_mem_layout e]
  · have ih := Name.stuck_mem_layoutAll e (m :: rest)
    rw [Name.layoutAll, Name.leavesAll, blocked_append, ← ih, ← n.stuck_mem_layout e]
    simp only [List.mem_append, List.mem_cons, reduceCtorEq, false_or]
termination_by structural ns

theorem Name.stuck_mem_layoutClauses (e : RenderError) (cs : List (List Name × Name)) :
    .stuck e ∈ Name.layoutClauses cs ↔ Blocked e (Name.leavesClauses cs) := by
  obtain _ | ⟨⟨patterns, channel⟩, _ | ⟨c, rest⟩⟩ := cs
  · simp
  · simp [Name.stuck_mem_layoutAll e patterns, channel.stuck_mem_layout e]
  · have ih := Name.stuck_mem_layoutClauses e (c :: rest)
    rw [Name.layoutClauses, Name.leavesClauses, blocked_append, blocked_append, ← ih,
      ← Name.stuck_mem_layoutAll e patterns, ← channel.stuck_mem_layout e]
    simp only [List.append_assoc, List.cons_append, List.mem_append, List.mem_cons, reduceCtorEq, false_or]
termination_by structural cs

end

end

/-! ### Texts -/

/-- Commands run to the end unless one of them is stuck, and else end with the reason of one that is. -/
theorem Printer.run_cases (out : Printer) (xs : List Command) :
    (out.run xs).2 = none ∧ (∀ e, .stuck e ∉ xs) ∨ ∃ e, (out.run xs).2 = some e ∧ .stuck e ∈ xs := by
  induction xs generalizing out with
  | nil => exact .inl ⟨rfl, by simp⟩
  | cons c rest ih =>
    cases c with
    | stuck e => exact .inr ⟨e, rfl, List.mem_cons_self⟩
    | print text => simpa [run] using ih (out.print text)
    | enter text => simpa [run] using ih (out.enter text)
    | newline => simpa [run] using ih out.newline
    | leave text => simpa [run] using ih (out.leave text)

/-- **A term has a text, or a leaf without one says why not.** -/
theorem Process.text_cases (p : Process) :
    (∃ text, p.text = .ok text) ∧ (∀ l ∈ p.leaves, l.error? = none) ∨
      ∃ e, p.text = .error e ∧ Blocked e p.leaves := by
  obtain ⟨hnone, hfree⟩ | ⟨e, hsome, hmem⟩ := run_cases {} p.layout
  · refine .inl ⟨⟨(run {} p.layout).1.text, ?_⟩, fun l hl => ?_⟩
    · rw [Process.text, Process.render, ← Prod.mk.eta (p := run {} p.layout), hnone]
    · rw [Option.eq_none_iff_forall_not_mem]
      intro e he
      exact hfree e ((p.stuck_mem_layout e).mpr ⟨l, hl, he⟩)
  · refine .inr ⟨e, ?_, (p.stuck_mem_layout e).mp hmem⟩
    rw [Process.text, Process.render, ← Prod.mk.eta (p := run {} p.layout), hsome]

/-- An integer has no text exactly if the nearest double is infinite. -/
theorem Ground.text?_int_eq_none_iff (n : Int) :
    (Ground.int n).text? = none ↔ 2 ^ 1024 - 2 ^ 970 ≤ n.natAbs := by
  rw [← Nat.not_lt, ← Double.isFinite_ofInt_iff]
  by_cases hx : (Double.ofInt n).isFinite = true
  · rw [Ground.text?_eq_doubleText (v := .int n) rfl hx]
    simp [hx]
  · have hlarge : ¬ n.natAbs < Nat.pow 2 53 := fun hsmall =>
      hx ((Double.isFinite_ofInt_iff n).mpr (hsmall.trans (by decide +kernel)))
    rw [Ground.text?, if_neg hlarge, if_neg hx]
    simp [hx]

theorem Leaf.error?_int (n : Int) :
    (Leaf.ground (.int n)).error? = none ∧ n.natAbs < 2 ^ 1024 - 2 ^ 970 ∨
      (Leaf.ground (.int n)).error? = some .overflow ∧ 2 ^ 1024 - 2 ^ 970 ≤ n.natAbs := by
  have hiff := Ground.text?_int_eq_none_iff n
  cases htext : (Ground.int n).text? with
  | some text =>
    rw [htext] at hiff
    exact .inl ⟨by simp [Leaf.error?, htext], Nat.not_le.mp fun hle => Option.some_ne_none _ (hiff.mpr hle)⟩
  | none => exact .inr ⟨by simp [Leaf.error?, htext], hiff.mp htext⟩

/-- **Integers print as long as their double is finite.** The text of an integer is that of the nearest
double, which below `2 ^ 53` is the digits of the integer; from `2 ^ 1024 - 2 ^ 970` on the nearest double is
infinite and there is no text. A term whose leaves are integers has a text if all of them have, and else
printing it ends with an overflow. -/
theorem integers_print (n : Int) {p : Process} (hp : ∀ l ∈ p.leaves, ∃ m, l = .ground (.int m)) :
    (∃ x : Double, x.IsNearest n ∧
      (n.natAbs < 2 ^ 1024 - 2 ^ 970 → x.isFinite = true ∧ ∃ s : String, (Ground.int n).text? = some ↑s ∧
        x.IsNumberText s ∧ (n.natAbs < 2 ^ 53 → s = toString n)) ∧
      (2 ^ 1024 - 2 ^ 970 ≤ n.natAbs → x.isFinite = false ∧ (Ground.int n).text? = none)) ∧
    ((∃ text, p.text = .ok text) ∧
        (∀ m, .ground (.int m) ∈ p.leaves → m.natAbs < 2 ^ 1024 - 2 ^ 970) ∨
      p.text = .error .overflow ∧ ∃ m, .ground (.int m) ∈ p.leaves ∧ 2 ^ 1024 - 2 ^ 970 ≤ m.natAbs) := by
  constructor
  · refine ⟨Double.ofInt n, Double.ofInt_isNearest n, fun hn => ?_, fun hn => ?_⟩
    · have hx := (Double.isFinite_ofInt_iff n).mpr hn
      refine ⟨hx, _, Ground.text?_eq_doubleText (v := .int n) rfl hx, Ground.isNumberText_doubleText hx, ?_⟩
      intro hsmall
      rw [← Ground.digitsText_eq_doubleText hsmall, Ground.digitsText_eq_toString]
    · have hx : (Double.ofInt n).isFinite = false :=
        Bool.eq_false_iff.mpr fun h => absurd ((Double.isFinite_ofInt_iff n).mp h) (Nat.not_lt.mpr hn)
      exact ⟨hx, (Ground.text?_int_eq_none_iff n).mpr hn⟩
  · obtain ⟨htext, hleaves⟩ | ⟨e, htext, l, hl, he⟩ := p.text_cases
    · refine .inl ⟨htext, fun m hm => ?_⟩
      obtain ⟨-, hlt⟩ | ⟨hsome, -⟩ := Leaf.error?_int m
      · exact hlt
      · rw [hleaves _ hm] at hsome
        cases hsome
    · obtain ⟨m, rfl⟩ := hp l hl
      obtain ⟨hnone, -⟩ | ⟨hsome, hle⟩ := Leaf.error?_int m
      · rw [hnone] at he
        cases he
      · obtain rfl : .overflow = e := Option.some.inj (hsome.symm.trans he)
        exact .inr ⟨htext, m, hl, hle⟩

/-- A send of two integers, one of them written as a double, has a text. -/
theorem integers_print_send : ∃ text,
    (Process.send (.var "c") [.ground (.int 7), .ground (.int (2 ^ 60))]).text = .ok text := by
  have hleaves : ∀ l ∈ (Process.send (.var "c") [.ground (.int 7), .ground (.int (2 ^ 60))]).leaves,
      ∃ n, l = .ground (.int n) := by
    simp [Process.leaves, Process.leavesAll, Name.leaves]
  obtain ⟨htext, -⟩ | ⟨-, n, hn, hle⟩ := (integers_print 7 hleaves).2
  · exact htext
  · have hcases : n = 7 ∨ n = 2 ^ 60 := by
      simpa [Process.leaves, Process.leavesAll, Name.leaves] using hn
    obtain rfl | rfl := hcases
    · exact absurd hle (by decide +kernel)
    · exact absurd hle (by decide +kernel)

/-- The integer `10 ^ 309` has no text. -/
theorem integer_without_text :
    (Ground.int (10 ^ 309)).text? = none ∧ (Process.ground (.int (10 ^ 309))).text = .error .overflow := by
  have htext : (Ground.int (10 ^ 309)).text? = none := by decide +kernel
  refine ⟨htext, ?_⟩
  rw [Process.text, Process.render, Process.layout, Ground.layout, htext]
  rfl

end RhoScript
