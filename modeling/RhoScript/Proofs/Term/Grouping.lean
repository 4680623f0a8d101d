import RhoScript.Term.Layout

/-!
# Terms up to grouping

The text of a term has no parentheses around operators and processes side by side, and it shows
numbers by their text alone. Terms that differ in nothing else are alike: in how processes side by side
are grouped, how operators next to each other are, and which of the numbers with a text is meant.

Main statement: terms that are alike are written by the same commands (`Alike.layout_eq`).
-/

namespace RhoScript

open Printer

/-! ### Rows -/

/-- Pieces in a row with a command between any two. -/
def row (between : Command) : List (List Command) → List Command
  | [] => []
  | [xs] => xs
  | xs :: ys :: rest => xs ++ between :: row between (ys :: rest)

theorem Process.layoutAll_eq (ps : List Process) :
    Process.layoutAll ps = row (.print ", ") (ps.map Process.layout) := by
  induction ps with
  | nil => rfl
  | cons p rest ih =>
    cases rest with
    | nil => rfl
    | cons q rest => rw [Process.layoutAll, ih]; rfl

/-- The commands that write an entry of a map. -/
def layoutEntry (e : WideString × Process) : List Command :=
  .print (Ground.quotedText e.1) :: .print ": " :: e.2.layout

theorem Process.layoutEntries_eq (es : List (WideString × Process)) :
    Process.layoutEntries es = row (.print ", ") (es.map layoutEntry) := by
  induction es with
  | nil => rfl
  | cons e rest ih =>
    cases rest with
    | nil => rfl
    | cons f rest => rw [Process.layoutEntries, ih]; rfl

/-- The commands that write a case. -/
def layoutCase (c : Process × Process) : List Command :=
  c.1.layout ++ .enter " => \x7b" :: c.2.layout ++ [.leave "\x7d"]

theorem Process.layoutCases_eq (cs : List (Process × Process)) :
    Process.layoutCases cs = cs.flatMap layoutCase := by
  induction cs with
  | nil => rfl
  | cons c rest ih => simp [Process.layoutCases, layoutCase, ih]

theorem Name.layoutAll_eq (ns : List Name) :
    Name.layoutAll ns = row (.print ", ") (ns.map Name.layout) := by
  induction ns with
  | nil => rfl
  | cons n rest ih =>
    cases rest with
    | nil => rfl
    | cons m rest => rw [Name.layoutAll, ih]; rfl

/-- The commands that write a clause of a receiver. -/
def layoutClause (c : List Name × Name) : List Command :=
  row (.print ", ") (c.1.map Name.layout) ++ .print " <- " :: c.2.layout

theorem Name.layoutClauses_eq (cs : List (List Name × Name)) :
    Name.layoutClauses cs = row (.print "; ") (cs.map layoutClause) := by
  induction cs with
  | nil => rfl
  | cons c rest ih =>
    cases rest with
    | nil => simp [Name.layoutClauses, row, layoutClause, Name.layoutAll_eq]
    | cons d rest => simp [Name.layoutClauses, row, layoutClause, Name.layoutAll_eq, ih]

/-! ### Terms that are alike -/

/-- The value is a number. -/
def Ground.isNumber : Ground → Bool
  | .int _ | .double _ => true
  | _ => false

mutual

/-- Processes that differ in grouping and in numbers of the same text only. -/
inductive Alike : Process → Process → Prop
  | refl (p : Process) : Alike p p
  | symm {p q : Process} : Alike p q → Alike q p
  | trans {p q r : Process} : Alike p q → Alike q r → Alike p r
  /-- Processes side by side can be grouped differently. -/
  | parRegroup (p q r : Process) : Alike (.par (.par p q) r) (.par p (.par q r))
  /-- Operators next to each other can be grouped differently. -/
  | binaryRegroup (o o' : String) (p q r : Process) :
      Alike (.binary o' (.binary o p q) r) (.binary o p (.binary o' q r))
  /-- Numbers with the same text cannot be told apart. -/
  | number {v w : Ground} : v.isNumber = true → w.isNumber = true → v.text? = w.text? →
      Alike (.ground v) (.ground w)
  | list {ps qs : List Process} : ps.length = qs.length → (∀ x ∈ ps.zip qs, Alike x.1 x.2) →
      Alike (.list ps) (.list qs)
  | tuple {ps qs : List Process} : ps.length = qs.length → (∀ x ∈ ps.zip qs, Alike x.1 x.2) →
      Alike (.tuple ps) (.tuple qs)
  | map {es fs : List (WideString × Process)} : es.length = fs.length →
      (∀ x ∈ es.zip fs, x.1.1 = x.2.1) → (∀ x ∈ es.zip fs, Alike x.1.2 x.2.2) →
      Alike (.map es) (.map fs)
  | select {p q : Process} {cs ds : List (Process × Process)} : Alike p q → cs.length = ds.length →
      (∀ x ∈ cs.zip ds, Alike x.1.1 x.2.1) → (∀ x ∈ cs.zip ds, Alike x.1.2 x.2.2) →
      Alike (.select p cs) (.select q ds)
  | send {n m : Name} {ps qs : List Process} : AlikeName n m → ps.length = qs.length →
      (∀ x ∈ ps.zip qs, Alike x.1 x.2) → Alike (.send n ps) (.send m qs)
  | binary {o : String} {p p' q q' : Process} : Alike p p' → Alike q q' →
      Alike (.binary o p q) (.binary o p' q')
  | unary {o : String} {p q : Process} : Alike p q → Alike (.unary o p) (.unary o q)
  | receive {cs ds : List (List Name × Name)} {p q : Process} : cs.length = ds.length →
      (∀ x ∈ cs.zip ds, x.1.1.length = x.2.1.length) →
      (∀ x ∈ cs.zip ds, ∀ y ∈ x.1.1.zip x.2.1, AlikeName y.1 y.2) →
      (∀ x ∈ cs.zip ds, AlikeName x.1.2 x.2.2) → Alike p q → Alike (.receive cs p) (.receive ds q)
  | contract {n m : Name} {ns ms : List Name} {p q : Process} : AlikeName n m →
      ns.length = ms.length → (∀ x ∈ ns.zip ms, AlikeName x.1 x.2) → Alike p q →
      Alike (.contract n ns p) (.contract m ms q)
  | drop {n m : Name} : AlikeName n m → Alike (.drop n) (.drop m)
  | par {p p' q q' : Process} : Alike p p' → Alike q q' → Alike (.par p q) (.par p' q')
  | new {bs : List Binding} {p q : Process} : Alike p q → Alike (.new bs p) (.new bs q)

/-- Names that differ in grouping and in numbers of the same text only. -/
inductive AlikeName : Name → Name → Prop
  | refl (n : Name) : AlikeName n n
  | quote {p q : Process} : Alike p q → AlikeName (.quote p) (.quote q)

end

/-! ### Alike terms have the same text -/

theorem map_congr_zip {α β : Type} {f : α → β} {xs ys : List α} (hlength : xs.length = ys.length)
    (h : ∀ x ∈ xs.zip ys, f x.1 = f x.2) : xs.map f = ys.map f := by
  induction xs generalizing ys with
  | nil =>
    rw [List.eq_nil_of_length_eq_zero hlength.symm]
  | cons x xs ih =>
    cases ys with
    | nil => cases hlength
    | cons y ys =>
      obtain ⟨hx, hrest⟩ := List.forall_mem_cons.mp h
      rw [List.map_cons, List.map_cons, hx, ih (Nat.succ.inj hlength) hrest]

mutual

theorem Alike.layout_eq {p q : Process} (h : Alike p q) : p.layout = q.layout := by
  match h with
  | .refl p => rfl
  | .symm h => exact h.layout_eq.symm
  | .trans h h' => exact h.layout_eq.trans h'.layout_eq
  | .parRegroup p q r => simp [Process.layout]
  | .binaryRegroup o o' p q r => simp [Process.layout]
  | .number _ _ h => simp [Process.layout, Ground.layout, h]
  | .list hlength h | .tuple hlength h =>
    rw [Process.layout, Process.layout, Process.layoutAll_eq, Process.layoutAll_eq,
      map_congr_zip hlength fun x hx => (h x hx).layout_eq]
  | .map hlength hkeys h =>
    rw [Process.layout, Process.layout, Process.layoutEntries_eq, Process.layoutEntries_eq,
      map_congr_zip hlength fun x hx => by
        rw [layoutEntry, layoutEntry, hkeys x hx, (h x hx).layout_eq]]
  | .select hp hlength hpatterns hbodies =>
    rw [Process.layout, Process.layout, Process.layoutCases_eq, Process.layoutCases_eq,
      List.flatMap_def, List.flatMap_def, hp.layout_eq, map_congr_zip hlength fun x hx => by
        rw [layoutCase, layoutCase, (hpatterns x hx).layout_eq, (hbodies x hx).layout_eq]]
  | .send hn hlength h =>
    rw [Process.layout, Process.layout, Process.layoutAll_eq, Process.layoutAll_eq, hn.layout_eq,
      map_congr_zip hlength fun x hx => (h x hx).layout_eq]
  | .binary hp hq => rw [Process.layout, Process.layout, hp.layout_eq, hq.layout_eq]
  | .unary hp => rw [Process.layout, Process.layout, hp.layout_eq]
  | .receive hlength hlengths hpatterns hchannels hp =>
    rw [Process.layout, Process.layout, Name.layoutClauses_eq, Name.layoutClauses_eq, hp.layout_eq,
      map_congr_zip hlength fun x hx => by
        rw [layoutClause, layoutClause, (hchannels x hx).layout_eq,
          map_congr_zip (hlengths x hx) fun y hy => (hpatterns x hx y hy).layout_eq]]
  | .contract hn hlength hns hp =>
    rw [Process.layout, Process.layout, Name.layoutAll_eq, Name.layoutAll_eq, hn.layout_eq,
      map_congr_zip hlength fun x hx => (hns x hx).layout_eq, hp.layout_eq]
  | .drop hn => rw [Process.layout, Process.layout, hn.layout_eq]
  | .par hp hq => rw [Process.layout, Process.layout, hp.layout_eq, hq.layout_eq]
  | .new hp => rw [Process.layout, Process.layout, hp.layout_eq]
termination_by structural h

theorem AlikeName.layout_eq {n m : Name} (h : AlikeName n m) : n.layout = m.layout := by
  match h with
  | .refl n => rfl
  | .quote h => rw [Name.layout, Name.layout, h.layout_eq]
termination_by structural h

end

end RhoScript
