import RhoScript.Proofs.Term.Grouping
import RhoScript.Proofs.Term.Lexemes

/-!
# Phrases

A phrase is a kind of things with the lexemes that are written for them. One of its things can be read
if, whatever of that kind is found at the front of the same lexemes, it is the same thing and ends at
the same lexeme. Some phrases need to know where they stop.

Main statements: things in a row can be read if each of them can (`Phrase.reads_all`,
`Phrase.reads_row`), and so can processes that are joined without parentheses, up to how they are
grouped (`Joint.Joins.reads`).
-/

namespace RhoScript

open Printer Lexeme

/-! ### Phrases -/

/-- A kind of things that are written by lexemes. -/
structure Phrase (α : Type) where
  lexemes : α → List Lexeme
  Valid : α → Prop
  /-- The lexemes that may follow. -/
  Stops : Lexeme → Prop
  /-- The things that cannot be told apart. -/
  Same : α → α → Prop

namespace Phrase

variable {α : Type} (P : Phrase α)

/-- The lexemes end, or go on with one that may follow. -/
def StopsAt (ls : List Lexeme) : Prop := ∀ l ∈ ls.head?, P.Stops l

/-- The thing can be read wherever it stands. -/
def Reads (x : α) : Prop :=
  ∀ ⦃y⦄, P.Valid y → ∀ ⦃r s⦄, P.StopsAt r → P.StopsAt s → P.lexemes x ++ r = P.lexemes y ++ s →
    P.Same x y ∧ r = s

variable {P}

theorem stopsAt_cons {l : Lexeme} {ls : List Lexeme} (h : P.Stops l) : P.StopsAt (l :: ls) :=
  fun _ hl => Option.some.inj hl ▸ h

/-- Things in a row, if what begins one of them cannot follow the last of them. -/
theorem reads_all (starts : Lexeme → Prop) (hstops : ∀ l, starts l → P.Stops l)
    (hstarts : ∀ x, P.Valid x → ∃ l rest, P.lexemes x = l :: rest ∧ starts l) {xs ys : List α}
    (hxs : ∀ x ∈ xs, P.Valid x ∧ P.Reads x) (hys : ∀ y ∈ ys, P.Valid y) {r s : List Lexeme}
    (hr : ∀ l ∈ r.head?, P.Stops l ∧ ¬ starts l) (hs : ∀ l ∈ s.head?, P.Stops l ∧ ¬ starts l)
    (h : xs.flatMap P.lexemes ++ r = ys.flatMap P.lexemes ++ s) :
    xs.length = ys.length ∧ (∀ z ∈ xs.zip ys, P.Same z.1 z.2) ∧ r = s := by
  -- After one thing stands another one, or what follows the last.
  have hnext : ∀ {zs : List α} {t : List Lexeme}, (∀ z ∈ zs, P.Valid z) →
      (∀ l ∈ t.head?, P.Stops l ∧ ¬ starts l) → P.StopsAt (zs.flatMap P.lexemes ++ t) := by
    intro zs t hzs ht
    cases zs with
    | nil => exact fun l hl => (ht l hl).1
    | cons z zs =>
      obtain ⟨l, rest, hlexemes, hl⟩ := hstarts z (hzs z List.mem_cons_self)
      rw [List.flatMap_cons, hlexemes]
      exact stopsAt_cons (hstops l hl)
  induction xs generalizing ys with
  | nil =>
    cases ys with
    | nil => exact ⟨rfl, nofun, h⟩
    | cons y ys =>
      obtain ⟨l, rest, hlexemes, hl⟩ := hstarts y (hys y List.mem_cons_self)
      have hhead : r.head? = some l := by
        rw [List.flatMap_nil, List.nil_append] at h
        rw [h, List.flatMap_cons, hlexemes]
        rfl
      exact absurd hl (hr l hhead).2
  | cons x xs ih =>
    obtain ⟨⟨hx, hreads⟩, hxs⟩ := List.forall_mem_cons.mp hxs
    cases ys with
    | nil =>
      obtain ⟨l, rest, hlexemes, hl⟩ := hstarts x hx
      have hhead : s.head? = some l := by
        rw [List.flatMap_nil, List.nil_append] at h
        rw [← h, List.flatMap_cons, hlexemes]
        rfl
      exact absurd hl (hs l hhead).2
    | cons y ys =>
      obtain ⟨hy, hys⟩ := List.forall_mem_cons.mp hys
      rw [List.flatMap_cons, List.flatMap_cons, List.append_assoc, List.append_assoc] at h
      obtain ⟨hsame, hrest⟩ :=
        hreads hy (hnext (fun z hz => (hxs z hz).1) hr) (hnext hys hs) h
      obtain ⟨hlength, hall, hend⟩ := ih hxs hys hrest
      exact ⟨congrArg Nat.succ hlength, List.forall_mem_cons.mpr ⟨hsame, hall⟩, hend⟩

/-! ### Things with a separator -/

variable (P)

/-- Things after a separator. -/
def after (separator : Lexeme) : Phrase α := { P with lexemes := fun x => separator :: P.lexemes x }

/-- Things in a row with a separator between any two. -/
def row (separator : Lexeme) : List α → List Lexeme
  | [] => []
  | x :: rest => P.lexemes x ++ rest.flatMap (P.after separator).lexemes

variable {P} {separator closing : Lexeme} {r s : List Lexeme}

theorem Reads.after {x : α} (h : P.Reads x) (separator : Lexeme) : (P.after separator).Reads x :=
  fun _ hy _ _ hr hs heq => h hy hr hs (List.cons.inj heq).2

/-- A row that is not empty. -/
theorem reads_row_cons (hseparator : P.Stops separator) (hclosing : P.Stops closing)
    (hne : closing ≠ separator) {x y : α} {xs ys : List α}
    (hxs : ∀ z ∈ x :: xs, P.Valid z ∧ P.Reads z) (hys : ∀ z ∈ y :: ys, P.Valid z)
    (h : P.row separator (x :: xs) ++ closing :: r = P.row separator (y :: ys) ++ closing :: s) :
    (x :: xs).length = (y :: ys).length ∧ (∀ z ∈ (x :: xs).zip (y :: ys), P.Same z.1 z.2) ∧
      r = s := by
  obtain ⟨⟨hx, hreads⟩, hxs⟩ := List.forall_mem_cons.mp hxs
  obtain ⟨hy, hys⟩ := List.forall_mem_cons.mp hys
  have hnext : ∀ (zs : List α) (t : List Lexeme),
      P.StopsAt (zs.flatMap (P.after separator).lexemes ++ closing :: t) := by
    intro zs t
    cases zs with
    | nil => exact stopsAt_cons hclosing
    | cons z zs => exact stopsAt_cons hseparator
  have hend : ∀ t : List Lexeme, ∀ l ∈ (closing :: t).head?, P.Stops l ∧ ¬ l = separator :=
    fun t l hl => Option.some.inj hl ▸ ⟨hclosing, hne⟩
  rw [row, row, List.append_assoc, List.append_assoc] at h
  obtain ⟨hsame, hrest⟩ := hreads hy (hnext xs r) (hnext ys s) h
  obtain ⟨hlength, hall, heq⟩ := reads_all (P := P.after separator) (· = separator)
    (fun _ hl => hl ▸ hseparator) (fun z _ => ⟨separator, P.lexemes z, rfl, rfl⟩)
    (fun z hz => ⟨(hxs z hz).1, (hxs z hz).2.after separator⟩) hys (hend r) (hend s) hrest
  exact ⟨congrArg Nat.succ hlength, List.forall_mem_cons.mpr ⟨hsame, hall⟩, (List.cons.inj heq).2⟩

/-- A row that may be empty, if what closes it begins nothing in it. -/
theorem reads_row (hseparator : P.Stops separator) (hclosing : P.Stops closing)
    (hne : closing ≠ separator)
    (hstarts : ∀ x, P.Valid x → ∃ l rest, P.lexemes x = l :: rest ∧ l ≠ closing) {xs ys : List α}
    (hxs : ∀ x ∈ xs, P.Valid x ∧ P.Reads x) (hys : ∀ y ∈ ys, P.Valid y)
    (h : P.row separator xs ++ closing :: r = P.row separator ys ++ closing :: s) :
    xs.length = ys.length ∧ (∀ z ∈ xs.zip ys, P.Same z.1 z.2) ∧ r = s := by
  cases xs with
  | nil =>
    cases ys with
    | nil => exact ⟨rfl, nofun, (List.cons.inj h).2⟩
    | cons y ys =>
      obtain ⟨l, rest, hlexemes, hl⟩ := hstarts y (hys y List.mem_cons_self)
      rw [row, row, hlexemes] at h
      exact absurd (List.cons.inj h).1.symm hl
  | cons x xs =>
    cases ys with
    | nil =>
      obtain ⟨l, rest, hlexemes, hl⟩ := hstarts x (hxs x List.mem_cons_self).1
      rw [row, row, hlexemes] at h
      exact absurd (List.cons.inj h).1 hl
    | cons y ys => exact reads_row_cons hseparator hclosing hne hxs hys h

end Phrase

/-! ### Processes -/

/-- The lexemes that are written for a process. -/
def Process.lexemes (p : Process) : List Lexeme := p.layout.flatMap Command.lexemes

/-- Processes of a kind, up to grouping. -/
def Phrase.processes (valid : Process → Prop) (stops : Lexeme → Prop) : Phrase Process :=
  ⟨Process.lexemes, valid, stops, Alike⟩

/-- What joins two processes into one that is written without parentheses. -/
structure Joint (L : Type) where
  node : L → Process → Process → Process
  Valid : L → Prop
  /-- The lexeme between the two processes. -/
  lexeme : L → Lexeme
  lexeme_injective {l m : L} : Valid l → Valid m → lexeme l = lexeme m → l = m
  lexemes_node {l : L} (p q : Process) : Valid l →
    (node l p q).lexemes = p.lexemes ++ lexeme l :: q.lexemes
  regroup (l m : L) (p q r : Process) : Alike (node m (node l p q) r) (node l p (node m q r))
  congr {l : L} {p p' q q' : Process} : Alike p p' → Alike q q' →
    Alike (node l p q) (node l p' q')

namespace Joint

variable {L : Type} (J : Joint L)

/-- The process joins a first part and further ones, in some grouping. -/
inductive Joins (part : Process → Prop) : Process → Process → List (L × Process) → Prop
  | single {p : Process} : part p → Joins part p p []
  | node {l : L} {p q a b : Process} {xs ys : List (L × Process)} : J.Valid l → Joins part p a xs →
      Joins part q b ys → Joins part (J.node l p q) a (xs ++ (l, b) :: ys)

/-- Further parts, with what joins them to those before. -/
def further (valid : Process → Prop) (stops : Lexeme → Prop) : Phrase (L × Process) where
  lexemes x := J.lexeme x.1 :: x.2.lexemes
  Valid x := J.Valid x.1 ∧ valid x.2
  Stops := stops
  Same x y := x.1 = y.1 ∧ Alike x.2 y.2

/-- A first part and further ones, grouped from the left. -/
def group (a : Process) (xs : List (L × Process)) : Process :=
  xs.foldl (fun b x => J.node x.1 b x.2) a

variable {J} {part : Process → Prop} {p a : Process} {xs : List (L × Process)}

theorem group_congr {b : Process} (hfirst : Alike a b) {ys : List (L × Process)}
    (hlength : xs.length = ys.length)
    (h : ∀ z ∈ xs.zip ys, z.1.1 = z.2.1 ∧ Alike z.1.2 z.2.2) : Alike (J.group a xs) (J.group b ys) := by
  induction xs generalizing a b ys with
  | nil =>
    obtain rfl := List.eq_nil_of_length_eq_zero hlength.symm
    exact hfirst
  | cons x xs ih =>
    cases ys with
    | nil => cases hlength
    | cons y ys =>
      obtain ⟨⟨hlabel, hpart⟩, hrest⟩ := List.forall_mem_cons.mp h
      simp only at hlabel hpart
      simp only [group, List.foldl_cons, hlabel]
      exact ih (J.congr hfirst hpart) (Nat.succ.inj hlength) hrest

/-- A group can be joined to the first of its parts. -/
theorem node_group_alike (l : L) (c b : Process) (ys : List (L × Process)) :
    Alike (J.node l c (J.group b ys)) (J.group (J.node l c b) ys) := by
  induction ys generalizing b with
  | nil => exact .refl _
  | cons y ys ih =>
    refine (ih (J.node y.1 b y.2)).trans (group_congr (J.regroup l y.1 c b y.2).symm rfl ?_)
    intro z hz
    obtain ⟨i, hi, rfl⟩ := List.mem_iff_getElem.mp hz
    simp [Alike.refl]

theorem Joins.alike_group (h : J.Joins part p a xs) : Alike p (J.group a xs) := by
  induction h with
  | single _ => exact .refl _
  | @node l p q a b xs ys _ _ _ hp hq =>
    rw [group, List.foldl_append]
    exact (J.congr hp hq).trans (node_group_alike l _ b ys)

theorem Joins.lexemes_eq (h : J.Joins part p a xs) :
    p.lexemes = a.lexemes ++ xs.flatMap fun x => J.lexeme x.1 :: x.2.lexemes := by
  induction h with
  | single _ => simp
  | node hl _ _ hp hq => simp [J.lexemes_node _ _ hl, hp, hq]

theorem Joins.parts (h : J.Joins part p a xs) : part a ∧ ∀ x ∈ xs, J.Valid x.1 ∧ part x.2 := by
  induction h with
  | single hp => exact ⟨hp, nofun⟩
  | node hl _ _ hp hq =>
    refine ⟨hp.1, fun x hx => ?_⟩
    obtain hx | rfl | hx := by simpa using hx
    · exact hp.2 x hx
    · exact ⟨hl, hq.1⟩
    · exact hq.2 x hx

theorem reads_further {valid : Process → Prop} {stops : Lexeme → Prop} {x : L × Process}
    (hl : J.Valid x.1) (h : (Phrase.processes valid stops).Reads x.2) :
    (J.further valid stops).Reads x := by
  intro y hy r s hr hs heq
  obtain ⟨hhead, hrest⟩ := List.cons.inj heq
  obtain ⟨halike, hend⟩ := h hy.2 hr hs hrest
  exact ⟨⟨J.lexeme_injective hl hy.1 hhead, halike⟩, hend⟩

/-- Joined processes are read if their parts are. -/
theorem Joins.reads {valid : Process → Prop} {stops : Lexeme → Prop}
    (hp : J.Joins (fun c => valid c ∧ (Phrase.processes valid stops).Reads c) p a xs)
    (hstops : ∀ l, J.Valid l → stops (J.lexeme l)) {q b : Process} {ys : List (L × Process)}
    (hq : J.Joins valid q b ys) {r s : List Lexeme}
    (hr : ∀ l ∈ r.head?, stops l ∧ ∀ m, J.Valid m → l ≠ J.lexeme m)
    (hs : ∀ l ∈ s.head?, stops l ∧ ∀ m, J.Valid m → l ≠ J.lexeme m)
    (h : p.lexemes ++ r = q.lexemes ++ s) : Alike p q ∧ r = s := by
  obtain ⟨⟨-, hfirst⟩, hfurther⟩ := hp.parts
  obtain ⟨hfirst', hfurther'⟩ := hq.parts
  have hnext : ∀ {zs : List (L × Process)} {t : List Lexeme}, (∀ z ∈ zs, J.Valid z.1) →
      (∀ l ∈ t.head?, stops l) →
      (Phrase.processes valid stops).StopsAt
        ((zs.flatMap fun x => J.lexeme x.1 :: x.2.lexemes) ++ t) := by
    intro zs t hzs ht
    cases zs with
    | nil => exact ht
    | cons z zs => exact Phrase.stopsAt_cons (hstops _ (hzs z List.mem_cons_self))
  rw [hp.lexemes_eq, hq.lexemes_eq, List.append_assoc, List.append_assoc] at h
  obtain ⟨halike, hrest⟩ := hfirst hfirst'
    (hnext (fun z hz => (hfurther z hz).1) fun l hl => (hr l hl).1)
    (hnext (fun z hz => (hfurther' z hz).1) fun l hl => (hs l hl).1) h
  obtain ⟨hlength, hall, hend⟩ := Phrase.reads_all (P := J.further valid stops)
    (fun l => ∃ m, J.Valid m ∧ l = J.lexeme m) (fun _ ⟨m, hm, hl⟩ => hl ▸ hstops m hm)
    (fun x hx => ⟨_, _, rfl, x.1, hx.1, rfl⟩)
    (fun x hx => have ⟨hl, hvalid, hreads⟩ := hfurther x hx
      ⟨⟨hl, hvalid⟩, reads_further hl hreads⟩) hfurther'
    (fun l hl => ⟨(hr l hl).1, fun ⟨m, hm, heq⟩ => (hr l hl).2 m hm heq⟩)
    (fun l hl => ⟨(hs l hl).1, fun ⟨m, hm, heq⟩ => (hs l hl).2 m hm heq⟩) hrest
  exact ⟨hp.alike_group.trans ((group_congr halike hlength hall).trans hq.alike_group.symm), hend⟩

end Joint

end RhoScript
