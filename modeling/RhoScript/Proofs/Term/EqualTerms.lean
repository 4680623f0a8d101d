import Mathlib.Data.Nat.Cast.Field
import RhoScript.Proofs.Term.Grouping
import RhoScript.Proofs.Term.IntegerTerms
import RhoScript.Term.Equality

/-!
# Equal terms have equal texts

Terms are compared by what they are built of, and the numbers in them by value: an integer equals the
double of exactly that value, and the two zeros are equal. The text of an integer is that of the nearest
double, and if some double has the value of the integer then that one is nearest
(`Double.sameNumber_ofInt`). So numbers that are the same have the same text
(`Ground.text?_eq_of_same`). Truth values are compared as numbers too, but they are written as words;
terms with truth values are left out. Values may count as the same as themselves (`ValuesSame`), which a
NaN otherwise is not.

Main statement: terms that are the same are written alike by every printer, or printing both of them
stops at the same place (`render_eq_of_same`).
-/

namespace RhoScript

open Number Printer

/-! ### Numbers -/

namespace Number.Double

/-- The integer that a double is has its size and, unless it is zero, its sign. -/
theorem valueAt_of_toInt? {x : Double} {n : Int} (h : x.toInt? = some n) :
    x.isFinite = true ∧ valueAt x.magnitude = n.natAbs ∧ (x.negative = decide (n < 0) ∨ n = 0) := by
  have hquotient := ratio_quotient x
  have hpos := ratio_pos x
  unfold toInt? at h
  split at h
  · rename_i hfinite
    rcases hratio : x.ratio with ⟨num, den⟩
    rw [hratio] at h hquotient hpos
    dsimp only at h hquotient hpos
    split at h
    · rename_i hdvd
      have hne : (den : ℚ) ≠ 0 := by exact_mod_cast hpos.ne'
      rw [← Nat.cast_div (Nat.dvd_of_mod_eq_zero hdvd) hne] at hquotient
      obtain rfl := Option.some.inj h
      rw [← hquotient]
      generalize num / den = k
      refine ⟨hfinite, ?_, ?_⟩
      · split <;> simp
      · rcases Nat.eq_zero_or_pos k with rfl | hk
        · right
          split <;> rfl
        · left
          cases x.negative <;> simp [hk]
    · cases h
  · cases h

/-- **A double that is an integer is the one nearest to it.** -/
theorem sameNumber_ofInt {x : Double} {n : Int} (h : x.toInt? = some n) :
    (ofInt n).sameNumber x = true := by
  obtain ⟨hfinite, hvalue, hsign⟩ := valueAt_of_toInt? h
  have hplace : nearestPlace n.natAbs = x.magnitude := by
    rw [← hvalue]
    exact nearestPlace_valueAt (of_decide_eq_true hfinite)
  rw [sameNumber_iff hfinite, ofInt_eq]
  refine ⟨hplace, ?_⟩
  rcases hsign with hsign | rfl
  · exact .inl hsign.symm
  · right
    rw [hplace]
    apply strictMono_valueAt.injective
    rw [hvalue, valueAt_zero]
    rfl

end Number.Double

namespace Ground

/-- Doubles that are the same number have the same text, infinite ones too. -/
theorem doubleText_congr {x y : Double} (h : x.sameNumber y = true) : doubleText x = doubleText y := by
  by_cases hy : y.isFinite = true
  · exact doubleText_eq_of_sameNumber hy h
  · have hmagnitude : x.magnitude = y.magnitude := by
      simp only [Double.sameNumber, Bool.and_eq_true, decide_eq_true_eq] at h
      exact h.1.2
    have hx : x.isFinite = y.isFinite := by rw [Double.isFinite, Double.isFinite, hmagnitude]
    rw [doubleText, doubleText, hx]
    simp [hy]

/-- A value that counts as an integer and is no truth value is written as that integer. -/
theorem text?_of_number?_inl {v : Ground} {n : Int} (hv : ∀ b, v ≠ .bool b)
    (h : v.number? = some (.inl n)) : v.text? = (Ground.int n).text? := by
  cases v with
  | bool b => exact absurd rfl (hv b)
  | string s => cases h
  | int m =>
    cases h
    rfl
  | double x =>
    simp only [number?] at h
    cases hx : x.toInt? with
    | none =>
      rw [hx] at h
      cases h
    | some m =>
      rw [hx] at h
      cases h
      -- the double is nearest to the integer, so the integer is written as the double is
      have hsame := Double.sameNumber_ofInt hx
      have hfinite := (Double.valueAt_of_toInt? hx).1
      have hofInt : (Double.ofInt n).isFinite = true := by
        rw [Double.isFinite, ((Double.sameNumber_iff hfinite).mp hsame).1]
        exact hfinite
      rw [text?_eq_doubleText (v := .int n) rfl hofInt, doubleText_congr hsame]
      rfl

/-- A value that counts as a double that is no integer is that double. -/
theorem eq_double_of_number?_inr {v : Ground} {x : Double} (h : v.number? = some (.inr x)) :
    v = .double x := by
  cases v with
  | bool | int | string => cases h
  | double y =>
    simp only [number?] at h
    cases hy : y.toInt? with
    | some m =>
      rw [hy] at h
      cases h
    | none =>
      rw [hy] at h
      cases h
      rfl

/-- **Values that are the same have the same text**, unless one is a truth value. -/
theorem text?_eq_of_same {v w : Ground} (hv : ∀ b, v ≠ .bool b) (hw : ∀ b, w ≠ .bool b)
    (h : v.same w = true) : v.text? = w.text? := by
  unfold same at h
  split at h
  · rw [of_decide_eq_true h]
  · split at h
    · rename_i m n hm hn
      rw [text?_of_number?_inl hv hm, text?_of_number?_inl hw hn, of_decide_eq_true h]
    · rename_i x y hx hy
      rw [eq_double_of_number?_inr hx, eq_double_of_number?_inr hy, text?, text?, doubleText_congr h]
    · cases h

end Ground

/-! ### Terms -/

/-- Values that are equal are the same, or one and the same value, as a NaN that two terms share. -/
def ValuesSame (eq : Ground → Ground → Bool) : Prop :=
  ∀ v w, eq v w = true → v = w ∨ v.same w = true

/-- No leaf is a truth value. -/
def BooleanFree (leaves : List Leaf) : Prop := ∀ b, .ground (.bool b) ∉ leaves

theorem booleanFree_append {ls ms : List Leaf} :
    BooleanFree (ls ++ ms) ↔ BooleanFree ls ∧ BooleanFree ms := by
  simp only [BooleanFree, List.mem_append, not_or, forall_and]

theorem BooleanFree.ne_bool {v : Ground} (h : BooleanFree [.ground v]) (b : Bool) : v ≠ .bool b := by
  rintro rfl
  exact h b List.mem_cons_self

section Layouts

variable {eq : Ground → Ground → Bool}

mutual

/-- Processes that are the same are written by the same commands. -/
theorem Process.layout_eq_of_same (heq : ValuesSame eq) (p q : Process) (h : p.sameBy eq q = true)
    (hp : BooleanFree p.leaves) (hq : BooleanFree q.leaves) : p.layout = q.layout := by
  cases p
  case nil =>
    cases q
    case nil => rfl
    all_goals cases h
  case ground v =>
    cases q
    case ground w =>
      have htext : v.text? = w.text? := by
        obtain rfl | h := heq v w h
        · rfl
        · exact Ground.text?_eq_of_same hp.ne_bool hq.ne_bool h
      rw [Process.layout, Process.layout, Ground.layout, Ground.layout, htext]
    all_goals cases h
  case list ps =>
    cases q
    case list qs =>
      have hlayouts := Process.layouts_eq_of_same heq ps qs h hp hq
      rw [Process.layout, Process.layout, Process.layoutAll_eq, Process.layoutAll_eq, hlayouts]
    all_goals cases h
  case tuple ps =>
    cases q
    case tuple qs =>
      have hlayouts := Process.layouts_eq_of_same heq ps qs h hp hq
      rw [Process.layout, Process.layout, Process.layoutAll_eq, Process.layoutAll_eq, hlayouts]
    all_goals cases h
  case map es =>
    cases q
    case map fs =>
      have hlayouts := Process.entries_eq_of_same heq es fs h hp hq
      rw [Process.layout, Process.layout, Process.layoutEntries_eq, Process.layoutEntries_eq, hlayouts]
    all_goals cases h
  case select p cs =>
    cases q
    case select q ds =>
      simp only [Process.sameBy, Process.leaves, Bool.and_eq_true, booleanFree_append] at h hp hq
      have hlayouts := Process.cases_eq_of_same heq cs ds h.2 hp.2 hq.2
      rw [Process.layout, Process.layout, Process.layoutCases_eq, Process.layoutCases_eq,
        List.flatMap_def, List.flatMap_def, p.layout_eq_of_same heq q h.1 hp.1 hq.1, hlayouts]
    all_goals cases h
  case send n ps =>
    cases q
    case send m qs =>
      simp only [Process.sameBy, Process.leaves, Bool.and_eq_true, booleanFree_append] at h hp hq
      have hlayouts := Process.layouts_eq_of_same heq ps qs h.2 hp.2 hq.2
      rw [Process.layout, Process.layout, Process.layoutAll_eq, Process.layoutAll_eq,
        n.layout_eq_of_same heq m h.1 hp.1 hq.1, hlayouts]
    all_goals cases h
  case binary o p p' =>
    cases q
    case binary o' q q' =>
      simp only [Process.sameBy, Process.leaves, Bool.and_eq_true, booleanFree_append,
        decide_eq_true_eq] at h hp hq
      rw [Process.layout, Process.layout, h.1.1, p.layout_eq_of_same heq q h.1.2 hp.1 hq.1,
        p'.layout_eq_of_same heq q' h.2 hp.2 hq.2]
    all_goals cases h
  case unary o p =>
    cases q
    case unary o' q =>
      simp only [Process.sameBy, Bool.and_eq_true, decide_eq_true_eq] at h
      rw [Process.layout, Process.layout, h.1, p.layout_eq_of_same heq q h.2 hp hq]
    all_goals cases h
  case receive cs p =>
    cases q
    case receive ds q =>
      simp only [Process.sameBy, Process.leaves, Bool.and_eq_true, booleanFree_append] at h hp hq
      have hlayouts := Name.clauses_eq_of_same heq cs ds h.1 hp.1 hq.1
      rw [Process.layout, Process.layout, Name.layoutClauses_eq, Name.layoutClauses_eq, hlayouts,
        p.layout_eq_of_same heq q h.2 hp.2 hq.2]
    all_goals cases h
  case contract n ns p =>
    cases q
    case contract m ms q =>
      simp only [Process.sameBy, Process.leaves, Bool.and_eq_true, booleanFree_append] at h hp hq
      have hlayouts := Name.layouts_eq_of_same heq ns ms h.1.2 hp.2.1 hq.2.1
      rw [Process.layout, Process.layout, Name.layoutAll_eq, Name.layoutAll_eq,
        n.layout_eq_of_same heq m h.1.1 hp.1 hq.1, hlayouts, p.layout_eq_of_same heq q h.2 hp.2.2 hq.2.2]
    all_goals cases h
  case drop n =>
    cases q
    case drop m => rw [Process.layout, Process.layout, n.layout_eq_of_same heq m h hp hq]
    all_goals cases h
  case par p p' =>
    cases q
    case par q q' =>
      simp only [Process.sameBy, Process.leaves, Bool.and_eq_true, booleanFree_append] at h hp hq
      rw [Process.layout, Process.layout, p.layout_eq_of_same heq q h.1 hp.1 hq.1,
        p'.layout_eq_of_same heq q' h.2 hp.2 hq.2]
    all_goals cases h
  case new bs p =>
    cases q
    case new cs q =>
      simp only [Process.sameBy, Bool.and_eq_true, decide_eq_true_eq] at h
      rw [Process.layout, Process.layout, h.1, p.layout_eq_of_same heq q h.2 hp hq]
    all_goals cases h
  case unspecified =>
    cases q
    case unspecified => rfl
    all_goals cases h
termination_by structural p

theorem Name.layout_eq_of_same (heq : ValuesSame eq) (n m : Name) (h : n.sameBy eq m = true)
    (hn : BooleanFree n.leaves) (hm : BooleanFree m.leaves) : n.layout = m.layout := by
  cases n with
  | var x =>
    cases m with
    | var y => rw [of_decide_eq_true h]
    | quote | unspecified => cases h
  | quote p =>
    cases m with
    | quote q => rw [Name.layout, Name.layout, p.layout_eq_of_same heq q h hn hm]
    | var | unspecified => cases h
  | unspecified =>
    cases m with
    | unspecified => rfl
    | var | quote => cases h
termination_by structural n

theorem Process.layouts_eq_of_same (heq : ValuesSame eq) (ps qs : List Process)
    (h : Process.sameAll eq ps qs = true) (hps : BooleanFree (Process.leavesAll ps))
    (hqs : BooleanFree (Process.leavesAll qs)) : ps.map Process.layout = qs.map Process.layout := by
  obtain _ | ⟨p, ps⟩ := ps <;> obtain _ | ⟨q, qs⟩ := qs
  · rfl
  · cases h
  · cases h
  · simp only [Process.sameAll, Process.leavesAll, Bool.and_eq_true, booleanFree_append] at h hps hqs
    rw [List.map_cons, List.map_cons, p.layout_eq_of_same heq q h.1 hps.1 hqs.1,
      Process.layouts_eq_of_same heq ps qs h.2 hps.2 hqs.2]
termination_by structural ps

theorem Process.entries_eq_of_same (heq : ValuesSame eq) (es fs : List (WideString × Process))
    (h : Process.sameEntries eq es fs = true) (hes : BooleanFree (Process.leavesEntries es))
    (hfs : BooleanFree (Process.leavesEntries fs)) : es.map layoutEntry = fs.map layoutEntry := by
  obtain _ | ⟨⟨k, p⟩, es⟩ := es <;> obtain _ | ⟨⟨l, q⟩, fs⟩ := fs
  · rfl
  · cases h
  · cases h
  · simp only [Process.sameEntries, Process.leavesEntries, Bool.and_eq_true, booleanFree_append,
      decide_eq_true_eq] at h hes hfs
    rw [List.map_cons, List.map_cons, layoutEntry, layoutEntry, h.1.1,
      p.layout_eq_of_same heq q h.1.2 hes.1 hfs.1, Process.entries_eq_of_same heq es fs h.2 hes.2 hfs.2]
termination_by structural es

theorem Process.cases_eq_of_same (heq : ValuesSame eq) (cs ds : List (Process × Process))
    (h : Process.sameCases eq cs ds = true) (hcs : BooleanFree (Process.leavesCases cs))
    (hds : BooleanFree (Process.leavesCases ds)) : cs.map layoutCase = ds.map layoutCase := by
  obtain _ | ⟨⟨p, p'⟩, cs⟩ := cs <;> obtain _ | ⟨⟨q, q'⟩, ds⟩ := ds
  · rfl
  · cases h
  · cases h
  · simp only [Process.sameCases, Process.leavesCases, Bool.and_eq_true, booleanFree_append] at h hcs hds
    rw [List.map_cons, List.map_cons, layoutCase, layoutCase, p.layout_eq_of_same heq q h.1.1 hcs.1 hds.1,
      p'.layout_eq_of_same heq q' h.1.2 hcs.2.1 hds.2.1,
      Process.cases_eq_of_same heq cs ds h.2 hcs.2.2 hds.2.2]
termination_by structural cs

theorem Name.layouts_eq_of_same (heq : ValuesSame eq) (ns ms : List Name) (h : Name.sameAll eq ns ms = true)
    (hns : BooleanFree (Name.leavesAll ns)) (hms : BooleanFree (Name.leavesAll ms)) :
    ns.map Name.layout = ms.map Name.layout := by
  obtain _ | ⟨n, ns⟩ := ns <;> obtain _ | ⟨m, ms⟩ := ms
  · rfl
  · cases h
  · cases h
  · simp only [Name.sameAll, Name.leavesAll, Bool.and_eq_true, booleanFree_append] at h hns hms
    rw [List.map_cons, List.map_cons, n.layout_eq_of_same heq m h.1 hns.1 hms.1,
      Name.layouts_eq_of_same heq ns ms h.2 hns.2 hms.2]
termination_by structural ns

theorem Name.clauses_eq_of_same (heq : ValuesSame eq) (cs ds : List (List Name × Name))
    (h : Name.sameClauses eq cs ds = true) (hcs : BooleanFree (Name.leavesClauses cs))
    (hds : BooleanFree (Name.leavesClauses ds)) : cs.map layoutClause = ds.map layoutClause := by
  obtain _ | ⟨⟨ns, n⟩, cs⟩ := cs <;> obtain _ | ⟨⟨ms, m⟩, ds⟩ := ds
  · rfl
  · cases h
  · cases h
  · simp only [Name.sameClauses, Name.leavesClauses, Bool.and_eq_true, booleanFree_append] at h hcs hds
    rw [List.map_cons, List.map_cons, layoutClause, layoutClause,
      Name.layouts_eq_of_same heq ns ms h.1.1 hcs.1 hds.1, n.layout_eq_of_same heq m h.1.2 hcs.2.1 hds.2.1,
      Name.clauses_eq_of_same heq cs ds h.2 hcs.2.2 hds.2.2]
termination_by structural cs

end

end Layouts

/-- **Equal terms are written alike**: if two processes or two names without truth values are built alike
from the same values, then whatever a printer has written before, it writes the same for both, or it stops for
the same reason. Terms that are the same are so built, and so are terms that share a NaN. -/
theorem render_eq_of_same {eq : Ground → Ground → Bool} (heq : ValuesSame eq) :
    (∀ p q : Process, p.sameBy eq q = true → BooleanFree p.leaves → BooleanFree q.leaves →
      (∀ out, p.render out = q.render out) ∧ p.text = q.text) ∧
    ∀ n m : Name, n.sameBy eq m = true → BooleanFree n.leaves → BooleanFree m.leaves →
      ∀ out : Printer, out.run n.layout = out.run m.layout := by
  constructor
  · intro p q h hp hq
    have hrender : ∀ out, p.render out = q.render out := by
      intro out
      rw [Process.render, Process.render, p.layout_eq_of_same heq q h hp hq]
    exact ⟨hrender, by rw [Process.text, Process.text, hrender]⟩
  · intro n m h hn hm out
    rw [n.layout_eq_of_same heq m h hn hm]

/-- A send over the channel of `2 ^ 60` of `0` and of what two sends may share. -/
def integerSend (shared : Double) : Process :=
  .send (.quote (.ground (.int (2 ^ 60)))) [.ground (.int 0), .ground (.double shared)]

/-- The same with doubles, of which zero has a sign. -/
def doubleSend (shared : Double) : Process :=
  .send (.quote (.ground (.double (.ofInt (2 ^ 60)))))
    [.ground (.double ⟨true, 0⟩), .ground (.double shared)]

/-- The two sends have one text: they are the same if they share a number, and if they share a NaN then they
are so once it counts as the same as itself. -/
theorem render_eq_of_same_send :
    ((integerSend (.ofInt 7)).same (doubleSend (.ofInt 7)) = true ∧
      (integerSend (.ofInt 7)).text = (doubleSend (.ofInt 7)).text) ∧
    (integerSend .nan).same (doubleSend .nan) = false ∧
    (integerSend .nan).text = (doubleSend .nan).text := by
  have hsame : (integerSend (.ofInt 7)).same (doubleSend (.ofInt 7)) = true := by decide +kernel
  have hshared : (integerSend .nan).sameBy (fun v w => v = w || v.same w) (doubleSend .nan) = true := by
    decide +kernel
  have hfree : ∀ x, BooleanFree (integerSend x).leaves ∧ BooleanFree (doubleSend x).leaves := by
    simp [BooleanFree, integerSend, doubleSend, Process.leaves, Process.leavesAll, Name.leaves]
  refine ⟨⟨hsame, ?_⟩, by decide +kernel, ?_⟩
  · have heq : ValuesSame Ground.same := fun _ _ h => .inr h
    exact ((render_eq_of_same heq).1 _ _ hsame (hfree _).1 (hfree _).2).2
  · have heq : ValuesSame fun v w => v = w || v.same w := by simp [ValuesSame]
    exact ((render_eq_of_same heq).1 _ _ hshared (hfree _).1 (hfree _).2).2

-- A truth value is the same as its number, and yet they have different texts.
example : (Ground.bool true).same (.int 1) = true ∧ (Ground.bool true).text? ≠ (Ground.int 1).text? := by
  decide

end RhoScript
