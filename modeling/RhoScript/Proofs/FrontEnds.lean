import RhoScript.Proofs.Compile
import RhoScript.Proofs.Document.Loading
import RhoScript.Proofs.Source.Steps

/-!
# Two front ends, one data model

A tree comes from a source text or from a document. Main statement: each tree that comes from either is
loaded from its own document, without any change, so that a source text and a document of its tree are
compiled alike (`document_of_frontEnd`).

Equality of documents is computed by `Json.same`, so that the document of one source can be compared with
what is read from a text.
-/

namespace RhoScript

/-! ### Comparing documents -/

mutual

/-- Whether two documents are the same. -/
def Json.same : Json → Json → Bool
  | .null, .null => true
  | .bool a, .bool b => a == b
  | .int a, .int b => a == b
  | .double a, .double b => a == b
  | .string a, .string b => a == b
  | .wide a, .wide b => a == b
  | .array items, .array items' => Json.sameItems items items'
  | .object fields, .object fields' => Json.sameFields fields fields'
  | _, _ => false

/-- Whether two arrays have the same items. -/
def Json.sameItems : List Json → List Json → Bool
  | [], [] => true
  | a :: rest, b :: rest' => a.same b && Json.sameItems rest rest'
  | _, _ => false

/-- Whether two objects have the same fields in the same order. -/
def Json.sameFields : List (String × Json) → List (String × Json) → Bool
  | [], [] => true
  | (key, a) :: rest, (key', b) :: rest' => key == key' && a.same b && Json.sameFields rest rest'
  | _, _ => false

end

mutual

theorem Json.eq_of_same {a b : Json} (h : a.same b = true) : a = b := by
  cases a <;> cases b <;> first | cases h | skip
  case null.null => rfl
  case array.array => rw [Json.eq_of_sameItems h]
  case object.object => rw [Json.eq_of_sameFields h]
  -- the scalars
  all_goals rw [eq_of_beq h]
termination_by structural a

theorem Json.eq_of_sameItems {items items' : List Json} (h : Json.sameItems items items' = true) :
    items = items' := by
  match items, items', h with
  | [], [], _ => rfl
  | a :: rest, b :: rest', h =>
    simp only [Json.sameItems, Bool.and_eq_true] at h
    rw [Json.eq_of_same h.1, Json.eq_of_sameItems h.2]
termination_by structural items

theorem Json.eq_of_sameFields {fields fields' : List (String × Json)}
    (h : Json.sameFields fields fields' = true) : fields = fields' := by
  match fields, fields', h with
  | [], [], _ => rfl
  | (key, a) :: rest, (key', b) :: rest', h =>
    simp only [Json.sameFields, Bool.and_eq_true, beq_iff_eq] at h
    rw [h.1.1, Json.eq_of_same h.1.2, Json.eq_of_sameFields h.2]
termination_by structural fields

end

namespace Compile

open Json Lowering

/-! ### Compiling a tree and its document -/

/-- The failure with the line of the source that the report is about. -/
def Failure.citing (source : String) : Failure → Failure
  | .rejected report => .rejected (report.withContext source)
  | failure => failure

theorem loweringFailure_source (source text : String) (e : Lowering.Failure) :
    loweringFailure .source source e = (loweringFailure .document text e).citing source := by
  cases e <;> rfl

/-- A source and a document of its tree are compiled alike, whatever the tree holds. -/
theorem toProcess_source {source text : String} {n : Node} (path : String)
    (hsource : Source.readProgram source = .ok n) (htext : Document.loadText text = .valid n) :
    toProcess .source path source =
      ((toProcess .document path text).1, (toProcess .document path text).2.mapError (.citing source)) := by
  unfold toProcess readTree
  rw [hsource, htext]
  dsimp only
  cases statementCount n with
  | error misfit => rfl
  | ok count =>
    rcases ExceptT.run (lowerTree n) {} with ⟨e | lowered, ledger⟩
    · dsimp only
      rw [loweringFailure_source source text]
      rfl
    · rfl

/-- **The two front ends meet in one data model**: every tree that is read from a source or loaded from a
document is loaded from its own document, and a source is compiled to what a text of the document of its
tree is compiled to, with the same notices and diagnostics. Where they fail, they fail alike, but for the
line of the source that the report cites. -/
theorem document_of_frontEnd {n : Node}
    (h : (∃ source, Source.readProgram source = .ok n) ∨ ∃ document, Document.load document = .valid n) :
    Document.load n.document = .valid n ∧
    ∀ source text path, Source.readProgram source = .ok n → Reader.read? text = some n.document →
      toProcess .source path source =
        ((toProcess .document path text).1,
          (toProcess .document path text).2.mapError (.citing source)) := by
  have hloads : Document.Loads n := by
    rcases h with ⟨source, hsource⟩ | ⟨document, hdocument⟩
    · exact Document.loads_of_readProgram hsource
    · exact Document.loads_of_load hdocument
  refine ⟨hloads, fun source text path hsource htext => toProcess_source path hsource ?_⟩
  rw [Document.loadText, htext]
  exact hloads

/-- A text of the document of the tree of `1.5;`. -/
def literalDocument : String :=
  "\x7b\"type\":\"Program\"," ++
  "\"loc\":\x7b\"start\":\x7b\"line\":1,\"column\":0\x7d,\"end\":\x7b\"line\":1,\"column\":4\x7d\x7d," ++
  "\"body\":[\x7b\"type\":\"ExpressionStatement\"," ++
  "\"loc\":\x7b\"start\":\x7b\"line\":1,\"column\":0\x7d,\"end\":\x7b\"line\":1,\"column\":4\x7d\x7d," ++
  "\"expression\":\x7b\"type\":\"Literal\"," ++
  "\"loc\":\x7b\"start\":\x7b\"line\":1,\"column\":0\x7d,\"end\":\x7b\"line\":1,\"column\":3\x7d\x7d," ++
  "\"value\":1.5,\"raw\":\"1.5\"\x7d\x7d]\x7d"

theorem document_of_frontEnd_literal : ∃ n, Source.readProgram "1.5;" = .ok n ∧
    Reader.read? literalDocument = some n.document ∧ Document.load n.document = .valid n ∧
    toProcess .source "" "1.5;" =
      ((toProcess .document "" literalDocument).1,
        (toProcess .document "" literalDocument).2.mapError (.citing "1.5;")) := by
  obtain ⟨n, hsource, hsame⟩ := Source.exists_readProgram_of_readWithin 400 "1.5;"
    (fun n => (Reader.read? literalDocument).any (Json.same · n.document) = true) (by decide +kernel)
  obtain ⟨document, hread, hdocument⟩ := (Option.any_eq_true _ _).mp hsame
  rw [Json.eq_of_same hdocument] at hread
  have halike := document_of_frontEnd (.inl ⟨_, hsource⟩)
  exact ⟨n, hsource, hread, halike.1, halike.2 _ _ "" hsource hread⟩

end Compile

end RhoScript
