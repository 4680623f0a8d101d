import RhoScript.Number.Double
import RhoScript.Text.Wide

/-!
# JSON documents

The values of the data format, with integers and doubles kept apart. An object keeps its fields in
the order of the text; of several fields with one name the last counts.
-/

namespace RhoScript

open Number

/-- A JSON value. -/
inductive Json where
  | null
  | bool (b : Bool)
  | int (n : Int)
  | double (x : Double)
  | string (s : String)
  /-- A string that is no text, which the value of a literal may be. The text of a document has none. -/
  | wide (s : WideString)
  | array (items : List Json)
  | object (fields : List (String × Json))
deriving Inhabited

namespace Json

/-- The value of the last field of that name. -/
def lastField? (name : String) : List (String × Json) → Option Json
  | [] => none
  | (key, value) :: rest =>
    match lastField? name rest with
    | some later => some later
    | none => if key = name then some value else none

/-- The value of a field of an object. -/
def field? (name : String) : Json → Option Json
  | .object fields => lastField? name fields
  | _ => none

/-- A field's value is smaller than the fields together. -/
theorem sizeOf_lastField? {name : String} {fields : List (String × Json)} {value : Json}
    (h : lastField? name fields = some value) : sizeOf value < sizeOf fields := by
  induction fields with
  | nil => simp [lastField?] at h
  | cons f rest ih =>
    obtain ⟨key, first⟩ := f
    unfold lastField? at h
    split at h
    · rename_i later hl
      simp only [Option.some.injEq] at h
      have := ih (h ▸ hl)
      simp only [List.cons.sizeOf_spec]
      omega
    · split at h
      · simp only [Option.some.injEq] at h
        subst h
        simp only [List.cons.sizeOf_spec, Prod.mk.sizeOf_spec]
        omega
      · simp at h

end Json

end RhoScript
