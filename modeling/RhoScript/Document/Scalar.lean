import RhoScript.Document.IntegerText
import RhoScript.Ground
import RhoScript.Json.Basic

/-!
# Texts, numbers and flags in documents

A text is taken as it is. Numbers and flags are taken in the forms that documents commonly give
them: a flag also as 0 or 1 or as a word, an integer also as a whole double or in a text.
-/

namespace RhoScript.Document

open Number Text

/-- Reads a text. -/
def text : Json → Validated String
  | .string s => .valid s
  | _ => .fail .stringType

/-- An integer is a word if its absolute value takes at most 63 bits. -/
def isWord (n : Int) : Bool := -0x8000000000000000 < n && n < 0x8000000000000000

/-! ### Flags -/

/-- The words for a flag that is set. -/
def trueWords : List String := ["1", "on", "t", "true", "y", "yes"]

/-- The words for a flag that is not set. -/
def falseWords : List String := ["0", "off", "f", "false", "n", "no"]

/-- Reads a flag from an integer. One that is no word is not taken for a flag at all. -/
def flagOfInt (n : Int) : Validated Bool :=
  if !isWord n then .fail .boolType
  else if n = 0 then .valid false
  else if n = 1 then .valid true
  else .fail .boolParsing

/-- Reads a flag from a word. The case of the word does not matter. -/
def flagOfText (s : String) : Validated Bool :=
  let word := s.map Char.toLower
  if word ∈ trueWords then .valid true
  else if word ∈ falseWords then .valid false
  else .fail .boolParsing

/-- Reads a flag. A whole double counts as the integer that it is. -/
def flag : Json → Validated Bool
  | .bool b => .valid b
  | .int n => flagOfInt n
  | .double x =>
    match x.toInt? with
    | some n => flagOfInt n
    | none => .fail .boolType
  | .string s => flagOfText s
  | _ => .fail .boolType

/-! ### Integers -/

/-- Reads an integer. A double must be whole and a word. -/
def int : Json → Validated Int
  | .int n => .valid n
  | .bool b => .valid (if b then 1 else 0)
  | .double x =>
    if !x.isFinite then .fail .finiteNumber
    else match x.toInt? with
      | none => .fail .intFromFloat
      | some n => if isWord n then .valid n else .fail .intParsingSize
  | .string s => IntegerText.read s
  | _ => .fail .intType

/-! ### Ground values -/

/-- Reads a ground value, or its absence. A list or an object is no value of any sort. -/
def ground : Json → Validated (Option Ground)
  | .null => .valid none
  | .bool b => .valid (some (.bool b))
  | .int n => .valid (some (.int n))
  | .double x => .valid (some (.double x))
  | .string s => .valid (some (.string s))
  | .wide s => .valid (some (.string s))
  | _ => .invalid [⟨.boolType, [.field "bool"]⟩, ⟨.intType, [.field "int"]⟩,
      ⟨.floatType, [.field "float"]⟩, ⟨.stringType, [.field "str"]⟩]

end RhoScript.Document
