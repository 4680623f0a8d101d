import RhoScript.Text.Hex
import RhoScript.Text.Printable

/-!
# Quoted texts in messages

A message that speaks of an input shows it between quotes. Single quotes are used unless the text
has a single quote and no double one. The quote in use, the backslash and every character that is
not printable are escaped.
-/

namespace RhoScript.Text.Quoted

/-- One character between the given quotes. -/
def escape (quote c : Char) : List Char :=
  if c = quote ∨ c = '\\' then ['\\', c]
  else if c = '\t' then ['\\', 't']
  else if c = '\n' then ['\\', 'n']
  else if c = '\r' then ['\\', 'r']
  else if isPrintable c then [c]
  else if c.toNat < 0x100 then '\\' :: 'x' :: hex 2 c.toNat
  else if c.toNat < 0x10000 then '\\' :: 'u' :: hex 4 c.toNat
  else '\\' :: 'U' :: hex 8 c.toNat

/-- The quote that a text is written between. -/
def quoteFor (text : List Char) : Char :=
  if '\x27' ∈ text ∧ '"' ∉ text then '"' else '\x27'

/-- A text between quotes. -/
def encode (text : List Char) : List Char :=
  let quote := quoteFor text
  quote :: text.flatMap (escape quote) ++ [quote]

end RhoScript.Text.Quoted

/-- A text as messages show it. -/
def RhoScript.Text.quoted (text : String) : String :=
  String.ofList (Quoted.encode text.toList)
