import RhoScript.Number.Numeral
import RhoScript.Source.Token

/-!
# The values of literals

A string literal is a sequence of units: plain characters, and escapes that start with a backslash.
An escape names a character by a letter, by two or four digits in base sixteen, or by any number of
them in braces; a backslash before a line end denotes nothing, and before any other character that
character. Escapes may denote the halves of a surrogate pair, and adjacent halves are joined.
-/

namespace RhoScript.Source

open Number Text

/-- Why a string literal denotes no string. -/
inductive EscapeError where
  /-- The escape of that letter lacks its digits. -/
  | malformed (letter : Char)
  /-- There is no character of that number. -/
  | outOfRange
  /-- The number does not even fit in 31 bits. -/
  | tooLarge
deriving DecidableEq, Repr, Inhabited

/-- The wording of an error. -/
def EscapeError.message : EscapeError → String
  | .malformed letter => "malformed escape sequence \\".push letter
  | .outOfRange => "chr() arg not in range(0x110000)"
  | .tooLarge => "Python int too large to convert to C int"

/-- The number in braces at the front of a text, and what follows. -/
def bracedHex? : List Char → Option (Nat × List Char)
  | '\x7b' :: rest =>
    let digits := rest.takeWhile fun c => (hexDigit? c).isSome
    match hexValue? 0 digits, rest.drop digits.length with
    | some n, '\x7d' :: rest => if digits.isEmpty then none else some (n, rest)
    | _, _ => none
  | _ => none

theorem length_bracedHex?_lt {text rest : List Char} {n : Nat}
    (h : bracedHex? text = some (n, rest)) : rest.length < text.length := by
  unfold bracedHex? at h
  split at h
  · rename_i inner
    simp only at h
    split at h
    · rename_i m tail _ hd
      split at h
      · simp at h
      · simp only [Option.some.injEq, Prod.mk.injEq] at h
        obtain ⟨-, rfl⟩ := h
        have := congrArg List.length hd
        simp only [List.length_drop, List.length_cons] at this
        simp only [List.length_cons]
        omega
    · simp at h
  · simp at h

/-- The code point of a number in braces. -/
def bracedCodePoint (n : Nat) : Except EscapeError Nat :=
  if n ≤ 0x10ffff then .ok n else if n < 0x80000000 then .error .outOfRange else .error .tooLarge

/-- The code points of an escape of one character. -/
def simpleEscape (c : Char) : List Nat :=
  match c with
  | 'b' => [0x08]
  | 'f' => [0x0c]
  | 'n' => [0x0a]
  | 'r' => [0x0d]
  | 't' => [0x09]
  | 'v' => [0x0b]
  | '0' => [0x00]
  | c => if c.toNat ∈ [0x0a, 0x0d, 0x2028, 0x2029] then [] else [c.toNat]

/-- The code points that the units of a literal denote. -/
def codePoints (text : List Char) : Except EscapeError (List Nat) :=
  match text with
  | [] => .ok []
  | ['\\'] => .ok ['\\'.toNat]
  | '\\' :: 'u' :: rest =>
    match _h : bracedHex? rest with
    | some (n, rest') => do
      let c ← bracedCodePoint n
      return c :: (← codePoints rest')
    | none =>
      match rest with
      | a :: b :: c :: d :: rest' => match hexValue? 0 [a, b, c, d] with
        | some n => do return n :: (← codePoints rest')
        | none => .error (.malformed 'u')
      | _ => .error (.malformed 'u')
  | '\\' :: 'x' :: a :: b :: rest => match hexValue? 0 [a, b] with
    | some n => do return n :: (← codePoints rest)
    | none => .error (.malformed 'x')
  | '\\' :: c :: rest =>
    if c = 'x' then .error (.malformed 'x') else do return simpleEscape c ++ (← codePoints rest)
  | c :: rest => do return c.toNat :: (← codePoints rest)
termination_by text.length
decreasing_by
  all_goals simp only [List.length_cons]
  · have := length_bracedHex?_lt _h
    omega
  all_goals omega

/-- Joins adjacent halves of surrogate pairs. -/
def joinPairs : List Nat → List Nat
  | high :: low :: rest =>
    if isHighSurrogate high && isLowSurrogate low then joinSurrogates high low :: joinPairs rest
    else high :: joinPairs (low :: rest)
  | rest => rest

/-- The code points that a string literal denotes. Its first and last characters are quotes. -/
def decodeString (raw : String) : Except EscapeError (List Nat) :=
  joinPairs <$> codePoints (raw.toList.drop 1).dropLast

/-- The string of code points. A half of a surrogate pair that stands alone is kept. -/
def stringOf (points : List Nat) : WideString := points.map .ofNat

/-- Why a literal has no value. -/
inductive LiteralError where
  | escape (e : EscapeError)
  | numeral (e : Numeral.Error)
deriving DecidableEq, Repr

/-- The wording of an error. -/
def LiteralError.message : LiteralError → String
  | .escape e => e.message
  | .numeral e => e.message

/-- The value of a token, if it belongs to a literal. -/
def Token.value (t : Token) : Except LiteralError (Option Ground) :=
  match t.terminal with
  | .string => match decodeString t.text with
    | .ok points => .ok (some (.string (stringOf points)))
    | .error e => .error (.escape e)
  | .number => match Numeral.read t.text with
    | .ok v => .ok (some v)
    | .error e => .error (.numeral e)
  | .trueWord => .ok (some (.bool true))
  | .falseWord => .ok (some (.bool false))
  | _ => .ok none

end RhoScript.Source
