import RhoScript.Text.Hex

/-!
# Strings of code points

A string literal may denote a half of a surrogate pair without the other half. Such a half is no
character, so the strings that programs work with are wider than texts: their members are characters
and halves. Every text is such a string, and a string without halves is a text.

Streams take texts only. Most of them refuse a string with a half in it (`WideString.encode`); what is
told to the user is shown with an escape in the place of each half (`WideString.shown`).
-/

namespace RhoScript

open Text

/-- A member of a string: a character, or a half of a surrogate pair. -/
inductive CodePoint where
  | char (c : Char)
  /-- The half of number `0xd800 + n`. -/
  | half (n : Fin 0x800)
deriving DecidableEq, Repr, Inhabited

instance : Coe Char CodePoint := ⟨.char⟩

namespace CodePoint

/-- The number of a code point. -/
def toNat : CodePoint → Nat
  | .char c => c.toNat
  | .half n => 0xd800 + n

/-- The code point of a number up to `0x10ffff`. -/
def ofNat (n : Nat) : CodePoint :=
  if h : n.isValidChar then .char (Char.ofNatAux n h) else .half (Fin.ofNat 0x800 (n - 0xd800))

/-- The character, if it is one. -/
def char? : CodePoint → Option Char
  | .char c => some c
  | .half _ => none

/-- What is shown for a code point: a half by its number. -/
def shown : CodePoint → List Char
  | .char c => [c]
  | .half n => '\\' :: 'u' :: hex 4 (0xd800 + n)

@[simp] theorem char?_char (c : Char) : (char c).char? = some c := rfl

@[simp] theorem char?_half (n : Fin 0x800) : (half n).char? = none := rfl

theorem toNat_ofNat {n : Nat} (h : n ≤ 0x10ffff) : (ofNat n).toNat = n := by
  unfold ofNat
  by_cases hn : n.isValidChar
  · rw [dif_pos hn]
    rfl
  · rw [dif_neg hn]
    simp only [Nat.isValidChar, not_or, not_and] at hn
    simp only [toNat, Fin.ofNat]
    omega

@[simp] theorem ofNat_toNat (c : Char) : ofNat c.toNat = .char c := dif_pos c.valid

end CodePoint

/-- A string in which halves of surrogate pairs may stand. -/
abbrev WideString := List CodePoint

/-- The halves in a row that a stream refuses. -/
structure EncodingError where
  first : Fin 0x800
  /-- Where the first of them stands in the string. -/
  position : Nat
  /-- How many more of them follow. -/
  more : Nat
deriving DecidableEq, Repr, Inhabited

/-- The wording of an error. -/
def EncodingError.message (e : EncodingError) : String :=
  let half := String.ofList (CodePoint.half e.first).shown
  let place :=
    if e.more = 0 then s!"character '{half}' in position {e.position}"
    else s!"characters in position {e.position}-{e.position + e.more}"
  s!"'utf-8' codec can't encode {place}: surrogates not allowed"

namespace WideString

/-- A text as a string. -/
def ofString (text : String) : WideString := text.toList.map .char

instance : Coe String WideString := ⟨ofString⟩

/-- The text of a string that a stream takes, or the first halves in a row that it refuses. -/
def encode (s : WideString) : Except EncodingError String :=
  match s.dropWhile (·.char?.isSome) with
  | .half first :: rest =>
    .error ⟨first, (s.takeWhile (·.char?.isSome)).length, (rest.takeWhile (·.char?.isNone)).length⟩
  | _ => .ok (String.ofList (s.filterMap CodePoint.char?))

/-- A string as it is shown. -/
def shown (s : WideString) : String := String.ofList (s.flatMap CodePoint.shown)

@[simp] theorem ofString_empty : ofString "" = [] := rfl

@[simp] theorem ofString_append (s t : String) : ofString (s ++ t) = ofString s ++ ofString t := by
  simp [ofString]

@[simp] theorem ofString_ofList (text : List Char) : ofString (String.ofList text) = text.map .char := by
  simp [ofString]

@[simp] theorem char_mem_ofString {c : Char} {s : String} : .char c ∈ ofString s ↔ c ∈ s.toList := by
  simp [ofString]

theorem ofString_injective {s t : String} (h : ofString s = ofString t) : s = t := by
  have hlists := List.map_inj_right (fun _ _ => CodePoint.char.inj) |>.mp h
  exact String.toList_inj.mp hlists

@[simp] theorem ofString_inj {s t : String} : ofString s = ofString t ↔ s = t :=
  ⟨ofString_injective, congrArg ofString⟩

/-- The parts of a text are texts. -/
theorem exists_of_append_eq_ofString {s t : WideString} {text : String} (h : s ++ t = ofString text) :
    ∃ u v : String, s = ofString u ∧ t = ofString v := by
  obtain ⟨cs, ds, -, hs, ht⟩ := List.map_eq_append_iff.mp h.symm
  exact ⟨.ofList cs, .ofList ds, by rw [ofString_ofList, hs], by rw [ofString_ofList, ht]⟩

/-- A string without halves is a text. -/
theorem eq_ofString_of_all {s : WideString} (h : s.all (·.char?.isSome)) :
    s = ofString (String.ofList (s.filterMap CodePoint.char?)) := by
  rw [ofString_ofList]
  induction s with
  | nil => rfl
  | cons p rest ih =>
    cases p with
    | char c => simpa using ih (by simpa using h)
    | half n => simp at h

theorem encode_ofString (text : String) : encode (ofString text) = .ok text := by
  have hdrop : (ofString text).dropWhile (·.char?.isSome) = [] := by
    unfold ofString
    induction text.toList with
    | nil => rfl
    | cons c rest ih => exact ih
  have hfilter : (ofString text).filterMap CodePoint.char? = text.toList := by
    simp [ofString, List.filterMap_map, Function.comp_def]
  rw [encode, hdrop, hfilter, String.ofList_toList]

/-- **Streams take just the texts.** -/
@[simp] theorem encode_eq_ok_iff {s : WideString} {text : String} :
    s.encode = .ok text ↔ s = ofString text := by
  refine ⟨fun h => ?_, fun h => h ▸ encode_ofString text⟩
  unfold encode at h
  split at h
  · cases h
  · rename_i hdrop
    obtain rfl := Except.ok.inj h
    have hrest : s.dropWhile (·.char?.isSome) = [] := by
      have hhead := List.head?_dropWhile_not (·.char?.isSome) s
      cases hrest : s.dropWhile (·.char?.isSome) with
      | nil => rfl
      | cons q rest =>
        rw [hrest] at hhead
        cases q with
        | char c => simp at hhead
        | half n => exact absurd hrest (hdrop n rest)
    have hs := List.takeWhile_append_dropWhile (p := (·.char?.isSome)) (l := s)
    rw [hrest, List.append_nil] at hs
    exact eq_ofString_of_all (hs ▸ List.all_takeWhile)

end WideString

end RhoScript
