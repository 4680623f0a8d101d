import RhoScript.Text.DecimalDigit
import RhoScript.Text.Quoted

/-!
# Options on a command line

An argument that starts with a dash may be an option: spelled out, cut short as long as only one
option begins so, with a value after an equals sign, or as one letter with more letters or a value
directly behind it. Every other argument is plain. After `--` all arguments are.
-/

namespace RhoScript.Command

open Text

/-- The options of the program. -/
inductive Flag where
  | help
  | verbose
  | json
  | strict
  | output
deriving DecidableEq, Repr, Inhabited

namespace Flag

/-- Whether an option has a value. -/
def takesValue : Flag → Bool
  | .output => true
  | _ => false

/-- How messages name an option. -/
def title : Flag → String
  | .help => "-h/--help"
  | .verbose => "--verbose"
  | .json => "--json"
  | .strict => "--strict"
  | .output => "-o/--output"

end Flag

/-- The spellings of the options that are known at some place, in order. -/
abbrev Spellings := List (String × Flag)

/-- Why arguments are refused. -/
inductive UsageError where
  | ambiguous (argument : String) (candidates : List String)
  | missingValue (flag : Flag)
  | ignoredValue (flag : Flag) (value : String)
  | invalidChoice (argument : String)
  | unrecognized (arguments : List String)
deriving DecidableEq, Repr, Inhabited

/-- The wording of a refusal. -/
def UsageError.message : UsageError → String
  | .ambiguous argument candidates =>
    let names := ", ".intercalate candidates
    s!"ambiguous option: {argument} could match {names}"
  | .missingValue flag => s!"argument {flag.title}: expected one argument"
  | .ignoredValue flag value =>
    s!"argument {flag.title}: ignored explicit argument " ++ quoted value
  | .invalidChoice argument =>
    s!"argument command: invalid choice: " ++ quoted argument ++ " (choose from 'compile', 'check')"
  | .unrecognized arguments => "unrecognized arguments: " ++ " ".intercalate arguments

/-! ### Single arguments -/

/-- What an argument is taken for. -/
inductive Word where
  | plain
  /-- It looks like an option, but there is none of that spelling. -/
  | unknown
  /-- An option, whether it is spelled with one dash, and a value written with it. -/
  | option (flag : Flag) (short : Bool) (attached : Option String)
deriving DecidableEq, Repr, Inhabited

/-- Splits a text at its first equals sign. -/
def splitEquals (cs : List Char) : List Char × Option (List Char) :=
  match cs.span (· ≠ '=') with
  | (name, []) => (name, none)
  | (name, _ :: value) => (name, some value)

/-- A number with a minus sign. A line break may end it. -/
def isNegativeNumber : List Char → Bool
  | '-' :: cs =>
    let cs := if cs.getLast? = some '\n' then cs.dropLast else cs
    match cs.dropWhile isDecimalDigit with
    | [] => !cs.isEmpty
    | '.' :: fraction => !fraction.isEmpty && fraction.all isDecimalDigit
    | _ => false
  | _ => false

/-- The options that an argument with two dashes may be short for. -/
def longCandidates (known : Spellings) (cs : List Char) : List (String × Word) :=
  let (name, value) := splitEquals cs
  (known.filter fun (spelling, _) => name.isPrefixOf spelling.toList).map fun (spelling, flag) =>
    (spelling, .option flag (short spelling) (value.map String.ofList))
where
  /-- Whether a spelling has one dash only. -/
  short (spelling : String) : Bool := !(['-', '-'].isPrefixOf spelling.toList)

/-- The options that an argument with one dash may start with or be short for. -/
def shortCandidates (known : Spellings) (cs : List Char) : List (String × Word) :=
  known.filterMap fun (spelling, flag) =>
    if spelling.toList = cs.take 2 then
      some (spelling, .option flag true (some (String.ofList (cs.drop 2))))
    else if cs.isPrefixOf spelling.toList then some (spelling, .option flag true none)
    else none

/-- What an argument is taken for. -/
def classify (known : Spellings) (argument : String) : Except UsageError Word :=
  match argument.toList with
  | '-' :: c :: cs =>
    let whole := '-' :: c :: cs
    match known.lookup argument with
    | some flag => .ok (.option flag (c ≠ '-') none)
    | none =>
      let (name, value) := splitEquals whole
      match value, known.lookup (String.ofList name) with
      | some value, some flag =>
        .ok (.option flag (c ≠ '-') (some (String.ofList value)))
      | _, _ =>
        match if c = '-' then longCandidates known whole else shortCandidates known whole with
        | [] => .ok (if isNegativeNumber whole || whole.contains ' ' then .plain else .unknown)
        | [(_, word)] => .ok word
        | candidates => .error (.ambiguous argument (candidates.map (·.1)))
  | _ => .ok .plain

/-! ### Lists of arguments -/

/-- Arguments with what each is taken for, up to `--`, and those from `--` on. -/
structure Words where
  words : List (String × Word)
  /-- What comes after `--`, if there is one. -/
  verbatim : Option (List String)
deriving DecidableEq, Repr, Inhabited

/-- Takes each argument for something. -/
def readWords (known : Spellings) : List String → Except UsageError Words
  | [] => .ok ⟨[], none⟩
  | "--" :: rest => .ok ⟨[], some rest⟩
  | argument :: rest => do
    let word ← classify known argument
    let more ← readWords known rest
    return { more with words := (argument, word) :: more.words }

/-- The options in one argument: each with its value if that is there too, and the last of them
perhaps in need of one. -/
structure Bundle where
  flags : List (Flag × Option String)
  pending : Option Flag := none
deriving DecidableEq, Repr, Inhabited

/-- An option with nothing attached. -/
def Bundle.single (flag : Flag) : Bundle :=
  if flag.takesValue then ⟨[], some flag⟩ else ⟨[(flag, none)], none⟩

/-- Puts an option without a value in front. -/
def Bundle.after (flag : Flag) (b : Bundle) : Bundle := { b with flags := (flag, none) :: b.flags }

/-- The value that an attached text gives. The mark `--` gives none, attached or not; there are readers
of options that take it for a value where it is attached. -/
def attachedValue (text : List Char) : Option String :=
  if text = ['-', '-'] then none else some (String.ofList text)

/-- Reads an option with a text attached. The text is the option's value or, behind a single letter
that takes none, more letters; where a letter is no option, the rest is refused as a whole. -/
def unbundle (known : Spellings) (flag : Flag) (short : Bool) (text : List Char) :
    Except UsageError Bundle :=
  if flag.takesValue then .ok ⟨[(flag, attachedValue text)], none⟩
  else
    let refused : UsageError := .ignoredValue flag (String.ofList text)
    if !short then .error refused
    else match text with
      | [] => .error refused
      | c :: cs => match known.lookup (String.ofList ['-', c]) with
        | none => .error refused
        | some next =>
          if cs.isEmpty then .ok (.after flag (.single next))
          else (unbundle known next true cs).map (.after flag)
termination_by structural text

/-- The options in one argument. -/
def bundle (known : Spellings) (flag : Flag) (short : Bool) (attached : Option String) :
    Except UsageError Bundle :=
  match attached with
  | none => .ok (.single flag)
  | some text => unbundle known flag short text.toList

end RhoScript.Command
