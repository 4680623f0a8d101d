import RhoScript.Issue
import RhoScript.Term.Equality
import RhoScript.Term.Layout

/-!
# Terms from unchecked parts

A sketch describes a term without regard to sorts: a name may stand where a process is needed. To
build the term is to check it. The parts are built first, from left to right; then all that do not
fit are reported together.
-/

namespace RhoScript

/-- A term of either sort. -/
inductive Term where
  | process (p : Process)
  | name (n : Name)
deriving Inhabited

namespace Term

/-- The word for the outermost construct of a term. -/
def constructor : Term → String
  | .process p => match p with
    | .nil => "Nil"
    | .ground _ => "Primitive"
    | .list _ => "ListExpr"
    | .tuple _ => "TupleExpr"
    | .map _ => "MapExpr"
    | .select _ _ => "Match"
    | .send _ _ => "Send"
    | .binary _ _ _ => "BinOp"
    | .unary _ _ => "UnOp"
    | .receive _ _ => "Receiving"
    | .contract _ _ _ => "Contract"
    | .drop _ => "Drop"
    | .par _ _ => "Par"
    | .new _ _ => "New"
    | .unspecified => "Process"
  | .name n => match n with
    | .var _ => "Var"
    | .quote _ => "Quote"
    | .unspecified => "Name"

/-- The commands that write a term. -/
def layout : Term → List Printer.Command
  | .process p => p.layout
  | .name n => n.layout

/-- The text of a term. -/
def text (t : Term) : Except RenderError WideString :=
  match ({} : Printer).run t.layout with
  | (out, none) => .ok out.text
  | (_, some error) => .error error

/-- The two terms are the same. -/
def same : Term → Term → Bool
  | .process p, .process q => p.same q
  | .name n, .name m => n.same m
  | _, _ => false

/-- The process that is needed here. -/
def asProcess : Term → Validated Process
  | .process p => .valid p
  | .name _ => .fail .modelType

/-- The name that is needed here. -/
def asName : Term → Validated Name
  | .name n => .valid n
  | .process _ => .fail .modelType

end Term

/-- What stands in the place of a binding. -/
inductive Sketch.Binder where
  /-- A text. -/
  | plain (name : String)
  /-- A list, in which some members may be no text. -/
  | parts (items : List (Option String))
  /-- Neither a text nor a list. -/
  | other
deriving Repr, Inhabited

/-- The description of a term whose parts may not fit. -/
inductive Sketch where
  | nil
  /-- A ground value; it may be missing. -/
  | ground (value : Option Ground)
  | list (items : List Sketch)
  | tuple (items : List Sketch)
  | map (entries : List (String × Sketch))
  | select (specimen : Sketch) (cases : List (Sketch × Sketch))
  | send (destination : Sketch) (arguments : List Sketch)
  | binary (operator : String) (left right : Sketch)
  | unary (operator : String) (operand : Sketch)
  | receive (clauses : List (List Sketch × Sketch)) (continuation : Sketch)
  | contract (name : Sketch) (formals : List Sketch) (body : Sketch)
  | drop (name : Sketch)
  | quote (process : Sketch)
  /-- Two processes side by side, where an ended process is left out. -/
  | beside (left right : Sketch)
  | var (identifier : String)
  | new (bindings : List Sketch.Binder) (body : Sketch)
  | anyProcess
  | anyName
  /-- The name of a process. -/
  | quoted (process : Sketch)
  /-- The process of a name. -/
  | dropped (name : Sketch)
deriving Inhabited

namespace Sketch

/-- Why no term can be built. -/
inductive Error where
  /-- Parts do not fit. -/
  | issues (found : List Issue)
  /-- An operation of the other sort was asked for. -/
  | noOperation (constructor operation : String)
  /-- The process of an unspecified name was asked for. -/
  | unspecified (sort : String)
deriving DecidableEq, Repr, Inhabited

/-- The wording of an error. -/
def Error.message : Error → String
  | .issues found => s!"{found.length} parts do not fit"
  | .noOperation constructor operation =>
    s!"'{constructor}' object has no attribute '{operation}'"
  | .unspecified sort => sort

/-- Checks a part of a pair of texts. -/
def Binder.part (items : List (Option String)) (i : Nat) : Validated String :=
  .under (.index i) (match items[i]? with
    | none => .fail .missing
    | some none => .fail .stringType
    | some (some text) => .valid text)

/-- Checks a pair of texts. A longer list is reported as such, and of a pair each part that is
missing or no text. -/
def Binder.pair (items : List (Option String)) : Validated Binding :=
  if 2 < items.length then .fail .tooLong
  else (fun (name uri : String) => Binding.resource name uri) <$> part items 0 <*> part items 1

/-- The issue of a text that is none, before what else was found. -/
def Binder.orText : Validated Binding → Validated Binding
  | .valid b => .valid b
  | .invalid issues => .invalid (⟨.stringType, [.field "str"]⟩ ::
      issues.map fun i => { i with path := .field "tuple[str, str]" :: i.path })

/-- Checks the place of a binding. What is not a text should be a pair of texts. -/
def Binder.check : Binder → Validated Binding
  | .plain name => .valid (.plain name)
  | .parts items => orText (pair items)
  | .other => orText (.fail .tupleType)

/-- Checks the members of a list in a field. -/
def members {α β : Type} (field : String) (check : α → Validated β) (items : List α) :
    Validated (List β) :=
  .inField field (.list check 0 items)

/-- Checks a pair: its members stand at the positions 0 and 1. -/
def pair {α β γ δ : Type} (first : α → Validated γ) (second : β → Validated δ) (p : α × β) :
    Validated (γ × δ) :=
  Prod.mk <$> .under (.index 0) (first p.1) <*> .under (.index 1) (second p.2)

/-- A process whose parts fit, or the issues. -/
def finish : Validated Process → Except Error Term
  | .valid p => .ok (.process p)
  | .invalid issues => .error (.issues issues)

/-- A name whose parts fit, or the issues. -/
def finishName : Validated Name → Except Error Term
  | .valid n => .ok (.name n)
  | .invalid issues => .error (.issues issues)

/-- Checks a ground value that may be missing: no sort of value fits then. -/
def checkGround : Option Ground → Validated Ground
  | some v => .valid v
  | none => .inField "value" (.invalid
      [⟨.boolType, [.field "bool"]⟩, ⟨.intType, [.field "int"]⟩, ⟨.floatType, [.field "float"]⟩,
        ⟨.stringType, [.field "str"]⟩])

mutual

/-- Builds the term of a sketch. -/
def build : Sketch → Except Error Term
  | .nil => .ok (.process .nil)
  | .ground value => finish (.ground <$> checkGround value)
  | .list items => do
    finish (.list <$> members "items" Term.asProcess (← buildAll items))
  | .tuple items => do
    finish (.tuple <$> members "items" Term.asProcess (← buildAll items))
  | .map entries => do
    finish (.map <$> members "entries" (pair .valid Term.asProcess) (← buildEntries entries))
  | .select specimen cases => do
    let specimen ← build specimen
    let cases ← buildPairs cases
    finish (.select <$> .inField "specimen" specimen.asProcess
      <*> members "cases" (pair Term.asProcess Term.asProcess) cases)
  | .send destination arguments => do
    let destination ← build destination
    let arguments ← buildAll arguments
    finish (.send <$> .inField "destination" destination.asName
      <*> members "arguments" Term.asProcess arguments)
  | .binary operator left right => do
    let left ← build left
    let right ← build right
    finish (.binary operator <$> .inField "lhs" left.asProcess <*> .inField "rhs" right.asProcess)
  | .unary operator operand => do
    finish (.unary operator <$> .inField "arg" (← build operand).asProcess)
  | .receive clauses continuation => do
    let clauses ← buildClauses clauses
    let continuation ← build continuation
    finish (.receive <$> members "receipt" (pair (.list Term.asName 0) Term.asName) clauses
      <*> .inField "continuation" continuation.asProcess)
  | .contract name formals body => do
    let name ← build name
    let formals ← buildAll formals
    let body ← build body
    finish (.contract <$> .inField "name" name.asName <*> members "formals" Term.asName formals
      <*> .inField "body" body.asProcess)
  | .drop name => do
    finish (.drop <$> .inField "name" (← build name).asName)
  | .quote process => do
    finishName (.quote <$> .inField "process" (← build process).asProcess)
  | .beside left right => do
    let left ← build left
    let right ← build right
    match left, right with
    | .process .nil, right => .ok right
    | left, .process .nil => .ok left
    | left, right =>
      finish (.par <$> .inField "left" left.asProcess <*> .inField "right" right.asProcess)
  | .var identifier => .ok (.name (.var identifier))
  | .new bindings body => do
    let body ← build body
    finish (.new <$> members "bindings" Binder.check bindings <*> .inField "body" body.asProcess)
  | .anyProcess => .ok (.process .unspecified)
  | .anyName => .ok (.name .unspecified)
  | .quoted process => do
    match ← build process with
    | .process p => .ok (.name p.quoted)
    | t => .error (.noOperation t.constructor "quote")
  | .dropped name => do
    match ← build name with
    | .name n => match n.dropped? with
      | some p => .ok (.process p)
      | none => .error (.unspecified "Name")
    | t => .error (.noOperation t.constructor "dereference")

/-- Builds the terms of a list. -/
def buildAll : List Sketch → Except Error (List Term)
  | [] => .ok []
  | s :: rest => do return (← build s) :: (← buildAll rest)

/-- Builds the terms of entries. -/
def buildEntries : List (String × Sketch) → Except Error (List (WideString × Term))
  | [] => .ok []
  | (key, s) :: rest => do return (key, ← build s) :: (← buildEntries rest)

/-- Builds the terms of cases. -/
def buildPairs : List (Sketch × Sketch) → Except Error (List (Term × Term))
  | [] => .ok []
  | (s, t) :: rest => do return (← build s, ← build t) :: (← buildPairs rest)

/-- Builds the terms of clauses. -/
def buildClauses : List (List Sketch × Sketch) → Except Error (List (List Term × Term))
  | [] => .ok []
  | (s, t) :: rest => do return (← buildAll s, ← build t) :: (← buildClauses rest)

end

end Sketch

/-- Where the text of a term is asked for, a string that may not be one is shown. -/
instance : Coe WideString String := ⟨WideString.shown⟩

end RhoScript
