import RhoScript.Lowering.Expression

/-!
# Lowering of imports

An import from a source that starts with `rho:` binds its local name to that system resource. The
modules of a fixed list are known to the compiler: what is imported from them is no binding, but
each of them allows certain names only.
-/

namespace RhoScript.Lowering

/-- How the sources of system resources start. -/
def resourceScheme : String := "rho:"

/-- The names that may be imported from a module known to the compiler. -/
def knownNames? (uri : WideString) : Option (List String) :=
  match uri.encode with
  | .ok "@rchain-community/js2rho" => some ["bundlePlus", "tuple", "console"]
  | .ok "@agoric/nat" => some ["Nat"]
  | .ok "@agoric/harden" => some ["harden"]
  | .ok "@agoric/eventual-send" => some ["E"]
  | _ => none

/-- Whether the source of an import is a system resource. -/
def isResource (uri : WideString) : Bool := List.isPrefixOf (resourceScheme : WideString) uri

/-- The local name of an import specifier. -/
def localName : Node → Except Failure String
  | .importDefaultSpecifier _ binding | .importSpecifier _ binding _
  | .importNamespaceSpecifier _ binding => match binding with
    | .identifier _ name => .ok name
    | n => .error (.noField n "name")
  | n => .error (.noField n "local")

/-- The local names of import specifiers, from left to right. -/
def localNames : List Node → Except Failure (List String)
  | [] => .ok []
  | n :: rest => return (← localName n) :: (← localNames rest)

/-- What the specifiers of an import from a system resource bind. -/
def resourceBinding (n : Node) (uri : WideString) : List Node → Except Failure (List Binding)
  | [.importDefaultSpecifier loc binding] =>
    return [.resource (← localName (.importDefaultSpecifier loc binding)) uri]
  | _ => .error (.located (("must import default from " : String) ++ uri) n)

/-- What an import declaration binds. -/
def importBindings : Node → Except Failure (List Binding)
  | .importDeclaration loc specifiers source => do
    let n := .importDeclaration loc specifiers source
    let value ← literalValue source
    match value with
    | some (.string uri) =>
      if isResource uri then resourceBinding n uri specifiers
      else match knownNames? uri with
        | none => throw (.located (("not supported: import ... from " : String) ++ uri) n)
        | some known =>
          let unknown := (← localNames specifiers).filter (!known.contains ·)
          if unknown.isEmpty then return []
          else
            let names := ", ".intercalate unknown
            throw (.located ((s!"unrecognized name(s) {names} from " : String) ++ uri) n)
    | value =>
      throw (.located (("not supported: import ... from " : String) ++ Ground.message value) n)
  | n => .error (.noField n "source")

end RhoScript.Lowering
