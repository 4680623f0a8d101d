import RhoScript.Text.Quoted

/-!
# Files

The command line reads one text and writes at most one. What it has to know of the file system is
what a path leads to and, for a file to be written, why that is not possible. `Directory` is such a
system: a directory that holds texts under relative paths, and is the current one. A path is
followed step by step, and every step has to start at a directory.
-/

namespace RhoScript.Command

open Text

/-- What a path leads to. -/
inductive Found where
  | text (content : String)
  | directory
  | missing
deriving DecidableEq, Repr, Inhabited

/-- What stands in the way of a file. -/
inductive Obstacle where
  | missing
  | notDirectory
  | isDirectory
  | tooLong
  /-- The path has a character in it that ends a path. -/
  | cutShort
deriving DecidableEq, Repr, Inhabited

/-- A file that could not be opened. -/
structure FileError where
  obstacle : Obstacle
  path : String
deriving DecidableEq, Repr, Inhabited

/-- The wording of an error. -/
def FileError.message (e : FileError) : String :=
  match e.obstacle with
  | .missing => "[Errno 2] No such file or directory: " ++ quoted e.path
  | .notDirectory => "[Errno 20] Not a directory: " ++ quoted e.path
  | .isDirectory => "[Errno 21] Is a directory: " ++ quoted e.path
  | .tooLong => "[Errno 36] File name too long: " ++ quoted e.path
  | .cutShort => "embedded null byte"

/-- What the command line knows of a file system. -/
structure Files where
  /-- What a path leads to. -/
  find : String → Found
  /-- What stands in the way of writing to a path. -/
  obstacle : String → Option Obstacle

/-! ### Paths -/

/-- The greatest size of a step of a path, in bytes. -/
def stepLimit : Nat := 255

/-- The greatest size of a path, in bytes. -/
def pathLimit : Nat := 4095

/-- A path: whether it starts at the root, its steps, and whether a slash ends it. -/
structure Path where
  absolute : Bool
  steps : List String
  slash : Bool
deriving DecidableEq, Repr, Inhabited

/-- Reads a path. Several slashes count as one. -/
def Path.ofText (text : String) : Path where
  absolute := text.toList.head? = some '/'
  steps := (text.splitOn "/").filter (· ≠ "")
  slash := text.toList.getLast? = some '/'

/-- A place that a path can lead to. -/
inductive Place where
  /-- Down the given names from the current directory. -/
  | here (names : List String)
  /-- Down the given names from a directory above the current one. -/
  | above (names : List String)
  /-- Down the given names from the root. -/
  | root (names : List String)
deriving DecidableEq, Repr, Inhabited

namespace Place

/-- The place of that name in the directory at a place. -/
def child (name : String) : Place → Place
  | .here names => .here (names ++ [name])
  | .above names => .above (names ++ [name])
  | .root names => .root (names ++ [name])

/-- The place that the directory at a place is in. -/
def parent : Place → Place
  | .here [] => .above []
  | .here names => .here names.dropLast
  | .above names => .above names.dropLast
  | .root names => .root names.dropLast

/-- The place that a step leads to from a directory. -/
def step (p : Place) (name : String) : Place :=
  if name = "." then p else if name = ".." then p.parent else p.child name

end Place

/-! ### A directory of texts -/

/-- Texts by their paths. -/
structure Directory where
  texts : List (String × String)
deriving DecidableEq, Repr, Inhabited

namespace Directory

/-- The names on the way to a text. -/
def names (path : String) : List String := (Path.ofText path).steps.filter (· ≠ ".")

/-- What is down the given names. A directory is there if a text is further down. -/
def below (d : Directory) (way : List String) : Found :=
  match d.texts.find? fun entry => names entry.1 = way with
  | some (_, content) => .text content
  | none =>
    if way.isEmpty || d.texts.any fun entry => way.isPrefixOf (names entry.1) then .directory
    else .missing

/-- What is down the given names from the root: the usual directories, and the device that is always
empty. -/
def system : List String → Found
  | [] | ["dev"] | ["tmp"] => .directory
  | ["dev", "null"] => .text ""
  | _ => .missing

/-- What is at a place. Above the current directory there are directories of which no more is known.
-/
def look (d : Directory) : Place → Found
  | .here way => d.below way
  | .above way => if way.isEmpty then .directory else .missing
  | .root way => system way

/-- Follows steps from a place. Each of them has to start at a directory. -/
def follow (d : Directory) : Place → List String → Except Obstacle Place
  | place, [] => .ok place
  | place, name :: rest => match d.look place with
    | .missing => .error .missing
    | .text _ => .error .notDirectory
    | .directory =>
      if stepLimit < name.utf8ByteSize then .error .tooLong else d.follow (place.step name) rest

/-- The place that a path leads to. -/
def locate (d : Directory) (path : Path) : Except Obstacle Place :=
  d.follow (if path.absolute then .root [] else .here []) path.steps

/-- What a path leads to. With a slash at its end it can only lead to a directory. -/
def find (d : Directory) (text : String) : Found :=
  let path := Path.ofText text
  match d.locate path with
  | .error _ => .missing
  | .ok place => match d.look place with
    | .text content => if path.slash then .missing else .text content
    | found => if text = "" then .missing else found

/-- The path that counts when a file is to be written. With a slash at its end it asks for a
directory, whatever the last step is, so the directory before that step stands for it. -/
def target (path : Path) : Path :=
  if path.slash then { path with steps := path.steps.dropLast ++ ["."] } else path

/-- What stands in the way of writing to a path. -/
def obstacle (d : Directory) (text : String) : Option Obstacle :=
  if text.toList.contains '\x00' then some .cutShort
  else if text = "" then some .missing
  else if pathLimit < text.utf8ByteSize then some .tooLong
  else match d.locate (target (Path.ofText text)) with
    | .error obstacle => some obstacle
    | .ok place => if d.look place = .directory then some .isDirectory else none

/-- The file system whose current directory this is. -/
def files (d : Directory) : Files := ⟨d.find, d.obstacle⟩

/-- Puts a text under a path. A path that leads elsewhere changes nothing here. -/
def put (d : Directory) (path content : String) : Directory :=
  match d.locate (Path.ofText path) with
  | .ok (.here way) =>
    if d.texts.any fun entry => names entry.1 = way then
      ⟨d.texts.map fun entry => if names entry.1 = way then (entry.1, content) else entry⟩
    else ⟨d.texts ++ [("/".intercalate way, content)]⟩
  | _ => d

/-- The texts that another directory has not, or not so. -/
def changes (d before : Directory) : List (String × String) :=
  d.texts.filter fun entry => !before.texts.contains entry

end Directory

end RhoScript.Command
