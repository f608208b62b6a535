/-!
# Files

What the program asks of the place where its files are: to read a file, to write one, and to make a
directory. `Files m` is a monad with these three operations, so that everything above them is the
same for a tree of files in memory and for the files of the system.

On top of them stand `readText`, which wants a file to be well-formed UTF-8, `writeText`, and
`makeParents`, which makes the directories on the way to a file. The zero character ends a path for
the system, so these refuse a path that has one and ask nothing of the place.
-/

namespace GraphCompare

/-- Why an operation on a file failed. -/
inductive FileFault where
  | missing
  /-- There is something where a directory is to be made. -/
  | taken
  | notDirectory
  | isDirectory
  /-- A name on the way, or the path as a whole, is longer than the place allows. -/
  | nameTooLong
  | zeroInPath
  /-- The bytes of the file are not UTF-8. -/
  | notText
  /-- Any other reason, in the words of the system. -/
  | other (reason : String)
deriving DecidableEq

/-- The words of a fault. -/
def FileFault.message : FileFault → String
  | missing => "No such file or directory (os error 2)"
  | taken => "File exists (os error 17)"
  | notDirectory => "Not a directory (os error 20)"
  | isDirectory => "Is a directory (os error 21)"
  | nameTooLong => "File name too long (os error 36)"
  | zeroInPath => "file name contained an unexpected NUL byte"
  | notText => "stream did not contain valid UTF-8"
  | other reason => reason

/-- A place where files are. -/
class Files (m : Type → Type) where
  readBytes : (path : String) → m (Except FileFault ByteArray)
  /-- Writes a file anew; the directory it stands in has to be there. -/
  writeBytes : (path : String) → ByteArray → m (Except FileFault Unit)
  makeDirectory : (path : String) → m (Except FileFault Unit)

namespace Files

variable {m : Type → Type} [Monad m] [Files m]

/-- Does something at a path, if a text can be one. -/
def atPath {α : Type} (task : String → m (Except FileFault α)) (path : String) :
    m (Except FileFault α) :=
  if path.toList.contains '\x00' then pure (.error .zeroInPath) else task path

/-- The text of a file. -/
def readText (path : String) : ExceptT FileFault m String := do
  match String.fromUTF8? (← ExceptT.mk (atPath readBytes path)) with
  | some text => return text
  | none => throw .notText

/-- Writes a text into a file. -/
def writeText (path text : String) : ExceptT FileFault m Unit :=
  ExceptT.mk (atPath (writeBytes · text.toUTF8) path)

/-- Puts a character in front of names. -/
def addCharacter (c : Char) : List (List Char) → List (List Char)
  | [] => [[c]]
  | name :: rest => if c = '/' then [] :: name :: rest else (c :: name) :: rest

/-- The names before, between and behind the slashes of a path. -/
def names (path : String) : List String :=
  (path.toList.foldr addCharacter [[]]).map String.ofList

/-- Whether a name on a path leads nowhere. -/
def isIdle (name : String) : Bool := name = "" || name = "."

/-- The directories on the way to a file, the outermost first. Names that lead nowhere make no step
of the way, but for the dot at its start. -/
def parents (path : String) : List String :=
  let names := (names path).reverse.dropWhile isIdle |>.reverse
  let ways := (List.range (names.length - 1)).map fun i => names.take (i + 1)
  let steps := ways.filter fun way => way = ["."] || !way.getLast?.any isIdle
  steps.map "/".intercalate

example : parents "out/deep/g.dot" = ["out", "out/deep"] := by decide +kernel
example : parents "/out//in/./g.dot/" = ["/out", "/out//in"] := by decide +kernel
example : parents "g.dot" = [] ∧ parents "/g.dot" = [] ∧ parents "./g.dot" = ["."] := by
  decide +kernel

/-- Makes a directory unless there is one already. A file in its place is in the way. -/
def ensureDirectory (path : String) : ExceptT FileFault m Unit :=
  ExceptT.mk do
    match ← makeDirectory path with
    | .error .taken =>
      match ← readBytes path with
      | .error .isDirectory => return .ok ()
      | _ => return .error .taken
    | result => return result

/-- Makes the directories on the way to a file. Where the last of them is there, or something else
in its place, nothing is to be made; the others are made only where one is missing. -/
def makeParents (path : String) : ExceptT FileFault m Unit :=
  ExceptT.mk do
    match (parents path).getLast? with
    | none => return .ok ()
    | some parent =>
      match ← atPath makeDirectory parent with
      | .error .taken => return .ok ()
      | .error .missing => ((parents path).forM ensureDirectory).run
      | result => return result

end Files

end GraphCompare
