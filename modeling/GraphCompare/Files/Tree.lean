import GraphCompare.Files.Basic

/-!
# A tree of files

`FileTree` is what stands at each position below a root. A position is the list of names that lead
to it from the root. A path in words starts at the root or in the current directory; each of its
steps leaves a directory, so there is no way on from a file (`FileTree.follow`). A path and each of
its names have a greatest length, counted in bytes.
-/

namespace GraphCompare

/-- What stands at a position. -/
inductive FileEntry where
  | file (bytes : ByteArray)
  | directory

/-- A tree of files. -/
structure FileTree where
  get? : List String → Option FileEntry
  /-- Where paths start that do not start at the root. -/
  current : List String

namespace FileTree

/-- The tree of an empty directory, which is the current one. -/
def ofDirectory (current : List String) : FileTree where
  get? position := if position.isPrefixOf current then some .directory else none
  current

/-- Puts something at a position. -/
def put (t : FileTree) (position : List String) (e : FileEntry) : FileTree where
  get? other := if other = position then some e else t.get? other
  current := t.current

/-- Where a name leads from a directory. -/
def step (position : List String) (name : String) : List String :=
  if name = "" ∨ name = "." then position
  else if name = ".." then position.dropLast
  else position ++ [name]

/-- The greatest size of a name. -/
def maxNameSize : Nat := 255

/-- The greatest size of a path. -/
def maxPathSize : Nat := 4095

/-- Where names lead, one after the other. There may be nothing at the end of the way. A name that
is too long is looked for in a directory only. -/
def follow (t : FileTree) : (position names : List String) → Except FileFault (List String)
  | position, [] => .ok position
  | position, name :: rest =>
    match t.get? position with
    | some .directory =>
      if name.utf8ByteSize > maxNameSize then .error .nameTooLong
      else t.follow (step position name) rest
    | some (.file _) => .error .notDirectory
    | none => .error .missing

/-- Where the names of a path lead. -/
def locate (t : FileTree) (path : String) (names : List String) : Except FileFault (List String) :=
  if path = "" then .error .missing
  else if path.utf8ByteSize > maxPathSize then .error .nameTooLong
  else t.follow (if path.startsWith "/" then [] else t.current) names

/-- The bytes of a file. -/
def read (t : FileTree) (path : String) : Except FileFault ByteArray := do
  match t.get? (← t.locate path (Files.names path)) with
  | some (.file bytes) => return bytes
  | some .directory => throw .isDirectory
  | none => throw .missing

/-- Writes a file. A path that ends in a slash can only name a directory, whatever stands there. -/
def write (t : FileTree) (path : String) (bytes : ByteArray) : Except FileFault FileTree := do
  let names := Files.names path
  if path.endsWith "/" then
    let way := (names.reverse.dropWhile (· = "")).tail.reverse
    let _ ← t.locate path (way ++ ["."])
    throw .isDirectory
  let position ← t.locate path names
  match t.get? position with
  | some .directory => throw .isDirectory
  | _ => return t.put position (.file bytes)

/-- Makes a directory. -/
def makeDirectory (t : FileTree) (path : String) : Except FileFault FileTree := do
  let position ← t.locate path (Files.names path)
  match t.get? position with
  | some _ => throw .taken
  | none => return t.put position .directory

/-- Makes a change, if it is possible. -/
def change (f : FileTree → Except FileFault FileTree) : StateM FileTree (Except FileFault Unit) :=
  fun t =>
    match f t with
    | .ok t => (.ok (), t)
    | .error fault => (.error fault, t)

end FileTree

instance : Files (StateM FileTree) where
  readBytes path := fun t => (t.read path, t)
  writeBytes path bytes := FileTree.change (·.write path bytes)
  makeDirectory path := FileTree.change (·.makeDirectory path)

end GraphCompare
