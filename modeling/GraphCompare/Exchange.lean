import GraphCompare.Files.Basic
import GraphCompare.GraphML.Reader
import GraphCompare.Record

/-!
# Graphs in files

Graphs are read from GraphML files. What goes out is an adjacency as JSON, which is written into a
directory that is there, or a drawing in DOT, for which directories are made where they are missing.
-/

namespace GraphCompare

/-- Why there is no graph from a file, or no file from a graph. -/
inductive ExchangeError where
  | file (fault : FileFault)
  | document (e : GraphML.ReadError)

/-- The words of an error. -/
def ExchangeError.message : ExchangeError → String
  | file fault => "I/O error: " ++ fault.message
  | document e => e.message

variable {m : Type → Type} [Monad m] [Files m]

/-- The graph that a GraphML file holds. -/
def Graph.load (path : String) : ExceptT ExchangeError m Graph := do
  let text ← (Files.readText path).adapt .file
  MonadExcept.ofExcept ((GraphML.readGraph text).mapError .document)

/-- Writes an adjacency into a file. -/
def Adjacency.save (a : Adjacency) (path : String) : ExceptT ExchangeError m Unit :=
  (Files.writeText path a.text).adapt .file

/-- Writes a drawing into a file and makes the directories on the way to it. -/
def saveDrawing (dot path : String) : ExceptT ExchangeError m Unit :=
  ExceptT.adapt .file do
    Files.makeParents path
    Files.writeText path dot

end GraphCompare
