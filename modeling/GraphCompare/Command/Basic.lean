/-!
# Commands

What the program can be asked to do. A command names the files it works on; settings come from a
file of their own, if one is named, and are the defaults otherwise.
-/

namespace GraphCompare

/-- How a graph is written. -/
inductive GraphFormat where
  /-- As an adjacency in JSON. -/
  | json
  /-- As a drawing in DOT. -/
  | dot
deriving DecidableEq

/-- The format of a name. -/
def GraphFormat.ofName? : (name : String) → Option GraphFormat
  | "json" => some .json
  | "dot" => some .dot
  | _ => none

/-- What is to be done. -/
inductive Command where
  /-- Print the hash of a graph, or the label histories of its nodes. -/
  | hash (file : String) (perNode : Bool)
  /-- Print what changed from one graph to another. -/
  | diff (first second : String) (includeCommon : Bool) (format : GraphFormat)
  /-- Print whether two graphs are similar. -/
  | similar (first second : String)
  /-- Print the edit distance, or an edit path found without regard to time. -/
  | distance (first second : String) (exact : Bool)
  /-- Print the summary of a graph. -/
  | summarize (file : String) (format : GraphFormat)
  /-- Write a graph into a file. -/
  | saveAs (file output : String) (format : GraphFormat)
  /-- Print the version of the program. -/
  | version
deriving DecidableEq

/-- A run of the program. -/
structure Invocation where
  command : Command
  settingsFile : Option String
deriving DecidableEq

end GraphCompare
