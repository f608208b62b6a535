import GraphCompare.Decimal.Binary64

/-!
# TOML documents

A document is a table of values by name. Its text defines it line by line, and a name that was
defined once must not be defined again; what counts as defining depends on how a table came about:

* a header such as `[a.b]` defines the table `b` and implies the table `a`, which a later header may
  still define;
* a dotted name such as `a.b = 1` makes the table `a`, which other dotted names may extend, but
  which no header may define;
* a table in braces is complete and cannot be extended at all.

`Toml.Table.define?` puts a value behind a path of names, and `Table.open?` opens the table of a
header; both have no result where something would be defined twice.
-/

namespace GraphCompare

namespace Toml

/-- How a table came about. -/
inductive Origin where
  /-- By a header of its own. -/
  | header
  /-- By the header of a table inside it. -/
  | implied
  /-- By a dotted name. -/
  | dotted
deriving DecidableEq

end Toml

/-- A value of a TOML document. -/
inductive Toml where
  | string (s : String)
  | integer (i : Int)
  | float (x : Binary64)
  | boolean (b : Bool)
  /-- A date, a time, or both; nothing here looks into it. -/
  | date
  | array (items : List Toml)
  /-- A table in braces. -/
  | inlineTable (entries : List (String × Toml))
  | table (origin : Toml.Origin) (entries : List (String × Toml))
  /-- The tables of one header in double brackets, the last one first. -/
  | tables (last : List (String × Toml)) (earlier : List (List (String × Toml)))
deriving Inhabited

namespace Toml

/-- The entries of a table. -/
abbrev Entries := List (String × Toml)

namespace Entries

/-- Sets the value of a name. -/
def set (name : String) (v : Toml) : Entries → Entries
  | [] => [(name, v)]
  | (k, w) :: rest => if k = name then (k, v) :: rest else (k, w) :: set name v rest

/-- Changes the entries of the table behind a path. Tables that are missing are made, as `made`
says; `enter` says which of the tables that are there may be entered. Of several tables of one
header the last one is meant. -/
def changeAt? (made : Origin) (enter : Origin → Bool) (change : Entries → Option Entries) :
    List String → Entries → Option Entries
  | [], entries => change entries
  | name :: path, entries =>
    match entries.lookup name with
    | none => (changeAt? made enter change path []).map fun inside =>
        set name (.table made inside) entries
    | some (.table origin inside) =>
      if enter origin then
        (changeAt? made enter change path inside).map fun inside =>
          set name (.table origin inside) entries
      else none
    | some (.tables last earlier) =>
      (changeAt? made enter change path last).map fun last =>
        set name (.tables last earlier) entries
    | some _ => none

/-- How the table behind a path came about; none for the table itself, and for a table of a header
in double brackets. -/
def originAt? : List String → Entries → Option Origin
  | [], _ => none
  | [name], entries =>
    match entries.lookup name with
    | some (.table origin _) => some origin
    | _ => none
  | name :: path, entries =>
    match entries.lookup name with
    | some (.table _ inside) => originAt? path inside
    | some (.tables last _) => originAt? path last
    | _ => none

/-- Defines a new name. -/
def add? (name : String) (v : Toml) (entries : Entries) : Option Entries :=
  if (entries.lookup name).isSome then none else some (set name v entries)

/-- Defines a name behind a path of dotted names. The tables on the path must come from dotted names
or be implied, and the last one must come from dotted names. -/
def define? (path : List String) (name : String) (v : Toml) (entries : Entries) :
    Option Entries := do
  let changed ← changeAt? .dotted (· ≠ .header) (add? name v) path entries
  if path.isEmpty ∨ originAt? path changed = some .dotted then return changed else none

/-- Opens the table of a header: it must be new, or implied so far. -/
def openTable? (name : String) (entries : Entries) : Option Entries :=
  match entries.lookup name with
  | none => some (set name (.table .header []) entries)
  | some (.table .implied inside) => some (set name (.table .header inside) entries)
  | some _ => none

/-- Opens one more table of a header in double brackets. -/
def pushTable? (name : String) (entries : Entries) : Option Entries :=
  match entries.lookup name with
  | none => some (set name (.tables [] []) entries)
  | some (.tables last earlier) => some (set name (.tables [] (last :: earlier)) entries)
  | some _ => none

/-- Changes the entries of a table on the way to a header; any table may be entered. -/
def changeUnder? (path : List String) (change : Entries → Option Entries) (entries : Entries) :
    Option Entries :=
  changeAt? .implied (fun _ => true) change path entries

end Entries

/-- The entries of a table in braces: as in a table, but a table that a value gave cannot be
extended by dotted names. -/
def inlineEntries? (pairs : List (List String × String × Toml)) : Option Entries :=
  pairs.foldlM (fun entries (path, name, v) => entries.define? path name v) []

end Toml

end GraphCompare
