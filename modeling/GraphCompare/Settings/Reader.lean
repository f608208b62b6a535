import GraphCompare.Record
import GraphCompare.Toml.Reader

/-!
# Reading settings

Settings are written in TOML. A TOML document has the shape of a JSON document (`Toml.toJson`), and
the settings are read from that shape, so a group of settings may also be an array of its fields in
order. Here the array may go on behind the last field. A date has nothing that settings could want;
where a group may stand, it is a group with no fields.
-/

namespace GraphCompare

namespace Toml

mutual

/-- The shape of a value. -/
def toJson : Toml → Json
  | string s => .string s
  | integer i => .int i
  | float x => .float x
  | boolean b => .bool b
  | date => .object []
  | array items => .array (itemsToJson items)
  | inlineTable entries => .object (entriesToJson entries)
  | table _ entries => .object (entriesToJson entries)
  | tables last earlier => .array ((.object (entriesToJson last) :: tablesToJson earlier).reverse)

/-- The shapes of the items of an array. -/
def itemsToJson : List Toml → List Json
  | [] => []
  | v :: rest => v.toJson :: itemsToJson rest

/-- The shapes of the entries of a table. -/
def entriesToJson : List (String × Toml) → List (String × Json)
  | [] => []
  | (name, v) :: rest => (name, v.toJson) :: entriesToJson rest

/-- The shapes of tables. -/
def tablesToJson : List (List (String × Toml)) → List Json
  | [] => []
  | entries :: rest => .object (entriesToJson entries) :: tablesToJson rest

end

/-- The limits of a value in a document. -/
def limits : Limits := ⟨maxDepth, true⟩

end Toml

namespace Settings

/-- The settings that a TOML text holds. -/
def ofText (text : String) : Except SettingsError Settings :=
  let shape? := (Toml.read? text).map fun entries => Json.object (Toml.entriesToJson entries)
  match shape?.bind (JsonForm.ofJson? Toml.limits) with
  | some (s : Settings) => s.check
  | none => .error .malformed

/-- The settings that a file holds. -/
def load {m : Type → Type} [Monad m] [Files m] (path : String) :
    ExceptT SettingsError m Settings := do
  let text ← (Files.readText path).adapt (.unreadable path)
  MonadExcept.ofExcept (ofText text)

end Settings

end GraphCompare
