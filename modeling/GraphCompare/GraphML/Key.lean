import GraphCompare.Value
import GraphCompare.Decimal.Numeral
import GraphCompare.Text.Blank
import GraphCompare.Text.Quoted

/-!
# Keys of a GraphML document

A key declares an attribute: its name, the kind of element that it belongs to, the type of its
values and the value it has where none is given. `ValueType.value` reads the text of a value. Texts
stand for themselves; for the other types the white space at both ends is cut off first.
-/

namespace GraphCompare.GraphML

/-- The type of the values of a key. -/
inductive ValueType where
  | string
  | int
  | float
  | boolean
deriving DecidableEq

/-- The type with a name; what is no other type is a text. -/
def ValueType.ofName (name : List Char) : ValueType :=
  match String.ofList name with
  | "int" | "long" => int
  | "float" | "double" => float
  | "boolean" => boolean
  | _ => string

/-- How messages call a type. -/
def ValueType.name : ValueType → String
  | string => "String"
  | int => "Int"
  | float => "Float"
  | boolean => "Boolean"

/-- The elements that a key belongs to. -/
inductive Domain where
  | node
  | edge
  | all
  /-- Elements that carry no attributes here, such as ports. -/
  | other
deriving DecidableEq

/-- The domain with a name. -/
def Domain.ofName (name : List Char) : Domain :=
  match String.ofList name with
  | "node" => node
  | "edge" => edge
  | "all" => all
  | _ => other

/-- Whether a key of one domain belongs to the elements of another. -/
def Domain.covers (d e : Domain) : Bool := d = e || d = all

/-- Why a document makes no graph although its markup is in order. -/
inductive StructureFault where
  | noGraph
  | missingAttribute (element name : List Char)
  | unreadable (raw : List Char) (type : ValueType)
deriving DecidableEq

/-- The words of a fault. -/
def StructureFault.message : StructureFault → String
  | noGraph => "no <graph> element"
  | missingAttribute element name =>
    "<" ++ String.ofList element ++ "> without " ++ String.ofList name ++ " attribute"
  | unreadable raw type =>
    "cannot read " ++ Text.quoted (String.ofList raw) ++ " as " ++ type.name

/-- The truth value that a text stands for. -/
def truth? (cs : List Char) : Option Bool :=
  match String.ofList ((Text.trim cs).map Char.toLower) with
  | "true" | "1" => some true
  | "false" | "0" => some false
  | _ => none

/-- The value of a type that a text stands for. -/
def ValueType.value (type : ValueType) (raw : List Char) : Except StructureFault OrderedValue :=
  let value : Option OrderedValue :=
    match type with
    | string => some (.string (String.ofList raw))
    | int => (Numeral.int64? (Text.trim raw)).map fun i => ⟨.int i, trivial⟩
    | float => (Numeral.binary64? (Text.trim raw)).map fun x => ⟨.float x, trivial⟩
    | boolean => (truth? raw).map fun b => ⟨.bool b, trivial⟩
  match value with
  | some v => .ok v
  | none => .error (.unreadable raw type)

/-- The declaration of an attribute. -/
structure KeySpec where
  name : String
  domain : Domain
  type : ValueType
  default? : Option OrderedValue

end GraphCompare.GraphML
