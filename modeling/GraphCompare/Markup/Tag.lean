import GraphCompare.Markup.Delimiter

/-!
# Tags

A tag is a name and what follows it. The attributes are read leniently: a piece that is no attribute
is passed over and the reading goes on behind it. That concerns a name without a value, a value
without quotes, and a name that has been used before in the tag; only a value without its closing
quote, or an equals sign without a value, ends the reading.

Names may have a namespace before a colon. Names within a tag are compared as they are written;
looking up an attribute goes by the name without the namespace.
-/

namespace GraphCompare.Markup

/-- A start tag, or the tag of an empty element. -/
structure Tag where
  name : List Char
  /-- What follows the name, from the first white space on. -/
  rest : List Char
deriving DecidableEq

/-- An attribute with its value as it is written. -/
structure Attribute where
  name : List Char
  raw : List Char
deriving DecidableEq

/-- A name without its namespace: what follows the first colon, if there is one. -/
def localName (name : List Char) : List Char :=
  match name.dropWhile (· ≠ ':') with
  | [] => name
  | _ :: rest => rest

theorem length_dropWhile_le (p : Char → Bool) (cs : List Char) :
    (cs.dropWhile p).length ≤ cs.length :=
  (List.dropWhile_suffix p).length_le

/-- Splits the content of a tag at the first white space. -/
def Tag.ofContent (content : List Char) : Tag :=
  ⟨content.takeWhile fun c => !isBlank c, content.dropWhile fun c => !isBlank c⟩

/-- Whether a character goes on with the name of an attribute. -/
def inName (c : Char) : Bool := c ≠ '=' && !isBlank c

set_option linter.unusedVariables false in
/-- The attributes in a text, apart from those with a name that has been seen. -/
def attributesFrom (seen : List (List Char)) (cs : List Char) : List Attribute :=
  match hc : cs.dropWhile isBlank with
  | [] => []
  | first :: rest =>
    let name := first :: rest.takeWhile inName
    match ha : (rest.dropWhile inName).dropWhile isBlank with
    | '=' :: value =>
      if name ∈ seen then attributesFrom seen (value.dropWhile fun c => !isBlank c)
      else
        match hv : value.dropWhile isBlank with
        | [] => []
        | q :: quoted =>
          if q = '"' ∨ q = '\'' then
            match he : quoted.dropWhile (· ≠ q) with
            | [] => []
            | _ :: after =>
              ⟨name, quoted.takeWhile (· ≠ q)⟩ :: attributesFrom (name :: seen) after
          else attributesFrom (name :: seen) (quoted.dropWhile fun c => !isBlank c)
    | after => attributesFrom seen after
termination_by cs.length
decreasing_by
  all_goals
    have h₁ := length_dropWhile_le isBlank cs
    have h₂ := length_dropWhile_le inName rest
    have h₃ := length_dropWhile_le isBlank (rest.dropWhile inName)
    simp only [hc, ha, List.length_cons] at h₁ h₂ h₃
  · have := length_dropWhile_le (fun c => !isBlank c) value
    omega
  · have h₄ := length_dropWhile_le isBlank value
    have h₅ := length_dropWhile_le (· ≠ q) quoted
    simp only [hv, he, List.length_cons] at h₄ h₅
    omega
  · have h₄ := length_dropWhile_le isBlank value
    have := length_dropWhile_le (fun c => !isBlank c) quoted
    simp only [hv, List.length_cons] at h₄
    omega
  · omega

namespace Tag

/-- The attributes of a tag. -/
def attributes (t : Tag) : List Attribute := attributesFrom [] t.rest

/-- The value, as it is written, of the first attribute with a name, whatever its namespace. -/
def raw? (t : Tag) (name : List Char) : Option (List Char) :=
  (t.attributes.find? fun a => localName a.name == name).map Attribute.raw

end Tag

end GraphCompare.Markup
