import GraphCompare.Files.Basic
import GraphCompare.Hash.Rounds
import GraphCompare.Similarity
import GraphCompare.Summary.Basic

/-!
# Settings

The numbers and names that the operations on graphs go by, in three groups. Each has a default.
Settings that are read from a text are checked (`Settings.check`): a fingerprint has at least one
byte and at most 64.
-/

namespace GraphCompare

/-- What a structural hash looks at; labels are switched on and off. -/
structure HashSettings where
  iterations : UInt64 := .ofNat defaultRounds
  digestSize : UInt64 := .ofNat defaultDigestSize
  nodeLabels : Bool := true
  edgeLabels : Bool := true
deriving DecidableEq

/-- The options of the hash. A label that is switched on is the one of the label chain. -/
def HashSettings.options (s : HashSettings) : HashOptions where
  iterations := s.iterations.toNat
  digestSize := s.digestSize.toNat
  nodeLabel? := if s.nodeLabels then some Attributes.label else none
  edgeLabel? := if s.edgeLabels then some Attributes.label else none

/-- All settings. -/
structure Settings where
  hash : HashSettings := {}
  similarity : SimilaritySettings := {}
  summary : SummarySettings := {}
deriving DecidableEq

/-- Why there are no settings. -/
inductive SettingsError where
  /-- The file could not be read. -/
  | unreadable (path : String) (fault : FileFault)
  /-- The text is no document, or one of its values has the wrong type. -/
  | malformed
  | digestSize (size : UInt64)
deriving DecidableEq

/-- The greatest length of a fingerprint in bytes. -/
def maxDigestSize : UInt64 := 64

/-- The words of an error. -/
def SettingsError.message : SettingsError → String
  | unreadable path fault => "invalid configuration: " ++ path ++ ": " ++ fault.message
  | malformed => "invalid configuration: malformed settings"
  | digestSize size => "invalid configuration: digest_size must be between 1 and 64, got " ++
      Decimal.integerText size.toNat

/-- Accepts settings with a length that a fingerprint can have. -/
def Settings.check (s : Settings) : Except SettingsError Settings :=
  if s.hash.digestSize = 0 ∨ maxDigestSize < s.hash.digestSize then
    .error (.digestSize s.hash.digestSize)
  else .ok s

end GraphCompare
