import GraphCompare.Command.Arguments
import GraphCompare.Exchange
import GraphCompare.Graph.Dot
import GraphCompare.Settings.Reader

/-!
# Running commands

A run reads its settings, does what its command says, and answers with the text that is to be
printed, or with the reason why it failed. The settings come first, also for a command that needs
none. The reason is a chain: what was tried, and the causes of its failure, the nearest first.
-/

namespace GraphCompare

/-- Why a run failed. -/
inductive RunFailure where
  | settings (path : String) (e : SettingsError)
  | reading (path : String) (e : ExchangeError)
  | writing (e : ExchangeError)

/-- The words of an error and of the fault behind it, if there is one. -/
def ExchangeError.chain : ExchangeError → List String
  | e@(file fault) => [e.message, fault.message]
  | e@(document _) => [e.message]

/-- What was tried, and the causes of its failure. -/
def RunFailure.chain : RunFailure → List String
  | settings path e => ["loading " ++ path, e.message]
  | reading path e => ("reading " ++ path) :: e.chain
  | writing e => e.chain

/-- A text of several lines behind some words; all its lines start at the same column. -/
def hangingText (words text : String) : String :=
  let margin := String.ofList ('\n' :: List.replicate words.length ' ')
  words ++ String.join (text.toList.map fun c => if c = '\n' then margin else c.toString)

/-- The causes of a failure, numbered if there are several. -/
def causesText : List String → String
  | [cause] => hangingText "    " cause
  | causes =>
    let numbered := causes.zipIdx.map fun (cause, i) =>
      hangingText ("    " ++ Decimal.integerText i ++ ": ") cause
    "\n".intercalate numbered

/-- The words of a failed run. -/
def RunFailure.message (f : RunFailure) : String :=
  match f.chain with
  | [] => ""
  | [attempt] => attempt
  | attempt :: causes => attempt ++ "\n\nCaused by:\n" ++ causesText causes

/-- What the program calls itself. -/
def versionText : String := "chen-graph v0.1.0"

/-- The program in one line, for whoever asks for help or misuses it. -/
def usageText : String :=
  "usage: chen-graph [-v] [-c CONFIG] hash|diff|similar|distance|summarize|export|version ..."

variable {m : Type → Type} [Monad m] [Files m]

/-- The graph of a file that a command names. -/
def graphOfFile (path : String) : ExceptT RunFailure m Graph :=
  (Graph.load path).adapt (.reading path)

/-- A graph in a format. -/
def GraphFormat.text (format : GraphFormat) (g : Graph) : String :=
  match format with
  | json => g.adjacency.text
  | dot => g.dot

/-- Does what a command says. The answer is what it prints. -/
def Command.run (s : Settings) : Command → ExceptT RunFailure m String
  | hash file perNode => do
    let g ← graphOfFile file
    let o := s.hash.options
    return (if perNode then (JsonForm.toJson (g.histories o)).pretty else g.hash o) ++ "\n"
  | diff first second includeCommon format => do
    let a ← graphOfFile first
    let b ← graphOfFile second
    return format.text (Difference.between (some a) (some b) includeCommon).graph ++ "\n"
  | similar first second => do
    let a ← graphOfFile first
    let b ← graphOfFile second
    return (if (a.compare b s.similarity).isSimilar then "true" else "false") ++ "\n"
  | distance first second exact => do
    let a ← graphOfFile first
    let b ← graphOfFile second
    if exact then
      let path := (a.editPath? b s.similarity.upperBound).map EditPath.toJson
      return (path.getD .null).pretty ++ "\n"
    else
      let distance := distanceOrMinusOne (a.searchDistance? b s.similarity.bounds)
      return Decimal.integerText distance ++ "\n"
  | summarize file format => do
    let g ← graphOfFile file
    return format.text (g.summary s.summary) ++ "\n"
  | saveAs file output format => do
    let g ← graphOfFile file
    match format with
    | .json => (g.adjacency.save output).adapt .writing
    | .dot => (saveDrawing g.dot output).adapt .writing
    return ""
  | version => return versionText ++ "\n"

/-- Reads the settings and does what the command says. -/
def Invocation.run (i : Invocation) : ExceptT RunFailure m String := do
  let settings ← match i.settingsFile with
    | some path => (Settings.load path).adapt (.settings path)
    | none => pure {}
  i.command.run settings

/-- How a run of the program ended. -/
inductive Outcome where
  | done (output : String)
  | failed (reason : String)
  | misused
deriving DecidableEq

/-- The exit code of a run. -/
def Outcome.code : Outcome → UInt8
  | done _ => 0
  | failed _ => 1
  | misused => 2

/-- Runs the program with the arguments of a command line. -/
def runArguments (args : List String) : m Outcome := do
  match Invocation.ofArguments args with
  | .error .help => return .done (usageText ++ "\n")
  | .error .misuse => return .misused
  | .ok i =>
    match ← i.run.run with
    | .ok output => return .done output
    | .error failure => return .failed failure.message

end GraphCompare
