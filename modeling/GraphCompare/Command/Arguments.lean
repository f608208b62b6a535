import GraphCompare.Command.Basic

/-!
# Command lines

A command line is a list of arguments: the name of a command, options and words. Options that all
commands share may stand before the name or behind it; where one stands on both sides, the one
behind the name counts. The options of a command stand behind its name.

An option has a long name, as in `--config`, and mostly a letter, as in `-c`. Letters may share one
dash. The value of an option is attached to it (`--config=file`, `-cfile`, `-c=file`) or is the next
argument, which must not look like an option. Behind `--` there are only words.

A command line is first cut into its parts, which cannot fail: where it breaks the rules above, the
part is a fault. Then `Arguments.take` takes up one part after the other, and the first that is
refused decides. So a line that asks for help is answered with help, whatever follows, unless
something before it is wrong: a fault, an option given twice on one side, an empty path, a format of
no known name, an empty word, a word too many. An option right before the name of the command whose
value is an argument of its own is held back by `CommandPart.splitHeld` and taken up last.

`Invocation.ofArguments` says what a command line asks for.
-/

namespace GraphCompare

/-- Why a command line asks for no run. -/
inductive Refusal where
  /-- It asks how the program is used. -/
  | help
  | misuse
deriving DecidableEq

/-- What stands for the value of an option. -/
inductive ValueKind where
  /-- The option has no value. -/
  | nothing
  | path
  | format
deriving DecidableEq

/-- Whether a text can be the value of an option; one that has no value is given an empty text. -/
def ValueKind.admits : ValueKind → (value : String) → Bool
  | .nothing, value => value = ""
  | .path, value => value ≠ ""
  | .format, value => (GraphFormat.ofName? value).isSome

/-- An option that a command line may have. -/
structure OptionForm where
  name : String
  letter? : Option Char
  kind : ValueKind

/-- What a command line may have behind the name of a command, but for the options that all commands
share. -/
structure CommandForm where
  options : List OptionForm
  wordCount : Nat

/-! ## The parts of a command line -/

/-- A part of a command line. -/
inductive CommandPart where
  /-- An option with its value; the value may be an argument of its own, apart from the option. -/
  | option (form : OptionForm) (value : String) (apart : Bool)
  | word (text : String)
  /-- An option that is unknown, lacks its value or has one too many. -/
  | fault

namespace CommandPart

/-- The parts of an argument, and the option that takes the next argument as its value. -/
abbrev Parcel := List CommandPart × Option OptionForm

/-- Reads an option by its long name, with an equals sign before an attached value. -/
def ofLongName (forms : List OptionForm) (cs : List Char) : Parcel :=
  let name := String.ofList (cs.takeWhile (· ≠ '='))
  match forms.find? (·.name = name), cs.dropWhile (· ≠ '=') with
  | none, _ => ([.fault], none)
  | some form, [] =>
    if form.kind = .nothing then ([.option form "" false], none) else ([], some form)
  | some form, _ :: value =>
    if form.kind = .nothing then ([.fault], none)
    else ([.option form (String.ofList value) false], none)

/-- Reads options by their letters. -/
def ofLetters (forms : List OptionForm) : List Char → Parcel
  | [] => ([], none)
  | c :: rest =>
    match forms.find? (·.letter? = some c) with
    | none => ([.fault], none)
    | some form =>
      if form.kind = .nothing then
        let (parts, waiting) := ofLetters forms rest
        (.option form "" false :: parts, waiting)
      else
        match rest with
        | [] => ([], some form)
        | '=' :: value => ([.option form (String.ofList value) false], none)
        | value => ([.option form (String.ofList value) false], none)

/-- Whether an argument looks like options: it starts with a dash and goes on behind it. -/
def looksLikeOptions (arg : String) : Bool :=
  match arg.toList with
  | '-' :: _ :: _ => true
  | _ => false

/-- Reads the options in an argument that looks like options. -/
def ofArgument (forms : List OptionForm) (arg : String) : Parcel :=
  match arg.toList with
  | '-' :: '-' :: name => ofLongName forms name
  | cs => ofLetters forms (cs.drop 1)

/-- The parts of arguments, and the arguments that are left: from the first word on where the parts
are wanted `toFirstWord`, and none otherwise. A fault ends the parts. -/
def ofArguments (forms : List OptionForm) (toFirstWord : Bool) :
    List String → List CommandPart × List String
  | [] => ([], [])
  | arg :: rest =>
    if arg = "--" then (if toFirstWord then [.fault] else rest.map .word, [])
    else if looksLikeOptions arg then
      let (parts, waiting) := ofArgument forms arg
      match waiting, rest with
      | none, rest =>
        let (more, left) := ofArguments forms toFirstWord rest
        (parts ++ more, left)
      | some form, value :: rest =>
        if looksLikeOptions value then (parts ++ [.fault], [])
        else
          let (more, left) := ofArguments forms toFirstWord rest
          (parts ++ .option form value true :: more, left)
      | some _, [] => (parts ++ [.fault], [])
    else if toFirstWord then ([], arg :: rest)
    else
      let (more, left) := ofArguments forms toFirstWord rest
      (.word arg :: more, left)

/-- Splits off the last part if it is an option whose value stands apart: only a further option, and
not the name of a command, shows that the value is complete. -/
def splitHeld (parts : List CommandPart) : List CommandPart × List CommandPart :=
  match parts.getLast? with
  | some (.option form value true) => (parts.dropLast, [.option form value true])
  | _ => (parts, [])

end CommandPart

/-! ## Taking up the parts -/

/-- What has been taken up of a command line, or of one side of it. -/
structure Arguments where
  options : List (String × String)
  words : List String

namespace Arguments

/-- The value of an option, if it was given. -/
def value? (a : Arguments) (name : String) : Option String := a.options.lookup name

/-- Whether an option was given. -/
def has (a : Arguments) (name : String) : Bool := (a.value? name).isSome

/-- The format that the arguments ask for. -/
def format (a : Arguments) (default : GraphFormat) : GraphFormat :=
  ((a.value? "format").bind GraphFormat.ofName?).getD default

/-- Takes up a part. -/
def take (wordCount : Nat) (a : Arguments) : CommandPart → Except Refusal Arguments
  | .option form value _ =>
    if form.name = "help" then .error .help
    else if a.has form.name || !form.kind.admits value then .error .misuse
    else .ok { a with options := (form.name, value) :: a.options }
  | .word text =>
    if text = "" ∨ a.words.length = wordCount then .error .misuse
    else .ok { a with words := a.words ++ [text] }
  | .fault => .error .misuse

/-- Takes up parts one after the other. -/
def takeAll (wordCount : Nat) (a : Arguments) (parts : List CommandPart) :
    Except Refusal Arguments :=
  parts.foldlM (take wordCount) a

end Arguments

/-- The options of all commands. A run has no log, so `verbose` changes nothing. -/
def sharedOptions : List OptionForm :=
  [⟨"help", some 'h', .nothing⟩, ⟨"verbose", some 'v', .nothing⟩, ⟨"config", some 'c', .path⟩]

/-- The form of a command, by its name. -/
def CommandForm.ofName? : (name : String) → Option CommandForm
  | "hash" => some ⟨[⟨"subgraph", some 's', .nothing⟩], 1⟩
  | "diff" => some ⟨[⟨"include-common", none, .nothing⟩, ⟨"format", some 'f', .format⟩], 2⟩
  | "similar" => some ⟨[], 2⟩
  | "distance" => some ⟨[⟨"exact", none, .nothing⟩], 2⟩
  | "summarize" => some ⟨[⟨"format", some 'f', .format⟩], 1⟩
  | "export" => some ⟨[⟨"output", some 'o', .path⟩, ⟨"format", some 'f', .format⟩], 1⟩
  | "version" => some ⟨[], 0⟩
  | _ => none

/-- The command of a name with its arguments, if nothing is missing. -/
def Command.ofArguments? (name : String) (a : Arguments) : Option Command :=
  match name, a.words with
  | "hash", [file] => some (.hash file (a.has "subgraph"))
  | "diff", [first, second] =>
    some (.diff first second (a.has "include-common") (a.format .json))
  | "similar", [first, second] => some (.similar first second)
  | "distance", [first, second] => some (.distance first second (a.has "exact"))
  | "summarize", [file] => some (.summarize file (a.format .json))
  | "export", [file] =>
    (a.value? "output").map fun output => .saveAs file output (a.format .dot)
  | "version", [] => some .version
  | _, _ => none

/-- The answer to the word `help` and what follows it: one command at most. -/
def refusalOfHelp : List String → Refusal
  | [] => .help
  | [name] => if name = "help" ∨ (CommandForm.ofName? name).isSome then .help else .misuse
  | _ => .misuse

/-- What a command line asks for. -/
def Invocation.ofArguments (args : List String) : Except Refusal Invocation := do
  let (parts, rest) := CommandPart.ofArguments sharedOptions true args
  let (parts, held) := CommandPart.splitHeld parts
  let outer ← Arguments.takeAll 0 ⟨[], []⟩ parts
  match rest with
  | [] => throw .misuse
  | "help" :: rest => throw (refusalOfHelp rest)
  | name :: rest =>
    let some form := CommandForm.ofName? name | throw .misuse
    let (parts, _) := CommandPart.ofArguments (sharedOptions ++ form.options) false rest
    let inner ← Arguments.takeAll form.wordCount ⟨[], []⟩ parts
    let outer ← Arguments.takeAll 0 outer held
    let some command := Command.ofArguments? name inner | throw .misuse
    return ⟨command, (inner.value? "config").or (outer.value? "config")⟩

example : Invocation.ofArguments ["-c", "s", "hash", "-s", "a"] = .ok ⟨.hash "a" true, "s"⟩ := rfl
example : Invocation.ofArguments ["hash", "-h", "-s", "-s"] = .error .help := rfl
example : Invocation.ofArguments ["hash", "-s", "-s", "-h"] = .error .misuse := rfl

end GraphCompare
