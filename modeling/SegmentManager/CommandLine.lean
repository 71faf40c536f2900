import SegmentManager.CommandLine.Options
import SegmentManager.IndexBudget
import SegmentManager.Text.Quoted
import SegmentManager.Usage

/-!
# Command line

Three commands: the budget of open indexes, the usage of a persist directory,
and the version.  Some options may stand before or after the command, and what
stands after it counts.
-/

namespace SegmentManager.CommandLine

inductive Command
  | budget (maxFileHandles : Option Nat) (handlesPerIndex : Nat)
  | usage (memoryLimit : Option Nat)
  | version
deriving DecidableEq, Repr

structure Invocation where
  path : Option String
  command : Command
  asJson : Bool
deriving DecidableEq, Repr

def sharedOptions : List OptionSpec :=
  [⟨"path", some 'p', .path⟩, ⟨"verbose", some 'v', .switch⟩, ⟨"help", some 'h', .help⟩]

def topOptions : List OptionSpec := ⟨"version", some 'V', .version⟩ :: sharedOptions

def formatOption : OptionSpec := ⟨"format", some 'f', .text⟩

def ownOptions? (name : String) : Option (List OptionSpec) :=
  if name = "budget" then
    some [⟨"max-file-handles", some 'm', .natural⟩, ⟨"handles-per-index", none, .natural⟩,
      formatOption]
  else if name = "usage" then some [⟨"memory-limit", some 'm', .natural⟩, formatOption]
  else if name = "version" then some []
  else none

def Given.natural? (given : Given) (name : String) : Option Nat :=
  (given.get? name).bind readNatural?

def commandOf (name : String) (given : Given) : Command :=
  if name = "budget" then
    .budget (given.natural? "max-file-handles")
      ((given.natural? "handles-per-index").getD Settings.defaultHandlesPerIndex)
  else if name = "usage" then .usage (given.natural? "memory-limit")
  else .version

def readCommand (name : String) (specs : List OptionSpec) (outer : Except Stop Given)
    (args : List String) :
    Except Stop Invocation := do
  let (inner, _, rest) ← readOptions (specs ++ sharedOptions) (args.length + 1) args (.ok .empty)
  let inner ← inner
  if rest ≠ [] then .error .misuse
  else
    let outer ← outer
    .ok ⟨(inner.get? "path").or (outer.get? "path"), commandOf name inner,
      inner.get? "format" = some "json"⟩

/-- Help is given in general and on each command, that for help included.
Nothing that follows is read as an option. -/
def readHelp : List String → Stop
  | [] => .help
  | [name] => if name = "help" ∨ (ownOptions? name).isSome then .help else .misuse
  | _ => .misuse

/-- A value that stands in front of the command is judged after the command's own
arguments are read. -/
def read (args : List String) : Except Stop Invocation := do
  match ← readOptions topOptions (args.length + 1) args (.ok .empty) with
  | (outer, false, name :: rest) =>
      match ownOptions? name with
      | some specs => readCommand name specs outer rest
      | none => .error (if name = "help" then readHelp rest else .misuse)
  | _ => .error .misuse

/-! ## Answers -/

structure Outcome where
  code : Nat
  output : String
  errors : String
deriving DecidableEq, Repr

namespace Outcome

def lines (text : List String) : Outcome := ⟨0, String.join (text.map (· ++ "\n")), ""⟩

def failure (description : String) : Outcome := ⟨1, "", "Error: " ++ description ++ "\n"⟩

end Outcome

def toolVersion : String := "0.3.0"

def Stop.outcome : Stop → Outcome
  | .misuse => ⟨2, "", "error: the arguments cannot be understood, see segman --help\n"⟩
  | .version => .lines ["segman " ++ toolVersion]
  | .help =>
      .lines ["Usage: segman [-p PATH] [-v] COMMAND", "",
        "  budget [-m LIMIT] [--handles-per-index N] [-f text|json]",
        "  usage [-m LIMIT] [-f text|json]",
        "  version"]

def describe : Fault → String
  | .invalidSettings text => "InvalidConfig \x7b message: " ++ Text.quoted text ++ " \x7d"
  | fault => Text.quoted fault.message

def describeRefusal : Usage.Refusal → String
  | .pathTooLong => "Os \x7b code: 36, kind: InvalidFilename, message: \"File name too long\" \x7d"
  | refusal => Text.quoted refusal.message

def present (asJson : Bool) (json : Json) (lines : List String) : Outcome :=
  .lines (if asJson then [json.renderIndented] else lines)

def Invocation.answer (invocation : Invocation) (systemLimit : Nat)
    (entries? : String → Option (List Node)) : Outcome :=
  match invocation.command with
  | .version => .lines ["Segman CLI v" ++ toolVersion, "Segman Core v" ++ toolVersion]
  | .budget maxFileHandles handlesPerIndex =>
      match IndexBudget.compute systemLimit maxFileHandles handlesPerIndex with
      | .ok budget => present invocation.asJson budget.toJson budget.lines
      | .error fault => .failure (describe fault)
  | .usage memoryLimit =>
      match invocation.path with
      | none => .failure (Text.quoted "Persist directory required for usage")
      | some path =>
          match Usage.report path memoryLimit (entries? path) with
          | .ok usage => present invocation.asJson usage.toJson usage.lines
          | .error refusal => .failure (describeRefusal refusal)

def run (systemLimit : Nat) (tree : FileTree) (args : List String) : Outcome :=
  match read args with
  | .ok invocation => invocation.answer systemLimit tree.entries?
  | .error stop => stop.outcome

end SegmentManager.CommandLine
