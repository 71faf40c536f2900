import SegmentManager.Table
import SegmentManager.Decimal.Digits

/-!
# Options on a command line

An option has a long name and perhaps a letter.  Its value follows in the next
argument or in the same one; after a long name an equals sign stands between,
after a letter it may.  Letters without values can be joined.  A value in the
next argument does not start with a hyphen, a lone hyphen excepted.  Such a
value is judged late, when another option follows or when all is read.
-/

namespace SegmentManager.CommandLine

inductive OptionSort
  | switch
  | path
  | natural
  | text
  | help
  | version
deriving DecidableEq, Repr

structure OptionSpec where
  name : String
  letter : Option Char
  sort : OptionSort
deriving DecidableEq, Repr

inductive Stop
  | misuse
  | help
  | version
deriving DecidableEq, Repr

abbrev Given := Table String String

def readNatural? (text : String) : Option Nat := Decimal.bounded? UInt64.size text

namespace OptionSpec

def takesValue (spec : OptionSpec) : Bool :=
  match spec.sort with
  | .path | .natural | .text => true
  | _ => false

def accepts (spec : OptionSpec) (value : String) : Bool :=
  match spec.sort with
  | .path => !value.isEmpty
  | .natural => (readNatural? value).isSome
  | _ => true

def enter (spec : OptionSpec) (value : String) (given : Given) : Except Stop Given :=
  if spec.sort = .help then .error .help
  else if spec.sort = .version then .error .version
  else if given.contains spec.name ∨ !spec.accepts value then .error .misuse
  else .ok (given.insert spec.name value)

end OptionSpec

def isPlain (arg : String) : Bool := arg.toList.head? ≠ some '-' || arg = "-"

def enterNext (spec : OptionSpec) (rest : List String) (given : Given) :
    Except Stop (Except Stop Given × List String) :=
  match rest with
  | value :: rest =>
      if isPlain value then .ok (spec.enter value given, rest) else .error .misuse
  | [] => .error .misuse

def OptionSpec.enterNow (spec : OptionSpec) (value : String) (rest : List String)
    (given : Given) : Except Stop (Except Stop Given × List String) :=
  (spec.enter value given).map (.ok ·, rest)

def readLetters (specs : List OptionSpec) : List Char → List String → Given →
    Except Stop (Except Stop Given × List String)
  | [], rest, given => .ok (.ok given, rest)
  | c :: cs, rest, given =>
      match specs.find? (·.letter = some c) with
      | none => .error .misuse
      | some spec =>
          if spec.takesValue then
            match cs with
            | [] => enterNext spec rest given
            | '=' :: cs => spec.enterNow (String.ofList cs) rest given
            | cs => spec.enterNow (String.ofList cs) rest given
          else
            match spec.enter "" given with
            | .ok given => readLetters specs cs rest given
            | .error stop => .error stop

def readLong (specs : List OptionSpec) (body : List Char) (rest : List String) (given : Given) :
    Except Stop (Except Stop Given × List String) :=
  let name := String.ofList (body.takeWhile (· ≠ '='))
  match specs.find? (·.name = name), body.dropWhile (· ≠ '=') with
  | none, _ => .error .misuse
  | some spec, [] =>
      if spec.takesValue then enterNext spec rest given else spec.enterNow "" rest given
  | some spec, _ :: value =>
      if spec.takesValue then spec.enterNow (String.ofList value) rest given
      else .error .misuse

def readOption (specs : List OptionSpec) (arg : String) (rest : List String) (given : Given) :
    Except Stop (Except Stop Given × List String) :=
  match arg.toList with
  | '-' :: '-' :: body => readLong specs body rest given
  | '-' :: letters => readLetters specs letters rest given
  | _ => .error .misuse

/-- Reads options up to the first argument that is none.  The rest is told with
whether it follows a pair of hyphens, after which nothing is an option. -/
def readOptions (specs : List OptionSpec) : Nat → List String → Except Stop Given →
    Except Stop (Except Stop Given × Bool × List String)
  | 0, _, _ => .error .misuse
  | _ + 1, [], given => .ok (given, false, [])
  | fuel + 1, arg :: rest, given =>
      if arg = "--" then .ok (given, true, rest)
      else if isPlain arg then .ok (given, false, arg :: rest)
      else
        match given.bind (readOption specs arg rest) with
        | .ok (given, rest) => readOptions specs fuel rest given
        | .error stop => .error stop

end SegmentManager.CommandLine
