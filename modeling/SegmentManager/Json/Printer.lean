import SegmentManager.Json.Value
import SegmentManager.Decimal.Shortest
import SegmentManager.Uuid

/-!
# JSON text

The compact form has no blanks; the indented form puts each item on a line of
its own, two blanks deeper than what holds it.  In strings only quotes,
backslashes and control characters are escaped.  What is no number is written
`null`.
-/

namespace SegmentManager

namespace Json

def numberStyle : Decimal.NumberStyle := ⟨-5, 16⟩

def escapeLetter? (c : Char) : Option Char :=
  if c = '\x08' then some 'b'
  else if c = '\t' then some 't'
  else if c = '\n' then some 'n'
  else if c = '\x0c' then some 'f'
  else if c = '\r' then some 'r'
  else if c = '"' then some '"'
  else if c = '\\' then some '\\'
  else none

def escapeChar (c : Char) : List Char :=
  match escapeLetter? c with
  | some letter => ['\\', letter]
  | none => if c.toNat < 32 then '\\' :: 'u' :: Uuid.hexDigits 4 c.toNat else [c]

def quoted (s : String) : List Char := '"' :: s.toList.flatMap escapeChar ++ ['"']

def scalar : Json → List Char
  | bool true => ['t', 'r', 'u', 'e']
  | bool false => ['f', 'a', 'l', 's', 'e']
  | integer i => Decimal.signed i
  | float x => if x.isFinite then numberStyle.text x else ['n', 'u', 'l', 'l']
  | string s => quoted s
  | _ => ['n', 'u', 'l', 'l']

def separate (between : List Char) : List (List Char) → List Char
  | [] => []
  | [piece] => piece
  | piece :: rest => piece ++ between ++ separate between rest

mutual

def compact : Json → List Char
  | array items => '[' :: separate [','] (compactItems items) ++ [']']
  | object fields => '{' :: separate [','] (compactFields fields) ++ ['}']
  | value => scalar value

def compactItems : List Json → List (List Char)
  | [] => []
  | item :: rest => compact item :: compactItems rest

def compactFields : List (String × Json) → List (List Char)
  | [] => []
  | (name, value) :: rest => (quoted name ++ ':' :: compact value) :: compactFields rest

end

def newLine (depth : Nat) : List Char := '\n' :: List.replicate (2 * depth) ' '

def onLines (depth : Nat) (opening closing : Char) (pieces : List (List Char)) : List Char :=
  if pieces.isEmpty then [opening, closing]
  else
    opening :: newLine (depth + 1) ++ separate (',' :: newLine (depth + 1)) pieces ++
      newLine depth ++ [closing]

mutual

def indented (depth : Nat) : Json → List Char
  | array items => onLines depth '[' ']' (indentedItems depth items)
  | object fields => onLines depth '{' '}' (indentedFields depth fields)
  | value => scalar value

def indentedItems (depth : Nat) : List Json → List (List Char)
  | [] => []
  | item :: rest => indented (depth + 1) item :: indentedItems depth rest

def indentedFields (depth : Nat) : List (String × Json) → List (List Char)
  | [] => []
  | (name, value) :: rest =>
      (quoted name ++ ':' :: ' ' :: indented (depth + 1) value) :: indentedFields depth rest

end

def render (j : Json) : String := String.ofList j.compact

def renderIndented (j : Json) : String := String.ofList (j.indented 0)

end Json

end SegmentManager
