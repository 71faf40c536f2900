import SegmentManager.Json.Value
import SegmentManager.Decimal.Digits
import SegmentManager.Decimal.Scaled
import SegmentManager.Uuid

/-!
# Reading JSON

A reader takes what it recognises from the front of the characters and gives
the rest.  Blanks may stand around every value.  A string is first read to code
units, in which pairs of surrogates are joined afterwards.
-/

namespace SegmentManager

namespace Json

def isBlank (c : Char) : Bool := c = ' ' || c = '\n' || c = '\t' || c = '\r'

def skipBlanks (cs : List Char) : List Char := cs.dropWhile isBlank

/-! ## Strings -/

def unescape? (letter : Char) : Option Nat :=
  if letter = 'b' then some 8
  else if letter = 't' then some 9
  else if letter = 'n' then some 10
  else if letter = 'f' then some 12
  else if letter = 'r' then some 13
  else if letter = '"' ∨ letter = '\\' ∨ letter = '/' then some letter.toNat
  else none

def stringUnits : List Char → Option (List Nat × List Char)
  | [] => none
  | '"' :: rest => some ([], rest)
  | '\\' :: 'u' :: a :: b :: c :: d :: rest => do
      let unit ← Uuid.readHex? [a, b, c, d]
      let (units, rest) ← stringUnits rest
      some (unit :: units, rest)
  | '\\' :: letter :: rest => do
      let unit ← unescape? letter
      let (units, rest) ← stringUnits rest
      some (unit :: units, rest)
  | c :: rest =>
      if c.toNat < 32 then none
      else do
        let (units, rest) ← stringUnits rest
        some (c.toNat :: units, rest)

def isLeading (unit : Nat) : Bool := 0xD800 ≤ unit && unit < 0xDC00

def isTrailing (unit : Nat) : Bool := 0xDC00 ≤ unit && unit < 0xE000

def ofPair (leading trailing : Nat) : Char :=
  Char.ofNat (0x10000 + (leading - 0xD800) * 0x400 + (trailing - 0xDC00))

/-- Joins pairs of surrogates, the leading one of which may be `pending`; half a
pair stands for nothing. -/
def joinUnits (pending : Option Nat) : List Nat → Option (List Char)
  | [] => if pending.isSome then none else some []
  | unit :: rest =>
      match pending with
      | some leading =>
          if isTrailing unit then (joinUnits none rest).map (ofPair leading unit :: ·) else none
      | none =>
          if isLeading unit then joinUnits (some unit) rest
          else if isTrailing unit then none
          else (joinUnits none rest).map (Char.ofNat unit :: ·)

def parseText (cs : List Char) : Option (Option String × List Char) := do
  let (units, rest) ← stringUnits cs
  some ((joinUnits none units).map String.ofList, rest)

/-! ## Numbers -/

def spanDigits : List Char → List Nat × List Char
  | [] => ([], [])
  | c :: rest =>
      match Decimal.digitValue? c with
      | some d =>
          let (ds, rest) := spanDigits rest
          (d :: ds, rest)
      | none => ([], c :: rest)

def parseWhole (cs : List Char) : Option (List Nat × List Char) :=
  match spanDigits cs with
  | ([], _) => none
  | (0 :: _ :: _, _) => none
  | found => some found

def parseFraction : List Char → Option (Option (List Nat) × List Char)
  | '.' :: rest =>
      match spanDigits rest with
      | ([], _) => none
      | (ds, rest) => some (some ds, rest)
  | rest => some (none, rest)

def parseExponent (cs : List Char) : Option (Option (Bool × List Nat) × List Char) :=
  let digitsAfter (down : Bool) (cs : List Char) :=
    match spanDigits cs with
    | ([], _) => none
    | (ds, rest) => some (some (down, ds), rest)
  match cs with
  | e :: rest =>
      if e = 'e' ∨ e = 'E' then
        match rest with
        | '-' :: rest => digitsAfter true rest
        | '+' :: rest => digitsAfter false rest
        | rest => digitsAfter false rest
      else some (none, cs)
  | [] => some (none, [])

def ofLiteral (l : Decimal.Literal) : Json :=
  match l.toInt? with
  | some i => integer i
  | none =>
      match l.toBinary64? with
      | some x => float x
      | none => unreadable

def parseNumber (cs : List Char) : Option (Json × List Char) := do
  let (negative, cs) := match cs with
    | '-' :: rest => (true, rest)
    | cs => (false, cs)
  let (whole, cs) ← parseWhole cs
  let (fraction, cs) ← parseFraction cs
  let (exponent, cs) ← parseExponent cs
  some (ofLiteral ⟨negative, whole, fraction, exponent⟩, cs)

/-! ## Values -/

/-- An object with a name that cannot be read cannot be read. -/
def ofFields (fields : List (Option String × Json)) : Json :=
  match fields.mapM fun (name, value) => name.map (·, value) with
  | some fields => object fields
  | none => unreadable

mutual

def parseValue : Nat → List Char → Option (Json × List Char)
  | 0, _ => none
  | fuel + 1, cs =>
      match skipBlanks cs with
      | 'n' :: 'u' :: 'l' :: 'l' :: rest => some (null, rest)
      | 't' :: 'r' :: 'u' :: 'e' :: rest => some (bool true, rest)
      | 'f' :: 'a' :: 'l' :: 's' :: 'e' :: rest => some (bool false, rest)
      | '"' :: rest => do
          let (text, rest) ← parseText rest
          some ((text.map string).getD unreadable, rest)
      | '[' :: rest =>
          match skipBlanks rest with
          | ']' :: rest => some (array [], rest)
          | rest => (parseItems fuel rest).map fun (items, rest) => (array items, rest)
      | '{' :: rest =>
          match skipBlanks rest with
          | '}' :: rest => some (object [], rest)
          | rest => (parseFields fuel rest).map fun (fields, rest) => (ofFields fields, rest)
      | rest => parseNumber rest

def parseItems : Nat → List Char → Option (List Json × List Char)
  | 0, _ => none
  | fuel + 1, cs => do
      let (item, cs) ← parseValue fuel cs
      match skipBlanks cs with
      | ',' :: cs =>
          let (items, cs) ← parseItems fuel cs
          some (item :: items, cs)
      | ']' :: cs => some ([item], cs)
      | _ => none

def parseFields : Nat → List Char → Option (List (Option String × Json) × List Char)
  | 0, _ => none
  | fuel + 1, cs =>
      match skipBlanks cs with
      | '"' :: cs => do
          let (name, cs) ← parseText cs
          match skipBlanks cs with
          | ':' :: cs =>
              let (value, cs) ← parseValue fuel cs
              match skipBlanks cs with
              | ',' :: cs =>
                  let (fields, cs) ← parseFields fuel cs
                  some ((name, value) :: fields, cs)
              | '}' :: cs => some ([(name, value)], cs)
              | _ => none
          | _ => none
      | _ => none

end

/-- Reads a whole text.  Every second step consumes a character, so twice the
length is enough fuel. -/
def parse? (text : String) : Option Json := do
  let cs := text.toList
  let (value, rest) ← parseValue (2 * cs.length + 2) cs
  if skipBlanks rest = [] then some value else none

end Json

end SegmentManager
