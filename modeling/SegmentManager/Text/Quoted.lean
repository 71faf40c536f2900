import SegmentManager.Text.Invisible
import SegmentManager.Uuid

/-!
# Quoted text

Text in quotes, as it stands in reports of faults.  Quotes and backslashes are
escaped, and so is what cannot be seen.
-/

namespace SegmentManager.Text

def hexadecimal (n : Nat) : List Char :=
  match (Uuid.hexDigits 8 n).dropWhile (· = '0') with
  | [] => ['0']
  | digits => digits

def escape (c : Char) : List Char :=
  if c = '"' ∨ c = '\\' then ['\\', c]
  else if c = '\n' then ['\\', 'n']
  else if c = '\r' then ['\\', 'r']
  else if c = '\t' then ['\\', 't']
  else if c = '\x00' then ['\\', '0']
  else if isVisible c then [c]
  else ['\\', 'u', '\x7b'] ++ hexadecimal c.toNat ++ ['\x7d']

def quoted (s : String) : String :=
  String.ofList ('"' :: s.toList.flatMap escape ++ ['"'])

def alignRight (width : Nat) (s : String) : String :=
  "".pushn ' ' (width - s.length) ++ s

end SegmentManager.Text
