/-!
# Identifiers

A `Uuid` is 128 bits.  It is written as 32 lower-case hexadecimal digits in
groups of 8, 4, 4, 4 and 12, joined by hyphens.  Four written forms are read:
that one, the digits alone, the grouped form in braces, and the grouped form
after `urn:uuid:`, all in either letter case.  Collections and segments have
identifiers of their own types, so that one is never taken for the other.
-/

namespace SegmentManager

structure Uuid where
  bits : BitVec 128
deriving DecidableEq, Hashable, Repr

namespace Uuid

def ofNat (n : Nat) : Uuid := ⟨BitVec.ofNat 128 n⟩

def toNat (u : Uuid) : Nat := u.bits.toNat

/-! ## Hexadecimal digits -/

def hexDigit (n : Nat) : Char :=
  if n < 10 then Char.ofNat (48 + n) else Char.ofNat (87 + n)

def hexValue? (c : Char) : Option Nat :=
  if '0' ≤ c ∧ c ≤ '9' then some (c.toNat - 48)
  else if 'a' ≤ c ∧ c ≤ 'f' then some (c.toNat - 87)
  else if 'A' ≤ c ∧ c ≤ 'F' then some (c.toNat - 55)
  else none

def hexDigits : Nat → Nat → List Char
  | 0, _ => []
  | width + 1, n => hexDigits width (n / 16) ++ [hexDigit (n % 16)]

def readHex? (digits : List Char) : Option Nat :=
  digits.foldlM (fun n c => (hexValue? c).map (16 * n + ·)) 0

theorem length_hexDigits (width n : Nat) : (hexDigits width n).length = width := by
  induction width generalizing n with
  | zero => rfl
  | succ width ih => simp [hexDigits, ih]

theorem hexValue?_hexDigit {n : Nat} (h : n < 16) : hexValue? (hexDigit n) = some n := by
  have all : ∀ m : Fin 16, hexValue? (hexDigit m) = some m.val := by decide
  exact all ⟨n, h⟩

theorem readHex?_hexDigits (width n : Nat) :
    readHex? (hexDigits width n) = some (n % Nat.pow 16 width) := by
  induction width generalizing n with
  | zero => simp [readHex?, hexDigits, Nat.mod_one]
  | succ width ih =>
      have digit := hexValue?_hexDigit (n := n % 16) (Nat.mod_lt _ (by decide))
      have front := ih (n / 16)
      rw [readHex?] at front
      simp only [readHex?, hexDigits, List.foldlM_append, front]
      simp [digit]
      rw [Nat.pow_succ, Nat.mul_comm (16 ^ width) 16, Nat.mod_mul]
      omega

/-! ## Groups -/

def groupLengths : List Nat := [8, 4, 4, 4, 12]

def group : List Nat → List Char → List Char
  | [], _ => []
  | [n], cs => cs.take n
  | n :: m :: ns, cs => cs.take n ++ '-' :: group (m :: ns) (cs.drop n)

def ungroup? : List Nat → List Char → Option (List Char)
  | [], cs => if cs = [] then some [] else none
  | [n], cs => if cs.length = n then some cs else none
  | n :: m :: ns, cs =>
      match cs.drop n with
      | '-' :: rest => (ungroup? (m :: ns) rest).map (cs.take n ++ ·)
      | _ => none

theorem ungroup?_group (lengths : List Nat) (cs : List Char)
    (h : cs.length = lengths.foldr (· + ·) 0) : ungroup? lengths (group lengths cs) = some cs := by
  induction lengths generalizing cs with
  | nil =>
      have : cs = [] := List.eq_nil_of_length_eq_zero (by simpa using h)
      simp [ungroup?, group, this]
  | cons n rest ih =>
      cases rest with
      | nil =>
          have hn : cs.length = n := by simpa using h
          simp [group, ungroup?, ← hn]
      | cons m ns =>
          have hn : n ≤ cs.length := by rw [h]; simp
          have rest := ih (cs.drop n) (by simp only [List.length_drop, h]; simp)
          have short : (cs.take n).length = n := by simp [hn]
          simp only [group, ungroup?]
          rw [List.drop_append, List.take_append]
          simp [short, rest, List.take_take, List.take_append_drop]

/-! ## Text -/

def ofDigits? (digits : List Char) : Option Uuid :=
  if digits.length = 32 then (readHex? digits).map ofNat else none

def ofGroups? (cs : List Char) : Option Uuid :=
  (ungroup? groupLengths cs).bind ofDigits?

def urn : List Char := ['u', 'r', 'n', ':', 'u', 'u', 'i', 'd', ':']

/-- The written forms differ in length, so the length says which one to expect. -/
def ofChars? (cs : List Char) : Option Uuid :=
  if cs.length = 32 then ofDigits? cs
  else if cs.length = 36 then ofGroups? cs
  else if cs.length = 38 then
    if cs.head? = some '{' ∧ cs.getLast? = some '}' then ofGroups? (cs.drop 1).dropLast
    else none
  else if cs.length = 45 then
    if (cs.take 9).map Char.toLower = urn then ofGroups? (cs.drop 9) else none
  else none

def ofString? (s : String) : Option Uuid := ofChars? s.toList

def chars (u : Uuid) : List Char := group groupLengths (hexDigits 32 u.toNat)

instance : ToString Uuid := ⟨fun u => String.ofList u.chars⟩

theorem ofGroups?_chars (u : Uuid) : ofGroups? u.chars = some u := by
  have digits := length_hexDigits 32 u.toNat
  have bound : u.toNat % Nat.pow 16 32 = u.toNat := Nat.mod_eq_of_lt (by
    have := u.bits.isLt
    simpa [toNat] using this)
  have joined := ungroup?_group groupLengths (hexDigits 32 u.toNat) (by rw [digits]; rfl)
  rw [ofGroups?, chars, joined, Option.bind_some, ofDigits?, if_pos digits,
    readHex?_hexDigits, bound]
  simp [ofNat, toNat]

theorem length_chars (u : Uuid) : u.chars.length = 36 := by
  have digits := length_hexDigits 32 u.toNat
  simp [chars, groupLengths, group, digits]

theorem ofChars?_chars (u : Uuid) : ofChars? u.chars = some u := by
  simp [ofChars?, length_chars, ofGroups?_chars]

@[simp] theorem ofString?_toString (u : Uuid) : ofString? (toString u) = some u := by
  have text : (toString u).toList = u.chars := by simp [toString]
  rw [ofString?, text, ofChars?_chars]

end Uuid

structure CollectionId where
  uuid : Uuid
deriving DecidableEq, Hashable, Repr

instance : ToString CollectionId := ⟨fun c => toString c.uuid⟩

def CollectionId.describe (c : CollectionId) : String := "CollectionId(" ++ toString c ++ ")"

structure SegmentId where
  uuid : Uuid
deriving DecidableEq, Hashable, Repr

instance : ToString SegmentId := ⟨fun s => toString s.uuid⟩

def SegmentId.describe (s : SegmentId) : String := "SegmentId(" ++ toString s ++ ")"

def SegmentId.ofString? (s : String) : Option SegmentId := (Uuid.ofString? s).map SegmentId.mk

end SegmentManager
