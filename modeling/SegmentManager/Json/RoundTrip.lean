import SegmentManager.Json.Parser
import SegmentManager.Json.Printer

/-!
# Strings read back

A string that is printed in quotes is read back, whatever its characters are.
-/

namespace SegmentManager.Json

theorem readHex?_hexDigits_four {n : Nat} (h : n < 0x10000) :
    ∃ a b c d, Uuid.hexDigits 4 n = [a, b, c, d] ∧ Uuid.readHex? [a, b, c, d] = some n := by
  refine ⟨_, _, _, _, rfl, ?_⟩
  have read := Uuid.readHex?_hexDigits 4 n
  have small : n % Nat.pow 16 4 = n := Nat.mod_eq_of_lt h
  rw [small] at read
  exact read

theorem stringUnits_letter {c letter : Char} (h : escapeLetter? c = some letter)
    (rest : List Char) :
    stringUnits ('\\' :: letter :: rest) =
      (stringUnits rest).map fun (units, rest) => (c.toNat :: units, rest) := by
  have cases : (c = '\x08' ∧ letter = 'b') ∨ (c = '\t' ∧ letter = 't') ∨
      (c = '\n' ∧ letter = 'n') ∨ (c = '\x0c' ∧ letter = 'f') ∨ (c = '\r' ∧ letter = 'r') ∨
      (c = '"' ∧ letter = '"') ∨ (c = '\\' ∧ letter = '\\') := by
    unfold escapeLetter? at h
    repeat' split at h
    all_goals cases h
    all_goals simp_all
  rcases cases with ⟨rfl, rfl⟩ | ⟨rfl, rfl⟩ | ⟨rfl, rfl⟩ | ⟨rfl, rfl⟩ | ⟨rfl, rfl⟩ | ⟨rfl, rfl⟩ |
    ⟨rfl, rfl⟩ <;>
    cases e : stringUnits rest <;> simp [stringUnits, unescape?, e]

theorem stringUnits_escapeChar (c : Char) (rest : List Char) :
    stringUnits (escapeChar c ++ rest) =
      (stringUnits rest).map fun (units, rest) => (c.toNat :: units, rest) := by
  unfold escapeChar
  cases h : escapeLetter? c with
  | some letter => exact stringUnits_letter h rest
  | none =>
      by_cases small : c.toNat < 32
      · obtain ⟨a, b, d, e, digits, read⟩ :=
          readHex?_hexDigits_four (n := c.toNat) (by omega)
        simp only [small, if_true, digits, List.cons_append, List.nil_append, stringUnits, read]
        cases stringUnits rest <;> rfl
      · have quote : c ≠ '"' := fun e => by simp [e, escapeLetter?] at h
        have backslash : c ≠ '\\' := fun e => by simp [e, escapeLetter?] at h
        cases e : stringUnits rest <;> simp [small, stringUnits, backslash, e]

theorem stringUnits_flatMap_escapeChar (cs rest : List Char) :
    stringUnits (cs.flatMap escapeChar ++ '"' :: rest) = some (cs.map Char.toNat, rest) := by
  induction cs with
  | nil => simp [stringUnits]
  | cons c cs ih =>
      rw [List.flatMap_cons, List.append_assoc, stringUnits_escapeChar, ih]
      rfl

theorem joinUnits_map_toNat (cs : List Char) : joinUnits none (cs.map Char.toNat) = some cs := by
  induction cs with
  | nil => rfl
  | cons c cs ih =>
      have valid : c.toNat < 0xD800 ∨ 0xDFFF < c.toNat ∧ c.toNat < 0x110000 := c.valid
      have leading : isLeading c.toNat = false := by
        simp only [isLeading]
        grind
      have trailing : isTrailing c.toNat = false := by
        simp only [isTrailing]
        grind
      simp [joinUnits, leading, trailing, ih]

theorem parseText_quoted (s : String) (rest : List Char) :
    parseText ((quoted s).tail ++ rest) = some (some s, rest) := by
  have units := stringUnits_flatMap_escapeChar s.toList rest
  simp [parseText, quoted, units, joinUnits_map_toNat]

end SegmentManager.Json
