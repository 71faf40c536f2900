/-!
# Decimal digits

Natural and whole numbers in decimal, as lists of characters.
-/

namespace SegmentManager.Decimal

def digitChar (d : Nat) : Char := Char.ofNat (48 + d)

def digitValue? (c : Char) : Option Nat :=
  if '0' ≤ c ∧ c ≤ '9' then some (c.toNat - 48) else none

def isDigit (c : Char) : Bool := (digitValue? c).isSome

def digits (n : Nat) : List Char :=
  if n < 10 then [digitChar n] else digits (n / 10) ++ [digitChar (n % 10)]

def value (cs : List Char) : Nat :=
  cs.foldl (fun n c => 10 * n + (digitValue? c).getD 0) 0

def signed : Int → List Char
  | .ofNat n => digits n
  | .negSucc n => '-' :: digits (n + 1)

theorem digitValue?_digitChar {d : Nat} (h : d < 10) : digitValue? (digitChar d) = some d := by
  have all : ∀ d : Fin 10, digitValue? (digitChar d) = some d.val := by decide
  exact all ⟨d, h⟩

theorem value_append (cs : List Char) (c : Char) :
    value (cs ++ [c]) = 10 * value cs + (digitValue? c).getD 0 := by
  simp [value, List.foldl_append]

@[simp] theorem value_digits (n : Nat) : value (digits n) = n := by
  fun_induction digits n with
  | case1 n h => simp [value, digitValue?_digitChar h]
  | case2 n h ih =>
      rw [value_append, ih, digitValue?_digitChar (Nat.mod_lt _ (by decide))]
      simp only [Option.getD_some]
      omega

theorem isDigit_of_mem_digits {n : Nat} {c : Char} (h : c ∈ digits n) : isDigit c = true := by
  fun_induction digits n with
  | case1 n small =>
      obtain rfl := List.mem_singleton.1 h
      simp [isDigit, digitValue?_digitChar small]
  | case2 n large ih =>
      rcases List.mem_append.1 h with h | h
      · exact ih h
      · obtain rfl := List.mem_singleton.1 h
        simp [isDigit, digitValue?_digitChar (Nat.mod_lt n (by decide : 0 < 10))]

theorem digits_ne_nil (n : Nat) : digits n ≠ [] := by
  unfold digits
  split <;> simp

def natural? (cs : List Char) : Option Nat :=
  if cs ≠ [] ∧ cs.all isDigit then some (value cs) else none

def bounded? (bound : Nat) (text : String) : Option Nat :=
  let cs := match text.toList with
    | '+' :: rest => rest
    | cs => cs
  (natural? cs).filter (· < bound)

end SegmentManager.Decimal
