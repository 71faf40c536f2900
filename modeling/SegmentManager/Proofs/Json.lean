import SegmentManager.Json.RoundTrip
import Mathlib.Algebra.Ring.Int.Defs
import Mathlib.Algebra.Ring.Nat

/-!
# JSON values read back

The compact text of a value is read back as that value, whatever stands behind it,
as long as the value has no doubles and its numbers fit 64 bits.  A whole number is
written in digits and never read as a double.  What is left to read only gets
shorter, so the length of the text is fuel enough.
-/

namespace SegmentManager

namespace Decimal

def digitValues (cs : List Char) : List Nat := cs.filterMap digitValue?

def extend (n : Nat) (ds : List Nat) : Nat := ds.foldl (fun n d => n * 10 + d) n

theorem digitValue?_eq_getD {c : Char} (hc : isDigit c = true) :
    digitValue? c = some ((digitValue? c).getD 0) := by
  unfold isDigit at hc
  obtain ⟨d, hd⟩ := Option.isSome_iff_exists.mp hc
  simp [hd]

theorem extend_digitValues {cs : List Char} (hcs : ∀ c ∈ cs, isDigit c = true) (n : Nat) :
    extend n (digitValues cs) =
      cs.foldl (fun n c => 10 * n + (digitValue? c).getD 0) n := by
  induction cs generalizing n with
  | nil => rfl
  | cons c rest ih =>
      have hc := digitValue?_eq_getD (hcs c List.mem_cons_self)
      have hrest := ih (fun d hd => hcs d (List.mem_cons_of_mem _ hd))
      rw [digitValues, List.filterMap_cons_some hc]
      change extend (n * 10 + (digitValue? c).getD 0) (digitValues rest) = _
      rw [hrest, List.foldl_cons, Nat.mul_comm]

theorem extend_digits (n : Nat) : extend 0 (digitValues (digits n)) = n := by
  rw [extend_digitValues fun c hc => isDigit_of_mem_digits hc]
  exact value_digits n

theorem le_extend (n : Nat) (ds : List Nat) : n ≤ extend n ds := by
  induction ds generalizing n with
  | nil => exact Nat.le_refl n
  | cons d rest ih =>
      have hrest := ih (n * 10 + d)
      change n ≤ extend (n * 10 + d) rest
      omega

theorem gather_of_lt {bound n : Nat} {ds : List Nat} (hlt : extend n ds < bound) :
    gather bound n ds = (extend n ds, []) := by
  induction ds generalizing n with
  | nil => rfl
  | cons d rest ih =>
      have hrest : extend (n * 10 + d) rest < bound := hlt
      have hfirst := le_extend (n * 10 + d) rest
      rw [gather, if_pos (by omega), ih hrest]
      rfl

theorem head?_digitValues {n : Nat} (hn : 0 < n) :
    ∃ d ds, digitValues (digits n) = d :: ds ∧ 0 < d := by
  fun_induction digits n with
  | case1 n hsmall => exact ⟨n, [], by simp [digitValues, digitValue?_digitChar hsmall], hn⟩
  | case2 n hlarge ih =>
      obtain ⟨d, ds, hds, hd⟩ := ih (by omega)
      refine ⟨d, ds ++ digitValues [digitChar (n % 10)], ?_, hd⟩
      rw [digitValues, List.filterMap_append]
      change digitValues _ ++ digitValues _ = _
      rw [hds, List.cons_append]

theorem digitValues_digits (n : Nat) :
    digitValues (digits n) = [0] ∨ ∃ d ds, digitValues (digits n) = d :: ds ∧ 0 < d := by
  rcases Nat.eq_zero_or_pos n with rfl | hn
  · left
    decide +kernel
  · exact .inr (head?_digitValues hn)

end Decimal

namespace Json

open Decimal

/-- What may follow a number without becoming part of it. -/
def Stops (rest : List Char) : Prop :=
  ∀ c ∈ rest.head?, isDigit c = false ∧ c ≠ '.' ∧ c ≠ 'e' ∧ c ≠ 'E'

theorem stops_nil : Stops [] := by simp [Stops]

theorem stops_cons {c : Char} (hc : c = ',' ∨ c = ']' ∨ c = '}') (rest : List Char) :
    Stops (c :: rest) := by
  rcases hc with rfl | rfl | rfl <;> simp [Stops] <;> decide

variable {rest : List Char}

theorem spanDigits_append {cs : List Char} (hcs : ∀ c ∈ cs, isDigit c = true)
    (hrest : Stops rest) : spanDigits (cs ++ rest) = (digitValues cs, rest) := by
  induction cs with
  | nil =>
      cases rest with
      | nil => rfl
      | cons c rest =>
          have hc : digitValue? c = none := by
            have hstop := (hrest c rfl).1
            simpa [isDigit] using hstop
          simp [spanDigits, hc, digitValues]
  | cons c cs ih =>
      have hc := digitValue?_eq_getD (hcs c List.mem_cons_self)
      rw [List.cons_append, spanDigits, hc, digitValues, List.filterMap_cons_some hc]
      simp only [ih fun d hd => hcs d (List.mem_cons_of_mem _ hd)]
      rfl

theorem parseWhole_digits (n : Nat) (hrest : Stops rest) :
    parseWhole (digits n ++ rest) = some (digitValues (digits n), rest) := by
  unfold parseWhole
  rw [spanDigits_append (fun c hc => isDigit_of_mem_digits hc) hrest]
  rcases digitValues_digits n with hzero | ⟨d, ds, hds, hd⟩
  · rw [hzero]
    rfl
  · rw [hds]
    cases d with
    | zero => exact (Nat.lt_irrefl 0 hd).elim
    | succ d => rfl

theorem parseFraction_of_stops (hrest : Stops rest) : parseFraction rest = some (none, rest) := by
  unfold parseFraction
  split
  · exact ((hrest '.' rfl).2.1 rfl).elim
  · rfl

theorem parseExponent_of_stops (hrest : Stops rest) : parseExponent rest = some (none, rest) := by
  cases rest with
  | nil => rfl
  | cons c rest =>
      obtain ⟨-, -, he, hE⟩ := hrest c rfl
      simp [parseExponent, he, hE]

theorem parseNumber_parts (negative : Bool) (n : Nat) (hrest : Stops rest) :
    (do
      let (whole, cs) ← parseWhole (digits n ++ rest)
      let (fraction, cs) ← parseFraction cs
      let (exponent, cs) ← parseExponent cs
      some (ofLiteral ⟨negative, whole, fraction, exponent⟩, cs)) =
    some (ofLiteral ⟨negative, digitValues (digits n), none, none⟩, rest) := by
  simp [parseWhole_digits n hrest, parseFraction_of_stops hrest, parseExponent_of_stops hrest]

theorem toInt?_digits {n : Nat} (hn : n < UInt64.size) (negative : Bool) :
    Literal.toInt? ⟨negative, digitValues (digits n), none, none⟩ =
      if !negative then some (n : Int)
      else if n ≠ 0 ∧ n ≤ 0x8000000000000000 then some (-(n : Int))
      else none := by
  have hword : gather UInt64.size 0 (digitValues (digits n)) = (n, []) := by
    rw [gather_of_lt (by rwa [extend_digits]), extend_digits]
  simp [Literal.toInt?, hword]

theorem parseNumber_of_unsigned {cs : List Char} (hsign : ∀ rest, cs ≠ '-' :: rest) :
    parseNumber cs = (do
      let (whole, cs) ← parseWhole cs
      let (fraction, cs) ← parseFraction cs
      let (exponent, cs) ← parseExponent cs
      some (ofLiteral ⟨false, whole, fraction, exponent⟩, cs)) := by
  unfold parseNumber
  split
  rename_i negative unsigned heq
  split at heq
  · exact (hsign _ rfl).elim
  · obtain ⟨rfl, rfl⟩ := Prod.mk.inj heq
    rfl

theorem parseNumber_signed {i : Int} (hlow : -2 ^ 63 ≤ i) (hhigh : i < 2 ^ 64)
    (hrest : Stops rest) : parseNumber (signed i ++ rest) = some (integer i, rest) := by
  have hsize : UInt64.size = 2 ^ 64 := rfl
  cases i with
  | ofNat n =>
      have hn : n < UInt64.size := by
        rw [Int.ofNat_eq_natCast] at hhigh
        omega
      have hsign : ∀ cs, digits n ++ rest ≠ '-' :: cs := by
        intro cs heq
        obtain ⟨c, ds, hds⟩ := List.exists_cons_of_ne_nil (digits_ne_nil n)
        rw [hds, List.cons_append] at heq
        obtain ⟨rfl, -⟩ := List.cons.inj heq
        have hdigit := isDigit_of_mem_digits (hds ▸ List.mem_cons_self : '-' ∈ digits n)
        exact absurd hdigit (by decide)
      rw [signed, parseNumber_of_unsigned hsign, parseNumber_parts false n hrest, ofLiteral,
        toInt?_digits hn]
      rfl
  | negSucc n =>
      have hn : n + 1 ≤ 0x8000000000000000 := by
        rw [Int.negSucc_eq] at hlow
        omega
      have hparts := parseNumber_parts true (n + 1) hrest
      rw [signed, List.cons_append]
      simp only [parseNumber]
      rw [hparts, ofLiteral, toInt?_digits (by omega)]
      simp [hn, Int.negSucc_eq]

/-! ## Values -/

/-- Values that their compact text tells in full.  Numbers fit 64 bits, with a sign
or without. -/
inductive Exact : Json → Prop
  | null : Exact null
  | bool (b : Bool) : Exact (bool b)
  | integer {i : Int} (hlow : -2 ^ 63 ≤ i) (hhigh : i < 2 ^ 64) : Exact (integer i)
  | string (s : String) : Exact (string s)
  | array {items : List Json} (hitems : ∀ j ∈ items, Exact j) : Exact (array items)
  | object {fields : List (String × Json)} (hfields : ∀ f ∈ fields, Exact f.2) :
      Exact (object fields)

/-- The text of a value is read from the front of whatever cannot go on a number. -/
def ReadBack (j : Json) : Prop :=
  ∀ (rest : List Char) (fuel : Nat), Stops rest → j.compact.length ≤ fuel →
    parseValue fuel (j.compact ++ rest) = some (j, rest)

theorem compactItems_eq (items : List Json) : compactItems items = items.map compact := by
  induction items with
  | nil => rfl
  | cons item rest ih => rw [compactItems, ih, List.map_cons]

def fieldText (f : String × Json) : List Char := quoted f.1 ++ ':' :: f.2.compact

theorem compactFields_eq (fields : List (String × Json)) :
    compactFields fields = fields.map fieldText := by
  induction fields with
  | nil => rfl
  | cons field rest ih =>
      rw [compactFields, ih, List.map_cons]
      rfl

theorem skipBlanks_cons {c : Char} (hc : isBlank c = false) (cs : List Char) :
    skipBlanks (c :: cs) = c :: cs := by
  simp [skipBlanks, hc]

def BeginsNumber (c : Char) : Prop := isDigit c = true ∨ c = '-'

theorem BeginsNumber.ne {c d : Char} (hc : BeginsNumber c) (hd : isDigit d = false)
    (hminus : d ≠ '-') : c ≠ d := by
  rintro rfl
  rcases hc with hdigit | rfl
  · rw [hdigit] at hd
    cases hd
  · exact hminus rfl

theorem BeginsNumber.isBlank_eq_false {c : Char} (hc : BeginsNumber c) : isBlank c = false := by
  simp only [isBlank, Bool.or_eq_false_iff, decide_eq_false_iff_not]
  exact ⟨⟨⟨hc.ne (by decide) (by decide), hc.ne (by decide) (by decide)⟩,
    hc.ne (by decide) (by decide)⟩, hc.ne (by decide) (by decide)⟩

theorem signed_eq_cons (i : Int) : ∃ c cs, signed i = c :: cs ∧ BeginsNumber c := by
  cases i with
  | ofNat n =>
      obtain ⟨c, cs, hcs⟩ := List.exists_cons_of_ne_nil (digits_ne_nil n)
      exact ⟨c, cs, hcs, .inl (isDigit_of_mem_digits (hcs ▸ List.mem_cons_self : c ∈ digits n))⟩
  | negSucc n => exact ⟨_, _, rfl, .inr rfl⟩

theorem parseValue_of_beginsNumber {c : Char} (hc : BeginsNumber c) (cs : List Char)
    (fuel : Nat) : parseValue (fuel + 1) (c :: cs) = parseNumber (c :: cs) := by
  rw [parseValue, skipBlanks_cons hc.isBlank_eq_false]
  split <;> rename_i heq
  · exact (hc.ne (by decide) (by decide) (List.cons.inj heq).1).elim
  · exact (hc.ne (by decide) (by decide) (List.cons.inj heq).1).elim
  · exact (hc.ne (by decide) (by decide) (List.cons.inj heq).1).elim
  · exact (hc.ne (by decide) (by decide) (List.cons.inj heq).1).elim
  · exact (hc.ne (by decide) (by decide) (List.cons.inj heq).1).elim
  · exact (hc.ne (by decide) (by decide) (List.cons.inj heq).1).elim
  · rfl

theorem compact_eq_cons {j : Json} (hj : j.Exact) :
    ∃ c cs, j.compact = c :: cs ∧ isBlank c = false ∧ c ≠ ']' := by
  cases hj with
  | null => exact ⟨_, _, rfl, by decide, by decide⟩
  | bool b => cases b <;> exact ⟨_, _, rfl, by decide, by decide⟩
  | integer hlow hhigh =>
      rename_i i
      obtain ⟨c, cs, hcs, hc⟩ := signed_eq_cons i
      exact ⟨c, cs, hcs, hc.isBlank_eq_false, hc.ne (by decide) (by decide)⟩
  | string s => exact ⟨_, _, rfl, by decide, by decide⟩
  | array hitems => exact ⟨_, _, rfl, by decide, by decide⟩
  | object hfields => exact ⟨_, _, rfl, by decide, by decide⟩

theorem readBack_integer {i : Int} (hlow : -2 ^ 63 ≤ i) (hhigh : i < 2 ^ 64) :
    ReadBack (integer i) := by
  intro rest fuel hrest hfuel
  have hnumber := parseNumber_signed hlow hhigh hrest
  have htext : (integer i).compact = signed i := rfl
  obtain ⟨c, cs, hcs, hc⟩ := signed_eq_cons i
  rw [htext, hcs] at hfuel ⊢
  rw [hcs] at hnumber
  cases fuel with
  | zero => simp at hfuel
  | succ fuel => rw [List.cons_append, parseValue_of_beginsNumber hc, ← List.cons_append, hnumber]

theorem readBack_string (s : String) : ReadBack (string s) := by
  intro rest fuel hrest hfuel
  have htext := parseText_quoted s rest
  cases fuel with
  | zero => simp [compact, scalar, quoted] at hfuel
  | succ fuel =>
      change parseValue (fuel + 1) ('"' :: ((quoted s).tail ++ rest)) = _
      rw [parseValue, skipBlanks_cons (by decide)]
      simp [htext]

theorem parseItems_compact {items : List Json} (hne : items ≠ [])
    (hitems : ∀ j ∈ items, ReadBack j) (rest : List Char) {fuel : Nat}
    (hfuel : (separate [','] (items.map compact)).length + 1 ≤ fuel) :
    parseItems fuel (separate [','] (items.map compact) ++ ']' :: rest) = some (items, rest) := by
  induction items generalizing fuel with
  | nil => exact (hne rfl).elim
  | cons j later ih =>
      obtain ⟨fuel, rfl⟩ : ∃ n, fuel = n + 1 := ⟨fuel - 1, by omega⟩
      have hfirst := hitems j List.mem_cons_self
      cases later with
      | nil =>
          have hread := hfirst (']' :: rest) fuel (stops_cons (by simp) rest)
            (by simpa [separate] using hfuel)
          simp [separate, parseItems, hread, skipBlanks_cons, isBlank]
      | cons j' later =>
          have htext : separate [','] ((j :: j' :: later).map compact) ++ ']' :: rest =
              j.compact ++ ',' :: (separate [','] ((j' :: later).map compact) ++ ']' :: rest) := by
            simp [separate]
          have hlength : (separate [','] ((j :: j' :: later).map compact)).length =
              j.compact.length + 1 + (separate [','] ((j' :: later).map compact)).length := by
            simp [separate]
            omega
          have hread := hfirst (',' :: (separate [','] ((j' :: later).map compact) ++ ']' :: rest))
            fuel (stops_cons (by simp) _) (by omega)
          have hlater : parseItems fuel _ = some (j' :: later, rest) :=
            ih (by simp) (fun i hi => hitems i (List.mem_cons_of_mem _ hi)) (by omega)
          rw [htext, parseItems, hread]
          simp [skipBlanks, isBlank, -List.map_cons, hlater]

theorem readBack_array {items : List Json} (hexact : ∀ j ∈ items, j.Exact)
    (hitems : ∀ j ∈ items, ReadBack j) : ReadBack (array items) := by
  intro rest fuel hrest hfuel
  have htext : (array items).compact ++ rest =
      '[' :: (separate [','] (items.map compact) ++ ']' :: rest) := by
    simp [compact, compactItems_eq]
  have hlength : (array items).compact.length =
      (separate [','] (items.map compact)).length + 2 := by
    simp [compact, compactItems_eq]
  rw [htext]
  rw [hlength] at hfuel
  cases fuel with
  | zero => omega
  | succ fuel =>
      rw [parseValue, skipBlanks_cons (by decide)]
      cases items with
      | nil => simp [separate, skipBlanks, isBlank]
      | cons j later =>
          have hread := parseItems_compact (by simp) hitems rest (by omega : _ ≤ fuel)
          obtain ⟨c, cs, hcs, hblank, hclose⟩ := compact_eq_cons (hexact j List.mem_cons_self)
          obtain ⟨cs', hcs'⟩ : ∃ cs', separate [','] ((j :: later).map compact) ++ ']' :: rest =
              c :: cs' := by
            cases later <;> simp [separate, hcs]
          rw [hcs'] at hread ⊢
          simp [skipBlanks_cons hblank, hclose, hread]

theorem parseFields_fieldText {f : String × Json} (hf : ReadBack f.2) {rest : List Char}
    (hrest : Stops rest) {fuel : Nat} (hfuel : (fieldText f).length ≤ fuel + 1) :
    parseFields (fuel + 1) (fieldText f ++ rest) =
      match skipBlanks rest with
      | ',' :: cs => do
          let (fields, cs) ← parseFields fuel cs
          some ((some f.1, f.2) :: fields, cs)
      | '}' :: cs => some ([(some f.1, f.2)], cs)
      | _ => none := by
  have htext : fieldText f ++ rest =
      '"' :: ((quoted f.1).tail ++ ':' :: (f.2.compact ++ rest)) := by
    simp [fieldText, quoted]
  have hlength : (fieldText f).length = (quoted f.1).length + 1 + f.2.compact.length := by
    simp [fieldText]
    omega
  have hvalue := hf rest fuel hrest (by omega)
  rw [htext]
  generalize hread : parseFields (fuel + 1) _ = answer
  rw [parseFields, skipBlanks_cons (by decide)] at hread
  simp only [parseText_quoted, Option.bind_eq_bind, Option.bind_some,
    skipBlanks_cons (show isBlank ':' = false by decide), hvalue] at hread
  exact hread.symm

theorem parseFields_compact {fields : List (String × Json)} (hne : fields ≠ [])
    (hfields : ∀ f ∈ fields, ReadBack f.2) (rest : List Char) {fuel : Nat}
    (hfuel : (separate [','] (fields.map fieldText)).length + 1 ≤ fuel) :
    parseFields fuel (separate [','] (fields.map fieldText) ++ '}' :: rest) =
      some (fields.map fun f => (some f.1, f.2), rest) := by
  induction fields generalizing fuel with
  | nil => exact (hne rfl).elim
  | cons f later ih =>
      obtain ⟨fuel, rfl⟩ : ∃ n, fuel = n + 1 := ⟨fuel - 1, by omega⟩
      have hfirst := hfields f List.mem_cons_self
      cases later with
      | nil =>
          have hread := parseFields_fieldText hfirst (stops_cons (by simp) rest : Stops ('}' :: rest))
            (by simp only [separate, List.map_cons, List.map_nil] at hfuel; omega : _ ≤ fuel + 1)
          simpa [separate, skipBlanks, isBlank] using hread
      | cons f' later =>
          have htext : separate [','] ((f :: f' :: later).map fieldText) ++ '}' :: rest =
              fieldText f ++ ',' :: (separate [','] ((f' :: later).map fieldText) ++ '}' :: rest) := by
            simp [separate]
          have hlength : (separate [','] ((f :: f' :: later).map fieldText)).length =
              (fieldText f).length + 1 + (separate [','] ((f' :: later).map fieldText)).length := by
            simp [separate]
            omega
          have hlater : parseFields fuel _ = some (_, rest) :=
            ih (by simp) (fun g hg => hfields g (List.mem_cons_of_mem _ hg)) (by omega)
          rw [htext, parseFields_fieldText hfirst (stops_cons (by simp) _) (by omega)]
          simp [skipBlanks, isBlank, -List.map_cons, hlater]
          simp

theorem ofFields_readable (fields : List (String × Json)) :
    ofFields (fields.map fun f => (some f.1, f.2)) = object fields := by
  have hnames : (fields.map fun f => (some f.1, f.2)).mapM (fun f => f.1.map (·, f.2)) =
      some fields := by
    induction fields with
    | nil => rfl
    | cons f rest ih => simp [List.mapM_cons, ih]
  unfold ofFields
  generalize hread : (List.mapM _ (fields.map fun f => (some f.1, f.2)) : Option _) = names
  obtain rfl : names = some fields := hread.symm.trans hnames
  rfl

theorem readBack_object {fields : List (String × Json)} (hfields : ∀ f ∈ fields, ReadBack f.2) :
    ReadBack (object fields) := by
  intro rest fuel hrest hfuel
  have htext : (object fields).compact ++ rest =
      '{' :: (separate [','] (fields.map fieldText) ++ '}' :: rest) := by
    simp [compact, compactFields_eq]
  have hlength : (object fields).compact.length =
      (separate [','] (fields.map fieldText)).length + 2 := by
    simp [compact, compactFields_eq]
  rw [htext]
  rw [hlength] at hfuel
  cases fuel with
  | zero => omega
  | succ fuel =>
      rw [parseValue, skipBlanks_cons (by decide)]
      cases fields with
      | nil => simp [separate, skipBlanks, isBlank]
      | cons f later =>
          have hread := parseFields_compact (by simp) hfields rest (by omega : _ ≤ fuel)
          obtain ⟨cs, hcs⟩ : ∃ cs, separate [','] ((f :: later).map fieldText) ++ '}' :: rest =
              '"' :: cs := by
            cases later <;> simp [separate, fieldText, quoted]
          rw [hcs] at hread ⊢
          simp [skipBlanks_cons (c := '"') (by decide), hread, ofFields_readable, -List.map_cons]

theorem Exact.readBack {j : Json} (hj : j.Exact) : ReadBack j := by
  induction hj with
  | null =>
      intro rest fuel hrest hfuel
      cases fuel with
      | zero => simp [compact, scalar] at hfuel
      | succ fuel => simp [compact, scalar, parseValue, skipBlanks, isBlank]
  | bool b =>
      intro rest fuel hrest hfuel
      cases fuel with
      | zero => cases b <;> simp [compact, scalar] at hfuel
      | succ fuel => cases b <;> simp [compact, scalar, parseValue, skipBlanks, isBlank]
  | integer hlow hhigh => exact readBack_integer hlow hhigh
  | string s => exact readBack_string s
  | array hitems ih => exact readBack_array hitems ih
  | object hfields ih => exact readBack_object ih

theorem parse?_eq_some {text : String} {j : Json}
    (hread : parseValue (2 * text.toList.length + 2) text.toList = some (j, [])) :
    parse? text = some j := by
  simp only [parse?, hread]
  rfl

theorem parse?_render {j : Json} (hj : j.Exact) : parse? j.render = some j := by
  have hlist : j.render.toList = j.compact := String.toList_ofList
  have hread := hj.readBack [] (2 * j.compact.length + 2) stops_nil (by omega)
  rw [List.append_nil] at hread
  apply parse?_eq_some
  rw [hlist, hread]

end Json

end SegmentManager
