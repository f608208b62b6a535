import Mathlib
import GraphCompare.Json.Printer
import GraphCompare.Json.Reader
import GraphCompare.Proofs.Decimal.Numeral

/-!
# Reading back strings and integers

A string that is written character by character is read character by character
(`stringBody?_escapedChar`), so it ends at its own closing quote and at no other. An integer goes up
to the first character that cannot go on with a number (`Ends`); it has no leading zeros
(`head?_digitText`), and where it fits in 64 bits it is read as an integer.
-/

namespace GraphCompare.Json

open Decimal (digitText integerText)

/-! ## Strings -/

theorem hexUnit?_control : ∀ n < 0x20,
    hexUnit? '0' '0' (Nat.digitChar (n / 16)) (Nat.digitChar (n % 16)) = some n := by decide

/-- A character is read as it is written. -/
theorem stringBody?_escapedChar (seen : List Char) (c : Char) (rest : List Char) :
    stringBody? ⟨seen, none, false⟩ (escapedChar c ++ rest) =
      stringBody? ⟨c :: seen, none, false⟩ rest := by
  unfold escapedChar
  split
  case h_8 quote slash _ _ _ _ _ =>
    split
    case isTrue control =>
      have unit := hexUnit?_control _ control
      have plain : StringScan.pushUnit ⟨seen, none, false⟩ c.toNat = ⟨c :: seen, none, false⟩ := by
        rw [StringScan.pushUnit, if_neg (by omega), if_neg (by omega), StringScan.push,
          Char.ofNat_toNat]
        rfl
      simp only [List.cons_append, List.nil_append, stringBody?, unit, plain]
    case isFalse printed =>
      rw [List.singleton_append, stringBody?, if_neg (not_or.2 ⟨slash, printed⟩)]
      · rfl
      · exact quote
      · exact fun _ _ _ _ _ h => (slash h).elim
      · exact fun _ _ h => (slash h).elim
  all_goals rfl

/-- A string is read as it is written. -/
theorem string?_flatMap (s : String) (rest : List Char) :
    string? (s.toList.flatMap escapedChar ++ '"' :: rest) = some (some s, rest) := by
  have from_any : ∀ (cs seen : List Char),
      stringBody? ⟨seen, none, false⟩ (cs.flatMap escapedChar ++ '"' :: rest) =
        some (some (String.ofList (seen.reverse ++ cs)), rest) := by
    intro cs
    induction cs with
    | nil =>
      intro seen
      rw [List.append_nil]
      rfl
    | cons c cs ih =>
      intro seen
      rw [List.flatMap_cons, List.append_assoc, stringBody?_escapedChar, ih, List.reverse_cons,
        List.append_assoc, List.singleton_append]
  rw [string?, from_any, List.reverse_nil, List.nil_append, String.ofList_toList]

/-! ## Integers -/

/-- Whether a character can go on with a number. -/
def inNumber (c : Char) : Bool := c.isDigit || c = '.' || c = 'e' || c = 'E'

/-- A text with which a number before it does not go on. -/
def Ends (rest : List Char) : Prop := ∀ c ∈ rest.head?, inNumber c = false

theorem Ends.nil : Ends [] := nofun

theorem Ends.cons {c : Char} (h : inNumber c = false) (rest : List Char) : Ends (c :: rest) := by
  intro d hd
  cases hd
  exact h

/-- A number other than zero does not start with zero. -/
theorem head?_digitText {n : ℕ} (h : 0 < n) : (digitText n).head? ≠ some '0' := by
  induction n using Nat.strong_induction_on with
  | _ n ih =>
  rcases Nat.lt_or_ge n 10 with small | large
  · have all : ∀ n < 10, 0 < n → (digitText n).head? ≠ some '0' := by decide
    exact all n small h
  · rw [digitText, Nat.toDigits_of_base_le (by decide) large,
      List.head?_append_of_ne_nil _ Nat.toDigits_ne_nil]
    exact ih (n / 10) (by omega) (by omega)

theorem fraction?_of_ends {rest : List Char} (ends : Ends rest) :
    fraction? rest = some ([], rest) := by
  unfold fraction?
  split
  case h_1 => cases ends '.' rfl
  case h_2 => rfl

theorem power?_of_ends {rest : List Char} (ends : Ends rest) :
    power? rest = some (none, rest) := by
  cases rest with
  | nil => rfl
  | cons c rest =>
    rw [power?, if_neg]
    rintro (rfl | rfl) <;> cases ends _ rfl

/-- The digits of a number are read as an integer. -/
theorem number?_append (negative : Bool) (n : ℕ) {rest : List Char} (ends : Ends rest) :
    number? negative (digitText n ++ rest) = some (ofInteger negative n, rest) := by
  have stop : ∀ c ∈ rest.head?, c.isDigit = false := by
    intro c hc
    have := ends c hc
    simp only [inNumber, Bool.or_eq_false_iff] at this
    exact this.1.1.1
  have short : ¬((digitText n).head? = some '0' ∧ 1 < (digitText n).length) := by
    rintro ⟨zero, long⟩
    rcases Nat.eq_zero_or_pos n with rfl | pos
    · exact absurd long (by decide)
    · exact head?_digitText pos zero
  rw [number?, Numeral.takeDigits?_append n stop]
  simp only [Option.bind_eq_bind, Option.bind_some, if_neg short, fraction?_of_ends ends,
    power?_of_ends ends, List.append_nil, Numeral.ofDigits_digitText]
  rfl

/-- The integers that are read as integers: those of 64 bits, with or without sign. -/
def InRange (i : ℤ) : Prop := Int64.minValue.toInt ≤ i ∧ i < UInt64.size

theorem ofInteger_natAbs {i : ℤ} (h : InRange i) : ofInteger (decide (i < 0)) i.natAbs = int i := by
  obtain ⟨low, high⟩ := h
  rw [ofInteger]
  split
  case isTrue negative =>
    have negative := of_decide_eq_true negative
    have same : -(i.natAbs : ℤ) = i := by omega
    rw [same, if_neg (by omega)]
  case isFalse positive =>
    have positive : ¬ i < 0 := fun h => positive (decide_eq_true h)
    have same : (i.natAbs : ℤ) = i := by omega
    rw [same, if_pos (by omega)]

theorem exists_cons_digitText (n : ℕ) : ∃ c cs, digitText n = c :: cs ∧ c.isDigit := by
  have some : digitText n ≠ [] := Nat.toDigits_ne_nil
  obtain ⟨c, cs, hcs⟩ := List.exists_cons_of_ne_nil some
  exact ⟨c, cs, hcs, Numeral.isDigit_of_mem_digitText (hcs ▸ List.mem_cons_self)⟩

/-- What starts with a digit is a number. -/
theorem scalar?_of_isDigit {c : Char} (h : c.isDigit) (cs : List Char) :
    scalar? (c :: cs) = number? false (c :: cs) := by
  unfold scalar?
  split
  case h_5 => rfl
  all_goals
    rename_i heq
    cases heq
    cases h

/-- An integer is read as it is written. -/
theorem scalar?_integerText {i : ℤ} (h : InRange i) {rest : List Char} (ends : Ends rest) :
    scalar? ((integerText i).toList ++ rest) = some (int i, rest) := by
  have read := number?_append (decide (i < 0)) i.natAbs ends
  rw [ofInteger_natAbs h] at read
  rw [integerText, String.toList_append, String.toList_ofList]
  split
  case isTrue negative =>
    rw [decide_eq_true negative] at read
    exact read
  case isFalse positive =>
    rw [decide_eq_false positive] at read
    obtain ⟨c, cs, hcs, digit⟩ := exists_cons_digitText i.natAbs
    rw [hcs] at read
    have number := (scalar?_of_isDigit digit (cs ++ rest)).trans read
    rw [← List.cons_append, ← hcs] at number
    exact number

end GraphCompare.Json
