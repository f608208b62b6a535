import Mathlib
import GraphCompare.Decimal.Numeral
import GraphCompare.Decimal.Layout
import GraphCompare.Text.Blank

/-!
# Reading a written integer

An integer that is written in decimal digits is read as the same integer (`int64?_integerText`). The
digits go back to their number by the library's `Nat.ofDigitChars_ten_toDigits`; the sign and the
end of the text are told by their first characters, which are no digits.
-/

namespace GraphCompare

/-- A text that neither starts nor ends with white space is not cut. -/
theorem Text.trim_eq {cs : List Char} (h : ∀ c ∈ cs, Text.isBlank c = false) :
    Text.trim cs = cs := by
  have uncut : ∀ l : List Char, (∀ c ∈ l, Text.isBlank c = false) →
      l.dropWhile Text.isBlank = l := by
    intro l hl
    cases l with
    | nil => rfl
    | cons c l =>
      rw [List.dropWhile_cons, hl c List.mem_cons_self]
      rfl
  rw [Text.trim, uncut cs h, uncut cs.reverse fun c hc => h c (List.mem_reverse.1 hc),
    List.reverse_reverse]

/-- A digit is none of the white space. -/
theorem Text.isBlank_of_isDigit {c : Char} (h : c.isDigit) : Text.isBlank c = false := by
  have range : 48 ≤ c.toNat ∧ c.toNat ≤ 57 := by
    simpa [Char.isDigit, UInt32.le_iff_toNat_le] using h
  simp only [Text.isBlank, decide_eq_false_iff_not]
  omega

namespace Numeral

open Decimal (digitText integerText)

theorem isDigit_of_mem_digitText {n : ℕ} {c : Char} (h : c ∈ digitText n) : c.isDigit :=
  Nat.isDigit_of_mem_toDigits (by decide) (by decide) h

theorem ofDigits_digitText (n : ℕ) : ofDigits (digitText n) = n := by
  have back := Nat.ofDigitChars_ten_toDigits (n := n)
  rw [Nat.ofDigitChars_eq_foldl] at back
  simp only [ofDigits, digitText, Nat.mul_comm _ 10, back]

/-- The digits of a number go up to the first character that is no digit. -/
theorem takeDigits?_append (n : ℕ) {rest : List Char} (h : ∀ c ∈ rest.head?, c.isDigit = false) :
    takeDigits? (digitText n ++ rest) = some (digitText n, rest) := by
  have digits : ∀ c ∈ digitText n, c.isDigit := fun c => isDigit_of_mem_digitText
  have stop : rest.takeWhile Char.isDigit = [] ∧ rest.dropWhile Char.isDigit = rest := by
    cases rest with
    | nil => exact ⟨rfl, rfl⟩
    | cons c rest =>
      have other : ¬c.isDigit := by simp [h c rfl]
      exact ⟨List.takeWhile_cons_of_neg other, List.dropWhile_cons_of_neg other⟩
  rw [takeDigits?, List.takeWhile_append_of_pos digits, List.dropWhile_append_of_pos digits,
    stop.1, stop.2, List.append_nil]
  split
  case h_1 hnil => exact absurd hnil Nat.toDigits_ne_nil
  case h_2 => rfl

theorem takeDigits?_digitText (n : ℕ) : takeDigits? (digitText n) = some (digitText n, []) := by
  have whole := @takeDigits?_append n [] nofun
  rwa [List.append_nil] at whole

/-- Without a sign a numeral is not negative. -/
theorem takeSign_digitText (n : ℕ) : takeSign (digitText n) = (false, digitText n) := by
  unfold takeSign
  split
  case h_1 rest h =>
    have := isDigit_of_mem_digitText (c := '-') (n := n) (h ▸ List.mem_cons_self)
    cases this
  case h_2 rest h =>
    have := isDigit_of_mem_digitText (c := '+') (n := n) (h ▸ List.mem_cons_self)
    cases this
  case h_3 => rfl

theorem integer?_integerText (i : ℤ) : integer? (integerText i).toList = some i := by
  rw [integerText, String.toList_append, String.toList_ofList]
  split
  case isTrue negative =>
    have sign : takeSign ("-".toList ++ digitText i.natAbs) = (true, digitText i.natAbs) := rfl
    simp only [integer?, sign, takeDigits?_digitText, ofDigits_digitText, if_true, Option.some_inj]
    omega
  case isFalse positive =>
    have plain : "".toList ++ digitText i.natAbs = digitText i.natAbs := rfl
    simp only [integer?, plain, takeSign_digitText, takeDigits?_digitText, ofDigits_digitText,
      Bool.false_eq_true, if_false, Option.some_inj]
    omega

/-- An integer that is written in decimal digits is read as the same integer. -/
theorem int64?_integerText (i : Int64) :
    int64? (Text.trim (integerText i.toInt).toList) = some i := by
  have unblank : ∀ c ∈ (integerText i.toInt).toList, Text.isBlank c = false := by
    intro c hc
    rw [integerText, String.toList_append, String.toList_ofList, List.mem_append] at hc
    rcases hc with hsign | hdigit
    · split at hsign
      · rcases List.mem_singleton.1 hsign with rfl
        decide
      · cases hsign
    · exact Text.isBlank_of_isDigit (isDigit_of_mem_digitText hdigit)
  rw [Text.trim_eq unblank, int64?, integer?_integerText, Option.bind_some,
    if_pos ⟨i.minValue_le_toInt, i.toInt_le⟩, Int64.ofInt_toInt]

end Numeral

end GraphCompare
