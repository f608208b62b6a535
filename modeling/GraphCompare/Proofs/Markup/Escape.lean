import Mathlib
import GraphCompare.Markup.Reference

/-!
# Text with its special characters escaped

Five characters have a meaning in markup. Where a text is to stand for itself they are written as
references (`escape`): the ampersand, the two brackets and the two quotes. An escaped text holds
none of the brackets and quotes, so it can stand between tags and between quotes, and resolving its
references gives the text back (`resolve_escape`).
-/

namespace GraphCompare.Markup

/-! ## Splitting a text at a character -/

section

variable {p : Char → Bool} {front : List Char} {x : Char}

theorem takeWhile_at (h : ∀ c ∈ front, p c) (hx : p x = false) (rest : List Char) :
    (front ++ x :: rest).takeWhile p = front := by
  rw [List.takeWhile_append_of_pos h, List.takeWhile_cons, hx]
  exact List.append_nil front

theorem dropWhile_at (h : ∀ c ∈ front, p c) (hx : p x = false) (rest : List Char) :
    (front ++ x :: rest).dropWhile p = x :: rest := by
  rw [List.dropWhile_append_of_pos h, List.dropWhile_cons, hx]
  rfl

end

theorem all_ne_of_notMem {x : Char} {cs : List Char} (h : x ∉ cs) :
    ∀ c ∈ cs, decide (c ≠ x) = true := by
  intro c hc
  rw [decide_eq_true_eq]
  rintro rfl
  exact h hc

/-! ## Escaping -/

/-- The name of a character that has a meaning. -/
def special? : Char → Option (List Char)
  | '&' => some ['a', 'm', 'p']
  | '<' => some ['l', 't']
  | '>' => some ['g', 't']
  | '"' => some ['q', 'u', 'o', 't']
  | '\'' => some ['a', 'p', 'o', 's']
  | _ => none

/-- A character as it is written where it is to stand for itself. -/
def escapeChar (c : Char) : List Char :=
  match special? c with
  | some name => '&' :: name ++ [';']
  | none => [c]

/-- A text with its special characters escaped. -/
def escape (cs : List Char) : List Char := cs.flatMap escapeChar

/-- The name of a character refers to it. -/
theorem reference_special {c : Char} {name : List Char} (h : special? c = some name) :
    (∀ x ∈ name, x.isAlpha) ∧ ∀ first, reference first name = .ok c := by
  unfold special? at h
  split at h <;> cases h <;> exact ⟨List.all_eq_true.1 rfl, fun _ => rfl⟩

theorem resolveFrom_plain {c : Char} (h : c ≠ '&') (read total : ℕ) (cs : List Char) :
    resolveFrom read total (c :: cs) =
      (resolveFrom (read + c.utf8Size) total cs).map (c :: ·) := by
  rw [resolveFrom]
  exact h

/-- A reference goes up to the first character that can end its name. -/
theorem resolveFrom_name {name : List Char} {c : Char} (unended : ∀ x ∈ name, (!endsName x) = true)
    (hc : ∀ first, reference first name = .ok c) (read total : ℕ) (cs : List Char) :
    resolveFrom read total ('&' :: name ++ ';' :: cs) =
      (resolveFrom (read + 2 + byteCount name) total cs).map (c :: ·) := by
  have behind := dropWhile_at (x := ';') unended rfl cs
  have front := takeWhile_at (x := ';') unended rfl cs
  rw [List.cons_append, resolveFrom]
  split
  case h_1 after hafter =>
    cases behind.symm.trans hafter
    simp only [front, hc]
  case h_2 other =>
    exact absurd behind (other cs)

theorem resolveFrom_reference {name : List Char} {c : Char} (alpha : ∀ x ∈ name, x.isAlpha)
    (hc : ∀ first, reference first name = .ok c) (read total : ℕ) (cs : List Char) :
    resolveFrom read total ('&' :: name ++ ';' :: cs) =
      (resolveFrom (read + 2 + byteCount name) total cs).map (c :: ·) := by
  refine resolveFrom_name (fun x hx => ?_) hc read total cs
  have := alpha x hx
  rw [Bool.not_eq_true', endsName, Bool.or_eq_false_iff]
  constructor <;> rw [decide_eq_false_iff_not] <;> rintro rfl <;> cases this

/-- Resolving the references of an escaped text gives the text back. -/
theorem resolve_escape (cs : List Char) : resolve (escape cs) = .ok cs := by
  have from_any : ∀ read total, resolveFrom read total (escape cs) = .ok cs := by
    induction cs with
    | nil =>
      intro read total
      rw [escape, List.flatMap_nil, resolveFrom]
    | cons c cs ih =>
      intro read total
      rw [escape, List.flatMap_cons, ← escape]
      rw [escapeChar]
      split
      case h_1 name hname =>
        obtain ⟨alpha, hc⟩ := reference_special hname
        rw [List.append_assoc, List.singleton_append, resolveFrom_reference alpha hc, ih]
        rfl
      case h_2 hnone =>
        have plain : c ≠ '&' := by
          rintro rfl
          cases hnone
        rw [List.singleton_append, resolveFrom_plain plain, ih]
        rfl
  exact from_any _ _

/-- An escaped text has no brackets and no quotes. -/
theorem notMem_escape {x : Char} (h : x = '<' ∨ x = '>' ∨ x = '"' ∨ x = '\'') (cs : List Char) :
    x ∉ escape cs := by
  intro hx
  obtain ⟨c, -, hx⟩ := List.mem_flatMap.1 hx
  rw [escapeChar] at hx
  split at hx
  case h_1 name hname =>
    have alpha := (reference_special hname).1 x
    have unlike : ¬x.isAlpha ∧ x ≠ '&' ∧ x ≠ ';' := by
      rcases h with rfl | rfl | rfl | rfl <;> decide
    simp only [List.cons_append, List.mem_cons, List.mem_append, List.not_mem_nil, or_false] at hx
    rcases hx with hx | hx | hx
    · exact unlike.2.1 hx
    · exact unlike.1 (alpha hx)
    · exact unlike.2.2 hx
  case h_2 hnone =>
    rw [List.mem_singleton] at hx
    subst hx
    rcases h with rfl | rfl | rfl | rfl <;> cases hnone

end GraphCompare.Markup
