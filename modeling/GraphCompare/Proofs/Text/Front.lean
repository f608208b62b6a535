import Mathlib

/-!
# What can be seen from the front

A text that is put together from pieces can be taken apart again if each piece can be told from the
front of what is left, whatever follows it: up to a character that the piece does not have
(`append_cons_inj`), as a number goes up to what is no digit (`repr_append_inj`), or because no piece
goes on where another one ends (`flatMap_append_inj`).
-/

namespace GraphCompare

variable {α β : Type}

/-- What stands before the first occurrence of a separator is known. -/
theorem append_cons_inj {x : α} {l l' r r' : List α} (hl : x ∉ l) (hl' : x ∉ l')
    (h : l ++ x :: r = l' ++ x :: r') : l = l' ∧ r = r' := by
  induction l generalizing l' with
  | nil =>
    cases l' with
    | nil => exact ⟨rfl, (List.cons.inj h).2⟩
    | cons y l' => exact absurd ((List.cons.inj h).1 ▸ List.mem_cons_self) hl'
  | cons y l ih =>
    cases l' with
    | nil => exact absurd ((List.cons.inj h).1 ▸ List.mem_cons_self) hl
    | cons z l' =>
      obtain ⟨rfl, rest⟩ := List.cons.inj h
      obtain ⟨rfl, rfl⟩ := ih (fun hx => hl (List.mem_cons_of_mem _ hx))
        (fun hx => hl' (List.mem_cons_of_mem _ hx)) rest
      exact ⟨rfl, rfl⟩

theorem isDigit_of_mem_repr {n : ℕ} {c : Char} (h : c ∈ (Nat.repr n).toList) : c.isDigit := by
  rw [Nat.repr_eq_ofList_toDigits, String.toList_ofList] at h
  exact Nat.isDigit_of_mem_toDigits (by decide) (by decide) h

theorem not_mem_repr {c : Char} (h : c.isDigit = false) (n : ℕ) : c ∉ (Nat.repr n).toList := by
  intro hc
  rw [isDigit_of_mem_repr hc] at h
  cases h

/-- The digits of a number are known up to a character that is no digit. -/
theorem repr_append_inj {c : Char} (hc : c.isDigit = false) {n n' : ℕ} {r r' : List Char}
    (h : (Nat.repr n).toList ++ c :: r = (Nat.repr n').toList ++ c :: r') : n = n' ∧ r = r' := by
  obtain ⟨digits, rest⟩ := append_cons_inj (not_mem_repr hc n) (not_mem_repr hc n') h
  exact ⟨Nat.repr_injective (String.toList_injective digits), rest⟩

/-- Pieces are known from the text that they make up, and so is what follows them, if each can be
told from its front and none of them begins what follows. -/
theorem flatMap_append_inj {f : α → List β} {l l' : List α} {t u : List β}
    (front : ∀ a ∈ l, ∀ b ∈ l', ∀ r r', f a ++ r = f b ++ r' → a = b ∧ r = r')
    (ht : ∀ b ∈ l', ¬f b <+: t) (hu : ∀ a ∈ l, ¬f a <+: u)
    (h : l.flatMap f ++ t = l'.flatMap f ++ u) : l = l' ∧ t = u := by
  induction l generalizing l' with
  | nil =>
    cases l' with
    | nil => exact ⟨rfl, h⟩
    | cons b l' =>
      rw [List.flatMap_cons, List.append_assoc] at h
      exact absurd ⟨_, h.symm⟩ (ht b List.mem_cons_self)
  | cons a l ih =>
    cases l' with
    | nil =>
      rw [List.flatMap_cons, List.append_assoc] at h
      exact absurd ⟨_, h⟩ (hu a List.mem_cons_self)
    | cons b l' =>
      rw [List.flatMap_cons, List.flatMap_cons, List.append_assoc, List.append_assoc] at h
      obtain ⟨rfl, rest⟩ := front a List.mem_cons_self b List.mem_cons_self _ _ h
      obtain ⟨rfl, rfl⟩ := ih
        (fun a ha b hb => front a (List.mem_cons_of_mem _ ha) b (List.mem_cons_of_mem _ hb))
        (fun b hb => ht b (List.mem_cons_of_mem _ hb))
        (fun a ha => hu a (List.mem_cons_of_mem _ ha)) rest
      exact ⟨rfl, rfl⟩

end GraphCompare
