import Mathlib
import GraphCompare.Hash.Rounds
import GraphCompare.Proofs.Hash.Fingerprint
import GraphCompare.Proofs.Text.Front

/-!
# Reading a listing back

A hash takes the fingerprint of a listing of labels and counts, and the fingerprint does not see
layout. What it sees still tells the labels and the counts, as long as the labels are hexadecimal
(`eq_of_withoutLayout_listing`): then no label contains a quote or layout, and no count a bracket,
so where an entry ends can be seen from its front (`entryText_append_inj`).
-/

namespace GraphCompare

/-- A text of lower-case hexadecimal digits. -/
def IsHexText (s : String) : Prop := ∀ c ∈ s.toList, IsLowerHex c

namespace IsLowerHex

variable {c : Char}

theorem ne (h : IsLowerHex c) {x : Char} (hx : ¬ IsLowerHex x) : c ≠ x := by
  rintro rfl
  exact hx h

/-- A hexadecimal digit is quoted as itself. -/
theorem quotedChar_eq (h : IsLowerHex c) : Text.quotedChar c = [c] := by
  have shown : Text.isShown c := by
    have range : 48 ≤ c.toNat ∧ c.toNat ≤ 57 ∨ 97 ≤ c.toNat ∧ c.toNat ≤ 102 := h
    have ascii : c.toNat < 127 := by omega
    rw [Text.isShown, if_pos ascii, decide_eq_true_eq]
    omega
  unfold Text.quotedChar
  split
  case h_7 => rw [if_pos shown]
  all_goals exact absurd h (by decide)

theorem isLayout_eq (h : IsLowerHex c) : isLayout c = false := by
  simp only [isLayout, h.ne (x := '\n') (by decide), h.ne (x := '\t') (by decide),
    h.ne (x := ' ') (by decide), decide_false, Bool.or_self]

end IsLowerHex

/-- A decimal digit is a hexadecimal one. -/
theorem isLowerHex_of_mem_repr {n : ℕ} {c : Char} (h : c ∈ (Nat.repr n).toList) :
    IsLowerHex c := by
  have digit := isDigit_of_mem_repr h
  rw [Char.isDigit, Bool.and_eq_true, decide_eq_true_eq, decide_eq_true_eq] at digit
  exact .inl digit

/-- What is left of a text of hexadecimal digits without its layout: all of it. -/
theorem filter_of_isLowerHex {cs : List Char} (h : ∀ c ∈ cs, IsLowerHex c) :
    cs.filter (fun c => !isLayout c) = cs := by
  rw [List.filter_eq_self]
  intro c hc
  rw [(h c hc).isLayout_eq]
  rfl

/-- An entry of a listing without its layout. -/
def entryText (e : String × ℕ) : List Char :=
  '(' :: '"' :: (e.1.toList ++ '"' :: ',' :: ((Nat.repr e.2).toList ++ [')']))

/-- Where an entry ends can be seen from its front. -/
theorem entryText_append_inj {e e' : String × ℕ} {r r' : List Char} (hex : IsHexText e.1)
    (hex' : IsHexText e'.1) (h : entryText e ++ r = entryText e' ++ r') : e = e' ∧ r = r' := by
  simp only [entryText, List.cons_append, List.append_assoc, List.nil_append, List.cons.injEq,
    true_and] at h
  have quote : ∀ {s : String}, IsHexText s → '"' ∉ s.toList :=
    fun hs hmem => absurd (hs _ hmem) (by decide)
  obtain ⟨label, h⟩ := append_cons_inj (quote hex) (quote hex') h
  obtain ⟨counts, h⟩ := repr_append_inj (by decide) (List.cons.inj h).2
  have labels : e.1 = e'.1 := String.toList_injective label
  exact ⟨Prod.ext labels counts, h⟩

/-- Entries with a comma before each are known from the text up to the closing bracket. -/
theorem eq_of_flatMap_entryText {l m : List (String × ℕ)} (hl : ∀ e ∈ l, IsHexText e.1)
    (hm : ∀ e ∈ m, IsHexText e.1)
    (h : (l.flatMap fun e => ',' :: entryText e) ++ [']'] =
      (m.flatMap fun e => ',' :: entryText e) ++ [']']) : l = m := by
  have other : ∀ e, ¬(',' :: entryText e) <+: [']'] := fun e he => by simp at he
  refine (flatMap_append_inj (fun e he e' he' r r' same => ?_) (fun e _ => other e)
    (fun e _ => other e) h).1
  exact entryText_append_inj (hl e he) (hm e' he') (List.cons.inj same).2

/-- Texts joined by a separator are the first one and then the others, each behind the
separator. -/
theorem intercalate_cons {α : Type} (sep first : List α) (rest : List (List α)) :
    sep.intercalate (first :: rest) = first ++ rest.flatMap fun l => sep ++ l := by
  induction rest generalizing first with
  | nil => simp
  | cons next rest ih =>
    rw [List.intercalate_cons_cons, ih, List.flatMap_cons]
    simp only [List.append_assoc]

/-- Taking characters out of joined texts takes them out of the separator and of each text. -/
theorem filter_intercalate {α : Type} (p : α → Bool) (sep : List α) (l : List (List α)) :
    (sep.intercalate l).filter p = (sep.filter p).intercalate (l.map (List.filter p)) := by
  cases l with
  | nil => rfl
  | cons first rest =>
    rw [intercalate_cons, List.map_cons, intercalate_cons, List.filter_append, List.filter_flatMap,
      List.flatMap_map]
    simp only [List.filter_append]

/-- A text of hexadecimal digits is quoted as it is. -/
theorem toList_quoted {s : String} (h : IsHexText s) :
    (Text.quoted s).toList = '"' :: (s.toList ++ ['"']) := by
  rw [Text.quoted, String.toList_ofList, List.cons_append,
    List.flatMap_congr fun c hc => (h c hc).quotedChar_eq, List.flatMap_singleton']

/-- How a listing of labels in hexadecimal digits is written: every label between quotes, with its
number behind a comma and the two in brackets. -/
theorem listing_eq_of_isHexText {l : List (String × ℕ)} (h : ∀ e ∈ l, IsHexText e.1) :
    listing l = "[" ++ ", ".intercalate
      (l.map fun e => "(\"" ++ e.1 ++ "\", " ++ toString e.2 ++ ")") ++ "]" := by
  have entries : (l.map fun e => "(" ++ Text.quoted e.1 ++ ", " ++ Decimal.integerText e.2 ++ ")") =
      l.map fun e => "(\"" ++ e.1 ++ "\", " ++ toString e.2 ++ ")" := by
    refine List.map_congr_left fun e he => String.toList_injective ?_
    have number : (toString e.2).toList = (Nat.repr e.2).toList := rfl
    simp only [String.toList_append, toList_quoted (h e he), Decimal.integerText_natCast, number]
    simp
  rw [← entries]
  rfl

/-- The characters of an entry as the listing has it, without its layout. -/
theorem filter_entry {e : String × ℕ} (h : IsHexText e.1) :
    (("(" ++ Text.quoted e.1 ++ ", " ++ Decimal.integerText e.2 ++ ")").toList.filter
      fun c => !isLayout c) = entryText e := by
  have label : (Text.quoted e.1).toList.filter (fun c => !isLayout c) =
      '"' :: (e.1.toList ++ ['"']) := by
    rw [toList_quoted h, List.filter_cons_of_pos (by rfl), List.filter_append,
      filter_of_isLowerHex h]
    rfl
  have count : (Nat.repr e.2).toList.filter (fun c => !isLayout c) = (Nat.repr e.2).toList :=
    filter_of_isLowerHex fun _ => isLowerHex_of_mem_repr
  have front : "(".toList.filter (fun c => !isLayout c) = ['('] := rfl
  have between : ", ".toList.filter (fun c => !isLayout c) = [','] := rfl
  have behind : ")".toList.filter (fun c => !isLayout c) = [')'] := rfl
  simp only [Decimal.integerText_natCast, String.toList_append, List.filter_append, label, count,
    front, between, behind, entryText, List.cons_append, List.append_assoc, List.nil_append]

/-- The characters of a listing without its layout. -/
theorem toList_withoutLayout_listing {l : List (String × ℕ)} (h : ∀ e ∈ l, IsHexText e.1) :
    (withoutLayout (listing l)).toList = '[' :: ([','].intercalate (l.map entryText) ++ [']']) := by
  have written : listing l = "[" ++ ", ".intercalate (l.map fun e =>
      "(" ++ Text.quoted e.1 ++ ", " ++ Decimal.integerText e.2 ++ ")") ++ "]" := rfl
  have entries : (((l.map fun e =>
      "(" ++ Text.quoted e.1 ++ ", " ++ Decimal.integerText e.2 ++ ")").map String.toList).map
        (List.filter fun c => !isLayout c)) = l.map entryText := by
    rw [List.map_map, List.map_map]
    refine List.map_congr_left fun e he => ?_
    simp only [Function.comp_apply]
    rw [filter_entry (h e he)]
  have front : "[".toList.filter (fun c => !isLayout c) = ['['] := rfl
  have between : ", ".toList.filter (fun c => !isLayout c) = [','] := rfl
  have behind : "]".toList.filter (fun c => !isLayout c) = [']'] := rfl
  rw [withoutLayout, String.toList_ofList, written, String.toList_append, String.toList_append,
    String.toList_intercalate, List.filter_append, List.filter_append, filter_intercalate, entries,
    front, between, behind, List.singleton_append, List.cons_append]

/-- **A listing can be read back** even without its layout. -/
theorem eq_of_withoutLayout_listing {l m : List (String × ℕ)} (hl : ∀ e ∈ l, IsHexText e.1)
    (hm : ∀ e ∈ m, IsHexText e.1)
    (h : withoutLayout (listing l) = withoutLayout (listing m)) : l = m := by
  have chars := congrArg String.toList h
  rw [toList_withoutLayout_listing hl, toList_withoutLayout_listing hm] at chars
  have body := (List.cons.inj chars).2
  cases l with
  | nil =>
    cases m with
    | nil => rfl
    | cons e m =>
      rw [List.map_cons, intercalate_cons] at body
      cases body
  | cons e l =>
    cases m with
    | nil =>
      rw [List.map_cons, intercalate_cons] at body
      cases body
    | cons e' m =>
      simp only [List.map_cons, intercalate_cons, List.flatMap_map, List.singleton_append,
        List.append_assoc] at body
      rw [List.forall_mem_cons] at hl hm
      obtain ⟨rfl, rest⟩ := entryText_append_inj hl.1 hm.1 body
      rw [eq_of_flatMap_entryText hl.2 hm.2 rest]

end GraphCompare
