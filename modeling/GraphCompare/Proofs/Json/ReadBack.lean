import Mathlib
import GraphCompare.Proofs.Json.Scalar

/-!
# Reading back what is written

Documents are written with or without white space between their parts (`Spacing`). Whatever the
spacing is, a written document is read as the document that it was (`value?_chars`), unless it has a
floating point number or a piece without a value, or an integer that is too large (`Exact`). What
follows the document is left over, so the items of an array and the members of an object are read
one after another. Every call of a reader takes at least half a character, so the bound on the
number of calls is never reached.
-/

namespace GraphCompare.Json

/-! ## Documents that are read back -/

mutual

/-- Whether a document is read as it is written: it has no floating point numbers, no pieces without
a value, and no integers of more than 64 bits. -/
def Exact : Json → Prop
  | null | bool _ | string _ => True
  | int i => InRange i
  | float _ | unusable => False
  | array items => AllExact items
  | object members => MembersExact members

/-- `Exact` for every item of an array. -/
def AllExact : List Json → Prop
  | [] => True
  | j :: rest => j.Exact ∧ AllExact rest

/-- `Exact` for the value of every member of an object. -/
def MembersExact : List (String × Json) → Prop
  | [] => True
  | (_, j) :: rest => j.Exact ∧ MembersExact rest

end

/-! ## Spacing -/

/-- White space between the parts of a document: before the items and members at each depth, and
behind the colon of a member. -/
structure Spacing where
  gap : ℕ → List Char
  space : List Char
  blank_gap : ∀ depth, ∀ c ∈ gap depth, isBlank c
  blank_space : ∀ c ∈ space, isBlank c

namespace Spacing

/-- Every item and member on a line of its own. -/
def lines : Spacing where
  gap := line
  space := [' ']
  blank_gap depth c hc := by
    rcases List.mem_cons.1 hc with rfl | hc
    · rfl
    · rw [List.eq_of_mem_replicate hc]
      rfl
  blank_space c hc := by
    rw [List.mem_singleton.1 hc]
    rfl

/-- No white space at all. -/
def tight : Spacing where
  gap _ := []
  space := []
  blank_gap _ _ hc := by cases hc
  blank_space _ hc := by cases hc

mutual

/-- A document with its spacing, inside `depth` brackets. -/
def chars (s : Spacing) (depth : ℕ) : Json → List Char
  | array [] => ['[', ']']
  | array (j :: rest) =>
    '[' :: (s.gap (depth + 1) ++
      (separated (',' :: s.gap (depth + 1)) (itemChars s (depth + 1) (j :: rest)) ++
        (s.gap depth ++ [']'])))
  | object [] => ['\x7b', '\x7d']
  | object (m :: rest) =>
    '\x7b' :: (s.gap (depth + 1) ++
      (separated (',' :: s.gap (depth + 1)) (memberChars s (depth + 1) (m :: rest)) ++
        (s.gap depth ++ ['\x7d'])))
  | null => "null".toList
  | bool b => if b then "true".toList else "false".toList
  | int i => (Decimal.integerText i).toList
  | float x => (floatLayout.write x).toList
  | string s => stringText s
  | unusable => "null".toList

/-- The items of an array. -/
def itemChars (s : Spacing) (depth : ℕ) : List Json → List (List Char)
  | [] => []
  | j :: rest => chars s depth j :: itemChars s depth rest

/-- The members of an object. -/
def memberChars (s : Spacing) (depth : ℕ) : List (String × Json) → List (List Char)
  | [] => []
  | (k, j) :: rest =>
    (stringText k ++ ':' :: (s.space ++ chars s depth j)) :: memberChars s depth rest

end

mutual

theorem prettyChars_eq : ∀ (depth : ℕ) (j : Json), prettyChars depth j = lines.chars depth j
  | depth, array [] => rfl
  | depth, array (j :: rest) => by
    rw [prettyChars, chars, prettyItems_eq]
    · simp [lines]
    · nofun
  | depth, object [] => rfl
  | depth, object (m :: rest) => by
    rw [prettyChars, chars, prettyMembers_eq]
    · simp [lines]
    · nofun
  | _, null | _, bool _ | _, int _ | _, float _ | _, string _ | _, unusable => rfl

theorem prettyItems_eq : ∀ (depth : ℕ) (items : List Json),
    prettyItems depth items = lines.itemChars depth items
  | _, [] => rfl
  | depth, j :: rest => by rw [prettyItems, itemChars, prettyChars_eq, prettyItems_eq]

theorem prettyMembers_eq : ∀ (depth : ℕ) (members : List (String × Json)),
    prettyMembers depth members = lines.memberChars depth members
  | _, [] => rfl
  | depth, (k, j) :: rest => by
    rw [prettyMembers, memberChars, prettyChars_eq, prettyMembers_eq]
    rfl

end

mutual

theorem compactChars_eq : ∀ (depth : ℕ) (j : Json), compactChars j = tight.chars depth j
  | depth, array [] => rfl
  | depth, array (j :: rest) => by
    rw [compactChars, chars, compactItems_eq (depth + 1)]
    rfl
  | depth, object [] => rfl
  | depth, object (m :: rest) => by
    rw [compactChars, chars, compactMembers_eq (depth + 1)]
    rfl
  | _, null | _, bool _ | _, int _ | _, float _ | _, string _ | _, unusable => rfl

theorem compactItems_eq : ∀ (depth : ℕ) (items : List Json),
    compactItems items = tight.itemChars depth items
  | _, [] => rfl
  | depth, j :: rest => by
    rw [compactItems, itemChars, compactChars_eq depth, compactItems_eq depth]

theorem compactMembers_eq : ∀ (depth : ℕ) (members : List (String × Json)),
    compactMembers members = tight.memberChars depth members
  | _, [] => rfl
  | depth, (k, j) :: rest => by
    rw [compactMembers, memberChars, compactChars_eq depth, compactMembers_eq depth]
    rfl

end

end Spacing

/-! ## One call of a reader -/

variable {front rest : List Char} {calls : ℕ}

theorem skipBlank_append (blank : ∀ c ∈ front, isBlank c) (cs : List Char) :
    skipBlank (front ++ cs) = skipBlank cs :=
  List.dropWhile_append_of_pos blank

theorem skipBlank_cons {c : Char} (h : isBlank c = false) (cs : List Char) :
    skipBlank (c :: cs) = c :: cs :=
  List.dropWhile_cons_of_neg (by simp [h])

/-- White space ends a number, and so does what comes behind it. -/
theorem Ends.append (blank : ∀ c ∈ front, isBlank c) (ends : Ends rest) : Ends (front ++ rest) := by
  cases front with
  | nil => exact ends
  | cons c front =>
    refine Ends.cons ?_ _
    have blank := blank c List.mem_cons_self
    simp only [isBlank, Bool.or_eq_true, decide_eq_true_eq] at blank
    rcases blank with ((rfl | rfl) | rfl) | rfl <;> rfl

/-- A character with which a word or a number starts. -/
def startsScalar (c : Char) : Bool := c = 'n' || c = 't' || c = 'f' || c = '-' || c.isDigit

theorem ne_of_startsScalar {c x : Char} (h : startsScalar c) (hx : startsScalar x = false) :
    c ≠ x := by
  rintro rfl
  rw [h] at hx
  cases hx

theorem isBlank_of_startsScalar {c : Char} (h : startsScalar c) : isBlank c = false := by
  simp only [isBlank, Bool.or_eq_false_iff, decide_eq_false_iff_not]
  exact ⟨⟨⟨ne_of_startsScalar h rfl, ne_of_startsScalar h rfl⟩, ne_of_startsScalar h rfl⟩,
    ne_of_startsScalar h rfl⟩

theorem exists_cons_integerText (i : ℤ) :
    ∃ c cs, (Decimal.integerText i).toList = c :: cs ∧ startsScalar c := by
  rw [Decimal.integerText, String.toList_append, String.toList_ofList]
  split
  case isTrue => exact ⟨'-', _, rfl, rfl⟩
  case isFalse =>
    obtain ⟨c, cs, hcs, digit⟩ := exists_cons_digitText i.natAbs
    exact ⟨c, cs, hcs, by simp [startsScalar, digit]⟩

theorem value?_scalar (blank : ∀ c ∈ front, isBlank c) {c : Char} (h : startsScalar c)
    (cs : List Char) : value? (calls + 1) (front ++ c :: cs) = scalar? (c :: cs) := by
  rw [value?, skipBlank_append blank, skipBlank_cons (isBlank_of_startsScalar h)]
  split
  case h_4 => rfl
  all_goals
    rename_i heq
    cases heq
    cases h

theorem value?_emptyArray (blank : ∀ c ∈ front, isBlank c) (rest : List Char) :
    value? (calls + 1) (front ++ '[' :: ']' :: rest) = some (array [], rest) := by
  rw [value?, skipBlank_append blank]
  rfl

theorem value?_array (blank : ∀ c ∈ front, isBlank c) {gap : List Char}
    (blank_gap : ∀ c ∈ gap, isBlank c) {c : Char} (unblank : isBlank c = false) (other : c ≠ ']')
    (cs : List Char) : value? (calls + 1) (front ++ '[' :: (gap ++ c :: cs)) =
      (items? calls (c :: cs)).map fun (items, rest) => (array items, rest) := by
  have bracket : skipBlank ('[' :: (gap ++ c :: cs)) = '[' :: (gap ++ c :: cs) := rfl
  rw [value?, skipBlank_append blank, bracket]
  simp only [skipBlank_append blank_gap, skipBlank_cons unblank]
  split
  case h_1 heq =>
    cases heq
    exact absurd rfl other
  case h_2 => rfl

theorem value?_emptyObject (blank : ∀ c ∈ front, isBlank c) (rest : List Char) :
    value? (calls + 1) (front ++ '\x7b' :: '\x7d' :: rest) = some (object [], rest) := by
  rw [value?, skipBlank_append blank]
  rfl

theorem value?_object (blank : ∀ c ∈ front, isBlank c) {gap : List Char}
    (blank_gap : ∀ c ∈ gap, isBlank c) (cs : List Char) :
    value? (calls + 1) (front ++ '\x7b' :: (gap ++ '"' :: cs)) =
      (members? calls ('"' :: cs)).map fun (members, rest) => (ofMembers members, rest) := by
  have bracket : skipBlank ('\x7b' :: (gap ++ '"' :: cs)) = '\x7b' :: (gap ++ '"' :: cs) := rfl
  have quote : skipBlank ('"' :: cs) = '"' :: cs := rfl
  rw [value?, skipBlank_append blank, bracket]
  simp only [skipBlank_append blank_gap, quote]
  rfl

/-- What is written element by element is read element by element. -/
theorem mapM_map_eq_some_map {α β γ : Type} {write : α → β} {read : β → Option γ} {g : α → γ}
    {l : List α} (h : ∀ a ∈ l, read (write a) = some (g a)) :
    (l.map write).mapM read = some (l.map g) := by
  induction l with
  | nil => rfl
  | cons a l ih =>
    rw [List.forall_mem_cons] at h
    rw [List.map_cons, List.mapM_cons, h.1, ih h.2]
    rfl

theorem mapM_map_eq_some {α β : Type} {write : α → β} {read : β → Option α} {l : List α}
    (h : ∀ a ∈ l, read (write a) = some a) : (l.map write).mapM read = some l :=
  (mapM_map_eq_some_map h).trans (congrArg some (List.map_id l))

/-- An object with all its names. -/
theorem ofMembers_map (members : List (String × Json)) :
    ofMembers (members.map fun m => (some m.1, m.2)) = object members := by
  rw [ofMembers, mapM_map_eq_some]
  exact fun _ _ => rfl

theorem stringText_append (t : String) (rest : List Char) :
    stringText t ++ rest = '"' :: (t.toList.flatMap escapedChar ++ '"' :: rest) := by
  simp [stringText]

theorem value?_string (blank : ∀ c ∈ front, isBlank c) (t : String) (rest : List Char) :
    value? (calls + 1) (front ++ (stringText t ++ rest)) = some (string t, rest) := by
  have quote : skipBlank ('"' :: (t.toList.flatMap escapedChar ++ '"' :: rest)) =
      '"' :: (t.toList.flatMap escapedChar ++ '"' :: rest) := rfl
  rw [stringText_append, value?, skipBlank_append blank, quote]
  simp only [string?_flatMap, Option.map_some]

/-- An item that is not the last is followed by a comma. -/
theorem items?_cons {cs : List Char} {j : Json} (first : value? calls cs = some (j, ',' :: rest)) :
    items? (calls + 1) cs = (items? calls rest).map fun (items, rest) => (j :: items, rest) := by
  have comma : skipBlank (',' :: rest) = ',' :: rest := rfl
  rw [items?, first]
  simp only [comma]

theorem items?_singleton {cs : List Char} {j : Json} (blank : ∀ c ∈ front, isBlank c)
    (only : value? calls cs = some (j, front ++ ']' :: rest)) :
    items? (calls + 1) cs = some ([j], rest) := by
  have bracket : skipBlank (front ++ ']' :: rest) = ']' :: rest := skipBlank_append blank _
  rw [items?, only]
  simp only [bracket]

/-- A member that is not the last is followed by a comma. -/
theorem members?_cons {cs : List Char} {j : Json} (blank : ∀ c ∈ front, isBlank c) (k : String)
    (first : value? calls cs = some (j, ',' :: rest)) :
    members? (calls + 1) (front ++ (stringText k ++ ':' :: cs)) =
      (members? calls rest).map fun (members, rest) => ((some k, j) :: members, rest) := by
  have quote : skipBlank ('"' :: (k.toList.flatMap escapedChar ++ '"' :: ':' :: cs)) =
      '"' :: (k.toList.flatMap escapedChar ++ '"' :: ':' :: cs) := rfl
  have colon : skipBlank (':' :: cs) = ':' :: cs := rfl
  have comma : skipBlank (',' :: rest) = ',' :: rest := rfl
  rw [stringText_append, members?, skipBlank_append blank, quote]
  simp only [string?_flatMap, colon, first, comma]

theorem members?_singleton {tail cs : List Char} {j : Json} (blank : ∀ c ∈ front, isBlank c)
    (blank_tail : ∀ c ∈ tail, isBlank c) (k : String)
    (only : value? calls cs = some (j, tail ++ '\x7d' :: rest)) :
    members? (calls + 1) (front ++ (stringText k ++ ':' :: cs)) = some ([(some k, j)], rest) := by
  have quote : skipBlank ('"' :: (k.toList.flatMap escapedChar ++ '"' :: ':' :: cs)) =
      '"' :: (k.toList.flatMap escapedChar ++ '"' :: ':' :: cs) := rfl
  have colon : skipBlank (':' :: cs) = ':' :: cs := rfl
  have bracket : skipBlank (tail ++ '\x7d' :: rest) = '\x7d' :: rest :=
    skipBlank_append blank_tail _
  rw [stringText_append, members?, skipBlank_append blank, quote]
  simp only [string?_flatMap, colon, only, bracket]

/-! ## Documents -/

namespace Spacing

variable (s : Spacing)

/-- A written document starts with a character that neither is white space nor closes a bracket. -/
theorem exists_cons_chars (depth : ℕ) {j : Json} (exact : j.Exact) :
    ∃ c cs, s.chars depth j = c :: cs ∧ isBlank c = false ∧ c ≠ ']' := by
  cases j with
  | null => exact ⟨_, _, rfl, rfl, by decide⟩
  | bool b => cases b <;> exact ⟨_, _, rfl, rfl, by decide⟩
  | int i =>
    obtain ⟨c, cs, hcs, start⟩ := exists_cons_integerText i
    exact ⟨c, cs, hcs, isBlank_of_startsScalar start, ne_of_startsScalar start rfl⟩
  | string t => exact ⟨_, _, rfl, rfl, by decide⟩
  | array items => cases items <;> exact ⟨_, _, rfl, rfl, by decide⟩
  | object members => cases members <;> exact ⟨_, _, rfl, rfl, by decide⟩
  | float x | unusable => cases exact

theorem pos_length_chars (depth : ℕ) {j : Json} (exact : j.Exact) :
    0 < (s.chars depth j).length := by
  obtain ⟨c, cs, hcs, -⟩ := s.exists_cons_chars depth exact
  rw [hcs]
  exact Nat.succ_pos _

/-- The items of an array with commas between them. -/
def itemsText (depth : ℕ) (items : List Json) : List Char :=
  separated (',' :: s.gap depth) (s.itemChars depth items)

theorem itemsText_singleton (depth : ℕ) (j : Json) : s.itemsText depth [j] = s.chars depth j := rfl

theorem itemsText_cons (depth : ℕ) (j k : Json) (items : List Json) :
    s.itemsText depth (j :: k :: items) =
      s.chars depth j ++ ',' :: (s.gap depth ++ s.itemsText depth (k :: items)) :=
  List.append_assoc ..

theorem chars_array (depth : ℕ) (j : Json) (items : List Json) :
    s.chars depth (array (j :: items)) = '[' :: (s.gap (depth + 1) ++
      (s.itemsText (depth + 1) (j :: items) ++ (s.gap depth ++ [']']))) := rfl

/-- The members of an object with commas between them. -/
def membersText (depth : ℕ) (members : List (String × Json)) : List Char :=
  separated (',' :: s.gap depth) (s.memberChars depth members)

theorem membersText_singleton (depth : ℕ) (k : String) (j : Json) :
    s.membersText depth [(k, j)] = stringText k ++ ':' :: (s.space ++ s.chars depth j) := rfl

theorem membersText_cons (depth : ℕ) (k : String) (j : Json) (m : String × Json)
    (members : List (String × Json)) : s.membersText depth ((k, j) :: m :: members) =
      stringText k ++ ':' :: (s.space ++ s.chars depth j) ++
        ',' :: (s.gap depth ++ s.membersText depth (m :: members)) :=
  List.append_assoc ..

theorem chars_object (depth : ℕ) (m : String × Json) (members : List (String × Json)) :
    s.chars depth (object (m :: members)) = '\x7b' :: (s.gap (depth + 1) ++
      (s.membersText (depth + 1) (m :: members) ++ (s.gap depth ++ ['\x7d']))) := rfl

theorem exists_cons_itemsText (depth : ℕ) {j : Json} (exact : j.Exact) (items : List Json) :
    ∃ c cs, s.itemsText depth (j :: items) = c :: cs ∧ isBlank c = false ∧ c ≠ ']' := by
  obtain ⟨c, cs, hcs, first⟩ := s.exists_cons_chars depth exact
  cases items with
  | nil => exact ⟨c, cs, hcs, first⟩
  | cons k items =>
    rw [itemsText_cons, hcs]
    exact ⟨c, _, rfl, first⟩

theorem exists_cons_membersText (depth : ℕ) (m : String × Json) (members : List (String × Json)) :
    ∃ cs, s.membersText depth (m :: members) = '"' :: cs := by
  cases members <;> exact ⟨_, rfl⟩

mutual

/-- A written document is read as the document, and what follows it is left. -/
theorem value?_chars {j : Json} (exact : j.Exact) {depth calls : ℕ} {front rest : List Char}
    (blank : ∀ c ∈ front, isBlank c) (ends : Ends rest)
    (enough : 2 * (s.chars depth j).length ≤ calls + 2) :
    value? (calls + 1) (front ++ (s.chars depth j ++ rest)) = some (j, rest) := by
  match j with
  | null | bool true | bool false => exact value?_scalar blank rfl _
  | int i =>
    obtain ⟨c, cs, hcs, start⟩ := exists_cons_integerText i
    have read := scalar?_integerText exact ends
    rw [hcs] at read
    rw [chars, hcs]
    exact (value?_scalar blank start _).trans read
  | string t => exact value?_string blank t rest
  | array [] => exact value?_emptyArray blank rest
  | array (j :: items) =>
    rw [chars_array] at enough ⊢
    simp only [List.length_cons, List.length_append, List.length_nil] at enough
    obtain ⟨n, rfl⟩ : ∃ n, calls = n + 1 := ⟨calls - 1, by omega⟩
    have read : items? (n + 1) ([] ++ (s.itemsText (depth + 1) (j :: items) ++
        (s.gap depth ++ ']' :: rest))) = some (j :: items, rest) :=
      items?_chars exact nofun (s.blank_gap depth) (by omega)
    obtain ⟨c, cs, hcs, unblank, other⟩ := s.exists_cons_itemsText (depth + 1) exact.1 items
    rw [hcs] at read ⊢
    simp only [List.cons_append, List.append_assoc, List.nil_append] at read ⊢
    rw [value?_array blank (s.blank_gap _) unblank other, read]
    rfl
  | object [] => exact value?_emptyObject blank rest
  | object ((k, j) :: members) =>
    rw [chars_object] at enough ⊢
    simp only [List.length_cons, List.length_append, List.length_nil] at enough
    obtain ⟨n, rfl⟩ : ∃ n, calls = n + 1 := ⟨calls - 1, by omega⟩
    have read : members? (n + 1) ([] ++ (s.membersText (depth + 1) ((k, j) :: members) ++
        (s.gap depth ++ '\x7d' :: rest))) =
          some (((k, j) :: members).map fun m => (some m.1, m.2), rest) :=
      members?_chars exact nofun (s.blank_gap depth) (by omega)
    obtain ⟨cs, hcs⟩ := s.exists_cons_membersText (depth + 1) (k, j) members
    rw [hcs] at read ⊢
    simp only [List.cons_append, List.append_assoc, List.nil_append] at read ⊢
    rw [value?_object blank (s.blank_gap _), read]
    exact congrArg (fun j => some (j, rest)) (ofMembers_map ((k, j) :: members))
termination_by sizeOf j

/-- Written items are read one after another. -/
theorem items?_chars {j : Json} {items : List Json} (exact : AllExact (j :: items))
    {depth calls : ℕ} {front tail rest : List Char} (blank : ∀ c ∈ front, isBlank c)
    (blank_tail : ∀ c ∈ tail, isBlank c)
    (enough : 2 * (s.itemsText depth (j :: items)).length ≤ calls + 1) :
    items? (calls + 1) (front ++ (s.itemsText depth (j :: items) ++ (tail ++ ']' :: rest))) =
      some (j :: items, rest) := by
  have pos := s.pos_length_chars depth exact.1
  match items with
  | [] =>
    rw [itemsText_singleton] at enough ⊢
    obtain ⟨n, rfl⟩ : ∃ n, calls = n + 1 := ⟨calls - 1, by omega⟩
    exact items?_singleton blank_tail
      (value?_chars exact.1 blank (.append blank_tail (.cons rfl _)) (by omega))
  | k :: items =>
    rw [itemsText_cons] at enough ⊢
    simp only [List.length_cons, List.length_append] at enough
    obtain ⟨n, rfl⟩ : ∃ n, calls = n + 1 := ⟨calls - 1, by omega⟩
    have first : value? (n + 1) (front ++ (s.chars depth j ++ ',' :: (s.gap depth ++
        (s.itemsText depth (k :: items) ++ (tail ++ ']' :: rest))))) = some (j, _) :=
      value?_chars exact.1 blank (.cons rfl _) (by omega)
    have others : items? (n + 1) (s.gap depth ++ (s.itemsText depth (k :: items) ++
        (tail ++ ']' :: rest))) = some (k :: items, rest) :=
      items?_chars exact.2 (s.blank_gap depth) blank_tail (by omega)
    simp only [List.append_assoc, List.cons_append]
    rw [items?_cons first, others]
    rfl
termination_by sizeOf (j :: items)

/-- Written members are read one after another. -/
theorem members?_chars {k : String} {j : Json} {members : List (String × Json)}
    (exact : MembersExact ((k, j) :: members)) {depth calls : ℕ} {front tail rest : List Char}
    (blank : ∀ c ∈ front, isBlank c) (blank_tail : ∀ c ∈ tail, isBlank c)
    (enough : 2 * (s.membersText depth ((k, j) :: members)).length ≤ calls + 1) :
    members? (calls + 1) (front ++ (s.membersText depth ((k, j) :: members) ++
      (tail ++ '\x7d' :: rest))) =
        some (((k, j) :: members).map fun m => (some m.1, m.2), rest) := by
  have pos := s.pos_length_chars depth exact.1
  match members with
  | [] =>
    rw [membersText_singleton] at enough ⊢
    simp only [List.length_cons, List.length_append] at enough
    obtain ⟨n, rfl⟩ : ∃ n, calls = n + 1 := ⟨calls - 1, by omega⟩
    have only : value? (n + 1) (s.space ++ (s.chars depth j ++ (tail ++ '\x7d' :: rest))) =
        some (j, _) :=
      value?_chars exact.1 s.blank_space (.append blank_tail (.cons rfl _)) (by omega)
    simp only [List.append_assoc, List.cons_append]
    exact members?_singleton blank blank_tail k only
  | (l, i) :: members =>
    rw [membersText_cons] at enough ⊢
    simp only [List.length_cons, List.length_append] at enough
    obtain ⟨n, rfl⟩ : ∃ n, calls = n + 1 := ⟨calls - 1, by omega⟩
    have first : value? (n + 1) (s.space ++ (s.chars depth j ++ ',' :: (s.gap depth ++
        (s.membersText depth ((l, i) :: members) ++ (tail ++ '\x7d' :: rest))))) = some (j, _) :=
      value?_chars exact.1 s.blank_space (.cons rfl _) (by omega)
    have others : members? (n + 1) (s.gap depth ++ (s.membersText depth ((l, i) :: members) ++
        (tail ++ '\x7d' :: rest))) =
          some (((l, i) :: members).map fun m => (some m.1, m.2), rest) :=
      members?_chars exact.2 (s.blank_gap depth) blank_tail (by omega)
    simp only [List.append_assoc, List.cons_append]
    rw [members?_cons blank k first, others]
    rfl
termination_by sizeOf ((k, j) :: members)

end

end Spacing

/-- A document is read as it was written with any spacing. -/
theorem read?_chars (s : Spacing) {j : Json} (exact : j.Exact) :
    read? (String.ofList (s.chars 0 j)) = some j := by
  have read : value? (2 * (s.chars 0 j).length + 2) ([] ++ (s.chars 0 j ++ [])) = some (j, []) :=
    s.value?_chars exact nofun .nil (by omega)
  rw [List.append_nil, List.nil_append] at read
  rw [read?, String.toList_ofList]
  simp only [read]
  rfl

/-- **A document over several lines is read as it was written**, if it has no floating point
numbers, no pieces without a value and no integers of more than 64 bits. -/
theorem read?_pretty {j : Json} (exact : j.Exact) : read? j.pretty = some j := by
  rw [pretty, Spacing.prettyChars_eq]
  exact read?_chars .lines exact

/-- **So is a document without white space.** -/
theorem read?_compact {j : Json} (exact : j.Exact) : read? j.compact = some j := by
  rw [compact, Spacing.compactChars_eq 0]
  exact read?_chars .tight exact

end GraphCompare.Json
