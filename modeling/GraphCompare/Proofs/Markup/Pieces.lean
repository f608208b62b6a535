import Mathlib
import GraphCompare.Proofs.GraphML.SelfClosing
import GraphCompare.Proofs.Markup.Writer

/-!
# Texts that are written in pieces

A text between two tags can be cut into pieces, and each piece written in its own way: as characters
with references among them, or verbatim in a CDATA section; comments and instructions may stand
between the pieces (`Piece`). Characters that follow each other without markup between them are one
event, whatever pieces they come from, and resolving references goes piece by piece
(`resolve_append`). So the events of the pieces say the text, whatever the pieces are
(`exists_spells`).

Each kind of markup goes up to the first mark that ends it. A scan knows from its state how much of
the mark it has just read, and so does not end in a piece that is free of it
(`exists_foldlM_of_free`).
-/

namespace GraphCompare.Markup

/-! ## References in parts of a text -/

/-- A character that a reference stands for does not depend on where the reference is. -/
theorem reference_eq_ok {first : ℕ} {name : List Char} {c : Char}
    (h : reference first name = .ok c) (other : ℕ) : reference other name = .ok c := by
  unfold reference at h ⊢
  split at h
  case h_1 => exact h
  case h_2 =>
    split at h
    case h_1 => exact h
    case h_2 => cases h

theorem ok_of_map {ε α β : Type} {x : Except ε α} {f : α → β} {b : β} (h : x.map f = .ok b) :
    ∃ a, x = .ok a ∧ f a = b := by
  cases x with
  | error e => cases h
  | ok a => exact ⟨a, rfl, Except.ok.inj h⟩

theorem resolve_nil : resolve [] = .ok [] := by rw [resolve, resolveFrom]

/-- What a text resolves to does not depend on where it is, and it goes on behind the text. -/
theorem resolveFrom_append {read total : ℕ} {raw more text text' : List Char}
    (h : resolveFrom read total raw = .ok text)
    (hmore : ∀ read total, resolveFrom read total more = .ok text') :
    ∀ read' total', resolveFrom read' total' (raw ++ more) = .ok (text ++ text') := by
  fun_induction resolveFrom read total raw generalizing text with
  | case1 read =>
    cases h
    exact hmore
  | case2 read rest after behind name c hc =>
    rename_i ih
    intro read' total'
    obtain ⟨inner, hinner, rfl⟩ := ok_of_map h
    have unended : ∀ x ∈ rest.takeWhile fun c => !endsName c, (!endsName x) = true :=
      fun x hx => List.mem_takeWhile_imp (p := fun c => !endsName c) hx
    have cut : '&' :: rest ++ more =
        '&' :: (rest.takeWhile fun c => !endsName c) ++ ';' :: (after ++ more) := by
      conv_lhs => rw [← List.takeWhile_append_dropWhile (p := fun c => !endsName c) (l := rest),
        behind]
      simp
    rw [cut, resolveFrom_name unended (reference_eq_ok hc), ih hinner]
    rfl
  | case3 | case4 => cases h
  | case5 read c rest plain ih =>
    intro read' total'
    obtain ⟨inner, hinner, rfl⟩ := ok_of_map h
    rw [List.cons_append, resolveFrom_plain plain, ih hinner]
    rfl

/-- References are resolved part by part. -/
theorem resolve_append {raw more text text' : List Char} (h : resolve raw = .ok text)
    (hmore : resolve more = .ok text') : resolve (raw ++ more) = .ok (text ++ text') := by
  have nil : ∀ read total, resolveFrom read total [] = .ok [] := fun _ _ => by rw [resolveFrom]
  have anywhere := resolveFrom_append hmore nil
  rw [List.append_nil, List.append_nil] at anywhere
  exact resolveFrom_append h anywhere _ _

/-! ## Marks that end a piece -/

/-- A scan that ends only with a mark goes on through a text that is free of it. -/
theorem exists_foldlM_of_free {σ : Type} {step : σ → Char → Option σ}
    (fits : List Char → σ → Prop) (mark : List Char)
    (next : ∀ {read s c t}, fits read s → step s c = some t → fits (read ++ [c]) t)
    (last : ∀ {read s c}, fits read s → step s c = none → mark <:+ read ++ [c])
    (read : List Char) {cs : List Char} {s : σ} (hs : fits read s)
    (free : ¬ mark <:+: read ++ cs) : ∃ t, cs.foldlM step s = some t ∧ fits (read ++ cs) t := by
  induction cs generalizing read s with
  | nil => exact ⟨s, rfl, by rwa [List.append_nil]⟩
  | cons c cs ih =>
    have split : read ++ c :: cs = read ++ [c] ++ cs := by simp
    rw [split] at free ⊢
    cases h : step s c with
    | none => exact absurd ((last hs h).isInfix.trans (List.prefix_append _ _).isInfix) free
    | some u =>
      obtain ⟨t, ht, fits⟩ := ih _ (next hs h) free
      exact ⟨t, by rw [List.foldlM_cons, h]; exact ht, fits⟩

/-- The step of a scan that counts how often a character comes last. -/
theorem replicate_suffix_concat {n : ℕ} {x c : Char} {read : List Char}
    (h : List.replicate n x <:+ read) :
    List.replicate (if c = x then n + 1 else 0) x <:+ read ++ [c] := by
  split
  case isTrue same =>
    obtain ⟨front, rfl⟩ := h
    exact ⟨front, by rw [List.replicate_succ', same, List.append_assoc]⟩
  case isFalse => exact List.nil_suffix

theorem replicate_suffix_of_le {m n : ℕ} (h : m ≤ n) (x : Char) :
    List.replicate m x <:+ List.replicate n x :=
  ⟨List.replicate (n - m) x, by rw [List.replicate_append_replicate, Nat.sub_add_cancel h]⟩

/-- A section does not end before the first `]]>`. -/
theorem exists_foldlM_cdataStep {text : List Char} (free : ¬ "]]>".toList <:+: text) :
    ∃ brackets, text.foldlM cdataStep 0 = some brackets := by
  refine (exists_foldlM_of_free (fun read brackets => List.replicate brackets ']' <:+ read)
    "]]>".toList ?next ?last [] (s := 0) List.nil_suffix free).imp fun _ => And.left
  case next =>
    intro read brackets c t fits step
    rw [cdataStep] at step
    split at step
    case isTrue => cases step
    case isFalse =>
      cases step
      exact replicate_suffix_concat fits
  case last =>
    intro read brackets c fits step
    rw [cdataStep] at step
    split at step
    case isTrue ends =>
      obtain ⟨rfl, two⟩ := ends
      obtain ⟨front, rfl⟩ := (replicate_suffix_of_le two ']').trans fits
      exact ⟨front, by rw [List.append_assoc]; rfl⟩
    case isFalse => cases step

/-- A comment does not end before the first `-->` behind its opening mark. -/
theorem exists_foldlM_commentStep {words : List Char} (free : ¬ "-->".toList <:+: words) :
    ∃ state, words.foldlM commentStep (3, 2) = some state ∧ state.1 = 3 + words.length := by
  -- the dashes of the opening mark count, so there have to be two more characters
  refine (exists_foldlM_of_free (fun read state =>
      state.1 = 3 + read.length ∧ List.replicate state.2 '-' <:+ ['-', '-'] ++ read)
    "-->".toList ?next ?last [] ⟨rfl, List.suffix_rfl⟩ free).imp
      fun _ state => ⟨state.1, state.2.1⟩
  case next =>
    rintro read ⟨n, dashes⟩ c t ⟨count, fits⟩ step
    rw [commentStep] at step
    split at step
    case isTrue => cases step
    case isFalse =>
      cases step
      constructor
      · rw [List.length_append, List.length_singleton, ← Nat.add_assoc]
        exact congrArg (· + 1) count
      · rw [← List.append_assoc]
        exact replicate_suffix_concat fits
  case last =>
    rintro read ⟨n, dashes⟩ c ⟨count, fits⟩ step
    rw [commentStep] at step
    split at step
    case isTrue ends =>
      obtain ⟨rfl, four, two⟩ := ends
      simp only at count fits
      have behind : ['-', '-'] <:+ read :=
        List.suffix_of_suffix_length_le ((replicate_suffix_of_le two '-').trans fits)
          (List.suffix_append _ _) (by simp only [List.length_cons, List.length_nil]; omega)
      obtain ⟨front, rfl⟩ := behind
      exact ⟨front, by rw [List.append_assoc]; rfl⟩
    case isFalse => cases step

/-- An instruction does not end before the first `?>` behind its opening bracket. -/
theorem exists_foldlM_instructionStep {words : List Char}
    (free : ¬ "?>".toList <:+: '?' :: words) :
    ∃ question, words.foldlM instructionStep true = some question := by
  refine (exists_foldlM_of_free (fun read question => question = true → ['?'] <:+ read)
    "?>".toList ?next ?last ['?'] (fun _ => List.suffix_rfl) free).imp fun _ => And.left
  case next =>
    intro read question c t fits step
    rw [instructionStep] at step
    split at step
    case isTrue => cases step
    case isFalse =>
      cases step
      intro same
      rw [beq_iff_eq.1 same]
      exact List.suffix_append _ _
  case last =>
    intro read question c fits step
    rw [instructionStep] at step
    split at step
    case isTrue ends =>
      obtain ⟨rfl, question⟩ := ends
      obtain ⟨front, rfl⟩ := fits question
      exact ⟨front, by rw [List.append_assoc]; rfl⟩
    case isFalse => cases step

/-! ## Pieces -/

/-- A piece of markup between its brackets. -/
def bracketed (content : List Char) : List Char := '<' :: content ++ ['>']

/-- A CDATA section with a text. -/
def cdataText (text : List Char) : List Char :=
  bracketed (['!', '[', 'C', 'D', 'A', 'T', 'A', '['] ++ (text ++ [']', ']']))

/-- A comment with words. -/
def commentText (words : List Char) : List Char :=
  bracketed (['!', '-', '-'] ++ (words ++ ['-', '-']))

/-- An instruction with words. -/
def instructionText (words : List Char) : List Char := bracketed ('?' :: (words ++ ['?']))

/-- A piece of markup that is scanned to its end stands for its event. -/
theorem stands_bracketed {σ : Type} {step : σ → Char → Option σ} {start last : σ}
    {content : List Char} {e : Event} {unclosed : Fault} {outcome : Open → List Char → Outcome}
    (kind : ∀ opened rest, markup opened (content ++ rest) =
      piece step start unclosed (outcome opened) (content ++ rest))
    (scan : content.foldlM step start = some last) (ends : step last '>' = none)
    (complete : ∀ opened, outcome opened content = .ok (e, opened)) :
    Stands (bracketed content) [e] := by
  intro opened rest
  have found : markup opened (content ++ '>' :: rest) = (.ok (e, opened), rest) := by
    rw [kind, piece, upTo_of_foldlM scan ends]
    simp only [complete]
  rw [bracketed, List.append_assoc, List.singleton_append, List.cons_append, events_tag found]
  rfl

theorem stands_cdataText {text : List Char} (free : ¬ "]]>".toList <:+: text) :
    Stands (cdataText text) [.cdata text] := by
  obtain ⟨brackets, scan⟩ := exists_foldlM_cdataStep free
  have whole : (['!', '[', 'C', 'D', 'A', 'T', 'A', '['] ++ (text ++ [']', ']'])).foldlM cdataStep
      0 = some (brackets + 2) := by
    have opening : ['!', '[', 'C', 'D', 'A', 'T', 'A', '['].foldlM cdataStep 0 = some 0 := rfl
    rw [List.foldlM_append, opening, Option.bind_eq_bind, Option.bind_some, List.foldlM_append,
      scan]
    rfl
  refine stands_bracketed (fun _ _ => rfl) whole (by simp [cdataStep]) fun opened => ?_
  have marked : "![CDATA[".toList.isPrefixOf
      (['!', '[', 'C', 'D', 'A', 'T', 'A', '['] ++ (text ++ [']', ']'])) := rfl
  rw [ofCData, if_pos marked, List.drop_left' (by rfl), List.take_left' (by simp)]

theorem stands_commentText {words : List Char} (free : ¬ "-->".toList <:+: words) :
    Stands (commentText words) [.aside] := by
  obtain ⟨⟨n, dashes⟩, scan, count⟩ := exists_foldlM_commentStep free
  have whole : (['!', '-', '-'] ++ (words ++ ['-', '-'])).foldlM commentStep (0, 0) =
      some (n + 2, dashes + 2) := by
    have opening : ['!', '-', '-'].foldlM commentStep (0, 0) = some (3, 2) := rfl
    rw [List.foldlM_append, opening, Option.bind_eq_bind, Option.bind_some, List.foldlM_append,
      scan]
    rfl
  refine stands_bracketed (fun _ _ => rfl) whole ?_ fun _ => rfl
  simp only at count
  rw [commentStep, if_pos ⟨rfl, by omega, by omega⟩]

theorem stands_instructionText {words : List Char} (free : ¬ "?>".toList <:+: '?' :: words) :
    Stands (instructionText words) [.aside] := by
  obtain ⟨question, scan⟩ := exists_foldlM_instructionStep free
  have whole : ('?' :: (words ++ ['?'])).foldlM instructionStep false = some true := by
    have opening : instructionStep false '?' = some true := rfl
    rw [List.foldlM_cons, opening, Option.bind_eq_bind, Option.bind_some, List.foldlM_append, scan]
    rfl
  refine stands_bracketed (fun _ _ => rfl) whole rfl fun opened => ?_
  have marked : ('?' :: (words ++ ['?'])).getLast? = some '?' :=
    (List.getLast?_cons_of_ne_nil (by simp)).trans List.getLast?_concat
  rw [ofInstruction, if_pos ⟨by simp, marked⟩]

/-! ## Content -/

/-- A piece of the content of an element: characters with references that resolve to a text, a text
in a CDATA section, or markup without data. -/
inductive Piece where
  | characters (raw text : List Char) (plain : '<' ∉ raw) (resolved : resolve raw = .ok text)
  | cdata (text : List Char) (free : ¬ "]]>".toList <:+: text)
  | comment (words : List Char) (free : ¬ "-->".toList <:+: words)
  | instruction (words : List Char) (free : ¬ "?>".toList <:+: '?' :: words)

namespace Piece

/-- A piece as it is written. -/
def written : Piece → List Char
  | characters raw .. => raw
  | cdata text _ => cdataText text
  | comment words _ => commentText words
  | instruction words _ => instructionText words

/-- The text of a piece. -/
def text : Piece → List Char
  | characters _ text .. | cdata text _ => text
  | comment .. | instruction .. => []

end Piece

/-- The events between two tags spell a text. -/
inductive Spells : List Event → List Char → Prop where
  | nil : Spells [] []
  | text {raw text : List Char} {list : List Event} {more : List Char}
    (resolved : resolve raw = .ok text) (rest : Spells list more) :
    Spells (.text raw :: list) (text ++ more)
  | cdata {text : List Char} {list : List Event} {more : List Char} (rest : Spells list more) :
    Spells (.cdata text :: list) (text ++ more)
  | aside {list : List Event} {more : List Char} (rest : Spells list more) :
    Spells (.aside :: list) more

theorem Spells.append {list list' : List Event} {text text' : List Char} (h : Spells list text)
    (h' : Spells list' text') : Spells (list ++ list') (text ++ text') := by
  induction h with
  | nil => exact h'
  | text resolved _ ih =>
    rw [List.append_assoc]
    exact .text resolved ih
  | cdata _ ih =>
    rw [List.append_assoc]
    exact .cdata ih
  | aside _ ih => exact .aside ih

/-- Characters spell what they resolve to. -/
theorem spells_textEvents {raw text : List Char} (resolved : resolve raw = .ok text) :
    Spells (textEvents raw) text := by
  rw [textEvents]
  split
  case isTrue none =>
    cases (none ▸ resolved).symm.trans resolve_nil
    exact .nil
  case isFalse =>
    rw [← List.append_nil text]
    exact .text resolved .nil

/-- The events of a content that goes up to a tag. -/
def Between (cs : List Char) (list : List Event) : Prop := ∀ opened rest,
  events opened (cs ++ '<' :: rest) =
    (list ++ (events opened ('<' :: rest)).1, (events opened ('<' :: rest)).2)

theorem between_textEvents {raw : List Char} (plain : '<' ∉ raw) : Between raw (textEvents raw) :=
  fun opened rest => events_text_tag plain opened rest

/-- A piece of markup with characters in front of it. -/
theorem Between.prepend {raw content cs : List Char} {marked list : List Event}
    (plain : '<' ∉ raw) (h : Stands (bracketed content) marked) (h' : Between cs list) :
    Between (raw ++ (bracketed content ++ cs)) (textEvents raw ++ (marked ++ list)) := by
  intro opened rest
  have whole : Stands ('<' :: (content ++ ['>'])) marked := h
  have stands := whole.after_text plain opened (cs ++ '<' :: rest)
  rw [h'] at stands
  simpa only [bracketed, List.append_assoc, List.cons_append] using stands

/-- Whatever the pieces of a content are, its events spell the text of all pieces. Characters in
front of them belong to the first event. -/
theorem exists_spells (pieces : List Piece) {raw text : List Char} (plain : '<' ∉ raw)
    (resolved : resolve raw = .ok text) :
    ∃ list, Spells list (text ++ pieces.flatMap Piece.text) ∧
      Between (raw ++ pieces.flatMap Piece.written) list := by
  induction pieces generalizing raw text with
  | nil =>
    rw [List.flatMap_nil, List.flatMap_nil, List.append_nil, List.append_nil]
    exact ⟨_, spells_textEvents resolved, between_textEvents plain⟩
  | cons p pieces ih =>
    rw [List.flatMap_cons, List.flatMap_cons]
    cases p with
    | characters raw' text' plain' resolved' =>
      rw [Piece.text, Piece.written, ← List.append_assoc, ← List.append_assoc]
      exact ih (List.not_mem_append plain plain') (resolve_append resolved resolved')
    | cdata text' free =>
      obtain ⟨list, spells, between⟩ := ih List.not_mem_nil resolve_nil
      exact ⟨_, (spells_textEvents resolved).append (.cdata spells),
        between.prepend plain (stands_cdataText free)⟩
    | comment words free =>
      obtain ⟨list, spells, between⟩ := ih List.not_mem_nil resolve_nil
      exact ⟨_, (spells_textEvents resolved).append (.aside spells),
        between.prepend plain (stands_commentText free)⟩
    | instruction words free =>
      obtain ⟨list, spells, between⟩ := ih List.not_mem_nil resolve_nil
      exact ⟨_, (spells_textEvents resolved).append (.aside spells),
        between.prepend plain (stands_instructionText free)⟩

end GraphCompare.Markup
