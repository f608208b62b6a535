import Mathlib
import GraphCompare.Proofs.Markup.Escape
import GraphCompare.Proofs.Markup.Nesting

/-!
# Writing markup

Elements are written with plain names, values between double quotes, and escaped text. A written
tag ends at its own bracket (`foldlM_tagStep_tagText`: the brackets in values are escaped), its
attributes are looked up with their values (`raw?_tagOf`), and the events of a written element come
before the events of whatever follows it. The last is the relation `Stands` between a piece of text
and events; pieces compose, so that a document is read from the readings of its parts.
-/

namespace GraphCompare.Markup

/-! ## Names -/

/-- The characters of a plain name. -/
def isPlain (c : Char) : Bool := c.isAlpha || c == '.'

/-- A name of letters and points, without a namespace. -/
def Plain (name : List Char) : Prop := name ≠ [] ∧ name.all isPlain

instance (name : List Char) : Decidable (Plain name) := inferInstanceAs (Decidable (_ ∧ _))

theorem ne_of_isPlain {c x : Char} (hc : isPlain c) (hx : isPlain x = false) : c ≠ x := by
  rintro rfl
  rw [hc] at hx
  cases hx

theorem isBlank_of_isPlain {c : Char} (hc : isPlain c) : isBlank c = false := by
  simp only [isBlank, Bool.or_eq_false_iff, decide_eq_false_iff_not]
  exact ⟨⟨⟨ne_of_isPlain hc rfl, ne_of_isPlain hc rfl⟩, ne_of_isPlain hc rfl⟩,
    ne_of_isPlain hc rfl⟩

theorem inName_of_isPlain {c : Char} (hc : isPlain c) : inName c := by
  simp only [inName, isBlank_of_isPlain hc, Bool.not_false, Bool.and_true, decide_eq_true_eq]
  exact ne_of_isPlain hc rfl

namespace Plain

variable {name : List Char}

theorem isPlain_of_mem (h : Plain name) {c : Char} (hc : c ∈ name) : isPlain c :=
  List.all_eq_true.1 h.2 c hc

theorem notMem (h : Plain name) {x : Char} (hx : isPlain x = false) : x ∉ name :=
  fun hmem => ne_of_isPlain (h.isPlain_of_mem hmem) hx rfl

theorem localName_eq (h : Plain name) : localName name = name := by
  have none : name.dropWhile (· ≠ ':') = [] := by
    rw [List.dropWhile_eq_nil_iff]
    exact all_ne_of_notMem (h.notMem rfl)
  rw [localName, none]

theorem exists_cons (h : Plain name) : ∃ c rest, name = c :: rest ∧ isPlain c ∧
    ∀ x ∈ rest, isPlain x := by
  obtain ⟨c, rest, rfl⟩ := List.exists_cons_of_ne_nil h.1
  exact ⟨c, rest, rfl, h.isPlain_of_mem List.mem_cons_self,
    fun x hx => h.isPlain_of_mem (List.mem_cons_of_mem _ hx)⟩

end Plain

/-! ## Tags -/

/-- An attribute as it is written. -/
def attributeText (a : String × List Char) : List Char :=
  ' ' :: a.1.toList ++ '=' :: '"' :: escape a.2 ++ ['"']

/-- The content of a tag as it is written. -/
def tagText (name : List Char) (attributes : List (String × List Char)) : List Char :=
  name ++ attributes.flatMap attributeText

/-- The tag that is read from it. -/
def tagOf (name : List Char) (attributes : List (String × List Char)) : Tag :=
  ⟨name, attributes.flatMap attributeText⟩

/-- A piece goes on as long as its steps do. -/
theorem upTo_of_foldlM {σ : Type} {step : σ → Char → Option σ} {s t : σ} {content : List Char}
    (h : content.foldlM step s = some t) {c : Char} (hc : step t c = none) (rest : List Char) :
    upTo step s (content ++ c :: rest) = some (content, rest) := by
  induction content generalizing s with
  | nil =>
    cases h
    rw [List.nil_append, upTo, hc]
  | cons d content ih =>
    rw [List.foldlM_cons] at h
    obtain ⟨u, hu, h⟩ := Option.bind_eq_some_iff.1 h
    rw [List.cons_append, upTo, hu]
    simp only [ih h, Option.map_some]

theorem foldlM_tagStep_unquoted {cs : List Char} (h : ∀ c ∈ cs, c ≠ '>' ∧ c ≠ '"' ∧ c ≠ '\'') :
    cs.foldlM tagStep none = some none := by
  induction cs with
  | nil => rfl
  | cons c cs ih =>
    have hc := h c List.mem_cons_self
    have plain : tagStep none c = some none := by
      unfold tagStep
      split <;> simp_all
    rw [List.foldlM_cons, plain]
    exact ih fun x hx => h x (List.mem_cons_of_mem _ hx)

theorem foldlM_tagStep_quoted {cs : List Char} (h : '"' ∉ cs) :
    cs.foldlM tagStep (some '"') = some (some '"') := by
  induction cs with
  | nil => rfl
  | cons c cs ih =>
    have inside : tagStep (some '"') c = some (some '"') := by
      rw [tagStep, if_neg]
      rintro rfl
      exact h List.mem_cons_self
    rw [List.foldlM_cons, inside]
    exact ih fun hmem => h (List.mem_cons_of_mem _ hmem)

theorem Plain.unquoted {name : List Char} (h : Plain name) :
    ∀ c ∈ name, c ≠ '>' ∧ c ≠ '"' ∧ c ≠ '\'' :=
  fun _ hc => ⟨ne_of_isPlain (h.isPlain_of_mem hc) rfl, ne_of_isPlain (h.isPlain_of_mem hc) rfl,
    ne_of_isPlain (h.isPlain_of_mem hc) rfl⟩

theorem foldlM_tagStep_attributeText {a : String × List Char} (h : Plain a.1.toList) :
    (attributeText a).foldlM tagStep none = some none := by
  have parts : attributeText a =
      (' ' :: a.1.toList) ++ '=' :: '"' :: (escape a.2 ++ ['"']) := by
    simp only [attributeText, List.append_assoc, List.cons_append]
  have name : (' ' :: a.1.toList).foldlM tagStep none = some none :=
    foldlM_tagStep_unquoted (List.forall_mem_cons.2 ⟨by decide, h.unquoted⟩)
  have value : (escape a.2).foldlM tagStep (some '"') = some (some '"') :=
    foldlM_tagStep_quoted (notMem_escape (.inr (.inr (.inl rfl))) a.2)
  rw [parts, List.foldlM_append, name]
  change (escape a.2 ++ ['"']).foldlM tagStep (some '"') = _
  rw [List.foldlM_append, value]
  rfl

/-- A written tag does not end before its bracket. -/
theorem foldlM_tagStep_tagText {name : List Char} {attributes : List (String × List Char)}
    (hname : Plain name) (hattributes : ∀ a ∈ attributes, Plain a.1.toList) :
    (tagText name attributes).foldlM tagStep none = some none := by
  rw [tagText, List.foldlM_append, foldlM_tagStep_unquoted hname.unquoted]
  simp only [Option.bind_eq_bind, Option.bind_some]
  induction attributes with
  | nil => rfl
  | cons a attributes ih =>
    rw [List.flatMap_cons, List.foldlM_append,
      foldlM_tagStep_attributeText (hattributes a List.mem_cons_self)]
    exact ih fun b hb => hattributes b (List.mem_cons_of_mem _ hb)

/-- The name of a written tag ends where its attributes begin. -/
theorem ofContent_tagText {name : List Char} (h : Plain name)
    (attributes : List (String × List Char)) :
    Tag.ofContent (tagText name attributes) = tagOf name attributes := by
  have unblank : ∀ c ∈ name, (!isBlank c) = true := by
    intro c hc
    rw [isBlank_of_isPlain (h.isPlain_of_mem hc)]
    rfl
  rw [tagText, Tag.ofContent, tagOf]
  cases attributes with
  | nil =>
    rw [List.flatMap_nil, List.append_nil, List.takeWhile_eq_self_iff.2 unblank,
      List.dropWhile_eq_nil_iff.2 unblank]
  | cons a attributes =>
    rw [List.flatMap_cons, attributeText, List.cons_append, List.cons_append, List.cons_append,
      takeWhile_at unblank rfl, dropWhile_at unblank rfl]

/-- A written attribute is read with its value as it is written. -/
theorem attributesFrom_attributeText {seen : List (List Char)} {a : String × List Char}
    (h : Plain a.1.toList) (new : a.1.toList ∉ seen) (rest : List Char) :
    attributesFrom seen (attributeText a ++ rest) =
      ⟨a.1.toList, escape a.2⟩ :: attributesFrom (a.1.toList :: seen) rest := by
  obtain ⟨c, name, hname, hc, hrest⟩ := h.exists_cons
  have inside : ∀ x ∈ name, inName x := fun x hx => inName_of_isPlain (hrest x hx)
  have unquoted : ∀ x ∈ escape a.2, decide (x ≠ '"') = true :=
    all_ne_of_notMem (notMem_escape (.inr (.inr (.inl rfl))) a.2)
  have start : (attributeText a ++ rest).dropWhile isBlank =
      c :: (name ++ '=' :: '"' :: (escape a.2 ++ '"' :: rest)) := by
    rw [attributeText, hname]
    simp only [List.append_assoc, List.cons_append, List.nil_append]
    rw [List.dropWhile_cons_of_pos (by rfl), List.dropWhile_cons, isBlank_of_isPlain hc]
    rfl
  have equals : ((name ++ '=' :: '"' :: (escape a.2 ++ '"' :: rest)).dropWhile inName).dropWhile
      isBlank = '=' :: '"' :: (escape a.2 ++ '"' :: rest) := by
    rw [dropWhile_at inside rfl]
    rfl
  have behind := dropWhile_at (x := '"') unquoted (by rfl) rest
  have value : ('"' :: (escape a.2 ++ '"' :: rest)).dropWhile isBlank =
      '"' :: (escape a.2 ++ '"' :: rest) := rfl
  have front := takeWhile_at (x := '"') unquoted (by rfl) rest
  have whole : c :: (name ++ '=' :: '"' :: (escape a.2 ++ '"' :: rest)).takeWhile inName =
      a.1.toList := by
    rw [takeWhile_at inside rfl, hname]
  rw [attributesFrom]
  split
  case h_1 hnil => cases start.symm.trans hnil
  case h_2 hcons =>
    cases start.symm.trans hcons
    split
    case h_2 other => exact absurd equals (other _)
    case h_1 hvalue =>
      cases equals.symm.trans hvalue
      simp only [whole, if_neg new]
      split
      case h_1 hnil => cases value.symm.trans hnil
      case h_2 hquoted =>
        cases value.symm.trans hquoted
        rw [if_pos (.inl rfl)]
        split
        case h_1 hnil => cases behind.symm.trans hnil
        case h_2 hafter =>
          cases behind.symm.trans hafter
          rw [front]

theorem attributesFrom_flatMap {attributes : List (String × List Char)}
    (plain : ∀ a ∈ attributes, Plain a.1.toList) (nodup : (attributes.map Prod.fst).Nodup)
    {seen : List (List Char)} (new : ∀ a ∈ attributes, a.1.toList ∉ seen) :
    attributesFrom seen (attributes.flatMap attributeText) =
      attributes.map fun a => ⟨a.1.toList, escape a.2⟩ := by
  induction attributes generalizing seen with
  | nil =>
    rw [List.flatMap_nil, attributesFrom]
    split <;> simp_all
  | cons a attributes ih =>
    rw [List.map_cons, List.nodup_cons] at nodup
    rw [List.flatMap_cons, attributesFrom_attributeText (plain a List.mem_cons_self)
      (new a List.mem_cons_self), List.map_cons]
    congr 1
    refine ih (fun b hb => plain b (List.mem_cons_of_mem _ hb)) nodup.2 fun b hb hmem => ?_
    rcases List.mem_cons.1 hmem with heq | hseen
    · rw [String.toList_inj] at heq
      exact nodup.1 (heq ▸ List.mem_map_of_mem hb)
    · exact new b (List.mem_cons_of_mem _ hb) hseen

/-- Looking up an attribute of a written tag gives its value as it is written. -/
theorem raw?_tagOf {name : List Char} {attributes : List (String × List Char)}
    (plain : ∀ a ∈ attributes, Plain a.1.toList) (nodup : (attributes.map Prod.fst).Nodup)
    (x : String) : (tagOf name attributes).raw? x.toList = (attributes.lookup x).map escape := by
  rw [Tag.raw?, Tag.attributes, tagOf,
    attributesFrom_flatMap plain nodup fun _ _ => List.not_mem_nil]
  clear nodup
  induction attributes with
  | nil => rfl
  | cons a attributes ih =>
    have same : (localName a.1.toList == x.toList) = (x == a.1) := by
      rw [(plain a List.mem_cons_self).localName_eq, Bool.eq_iff_iff, beq_iff_eq, beq_iff_eq,
        String.toList_inj, eq_comm]
    rw [List.map_cons, List.find?_cons, List.lookup_cons, same]
    split
    case h_1 => rfl
    case h_2 => exact ih fun b hb => plain b (List.mem_cons_of_mem _ hb)

/-! ## Elements -/

/-- The start tag of an element. -/
def openTag (name : List Char) (attributes : List (String × List Char)) : List Char :=
  '<' :: tagText name attributes ++ ['>']

/-- The tag of an element without content. -/
def emptyTag (name : List Char) (attributes : List (String × List Char)) : List Char :=
  '<' :: tagText name attributes ++ ['/', '>']

/-- The end tag of an element. -/
def closeTag (name : List Char) : List Char := '<' :: '/' :: name ++ ['>']

/-- A written tag does not end like the tag of an empty element. -/
theorem getLast?_tagText {name : List Char} (h : Plain name)
    (attributes : List (String × List Char)) : (tagText name attributes).getLast? ≠ some '/' := by
  intro hlast
  rcases List.eq_nil_or_concat attributes with rfl | ⟨others, a, rfl⟩
  · rw [tagText, List.flatMap_nil, List.append_nil] at hlast
    exact h.notMem rfl (List.mem_of_getLast? hlast)
  · have quote : tagText name (others ++ [a]) = (name ++ others.flatMap attributeText ++
        (' ' :: a.1.toList ++ '=' :: '"' :: escape a.2)) ++ ['"'] := by
      simp only [tagText, List.flatMap_append, List.flatMap_cons, List.flatMap_nil, attributeText,
        List.append_assoc, List.append_nil]
    rw [List.concat_eq_append, quote, List.getLast?_concat] at hlast
    cases hlast

/-- What begins like a tag and does not end before its bracket is read as a tag. -/
theorem markup_of_begins {content : List Char}
    (begins : ∃ c ∈ content.head?, c ≠ '!' ∧ c ≠ '?' ∧ c ≠ '/')
    (hfold : content.foldlM tagStep none = some none) (opened : Open) (rest : List Char) :
    markup opened (content ++ '>' :: rest) = (.ok (ofTag opened content), rest) := by
  obtain ⟨c, hc, first⟩ := begins
  obtain ⟨behind, rfl⟩ := List.head?_eq_some_iff.1 hc
  have found := upTo_of_foldlM hfold (c := '>') rfl rest
  rw [List.cons_append] at found ⊢
  rw [markup_tag opened first, piece, found]

/-- What starts like a name does. -/
theorem markup_of_foldlM {name content : List Char} (h : Plain name)
    (hfold : (name ++ content).foldlM tagStep none = some none) (opened : Open)
    (rest : List Char) : markup opened (name ++ content ++ '>' :: rest) =
      (.ok (ofTag opened (name ++ content)), rest) := by
  refine markup_of_begins ?_ hfold opened rest
  obtain ⟨c, behind, rfl, hc, -⟩ := h.exists_cons
  exact ⟨c, rfl, ne_of_isPlain hc rfl, ne_of_isPlain hc rfl, ne_of_isPlain hc rfl⟩

/-- White space at the end of a name is cut off; a name without white space has none. -/
theorem endName_of_unblank {name : List Char} (h : ∀ c ∈ name, isBlank c = false) :
    endName name = name := by
  rw [endName]
  cases hreverse : name.reverse with
  | nil => rfl
  | cons c rest =>
    have hc : isBlank c = false := h c (List.mem_reverse.1 (hreverse ▸ List.mem_cons_self))
    rw [List.dropWhile_cons_of_neg (by simp [hc])]
    exact List.reverse_eq_iff.2 hreverse.symm

/-- An end tag closes the element of its name. -/
theorem markup_closeTag {name : List Char} (hfold : name.foldlM tagStep none = some none)
    (unblank : ∀ c ∈ name, isBlank c = false) (outer : Open) (rest : List Char) :
    markup (name :: outer) ('/' :: name ++ '>' :: rest) = (.ok (.finish name, outer), rest) := by
  have goesOn : ('/' :: name).foldlM tagStep none = some none := hfold
  have found := upTo_of_foldlM goesOn (c := '>') rfl rest
  rw [List.cons_append] at found ⊢
  rw [markup_end, piece, found]
  simp only [ofEndTag, List.drop_one, List.tail_cons, endName_of_unblank unblank, if_true]

section

variable {name : List Char} {attributes : List (String × List Char)}

theorem events_openTag (h : Plain name) (hattributes : ∀ a ∈ attributes, Plain a.1.toList)
    (opened : Open) (rest : List Char) : events opened (openTag name attributes ++ rest) =
      (.start (tagOf name attributes) :: (events (name :: opened) rest).1,
        (events (name :: opened) rest).2) := by
  have tag : ofTag opened (tagText name attributes) =
      (.start (tagOf name attributes), name :: opened) := by
    rw [ofTag, if_neg (getLast?_tagText h attributes), ofContent_tagText h]
    rfl
  have piece := markup_of_foldlM h (foldlM_tagStep_tagText h hattributes) opened rest
  rw [← tagText, tag] at piece
  rw [openTag, List.append_assoc, List.singleton_append, List.cons_append, events_tag piece]

theorem events_emptyTag (h : Plain name) (hattributes : ∀ a ∈ attributes, Plain a.1.toList)
    (opened : Open) (rest : List Char) : events opened (emptyTag name attributes ++ rest) =
      (.empty (tagOf name attributes) :: (events opened rest).1, (events opened rest).2) := by
  have tag : ofTag opened (tagText name attributes ++ ['/']) =
      (.empty (tagOf name attributes), opened) := by
    rw [ofTag, if_pos List.getLast?_concat, List.dropLast_concat, ofContent_tagText h]
  have goesOn : (tagText name attributes ++ ['/']).foldlM tagStep none = some none := by
    rw [List.foldlM_append, foldlM_tagStep_tagText h hattributes]
    rfl
  have piece : markup opened (tagText name attributes ++ ['/'] ++ '>' :: rest) =
      (.ok (ofTag opened (tagText name attributes ++ ['/'])), rest) := by
    have eq : tagText name attributes ++ ['/'] =
        name ++ (attributes.flatMap attributeText ++ ['/']) := List.append_assoc _ _ _
    rw [eq] at goesOn ⊢
    exact markup_of_foldlM h goesOn opened rest
  rw [tag] at piece
  rw [emptyTag, List.append_assoc, List.cons_append, ← events_tag piece]
  simp only [List.append_assoc, List.cons_append, List.nil_append]

theorem events_closeTag (h : Plain name) (outer : Open) (rest : List Char) :
    events (name :: outer) (closeTag name ++ rest) =
      (.finish name :: (events outer rest).1, (events outer rest).2) := by
  have piece := markup_closeTag (foldlM_tagStep_unquoted h.unquoted)
    (fun _ hc => isBlank_of_isPlain (h.isPlain_of_mem hc)) outer rest
  rw [closeTag, List.append_assoc, List.singleton_append, List.cons_append, events_tag piece]

end

/-- The event of a text between tags. Without a character there is none. -/
def textEvents (text : List Char) : List Event := if text = [] then [] else [.text text]

theorem events_text_tag {text : List Char} (h : '<' ∉ text) (opened : Open) (rest : List Char) :
    events opened (text ++ '<' :: rest) =
      (textEvents text ++ (events opened ('<' :: rest)).1, (events opened ('<' :: rest)).2) := by
  cases text with
  | nil => rfl
  | cons c text =>
    rw [List.mem_cons, not_or] at h
    have inside := all_ne_of_notMem h.2
    rw [List.cons_append, events_text opened (Ne.symm h.1), takeWhile_at inside (by rfl),
      dropWhile_at inside (by rfl), textEvents, if_neg (List.cons_ne_nil _ _)]
    rfl

/-- A text at the end is one event. -/
theorem events_text_end {text : List Char} (h : '<' ∉ text) (opened : Open) :
    events opened text = (textEvents text, none) := by
  cases text with
  | nil => rw [events, textEvents, if_pos rfl]
  | cons c text =>
    rw [List.mem_cons, not_or] at h
    have inside := all_ne_of_notMem h.2
    rw [events_text opened (Ne.symm h.1), List.takeWhile_eq_self_iff.2 inside,
      List.dropWhile_eq_nil_iff.2 inside, events, textEvents, if_neg (List.cons_ne_nil _ _)]

/-- A text that starts with another character has no byte order mark. -/
theorem withoutMark_eq {cs : List Char} (h : cs.head? ≠ some '\ufeff') : withoutMark cs = cs := by
  unfold withoutMark
  split
  case h_1 => exact absurd rfl h
  case h_2 => rfl

/-- A piece of text stands for events if these come before the events of whatever follows it, and no
elements are left open. -/
def Stands (cs : List Char) (list : List Event) : Prop :=
  ∀ opened rest, events opened (cs ++ rest) =
    (list ++ (events opened rest).1, (events opened rest).2)

namespace Stands

variable {cs cs' : List Char} {list list' : List Event}

theorem nil : Stands [] [] := fun _ _ => rfl

theorem append (h : Stands cs list) (h' : Stands cs' list') :
    Stands (cs ++ cs') (list ++ list') := by
  intro opened rest
  rw [List.append_assoc, h, h', List.append_assoc]

/-- Text may stand in front of a tag. -/
theorem after_text {text : List Char} (ht : '<' ∉ text) (h : Stands ('<' :: cs) list) :
    Stands (text ++ '<' :: cs) (textEvents text ++ list) := by
  intro opened rest
  rw [List.append_assoc, List.cons_append, events_text_tag ht, ← List.cons_append, h,
    List.append_assoc]

/-- An element without content. -/
theorem emptyTag {name : List Char} {attributes : List (String × List Char)} (hname : Plain name)
    (hattributes : ∀ a ∈ attributes, Plain a.1.toList) :
    Stands (emptyTag name attributes) [.empty (tagOf name attributes)] :=
  fun opened rest => events_emptyTag hname hattributes opened rest

/-- An instruction carries no data. -/
theorem instruction {content : List Char}
    (h : ('?' :: content).foldlM instructionStep false = some true)
    (complete : ∀ opened, ofInstruction opened ('?' :: content) = .ok (.aside, opened)) :
    Stands ('<' :: '?' :: content ++ ['>']) [.aside] := by
  intro opened rest
  have found := upTo_of_foldlM h (c := '>') rfl rest
  have piece : markup opened ('?' :: content ++ '>' :: rest) = (.ok (.aside, opened), rest) := by
    rw [List.cons_append] at found ⊢
    rw [markup_instruction, Markup.piece, found]
    simp only [complete]
  rw [List.append_assoc, List.singleton_append, List.cons_append, events_tag piece]
  rfl

/-- An element with elements and then text inside. -/
theorem element {name : List Char} {attributes : List (String × List Char)} {text : List Char}
    (hname : Plain name) (hattributes : ∀ a ∈ attributes, Plain a.1.toList) (h : Stands cs list)
    (ht : '<' ∉ text) : Stands (openTag name attributes ++ cs ++ text ++ closeTag name)
      (.start (tagOf name attributes) :: list ++ textEvents text ++ [.finish name]) := by
  intro opened rest
  have inside : events (name :: opened) (text ++ (closeTag name ++ rest)) =
      (textEvents text ++ .finish name :: (events opened rest).1, (events opened rest).2) := by
    have close := events_closeTag hname opened rest
    rw [closeTag, List.append_assoc, List.cons_append] at close ⊢
    rw [events_text_tag ht, close]
  simp only [List.append_assoc, events_openTag hname hattributes, h (name :: opened), inside]
  simp only [List.cons_append, List.nil_append]

end Stands

end GraphCompare.Markup
