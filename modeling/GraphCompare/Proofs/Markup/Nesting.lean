import Mathlib
import GraphCompare.Markup.Event

/-!
# Elements that are closed

A sequence of events is balanced if every element that is opened in it is closed, by an end tag with
its own name and inside the element around it (`Balanced`). Whether it is can be told from the
front: a start tag puts a name on a stack and an end tag must take it off again (`Event.carry`), and
the sequence is balanced exactly if this goes through and leaves nothing open (`balanced_iff`).

The reader of markup checks end tags in this way and reports nothing for elements that are open at
the end. So the events of a text, whatever the text, are balanced once the end tags of what it
leaves open are put behind them (`exists_balanced_events`).
-/

namespace GraphCompare.Markup

/-- Every element that is opened is closed, in its turn and by its own name. -/
inductive Balanced : List Event → Prop where
  | nil : Balanced []
  | empty (t : Tag) {rest : List Event} : Balanced rest → Balanced (.empty t :: rest)
  | text (raw : List Char) {rest : List Event} : Balanced rest → Balanced (.text raw :: rest)
  | cdata (content : List Char) {rest : List Event} :
    Balanced rest → Balanced (.cdata content :: rest)
  | aside {rest : List Event} : Balanced rest → Balanced (.aside :: rest)
  | element (t : Tag) {inside rest : List Event} :
    Balanced inside → Balanced rest → Balanced (.start t :: (inside ++ .finish t.name :: rest))

/-- The elements that are open behind an event, if it can stand there. -/
def Event.carry (opened : Open) : Event → Option Open
  | .start t => some (t.name :: opened)
  | .finish name =>
    match opened with
    | [] => none
    | expected :: outer => if name = expected then some outer else none
  | .empty _ | .text _ | .cdata _ | .aside => some opened

theorem Balanced.append {first second : List Event} (hf : Balanced first) (hs : Balanced second) :
    Balanced (first ++ second) := by
  induction hf with
  | nil => exact hs
  | empty t _ ih => exact .empty t ih
  | text raw _ ih => exact .text raw ih
  | cdata content _ ih => exact .cdata content ih
  | aside _ ih => exact .aside ih
  | element t inside _ _ ih =>
    rw [List.cons_append, List.append_assoc, List.cons_append]
    exact .element t inside ih

/-- A balanced sequence leaves open what was open before it. -/
theorem Balanced.carry {list : List Event} (h : Balanced list) (opened : Open) :
    list.foldlM Event.carry opened = some opened := by
  induction h generalizing opened with
  | nil => rfl
  | empty _ _ ih | text _ _ ih | cdata _ _ ih | aside _ ih => exact ih opened
  | element t _ _ ihi ihr =>
    rw [List.foldlM_cons, Event.carry, Option.bind_eq_bind, Option.bind_some, List.foldlM_append,
      ihi, Option.bind_eq_bind, Option.bind_some, List.foldlM_cons, Event.carry, if_pos rfl]
    exact ihr opened

/-- A sequence that closes what is open before it: balanced pieces with the end tags between
them. -/
inductive Closes : Open → List Event → Prop where
  | done {list : List Event} : Balanced list → Closes [] list
  | finish {name : List Char} {outer : Open} {list rest : List Event} :
    Balanced list → Closes outer rest → Closes (name :: outer) (list ++ .finish name :: rest)

/-- What is balanced may stand in front. -/
theorem Closes.prepend {opened : Open} {first list : List Event} (hf : Balanced first)
    (h : Closes opened list) : Closes opened (first ++ list) := by
  cases h with
  | done hl => exact .done (hf.append hl)
  | finish hl hr =>
    rw [← List.append_assoc]
    exact .finish (hf.append hl) hr

/-- If the stack ends up empty, everything has been closed. -/
theorem closes_of_carry {opened : Open} {list : List Event}
    (h : list.foldlM Event.carry opened = some []) : Closes opened list := by
  induction list generalizing opened with
  | nil =>
    cases h
    exact .done .nil
  | cons e rest ih =>
    rw [List.foldlM_cons] at h
    cases e with
    | start t =>
      cases ih h with
      | finish hi hr =>
        -- the rest closes the new element first, and then what was open
        have element := Closes.prepend (.element t hi .nil) hr
        simpa using element
    | finish name =>
      cases opened with
      | nil => cases h
      | cons expected outer =>
        rw [Event.carry] at h
        split at h
        case isTrue heq =>
          subst heq
          exact .finish .nil (ih h)
        case isFalse => cases h
    | empty t => exact (ih h).prepend (.empty t .nil)
    | text raw => exact (ih h).prepend (.text raw .nil)
    | cdata content => exact (ih h).prepend (.cdata content .nil)
    | aside => exact (ih h).prepend (.aside .nil)

/-- A sequence is balanced exactly if it can be read from the front with nothing open before and
behind it. -/
theorem balanced_iff {list : List Event} :
    Balanced list ↔ list.foldlM Event.carry [] = some [] := by
  constructor
  · exact fun h => h.carry []
  · intro h
    cases closes_of_carry h with
    | done h => exact h

/-- The end tags of what is open close it. -/
theorem carry_finish (opened : Open) : (opened.map Event.finish).foldlM Event.carry opened =
    some [] := by
  induction opened with
  | nil => rfl
  | cons name outer ih =>
    rw [List.map_cons, List.foldlM_cons, Event.carry, if_pos rfl]
    exact ih

/-! ## The events of a text -/

/-- A piece of markup that goes up to where its steps end it. -/
def piece {σ : Type} (step : σ → Char → Option σ) (start : σ) (unclosed : Fault)
    (outcome : List Char → Outcome) (cs : List Char) : Outcome × List Char :=
  match upTo step start cs with
  | some (content, rest) => (outcome content, rest)
  | none => (.error unclosed, [])

/-- An outcome that keeps account of the open elements. -/
def Carries (opened : Open) (outcome : List Char → Outcome) : Prop :=
  ∀ content e inside, outcome content = .ok (e, inside) → e.carry opened = some inside

theorem carries_ofEndTag (opened : Open) : Carries opened fun content =>
    ofEndTag opened (content.drop 1) := by
  intro content e inside h
  simp only [ofEndTag] at h
  split at h
  · cases h
  · split at h
    case isTrue heq =>
      cases h
      exact if_pos heq
    case isFalse => cases h

theorem carries_ofTag (opened : Open) : Carries opened fun content =>
    .ok (ofTag opened content) := by
  intro content e inside h
  simp only [ofTag, Except.ok.injEq] at h
  split at h <;> cases h <;> rfl

theorem carries_ofCData (opened : Open) : Carries opened (ofCData opened) := by
  intro content e inside h
  rw [ofCData] at h
  split at h <;> cases h
  rfl

theorem carries_ofComment (opened : Open) : Carries opened (ofComment opened) := by
  intro content e inside h
  rw [ofComment] at h
  split at h <;> cases h
  rfl

theorem carries_ofDoctype (opened : Open) : Carries opened (ofDoctype opened) := by
  intro content e inside h
  rw [ofDoctype] at h
  split at h
  · split at h <;> cases h
    rfl
  · cases h

theorem carries_ofInstruction (opened : Open) : Carries opened (ofInstruction opened) := by
  intro content e inside h
  rw [ofInstruction] at h
  split at h <;> cases h
  rfl

/-- What is neither a declaration, an instruction nor an end tag is a tag. -/
theorem markup_tag (opened : Open) {c : Char} (hc : c ≠ '!' ∧ c ≠ '?' ∧ c ≠ '/')
    (cs : List Char) : markup opened (c :: cs) =
      piece tagStep none .unclosedTag (fun content => .ok (ofTag opened content)) (c :: cs) := by
  unfold markup
  split
  case h_8 => rfl
  case h_7 heq =>
    cases heq
    exact absurd rfl hc.2.2
  case h_6 heq =>
    cases heq
    exact absurd rfl hc.2.1
  all_goals
    rename_i heq
    cases heq
    exact absurd rfl hc.1

theorem markup_end (opened : Open) (cs : List Char) : markup opened ('/' :: cs) =
    piece tagStep none .unclosedTag (fun content => ofEndTag opened (content.drop 1))
      ('/' :: cs) := rfl

theorem markup_instruction (opened : Open) (cs : List Char) : markup opened ('?' :: cs) =
    piece instructionStep false .unclosedInstruction (ofInstruction opened) ('?' :: cs) := rfl

/-- The first characters of a piece of markup tell how it goes on, whatever follows them. -/
theorem markup_eq_piece (opened : Open) (cs : List Char) :
    (∃ fault rest, markup opened cs = (.error fault, rest)) ∨
      ∃ (σ : Type) (step : σ → Char → Option σ) (start : σ) (unclosed : Fault)
        (outcome : List Char → Outcome), Carries opened outcome ∧
          ∀ more, markup opened (cs ++ more) = piece step start unclosed outcome (cs ++ more) := by
  rcases cs with _ | ⟨c, cs⟩
  · exact .inl ⟨_, _, rfl⟩
  by_cases he : c = '!'
  · subst he
    rcases cs with _ | ⟨c, cs⟩
    · exact .inl ⟨_, _, rfl⟩
    by_cases hb : c = '['
    · subst hb
      exact .inr ⟨_, _, _, _, _, carries_ofCData opened, fun _ => rfl⟩
    by_cases hd : c = '-'
    · subst hd
      exact .inr ⟨_, _, _, _, _, carries_ofComment opened, fun _ => rfl⟩
    by_cases hD : c = 'D'
    · subst hD
      exact .inr ⟨_, _, _, _, _, carries_ofDoctype opened, fun _ => rfl⟩
    by_cases hd' : c = 'd'
    · subst hd'
      exact .inr ⟨_, _, _, _, _, carries_ofDoctype opened, fun _ => rfl⟩
    refine .inl ⟨.unknownMarkup, '!' :: c :: cs, ?_⟩
    unfold markup
    split <;> simp_all
  by_cases hq : c = '?'
  · subst hq
    exact .inr ⟨_, _, _, _, _, carries_ofInstruction opened,
      fun more => markup_instruction opened (cs ++ more)⟩
  by_cases hs : c = '/'
  · subst hs
    exact .inr ⟨_, _, _, _, _, carries_ofEndTag opened,
      fun more => markup_end opened (cs ++ more)⟩
  exact .inr ⟨_, _, _, _, _, carries_ofTag opened,
    fun more => markup_tag opened ⟨he, hq, hs⟩ (cs ++ more)⟩

/-- Where a piece ends does not depend on what follows it. -/
theorem upTo_append {σ : Type} {step : σ → Char → Option σ} {s : σ} {cs content rest : List Char}
    (h : upTo step s cs = some (content, rest)) (more : List Char) :
    upTo step s (cs ++ more) = some (content, rest ++ more) := by
  induction cs generalizing s content with
  | nil => cases h
  | cons c cs ih =>
    rw [List.cons_append, upTo]
    rw [upTo] at h
    cases hstep : step s c with
    | none =>
      rw [hstep] at h
      cases h
      rfl
    | some next =>
      rw [hstep] at h
      obtain ⟨⟨found, behind⟩, hfound, heq⟩ := Option.map_eq_some_iff.1 h
      cases heq
      simp only [ih hfound, Option.map_some]

/-- A piece of markup that is in order is an event that can stand there, and it is the same piece
whatever is put behind the text. -/
theorem markup_eq_ok {opened inside : Open} {cs rest : List Char} {e : Event}
    (h : markup opened cs = (.ok (e, inside), rest)) :
    e.carry opened = some inside ∧
      ∀ more, markup opened (cs ++ more) = (.ok (e, inside), rest ++ more) := by
  rcases markup_eq_piece opened cs with
    ⟨fault, behind, hfault⟩ | ⟨σ, step, start, unclosed, outcome, carries, eq⟩
  · rw [hfault] at h
    cases h
  have plain := eq []
  rw [List.append_nil, h, piece] at plain
  split at plain
  case h_1 content behind hup =>
    obtain ⟨ok, rfl⟩ := Prod.mk.inj plain
    refine ⟨carries content e inside ok.symm, fun more => ?_⟩
    simp only [eq more, piece, upTo_append hup more, ok]
  case h_2 => cases plain

theorem events_tag {opened inside : Open} {cs rest : List Char} {e : Event}
    (h : markup opened cs = (.ok (e, inside), rest)) : events opened ('<' :: cs) =
      (e :: (events inside rest).1, (events inside rest).2) := by
  rw [events]
  split <;> rename_i heq <;> rw [h] at heq <;> cases heq
  rfl

theorem events_text (opened : Open) {c : Char} (hc : c ≠ '<') (cs : List Char) :
    events opened (c :: cs) = (.text (c :: cs.takeWhile (· ≠ '<')) ::
      (events opened (cs.dropWhile (· ≠ '<'))).1, (events opened (cs.dropWhile (· ≠ '<'))).2) := by
  rw [events]
  exact hc

/-- Every event of a text can stand where it stands. -/
theorem exists_carry_events (opened : Open) (cs : List Char) :
    ∃ inside, (events opened cs).1.foldlM Event.carry opened = some inside := by
  fun_induction events opened cs with
  | case1 opened => exact ⟨opened, rfl⟩
  | case2 opened rest e inside behind h others fault heq ih =>
    obtain ⟨last, hlast⟩ := ih
    rw [heq] at hlast
    refine ⟨last, ?_⟩
    rw [List.foldlM_cons, (markup_eq_ok h).1]
    exact hlast
  | case3 opened => exact ⟨opened, rfl⟩
  | case4 opened c rest hc others fault heq ih =>
    rw [heq] at ih
    exact ih

/-- The events of a text are balanced once what they leave open is closed behind them, and without
that exactly if they leave nothing open. -/
theorem exists_balanced_events (cs : List Char) : ∃ opened : Open,
    Balanced ((events [] cs).1 ++ opened.map .finish) ∧
      (Balanced (events [] cs).1 ↔ opened = []) := by
  obtain ⟨opened, h⟩ := exists_carry_events [] cs
  refine ⟨opened, ?_, ?_⟩
  · rw [balanced_iff, List.foldlM_append, h]
    exact carry_finish opened
  · rw [balanced_iff, h, Option.some_inj]

/-- Text behind a text in order changes nothing but a piece of text at its end: the other events
come first, and the reading goes on from where they end. -/
theorem events_append {opened : Open} {cs : List Char} (h : (events opened cs).2 = none)
    (more : List Char) : ∃ common inside behind,
      ((events opened cs).1 = common ∨ ∃ raw, (events opened cs).1 = common ++ [.text raw]) ∧
        events opened (cs ++ more) =
          (common ++ (events inside behind).1, (events inside behind).2) := by
  fun_induction events opened cs with
  | case1 opened => exact ⟨[], opened, more, .inl rfl, rfl⟩
  | case2 opened rest e inside behind hm others fault heq ih =>
    rw [heq] at ih
    obtain ⟨common, last, behind', hcommon, happend⟩ := ih h
    refine ⟨e :: common, last, behind', ?_, ?_⟩
    · exact hcommon.imp (congrArg _) fun ⟨raw, heq⟩ => ⟨raw, congrArg _ heq⟩
    · rw [List.cons_append, events_tag ((markup_eq_ok hm).2 more), happend]
      rfl
  | case3 opened rest fault behind hm => cases h
  | case4 opened c rest hc others fault heq ih =>
    by_cases hend : rest.dropWhile (· ≠ '<') = []
    · rw [hend, events] at heq
      cases heq
      exact ⟨[], opened, c :: rest ++ more, .inr ⟨_, rfl⟩, rfl⟩
    rw [heq] at ih
    obtain ⟨common, last, behind, hcommon, happend⟩ := ih h
    refine ⟨.text (c :: rest.takeWhile (· ≠ '<')) :: common, last, behind, ?_, ?_⟩
    · exact hcommon.imp (congrArg _) fun ⟨raw, heq⟩ => ⟨raw, congrArg _ heq⟩
    · have whole : (rest ++ more).dropWhile (· ≠ '<') = rest.dropWhile (· ≠ '<') ++ more := by
        rw [List.dropWhile_append, if_neg (by simpa using hend)]
      have start : (rest ++ more).takeWhile (· ≠ '<') = rest.takeWhile (· ≠ '<') := by
        rw [List.takeWhile_append, if_neg]
        intro hlen
        have all : rest.takeWhile (· ≠ '<') = rest :=
          (List.takeWhile_prefix _).eq_of_length hlen
        exact hend (List.dropWhile_eq_nil_iff.2 (List.takeWhile_eq_self_iff.1 all))
      rw [List.cons_append, events_text opened hc, whole, start, happend]
      rfl

end GraphCompare.Markup
