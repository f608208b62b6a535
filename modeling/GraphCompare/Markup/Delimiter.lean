/-!
# Where a piece of markup ends

Every piece of markup ends at a `>`, but not always at the first one. Each kind of piece carries
some state along, and its step says for the next character whether the piece goes on, and in what
state, or ends with that character: a tag does not end inside quotes, a comment ends after `--`, a
CDATA section after `]]`, an instruction after `?`, and a document type at the bracket that has no
partner. The rest behind the end is shorter than the text, which is what the readers recurse on.
-/

namespace GraphCompare.Markup

/-- The white space of markup. -/
def isBlank (c : Char) : Bool := c = ' ' || c = '\t' || c = '\r' || c = '\n'

/-- The number of bytes that a text takes. -/
def byteCount (cs : List Char) : Nat := cs.foldl (fun n c => n + c.utf8Size) 0

/-- The text up to the character at which the piece ends, and what follows that character. -/
def upTo {σ : Type} (step : σ → Char → Option σ) : σ → List Char → Option (List Char × List Char)
  | _, [] => none
  | s, c :: rest =>
    match step s c with
    | some s => (upTo step s rest).map fun (content, rest) => (c :: content, rest)
    | none => some ([], rest)

/-- What is found and what follows are the text without one character. -/
theorem length_of_upTo {σ : Type} {step : σ → Char → Option σ} {s : σ}
    {cs content rest : List Char} (h : upTo step s cs = some (content, rest)) :
    cs.length = content.length + 1 + rest.length := by
  induction cs generalizing s content with
  | nil => simp [upTo] at h
  | cons c cs ih =>
    rw [upTo] at h
    split at h
    · obtain ⟨⟨content', rest'⟩, h', he⟩ := Option.map_eq_some_iff.1 h
      simp only [Prod.mk.injEq] at he
      obtain ⟨rfl, rfl⟩ := he
      simp only [List.length_cons, ih h']
      omega
    · simp only [Option.some.injEq, Prod.mk.injEq] at h
      obtain ⟨rfl, rfl⟩ := h
      simp only [List.length_cons, List.length_nil]
      omega

/-- Inside a tag the state is the quote that is open. -/
def tagStep : Option Char → Char → Option (Option Char)
  | none, '>' => none
  | none, '"' => some (some '"')
  | none, '\'' => some (some '\'')
  | none, _ => some none
  | some q, c => some (if c = q then none else some q)

/-- Inside a comment the state is the number of characters, the mark that opens it among them, and
the number of dashes just before. A comment has at least two dashes at each end. -/
def commentStep : Nat × Nat → Char → Option (Nat × Nat)
  | (count, dashes), c =>
    if c = '>' ∧ 4 < count ∧ 2 ≤ dashes then none
    else some (count + 1, if c = '-' then dashes + 1 else 0)

/-- Inside a CDATA section the state is the number of brackets just before. -/
def cdataStep (brackets : Nat) (c : Char) : Option Nat :=
  if c = '>' ∧ 2 ≤ brackets then none else some (if c = ']' then brackets + 1 else 0)

/-- Inside an instruction the state is whether a question mark is just before. -/
def instructionStep (question : Bool) (c : Char) : Option Bool :=
  if c = '>' ∧ question then none else some (c == '?')

/-- Inside a document type the state is the number of brackets that wait for a partner. -/
def doctypeStep (depth : Nat) (c : Char) : Option Nat :=
  if c = '>' then (if depth = 0 then none else some (depth - 1))
  else some (if c = '<' then depth + 1 else depth)

end GraphCompare.Markup
