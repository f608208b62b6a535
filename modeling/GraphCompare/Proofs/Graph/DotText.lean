import Mathlib
import GraphCompare.Graph.Dot
import GraphCompare.Proofs.Edit.Shape
import GraphCompare.Proofs.Text.Front

/-!
# The text of a drawing

A drawing shows the labels of the nodes by position, and the edges as positions with labels; this
can be read off its text whatever the labels are (`Graph.dot_eq_iff`). An escaped character can be
told from the front and never starts with a quote (`dotChar_append_inj`), so a label ends at the
first quote that is not escaped and a line at the label's end (`nodeText_append_inj`,
`edgeText_append_inj`). Behind its position a node goes on with a bracket and an edge with an arrow,
so the nodes are over where the first edge starts. No label makes a line of its own either
(`count_newline_dot`).
-/

namespace GraphCompare.Graph

/-! ## Labels -/

/-- The characters that are written with a backslash, with what comes behind it. -/
def dotEscapes : List (Char × Char) := [('"', '"'), ('\\', '\\'), ('\n', 'l')]

/-- A character is written as itself or with a backslash. -/
theorem dotChar_cases (c : Char) :
    dotChar c = [c] ∧ c ≠ '"' ∧ c ≠ '\\' ∧ c ≠ '\n' ∨
      ∃ d, dotChar c = ['\\', d] ∧ (c, d) ∈ dotEscapes := by
  unfold dotChar
  split
  case h_1 => exact .inr ⟨_, rfl, by decide⟩
  case h_2 => exact .inr ⟨_, rfl, by decide⟩
  case h_3 => exact .inr ⟨_, rfl, by decide⟩
  case h_4 quote backslash line => exact .inl ⟨rfl, quote, backslash, line⟩

/-- What comes behind the backslash tells the character. -/
theorem eq_of_mem_dotEscapes : ∀ e ∈ dotEscapes, ∀ e' ∈ dotEscapes, e.2 = e'.2 → e.1 = e'.1 := by
  decide

/-- A written character can be told from the front. -/
theorem dotChar_append_inj {c d : Char} {r r' : List Char}
    (h : dotChar c ++ r = dotChar d ++ r') : c = d ∧ r = r' := by
  rcases dotChar_cases c with ⟨hc, -, plain, -⟩ | ⟨x, hc, hx⟩ <;>
    rcases dotChar_cases d with ⟨hd, -, plain', -⟩ | ⟨y, hd, hy⟩ <;>
    simp only [hc, hd, List.cons_append, List.nil_append, List.cons.injEq] at h
  · exact h
  · exact absurd h.1 plain
  · exact absurd h.1.symm plain'
  · exact ⟨eq_of_mem_dotEscapes _ hx _ hy h.2.1, h.2.2⟩

/-- No written character starts with a quote. -/
theorem not_dotChar_prefix (c : Char) (r : List Char) : ¬dotChar c <+: '"' :: r := by
  rintro ⟨t, h⟩
  rcases dotChar_cases c with ⟨hc, quote, -⟩ | ⟨d, hc, -⟩ <;> rw [hc] at h
  · exact quote (List.cons.inj h).1
  · cases h

/-- No written character ends a line. -/
theorem newline_not_mem_dotChar (c : Char) : '\n' ∉ dotChar c := by
  have escapes : ∀ e ∈ dotEscapes, '\n' ∉ ['\\', e.2] := by decide
  rcases dotChar_cases c with ⟨hc, -, -, line⟩ | ⟨d, hc, hd⟩ <;> rw [hc]
  · simpa using line.symm
  · exact escapes (c, d) hd

/-- What stands on a line from the label on. -/
def labelText (label : String) : List Char :=
  [' ', '[', ' ', 'l', 'a', 'b', 'e', 'l', ' ', '=', ' ', '"'] ++
    (label.toList.flatMap dotChar ++ ['"', ' ', ']', '\n'])

theorem labelText_append_inj {l l' : String} {r r' : List Char}
    (h : labelText l ++ r = labelText l' ++ r') : l = l' ∧ r = r' := by
  rw [labelText, labelText, List.append_assoc, List.append_assoc, List.append_assoc,
    List.append_assoc] at h
  obtain ⟨label, rest⟩ := flatMap_append_inj (fun _ _ _ _ _ _ => dotChar_append_inj)
    (fun c _ => not_dotChar_prefix c _) (fun c _ => not_dotChar_prefix c _)
    (List.append_cancel_left h)
  exact ⟨String.toList_injective label, (List.append_right_inj ['"', ' ', ']', '\n']).1 rest⟩

/-- A line goes on after its label with nothing but its end. -/
theorem count_newline_labelText (label : String) : (labelText label).count '\n' = 1 := by
  have body : (label.toList.flatMap dotChar).count '\n' = 0 := by
    rw [List.count_eq_zero, List.mem_flatMap]
    rintro ⟨c, -, hc⟩
    exact newline_not_mem_dotChar c hc
  rw [labelText, List.count_append, List.count_append, body]
  rfl

/-! ## Lines -/

/-- The line of a label at a position. -/
def nodeText (e : String × ℕ) : List Char :=
  [' ', ' ', ' ', ' '] ++ ((Nat.repr e.2).toList ++ labelText e.1)

/-- The line of an edge between positions. -/
def edgeText (e : Link) : List Char :=
  [' ', ' ', ' ', ' '] ++ ((Nat.repr e.1).toList ++
    ([' ', '-', '>', ' '] ++ ((Nat.repr e.2.1).toList ++ labelText e.2.2)))

theorem toList_dotNode (position : ℕ) (n : Node) :
    (dotNode position n).toList = nodeText (n.label, position) := by
  simp [dotNode, dotLabel, nodeText, labelText, Decimal.integerText_natCast]

theorem toList_dotEdge (a : Arc) : (dotEdge a).toList = edgeText (a.source, a.target, a.label) := by
  simp [dotEdge, dotLabel, edgeText, labelText, Decimal.integerText_natCast]

theorem nodeText_append_inj {e e' : String × ℕ} {r r' : List Char}
    (h : nodeText e ++ r = nodeText e' ++ r') : e = e' ∧ r = r' := by
  simp only [nodeText, List.append_assoc] at h
  obtain ⟨position, rest⟩ := repr_append_inj (by decide) (List.append_cancel_left h)
  obtain ⟨label, rest⟩ := labelText_append_inj (congrArg (' ' :: ·) rest)
  exact ⟨Prod.ext label position, rest⟩

theorem edgeText_append_inj {e e' : Link} {r r' : List Char}
    (h : edgeText e ++ r = edgeText e' ++ r') : e = e' ∧ r = r' := by
  simp only [edgeText, List.append_assoc] at h
  obtain ⟨source, rest⟩ := repr_append_inj (by decide) (List.append_cancel_left h)
  obtain ⟨target, rest⟩ :=
    repr_append_inj (by decide) ((List.append_right_inj ['-', '>', ' ']).1 rest)
  obtain ⟨label, rest⟩ := labelText_append_inj (congrArg (' ' :: ·) rest)
  exact ⟨Prod.ext source (Prod.ext target label), rest⟩

/-- What follows the nodes is no line of a node. -/
theorem not_nodeText_prefix (e : String × ℕ) (links : List Link) :
    ¬nodeText e <+: links.flatMap edgeText ++ ['\x7d', '\n'] := by
  rintro ⟨r, h⟩
  cases links with
  | nil => cases h
  | cons link links =>
    simp only [nodeText, edgeText, List.flatMap_cons, List.append_assoc] at h
    obtain ⟨-, rest⟩ := repr_append_inj (by decide) (List.append_cancel_left h)
    cases rest

/-- What follows the edges is no line of an edge. -/
theorem not_edgeText_prefix (e : Link) : ¬edgeText e <+: ['\x7d', '\n'] := by
  rintro ⟨r, h⟩
  cases h

/-- Lines as there are pieces, if each piece is a line. -/
theorem count_newline_flatMap {α : Type} {f : α → List Char} (h : ∀ a, (f a).count '\n' = 1)
    (l : List α) : (l.flatMap f).count '\n' = l.length := by
  have each : List.count '\n' ∘ f = fun _ => 1 := funext h
  rw [List.count_flatMap, each, List.map_const', List.sum_replicate, smul_eq_mul, mul_one]

theorem count_newline_repr (n : ℕ) : (Nat.repr n).toList.count '\n' = 0 :=
  List.count_eq_zero.2 (not_mem_repr (by decide) n)

theorem count_newline_nodeText (e : String × ℕ) : (nodeText e).count '\n' = 1 := by
  rw [nodeText, List.count_append, List.count_append, count_newline_repr, count_newline_labelText]
  rfl

theorem count_newline_edgeText (e : Link) : (edgeText e).count '\n' = 1 := by
  rw [edgeText, List.count_append, List.count_append, List.count_append, List.count_append,
    count_newline_repr, count_newline_repr, count_newline_labelText]
  rfl

/-! ## Drawings -/

section
variable (g : Graph)

/-- The labels of the nodes with their positions. -/
def shownNodes : List (String × ℕ) := (g.nodes.map Node.label).zipIdx

/-- The edges between positions with their labels. -/
def shownEdges : List Link := g.arcs.map fun a => (a.source, a.target, a.label)

theorem toList_dot : g.dot.toList = ['d', 'i', 'g', 'r', 'a', 'p', 'h', ' ', '\x7b', '\n'] ++
    (g.shownNodes.flatMap nodeText ++ (g.shownEdges.flatMap edgeText ++ ['\x7d', '\n'])) := by
  have nodes : ∀ e : Node × ℕ, (dotNode e.2 e.1).toList = nodeText (Prod.map Node.label id e) :=
    fun e => toList_dotNode e.2 e.1
  simp [dot, String.toList_join, List.flatMap_map, nodes, toList_dotEdge, shownNodes, shownEdges,
    List.zipIdx_map]

end

/-- The drawing tells what it shows. -/
theorem shown_of_dot_eq {g h : Graph} (same : g.dot = h.dot) :
    g.shownNodes = h.shownNodes ∧ g.shownEdges = h.shownEdges := by
  have chars := congrArg String.toList same
  rw [toList_dot, toList_dot] at chars
  obtain ⟨nodes, rest⟩ := flatMap_append_inj (fun _ _ _ _ _ _ => nodeText_append_inj)
    (fun e _ => not_nodeText_prefix e _) (fun e _ => not_nodeText_prefix e _)
    (List.append_cancel_left chars)
  obtain ⟨edges, -⟩ := flatMap_append_inj (fun _ _ _ _ _ _ => edgeText_append_inj)
    (fun e _ => not_edgeText_prefix e) (fun e _ => not_edgeText_prefix e) rest
  exact ⟨nodes, edges⟩

/-- Every node and every edge has a line of its own, and there are only two more. -/
theorem count_newline_dot (g : Graph) :
    g.dot.toList.count '\n' = g.nodeCount + g.edgeCount + 2 := by
  have first : ['d', 'i', 'g', 'r', 'a', 'p', 'h', ' ', '\x7b', '\n'].count '\n' = 1 := rfl
  have last : ['\x7d', '\n'].count '\n' = 1 := rfl
  rw [toList_dot, List.count_append, List.count_append, List.count_append,
    count_newline_flatMap count_newline_nodeText, count_newline_flatMap count_newline_edgeText,
    first, last, shownNodes, shownEdges, List.length_zipIdx, List.length_map, List.length_map,
    nodeCount, edgeCount]
  omega

/-- **A drawing can be read back.** Two graphs have the same drawing exactly if they have the same
labels of nodes and the same edges between positions with their labels, each in the order in which
they were added. A drawing has one line for each node and each edge, and two more. -/
theorem dot_eq_iff (g h : Graph) :
    (g.dot = h.dot ↔ g.nodes.map Node.label = h.nodes.map Node.label ∧
      (g.arcs.map fun a => (a.source, a.target, a.label)) =
        h.arcs.map fun a => (a.source, a.target, a.label)) ∧
    g.dot.toList.count '\n' = g.nodeCount + g.edgeCount + 2 := by
  refine ⟨⟨fun same => ?_, fun ⟨nodes, edges⟩ => ?_⟩, g.count_newline_dot⟩
  · obtain ⟨nodes, edges⟩ := shown_of_dot_eq same
    have labels := congrArg (List.map Prod.fst) nodes
    rw [shownNodes, shownNodes, List.zipIdx_map_fst, List.zipIdx_map_fst] at labels
    exact ⟨labels, edges⟩
  · refine String.toList_injective ?_
    rw [toList_dot, toList_dot, shownNodes, shownNodes, nodes, shownEdges, shownEdges, edges]

end GraphCompare.Graph
