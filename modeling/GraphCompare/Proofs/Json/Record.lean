import Mathlib
import GraphCompare.Proofs.Json.Form

/-!
# Reading back records

A record is written as an object of its fields under distinct names, so each field is found again by
its name (`Json.fields?_object`), and a field that is there is read in the same way whether it may be
missing or not. So a record is faithful if its fields are, one lemma for each type. What follows for
the text without white space is `JsonForm.RoundTrips`: a value is read from its text, no other value
has this text, and what is read has the same text again. It holds of all ten types of records
(`JsonForm.records_roundTrip`).
-/

namespace GraphCompare

namespace Json

/-- Among members of distinct names there is one of each name. -/
theorem filter_eq_singleton {members : List (String × Json)}
    (distinct : (members.map Prod.fst).Nodup) {m : String × Json} (hm : m ∈ members) :
    (members.filter fun x => x.1 == m.1) = [m] := by
  induction members with
  | nil => cases hm
  | cons e rest ih =>
    obtain ⟨new, distinct⟩ := List.nodup_cons.1 distinct
    have other : ∀ x ∈ rest, e.1 ≠ x.1 := fun x hx same => new (same ▸ List.mem_map_of_mem hx)
    rcases List.mem_cons.1 hm with rfl | hm
    · rw [List.filter_cons, beq_self_eq_true, if_pos rfl, List.filter_eq_nil_iff.2]
      exact fun x hx same => other x hx (beq_iff_eq.1 same).symm
    · rw [List.filter_cons, beq_eq_false_iff_ne.2 (other m hm), if_neg Bool.false_ne_true,
        ih distinct hm]

/-- The fields of an object that has one member for each of their names. -/
theorem fields?_object (limits : Limits) (names : List String) (docs : List Json)
    (distinct : names.Nodup) (length : names.length = docs.length) :
    (object (names.zip docs)).fields? limits names = some (docs.map some) := by
  have fst : (names.zip docs).map Prod.fst = names := List.map_fst_zip length.le
  have snd : (names.zip docs).map (some ∘ Prod.snd) = docs.map some := by
    rw [← List.map_map, List.map_snd_zip length.ge]
  rw [fields?, ← snd]
  refine (congrArg (List.mapM _) fst.symm).trans (mapM_map_eq_some_map fun m hm => ?_)
  rw [filter_eq_singleton (fst.symm ▸ distinct) hm]
  rfl

/-- A record that is made of the documents of its fields is read from the object of them. -/
theorem bind_fields?_object {α : Type} {limits : Limits} (names : List String) (docs : List Json)
    (distinct : names.Nodup) (length : names.length = docs.length)
    {make : List (Option Json) → Option α} {a : α} (made : make (docs.map some) = some a) :
    ((object (names.zip docs)).fields? limits names).bind make = some a := by
  rw [fields?_object limits names docs distinct length]
  exact made

end Json

namespace JsonForm.Faithful

/-! ## Values without fields -/

theorem string (s : String) : Faithful s := ⟨trivial, fun _ _ => rfl⟩

theorem bool (b : Bool) : Faithful b := ⟨trivial, fun _ _ => rfl⟩

theorem uint64 (n : UInt64) : Faithful n where
  exact := by
    have low : Int64.minValue.toInt ≤ 0 := by decide
    have high := n.toNat_lt_size
    exact ⟨low.trans (Int.natCast_nonneg _), Int.ofNat_lt.2 high⟩
  recovered limits _ := by
    have high := n.toNat_lt_size
    have range : 0 ≤ (n.toNat : ℤ) ∧ (n.toNat : ℤ) < UInt64.size :=
      ⟨Int.natCast_nonneg _, Int.ofNat_lt.2 high⟩
    have same : UInt64.ofNat (n.toNat : ℤ).toNat = n := by rw [Int.toNat_natCast, UInt64.ofNat_toNat]
    exact (if_pos range).trans (congrArg some same)

theorem edgeId (e : EdgeId) : Faithful e where
  exact := (uint64 e.number).exact
  recovered limits shallow := by
    have number := (uint64 e.number).recovered limits shallow
    exact congrArg (Option.map EdgeId.mk) number

theorem value {v : OrderedValue} (free : v.1.FloatFree) : Faithful v where
  exact := Value.exact_toJson free
  recovered _ shallow := Value.ofJson?_toJson v.2 free shallow

theorem strings (l : List String) : Faithful l := list fun s _ => string s

/-! ## Records -/

section Field

variable {α : Type} [JsonForm α] {a : α}

/-- What a record needs is read back from the object of the record. -/
theorem required (h : Faithful a) {members : List (String × Json)} {limits : Limits}
    (shallow : (Json.object members).depth ≤ limits.room) {name : String}
    (hm : (name, toJson a) ∈ members) :
    Json.required? limits.inner (some (toJson a)) = some a :=
  h.recovered limits.inner (Json.membersDepth_le_iff.1 (Nat.le_sub_one_of_lt shallow) _ hm)

/-- So is what has a default, whatever the default is. -/
theorem orDefault (h : Faithful a) {members : List (String × Json)} {limits : Limits}
    (shallow : (Json.object members).depth ≤ limits.room) {name : String}
    (hm : (name, toJson a) ∈ members) (default : α) :
    Json.orDefault? limits.inner default (some (toJson a)) = some a :=
  h.required shallow hm

end Field

theorem node {n : Node} (free : n.attributes.FloatFree) : Faithful n where
  exact := ⟨(string n.id).exact, (attributes free).exact, trivial⟩
  recovered limits shallow := by
    refine Json.bind_fields?_object ["id", "attributes"] [toJson n.id, toJson n.attributes]
      (by decide) rfl ?_
    have id := (string n.id).required shallow (.head _)
    have attributes := (attributes free).required shallow (.tail _ (.head _))
    simp only [List.map_cons, List.map_nil, Option.bind_eq_bind, id, attributes, Option.bind_some]
    rfl

theorem edge {e : Edge} (free : e.attributes.FloatFree) : Faithful e where
  exact := ⟨(edgeId e.id).exact, (string e.source).exact, (string e.target).exact,
    (attributes free).exact, trivial⟩
  recovered limits shallow := by
    refine Json.bind_fields?_object ["id", "source", "target", "attributes"]
      [toJson e.id, toJson e.source, toJson e.target, toJson e.attributes] (by decide) rfl ?_
    have id := (edgeId e.id).required shallow (.head _)
    have source := (string e.source).required shallow (.tail _ (.head _))
    have target := (string e.target).required shallow (.tail _ (.tail _ (.head _)))
    have attributes :=
      (attributes free).required shallow (.tail _ (.tail _ (.tail _ (.head _))))
    simp only [List.map_cons, List.map_nil, Option.bind_eq_bind, id, source, target, attributes,
      Option.bind_some]
    rfl

theorem edgeTriple (t : EdgeTriple) : Faithful t where
  exact := ⟨(string t.source).exact, (string t.target).exact, (string t.label).exact, trivial⟩
  recovered limits shallow := by
    refine Json.bind_fields?_object ["source", "target", "label"]
      [toJson t.source, toJson t.target, toJson t.label] (by decide) rfl ?_
    have source := (string t.source).required shallow (.head _)
    have target := (string t.target).required shallow (.tail _ (.head _))
    have label := (string t.label).required shallow (.tail _ (.tail _ (.head _)))
    simp only [List.map_cons, List.map_nil, Option.bind_eq_bind, source, target, label,
      Option.bind_some]
    rfl

theorem summarySettings (s : SummarySettings) : Faithful s where
  exact := ⟨(strings s.nodeAttributes).exact, (strings s.edgeAttributes).exact, trivial⟩
  recovered limits shallow := by
    refine Json.bind_fields?_object ["node_attributes", "edge_attributes"]
      [toJson s.nodeAttributes, toJson s.edgeAttributes] (by decide) rfl ?_
    have nodes := (strings s.nodeAttributes).orDefault shallow (.head _)
    have edges := (strings s.edgeAttributes).orDefault shallow (.tail _ (.head _))
    simp only [List.map_cons, List.map_nil, Option.bind_eq_bind, nodes, edges, Option.bind_some]
    rfl

theorem similaritySettings (s : SimilaritySettings) : Faithful s where
  exact := ⟨(uint64 s.threshold).exact, (uint64 s.upperBound).exact,
    (uint64 s.timeoutSeconds).exact, trivial⟩
  recovered limits shallow := by
    refine Json.bind_fields?_object ["edit_distance_threshold", "upper_bound", "timeout_secs"]
      [toJson s.threshold, toJson s.upperBound, toJson s.timeoutSeconds] (by decide) rfl ?_
    have threshold := (uint64 s.threshold).orDefault shallow (.head _)
    have bound := (uint64 s.upperBound).orDefault shallow (.tail _ (.head _))
    have timeout := (uint64 s.timeoutSeconds).orDefault shallow (.tail _ (.tail _ (.head _)))
    simp only [List.map_cons, List.map_nil, Option.bind_eq_bind, threshold, bound, timeout,
      Option.bind_some]
    rfl

theorem hashSettings (s : HashSettings) : Faithful s where
  exact := ⟨(uint64 s.iterations).exact, (uint64 s.digestSize).exact, (bool s.nodeLabels).exact,
    (bool s.edgeLabels).exact, trivial⟩
  recovered limits shallow := by
    refine Json.bind_fields?_object ["iterations", "digest_size", "node_labels", "edge_labels"]
      [toJson s.iterations, toJson s.digestSize, toJson s.nodeLabels, toJson s.edgeLabels]
      (by decide) rfl ?_
    have iterations := (uint64 s.iterations).orDefault shallow (.head _)
    have digestSize := (uint64 s.digestSize).orDefault shallow (.tail _ (.head _))
    have nodes := (bool s.nodeLabels).orDefault shallow (.tail _ (.tail _ (.head _)))
    have edges := (bool s.edgeLabels).orDefault shallow (.tail _ (.tail _ (.tail _ (.head _))))
    simp only [List.map_cons, List.map_nil, Option.bind_eq_bind, iterations, digestSize, nodes,
      edges, Option.bind_some]
    rfl

theorem settings (s : Settings) : Faithful s where
  exact := ⟨(hashSettings s.hash).exact, (similaritySettings s.similarity).exact,
    (summarySettings s.summary).exact, trivial⟩
  recovered limits shallow := by
    refine Json.bind_fields?_object ["hash", "similarity", "summary"]
      [toJson s.hash, toJson s.similarity, toJson s.summary] (by decide) rfl ?_
    have hash := (hashSettings s.hash).orDefault shallow (.head _)
    have similarity := (similaritySettings s.similarity).orDefault shallow (.tail _ (.head _))
    have summary := (summarySettings s.summary).orDefault shallow (.tail _ (.tail _ (.head _)))
    simp only [List.map_cons, List.map_nil, Option.bind_eq_bind, hash, similarity, summary,
      Option.bind_some]
    rfl

end JsonForm.Faithful

/-! ## Texts of records -/

namespace JsonForm

/-- Whether the values of a type that are free of floating point numbers are kept by their texts, as
far as these do not nest deeper than 127 brackets. -/
structure RoundTrips (α : Type) [JsonForm α] (free : α → Prop) : Prop where
  /-- A value is read from its text. -/
  decoded : ∀ a, free a → (toJson a).depth ≤ 127 → readRecord? α (recordText a) = some a
  /-- No two values have one text. -/
  injective : ∀ a b, free a → (toJson a).depth ≤ 127 → free b → (toJson b).depth ≤ 127 →
    recordText a = recordText b → a = b
  /-- What is read from the text of a value has the same text. -/
  rewritten : ∀ a, free a → (toJson a).depth ≤ 127 →
    (readRecord? α (recordText a)).map recordText = some (recordText a)

theorem RoundTrips.of_faithful {α : Type} [JsonForm α] {free : α → Prop}
    (h : ∀ a, free a → Faithful a) : RoundTrips α free where
  decoded a ha shallow := (h a ha).readRecord?_recordText shallow
  injective a b ha shallow hb shallow' same := by
    have read := (h a ha).readRecord?_recordText shallow
    rw [same, (h b hb).readRecord?_recordText shallow'] at read
    exact (Option.some.inj read).symm
  rewritten a ha shallow := by
    rw [(h a ha).readRecord?_recordText shallow]
    rfl

/-- **Records are kept by their texts**, all ten types of them. Only values of attributes can have
floating point numbers in them. -/
theorem records_roundTrip :
    RoundTrips OrderedValue (fun v => v.1.FloatFree) ∧
    RoundTrips NodeId (fun _ => True) ∧
    RoundTrips EdgeId (fun _ => True) ∧
    RoundTrips Node (fun n => n.attributes.FloatFree) ∧
    RoundTrips Edge (fun e => e.attributes.FloatFree) ∧
    RoundTrips EdgeTriple (fun _ => True) ∧
    RoundTrips SummarySettings (fun _ => True) ∧
    RoundTrips SimilaritySettings (fun _ => True) ∧
    RoundTrips HashSettings (fun _ => True) ∧
    RoundTrips Settings (fun _ => True) :=
  ⟨.of_faithful fun _ free => .value free, .of_faithful fun s _ => .string s,
    .of_faithful fun e _ => .edgeId e, .of_faithful fun _ free => .node free,
    .of_faithful fun _ free => .edge free, .of_faithful fun t _ => .edgeTriple t,
    .of_faithful fun s _ => .summarySettings s, .of_faithful fun s _ => .similaritySettings s,
    .of_faithful fun s _ => .hashSettings s, .of_faithful fun s _ => .settings s⟩

/-- An edge with the highest number, the lowest integer, and characters that have to be escaped. -/
def farEdge : Edge where
  id := ⟨18446744073709551615⟩
  source := "\"a\"\n"
  target := "\\é"
  attributes := {
    entries := [("", .list [.null, .bool true, .map [("CODE", .string "\t")]]),
      ("low", .int Int64.minValue)]
    ordered := by
      have names : Increasing ["", "low"] := List.pairwise_pair.2 (by decide)
      have inside : Increasing ["CODE"] := List.pairwise_singleton _ _
      exact ⟨names, ⟨trivial, trivial, ⟨inside, trivial, trivial⟩, trivial⟩, trivial, trivial⟩ }

theorem records_roundTrip_farEdge :
    farEdge.attributes.FloatFree ∧ (toJson farEdge).depth ≤ 127 ∧
      readRecord? Edge (recordText farEdge) = some farEdge := by
  have free : farEdge.attributes.FloatFree :=
    ⟨⟨trivial, trivial, ⟨trivial, trivial⟩, trivial⟩, trivial, trivial⟩
  have shallow : (toJson farEdge).depth ≤ 127 := by decide +kernel
  obtain ⟨-, -, -, -, edges, -⟩ := records_roundTrip
  exact ⟨free, shallow, edges.decoded farEdge free shallow⟩

end JsonForm

end GraphCompare
