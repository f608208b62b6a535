import Mathlib
import GraphCompare.Proofs.GraphML.ReadBack

/-!
# The graph of a written document

`readGraph_text`: reading the document of an outline gives the graph that the outline denotes, or
what is wrong with its items. The document has been read with the contents of the outline
(`Outline.read_text`), so it remains to compare two ways to say what a graph is. The contents give
the attributes in steps: entries are set one over the other (`get?_collected`), and what is missing
after that is taken from the defaults, which are kept by key (`lookup_defaults`: the keys that may
disagree about a default do not). The outline gives the value of each attribute at once.
-/

namespace GraphCompare

theorem Attributes.get?_insertIfNew (a : Attributes) (name x : String) (v : OrderedValue) :
    (a.insertIfNew name v).get? x = (a.get? x).or (if x == name then some v.1 else none) := by
  rw [insertIfNew]
  by_cases hx : x = name
  · subst hx
    cases hget : a.get? x with
    | none => simp [get?_insert]
    | some w => simp [hget]
  · split <;> simp [hx, get?_insert]

namespace GraphML

/-- Defaults are the values of the attributes that have none. -/
theorem Document.get?_withDefaults (defaults : List (String × OrderedValue)) (a : Attributes)
    (name : String) : (withDefaults defaults a).get? name =
      (a.get? name).or ((defaults.lookup name).map Subtype.val) := by
  rw [withDefaults]
  induction defaults generalizing a with
  | nil => exact Option.or_none.symm
  | cons e defaults ih =>
    rw [List.foldl_cons, ih, Attributes.get?_insertIfNew, List.lookup_cons, Option.or_assoc]
    cases name == e.1 <;> rfl

/-- Of the entries for an attribute the last one counts. -/
theorem get?_collected (keys : List Declaration) (data : List Entry) (name : String) :
    (collected keys data).get? name =
      (data.filter fun e => nameOf keys e.key = name).getLast?.map fun e => e.value.value.1 := by
  induction data using List.reverseRecOn with
  | nil => rfl
  | append_singleton data e ih =>
    rw [collected, List.foldl_append, ← collected, List.foldl_cons, List.foldl_nil,
      Attributes.get?_insert, ih, List.filter_append, List.getLast?_append]
    by_cases hname : nameOf keys e.key = name
    · simp [hname]
    · simp [hname, Ne.symm hname]

/-- A key is found by its id. -/
theorem declared?_eq_some_iff {keys : List Declaration}
    (distinct : (keys.map Declaration.id).Nodup) {id : String} {k : Declaration} :
    declared? keys id = some k ↔ k ∈ keys ∧ k.id = id := by
  have found : ∀ {id k}, declared? keys id = some k → k ∈ keys ∧ k.id = id := by
    intro id k h
    exact ⟨List.mem_of_find?_eq_some h,
      of_decide_eq_true (List.find?_eq_some_iff_append.1 h).1⟩
  refine ⟨found, ?_⟩
  rintro ⟨hk, rfl⟩
  cases h : declared? keys k.id with
  | none => simpa using List.find?_eq_none.1 h k hk
  | some l =>
    obtain ⟨hl, same⟩ := found h
    rw [List.inj_on_of_nodup_map distinct hl hk same]

/-- The contents of a document take a default for the elements that its key belongs to. -/
theorem Declaration.covers_spec (k : Declaration) {d : Domain} :
    k.spec.domain.covers d ↔ k.BelongsTo d := by
  rw [Domain.covers, Bool.or_eq_true, decide_eq_true_iff, decide_eq_true_iff]
  rfl

namespace Outline

variable (o : Outline)

/-- Records are added behind those that are there. -/
theorem foldl_addRecord (keys : List Declaration) (items : List Item) (d : Document) :
    items.foldl (fun d i => d.addRecord (i.record keys)) d =
      { d with
        nodes := d.nodes ++ (items.filterMap Item.node?).map
          fun x => ⟨x.1, collected keys x.2⟩
        edges := d.edges ++ (items.filterMap Item.edge?).map
          fun x => ⟨x.1.1, x.1.2, collected keys x.2⟩ } := by
  induction items generalizing d with
  | nil => simp
  | cons i items ih =>
    rw [List.foldl_cons, ih]
    cases i with
    | node id data =>
      simp [Document.addRecord, Item.record, Item.node?, Item.edge?, List.filterMap_cons]
    | edge source target data =>
      simp [Document.addRecord, Item.record, Item.node?, Item.edge?, List.filterMap_cons]

theorem records_declarations : o.declarations.nodes = [] ∧ o.declarations.edges = [] := by
  have kept : ∀ (keys : List Declaration) (d : Document), d.nodes = [] ∧ d.edges = [] →
      (keys.foldl (fun d k => d.addKey k.id k.spec) d).nodes = [] ∧
        (keys.foldl (fun d k => d.addKey k.id k.spec) d).edges = [] := by
    intro keys
    induction keys with
    | nil => exact fun _ h => h
    | cons k keys ih => exact fun d h => ih _ h
  exact kept o.keys .empty ⟨rfl, rfl⟩

theorem contents_eq : o.contents =
    { keys := o.declarations.keys
      nodes := o.nodes.map fun x => ⟨x.1, collected o.keys x.2⟩
      edges := o.edges.map fun x => ⟨x.1.1, x.1.2, collected o.keys x.2⟩
      sawGraph := true } := by
  rw [contents, foldl_addRecord, o.records_declarations.1, o.records_declarations.2]
  rfl

/-- The defaults of a document for a domain. -/
theorem mem_defaults {d : Domain} {name : String} {v : OrderedValue} :
    (name, v) ∈ o.contents.defaults d ↔ ∃ k ∈ o.keys, k.BelongsTo d ∧ k.name = name ∧
      ∃ w, k.default? = some w ∧ w.value = v := by
  have entry : ∀ id spec, (id, spec) ∈ o.contents.keys.entries ↔
      ∃ k ∈ o.keys, k.id = id ∧ k.spec = spec := by
    intro id spec
    rw [contents_eq, o.declarations.keys.increasing.mem_iff_lookup, ← SortedMap.get?, o.declares id,
      Option.map_eq_some_iff]
    simp only [declared?_eq_some_iff o.distinct, and_assoc]
  rw [Document.defaults, List.mem_filterMap]
  constructor
  · rintro ⟨⟨id, spec⟩, hentry, hv⟩
    obtain ⟨k, hk, -, rfl⟩ := (entry id spec).1 hentry
    simp only at hv
    split at hv
    case isTrue covers =>
      obtain ⟨w, hw, heq⟩ := Option.map_eq_some_iff.1 hv
      obtain ⟨u, hu, rfl⟩ := Option.map_eq_some_iff.1 hw
      obtain ⟨rfl, rfl⟩ := Prod.mk.inj heq
      exact ⟨k, hk, k.covers_spec.1 covers, rfl, u, hu, rfl⟩
    case isFalse => cases hv
  · rintro ⟨k, hk, belongs, rfl, w, hw, rfl⟩
    refine ⟨(k.id, k.spec), (entry _ _).2 ⟨k, hk, rfl, rfl⟩, ?_⟩
    simp only [k.covers_spec.2 belongs, if_true]
    rw [Declaration.spec, hw]
    rfl

/-- The default of a document for an attribute. -/
theorem lookup_defaults {d : Domain} (hd : d = .node ∨ d = .edge) (name : String) :
    (o.contents.defaults d).lookup name = (o.default? d name).map Scalar.value := by
  cases hdefault : o.default? d name with
  | none =>
    refine List.lookup_eq_none_iff.2 fun e he => ?_
    rw [bne_iff_ne]
    rintro rfl
    obtain ⟨k, hk, belongs, hname, w, hw, -⟩ := o.mem_defaults.1 he
    have none := List.findSome?_eq_none_iff.1 hdefault k hk
    rw [if_pos ⟨belongs, hname⟩, hw] at none
    cases none
  | some v =>
    obtain ⟨k, hk, hv⟩ := List.exists_of_findSome?_eq_some hdefault
    split at hv
    case isTrue h =>
      refine lookup_eq_some_of_mem (o.mem_defaults.2 ⟨k, hk, h.1, h.2, v, hv, rfl⟩) fun u hu => ?_
      obtain ⟨l, hl, belongs, hname, w, hw, rfl⟩ := o.mem_defaults.1 hu
      rw [o.agreeing d hd l hl k hk belongs h.1 (hname.trans h.2.symm) w v hw hv]
    case isFalse => cases hv

/-- The attributes of a record with defaults have the values that the outline says. -/
theorem get?_withDefaults_collected {d : Domain} (hd : d = .node ∨ d = .edge) (data : List Entry)
    (name : String) : (Document.withDefaults (o.contents.defaults d) (collected o.keys data)).get?
      name = (o.value? d data name).map fun v => v.value.1 := by
  rw [Document.get?_withDefaults, get?_collected, lookup_defaults o hd, value?, Option.map_or,
    Option.map_map, Option.map_map]
  rfl

/-- What is wrong with the listing of a document is what is wrong with the items. -/
theorem listingFault?_contents :
    listingFault? o.contents.listedNodes o.contents.listedEdges = o.fault? := by
  have ids : o.contents.listedNodes.map Node.id = o.nodes.map Prod.fst := by
    rw [contents_eq, Document.listedNodes, List.map_map, List.map_map]
    rfl
  rw [listingFault?, ids, fault?]
  congr 2
  rw [contents_eq, Document.listedEdges, List.findSome?_map, List.findSome?_map]
  rfl

end Outline

theorem Outline.listedNodes_contents (o : Outline) : o.contents.listedNodes =
    o.nodes.map fun x => ⟨x.1,
      Document.withDefaults (o.contents.defaults .node) (collected o.keys x.2)⟩ := by
  have records := congrArg Document.nodes o.contents_eq
  rw [Document.listedNodes, records, List.map_map]
  rfl

theorem Outline.listedEdges_contents (o : Outline) : o.contents.listedEdges =
    o.edges.map fun x => (x.1.1, x.1.2,
      Document.withDefaults (o.contents.defaults .edge) (collected o.keys x.2)) := by
  have records := congrArg Document.edges o.contents_eq
  rw [Document.listedEdges, records, List.map_map]
  rfl

/-- A graph with the nodes and the edges that the document of an outline lists is meant by it. -/
theorem Outline.denotes_of_listed (o : Outline) {g : Graph}
    (nodes : g.nodes = o.contents.listedNodes)
    (edges : g.edges = numbered 0 o.contents.listedEdges) : o.Denotes g := by
  rw [listedNodes_contents] at nodes
  rw [listedEdges_contents, numbered, List.zipIdx_map, List.map_map] at edges
  refine ⟨?_, ?_, ?_⟩
  · rw [nodes, List.forall₂_map_left_iff, List.forall₂_same]
    exact fun x _ => ⟨rfl, o.get?_withDefaults_collected (.inl rfl) x.2⟩
  · have indexed : o.edges = o.edges.zipIdx.map Prod.fst := (List.zipIdx_map_fst 0 _).symm
    rw [edges]
    conv => arg 3; rw [indexed]
    rw [List.forall₂_map_left_iff, List.forall₂_map_right_iff, List.forall₂_same]
    exact fun x _ => ⟨rfl, o.get?_withDefaults_collected (.inr rfl) x.1.2⟩
  · rw [edges, List.map_map, List.range_eq_range', ← List.zipIdx_map_snd 0 o.edges, List.map_map]
    rfl

/-- **A written document is read as the graph that it denotes.** If something is wrong with the
items of an outline, reading the document of the outline fails with it: with the first id of a node
that comes a second time, or else with the first end of an edge that is no node. Otherwise the graph
that is read is the one that the outline denotes. -/
theorem readGraph_text (o : Outline) (layout : Layout) :
    match o.fault? with
    | some e => readGraph (o.text layout) = .error (.graph e)
    | none => ∃ g, readGraph (o.text layout) = .ok g ∧ o.Denotes g := by
  have read : readGraph (o.text layout) = o.contents.toGraph := by
    rw [readGraph, o.read_text layout]
    rfl
  have saw : o.contents.sawGraph := by
    rw [o.contents_eq]
  have made := Graph.foldlM_listing o.contents.listedNodes o.contents.listedEdges
  rw [o.listingFault?_contents] at made
  rw [read, Document.toGraph_eq saw]
  cases hfault : o.fault? with
  | some e =>
    rw [hfault] at made
    simp only [made]
    rfl
  | none =>
    rw [hfault] at made
    obtain ⟨g, hg, nodes, edges⟩ := made
    simp only [hg]
    exact ⟨g, rfl, o.denotes_of_listed nodes edges⟩

namespace Outline.Denotes

variable {o : Outline} {g : Graph}

/-- The nodes of the graph that is meant, with the values of an attribute. -/
theorem map_nodes (h : o.Denotes g) (name : String) :
    (g.nodes.map fun n => (n.id, n.attributes.get? name)) =
      o.nodes.map fun x => (x.1, (o.value? .node x.2 name).map fun v => v.value.1) := by
  rw [← List.forall₂_eq_eq_eq, List.forall₂_map_left_iff, List.forall₂_map_right_iff]
  exact h.nodes.imp fun n x hx => Prod.ext hx.1 (hx.2 name)

/-- The edges of the graph that is meant, with the values of an attribute. -/
theorem map_edges (h : o.Denotes g) (name : String) :
    (g.edges.map fun e => ((e.source, e.target), e.attributes.get? name)) =
      o.edges.map fun x => (x.1, (o.value? .edge x.2 name).map fun v => v.value.1) := by
  rw [← List.forall₂_eq_eq_eq, List.forall₂_map_left_iff, List.forall₂_map_right_iff]
  exact h.edges.imp fun e x hx => Prod.ext hx.1 (hx.2 name)

end Outline.Denotes

/-- Keys with a default for the nodes, one for the edges and one for both. -/
def threeDefaults : List Declaration :=
  [⟨"d0", .node, .string, some "label", some (.string "none")⟩,
    ⟨"d1", .all, .boolean, some "pure", some (.boolean true)⟩,
    ⟨"weight", .edge, .int, none, some (.int 1)⟩]

/-- A document in which an edge comes first, an entry is overruled, a key is not declared and a
value needs escaping. -/
def edgeFirst : Outline where
  keys := threeDefaults
  items := [.edge "1" "2" [⟨"d1", .boolean false⟩],
    .node "1" [⟨"d0", .string "a < b & c"⟩, ⟨"line", .string "7"⟩],
    .node "2" [⟨"d0", .string "old"⟩, ⟨"d0", .string "new"⟩],
    .node "3" [], .edge "2" "3" [⟨"weight", .int (-4)⟩]]
  distinct := by decide
  typed := by decide
  agreeing := by
    intro d _ k hk l hl _ _ same v w hv hw
    have names : ∀ k ∈ threeDefaults, ∀ l ∈ threeDefaults,
        k.name = l.name → k.default? = l.default? := by decide
    exact Option.some_inj.1 (hv.symm.trans ((names k hk l hl same).trans hw))
  fitting := by decide

/-- Two blanks for each depth, on lines of their own. -/
def indented : Layout where
  prolog := true
  short := true
  gap depth := '\n' :: List.replicate (2 * depth) ' '
  blank := by
    intro depth c hc
    rcases List.mem_cons.1 hc with rfl | hc
    · rfl
    · rw [List.eq_of_mem_replicate hc]
      rfl

/-- A node has the defaults of the nodes and no other, and so has an edge. -/
theorem readGraph_text_edgeFirst : ∃ g, readGraph (edgeFirst.text indented) = .ok g ∧
    (g.nodes.map fun n => (n.id, n.attributes.get? "label")) =
      [("1", some (.string "a < b & c")), ("2", some (.string "new")),
        ("3", some (.string "none"))] ∧
    (g.nodes.map fun n => (n.id, n.attributes.get? "pure")) =
      [("1", some (.bool true)), ("2", some (.bool true)), ("3", some (.bool true))] ∧
    (g.nodes.map fun n => (n.id, n.attributes.get? "line")) =
      [("1", some (.string "7")), ("2", none), ("3", none)] ∧
    (g.nodes.map fun n => (n.id, n.attributes.get? "weight")) =
      [("1", none), ("2", none), ("3", none)] ∧
    (g.edges.map fun e => ((e.source, e.target), e.attributes.get? "weight")) =
      [(("1", "2"), some (.int 1)), (("2", "3"), some (.int (-4)))] ∧
    (g.edges.map fun e => ((e.source, e.target), e.attributes.get? "pure")) =
      [(("1", "2"), some (.bool false)), (("2", "3"), some (.bool true))] ∧
    (g.edges.map fun e => ((e.source, e.target), e.attributes.get? "label")) =
      [(("1", "2"), none), (("2", "3"), none)] := by
  have sound : edgeFirst.fault? = none := by decide
  have made := readGraph_text edgeFirst indented
  rw [sound] at made
  obtain ⟨g, hg, meant⟩ := made
  exact ⟨g, hg, meant.map_nodes "label", meant.map_nodes "pure", meant.map_nodes "line",
    meant.map_nodes "weight", meant.map_edges "weight", meant.map_edges "pure",
    meant.map_edges "label"⟩

end GraphML

end GraphCompare
