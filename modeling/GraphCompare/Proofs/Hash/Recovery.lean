import Mathlib
import GraphCompare.Proofs.Hash.Histogram
import GraphCompare.Proofs.Hash.Histories
import GraphCompare.Proofs.Hash.Layout
import GraphCompare.Proofs.Hash.Listing

/-!
# What the hashed text tells

The hash of a graph is the digest of a text, the listing of the label counts of all rounds without
its layout (`Graph.hashedText`). Nothing is lost on the way to it: the text gives back the labels
that the nodes have after each round, up to their order (`Graph.hashedText_eq_iff`). So graphs that
differ in the labels of some round have one hash only if two texts have one digest.

The listing can be read back entry by entry (`eq_of_withoutLayout_listing`). The counts of all
rounds stand in it with nothing between the rounds, but the counts of each round add up to the
number of nodes, and no count is zero, which shows where a round ends (`append_inj_of_sum`). The
number of nodes itself comes from the sum over all rounds.
-/

namespace GraphCompare

/-! ## Telling the rounds apart -/

namespace Histogram

/-- The counts of a column add up to its length. -/
theorem sum_labelCounts (labels : List String) :
    ((labelCounts labels).map Prod.snd).sum = labels.length := by
  have sorted : ((labels.toFinset.sort (· ≤ ·)).map fun l => labels.count l).sum =
      ∑ l ∈ labels.toFinset, labels.count l := by
    rw [Finset.sum_eq_multiset_sum, ← Finset.sort_eq labels.toFinset (· ≤ ·), Multiset.map_coe,
      Multiset.sum_coe]
  rw [labelCounts, List.map_map]
  exact sorted.trans (List.sum_toFinset_count_eq_length labels)

/-- No label has the count zero. -/
theorem pos_of_mem_labelCounts {labels : List String} {e : String × ℕ}
    (h : e ∈ labelCounts labels) : 0 < e.2 := by
  obtain ⟨mem, count⟩ := mem_labelCounts.1 h
  rw [← count]
  exact List.count_pos_iff.2 mem

/-- The counts of a column tell its labels up to their order. -/
theorem perm_of_labelCounts {labels labels' : List String}
    (h : labelCounts labels = labelCounts labels') : labels.Perm labels' := by
  have found : ∀ x n, x ∈ labels ∧ labels.count x = n ↔ x ∈ labels' ∧ labels'.count x = n := by
    intro x n
    have same : (x, n) ∈ labelCounts labels ↔ x ∈ labels ∧ labels.count x = n := mem_labelCounts
    rw [h, mem_labelCounts] at same
    exact same.symm
  refine List.perm_iff_count.2 fun x => ?_
  by_cases hx : x ∈ labels
  · exact ((found x _).1 ⟨hx, rfl⟩).2.symm
  · have hx' : x ∉ labels' := fun hx' => hx ((found x _).2 ⟨hx', rfl⟩).1
    rw [List.count_eq_zero_of_not_mem hx, List.count_eq_zero_of_not_mem hx']

end Histogram

/-- Two lists with one sum of counts that stand at the front of one list are the same, where no
count is zero. -/
theorem append_inj_of_sum {l l' r r' : List (String × ℕ)} (hl : ∀ e ∈ l, 0 < e.2)
    (hl' : ∀ e ∈ l', 0 < e.2) (sum : (l.map Prod.snd).sum = (l'.map Prod.snd).sum)
    (h : l ++ r = l' ++ r') : l = l' ∧ r = r' := by
  have nothing : ∀ {more : List (String × ℕ)}, (∀ e ∈ more, 0 < e.2) →
      (more.map Prod.snd).sum = 0 → more = [] := by
    intro more positive zero
    cases more with
    | nil => rfl
    | cons e more =>
      have := positive e List.mem_cons_self
      rw [List.map_cons, List.sum_cons] at zero
      omega
  rcases List.append_eq_append_iff.1 h with ⟨more, rfl, rfl⟩ | ⟨more, rfl, rfl⟩
  · rw [List.map_append, List.sum_append] at sum
    rw [nothing (fun e he => hl' e (List.mem_append_right _ he)) (by omega)]
    exact ⟨(List.append_nil l).symm, rfl⟩
  · rw [List.map_append, List.sum_append] at sum
    rw [nothing (fun e he => hl e (List.mem_append_right _ he)) (by omega)]
    exact ⟨List.append_nil l', rfl⟩

/-- The counts of a number of columns, one column behind the other. -/
def countsOf (columns : List (List String)) : List (String × ℕ) :=
  columns.flatMap Histogram.labelCounts

/-- Columns with the same labels in some order have the same counts. -/
theorem countsOf_eq_of_perm {columns columns' : List (List String)}
    (h : List.Forall₂ List.Perm columns columns') : countsOf columns = countsOf columns' := by
  induction h with
  | nil => rfl
  | cons first _ ih =>
    rw [countsOf, countsOf, List.flatMap_cons, List.flatMap_cons, ← Histogram.entries_ofLabels,
      Histogram.ofLabels_eq_of_perm first, Histogram.entries_ofLabels]
    exact congrArg _ ih

/-- The counts of columns of one length add up to the number of labels in all of them. -/
theorem sum_countsOf {columns : List (List String)} {n : ℕ} (h : ∀ c ∈ columns, c.length = n) :
    ((countsOf columns).map Prod.snd).sum = columns.length * n := by
  induction columns with
  | nil => simp [countsOf]
  | cons c columns ih =>
    rw [List.forall_mem_cons] at h
    rw [countsOf, List.flatMap_cons, List.map_append, List.sum_append, Histogram.sum_labelCounts,
      ← countsOf, ih h.2, h.1, List.length_cons, Nat.succ_mul, Nat.add_comm]

/-- Columns of one length are told by their counts, each up to its order. -/
theorem forall₂_perm_of_countsOf {columns columns' : List (List String)} {n : ℕ}
    (h : ∀ c ∈ columns, c.length = n) (h' : ∀ c ∈ columns', c.length = n)
    (length : columns.length = columns'.length) (same : countsOf columns = countsOf columns') :
    List.Forall₂ List.Perm columns columns' := by
  induction columns generalizing columns' with
  | nil =>
    rw [List.eq_nil_of_length_eq_zero length.symm]
    exact .nil
  | cons c columns ih =>
    cases columns' with
    | nil => cases length
    | cons c' columns' =>
      rw [List.forall_mem_cons] at h h'
      have sum : ((Histogram.labelCounts c).map Prod.snd).sum =
          ((Histogram.labelCounts c').map Prod.snd).sum := by
        rw [Histogram.sum_labelCounts, Histogram.sum_labelCounts, h.1, h'.1]
      obtain ⟨first, rest⟩ := append_inj_of_sum (fun _ => Histogram.pos_of_mem_labelCounts)
        (fun _ => Histogram.pos_of_mem_labelCounts) sum same
      exact .cons (Histogram.perm_of_labelCounts first)
        (ih h.2 h'.2 (Nat.succ.inj length) rest)

/-! ## The text that is hashed -/

/-- Two inputs that differ and have one digest of a size. -/
def Blake3.Collide (size : ℕ) (input input' : List UInt8) : Prop :=
  input ≠ input' ∧ Blake3.hash input size = Blake3.hash input' size

/-- The bytes of an array as a list. -/
theorem toList_byteArray (bytes : ByteArray) : bytes.toList = bytes.data.toList := by
  have behind : ∀ i r, ByteArray.toList.loop bytes i r = r.reverse ++ bytes.data.toList.drop i := by
    intro i r
    fun_induction ByteArray.toList.loop bytes i r with
    | case1 i r hi ih =>
      have inside : i < bytes.data.toList.length := by simpa using hi
      rw [ih, List.drop_eq_getElem_cons inside]
      simp [ByteArray.get!, hi]
    | case2 i r hi =>
      have outside : bytes.data.toList.length ≤ i := by simpa using hi
      rw [List.drop_eq_nil_of_le outside, List.append_nil]
  rw [ByteArray.toList, behind]
  rfl

/-- Texts with the same bytes are the same. -/
theorem eq_of_toUTF8_toList {s t : String} (h : s.toUTF8.toList = t.toUTF8.toList) : s = t := by
  rw [toList_byteArray, toList_byteArray, Array.toList_inj, ← ByteArray.ext_iff] at h
  exact String.toByteArray_inj.1 h

/-- The two digits of a byte tell it. -/
theorem hexByte_injective : Function.Injective hexByte := by
  have digits : ∀ m < 16, ∀ n < 16, Nat.digitChar m = Nat.digitChar n → m = n := by decide
  intro b b' h
  have hb := b.toNat_lt
  have hb' := b'.toNat_lt
  simp only [hexByte, List.cons.injEq, and_true] at h
  have high := digits _ (by omega) _ (by omega) h.1
  have low := digits _ (by omega) _ (by omega) h.2
  exact UInt8.toNat_inj.1 (by omega)

/-- The digits of a list of bytes tell the bytes. -/
theorem eq_of_flatMap_hexByte {l l' : List UInt8} (h : l.flatMap hexByte = l'.flatMap hexByte) :
    l = l' := by
  have nonempty : ∀ b, ¬hexByte b <+: [] := fun b hb => by simp [hexByte] at hb
  have front : ∀ b b' r r', hexByte b ++ r = hexByte b' ++ r' → b = b' ∧ r = r' := by
    intro b b' r r' same
    obtain ⟨first, rest⟩ := List.append_inj same (length_hexByte b)
    exact ⟨hexByte_injective first, rest⟩
  exact (flatMap_append_inj (t := []) (u := []) (fun b _ b' _ => front b b')
    (fun b _ => nonempty b) (fun b _ => nonempty b) (by rw [h])).1

/-- Equal fingerprints are equal digests of one size. -/
theorem digest_eq_of_fingerprint_eq {size size' : ℕ} {s t : String}
    (h : fingerprint size s = fingerprint size' t) : size = size' ∧
      Blake3.hash (withoutLayout s).toUTF8.toList size =
        Blake3.hash (withoutLayout t).toUTF8.toList size := by
  have length := (isFingerprint_fingerprint size s).length
  rw [h, (isFingerprint_fingerprint size' t).length] at length
  obtain rfl : size = size' := by omega
  exact ⟨rfl, eq_of_flatMap_hexByte (String.ofList_injective h)⟩

namespace Graph

section
variable (g : Graph) (o : HashOptions)

/-- The text whose digest is the hash: the listing of the label counts of all rounds, without its
layout. -/
def hashedText : String :=
  withoutLayout (listing ((g.hashedColumns o).flatMap fun c => (Histogram.ofLabels c).entries))

/-- The hash is the fingerprint of the hashed text. -/
theorem hash_eq_fingerprint : g.hash o = fingerprint o.digestSize (g.hashedText o) :=
  (g.hash_eq o).trans (fingerprint_withoutLayout _ _).symm

variable {g o}

/-- After a round every label is a fingerprint. -/
theorem isFingerprint_of_mem_columns {c : List String} (hc : c ∈ g.columns o) {s : String}
    (hs : s ∈ c) : IsFingerprint o.digestSize s := by
  rw [columns_eq_map] at hc
  obtain ⟨j, -, rfl⟩ := List.mem_map.1 hc
  obtain ⟨i, hi, rfl⟩ := List.getElem_of_mem hs
  have label := g.isFingerprint_labelsAfter o (length_labelsAfter g o _ ▸ hi) j
  rwa [List.getElem?_eq_getElem hi] at label

/-- After a round every node has a label. -/
theorem length_of_mem_columns {c : List String} (hc : c ∈ g.columns o) :
    c.length = g.nodes.length := by
  rw [columns_eq_map] at hc
  obtain ⟨j, -, rfl⟩ := List.mem_map.1 hc
  exact length_labelsAfter g o _

theorem length_columns : (g.columns o).length = o.iterations := by
  rw [columns_eq_map, List.length_map, List.length_range]

/-- Where there are rounds, the hashed text is that of the labels after each of them. -/
theorem hashedText_of_rounds (h : 1 ≤ o.iterations) :
    g.hashedText o = withoutLayout (listing (countsOf (g.columns o))) := by
  have columns : g.hashedColumns o = g.columns o := by
    rw [hashedColumns]
    split
    case h_1 none => omega
    case h_2 => rfl
  rw [hashedText, columns, countsOf, List.flatMap_congr fun c _ => Histogram.entries_ofLabels c]

/-- The labels in the listing of the rounds are hexadecimal. -/
theorem isHexText_of_mem_countsOf {e : String × ℕ} (he : e ∈ countsOf (g.columns o)) :
    IsHexText e.1 := by
  obtain ⟨c, hc, he⟩ := List.mem_flatMap.1 he
  exact (isFingerprint_of_mem_columns hc (Histogram.mem_labelCounts.1 he).1).hex

end

/-- Equal texts have columns with the same labels, in some order, and so many nodes as each
other. -/
theorem labels_of_hashedText_eq {g h : Graph} {o p : HashOptions}
    (rounds : o.iterations = p.iterations) (some : 1 ≤ o.iterations)
    (same : g.hashedText o = h.hashedText p) :
    g.nodeCount = h.nodeCount ∧ List.Forall₂ List.Perm (g.columns o) (h.columns p) := by
  rw [hashedText_of_rounds some, hashedText_of_rounds (rounds ▸ some)] at same
  have counts : countsOf (g.columns o) = countsOf (h.columns p) :=
    eq_of_withoutLayout_listing (fun _ => isHexText_of_mem_countsOf)
      (fun _ => isHexText_of_mem_countsOf) same
  have nodes : o.iterations * g.nodes.length = o.iterations * h.nodes.length := by
    have sum := sum_countsOf fun _ => length_of_mem_columns (g := g) (o := o)
    rw [counts, sum_countsOf fun _ => length_of_mem_columns (g := h) (o := p), length_columns,
      length_columns, ← rounds] at sum
    exact sum.symm
  have size : g.nodes.length = h.nodes.length := Nat.eq_of_mul_eq_mul_left some nodes
  refine ⟨size, forall₂_perm_of_countsOf (fun _ => length_of_mem_columns) (fun c hc => ?_) ?_ counts⟩
  · rw [length_of_mem_columns hc, size]
  · rw [length_columns, length_columns, rounds]

/-- **The hashed text tells the labels.** With one number of rounds, and at least one, two hashed
texts are equal exactly if there are as many nodes and after each round the nodes have the same
labels, in some order. Graphs whose labels differ in some round have one hash only if their hashed
texts, which then differ, have one digest. -/
theorem hashedText_eq_iff {g h : Graph} {o p : HashOptions} (rounds : o.iterations = p.iterations)
    (some : 1 ≤ o.iterations) :
    (g.hashedText o = h.hashedText p ↔
      g.nodeCount = h.nodeCount ∧ List.Forall₂ List.Perm (g.columns o) (h.columns p)) ∧
    (¬ List.Forall₂ List.Perm (g.columns o) (h.columns p) → g.hash o = h.hash p →
      o.digestSize = p.digestSize ∧ Blake3.Collide o.digestSize
        (g.hashedText o).toUTF8.toList (h.hashedText p).toUTF8.toList) := by
  refine ⟨⟨labels_of_hashedText_eq rounds some, fun labels => ?_⟩, fun differ same => ?_⟩
  · rw [hashedText_of_rounds some, hashedText_of_rounds (rounds ▸ some),
      countsOf_eq_of_perm labels.2]
  · rw [hash_eq_fingerprint, hash_eq_fingerprint] at same
    obtain ⟨size, digests⟩ := digest_eq_of_fingerprint_eq same
    have bare : ∀ (g : Graph) (o : HashOptions),
        withoutLayout (g.hashedText o) = g.hashedText o := fun _ _ => withoutLayout_withoutLayout _
    rw [bare, bare] at digests
    refine ⟨size, fun input => differ ?_, digests⟩
    exact (labels_of_hashedText_eq rounds some (eq_of_toUTF8_toList input)).2

/-- One round over labels, and digests of a single byte. -/
def briefly : HashOptions := HashSettings.options { iterations := 1, digestSize := 1 }

/-- A graph of one node. -/
def lone (label : String) : Graph where
  nodes := [⟨"v", .ofLabel label⟩]
  arcs := []
  nodup_ids := List.nodup_singleton _
  arcs_inside := nofun

/-- Digests of a single byte collide soon: here two labels differ and the hashes do not. -/
theorem hashedText_call_visit :
    (briefly.iterations = briefly.iterations ∧ 1 ≤ briefly.iterations) ∧
      (lone "call").hash briefly = (lone "visit").hash briefly ∧
      (lone "call").hashedText briefly ≠ (lone "visit").hashedText briefly ∧
      Blake3.Collide 1 ((lone "call").hashedText briefly).toUTF8.toList
        ((lone "visit").hashedText briefly).toUTF8.toList := by
  have call : (lone "call").columns briefly = [["69"]] := by decide +kernel
  have visit : (lone "visit").columns briefly = [["de"]] := by decide +kernel
  have hash : (lone "call").hash briefly = (lone "visit").hash briefly := by decide +kernel
  have differ : ¬ List.Forall₂ List.Perm ((lone "call").columns briefly)
      ((lone "visit").columns briefly) := by
    rw [call, visit]
    rintro (_ | ⟨perm, -⟩)
    exact absurd perm (by decide)
  have told := hashedText_eq_iff (g := lone "call") (h := lone "visit") (o := briefly)
    (p := briefly) rfl (by decide)
  exact ⟨⟨rfl, by decide⟩, hash, fun text => differ (told.1.1 text).2, (told.2 differ hash).2⟩

end Graph

end GraphCompare
