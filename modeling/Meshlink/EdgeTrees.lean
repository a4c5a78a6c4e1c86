import Meshlink.MeshState
import Meshlink.SplayTrees
import Meshlink.Systems

/-!
The edge trees of edge.c: every edge is in the tree of the node it starts from, ordered
by the name of its target, and in the tree of all edges, ordered by its weight. The
weights are 32-bit integers that are compared by subtracting them. As long as no
difference overflows the two kinds of trees hold the same edges, and the reverse of an
edge is the edge in the opposite direction.
-/
namespace Meshlink.EdgeTrees

open Function SplayTrees Systems
open MeshState (EdgeId strcmp)

section Model

/-- The nodes that an edge connects are told apart by their names. -/
structure Edge where
  source : String
  target : String
  weight : Int32
  reverse : Option EdgeId

/-- The edges in memory, mesh->edges, and the edge_tree of each node. -/
structure Table where
  edge : EdgeId → Edge
  next : EdgeId
  edges : SplayTree EdgeId
  edgeTree : String → SplayTree EdgeId

def edgeCompare (g : Table) (a b : EdgeId) : ℤ := strcmp (g.edge a).target (g.edge b).target

/-- The difference of the weights is an int. -/
def edgeWeightCompare (g : Table) (a b : EdgeId) : ℤ :=
  let result := ((g.edge a).weight - (g.edge b).weight).toInt
  if result ≠ 0 then result
  else
    let result := strcmp (g.edge a).source (g.edge b).source
    if result ≠ 0 then result else strcmp (g.edge a).target (g.edge b).target

def lookupEdge (source target : String) (g : Table) : Option EdgeId × Table :=
  let (found, tree) := splaySearch (fun k => strcmp target (g.edge k).target) (g.edgeTree source)
  (found, {g with edgeTree := update g.edgeTree source tree})

def setReverse (k : EdgeId) (reverse : Option EdgeId) (g : Table) : Table :=
  {g with edge := update g.edge k {g.edge k with reverse := reverse}}

/-- new_edge, with the fields that its caller fills in. -/
def allocate (source target : String) (weight : Int32) (g : Table) : Table :=
  {g with
    edge := update g.edge g.next ⟨source, target, weight, none⟩
    next := g.next + 1}

def insertEdge (e : EdgeId) (g : Table) : Table :=
  {g with
    edges := splayInsert (edgeWeightCompare g) e g.edges
    edgeTree := update g.edgeTree (g.edge e).source
      (splayInsert (edgeCompare g) e (g.edgeTree (g.edge e).source))}

def linkReverse (e : EdgeId) (reverse : Option EdgeId) (g : Table) : Table :=
  match reverse with
  | none => setReverse e none g
  | some r => setReverse r (some e) (setReverse e (some r) g)

/-- edge_add of a new edge. -/
def edgeAdd (source target : String) (weight : Int32) (g : Table) : Table :=
  let inserted := insertEdge g.next (allocate source target weight g)
  let (reverse, found) := lookupEdge target source inserted
  linkReverse g.next reverse found

def deleteEdge (e : EdgeId) (g : Table) : Table :=
  {g with
    edges := splayDelete (edgeWeightCompare g) e g.edges
    edgeTree := update g.edgeTree (g.edge e).source
      (splayDelete (edgeCompare g) e (g.edgeTree (g.edge e).source))}

def unlinkReverse (e : EdgeId) (g : Table) : Table :=
  match (g.edge e).reverse with
  | none => g
  | some r => setReverse r none g

def edgeDel (e : EdgeId) (g : Table) : Table := deleteEdge e (unlinkReverse e g)

end Model

section Runs

inductive Event
  | add (source target : String) (weight : Int32)
  | del (e : EdgeId)
  | lookup (source target : String)

def step (g : Table) : Event → Table
  | .add source target weight => edgeAdd source target weight g
  | .del e => edgeDel e g
  | .lookup source target => (lookupEdge source target g).2

def noEdges : Table where
  edge := fun _ => ⟨"", "", 0, none⟩
  next := 0
  edges := .leaf
  edgeTree := fun _ => .leaf

/-- The edge is in the tree of some node. -/
def Held (g : Table) (k : EdgeId) : Prop := ∃ n, k ∈ (g.edgeTree n).toList

def Opposite (g : Table) (k r : EdgeId) : Prop :=
  (g.edge r).source = (g.edge k).target ∧ (g.edge r).target = (g.edge k).source

/-- The trees hold the same edges, and every edge knows its reverse. -/
structure Consistent (g : Table) : Prop where
  same : ∀ k, k ∈ g.edges.toList ↔ Held g k
  reverse : ∀ k, Held g k → ∀ r, (g.edge k).reverse = some r ↔ Held g r ∧ Opposite g k r

/-- An edge is only added when there is none between the same nodes, and only an edge that is
there is deleted. -/
def Proper (g : Table) : Event → Prop
  | .add source target _ => ∀ k, Held g k → ¬((g.edge k).source = source ∧
      (g.edge k).target = target)
  | .del e => Held g e
  | .lookup _ _ => True

/-- The weight of an edge that is added can be subtracted from that of any other edge. -/
def Fits (g : Table) : Event → Prop
  | .add _ _ weight => ∀ k ∈ g.edges.toList,
      -2 ^ 31 < weight.toInt - (g.edge k).weight.toInt ∧
        weight.toInt - (g.edge k).weight.toInt < 2 ^ 31
  | .del _ => True
  | .lookup _ _ => True

end Runs

section Comparing

/-- The order of the tree of a node. -/
def byTarget (g : Table) (k : EdgeId) : String := (g.edge k).target

/-- The order of the tree of all edges. -/
def byWeight (g : Table) (k : EdgeId) : ℤ ×ₗ String ×ₗ String :=
  toLex ((g.edge k).weight.toInt, toLex ((g.edge k).source, (g.edge k).target))

theorem strcmp_neg {a b : String} : strcmp a b < 0 ↔ a < b := by
  unfold strcmp
  split
  case isTrue h => simp [h]
  case isFalse h => split <;> simp [h]

theorem strcmp_eq_zero {a b : String} : strcmp a b = 0 ↔ a = b := by
  unfold strcmp
  split
  case isTrue h => simp [ne_of_lt h]
  case isFalse h => split <;> simp_all

theorem compares_target (g : Table) (target : String) (xs : List EdgeId) :
    Compares (byTarget g) (fun k => strcmp target (g.edge k).target) target xs :=
  fun _ _ => ⟨strcmp_neg, strcmp_eq_zero⟩

/-- A difference that does not overflow tells which of the weights is smaller. -/
theorem toInt_sub_of_fits {a b : Int32} (hlow : -2 ^ 31 < a.toInt - b.toInt)
    (hhigh : a.toInt - b.toInt < 2 ^ 31) : (a - b).toInt = a.toInt - b.toInt := by
  rw [Int32.toInt_sub]
  exact Int.bmod_eq_of_le (by omega) (by omega)

theorem compares_weight {g : Table} {a : EdgeId} {xs : List EdgeId}
    (hfits : ∀ k ∈ xs, -2 ^ 31 < (g.edge a).weight.toInt - (g.edge k).weight.toInt ∧
      (g.edge a).weight.toInt - (g.edge k).weight.toInt < 2 ^ 31) :
    Compares (byWeight g) (edgeWeightCompare g a) (byWeight g a) xs := by
  intro k hk
  obtain ⟨hlow, hhigh⟩ := hfits k hk
  unfold edgeWeightCompare byWeight
  rw [toInt_sub_of_fits hlow hhigh]
  simp only [Prod.Lex.toLex_lt_toLex, EmbeddingLike.apply_eq_iff_eq, Prod.mk.injEq]
  split
  case isTrue hne =>
    constructor <;> constructor <;> omega
  case isFalse heq =>
    have hweight : (g.edge a).weight.toInt = (g.edge k).weight.toInt := by omega
    simp only [hweight, lt_self_iff_false, true_and, false_or]
    split
    case isTrue hne =>
      rw [ne_eq, strcmp_eq_zero] at hne
      simp [hne, strcmp_neg, strcmp_eq_zero]
    case isFalse heq =>
      rw [ne_eq, not_not, strcmp_eq_zero] at heq
      simp [heq, strcmp_neg, strcmp_eq_zero]

end Comparing

section Placement

/-- The tree of a node holds edges in memory that start from the node. This is so whatever
the comparison of the weights does. -/
structure Placed (g : Table) : Prop where
  allocated : ∀ k, Held g k → k < g.next
  sources : ∀ n, ∀ k ∈ (g.edgeTree n).toList, (g.edge k).source = n

variable {g g' : Table} {k e : EdgeId}

theorem Placed.mem (h : Placed g) (hk : Held g k) : k ∈ (g.edgeTree (g.edge k).source).toList := by
  obtain ⟨n, hn⟩ := hk
  rw [h.sources n k hn]
  exact hn

/-- What an edge is does not change while it is in a tree; its reverse may. -/
def SameEdge (a b : Edge) : Prop := a.source = b.source ∧ a.target = b.target ∧ a.weight = b.weight

theorem held_congr (htrees : ∀ n, (g'.edgeTree n).toList = (g.edgeTree n).toList) :
    Held g' k ↔ Held g k := by
  unfold Held
  simp only [htrees]

theorem sameEdge_setReverse (e : EdgeId) (reverse : Option EdgeId) (k : EdgeId) :
    SameEdge ((setReverse e reverse g).edge k) (g.edge k) := by
  by_cases hk : k = e
  · rw [hk]
    dsimp only [setReverse]
    rw [update_self]
    exact ⟨rfl, rfl, rfl⟩
  · dsimp only [setReverse]
    rw [update_of_ne hk]
    exact ⟨rfl, rfl, rfl⟩

theorem sameEdge_unlinkReverse (e k : EdgeId) :
    SameEdge ((unlinkReverse e g).edge k) (g.edge k) := by
  unfold unlinkReverse
  split
  · exact ⟨rfl, rfl, rfl⟩
  · exact sameEdge_setReverse _ none k

theorem toList_lookupEdge (source target n : String) :
    ((lookupEdge source target g).2.edgeTree n).toList = (g.edgeTree n).toList := by
  dsimp only [lookupEdge]
  by_cases hn : n = source
  · rw [hn, update_self, toList_splaySearch]
  · rw [update_of_ne hn]

/-- The trees hold the same edges, and the edges are what they were but for the reverses. -/
structure Framed (g g' : Table) : Prop where
  next : g.next ≤ g'.next
  edge : ∀ k < g.next, SameEdge (g'.edge k) (g.edge k)
  trees : ∀ n, (g'.edgeTree n).toList = (g.edgeTree n).toList
  edges : g'.edges.toList = g.edges.toList

theorem framed_setReverse (e : EdgeId) (reverse : Option EdgeId) :
    Framed g (setReverse e reverse g) :=
  ⟨Nat.le_refl _, fun k _ => sameEdge_setReverse e reverse k, fun _ => rfl, rfl⟩

theorem framed_unlinkReverse (e : EdgeId) : Framed g (unlinkReverse e g) := by
  refine ⟨?_, fun k _ => sameEdge_unlinkReverse e k, ?_, ?_⟩
  all_goals
    unfold unlinkReverse
    split <;> simp [setReverse]

theorem framed_lookupEdge (source target : String) : Framed g (lookupEdge source target g).2 :=
  ⟨Nat.le_refl _, fun _ _ => ⟨rfl, rfl, rfl⟩, toList_lookupEdge source target, rfl⟩

theorem framed_allocate (source target : String) (weight : Int32) :
    Framed g (allocate source target weight g) := by
  refine ⟨Nat.le_succ _, fun k hk => ?_, fun _ => rfl, rfl⟩
  dsimp only [allocate]
  rw [update_of_ne hk.ne]
  exact ⟨rfl, rfl, rfl⟩

theorem Placed.frame (h : Placed g) (hframed : Framed g g') : Placed g' where
  allocated := fun k hk =>
    lt_of_lt_of_le (h.allocated k ((held_congr hframed.trees).mp hk)) hframed.next
  sources := by
    intro n k hk
    rw [hframed.trees] at hk
    rw [(hframed.edge k (h.allocated k ⟨n, hk⟩)).1]
    exact h.sources n k hk

theorem Placed.linkReverse (h : Placed g) (e : EdgeId) (reverse : Option EdgeId) :
    Placed (linkReverse e reverse g) := by
  cases reverse with
  | none => exact h.frame (framed_setReverse e none)
  | some r => exact (h.frame (framed_setReverse e _)).frame (framed_setReverse r _)

theorem Placed.insertEdge (h : Placed g) (he : e < g.next) : Placed (insertEdge e g) := by
  have hmem : ∀ n, ∀ k ∈ ((EdgeTrees.insertEdge e g).edgeTree n).toList,
      n = (g.edge e).source ∧ k = e ∨ k ∈ (g.edgeTree n).toList := by
    intro n k hk
    dsimp only [EdgeTrees.insertEdge] at hk
    by_cases hn : n = (g.edge e).source
    · rw [hn, update_self] at hk
      rw [hn]
      exact (mem_of_mem_splayInsert hk).imp (fun hk => ⟨rfl, hk⟩) id
    · rw [update_of_ne hn] at hk
      exact .inr hk
  constructor
  · rintro k ⟨n, hk⟩
    rcases hmem n k hk with ⟨-, rfl⟩ | hk
    · exact he
    · exact h.allocated k ⟨n, hk⟩
  · intro n k hk
    rcases hmem n k hk with ⟨rfl, rfl⟩ | hk
    · rfl
    · exact h.sources n k hk

theorem Placed.deleteEdge (h : Placed g) (e : EdgeId) : Placed (deleteEdge e g) := by
  have hmem : ∀ n, ∀ k ∈ ((EdgeTrees.deleteEdge e g).edgeTree n).toList,
      k ∈ (g.edgeTree n).toList := by
    intro n k hk
    dsimp only [EdgeTrees.deleteEdge] at hk
    by_cases hn : n = (g.edge e).source
    · rw [hn, update_self] at hk
      rw [hn]
      exact mem_of_mem_splayDelete hk
    · rw [update_of_ne hn] at hk
      exact hk
  refine ⟨?_, fun n k hk => h.sources n k (hmem n k hk)⟩
  rintro k ⟨n, hk⟩
  exact h.allocated k ⟨n, hmem n k hk⟩

theorem not_held_noEdges (k : EdgeId) : ¬Held noEdges k := by
  rintro ⟨n, hk⟩
  cases hk

theorem placed_noEdges : Placed noEdges where
  allocated := fun k hk => absurd hk (not_held_noEdges k)
  sources := fun n k hk => absurd ⟨n, hk⟩ (not_held_noEdges k)

theorem placed_step (h : Placed g) (ev : Event) : Placed (step g ev) := by
  cases ev with
  | add source target weight =>
    have hinserted := (h.frame (framed_allocate source target weight)).insertEdge
      (Nat.lt_succ_self g.next)
    exact (hinserted.frame (framed_lookupEdge target source)).linkReverse _ _
  | del e => exact (h.frame (framed_unlinkReverse e)).deleteEdge e
  | lookup source target => exact h.frame (framed_lookupEdge source target)

end Placement

section Trees

def weightOf (g : Table) (k : EdgeId) : ℤ := (g.edge k).weight.toInt

/-- The trees are in order and hold the same edges. -/
structure Trees (g : Table) : Prop extends Placed g where
  targets : ∀ n, Ordered (byTarget g) (g.edgeTree n).toList
  weights : Ordered (byWeight g) g.edges.toList
  fits : ∀ j ∈ g.edges.toList, ∀ k ∈ g.edges.toList,
    -2 ^ 31 < weightOf g j - weightOf g k ∧ weightOf g j - weightOf g k < 2 ^ 31
  same : ∀ k, k ∈ g.edges.toList ↔ Held g k

variable {g g' : Table} {j k e : EdgeId}

/-- There is one edge from a node to another. -/
theorem Trees.unique (h : Trees g) (hj : Held g j) (hk : Held g k)
    (hsource : (g.edge j).source = (g.edge k).source)
    (htarget : (g.edge j).target = (g.edge k).target) : j = k := by
  have hmem := h.mem hj
  rw [hsource] at hmem
  exact (h.targets (g.edge k).source).inj hmem (h.mem hk) htarget

theorem ordered_congr {K : Type} [LinearOrder K] {key key' : EdgeId → K} {xs : List EdgeId}
    (hkey : ∀ k ∈ xs, key' k = key k) (h : Ordered key xs) : Ordered key' xs := by
  refine List.Pairwise.imp_of_mem ?_ h
  intro a b ha hb hlt
  rw [hkey a ha, hkey b hb]
  exact hlt

/-- Splaying, setting a reverse and allocating an edge leave the trees in order. -/
theorem Trees.frame (h : Trees g) (hframed : Framed g g') : Trees g' := by
  have hheld : ∀ k, Held g k → SameEdge (g'.edge k) (g.edge k) :=
    fun k hk => hframed.edge k (h.allocated k hk)
  have hmem : ∀ k ∈ g.edges.toList, SameEdge (g'.edge k) (g.edge k) :=
    fun k hk => hheld k ((h.same k).mp hk)
  refine ⟨h.toPlaced.frame hframed, ?_, ?_, ?_, ?_⟩
  · intro n
    rw [hframed.trees]
    exact ordered_congr (fun k hk => (hheld k ⟨n, hk⟩).2.1) (h.targets n)
  · rw [hframed.edges]
    refine ordered_congr (fun k hk => ?_) h.weights
    obtain ⟨hsource, htarget, hweight⟩ := hmem k hk
    unfold byWeight
    rw [hsource, htarget, hweight]
  · rw [hframed.edges]
    intro j hj k hk
    unfold weightOf
    rw [(hmem j hj).2.2, (hmem k hk).2.2]
    exact h.fits j hj k hk
  · intro k
    rw [hframed.edges, held_congr hframed.trees]
    exact h.same k

theorem Trees.linkReverse (h : Trees g) (e : EdgeId) (reverse : Option EdgeId) :
    Trees (linkReverse e reverse g) := by
  cases reverse with
  | none => exact h.frame (framed_setReverse e none)
  | some r => exact (h.frame (framed_setReverse e _)).frame (framed_setReverse r _)

/-- The search finds the edge between the two nodes. -/
theorem Trees.lookupEdge_eq_some (h : Trees g) {source target : String} :
    (EdgeTrees.lookupEdge source target g).1 = some k ↔
      Held g k ∧ (g.edge k).source = source ∧ (g.edge k).target = target := by
  have hsearch := search_eq_some (x := k) (h.targets source)
    (compares_target g target (g.edgeTree source).toList)
  constructor
  · intro hfound
    obtain ⟨hk, htarget⟩ := hsearch.mp hfound
    exact ⟨⟨source, hk⟩, h.sources source k hk, htarget⟩
  · rintro ⟨hk, hsource, htarget⟩
    refine hsearch.mpr ⟨?_, htarget⟩
    rw [← hsource]
    exact h.mem hk

/-- The edge can be inserted: there is none between its nodes, and its weight can be compared. -/
structure Insertable (g : Table) (e : EdgeId) : Prop where
  allocated : e < g.next
  new : ∀ k, Held g k → ¬((g.edge k).source = (g.edge e).source ∧
    (g.edge k).target = (g.edge e).target)
  fits : ∀ k ∈ g.edges.toList,
    -2 ^ 31 < weightOf g e - weightOf g k ∧ weightOf g e - weightOf g k < 2 ^ 31

theorem Trees.insert_node (h : Trees g) (he : Insertable g e) (n : String) :
    Ordered (byTarget g) ((insertEdge e g).edgeTree n).toList ∧
      ∀ k, k ∈ ((insertEdge e g).edgeTree n).toList ↔
        n = (g.edge e).source ∧ k = e ∨ k ∈ (g.edgeTree n).toList := by
  dsimp only [insertEdge]
  by_cases hn : n = (g.edge e).source
  · rw [hn, update_self]
    obtain ⟨hordered, hmem⟩ : Ordered (byTarget g)
        (splayInsert (edgeCompare g) e (g.edgeTree (g.edge e).source)).toList ∧ _ :=
      ordered_insert (h.targets _) (compares_target g (g.edge e).target _) fun k hk heq =>
        he.new k ⟨_, hk⟩ ⟨h.sources _ k hk, heq⟩
    refine ⟨hordered, fun k => ?_⟩
    rw [hmem]
    simp
  · rw [update_of_ne hn]
    exact ⟨h.targets n, fun k => by simp [hn]⟩

theorem Trees.insert_edges (h : Trees g) (he : Insertable g e) :
    Ordered (byWeight g) (insertEdge e g).edges.toList ∧
      ∀ k, k ∈ (insertEdge e g).edges.toList ↔ k = e ∨ k ∈ g.edges.toList := by
  refine ordered_insert h.weights (compares_weight he.fits) fun k hk heq => ?_
  simp only [byWeight, EmbeddingLike.apply_eq_iff_eq, Prod.mk.injEq] at heq
  exact he.new k ((h.same k).mp hk) heq.2

theorem Trees.held_insertEdge (h : Trees g) (he : Insertable g e) :
    Held (insertEdge e g) k ↔ k = e ∨ Held g k := by
  unfold Held
  simp only [fun n => (h.insert_node he n).2 k, exists_or, exists_eq_left]

theorem Trees.insertEdge (h : Trees g) (he : Insertable g e) : Trees (insertEdge e g) where
  toPlaced := h.toPlaced.insertEdge he.allocated
  targets := fun n => (h.insert_node he n).1
  weights := (h.insert_edges he).1
  fits := by
    intro j hj k hk
    rw [(h.insert_edges he).2] at hj hk
    change -2 ^ 31 < weightOf g j - weightOf g k ∧ weightOf g j - weightOf g k < 2 ^ 31
    rcases hj with rfl | hj <;> rcases hk with rfl | hk
    · omega
    · exact he.fits k hk
    · have := he.fits j hj
      omega
    · exact h.fits j hj k hk
  same := by
    intro k
    rw [(h.insert_edges he).2, h.held_insertEdge he, h.same]

theorem Trees.delete_node (h : Trees g) (he : Held g e) (n : String) :
    Ordered (byTarget g) ((deleteEdge e g).edgeTree n).toList ∧
      ∀ k, k ∈ ((deleteEdge e g).edgeTree n).toList ↔ k ∈ (g.edgeTree n).toList ∧ k ≠ e := by
  dsimp only [deleteEdge]
  by_cases hn : n = (g.edge e).source
  · rw [hn, update_self]
    exact ordered_delete (h.targets _) (compares_target g (g.edge e).target _) (h.mem he)
  rw [update_of_ne hn]
  refine ⟨h.targets n, fun k => ⟨fun hk => ⟨hk, ?_⟩, fun hk => hk.1⟩⟩
  rintro rfl
  exact hn (h.sources n k hk).symm

theorem Trees.delete_edges (h : Trees g) (he : Held g e) :
    Ordered (byWeight g) (deleteEdge e g).edges.toList ∧
      ∀ k, k ∈ (deleteEdge e g).edges.toList ↔ k ∈ g.edges.toList ∧ k ≠ e := by
  have hmem : e ∈ g.edges.toList := (h.same e).mpr he
  exact ordered_delete h.weights (compares_weight (h.fits e hmem)) hmem

theorem Trees.held_deleteEdge (h : Trees g) (he : Held g e) :
    Held (deleteEdge e g) k ↔ Held g k ∧ k ≠ e := by
  unfold Held
  simp only [fun n => (h.delete_node he n).2 k, exists_and_right]

theorem Trees.deleteEdge (h : Trees g) (he : Held g e) : Trees (deleteEdge e g) where
  toPlaced := h.toPlaced.deleteEdge e
  targets := fun n => (h.delete_node he n).1
  weights := (h.delete_edges he).1
  fits := by
    intro j hj k hk
    rw [(h.delete_edges he).2] at hj hk
    exact h.fits j hj.1 k hk.1
  same := by
    intro k
    rw [(h.delete_edges he).2, h.held_deleteEdge he, h.same]

end Trees

section Reverses

/-- Every edge knows its reverse. -/
def Linked (g : Table) : Prop :=
  ∀ k, Held g k → ∀ r, (g.edge k).reverse = some r ↔ Held g r ∧ Opposite g k r

variable {g g' : Table} {j k e r : EdgeId}

theorem Opposite.symm (h : Opposite g k r) : Opposite g r k := ⟨h.2.symm, h.1.symm⟩

theorem Trees.opposite_unique (h : Trees g) (hj : Held g j) (hk : Held g k)
    (hopposite : Opposite g r j) (hopposite' : Opposite g r k) : j = k :=
  h.unique hj hk (hopposite.1.trans hopposite'.1.symm) (hopposite.2.trans hopposite'.2.symm)

theorem opposite_congr (hedge : ∀ k, SameEdge (g'.edge k) (g.edge k)) :
    Opposite g' k r ↔ Opposite g k r := by
  unfold Opposite
  rw [(hedge k).1, (hedge k).2.1, (hedge r).1, (hedge r).2.1]

theorem opposite_setReverse {reverse : Option EdgeId} :
    Opposite (setReverse e reverse g) k r ↔ Opposite g k r :=
  opposite_congr fun k => sameEdge_setReverse e reverse k

theorem reverse_setReverse_self (reverse : Option EdgeId) :
    ((setReverse e reverse g).edge e).reverse = reverse := by
  dsimp only [setReverse]
  rw [update_self]

theorem reverse_setReverse_of_ne (reverse : Option EdgeId) (hk : k ≠ e) :
    ((setReverse e reverse g).edge k).reverse = (g.edge k).reverse := by
  dsimp only [setReverse]
  rw [update_of_ne hk]

/-- A new edge and the edge in the opposite direction are made to know each other. -/
theorem linked_linkReverse (h : Trees g) (he : Held g e) {reverse : Option EdgeId}
    (hreverse : ∀ r, reverse = some r ↔ Held g r ∧ Opposite g e r)
    (hothers : ∀ k, Held g k → k ≠ e → ∀ r, (g.edge k).reverse = some r ↔
      Held g r ∧ Opposite g k r ∧ r ≠ e) : Linked (linkReverse e reverse g) := by
  intro k hk r
  cases reverse with
  | none =>
    change ((setReverse e none g).edge k).reverse = some r ↔ Held g r ∧ _
    change Held g k at hk
    rw [linkReverse, opposite_setReverse]
    by_cases hke : k = e
    · rw [hke, reverse_setReverse_self]
      exact hreverse r
    rw [reverse_setReverse_of_ne none hke, hothers k hk hke]
    constructor
    · exact fun hr => ⟨hr.1, hr.2.1⟩
    · rintro ⟨hr, hopposite⟩
      refine ⟨hr, hopposite, ?_⟩
      rintro rfl
      cases (hreverse k).mpr ⟨hk, hopposite.symm⟩
  | some r₀ =>
    obtain ⟨hr₀, hopposite₀⟩ := (hreverse r₀).mp rfl
    change Held g k at hk
    change ((setReverse r₀ (some e) (setReverse e (some r₀) g)).edge k).reverse = some r ↔
      Held g r ∧ _
    rw [linkReverse, opposite_setReverse, opposite_setReverse]
    by_cases hkr : k = r₀
    · rw [hkr, reverse_setReverse_self, Option.some.injEq]
      constructor
      · rintro rfl
        exact ⟨he, hopposite₀.symm⟩
      · rintro ⟨hr, hopposite⟩
        exact h.opposite_unique he hr hopposite₀.symm hopposite
    · rw [reverse_setReverse_of_ne _ hkr]
      by_cases hke : k = e
      · rw [hke, reverse_setReverse_self]
        exact hreverse r
      rw [reverse_setReverse_of_ne _ hke, hothers k hk hke]
      constructor
      · exact fun hr => ⟨hr.1, hr.2.1⟩
      · rintro ⟨hr, hopposite⟩
        refine ⟨hr, hopposite, ?_⟩
        rintro rfl
        exact hkr (h.opposite_unique hk hr₀ hopposite.symm hopposite₀)

/-- The edges that are left no longer know the one that will be deleted. -/
theorem reverse_unlinkReverse (h : Trees g) (hlinked : Linked g) (he : Held g e) (hk : Held g k)
    (hke : k ≠ e) :
    ((unlinkReverse e g).edge k).reverse = some r ↔ (Held g r ∧ r ≠ e) ∧ Opposite g k r := by
  have hone : Opposite g k e ↔ (g.edge e).reverse = some k := by
    rw [hlinked e he k]
    exact ⟨fun ho => ⟨hk, ho.symm⟩, fun ho => ho.2.symm⟩
  unfold unlinkReverse
  split
  case h_1 hnone =>
    rw [hlinked k hk]
    rw [hnone] at hone
    constructor
    · rintro ⟨hr, hopposite⟩
      refine ⟨⟨hr, ?_⟩, hopposite⟩
      rintro rfl
      cases hone.mp hopposite
    · exact fun hr => ⟨hr.1.1, hr.2⟩
  case h_2 r₀ hr₀ =>
    rw [hr₀, Option.some.injEq] at hone
    by_cases hkr : k = r₀
    · rw [hkr, reverse_setReverse_self]
      refine iff_of_false (Option.some_ne_none r).symm ?_
      rintro ⟨⟨hr, hre⟩, hopposite⟩
      rw [← hkr] at hopposite
      exact hre (h.opposite_unique hr he hopposite (hone.mpr hkr.symm))
    · rw [reverse_setReverse_of_ne none hkr, hlinked k hk]
      constructor
      · rintro ⟨hr, hopposite⟩
        refine ⟨⟨hr, ?_⟩, hopposite⟩
        rintro rfl
        exact hkr (hone.mp hopposite).symm
      · exact fun hr => ⟨hr.1.1, hr.2⟩

end Reverses

section Steps

structure Inv (g : Table) : Prop where
  trees : Trees g
  linked : Linked g

variable {g : Table} {e : EdgeId}

theorem inv_lookupEdge (h : Inv g) (source target : String) :
    Inv (lookupEdge source target g).2 where
  trees := h.trees.frame (framed_lookupEdge source target)
  linked := by
    intro k hk r
    rw [held_congr (toList_lookupEdge source target)] at hk ⊢
    exact h.linked k hk r

theorem inv_edgeDel (h : Inv g) (he : Held g e) : Inv (edgeDel e g) := by
  have hheld : ∀ k, Held (unlinkReverse e g) k ↔ Held g k :=
    fun _ => held_congr (framed_unlinkReverse e).trees
  have htrees := h.trees.frame (framed_unlinkReverse e)
  have he' : Held (unlinkReverse e g) e := (hheld e).mpr he
  refine ⟨htrees.deleteEdge he', ?_⟩
  intro k hk r
  unfold edgeDel at hk ⊢
  rw [htrees.held_deleteEdge he', hheld] at hk ⊢
  obtain ⟨hk, hke⟩ := hk
  change ((unlinkReverse e g).edge k).reverse = some r ↔ _ ∧ Opposite (unlinkReverse e g) k r
  rw [reverse_unlinkReverse h.trees h.linked he hk hke,
    opposite_congr fun k => sameEdge_unlinkReverse e k]

variable {source target : String} {weight : Int32}
  (hproper : Proper g (.add source target weight)) (hfits : Fits g (.add source target weight))

include hproper hfits in
theorem insertable_allocate (h : Trees g) :
    Insertable (allocate source target weight g) g.next := by
  have hnew : (allocate source target weight g).edge g.next = ⟨source, target, weight, none⟩ :=
    update_self ..
  have hold : ∀ k, Held g k → (allocate source target weight g).edge k = g.edge k :=
    fun k hk => update_of_ne ((h.allocated k hk).ne) ..
  refine ⟨Nat.lt_succ_self _, fun k hk => ?_, fun k hk => ?_⟩
  · change Held g k at hk
    rw [hnew, hold k hk]
    exact hproper k hk
  · unfold weightOf
    rw [hnew, hold k ((h.same k).mp hk)]
    exact hfits k hk

include hproper hfits in
theorem inv_edgeAdd (h : Inv g) : Inv (edgeAdd source target weight g) := by
  have hinsertable := insertable_allocate hproper hfits h.trees
  have hallocated := h.trees.frame (framed_allocate source target weight)
  have hinserted := hallocated.insertEdge hinsertable
  have hfound := hinserted.frame (framed_lookupEdge target source)
  let g' := (lookupEdge target source (insertEdge g.next (allocate source target weight g))).2
  have hheld : ∀ k, Held g' k ↔ k = g.next ∨ Held g k := by
    intro k
    rw [held_congr (toList_lookupEdge target source), hallocated.held_insertEdge hinsertable]
    rfl
  have hnew : g'.edge g.next = ⟨source, target, weight, none⟩ := update_self ..
  have hold : ∀ k, Held g k → g'.edge k = g.edge k :=
    fun k hk => update_of_ne ((h.trees.allocated k hk).ne) ..
  refine ⟨hfound.linkReverse _ _, linked_linkReverse hfound ((hheld _).mpr (.inl rfl)) ?_ ?_⟩
  · intro r
    refine hinserted.lookupEdge_eq_some.trans ?_
    unfold Opposite
    rw [hnew, held_congr (toList_lookupEdge target source)]
    rfl
  · intro k hk hke r
    have hk' : Held g k := ((hheld k).mp hk).resolve_left hke
    rw [hold k hk', h.linked k hk', hheld]
    unfold Opposite
    rw [hold k hk']
    constructor
    · rintro ⟨hr, hopposite⟩
      rw [hold r hr]
      exact ⟨.inr hr, hopposite, (h.trees.allocated r hr).ne⟩
    · rintro ⟨hr, hopposite, hne⟩
      have hr' := hr.resolve_left hne
      rw [hold r hr'] at hopposite
      exact ⟨hr', hopposite⟩

theorem inv_step {ev : Event} (hproper : Proper g ev) (hfits : Fits g ev) (h : Inv g) :
    Inv (step g ev) := by
  cases ev with
  | add source target weight => exact inv_edgeAdd hproper hfits h
  | del e => exact inv_edgeDel h hproper
  | lookup source target => exact inv_lookupEdge h source target

theorem inv_noEdges : Inv noEdges := by
  have hnone : ∀ k, ¬Held noEdges k := not_held_noEdges
  have hempty : ∀ k, k ∉ noEdges.edges.toList := fun k hk => nomatch hk
  refine ⟨⟨placed_noEdges, fun n => List.Pairwise.nil, List.Pairwise.nil,
    fun j hj => absurd hj (hempty j), fun k => iff_of_false (hempty k) (hnone k)⟩,
    fun k hk => absurd hk (hnone k)⟩

/-- When the weights can be compared, the trees hold the same edges after every sequence of
additions and deletions, and every edge knows its reverse. -/
theorem edges_consistent {events : List Event}
    (h : Along step (fun g ev => Proper g ev ∧ Fits g ev) noEdges events) :
    Consistent (events.foldl step noEdges) := by
  have hinv := kept_along (fun _ ev hev hg => inv_step hev.1 hev.2 hg) h inv_noEdges
  exact ⟨hinv.trees.same, hinv.linked⟩

end Steps

section Samples

/-- The condition of a proper event, looked up in the trees. -/
def Checked (g : Table) : Event → Prop
  | .add source target _ => ∀ k < g.next, k ∈ (g.edgeTree (g.edge k).source).toList →
      ¬((g.edge k).source = source ∧ (g.edge k).target = target)
  | .del e => e ∈ (g.edgeTree (g.edge e).source).toList
  | .lookup _ _ => True

instance (g : Table) (ev : Event) : Decidable (Checked g ev) := by
  cases ev <;> unfold Checked <;> infer_instance

instance (g : Table) (ev : Event) : Decidable (Fits g ev) := by
  cases ev <;> unfold Fits <;> infer_instance

theorem proper_of_checked {g : Table} {ev : Event} (hchecked : Checked g ev) (h : Placed g) :
    Proper g ev := by
  cases ev with
  | add source target weight =>
    exact fun k hk => hchecked k (h.allocated k hk) (h.mem hk)
  | del e => exact ⟨_, hchecked⟩
  | lookup source target => trivial

/-- Two edges between the same nodes, of which the first is deleted. -/
def thereAndBack : List Event := [.add "a" "b" 5, .add "b" "a" 7, .lookup "a" "b", .del 0]

theorem edges_consistent_thereAndBack :
    Along step (fun g ev => Proper g ev ∧ Fits g ev) noEdges thereAndBack ∧
      Consistent (thereAndBack.foldl step noEdges) := by
  have hchecked : Along step (fun g ev => Checked g ev ∧ Fits g ev) noEdges thereAndBack := by
    decide +kernel
  have hproper : Along step (fun g ev => Proper g ev ∧ Fits g ev) noEdges thereAndBack :=
    along_of_kept (I := Placed) (fun _ ev _ h => placed_step h ev)
      (fun _ _ hev h => ⟨proper_of_checked hev.1 h, hev.2⟩) hchecked placed_noEdges
  exact ⟨hproper, edges_consistent hproper⟩

/-- The smallest weight is compared with 0, and then the first edge is deleted. -/
def smallestWeight : List Event := [.add "a" "b" 0, .add "a" "c" (-2147483648), .del 0]

/-- An edge that was deleted is still in the tree of all edges. -/
theorem edges_inconsistent :
    Along step Proper noEdges smallestWeight ∧
      ¬Consistent (smallestWeight.foldl step noEdges) := by
  have hchecked : Along step Checked noEdges smallestWeight := by decide +kernel
  constructor
  · exact along_of_kept (I := Placed) (fun _ ev _ h => placed_step h ev)
      (fun _ _ hev h => proper_of_checked hev h) hchecked placed_noEdges
  · intro h
    have hplaced : Placed (smallestWeight.foldl step noEdges) :=
      kept_along (I := Placed) (fun _ ev _ h => placed_step h ev) hchecked placed_noEdges
    have hheld := (h.same 0).mp (by decide +kernel)
    exact absurd (hplaced.mem hheld) (by decide +kernel)

end Samples

end Meshlink.EdgeTrees
