import Meshlink.BreadthFirst
import Meshlink.MeshRuns

/-!
The routes that sssp_bfs finds. With consistent edge trees and a running mesh the
loop over the list of nodes is the breadth-first search that prefers light edges, on
the edges that have a reverse. It therefore ends, and it gives each node its distance
from self, an edge of least weight from a node one hop nearer, and the next hop.
-/
namespace Meshlink.RouteSearch

open Function BreadthFirst Commands MeshState MeshGraph MeshRuns

section Statement

variable (m : Mesh)

def hasReverse (k : EdgeId) : Bool := (m.edge k).reverse.isSome

/-- The edges that are followed are those that have a reverse. -/
def graphOf : Graph NodeId EdgeId ℤ where
  out i := (m.node i).edgeTree.filter (hasReverse m)
  target k := (m.edge k).target
  weight k := (m.edge k).weight

/-- The edge trees are those of known nodes and lead to known nodes. -/
structure Consistent (m : Mesh) : Prop where
  self : m.self ∈ m.nodes
  source : ∀ i ∈ m.nodes, ∀ k ∈ (m.node i).edgeTree, (m.edge k).source = i
  target : ∀ i ∈ m.nodes, ∀ k ∈ (m.node i).edgeTree, (m.edge k).target ∈ m.nodes

/-- The loop over the list of nodes, without a bound, from one state to another. It aborts the
process at a node without a distance. -/
inductive Examined (p : Params) : List NodeId → Mesh → Mesh → Prop
  | done (m : Mesh) : Examined p [] m m
  | next {i : NodeId} {todo more : List NodeId} {m m' m'' : Mesh}
      (hdistance : 0 ≤ (m.node i).distance)
      (hedges : examineEdges p i (m.node i).edgeTree m = (some more, m'))
      (hrest : Examined p (todo ++ more) m' m'') : Examined p (i :: todo) m m''

/-- Forget what the last search has found. -/
def clear (nd : Node) : Node := {nd with visited := false, distance := -1}

/-- Self is where the search begins. -/
def begin (nd : Node) : Node := {nd with
  visited := m.threadstarted
  nexthop := some m.self
  prevedge := none
  distance := 0}

/-- What the loop of the search starts from. -/
def prepared : Mesh :=
  after (do
    forEach m.nodes fun i => modifyNode i clear
    modifyNode m.self (begin m)) m

/-- A path of so many edges with a reverse leads from self to the node. -/
def Path (hops : ℕ) (i : NodeId) : Prop := Hops (graphOf m) m.self hops i

/-- The edge has a reverse and leads to the node from one that is one hop nearer. -/
def FromNearer (k : EdgeId) (i : NodeId) : Prop :=
  ∃ j ∈ m.nodes, k ∈ (m.node j).edgeTree ∧ hasReverse m k ∧ (m.edge k).target = i ∧
    (m.node j).distance + 1 = (m.node i).distance

/-- The nodes from self to a node, found by following prevedge backwards. -/
inductive Route (m : Mesh) : NodeId → List NodeId → Prop
  | self : Route m m.self [m.self]
  | step {i : NodeId} {k : EdgeId} {route : List NodeId} (hk : (m.node i).prevedge = some k)
      (h : Route m (m.edge k).source route) : Route m i (route ++ [i])

/-- What the search finds for each node of the mesh. -/
structure Routed (m m' : Mesh) : Prop where
  visited : ∀ i ∈ m.nodes, (m'.node i).visited = true ↔ ∃ hops, Path m hops i
  distance : ∀ i ∈ m.nodes, (m'.node i).visited = true →
    ∃ hops : ℕ, (m'.node i).distance = hops ∧ Path m hops i ∧
      ∀ hops', Path m hops' i → hops ≤ hops'
  prevedge : ∀ i ∈ m.nodes, i ≠ m.self → (m'.node i).visited = true →
    ∃ k, (m'.node i).prevedge = some k ∧ FromNearer m' k i ∧
      ∀ k', FromNearer m' k' i → (m'.edge k).weight ≤ (m'.edge k').weight
  nexthop : ∀ i ∈ m.nodes, i ≠ m.self → (m'.node i).visited = true →
    ∃ route, Route m' i route ∧ (m'.node i).nexthop = route[1]?

end Statement

section Frames

variable {τ : Type}

/-- The graph, with a part of each node. -/
def shown (g : Node → τ) (m : Mesh) : NodeId × List NodeId × (EdgeId → Edge) × (NodeId → τ) :=
  (m.self, m.nodes, m.edge, fun i => g (m.node i))

theorem leaves_modifyNode {g : Node → τ} (i : NodeId) {f : Node → Node}
    (hf : ∀ nd, g (f nd) = g nd) : Leaves (shown g) (modifyNode i f) := by
  intro m
  exact congrArg (fun node => (m.self, m.nodes, m.edge, node)) (seen_update (hf (m.node i)))

/-- Only the address of a node and what goes with it is changed. -/
theorem leaves_updateNodeUdp {g : Node → τ} (p : Params) (i : NodeId) (sa : Option Sockaddr)
    (hg : ∀ nd address recent dirty,
      g {nd with address := address, recent := recent, dirty := dirty} = g nd) :
    Leaves (shown g) (updateNodeUdp p i sa) := by
  refine Leaves.bind (Leaves.gets _) fun _ => ?_
  refine Leaves.ite (Leaves.pure ()) ?_
  refine Leaves.bind (Leaves.gets _) fun _ => ?_
  refine Leaves.bind (fun _ => rfl) fun _ => ?_
  cases sa with
  | none => exact Leaves.pure ()
  | some sa =>
    refine Leaves.bind (leaves_modifyNode i fun nd => hg nd sa nd.recent nd.dirty) fun _ => ?_
    refine Leaves.bind (fun _ => rfl) fun _ => ?_
    refine leaves_modifyNode i fun nd => ?_
    split
    · rfl
    · exact hg nd nd.address _ true

end Frames

section Simulation

/-- The label that the search has given to a node. -/
def Shows (nd : Node) : Option (Label NodeId EdgeId) → Prop
  | none => nd.visited = false ∧ nd.distance = -1
  | some a => nd.visited = true ∧ nd.distance = a.distance ∧ nd.prevedge = a.via ∧
      nd.nexthop = some a.next

/-- The nodes have the labels of the search. -/
def ShowsAll (m : Mesh) (L : Labels NodeId EdgeId) : Prop := ∀ i ∈ m.nodes, Shows (m.node i) (L i)

/-- The part of a node that the search reads or sets. -/
def searched (nd : Node) : List EdgeId × Bool × ℤ × Option EdgeId × Option NodeId :=
  (nd.edgeTree, nd.visited, nd.distance, nd.prevedge, nd.nexthop)

def topology (m : Mesh) : NodeId × List NodeId × (EdgeId → Edge) × (NodeId → List EdgeId) :=
  shown (fun nd => nd.edgeTree) m

variable {p : Params} {m m' m₀ : Mesh} {L : Labels NodeId EdgeId} {i : NodeId} {k : EdgeId}
  {a : Label NodeId EdgeId}

theorem graphOf_eq (h : topology m' = topology m) : graphOf m' = graphOf m := by
  simp only [topology, shown, Prod.mk.injEq] at h
  obtain ⟨-, -, hedge, htree⟩ := h
  unfold graphOf hasReverse
  rw [hedge]
  congr 1
  funext i
  rw [congrFun htree i]

/-- The test of the search is the one that sssp_bfs makes. -/
theorem useless_eq (h : ShowsAll m L) (hi : Shows (m.node i) (some a))
    (htarget : (m.edge k).target ∈ m.nodes) :
    useless (graphOf m) L a k =
      ((m.node (m.edge k).target).visited &&
        ((m.node (m.edge k).target).distance ≠ (m.node i).distance + 1 ||
          noBetter m (m.edge k))) := by
  obtain ⟨-, hdistance, -, -⟩ := hi
  have hshows := h _ htarget
  unfold useless noBetter
  dsimp only [graphOf]
  cases hb : L (m.edge k).target with
  | none =>
    rw [hb] at hshows
    rw [hshows.1]
    rfl
  | some b =>
    rw [hb] at hshows
    obtain ⟨hvisited, hdistance', hvia, -⟩ := hshows
    rw [hvisited, hdistance, hdistance', hvia]
    have hcast : ((b.distance : ℤ) = a.distance + 1) ↔ b.distance = a.distance + 1 := by omega
    simp only [hcast, ne_eq, Bool.true_and]
    cases b.via with
    | none => rfl
    | some j => rfl

theorem topology_of_shown (h : shown searched m' = shown searched m) :
    topology m' = topology m := by
  simp only [shown, Prod.mk.injEq] at h
  obtain ⟨hself, hnodes, hedge, hnode⟩ := h
  have htree : (fun i => (m'.node i).edgeTree) = fun i => (m.node i).edgeTree := by
    funext i
    exact congrArg Prod.fst (congrFun hnode i)
  unfold topology shown
  rw [hself, hnodes, hedge, htree]

theorem showsAll_of_shown (h : shown searched m' = shown searched m) (hm : ShowsAll m L) :
    ShowsAll m' L := by
  simp only [shown, Prod.mk.injEq] at h
  obtain ⟨-, hnodes, -, hnode⟩ := h
  intro i hi
  rw [hnodes] at hi
  have hsame := congrFun hnode i
  simp only [searched, Prod.mk.injEq] at hsame
  obtain ⟨-, hvisited, hdistance, hprevedge, hnexthop⟩ := hsame
  have hold := hm i hi
  unfold Shows at hold ⊢
  rw [hvisited, hdistance, hprevedge, hnexthop]
  exact hold

/-- The new target of an edge that is of use. -/
def reach (m : Mesh) (i : NodeId) (k : EdgeId) (dest : Node) : Node := {dest with
  visited := true
  nexthop := if (m.node i).nexthop = some m.self then some (m.edge k).target
    else (m.node i).nexthop
  prevedge := some k
  distance := (m.node i).distance + 1}

theorem showsAll_reach (h : ShowsAll m L) (hi : Shows (m.node i) (some a)) :
    ShowsAll (after (modifyNode (m.edge k).target (reach m i k)) m)
      (relabel (graphOf m) m.self L a k) := by
  intro j hj
  change Shows (Function.update m.node (m.edge k).target (reach m i k _) j)
    (Function.update L (m.edge k).target _ j)
  by_cases htarget : j = (m.edge k).target
  · obtain ⟨-, hdistance, -, hnexthop⟩ := hi
    rw [htarget, update_self, update_self]
    refine ⟨rfl, ?_, rfl, ?_⟩
    · change (m.node i).distance + 1 = ((a.distance + 1 : ℕ) : ℤ)
      rw [hdistance]
      rfl
    change (if (m.node i).nexthop = some m.self then some (m.edge k).target
      else (m.node i).nexthop) = some (if a.next = m.self then (m.edge k).target else a.next)
    rw [hnexthop, apply_ite some]
    simp only [Option.some.injEq]
  · rw [update_of_ne htarget, update_of_ne htarget]
    exact h j hj

/-- One edge is looked at as in the search. -/
theorem visitEdge_visit (h : ShowsAll m L) (hi : i ∈ m.nodes) (ha : L i = some a)
    (hk : hasReverse m k = true) (htarget : (m.edge k).target ∈ m.nodes) :
    ∃ m', visitEdge p i k m = (some (visit (graphOf m) m.self i k L).1, m') ∧
      ShowsAll m' (visit (graphOf m) m.self i k L).2 ∧ topology m' = topology m := by
  have hshows : Shows (m.node i) (some a) := ha ▸ h i hi
  have htest := useless_eq h hshows htarget
  have hrun : visitEdge p i k m =
      (if useless (graphOf m) L a k = true then pure false else do
        modifyNode (m.edge k).target (reach m i k)
        when (wantsAddress (m.node (m.edge k).target) (m.edge k).address)
          (takeAddress p (m.edge k).target (m.node (m.edge k).target).reachable (m.edge k).address)
        pure true : Command Mesh Bool) m := by
    rw [htest]
    change (if (m.edge k).reverse.isNone = true then (_ : Command Mesh Bool) else _) m = _
    rw [if_neg]
    · rfl
    · simpa [hasReverse, Option.isSome_iff_ne_none] using hk
  rw [hrun]
  cases huseless : useless (graphOf m) L a k with
  | true =>
    rw [visit_of_useless ha huseless]
    exact ⟨m, rfl, h, rfl⟩
  | false =>
    rw [visit_of_useful ha huseless]
    have hleaves : Leaves (shown searched)
        (when (wantsAddress (m.node (m.edge k).target) (m.edge k).address)
          (takeAddress p (m.edge k).target (m.node (m.edge k).target).reachable
            (m.edge k).address)) :=
      Leaves.when (Leaves.bind (Leaves.when (Leaves.update fun _ => rfl)) fun _ =>
        leaves_updateNodeUdp p _ _ fun _ _ _ _ => rfl)
    have hkept := hleaves (after (modifyNode (m.edge k).target (reach m i k)) m)
    obtain ⟨_, hreturns⟩ := (inferInstance : Returns
      (when (wantsAddress (m.node (m.edge k).target) (m.edge k).address)
        (takeAddress p (m.edge k).target (m.node (m.edge k).target).reachable
          (m.edge k).address))).returns
          (after (modifyNode (m.edge k).target (reach m i k)) m)
    refine ⟨_, bind_of_some hreturns, showsAll_of_shown hkept (showsAll_reach h hshows), ?_⟩
    rw [topology_of_shown hkept]
    have hmodify : Leaves topology (modifyNode (m.edge k).target (reach m i k)) :=
      leaves_modifyNode _ fun _ => rfl
    exact hmodify m

theorem shows_isSome_visit (G : Graph NodeId EdgeId ℤ) (root : NodeId) (ha : L i = some a) :
    ∃ b, (visit G root i k L).2 i = some b := by
  cases huseless : useless G L a k with
  | true =>
    rw [visit_of_useless ha huseless]
    exact ⟨a, ha⟩
  | false =>
    rw [visit_of_useful ha huseless]
    by_cases hi : i = G.target k
    · rw [hi]
      exact ⟨_, relabel_target⟩
    · exact ⟨a, (update_of_ne hi ..).trans ha⟩

theorem examineEdges_cons {m₁ m₂ : Mesh} {again : Bool} {more : List NodeId} {ks : List EdgeId}
    (hvisit : visitEdge p i k m = (some again, m₁))
    (hrest : examineEdges p i ks m₁ = (some more, m₂)) :
    examineEdges p i (k :: ks) m =
      (some (if again then (m₁.edge k).target :: more else more), m₂) := by
  unfold examineEdges
  rw [bind_of_some hvisit]
  exact bind_of_some hrest

/-- The edges of a node are looked at as in the search, except those without a reverse. -/
theorem examineEdges_examine {ks : List EdgeId} (htopology : topology m = topology m₀)
    (h : ShowsAll m L) (hi : i ∈ m₀.nodes) (ha : L i = some a)
    (htarget : ∀ k ∈ ks, (m₀.edge k).target ∈ m₀.nodes) :
    ∃ m', examineEdges p i ks m =
        (some (examine (graphOf m₀) m₀.self i (ks.filter (hasReverse m₀)) L).1, m') ∧
      ShowsAll m' (examine (graphOf m₀) m₀.self i (ks.filter (hasReverse m₀)) L).2 ∧
      topology m' = topology m₀ := by
  induction ks generalizing m L a with
  | nil => exact ⟨m, rfl, h, htopology⟩
  | cons k ks ih =>
    have hgraph : graphOf m = graphOf m₀ := graphOf_eq htopology
    have hrest := fun k' hk' => htarget k' (List.mem_cons_of_mem k hk')
    have hfields := htopology
    simp only [topology, shown, Prod.mk.injEq] at hfields
    obtain ⟨hself, hnodes, hedge, -⟩ := hfields
    by_cases hk : hasReverse m₀ k = true
    · rw [List.filter_cons_of_pos hk]
      have hvisit : ∃ m', visitEdge p i k m = (some (visit (graphOf m) m.self i k L).1, m') ∧
          ShowsAll m' (visit (graphOf m) m.self i k L).2 ∧ topology m' = topology m := by
        refine visitEdge_visit h (hnodes ▸ hi) ha ?_ ?_
        · unfold hasReverse
          rw [hedge]
          exact hk
        · rw [hedge, hnodes]
          exact htarget k List.mem_cons_self
      rw [hgraph, hself] at hvisit
      obtain ⟨m₁, hrun, hshows, hkept⟩ := hvisit
      obtain ⟨b, hb⟩ := shows_isSome_visit (k := k) (graphOf m₀) m₀.self ha
      obtain ⟨m₂, hrun', hshows', hkept'⟩ := ih (hkept.trans htopology) hshows hb hrest
      refine ⟨m₂, ?_, hshows', hkept'⟩
      rw [examineEdges_cons hrun hrun']
      have hedge' : m₁.edge = m₀.edge := congrArg (fun t => t.2.2.1) (hkept.trans htopology)
      rw [hedge']
      rfl
    · rw [List.filter_cons_of_neg hk]
      obtain ⟨m₁, hrun, hshows, hkept⟩ := ih htopology h ha hrest
      have hskip : visitEdge p i k m = (some false, m) := by
        change (if (m.edge k).reverse.isNone = true then (pure false : Command Mesh Bool)
          else _) m = _
        rw [if_pos]
        · rfl
        · rw [hedge]
          simpa [hasReverse] using hk
      exact ⟨m₁, examineEdges_cons hskip hrun, hshows, hkept⟩

/-- The loop over the list of nodes is the search. -/
theorem examined_of_searched (hm₀ : Consistent m₀) {n : ℕ} {todo : List NodeId}
    {L' : Labels NodeId EdgeId} (hsearched : Searched (graphOf m₀) m₀.self n todo L L')
    (htopology : topology m = topology m₀) (h : ShowsAll m L) (htodo : ∀ j ∈ todo, j ∈ m₀.nodes) :
    ∃ m', Examined p todo m m' ∧ (∀ fuel, n ≤ fuel → after (examineNodes p fuel todo) m = m') ∧
      ShowsAll m' L' ∧ topology m' = topology m₀ := by
  induction hsearched generalizing m with
  | done L =>
    refine ⟨m, .done m, fun fuel _ => ?_, h, htopology⟩
    cases fuel with
    | zero => rfl
    | succ fuel => rfl
  | @next n i todo L L' a ha hrest ih =>
    have hfields := htopology
    simp only [topology, shown, Prod.mk.injEq] at hfields
    obtain ⟨hself, hnodes, -, htree⟩ := hfields
    have hi := htodo i List.mem_cons_self
    have hshows := h i (hnodes ▸ hi)
    rw [ha] at hshows
    obtain ⟨m₁, hedges, hshows₁, hkept⟩ :=
      examineEdges_examine (p := p) htopology h hi ha (hm₀.target i hi)
    have hout : ((m₀.node i).edgeTree.filter (hasReverse m₀)) = (graphOf m₀).out i := rfl
    rw [hout, ← congrFun htree i] at hedges
    rw [hout] at hshows₁
    have hmore : ∀ j ∈ todo ++ (examine (graphOf m₀) m₀.self i ((graphOf m₀).out i) L).1,
        j ∈ m₀.nodes := by
      intro j hj
      rcases List.mem_append.mp hj with hj | hj
      · exact htodo j (List.mem_cons_of_mem i hj)
      · obtain ⟨k, hk, rfl⟩ := target_of_mem_examine hj
        exact hm₀.target i hi k (List.mem_of_mem_filter hk)
    obtain ⟨m₂, hexamined, hfuel, hshows₂, hkept₂⟩ := ih hkept hshows₁ hmore
    refine ⟨m₂, .next ?_ hedges hexamined, ?_, hshows₂, hkept₂⟩
    · rw [hshows.2.1]
      exact Int.natCast_nonneg a.distance
    intro fuel hn
    obtain ⟨fuel, rfl⟩ : ∃ k, fuel = k + 1 := ⟨fuel - 1, by omega⟩
    rw [← hfuel fuel (by omega)]
    exact after_bind hedges

end Simulation

section Preparation

variable (m : Mesh)

theorem forEach_clear (ns : List NodeId) (i : NodeId) :
    (after (forEach ns fun j => modifyNode j clear) m).node i =
      if i ∈ ns then clear (m.node i) else m.node i := by
  induction ns generalizing m with
  | nil => rfl
  | cons j ns ih =>
    rw [after_forEach_cons, ih]
    change (if i ∈ ns then clear (Function.update m.node j (clear (m.node j)) i)
      else Function.update m.node j (clear (m.node j)) i) = _
    by_cases hij : i = j
    · rw [hij, update_self, if_pos List.mem_cons_self]
      exact ite_self _
    · rw [update_of_ne hij]
      simp only [List.mem_cons, hij, false_or]

def cleared : Mesh := after (forEach m.nodes fun i => modifyNode i clear) m

theorem cleared_started : (cleared m).threadstarted = m.threadstarted := by
  have hleaves : Leaves (fun m => m.threadstarted) (forEach m.nodes fun i => modifyNode i clear) :=
    Leaves.forEach fun _ _ => rfl
  exact hleaves m

theorem cleared_topology : topology (cleared m) = topology m := by
  have hleaves : Leaves topology (forEach m.nodes fun i => modifyNode i clear) :=
    Leaves.forEach fun i => leaves_modifyNode i fun _ => rfl
  exact hleaves m

theorem prepared_eq : prepared m = after (modifyNode m.self (begin m)) (cleared m) :=
  after_then _ _ m

theorem prepared_topology : topology (prepared m) = topology m := by
  have hleaves : Leaves topology (modifyNode m.self (begin m)) := leaves_modifyNode _ fun _ => rfl
  rw [prepared_eq, ← cleared_topology m]
  exact hleaves (cleared m)

theorem showsAll_prepared (hrunning : m.threadstarted = true) :
    ShowsAll (prepared m) (initial m.self) := by
  intro i hi
  have hnodes : (prepared m).nodes = m.nodes := congrArg (fun t => t.2.1) (prepared_topology m)
  rw [hnodes] at hi
  rw [prepared_eq]
  change Shows (Function.update (cleared m).node m.self (begin m _) i) _
  unfold initial
  by_cases hself : i = m.self
  · rw [hself, update_self, if_pos rfl]
    exact ⟨hrunning, rfl, rfl, rfl⟩
  rw [update_of_ne hself, if_neg hself]
  have hclear : (cleared m).node i = clear (m.node i) :=
    (forEach_clear m m.nodes i).trans (if_pos hi)
  rw [hclear]
  exact ⟨rfl, rfl⟩

theorem after_ssspBfs (p : Params) :
    after (ssspBfs p) m =
      after (examineNodes p (searchFuel (prepared m)) [m.self]) (prepared m) := by
  have hself : (cleared m).self = m.self := congrArg Prod.fst (cleared_topology m)
  have hbegin : begin (cleared m) = begin m := by
    unfold begin
    rw [hself, cleared_started]
  have hrun : after (ssspBfs p) m =
      after (examineNodes p
        (searchFuel (after (modifyNode (cleared m).self (begin (cleared m))) (cleared m)))
        [(cleared m).self]) (after (modifyNode (cleared m).self (begin (cleared m))) (cleared m)) :=
    after_then (forEach m.nodes fun i => modifyNode i clear) _ m
  rw [hrun, hself, hbegin, prepared_eq]

/-- The number of steps that the loop is given is enough. -/
theorem steps_le_searchFuel :
    (m.nodes.map fun i => ((graphOf m).out i).length).sum + 1 ≤ searchFuel (prepared m) := by
  have htopology := prepared_topology m
  simp only [topology, shown, Prod.mk.injEq] at htopology
  obtain ⟨-, hnodes, -, htree⟩ := htopology
  have hfuel : searchFuel (prepared m) =
      2 * ((m.nodes.map fun i => (m.node i).edgeTree.length).sum + 1) := by
    unfold searchFuel
    rw [hnodes]
    simp only [fun i => congrFun htree i]
  have hle : (m.nodes.map fun i => ((graphOf m).out i).length).sum ≤
      (m.nodes.map fun i => (m.node i).edgeTree.length).sum := by
    refine sum_map_le (fun i => ?_) m.nodes
    exact List.length_filter_le (hasReverse m) (m.node i).edgeTree
  omega

end Preparation

section Routes

variable {m m' : Mesh} {L : Labels NodeId EdgeId} {i : NodeId} {a : Label NodeId EdgeId}

theorem mem_nodes_of_path (hm : Consistent m) {hops : ℕ} (h : Path m hops i) : i ∈ m.nodes := by
  unfold Path at h
  induction h with
  | root => exact hm.self
  | step _ hk ih => exact hm.target _ ih _ (List.mem_of_mem_filter hk)

/-- Nodes and labels in the state that the search ends in. -/
structure Labelled (m m' : Mesh) (L : Labels NodeId EdgeId) : Prop where
  consistent : Consistent m
  topology : topology m' = topology m
  shows : ShowsAll m' L
  correct : Correct (graphOf m) m.self L

section Labels

variable (h : Labelled m m' L)

include h

theorem Labelled.self : m'.self = m.self := congrArg Prod.fst h.topology

theorem Labelled.nodes : m'.nodes = m.nodes :=
  congrArg (fun t => t.2.1) h.topology

theorem Labelled.edge : m'.edge = m.edge :=
  congrArg (fun t => t.2.2.1) h.topology

theorem Labelled.edgeTree (i : NodeId) :
    (m'.node i).edgeTree = (m.node i).edgeTree :=
  congrFun (congrArg (fun t => t.2.2.2) h.topology) i

theorem Labelled.label (hi : i ∈ m.nodes)
    (hvisited : (m'.node i).visited = true) : ∃ a, L i = some a := by
  have hshows := h.shows i (h.nodes ▸ hi)
  cases ha : L i with
  | none =>
    rw [ha] at hshows
    rw [hshows.1] at hvisited
    cases hvisited
  | some a => exact ⟨a, rfl⟩

theorem Labelled.mem_nodes (ha : L i = some a) : i ∈ m.nodes :=
  mem_nodes_of_path h.consistent (h.correct.nearest i a ha).1

theorem Labelled.node (ha : L i = some a) : Shows (m'.node i) (some a) := by
  rw [← ha]
  exact h.shows i (h.nodes ▸ h.mem_nodes ha)

theorem Labelled.fromNearer {u : NodeId} {b : Label NodeId EdgeId}
    {k : EdgeId} (ha : L i = some a) (hlight : Lightest (graphOf m) m.self L i a u b k) :
    FromNearer m' k i := by
  obtain ⟨hout, htarget, hb, rfl, -⟩ := hlight
  obtain ⟨htree, hreverse⟩ := List.mem_filter.mp hout
  refine ⟨u, h.nodes ▸ h.mem_nodes hb, ?_, ?_, ?_, ?_⟩
  · rw [h.edgeTree]
    exact htree
  · unfold hasReverse
    rw [h.edge]
    exact hreverse
  · rw [h.edge]
    exact htarget
  · rw [(h.node hb).2.1, (h.node ha).2.1]
    rfl

/-- An edge from a node one hop nearer is one of those that the search compares. -/
theorem Labelled.nearer {k : EdgeId} (ha : L i = some a)
    (hi : i ≠ m.self) (hk : FromNearer m' k i) :
    ∃ u b, k ∈ (graphOf m).out u ∧ (graphOf m).target k = i ∧ L u = some b ∧
      b.distance + 1 = a.distance := by
  obtain ⟨u, hu, htree, hreverse, htarget, hdistance⟩ := hk
  have hnode := (h.node ha).2.1
  have hshows := h.shows u hu
  cases hb : L u with
  | none =>
    -- a node that was not reached has distance -1, and only self has distance 0
    rw [hb] at hshows
    obtain ⟨w, b, e, hlight⟩ := h.correct.lightest i a ha hi
    have hpos : a.distance = b.distance + 1 := by rw [hlight.label]; rfl
    rw [hshows.2, hnode] at hdistance
    omega
  | some b =>
    rw [hb] at hshows
    rw [hshows.2.1, hnode] at hdistance
    refine ⟨u, b, List.mem_filter.mpr ⟨?_, ?_⟩, ?_, hb, by omega⟩
    · rw [← h.edgeTree]
      exact htree
    · unfold hasReverse at hreverse ⊢
      rw [← h.edge]
      exact hreverse
    · rw [← htarget, h.edge]
      rfl

/-- The next hop is passed on along the edges that the nodes were reached by. -/
theorem Labelled.route (ha : L i = some a) :
    ∃ route, Route m' i route ∧
      if i = m.self then route = [m.self] else route[1]? = some a.next := by
  induction hn : a.distance generalizing i a with
  | zero =>
    have hself : i = m.self := by
      by_contra hne
      obtain ⟨u, b, e, hlight⟩ := h.correct.lightest i a ha hne
      rw [hlight.label] at hn
      cases hn
    rw [hself]
    refine ⟨[m.self], ?_, by rw [if_pos rfl]⟩
    rw [← h.self]
    exact .self
  | succ n ih =>
    have hne : i ≠ m.self := by
      rintro rfl
      rw [h.correct.start] at ha
      cases ha
      cases hn
    obtain ⟨u, b, k, hlight⟩ := h.correct.lightest i a ha hne
    obtain ⟨hout, htarget, hb, rfl, -⟩ := hlight
    obtain ⟨route, hroute, hnext⟩ := ih hb (Nat.succ.inj hn)
    have hsource : (m'.edge k).source = u := by
      rw [h.edge]
      exact h.consistent.source u (h.mem_nodes hb) k (List.mem_of_mem_filter hout)
    refine ⟨route ++ [i], .step (h.node ha).2.2.1 (hsource ▸ hroute), ?_⟩
    rw [if_neg hne]
    by_cases hu : u = m.self
    · rw [if_pos hu] at hnext
      rw [hu, h.correct.start] at hb
      cases hb
      rw [hnext]
      simp [along, htarget]
    · rw [if_neg hu] at hnext
      have hkept := h.correct.next_ne u b hb hu
      have hlength : 1 < route.length := (List.getElem?_eq_some_iff.mp hnext).1
      rw [List.getElem?_append_left hlength, hnext]
      simp [along, hkept]

theorem Labelled.routed : Routed m m' where
  visited := by
    intro i hi
    constructor
    · intro hvisited
      exact (h.correct.reached i).mp (h.label hi hvisited)
    · intro hpath
      obtain ⟨a, ha⟩ := (h.correct.reached i).mpr hpath
      exact (h.node ha).1
  distance := by
    intro i hi hvisited
    obtain ⟨a, ha⟩ := h.label hi hvisited
    exact ⟨a.distance, (h.node ha).2.1, h.correct.nearest i a ha⟩
  prevedge := by
    intro i hi hne hvisited
    obtain ⟨a, ha⟩ := h.label hi hvisited
    obtain ⟨u, b, k, hlight⟩ := h.correct.lightest i a ha hne
    refine ⟨k, ?_, h.fromNearer ha hlight, fun k' hk' => ?_⟩
    · rw [(h.node ha).2.2.1, hlight.label]
      rfl
    · obtain ⟨u', b', hout, htarget, hb', hdistance⟩ := h.nearer ha hne hk'
      rw [h.edge]
      exact hlight.least u' b' k' hout htarget hb' hdistance
  nexthop := by
    intro i hi hne hvisited
    obtain ⟨a, ha⟩ := h.label hi hvisited
    obtain ⟨route, hroute, hnext⟩ := h.route ha
    rw [if_neg hne] at hnext
    exact ⟨route, hroute, (h.node ha).2.2.2.trans hnext.symm⟩

end Labels

/-- In a running mesh with consistent edge trees the search ends, and every node is visited if
and only if it can be reached, with its distance, the lightest edge and the next hop. -/
theorem routes_found (p : Params) (m : Mesh) (hm : Consistent m)
    (hrunning : m.threadstarted = true) :
    Examined p [m.self] (prepared m) (after (ssspBfs p) m) ∧
      Routed m (after (ssspBfs p) m) := by
  have hclosed : ∀ i ∈ m.nodes, ∀ k ∈ (graphOf m).out i, (graphOf m).target k ∈ m.nodes :=
    fun i hi k hk => hm.target i hi k (List.mem_of_mem_filter hk)
  obtain ⟨steps, hsteps, L, hsearched, hcorrect⟩ := search_correct hm.self hclosed
  obtain ⟨m', hexamined, hfuel, hshows, htopology⟩ :=
    examined_of_searched (p := p) hm hsearched (prepared_topology m) (showsAll_prepared m hrunning)
      fun j hj => List.mem_singleton.mp hj ▸ hm.self
  have hend : after (ssspBfs p) m = m' := by
    rw [after_ssspBfs]
    exact hfuel _ (hsteps.trans (steps_le_searchFuel m))
  rw [hend]
  have hlabelled : Labelled m m' L := ⟨hm, htopology, hshows, hcorrect⟩
  exact ⟨hexamined, hlabelled.routed⟩

/-- An edge with its reverse. -/
def bothWays (i j : NodeId) (weight : ℤ) (reverse : EdgeId) : Edge :=
  {newEdge i j with weight := weight, reverse := some reverse}

/-- Two ways lead from self to node 3, and the second one ends in a lighter edge. -/
def diamond : Mesh :=
  {newMesh "self" with
    threadstarted := true
    nodes := [0, 1, 2, 3]
    node := fun i => {newNode "node" with
      edgeTree := [[0, 1], [2, 3], [4, 5], [6, 7]].getD i []}
    edge := fun k =>
      [bothWays 0 1 5 2, bothWays 0 2 5 4, bothWays 1 0 5 0, bothWays 1 3 9 6, bothWays 2 0 5 1,
        bothWays 2 3 4 7, bothWays 3 1 9 3, bothWays 3 2 4 5].getD k (newEdge 0 0)}

theorem routes_found_diamond :
    Examined plainParams [0] (prepared diamond) (after (ssspBfs plainParams) diamond) ∧
      Routed diamond (after (ssspBfs plainParams) diamond) :=
  routes_found plainParams diamond ⟨by decide, by decide, by decide⟩ rfl

example :
    ((after (ssspBfs plainParams) diamond).node 3).nexthop = some 2 ∧
      ((after (ssspBfs plainParams) diamond).node 3).prevedge = some 5 ∧
      ((after (ssspBfs plainParams) diamond).node 3).distance = 2 := by
  decide +kernel

end Routes

end Meshlink.RouteSearch
