import Meshlink.MeshRuns

/-!
The node table and the ends of the edges. Handling an ADD_EDGE request looks up
both names before it adds a node for either of them. When both are the same
unknown name, two nodes are made for it; the table only takes the first one, and
the edge leads to the second.
-/
namespace Meshlink.EdgeEndpoints

open MeshState MeshEvents MeshView ViewGrowth EventMoves MeshRuns Systems

/-- No two nodes of the table have the same name. -/
def UniqueNames (m : Mesh) : Prop := (m.nodes.map fun i => (m.node i).name).Nodup

/-- Both ends of every edge of a known node are known. -/
def KnownEnds (m : Mesh) : Prop :=
  ∀ i ∈ m.nodes, ∀ k ∈ (m.node i).edgeTree,
    (m.edge k).source ∈ m.nodes ∧ (m.edge k).target ∈ m.nodes

instance (m : Mesh) : Decidable (KnownEnds m) :=
  inferInstanceAs (Decidable (∀ i ∈ m.nodes, ∀ k ∈ (m.node i).edgeTree,
    (m.edge k).source ∈ m.nodes ∧ (m.edge k).target ∈ m.nodes))

/-- The part of a consistent mesh that the moves are about. -/
structure Closed (v : View) : Prop where
  self : v.self ∈ v.nodes
  names : (v.nodes.map fun i => (v.node i).name).Nodup
  ends : ∀ i ∈ v.nodes, ∀ k ∈ (v.node i).edgeTree,
    (v.edge k).source ∈ v.nodes ∧ (v.edge k).target ∈ v.nodes

/-- A mesh in which the references are in order, names are unique and the ends of
edges are known. -/
structure Consistent (m : Mesh) : Prop where
  sane : Sane (view m)
  self : m.self ∈ m.nodes
  names : UniqueNames m
  ends : KnownEnds m

section Moves

variable {R : Rules} {v w : View}

theorem names_of_same (hv : Sane v) (hgrows : Grows v w) (hnodes : w.nodes = v.nodes)
    (h : (v.nodes.map fun i => (v.node i).name).Nodup) :
    (w.nodes.map fun i => (w.node i).name).Nodup := by
  have hsame : (w.nodes.map fun i => (w.node i).name) = v.nodes.map fun i => (v.node i).name := by
    rw [hnodes]
    apply List.map_congr_left
    intro i hi
    exact hgrows.name i (hv.nodes_lt i hi)
  rw [hsame]
  exact h

/-- Nothing but trees that get smaller changes. -/
theorem Closed.of_same (hv : Sane v) (h : Closed v) (hgrows : Grows v w)
    (hnodes : w.nodes = v.nodes)
    (htree : ∀ i, ∀ k ∈ (w.node i).edgeTree, k ∈ (v.node i).edgeTree) : Closed w where
  self := by
    rw [hgrows.self, hnodes]
    exact h.self
  names := names_of_same hv hgrows hnodes h.names
  ends := by
    intro i hi k hk
    rw [hnodes] at hi ⊢
    have hold := htree i k hk
    rw [hgrows.edge k (hv.tree i (hv.nodes_lt i hi) k hold).1]
    exact h.ends i hi k hold

theorem Closed.setNode (hv : Sane v) (h : Closed v) (i : NodeId) (core : NodeCore)
    (hname : core.name = (v.node i).name) (hsubmesh : core.submesh = (v.node i).submesh)
    (htree : ∀ k ∈ core.edgeTree, k ∈ (v.node i).edgeTree) : Closed (v.setNode i core) := by
  apply h.of_same hv (Grows.setNode v i core hname hsubmesh) rfl
  intro j k hk
  rw [View.setNode_node] at hk
  split at hk
  · rename_i heq
    exact heq ▸ htree k hk
  · exact hk

theorem Closed.note (h : Closed v) (effect : Effect) : Closed (v.note effect) := {h with}

theorem names_addNode (hv : Sane v) (core : NodeCore)
    (h : (v.nodes.map fun i => (v.node i).name).Nodup) :
    ((v.addNode core).nodes.map fun i => ((v.addNode core).node i).name).Nodup := by
  have hgrows := Grows.addNode v core
  cases hlookup : v.lookupNode core.name with
  | some j => exact names_of_same hv hgrows (View.addNode_nodes_known hlookup) h
  | none =>
    have hold : (v.nodes.map fun i => ((v.addNode core).node i).name) =
        v.nodes.map fun i => (v.node i).name :=
      List.map_congr_left fun i hi => hgrows.name i (hv.nodes_lt i hi)
    rw [View.addNode_nodes hlookup, List.map_append, hold, List.map_singleton, View.addNode_node]
    apply List.Nodup.append h (List.nodup_singleton _)
    intro name hname hnew
    obtain ⟨i, hi, hiname⟩ := List.mem_map.mp hname
    exact View.lookupNode_none.mp hlookup i hi (hiname.trans (List.mem_singleton.mp hnew))

theorem Closed.addNode (hv : Sane v) (h : Closed v) (core : NodeCore) (hnew : Fresh core) :
    Closed (v.addNode core) where
  self := (Grows.addNode v core).nodes _ h.self
  names := names_addNode hv core h.names
  ends := by
    intro i hi k hk
    have hgrows := Grows.addNode v core
    rcases View.addNode_mem hi with hold | hlast
    · have hlt := hv.nodes_lt i hold
      rw [View.addNode_node_of_lt v hlt] at hk
      rw [hgrows.edge k (hv.tree i hlt k hk).1]
      have hends := h.ends i hold k hk
      exact ⟨hgrows.nodes _ hends.1, hgrows.nodes _ hends.2⟩
    · rw [hlast, View.addNode_node, hnew.2.2] at hk
      exact absurd hk List.not_mem_nil

theorem Closed.addEdge (hv : Sane v) (h : Closed v) (e : EdgeCore) (hsource : e.source ∈ v.nodes)
    (htarget : e.target ∈ v.nodes) : Closed (v.addEdge e) where
  self := by
    rw [(Grows.addEdge v e).self, View.addEdge_nodes]
    exact h.self
  names := names_of_same hv (Grows.addEdge v e) (View.addEdge_nodes v e) h.names
  ends := by
    intro i hi k hk
    rw [View.addEdge_nodes] at hi ⊢
    rcases View.addEdge_tree hk with hold | ⟨hlast, _⟩
    · rw [(Grows.addEdge v e).edge k (hv.tree i (hv.nodes_lt i hi) k hold).1]
      exact h.ends i hi k hold
    · rw [hlast, (addEdge_edge v e).2]
      exact ⟨hsource, htarget⟩

theorem Closed.of_move (horphan : ¬ R.orphan) (hv : Sane v) (h : Closed v) (hmove : Move R v w) :
    Closed w := by
  have hset : ∀ i core, core.name = (v.node i).name → core.submesh = (v.node i).submesh →
      core.edgeTree = (v.node i).edgeTree → Closed (v.setNode i core) := by
    intro i core hname hsubmesh htree
    exact h.setNode hv i core hname hsubmesh fun k hk => htree ▸ hk
  cases hmove with
  | addNode core _ hnew => exact h.addNode hv core hnew
  | commit core key _ hnew => exact (h.addNode hv core hnew).note _
  | addEdge e hjoins =>
    have hsource : e.source ∈ v.nodes := by
      rcases hjoins.1 with hmem | hself
      · exact hmem
      · exact hself ▸ h.self
    exact h.addEdge hv e hsource (hjoins.2.2.resolve_right fun hyes => horphan hyes.1)
  | delEdge k => exact h.setNode hv _ _ rfl rfl fun a ha => (List.mem_filter.mp ha).1
  | flip i => exact View.flip_ind (hset i _ rfl rfl rfl) fun _ _ hw => hw.note _
  | unmark i => exact View.unmark_ind (hset i _ rfl rfl rfl) fun _ _ hw => hw.note _
  | mark i => exact hset i _ rfl rfl rfl
  | detach i => exact hset i _ rfl rfl rfl
  | attach c i =>
    have hnode : Closed (v.setNode i {v.node i with connection := some c}) := hset i _ rfl rfl rfl
    exact {hnode with}
  | _ => exact {h with}

end Moves

section Runs

/-- Everything is allowed but edges to a second node of the same name, forgetting
nodes and taking on another name. -/
def edgeRules : Rules :=
  {freeRules (fun _ => True) fun _ _ => trivial with
    orphan := False, forget := False, rename := False}

/-- Events other than forgetting a node and joining another mesh. -/
def keepsNodes : Event → Bool
  | .forget _ _ => false
  | .join _ _ => false
  | _ => true

/-- An ADD_EDGE request does not name the same unknown node twice. -/
def Distinct (m : Mesh) (ev : Event) : Prop :=
  ∀ r ∈ addEdgeOf ev, r.fromName ≠ r.toName ∨ (lookupNode m r.fromName).isSome = true

instance (m : Mesh) (ev : Event) : Decidable (Distinct m ev) :=
  inferInstanceAs (Decidable (∀ r ∈ addEdgeOf ev, _))

theorem allows_of_distinct {m : Mesh} {ev : Event} (h : Distinct m ev)
    (hev : keepsNodes ev = true) : Allows edgeRules m ev := by
  apply allows_of_calls ⟨trivial, trivial, fun _ => trivial, trivial, fun _ => trivial⟩
  · refine ⟨?_, fun _ _ _ => trivial, fun _ _ _ => trivial, fun _ _ => trivial,
      fun _ _ _ => trivial⟩
    intro r hr
    refine ⟨fun _ => trivial, fun _ => trivial, ?_⟩
    intro heq hnone
    rcases h r hr with hne | hsome
    · exact hne heq
    · rw [hnone] at hsome
      exact absurd hsome Bool.false_ne_true
  · exact fun _ => trivial
  · rintro ⟨i, channels, rfl⟩
    exact Bool.false_ne_true hev
  · rintro ⟨peer, payload, rfl⟩
    exact Bool.false_ne_true hev

theorem closed_of_act {v w : View} (hv : Ready edgeRules v) (h : Closed v)
    (hact : Act edgeRules v w) : Closed w := by
  cases hact with
  | move hmove => exact h.of_move (fun hno => hno) hv.toSane hmove
  | start => exact {h with}
  | forget _ hno => exact absurd hno (fun hno => hno)
  | rename _ _ hno => exact absurd hno (fun hno => hno)

/-- As long as no ADD_EDGE request names the same unknown node twice, names stay
unique and the ends of edges stay known. -/
theorem ends_known_along {p : Params} {m : Mesh} {evs : List Event} (hm : Consistent m)
    (hevs : ∀ ev ∈ evs, keepsNodes ev = true) (hrun : Along (step p) Distinct m evs) :
    UniqueNames (run p m evs) ∧ KnownEnds (run p m evs) := by
  have hready : Ready edgeRules (view m) := ⟨hm.sane, Or.inl trivial⟩
  have hclosed : Closed (view m) := ⟨hm.self, hm.names, hm.ends⟩
  have hend := kept_run (fun _ _ => closed_of_act) (fun _ _ h _ _ => allows_of_distinct h.1 h.2)
    hready hclosed (along_and hrun hevs)
  exact ⟨hend.2.names, hend.2.ends⟩

theorem consistent_of_opened {m : Mesh} (h : Opened m) : Consistent m where
  sane := sane_of_opened h
  self := h.self
  names := h.names
  ends := by
    intro i hi k hk
    have htree : (m.node i).edgeTree = [] := (h.fresh i hi).2.2
    rw [htree] at hk
    exact absurd hk List.not_mem_nil

theorem ends_known_two_new_nodes :
    let evs := connected "peer" ++ [.arrive 0 false (.record (coreEdge "x" "y"))]
    UniqueNames (run plainParams (newMesh "self") evs) ∧
      KnownEnds (run plainParams (newMesh "self") evs) :=
  ends_known_along (consistent_of_opened (opened_newMesh (by decide))) (by decide +kernel)
    (by decide +kernel)

/-- Both nodes of the request are made for one name, and the edge leads to the one
that is not in the table. -/
theorem twin_endpoint_unknown :
    let evs := connected "peer" ++ [.arrive 0 false (.record (coreEdge "x" "x"))]
    Consistent (newMesh "self") ∧ (∀ ev ∈ evs, keepsNodes ev = true) ∧
      ¬ (UniqueNames (run plainParams (newMesh "self") evs) ∧
        KnownEnds (run plainParams (newMesh "self") evs)) := by
  intro evs
  have hends : ¬ KnownEnds (run plainParams (newMesh "self") evs) := by decide +kernel
  refine ⟨consistent_of_opened (opened_newMesh (by decide)), by decide +kernel, ?_⟩
  exact fun h => hends h.2

end Runs

end Meshlink.EdgeEndpoints
