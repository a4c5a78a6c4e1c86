import Meshlink.MeshView

/-!
What every move keeps. Nodes and edges keep their names and ends once they are
allocated, known nodes stay known, and everything that a record refers to is
allocated.
-/
namespace Meshlink.ViewGrowth

open Function Relation MeshState MeshView

section Parts

namespace View

variable (v : View)

theorem setNode_node (i j : NodeId) (core : NodeCore) :
    (v.setNode i core).node j = if j = i then core else v.node j := by
  simp only [View.setNode, update_apply]

variable {i : NodeId} {core : NodeCore}

theorem setNode_same {τ : Type} {v : View} {g : NodeCore → τ} (h : g core = g (v.node i))
    (j : NodeId) : g ((v.setNode i core).node j) = g (v.node j) :=
  congrFun (seen_update h) j

theorem setConn_conn (c d : ConnId) (core : ConnCore) :
    (v.setConn c core).conn d = if d = c then core else v.conn d := by
  simp only [View.setConn, update_apply]

theorem lookupNode_mem {v : View} {name : String} (h : v.lookupNode name = some i) :
    i ∈ v.nodes ∧ (v.node i).name = name := by
  have hname := List.find?_some h
  exact ⟨List.mem_of_find?_eq_some h, by simpa using hname⟩

theorem lookupNode_none {v : View} {name : String} :
    v.lookupNode name = none ↔ ∀ i ∈ v.nodes, (v.node i).name ≠ name := by
  simp [View.lookupNode]

theorem addNode_node (core : NodeCore) : (v.addNode core).node v.nextNode = core :=
  update_self _ _ _

theorem addNode_node_of_lt (hi : i < v.nextNode) : (v.addNode core).node i = v.node i :=
  update_of_ne hi.ne _ _

theorem addNode_mem {v : View} (h : i ∈ (v.addNode core).nodes) : i ∈ v.nodes ∨ i = v.nextNode := by
  unfold View.addNode at h
  dsimp only at h
  split at h
  · exact Or.inl h
  · simpa using h

theorem addNode_nodes_known {v : View} {j : NodeId} (h : v.lookupNode core.name = some j) :
    (v.addNode core).nodes = v.nodes := by
  unfold View.addNode
  rw [h]
  rfl

/-- A node with a new name becomes known. -/
theorem addNode_nodes {v : View} (h : v.lookupNode core.name = none) :
    (v.addNode core).nodes = v.nodes ++ [v.nextNode] := by
  unfold View.addNode
  rw [h]
  rfl

/-- A flip changes one node, and may be reported. -/
theorem flip_ind {P : View → Prop} {v : View}
    (hset : P (v.setNode i {v.node i with reachable := !(v.node i).reachable}))
    (hnote : ∀ w online, P w → P (w.note (.report i online))) : P (v.flip i) := by
  unfold View.flip
  dsimp only
  split
  · exact hset
  · exact hnote _ _ hset

theorem unmark_ind {P : View → Prop} {v : View}
    (hset : P (v.setNode i {v.node i with blacklisted := false}))
    (hnote : ∀ w online, P w → P (w.note (.report i online))) : P (v.unmark i) := by
  unfold View.unmark
  dsimp only
  split
  · exact hnote _ _ hset
  · exact hset

/-- Adding an edge changes the tree of one node at most. -/
theorem addEdge_ind {P : View → Prop} {v : View} {e : EdgeCore} (hnew : P (v.newEdge e))
    (hset : ∀ w i tree, P w → P (w.setNode i {w.node i with edgeTree := tree})) :
    P (v.addEdge e) := by
  unfold View.addEdge View.insertEdge
  dsimp only
  split
  · exact hnew
  · exact hset _ _ _ hnew

theorem addConn_conn (core : ConnCore) (c : ConnId) :
    (v.addConn core).conn c = if c = v.nextConn then core else v.conn c := by
  simp only [View.addConn, update_apply]

theorem addEdge_nodes (e : EdgeCore) : (v.addEdge e).nodes = v.nodes :=
  addEdge_ind (P := fun w => w.nodes = v.nodes) rfl fun _ _ _ h => h

/-- A new edge is only put into the tree of its source. -/
theorem addEdge_tree {v : View} {e : EdgeCore} {k : EdgeId}
    (h : k ∈ ((v.addEdge e).node i).edgeTree) :
    k ∈ (v.node i).edgeTree ∨ (k = v.nextEdge ∧ i = e.source) := by
  have hedge : (v.newEdge e).edge v.nextEdge = e := update_self _ _ _
  unfold View.addEdge View.insertEdge at h
  rw [hedge] at h
  dsimp only at h
  split at h
  · exact Or.inl h
  rw [setNode_node] at h
  split at h
  · rename_i heq
    rcases List.mem_append.mp h with hold | hlast
    · exact Or.inl (heq ▸ hold)
    · exact Or.inr ⟨List.mem_singleton.mp hlast, heq⟩
  · exact Or.inl h

end View

end Parts

/-- The later view has all that the earlier one refers to, unchanged. -/
structure Grows (v w : View) : Prop where
  self : w.self = v.self
  started : w.started = v.started
  nodes : ∀ i ∈ v.nodes, i ∈ w.nodes
  nextNode : v.nextNode ≤ w.nextNode
  name : ∀ i < v.nextNode, (w.node i).name = (v.node i).name
  submesh : ∀ i < v.nextNode, (w.node i).submesh = (v.node i).submesh
  nextEdge : v.nextEdge ≤ w.nextEdge
  edge : ∀ k < v.nextEdge, w.edge k = v.edge k
  nextConn : v.nextConn ≤ w.nextConn

namespace Grows

variable (v : View) {w : View}

theorem refl : Grows v v where
  self := rfl
  started := rfl
  nodes := fun _ h => h
  nextNode := Nat.le_refl _
  name := fun _ _ => rfl
  submesh := fun _ _ => rfl
  nextEdge := Nat.le_refl _
  edge := fun _ _ => rfl
  nextConn := Nat.le_refl _

theorem trans {u v : View} (h : Grows u v) (h' : Grows v w) : Grows u w where
  self := h'.self.trans h.self
  started := h'.started.trans h.started
  nodes := fun i hi => h'.nodes i (h.nodes i hi)
  nextNode := h.nextNode.trans h'.nextNode
  name := fun i hi => (h'.name i (hi.trans_le h.nextNode)).trans (h.name i hi)
  submesh := fun i hi => (h'.submesh i (hi.trans_le h.nextNode)).trans (h.submesh i hi)
  nextEdge := h.nextEdge.trans h'.nextEdge
  edge := fun k hk => (h'.edge k (hk.trans_le h.nextEdge)).trans (h.edge k hk)
  nextConn := h.nextConn.trans h'.nextConn

theorem setNode (i : NodeId) (core : NodeCore) (hname : core.name = (v.node i).name)
    (hsubmesh : core.submesh = (v.node i).submesh) : Grows v (v.setNode i core) :=
  {refl v with
    name := fun j _ => View.setNode_same hname j
    submesh := fun j _ => View.setNode_same hsubmesh j}

theorem setConn {v : View} (h : Grows v w) (c : ConnId) (core : ConnCore) :
    Grows v (w.setConn c core) := {h with}

theorem note {v : View} (h : Grows v w) (effect : Effect) : Grows v (w.note effect) := {h with}

theorem addNode (core : NodeCore) : Grows v (v.addNode core) := by
  have hold : ∀ i < v.nextNode, (v.addNode core).node i = v.node i :=
    fun i hi => View.addNode_node_of_lt v hi
  refine {refl v with
    nodes := fun i hi => ?_
    nextNode := Nat.le_succ _
    name := fun i hi => congrArg NodeCore.name (hold i hi)
    submesh := fun i hi => congrArg NodeCore.submesh (hold i hi)}
  unfold View.addNode
  dsimp only
  split
  · exact hi
  · exact List.mem_append_left _ hi

theorem newEdge (e : EdgeCore) : Grows v (v.newEdge e) :=
  {refl v with
    nextEdge := Nat.le_succ _
    edge := fun _ hk => update_of_ne hk.ne _ _}

theorem insertEdge (k : EdgeId) : Grows v (v.insertEdge k) := by
  unfold View.insertEdge
  dsimp only
  split
  · exact refl v
  · exact setNode v _ _ rfl rfl

theorem flip (i : NodeId) : Grows v (v.flip i) :=
  View.flip_ind (setNode v i _ rfl rfl) fun _ _ h => h.note _

theorem unmark (i : NodeId) : Grows v (v.unmark i) :=
  View.unmark_ind (setNode v i _ rfl rfl) fun _ _ h => h.note _

theorem addEdge (e : EdgeCore) : Grows v (v.addEdge e) := (newEdge v e).trans (insertEdge _ _)

theorem of_move {R : Rules} {v : View} (h : Move R v w) : Grows v w := by
  cases h with
  | addNode core => exact addNode v core
  | addEdge e => exact addEdge v e
  | delEdge k => exact setNode v _ _ rfl rfl
  | flip i => exact flip v i
  | mark i => exact setNode v i _ rfl rfl
  | unmark i => exact unmark v i
  | attach c i =>
    refine setConn ?_ _ _
    exact setNode v i _ rfl rfl
  | detach i => exact setNode v i _ rfl rfl
  | addConn => exact {refl v with nextConn := Nat.le_succ _}
  | delConn | invite | discard | hand => exact {refl v with}
  | commit core => exact note (addNode v core) _
  | gone | send | received | channel | raw | stored => exact note (refl v) _
  | call | allow | use | shut | deactivate | setEdge => exact setConn (refl v) _ _

theorem of_moves {R : Rules} {v : View} (h : ReflTransGen (Move R) v w) : Grows v w := by
  induction h with
  | refl => exact refl v
  | tail _ hlast ih => exact ih.trans (of_move hlast)

end Grows

theorem addEdge_edge (v : View) (e : EdgeCore) :
    v.nextEdge < (v.addEdge e).nextEdge ∧ (v.addEdge e).edge v.nextEdge = e := by
  have hgrows := Grows.insertEdge (v.newEdge e) v.nextEdge
  have hedge := hgrows.edge v.nextEdge (Nat.lt_succ_self _)
  exact ⟨(Nat.lt_succ_self _).trans_le hgrows.nextEdge,
    hedge.trans (update_self _ _ _)⟩

/-- Whatever a known record refers to is allocated, and an edge is only in the
tree of its source. -/
structure Sane (v : View) : Prop where
  self_lt : v.self < v.nextNode
  nodes_lt : ∀ i ∈ v.nodes, i < v.nextNode
  tree : ∀ i < v.nextNode, ∀ k ∈ (v.node i).edgeTree, k < v.nextEdge ∧ (v.edge k).source = i
  ends : ∀ k < v.nextEdge, (v.edge k).source < v.nextNode ∧ (v.edge k).target < v.nextNode
  listed : ∀ c ∈ v.connections, c < v.nextConn
  peer : ∀ c < v.nextConn, ∀ i, (v.conn c).node = some i → i < v.nextNode
  edge : ∀ c < v.nextConn, ∀ k, (v.conn c).edge = some k → k < v.nextEdge
  connection : ∀ i < v.nextNode, ∀ c, (v.node i).connection = some c → c < v.nextConn

/-- What holds below a bound and of the new value holds below the next bound. -/
theorem forall_lt_update {α : Type} {P : ℕ → α → Prop} {f : ℕ → α} {n : ℕ} {a : α} (hn : P n a)
    (h : ∀ i < n, P i (f i)) : ∀ i < n + 1, P i (update f n a i) := by
  intro i hi
  rcases Nat.lt_succ_iff_lt_or_eq.mp hi with hlt | rfl
  · rw [update_of_ne hlt.ne]
    exact h i hlt
  · rw [update_self]
    exact hn

namespace Sane

variable {v : View} (h : Sane v)

include h

theorem note (effect : Effect) : Sane (v.note effect) := {h with}

theorem setNode (i : NodeId) (core : NodeCore)
    (htree : i < v.nextNode → ∀ k ∈ core.edgeTree, k < v.nextEdge ∧ (v.edge k).source = i)
    (hconn : i < v.nextNode → ∀ c, core.connection = some c → c < v.nextConn) :
    Sane (v.setNode i core) := by
  refine {h with tree := ?_, connection := ?_}
  · intro j hj k hk
    rw [View.setNode_node] at hk
    split at hk
    · rename_i heq
      rw [heq]
      exact htree (heq ▸ hj) k hk
    · exact h.tree j hj k hk
  · intro j hj c hc
    rw [View.setNode_node] at hc
    split at hc
    · rename_i heq
      exact hconn (heq ▸ hj) c hc
    · exact h.connection j hj c hc

/-- Changes of a node that add no edges and no connection to it. -/
theorem setNode_sub (i : NodeId) (core : NodeCore)
    (hsub : ∀ k ∈ core.edgeTree, k ∈ (v.node i).edgeTree)
    (hconn : ∀ c, core.connection = some c → (v.node i).connection = some c) :
    Sane (v.setNode i core) := by
  apply h.setNode
  · intro hi k hk
    exact h.tree i hi k (hsub k hk)
  · intro hi c hc
    exact h.connection i hi c (hconn c hc)

theorem setConn (c : ConnId) (core : ConnCore)
    (hpeer : c < v.nextConn → ∀ i, core.node = some i → i < v.nextNode)
    (hedge : c < v.nextConn → ∀ k, core.edge = some k → k < v.nextEdge) :
    Sane (v.setConn c core) := by
  refine {h with peer := ?_, edge := ?_}
  · intro d hd i hi
    rw [View.setConn_conn] at hi
    split at hi
    · rename_i heq
      exact hpeer (heq ▸ hd) i hi
    · exact h.peer d hd i hi
  · intro d hd k hk
    rw [View.setConn_conn] at hk
    split at hk
    · rename_i heq
      exact hedge (heq ▸ hd) k hk
    · exact h.edge d hd k hk

/-- Changes of a connection that leave its node and its edge. -/
theorem setConn_same (c : ConnId) (core : ConnCore)
    (hnode : core.node = (v.conn c).node) (hedge : core.edge = (v.conn c).edge) :
    Sane (v.setConn c core) := by
  apply h.setConn
  · intro hc i hi
    exact h.peer c hc i (hnode ▸ hi)
  · intro hc k hk
    exact h.edge c hc k (hedge ▸ hk)

theorem addNode (core : NodeCore) (hnew : Fresh core) : Sane (v.addNode core) := by
  refine {h with
    self_lt := Nat.lt_succ_of_lt h.self_lt
    nodes_lt := fun i hi => ?_
    tree := ?_
    ends := fun k hk => ⟨Nat.lt_succ_of_lt (h.ends k hk).1, Nat.lt_succ_of_lt (h.ends k hk).2⟩
    peer := fun c hc i hi => Nat.lt_succ_of_lt (h.peer c hc i hi)
    connection := ?_}
  · rcases View.addNode_mem hi with hold | rfl
    · exact Nat.lt_succ_of_lt (h.nodes_lt i hold)
    · exact Nat.lt_succ_self _
  · refine forall_lt_update (P := fun i (core : NodeCore) => ∀ k ∈ core.edgeTree,
      k < v.nextEdge ∧ (v.edge k).source = i) ?_ h.tree
    rw [hnew.2.2]
    exact fun _ hk => absurd hk List.not_mem_nil
  · refine forall_lt_update (P := fun _ (core : NodeCore) => ∀ c, core.connection = some c →
      c < v.nextConn) ?_ h.connection
    simp [hnew.2.1]

theorem newEdge (e : EdgeCore) (hsource : e.source < v.nextNode)
    (htarget : e.target < v.nextNode) : Sane (v.newEdge e) := by
  refine {h with
    tree := fun i hi k hk => ?_
    ends := forall_lt_update (P := fun _ (e : EdgeCore) => e.source < v.nextNode ∧
      e.target < v.nextNode) ⟨hsource, htarget⟩ h.ends
    edge := fun c hc k hk => Nat.lt_succ_of_lt (h.edge c hc k hk)}
  have hold := h.tree i hi k hk
  refine ⟨Nat.lt_succ_of_lt hold.1, ?_⟩
  rw [(Grows.newEdge v e).edge k hold.1]
  exact hold.2

theorem insertEdge (k : EdgeId) (hk : k < v.nextEdge) : Sane (v.insertEdge k) := by
  unfold View.insertEdge
  dsimp only
  split
  · exact h
  apply h.setNode
  · intro hsource a ha
    rcases List.mem_append.mp ha with hold | hnew
    · exact h.tree _ hsource a hold
    · rw [List.mem_singleton.mp hnew]
      exact ⟨hk, rfl⟩
  · exact h.connection _

theorem addConn (core : ConnCore) (hnew : core.node = none ∧ core.edge = none) :
    Sane (v.addConn core) := by
  refine {h with
    listed := fun c hc => ?_
    peer := ?_
    edge := ?_
    connection := fun i hi c hc => Nat.lt_succ_of_lt (h.connection i hi c hc)}
  · rcases List.mem_append.mp hc with hold | hlast
    · exact Nat.lt_succ_of_lt (h.listed c hold)
    · rw [List.mem_singleton.mp hlast]
      exact Nat.lt_succ_self _
  · refine forall_lt_update (P := fun _ (core : ConnCore) => ∀ i, core.node = some i →
      i < v.nextNode) ?_ h.peer
    simp [hnew.1]
  · refine forall_lt_update (P := fun _ (core : ConnCore) => ∀ k, core.edge = some k →
      k < v.nextEdge) ?_ h.edge
    simp [hnew.2]

theorem joins_lt {R : Rules} {e : EdgeCore} (hjoins : Joins R v e) :
    e.source < v.nextNode ∧ e.target < v.nextNode := by
  refine ⟨?_, hjoins.2.1⟩
  rcases hjoins.1 with hmem | hself
  · exact h.nodes_lt _ hmem
  · exact hself ▸ h.self_lt

theorem joins_grows {R : Rules} {w : View} {e : EdgeCore} (hjoins : Joins R v e)
    (hgrows : Grows v w) : Joins R w e := by
  obtain ⟨hsource, htarget⟩ := h.joins_lt hjoins
  refine ⟨?_, htarget.trans_le hgrows.nextNode, ?_⟩
  · rcases hjoins.1 with hmem | hself
    · exact Or.inl (hgrows.nodes _ hmem)
    · exact Or.inr (hself.trans hgrows.self.symm)
  rcases hjoins.2.2 with hmem | ⟨horphan, hname⟩
  · exact Or.inl (hgrows.nodes _ hmem)
  · right
    rw [hgrows.name _ hsource, hgrows.name _ htarget]
    exact ⟨horphan, hname⟩

theorem of_move {R : Rules} {w : View} (hmove : Move R v w) : Sane w := by
  cases hmove with
  | addNode core _ hnew => exact h.addNode core hnew
  | commit core key _ hnew => exact (h.addNode core hnew).note _
  | addEdge e hjoins =>
    obtain ⟨hsource, htarget⟩ := h.joins_lt hjoins
    exact (h.newEdge e hsource htarget).insertEdge _ (Nat.lt_succ_self _)
  | delEdge k =>
    apply h.setNode_sub
    · intro a ha
      exact (List.mem_filter.mp ha).1
    · exact fun _ hc => hc
  | flip i =>
    apply View.flip_ind _ fun _ _ hw => hw.note _
    exact h.setNode_sub i _ (fun _ hk => hk) fun _ hc => hc
  | unmark i =>
    apply View.unmark_ind _ fun _ _ hw => hw.note _
    exact h.setNode_sub i _ (fun _ hk => hk) fun _ hc => hc
  | mark i => exact h.setNode_sub i _ (fun _ hk => hk) fun _ hc => hc
  | detach i => exact h.setNode_sub i _ (fun _ hk => hk) (by simp)
  | attach c i _ hc hi =>
    unfold View.attach
    apply setConn
    · apply h.setNode i
      · exact h.tree i
      · intro _ d hd
        exact Option.some.inj hd ▸ hc
    · intro _ j hj
      exact Option.some.inj hj ▸ hi
    · intro hc k hk
      exact h.edge c hc k hk
  | setEdge c edge _ hedge =>
    apply h.setConn
    · intro hc i hi
      exact h.peer c hc i hi
    · intro _ k hk
      exact hedge k hk
  | addConn core _ hnew => exact h.addConn core ⟨hnew.1, hnew.2.1⟩
  | delConn c =>
    have hlisted : ∀ d ∈ (v.delConn c).connections, d < v.nextConn := by
      intro d hd
      exact h.listed d (List.mem_filter.mp hd).1
    exact {h with listed := hlisted}
  | invite | discard | hand => exact {h with}
  | gone | send | received | channel | raw | stored => exact h.note _
  | call | allow | use | shut | deactivate => exact h.setConn_same _ _ rfl rfl

end Sane

section Steady

variable {R : Rules} {v w : View}

/-- What a move can make of the record of a node. -/
inductive Turn (R : Rules) (v : View) (i : NodeId) : NodeCore → Prop
  | same : Turn R v i (v.node i)
  | tree (tree : List EdgeId) : Turn R v i {v.node i with edgeTree := tree}
  | flip (hself : i = v.self → R.asleep) :
      Turn R v i {v.node i with reachable := !(v.node i).reachable}
  | mark (hmark : R.mark) : Turn R v i {v.node i with blacklisted := true}
  | unmark : Turn R v i {v.node i with blacklisted := false}
  | wire (connection : Option ConnId) : Turn R v i {v.node i with connection := connection}

theorem Turn.of_move (hmove : Move R v w) {i : NodeId} (hi : i < v.nextNode) :
    Turn R v i (w.node i) := by
  have hset : ∀ j core, Turn R v j core → Turn R v i ((v.setNode j core).node i) := by
    intro j core hcore
    rw [View.setNode_node]
    split
    · rename_i heq
      exact heq ▸ hcore
    · exact .same
  cases hmove with
  | addNode core | commit core => exact (View.addNode_node_of_lt v hi).symm ▸ .same
  | addEdge e =>
    change Turn R v i (((v.newEdge e).insertEdge v.nextEdge).node i)
    unfold View.insertEdge
    dsimp only
    split
    · exact .same
    · exact hset _ _ (.tree _)
  | delEdge k => exact hset _ _ (.tree _)
  | flip j _ hself =>
    apply View.flip_ind (P := fun w => Turn R v i (w.node i)) _ fun _ _ h => h
    exact hset j _ (.flip hself)
  | mark j hmark => exact hset j _ (.mark hmark)
  | unmark j =>
    apply View.unmark_ind (P := fun w => Turn R v i (w.node i)) _ fun _ _ h => h
    exact hset j _ .unmark
  | attach c j | detach j => exact hset j _ (.wire _)
  | _ => exact .same

/-- A connection that has a name to be used only gets such names. -/
theorem name_of_move (hmove : Move R v w) {c : ConnId} (hc : c < v.nextConn)
    (hname : R.name (v.conn c).name) : R.name (w.conn c).name := by
  have hset : ∀ d core, (d = c → R.name core.name) → R.name ((v.setConn d core).conn c).name := by
    intro d core hcore
    rw [View.setConn_conn]
    split
    · rename_i heq
      exact hcore heq.symm
    · exact hname
  cases hmove with
  | addConn core =>
    change R.name (update v.conn v.nextConn core c).name
    rw [update_of_ne hc.ne]
    exact hname
  | addEdge e =>
    exact View.addEdge_ind (P := fun w => R.name (w.conn c).name) hname fun _ _ _ h => h
  | flip i => exact View.flip_ind (P := fun w => R.name (w.conn c).name) hname fun _ _ h => h
  | unmark i => exact View.unmark_ind (P := fun w => R.name (w.conn c).name) hname fun _ _ h => h
  | call d name hnew => exact hset d _ fun _ => hnew
  | attach d i =>
    unfold View.attach
    rw [View.setConn_conn]
    split
    · rename_i heq
      exact heq ▸ hname
    · exact hname
  | allow d | use d | shut d | deactivate d | setEdge d => exact hset d _ fun heq => heq ▸ hname
  | _ => exact hname

theorem name_of_moves (hmoves : ReflTransGen (Move R) v w) {c : ConnId} (hc : c < v.nextConn)
    (hname : R.name (v.conn c).name) : R.name (w.conn c).name := by
  induction hmoves with
  | refl => exact hname
  | tail hmoves hlast ih =>
    exact name_of_move hlast (hc.trans_le (Grows.of_moves hmoves).nextConn) ih

/-- Nodes do not become blacklisted without being marked. -/
theorem unmarked_of_move (hmove : Move R v w) (hmark : ¬ R.mark) {i : NodeId}
    (hi : i < v.nextNode) (hunmarked : (v.node i).blacklisted = false) :
    (w.node i).blacklisted = false := by
  have hturn := Turn.of_move hmove hi
  generalize w.node i = core at hturn ⊢
  cases hturn with
  | mark hyes => exact absurd hyes hmark
  | unmark => rfl
  | _ => exact hunmarked

theorem unmarked_of_moves (hmoves : ReflTransGen (Move R) v w) (hmark : ¬ R.mark) {i : NodeId}
    (hi : i < v.nextNode) (hunmarked : (v.node i).blacklisted = false) :
    (w.node i).blacklisted = false := by
  induction hmoves with
  | refl => exact hunmarked
  | tail hmoves hlast ih =>
    exact unmarked_of_move hlast hmark (hi.trans_le (Grows.of_moves hmoves).nextNode) ih

end Steady

section Running

variable {R : Rules} {v w : View}

def Started (v : View) : Prop := v.started = true ∧ (v.node v.self).reachable = true

/-- Only a flip changes whether the local node is reachable. -/
theorem reachable_self_of_move (hmove : Move R v w) (hself : v.self < v.nextNode)
    (hawake : ¬ R.asleep) : (w.node v.self).reachable = (v.node v.self).reachable := by
  have hturn := Turn.of_move hmove hself
  generalize w.node v.self = core at hturn ⊢
  cases hturn with
  | flip hflip => exact absurd (hflip rfl) hawake
  | _ => rfl

/-- The references are in order, and the local node runs unless it need not. -/
structure Ready (R : Rules) (v : View) : Prop extends Sane v where
  running : R.asleep ∨ Started v

theorem Ready.of_move (h : Ready R v) (hmove : Move R v w) : Ready R w where
  toSane := h.toSane.of_move hmove
  running := by
    by_cases hawake : R.asleep
    · exact Or.inl hawake
    obtain ⟨hstarted, hreachable⟩ := h.running.resolve_left hawake
    have hgrows := Grows.of_move hmove
    refine Or.inr ⟨hgrows.started.trans hstarted, ?_⟩
    rw [hgrows.self, reachable_self_of_move hmove h.self_lt hawake]
    exact hreachable

theorem Ready.of_moves (h : Ready R v) (hmoves : ReflTransGen (Move R) v w) : Ready R w := by
  induction hmoves with
  | refl => exact h
  | tail _ hlast ih => exact ih.of_move hlast

theorem Sane.of_act (h : Sane v) (hact : Act R v w) : Sane w := by
  cases hact with
  | move hmove => exact h.of_move hmove
  | start => exact {h with}
  | forget i =>
    apply Sane.note
    refine {h with nodes_lt := ?_}
    intro j hj
    exact h.nodes_lt j (List.mem_filter.mp hj).1
  | rename => exact h.setNode_sub _ _ (fun _ hk => hk) fun _ hc => hc

theorem Ready.of_act (h : Ready R v) (hact : Act R v w) : Ready R w := by
  have hsane := h.toSane.of_act hact
  cases hact with
  | move hmove => exact h.of_move hmove
  | start =>
    refine ⟨hsane, ?_⟩
    rcases h.running with hasleep | hrunning
    · exact Or.inl hasleep
    · exact Or.inr ⟨rfl, hrunning.2⟩
  | forget => exact ⟨hsane, h.running⟩
  | rename name submesh _ _ hstarted =>
    refine ⟨hsane, ?_⟩
    rcases h.running with hasleep | hrunning
    · exact Or.inl hasleep
    · exact absurd (hstarted.symm.trans hrunning.1) (by decide)

theorem Ready.of_acts (h : Ready R v) (hacts : ReflTransGen (Act R) v w) : Ready R w := by
  induction hacts with
  | refl => exact h
  | tail _ hlast ih => exact ih.of_act hlast

end Running

end Meshlink.ViewGrowth
