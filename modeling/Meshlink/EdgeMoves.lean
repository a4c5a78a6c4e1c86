import Meshlink.MeshMoves
import Meshlink.MetaEdges

/-!
The handlers of requests about edges, by the moves that they make. Every message
about an edge names two nodes that are linked, and is kept from peers in another
submesh.
-/
namespace Meshlink.EdgeMoves

open Commands MeshState MetaEdges MeshView ViewGrowth MeshMoves Relation

variable {R : Rules} {m : Mesh}

section Links

variable {v w : View} {i j : NodeId}

theorem linked_grows (h : Grows v w) (hlinked : Linked v i j) : Linked w i j := by
  rcases hlinked with ⟨hi, hj⟩ | ⟨k, hk, hends⟩
  · exact Or.inl ⟨h.nodes i hi, h.nodes j hj⟩
  · refine Or.inr ⟨k, hk.trans_le h.nextEdge, ?_⟩
    rw [h.edge k hk]
    exact hends

theorem linked_lt (hv : Sane v) (hlinked : Linked v i j) : i < v.nextNode ∧ j < v.nextNode := by
  rcases hlinked with ⟨hi, hj⟩ | ⟨k, hk, rfl, rfl⟩
  · exact ⟨hv.nodes_lt i hi, hv.nodes_lt j hj⟩
  · exact hv.ends k hk

theorem linked_of_edge {k : EdgeId} (hk : k < v.nextEdge) :
    Linked v (v.edge k).source (v.edge k).target := Or.inr ⟨k, hk, rfl, rfl⟩

/-- The edge that has been added is there. -/
theorem edgeAdd_edge {e : Edge} {k : EdgeId} {m' : Mesh} (h : edgeAdd e m = (some k, m')) :
    k < m'.nextEdge ∧ (view m').edge k = e.toEdgeCore := by
  obtain ⟨m'', hrun, hview⟩ := edgeAdd_returns m e
  cases h.symm.trans hrun
  have hadded := addEdge_edge (view m) e.toEdgeCore
  rw [← hview] at hadded
  exact hadded

theorem linked_edgeAdd {e : Edge} {k : EdgeId} {m' : Mesh} (h : edgeAdd e m = (some k, m')) :
    Linked (view m') e.source e.target := by
  obtain ⟨hk, hedge⟩ := edgeAdd_edge h
  refine Or.inr ⟨k, hk, ?_⟩
  rw [hedge]
  exact ⟨rfl, rfl⟩

/-- A request about an edge names two linked nodes of these submeshes. -/
def About (v : View) (r : Request) (a b : Option String) : Prop :=
  ∀ names, endpoints r = some names → ∃ i j, Linked v i j ∧
    ((v.node i).name = names.1 ∧ (v.node j).name = names.2) ∧
    ((v.node i).submesh = a ∧ (v.node j).submesh = b)

theorem about_plain {r : Request} (hr : endpoints r = none) (a b : Option String) :
    About v r a b := by
  intro names hnames
  rw [hr] at hnames
  exact absurd hnames (by simp)

theorem about_grows {r : Request} {a b : Option String} (hv : Sane v) (h : Grows v w)
    (habout : About v r a b) : About w r a b := by
  intro names hnames
  obtain ⟨i, j, hlinked, hname, hsubmesh⟩ := habout names hnames
  obtain ⟨hi, hj⟩ := linked_lt hv hlinked
  refine ⟨i, j, linked_grows h hlinked, ?_, ?_⟩
  · rw [h.name i hi, h.name j hj]
    exact hname
  · rw [h.submesh i hi, h.submesh j hj]
    exact hsubmesh

end Links

section Sending

/-- A message goes out with the submeshes of the nodes that it is about. -/
theorem sendMeta_moves (c : ConnId) (r : Request) {a b : Option String}
    (habout : About (view m) r a b)
    (hvisible : ∀ s, peerSubmesh m (m.conn c) = some (some s) → Visible a s ∧ Visible b s) :
    Moves R (sendMeta c r) m := by
  apply Reaches.gets_bind
  apply Reaches.ite
  · intro _
    apply Reaches.update_bind
    · refine ReflTransGen.single (ReflTransGen.single (Move.send (view m) _ ?_))
      refine ⟨rfl, rfl, rfl, ?_⟩
      intro from' dest hnames
      obtain ⟨i, j, hlinked, hname, hsubmesh⟩ := habout (from', dest) hnames
      refine ⟨i, j, hname.1, hname.2, hlinked, ?_⟩
      intro s _ hpeer
      rw [hsubmesh.1, hsubmesh.2]
      exact hvisible s hpeer
    · exact Reaches.pure _ _
  · intro _
    exact Reaches.pure _ _

/-- Messages that are not about edges may go anywhere. -/
theorem sendMeta_plain (c : ConnId) {r : Request} (hr : endpoints r = none) :
    Moves R (sendMeta c r) m :=
  sendMeta_moves c r (about_plain hr none none) fun _ _ => ⟨Or.inl rfl, Or.inl rfl⟩

theorem visible_of_allows {a : Option String} {s : String}
    (h : submeshAllowsNode a (some s) = true) : Visible a s := by
  cases a with
  | none => exact Or.inl rfl
  | some t =>
    have heq : t = s := by simpa [submeshAllowsNode] using h
    exact Or.inr (congrArg some heq)

/-- A broadcast only goes to peers that may know of both nodes. -/
theorem visible_of_receives {a b : Option String} {origin : Option ConnId} {c : ConnId}
    (hcross : crosses a b = false) (hreceives : receives m origin (a.or b) c = true) {s : String}
    (hpeer : peerSubmesh m (m.conn c) = some (some s)) : Visible a s ∧ Visible b s := by
  unfold receives at hreceives
  simp only [Bool.and_eq_true] at hreceives
  obtain ⟨_, _, _, hallows⟩ := hreceives
  rw [hpeer] at hallows
  cases a with
  | none =>
    refine ⟨Or.inl rfl, ?_⟩
    cases b with
    | none => exact Or.inl rfl
    | some t => exact visible_of_allows hallows
  | some t =>
    have ht : Visible (some t) s := visible_of_allows hallows
    refine ⟨ht, ?_⟩
    cases b with
    | none => exact Or.inl rfl
    | some u =>
      have heq : t = u := by simpa [crosses] using hcross
      exact heq ▸ ht

theorem broadcastMeta_moves (origin : Option ConnId) (r : Request) {a b : Option String}
    (hm : Ready R (view m)) (habout : About (view m) r a b) (hcross : crosses a b = false) :
    Moves R (broadcastMeta origin (a.or b) r) m := by
  apply Reaches.gets_bind
  apply Moves.forEach hm
  intro c _ m' hm' hgrows
  apply Reaches.gets_bind
  apply Reaches.when
  intro hreceives
  refine Reaches.bind_pure ?_ _
  apply sendMeta_moves c r (about_grows hm.toSane hgrows habout)
  intro s hpeer
  exact visible_of_receives hcross hreceives hpeer

theorem sendRequest_moves (t : Target) (r : Request) {a b : Option String}
    (hm : Ready R (view m)) (habout : About (view m) r a b) (hcross : crosses a b = false)
    (hvisible : ∀ c, t = .conn c → ∀ s, peerSubmesh m (m.conn c) = some (some s) →
      Visible a s ∧ Visible b s) : Moves R (sendRequest t (a.or b) r) m := by
  cases t with
  | everyone =>
    exact Reaches.bind_pure (broadcastMeta_moves none r hm habout hcross) _
  | conn c => exact sendMeta_moves c r habout (hvisible c rfl)

variable (p : Params)

theorem mayTell_spec {t : Target} {e : Edge} (h : mayTell m t e = true) :
    crosses (m.node e.source).submesh (m.node e.target).submesh = false ∧
      ∀ c, t = .conn c → ∀ s, peerSubmesh m (m.conn c) = some (some s) →
        Visible (m.node e.source).submesh s ∧ Visible (m.node e.target).submesh s := by
  unfold mayTell at h
  simp only [Bool.and_eq_true] at h
  obtain ⟨hcross, htarget⟩ := h
  refine ⟨by simpa using hcross, ?_⟩
  intro c ht s hpeer
  rw [ht] at htarget
  dsimp only at htarget
  rw [hpeer] at htarget
  simp only [Bool.and_eq_true] at htarget
  exact ⟨visible_of_allows htarget.1, visible_of_allows htarget.2⟩

section Telling

variable (t : Target) (e : Edge) (contradictions : ℤ) (hm : Ready R (view m))
  (hlinked : Linked (view m) e.source e.target)

include hm hlinked

/-- A request about an edge, for those who may be told of it. -/
theorem tellEdge_moves {r : Request} (htell : ¬ (!mayTell m t e) = true)
    (hr : endpoints r = some ((m.node e.source).name, (m.node e.target).name)) :
    Moves R (sendRequest t ((m.node e.source).submesh.or (m.node e.target).submesh) r) m := by
  obtain ⟨hcross, hvisible⟩ := mayTell_spec (by simpa using htell)
  refine sendRequest_moves t _ hm ?_ hcross hvisible
  intro names hnames
  cases hr.symm.trans hnames
  exact ⟨e.source, e.target, hlinked, ⟨rfl, rfl⟩, ⟨rfl, rfl⟩⟩

theorem sendAddEdge_moves : Moves R (sendAddEdge p t e contradictions) m := by
  apply Reaches.gets_bind
  refine Reaches.unless fun htell => ?_
  refine Moves.leaves_bind (leaves_prng p) fun nonce m' hrun _ => ?_
  cases hrun
  exact tellEdge_moves (m := {m with draws := m.draws + 1}) t e hm hlinked htell rfl

theorem sendDelEdge_moves : Moves R (sendDelEdge p t e contradictions) m := by
  apply Reaches.gets_bind
  refine Reaches.unless fun htell => ?_
  refine Moves.leaves_bind (leaves_prng p) fun nonce m' hrun _ => ?_
  cases hrun
  exact tellEdge_moves (m := {m with draws := m.draws + 1}) t e hm hlinked htell rfl

end Telling

theorem leaves_seenRequest (r : Request) : Leaves view (seenRequest r) := by
  refine Leaves.bind (Leaves.gets _) fun m => ?_
  refine Leaves.ite (Leaves.pure true) ?_
  refine Leaves.bind (Leaves.update fun _ => rfl) fun _ => ?_
  exact Leaves.pure false

/-- An edge that is found in the tree of a node is one from that node. -/
theorem lookupEdge_spec {i j : NodeId} {k : EdgeId} (hm : Sane (view m)) (hi : i < m.nextNode)
    (hlookup : lookupEdge m i j = some k) : k < m.nextEdge ∧ (m.edge k).source = i ∧
      (m.node (m.edge k).target).name = (m.node j).name := by
  obtain ⟨hk, hsource⟩ := hm.tree i hi k (List.mem_of_find?_eq_some hlookup)
  have hname := List.find?_some hlookup
  exact ⟨hk, hsource, by simpa using hname⟩

/-- A local node that cannot be reached is not running. -/
theorem own_of_unreachable (hm : Ready R (view m)) (h : ¬ (m.node m.self).reachable = true) :
    R.own := by
  rcases hm.running with hasleep | hstarted
  · exact R.own_of_asleep hasleep
  · exact absurd hstarted.2 h

theorem cleanUpEdge_moves (i : NodeId) (hm : Ready R (view m)) (hi : i < m.nextNode) :
    Moves R (cleanUpEdge p i) m := by
  apply Reaches.gets_bind
  refine Reaches.unless fun hunreachable => ?_
  split
  · exact Reaches.pure _ _
  rename_i k hlookup
  obtain ⟨hk, hsource, _⟩ := lookupEdge_spec hm.toSane hi hlookup
  refine Moves.bind hm (sendDelEdge_moves p _ _ 0 hm (linked_of_edge hk)) ?_
  intro _ m' _ hm' hgrows
  apply edgeDel_moves k (hk.trans_le hgrows.nextEdge)
  intro hself
  have hedge : (m'.edge k).source = i := (congrArg EdgeCore.source (hgrows.edge k hk)).trans hsource
  have hlocal : i = m.self := hedge.symm.trans (hself.trans hgrows.self)
  exact own_of_unreachable hm (hlocal ▸ hunreachable)

end Sending

section Termination

variable (p : Params) (c : ConnId)

theorem modifyConn_moves {f : Conn → Conn} {core : ConnCore} (hf : (f (m.conn c)).toConnCore = core)
    (hmove : Move R (view m) ((view m).setConn c core)) : Moves R (modifyConn c f) m := by
  refine Moves.of_move ?_ hmove
  rw [view_modifyConn, hf]

theorem modifyNode_moves (i : NodeId) {f : Node → Node} {core : NodeCore}
    (hf : (f (m.node i)).toNodeCore = core) (hmove : Move R (view m) ((view m).setNode i core)) :
    Moves R (modifyNode i f) m := by
  refine Moves.of_move ?_ hmove
  rw [view_modifyNode, hf]

theorem detachNode_moves (hwire : R.wire) : Moves R (detachNode c) m := by
  apply Reaches.gets_bind
  split
  · exact Reaches.pure _ _
  rename_i i _
  apply Reaches.when
  intro _
  exact modifyNode_moves i rfl (Move.detach (view m) i hwire)

theorem cleanUpPeer_moves (peer : Option NodeId) (hm : Ready R (view m))
    (hpeer : ∀ i, peer = some i → i < m.nextNode) : Moves R (cleanUpPeer p peer) m := by
  cases peer with
  | none => exact Reaches.pure _ _
  | some i => exact cleanUpEdge_moves p i hm (hpeer i rfl)

theorem dropEdge_moves (report : Bool) (hm : Ready R (view m)) (hc : c < m.nextConn)
    (hwire : R.wire) (hown : R.own) : Moves R (dropEdge p c report) m := by
  apply Reaches.gets_bind
  split
  · exact Reaches.pure _ _
  rename_i k hedge
  have hk := hm.edge c hc k hedge
  have hpeer : ∀ i, (m.conn c).node = some i → i < m.nextNode := hm.peer c hc
  refine Moves.bind hm ?_ fun _ m₁ _ hm₁ h₁ => ?_
  · apply Reaches.when
    intro _
    refine Reaches.bind_pure ?_ _
    exact sendDelEdge_moves p _ _ 0 hm (linked_of_edge hk)
  refine Moves.bind hm₁ ?_ fun _ m₂ _ hm₂ h₂ => ?_
  · exact edgeDel_moves k (hk.trans_le h₁.nextEdge) fun _ => hown
  refine Moves.bind hm₂ ?_ fun _ m₃ _ hm₃ h₃ => ?_
  · exact modifyConn_moves c rfl (Move.setEdge (view m₂) c none hwire (by simp))
  refine Moves.bind hm₃ (graph_moves p hm₃) fun _ m₄ _ hm₄ h₄ => ?_
  apply Reaches.when
  intro _
  apply cleanUpPeer_moves p _ hm₄
  intro i hi
  have hgrows := ((h₁.trans h₂).trans h₃).trans h₄
  exact (hpeer i hi).trans_le hgrows.nextNode

theorem doOutgoingConnection_moves (peer : Option NodeId) (hwire : R.wire) :
    Moves R (doOutgoingConnection p peer) m := by
  cases peer with
  | none => exact Reaches.pure _ _
  | some i =>
    apply Reaches.gets_bind
    refine Moves.leaves_bind (leaves_attempt p _) fun connected m' _ _ => ?_
    apply Reaches.when
    intro _
    refine Reaches.bind_pure ?_ _
    refine Moves.of_move (view_connectionAdd m' _) ?_
    exact Move.addConn _ _ hwire ⟨rfl, rfl, rfl⟩ ⟨rfl, rfl⟩

theorem terminateConnection_moves (report : Bool) (hm : Ready R (view m)) (hc : c < m.nextConn)
    (hwire : R.wire) (hown : R.own) : Moves R (terminateConnection p c report) m := by
  refine Moves.bind hm (detachNode_moves c hwire) fun _ m₁ _ hm₁ h₁ => ?_
  refine Moves.bind hm₁ ?_ fun _ m₂ _ hm₂ h₂ => ?_
  · exact modifyConn_moves c rfl (Move.deactivate (view m₁) c hwire)
  have hc₂ := hc.trans_le (h₁.trans h₂).nextConn
  refine Moves.bind hm₂ (dropEdge_moves p c report hm₂ hc₂ hwire hown) fun _ m₃ _ hm₃ h₃ => ?_
  apply Reaches.gets_bind
  refine Reaches.bind ?_ fun _ m₄ _ => doOutgoingConnection_moves p _ hwire
  exact Moves.of_move rfl (Move.delConn (view m₃) c hwire)

end Termination

section Learning

variable {v w u : View} {i j : NodeId} {known : Option NodeId} {name : String}

/-- A node that was looked up before, or has been added now. -/
def Learned (v w : View) (known : Option NodeId) (name : String) (i : NodeId) : Prop :=
  (known = some i ∧ w = v) ∨
    (known = none ∧ i = v.nextNode ∧ ∃ core, core.name = name ∧ Fresh core ∧ w = v.addNode core)

variable (devclass : ℤ)

theorem learned_addLearned (submesh : Option String) :
    Triple (fun _ => True) (fun m => view m = v) (addLearned name devclass submesh)
      (fun res m => ∀ i, res = some i → Learned v (view m) none name i) := by
  intro m hm i hi
  refine Or.inr ⟨rfl, ?_, _, ?_, ?_, (view_nodeAdd m _).trans (congrArg (View.addNode · _) hm)⟩
  · rw [← Option.some.inj hi, ← hm]
    rfl
  · rfl
  · exact ⟨rfl, rfl, rfl⟩

theorem learned_knownOrLearned (known : Option NodeId) (devclass : ℤ) (submeshName : String) :
    Triple (fun _ => True) (fun m => view m = v) (knownOrLearned known name devclass submeshName)
      (fun res m => ∀ i, res = some i → Learned v (view m) known name i) := by
  cases known with
  | some k =>
    apply Triple.pure
    intro m hm i hi
    exact Or.inl ⟨hi, hm⟩
  | none =>
    apply Triple.ite
    · intro _
      exact learned_addLearned devclass none
    intro _
    refine Triple.bind (Q := fun _ m => view m = v) ?_ fun submesh => ?_
    · exact Triple.stops (Leaves.keeps (leaves_lookupOrCreateSubmesh _) (· = v)) fun _ _ => trivial
    · cases submesh with
      | none => exact Triple.pure _ fun _ _ _ h => absurd h (by simp)
      | some s => exact learned_addLearned devclass (some s)

theorem addLearned_moves (submesh : Option String) (hname : R.name name) :
    Moves R (addLearned name devclass submesh) m := by
  apply Reaches.gets_bind
  refine Reaches.bind_pure ?_ _
  exact nodeAdd_moves _ hname ⟨rfl, rfl, rfl⟩

theorem knownOrLearned_moves (known : Option NodeId) (devclass : ℤ) (submeshName : String)
    (hname : known = none → R.name name) :
    Moves R (knownOrLearned known name devclass submeshName) m := by
  cases known with
  | some k => exact Reaches.pure _ _
  | none =>
    apply Reaches.ite
    · intro _
      exact addLearned_moves devclass none (hname rfl)
    intro _
    refine Moves.leaves_bind (leaves_lookupOrCreateSubmesh _) fun submesh m' _ _ => ?_
    cases submesh with
    | none => exact Reaches.pure _ _
    | some s => exact addLearned_moves devclass (some s) (hname rfl)

theorem learned_new (h : Learned v w none name i) : i = v.nextNode := by
  rcases h with ⟨hi, _⟩ | ⟨_, hi, _⟩
  · exact absurd hi (by simp)
  · exact hi

theorem learned_grows (h : Learned v w known name i) : Grows v w := by
  rcases h with ⟨_, hw⟩ | ⟨_, _, core, _, _, hw⟩
  · rw [hw]
    exact Grows.refl v
  · rw [hw]
    exact Grows.addNode v core

theorem learned_mem (hknown : known = v.lookupNode name) (h : Learned v w known name i) :
    i ∈ w.nodes ∧ (w.node i).name = name := by
  rcases h with ⟨hi, hw⟩ | ⟨hnone, hi, core, hname, _, hw⟩
  · rw [hw]
    exact View.lookupNode_mem (hknown.symm.trans hi)
  · have hfresh : v.lookupNode core.name = none := by rw [hname, ← hknown, hnone]
    rw [hw, hi, View.addNode_node, View.addNode_nodes hfresh]
    exact ⟨by simp, hname⟩

/-- Both ends of the edge of a request have their names, and the second one is
known unless both names were the same unknown one. -/
theorem learned_both (hv : Sane v) {knownTo : Option NodeId} {name' : String}
    (hknown : known = v.lookupNode name) (hknownTo : knownTo = v.lookupNode name')
    (hfirst : Learned v w known name i) (hsecond : Learned w u knownTo name' j) :
    (u.node j).name = name' ∧ j < u.nextNode ∧
      (j ∈ u.nodes ∨ (name = name' ∧ known = none)) := by
  rcases hsecond with ⟨hj, hu⟩ | ⟨hnone, hj, core, hname, _, hu⟩
  · have hmem := View.lookupNode_mem (hknownTo.symm.trans hj)
    have hlt := hv.nodes_lt j hmem.1
    have hgrows := learned_grows hfirst
    rw [hu, hgrows.name j hlt]
    exact ⟨hmem.2, hlt.trans_le hgrows.nextNode, Or.inl (hgrows.nodes j hmem.1)⟩
  · rw [hu, hj, View.addNode_node]
    refine ⟨hname, Nat.lt_succ_self _, ?_⟩
    cases hlookup : w.lookupNode core.name with
    | none =>
      left
      rw [View.addNode_nodes hlookup]
      simp
    | some a =>
      -- The name was not known before, so it is that of the first node.
      right
      have hmem := View.lookupNode_mem hlookup
      rw [hname] at hmem
      have hunknown := View.lookupNode_none.mp (hknownTo.symm.trans hnone)
      rcases hfirst with ⟨_, hw⟩ | ⟨hnew, _, core', hname', _, hw⟩
      · rw [hw] at hmem
        exact absurd hmem.2 (hunknown a hmem.1)
      have hfresh : v.lookupNode core'.name = none := by rw [hname', ← hknown, hnew]
      refine ⟨?_, hnew⟩
      rw [hw, View.addNode_nodes hfresh] at hmem
      rcases List.mem_append.mp hmem.1 with hold | hlast
      · have hsame : ((v.addNode core').node a).name = (v.node a).name :=
          (Grows.addNode v core').name a (hv.nodes_lt a hold)
        exact absurd (hsame.symm.trans hmem.2) (hunknown a hold)
      · rw [List.mem_singleton.mp hlast, View.addNode_node, hname'] at hmem
        exact hmem.2

end Learning

section Handlers

variable (p : Params) (c : ConnId) (r : AddEdge) (i : NodeId)

theorem insertEdge_moves (i j : NodeId) (hm : Ready R (view m)) (hjoins : Joins R (view m) ⟨i, j⟩)
    (hself : i ≠ m.self) (hfrom : (m.node i).name = r.fromName) (hto : (m.node j).name = r.toName) :
    Moves R (insertEdge p c r i j) m := by
  obtain ⟨hi, hj⟩ := hm.joins_lt hjoins
  refine Moves.bind hm (edgeAdd_moves _ hjoins fun h => absurd h hself) fun k m₁ hrun hm₁ h₁ => ?_
  refine Moves.bind hm₁ (graph_moves p hm₁) fun _ m₂ _ hm₂ h₂ => ?_
  apply Reaches.gets_bind
  refine Reaches.unless fun hcross => ?_
  have hgrows := h₁.trans h₂
  refine Reaches.bind_pure ?_ _
  apply broadcastMeta_moves (some c) (.addEdge r) hm₂ _ (by simpa using hcross)
  intro names hnames
  cases hnames
  refine ⟨i, j, linked_grows h₂ (linked_edgeAdd hrun), ⟨?_, ?_⟩, ⟨rfl, rfl⟩⟩
  · exact (hgrows.name i hi).trans hfrom
  · exact (hgrows.name j hj).trans hto

/-- A new edge is made unless it is one of the local node. -/
theorem updateEdge_moves (i j : NodeId) (hm : Ready R (view m)) (hi : i ∈ m.nodes)
    (hjoins : Joins R (view m) ⟨i, j⟩) (hself : i = m.self → j ∈ m.nodes)
    (hfrom : (m.node i).name = r.fromName) (hto : (m.node j).name = r.toName) :
    Moves R (updateEdge p c r i j) m := by
  apply Reaches.gets_bind
  split
  · rename_i k hlookup
    obtain ⟨hk, hsource, _⟩ := lookupEdge_spec hm.toSane (hm.nodes_lt i hi) hlookup
    refine Reaches.unless fun _ => ?_
    apply Reaches.ite
    · intro _
      refine Reaches.bind_pure ?_ _
      exact sendAddEdge_moves p _ _ 0 hm (linked_of_edge hk)
    intro hne
    refine Reaches.unless fun _ => ?_
    have hdel := edgeDel_moves (R := R) (m := m) k hk fun h => absurd (hsource.symm.trans h) hne
    refine Moves.bind hm hdel fun _ m₁ hrun hm₁ h₁ => ?_
    apply insertEdge_moves p c r i j hm₁ (hm.joins_grows hjoins h₁)
    · rw [show m₁.self = m.self from h₁.self]
      exact hne
    · exact (h₁.name i (hm.nodes_lt i hi)).trans hfrom
    · exact (h₁.name j hjoins.2.1).trans hto
  · apply Reaches.ite
    · intro heq
      refine Moves.leaves_bind (Leaves.update fun _ => rfl) fun _ m₁ hrun hview => ?_
      refine Reaches.bind_pure ?_ _
      apply sendDelEdge_moves
      · exact hview ▸ hm
      · rw [hview]
        exact Or.inl ⟨hi, hself heq⟩
    · intro hne
      exact insertEdge_moves p c r i j hm hjoins hne hfrom hto

theorem leaves_handleDuplicateNode : Leaves view (handleDuplicateNode i) := by
  refine Leaves.bind (Leaves.gets _) fun _ => ?_
  exact leaves_modifyNode i fun _ => rfl

section Adding

variable (hm : Ready R (view m)) (hfrom : lookupNode m r.fromName = none → R.name r.fromName)
  (hto : lookupNode m r.toName = none → R.name r.toName)
  (horphan : r.fromName = r.toName → lookupNode m r.fromName = none → R.orphan)

include hm hfrom hto horphan

/-- The names of a request that are not known are names that may be used. -/
theorem addEdgeBetween_moves :
    Moves R (addEdgeBetween p c r (lookupNode m r.fromName) (lookupNode m r.toName)) m := by
  refine Moves.bind hm (knownOrLearned_moves _ _ _ hfrom) fun first m₁ hrun₁ hm₁ h₁ => ?_
  have hfirst := (learned_knownOrLearned _ _ _).returns rfl hrun₁
  cases first with
  | none => exact Reaches.pure _ _
  | some i =>
    have hlearned := hfirst i rfl
    refine Moves.leaves_bind (Leaves.when (leaves_handleDuplicateNode i)) fun _ m₂ _ hview₂ => ?_
    refine Moves.leaves_bind (leaves_modifyNode i fun _ => rfl) fun _ m₃ _ hview₃ => ?_
    have hview : view m₃ = view m₁ := hview₃.trans hview₂
    rw [← hview] at hm₁ hlearned
    refine Moves.bind hm₁ (knownOrLearned_moves _ _ _ hto) fun second m₄ hrun₄ hm₄ h₄ => ?_
    have hsecond := (learned_knownOrLearned _ _ _).returns rfl hrun₄
    cases second with
    | none => exact Reaches.pure _ _
    | some j =>
      refine Moves.leaves_bind (leaves_modifyNode j fun _ => rfl) fun _ m₅ _ hview₅ => ?_
      obtain ⟨himem, hiname⟩ := learned_mem rfl hlearned
      obtain ⟨hjname, hj, hjmem⟩ := learned_both hm.toSane rfl rfl hlearned (hsecond j rfl)
      have hi := hm₁.nodes_lt i himem
      have hiname₄ : ((view m₄).node i).name = r.fromName := (h₄.name i hi).trans hiname
      have hjoins : Joins R (view m₄) ⟨i, j⟩ := by
        refine ⟨Or.inl (h₄.nodes i himem), hj, ?_⟩
        rcases hjmem with hmem | ⟨heq, hnone⟩
        · exact Or.inl hmem
        · exact Or.inr ⟨horphan heq hnone, (hjname.trans heq.symm).trans hiname₄.symm⟩
      have hself : i = (view m₄).self → j ∈ (view m₄).nodes := by
        intro hlocal
        rcases hjmem with hmem | ⟨_, hnone⟩
        · exact hmem
        -- A node that has just been added is not the local one.
        rw [show lookupNode m r.fromName = none from hnone] at hlearned
        have hnew := learned_new hlearned
        have hsame : i = m.self := hlocal.trans ((h₄.self.trans (hview ▸ rfl)).trans h₁.self)
        exact absurd (hsame.symm.trans hnew) hm.self_lt.ne
      rw [← hview₅] at hm₄ hjoins hself hiname₄ hjname
      apply updateEdge_moves p c r i j hm₄ _ hjoins hself hiname₄ hjname
      have himem₅ := h₄.nodes i himem
      rw [← hview₅] at himem₅
      exact himem₅

theorem addEdgeH_moves : Moves R (addEdgeH p c r) m := by
  refine Reaches.unless fun _ => ?_
  refine Reaches.unless fun _ => ?_
  refine Reaches.unless fun _ => ?_
  refine Reaches.unless fun _ => ?_
  refine Moves.leaves_bind (leaves_seenRequest _) fun seen m' _ hview => ?_
  refine Reaches.unless fun _ => ?_
  apply Reaches.gets_bind
  have hsame : ∀ name, lookupNode m' name = lookupNode m name :=
    fun name => congrArg (View.lookupNode · name) hview
  rw [← hview] at hm
  refine addEdgeBetween_moves p c r hm ?_ ?_ ?_
  · exact fun h => hfrom ((hsame _).symm.trans h)
  · exact fun h => hto ((hsame _).symm.trans h)
  · exact fun heq h => horphan heq ((hsame _).symm.trans h)

end Adding

theorem removeEdge_moves (r : DelEdge) (j : NodeId) (k : EdgeId) (hm : Ready R (view m))
    (hj : j < m.nextNode) (hk : k < m.nextEdge) (hself : (m.edge k).source ≠ m.self)
    (hfrom : (m.node (m.edge k).source).name = r.fromName)
    (hto : (m.node (m.edge k).target).name = r.toName) : Moves R (removeEdge p c r j k) m := by
  apply Reaches.gets_bind
  refine Reaches.unless fun hcross => ?_
  have hforward : Moves R (forwardRequest c ((m.node (m.edge k).source).submesh.or
      (m.node (m.edge k).target).submesh) (.delEdge r)) m := by
    apply broadcastMeta_moves (some c) (.delEdge r) hm _ (by simpa using hcross)
    intro names hnames
    cases hnames
    exact ⟨_, _, linked_of_edge hk, ⟨hfrom, hto⟩, ⟨rfl, rfl⟩⟩
  refine Moves.bind hm hforward fun _ m₁ _ hm₁ h₁ => ?_
  refine Moves.bind hm₁ ?_ fun _ m₂ _ hm₂ h₂ => ?_
  · apply edgeDel_moves k (hk.trans_le h₁.nextEdge)
    intro heq
    have hsource : (m₁.edge k).source = (m.edge k).source := congrArg EdgeCore.source (h₁.edge k hk)
    exact absurd (hsource.symm.trans (heq.trans h₁.self)) hself
  refine Moves.bind hm₂ (graph_moves p hm₂) fun _ m₃ _ hm₃ h₃ => ?_
  refine Reaches.bind_pure ?_ _
  exact cleanUpEdge_moves p j hm₃
    (hj.trans_le ((h₁.trans h₂).trans h₃).nextNode)

theorem delEdgeBetween_moves (r : DelEdge) (i j : NodeId) (hm : Ready R (view m)) (hi : i ∈ m.nodes)
    (hj : j ∈ m.nodes) (hfrom : (m.node i).name = r.fromName) (hto : (m.node j).name = r.toName) :
    Moves R (delEdgeBetween p c r i j) m := by
  refine Moves.leaves_bind (Leaves.when (leaves_handleDuplicateNode i)) fun _ m₁ _ hview => ?_
  apply Reaches.gets_bind
  rw [← hview] at hm
  have hi₁ : i ∈ m₁.nodes := (congrArg (i ∈ View.nodes ·) hview).mpr hi
  have hj₁ : j ∈ m₁.nodes := (congrArg (j ∈ View.nodes ·) hview).mpr hj
  have hname : ∀ n, (m₁.node n).name = (m.node n).name :=
    fun n => congrArg (fun v => (View.node v n).name) hview
  split
  · exact Reaches.pure _ _
  rename_i k hlookup
  obtain ⟨hk, hsource, htarget⟩ := lookupEdge_spec hm.toSane (hm.nodes_lt i hi₁) hlookup
  apply Reaches.ite
  · intro _
    refine Moves.leaves_bind (Leaves.update fun _ => rfl) fun _ m₂ _ hview₂ => ?_
    refine Reaches.bind_pure ?_ _
    rw [← hview₂] at hm
    apply sendAddEdge_moves _ _ _ _ hm
    rw [hview₂]
    exact linked_of_edge hk
  · intro hself
    apply removeEdge_moves p c r j k hm (hm.nodes_lt j hj₁) hk hself
    · rw [hsource, hname]
      exact hfrom
    · rw [htarget, hname]
      exact hto

theorem delEdgeH_moves (r : DelEdge) (hm : Ready R (view m)) : Moves R (delEdgeH p c r) m := by
  refine Moves.leaves_bind (leaves_seenRequest _) fun seen m' _ hview => ?_
  refine Reaches.unless fun _ => ?_
  apply Reaches.gets_bind
  rw [← hview] at hm
  split
  · rename_i i j hfrom hto
    have hi := View.lookupNode_mem (v := view m') hfrom
    have hj := View.lookupNode_mem (v := view m') hto
    exact delEdgeBetween_moves p c r i j hm hi.1 hj.1 hi.2 hj.2
  · exact Reaches.pure _ _

end Handlers

end Meshlink.EdgeMoves
