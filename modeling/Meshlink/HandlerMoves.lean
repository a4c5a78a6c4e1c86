import Meshlink.KeyMoves
import Meshlink.MetaHandlers

/-!
The requests of a meta connection, by the moves that handling them makes. An ACK
request attaches the connection to its node; all other requests leave the
connections as they are.
-/
namespace Meshlink.HandlerMoves

open Commands MeshState MetaEdges MetaKeys MetaHandlers
open MeshView ViewGrowth MeshMoves EdgeMoves KeyMoves Relation

variable {R : Rules} {m : Mesh} (p : Params)

section Identification

variable (c : ConnId)

theorem startInvitation_moves (name : String) : Moves R (startInvitation p c name) m := by
  apply Reaches.gets_bind
  split
  · refine Moves.leaves_bind (leaves_modifyConn c fun _ => rfl) fun _ m₁ _ _ => ?_
    refine Reaches.bind (sendMeta_plain c rfl) fun sent m₂ _ => ?_
    refine Reaches.unless fun _ => ?_
    refine Reaches.bind_pure ?_ _
    exact modifyConn_moves c rfl (Move.allow (view m₂) c .metakey (Or.inl rfl))
  · exact Reaches.pure _ _

theorem leaves_nodeReadPublicKey (i : NodeId) : Leaves view (nodeReadPublicKey p i) := by
  refine Leaves.bind (Leaves.gets _) fun m => ?_
  refine Leaves.ite (Leaves.pure true) ?_
  refine Leaves.bind (Leaves.update fun _ => rfl) fun _ => ?_
  split
  · exact Leaves.pure _
  · exact Leaves.bind (leaves_modifyNode i fun _ => rfl) fun _ => Leaves.pure _

theorem startPeer_moves (hname : R.name (m.conn c).name) : Moves R (startPeer p c) m := by
  apply Reaches.gets_bind
  split
  · exact Reaches.pure _ _
  rename_i i _
  refine Moves.leaves_bind (leaves_nodeReadPublicKey p i) fun known m' _ hview => ?_
  apply Reaches.gets_bind
  apply Reaches.ite
  · intro _
    exact moves_of_since
  intro _
  refine Reaches.unless fun _ => ?_
  refine Reaches.bind_pure ?_ _
  have hname' : R.name ((view m').conn c).name := hview ▸ hname
  exact modifyConn_moves c rfl (Move.allow (view m') c .ack (Or.inr hname'))

theorem idH_moves (name : String) (major minor : ℤ) (flags : ℕ) (hm : Ready R (view m)) :
    Moves R (idH p c name major minor flags) m := by
  refine Moves.leaves_bind (leaves_modifyConn c fun _ => rfl) fun _ m₁ _ hview => ?_
  apply Reaches.gets_bind
  refine Reaches.ite (fun _ => startInvitation_moves p c name) fun _ => ?_
  refine Reaches.unless fun hcheck => ?_
  refine Reaches.unless fun _ => ?_
  have hvalid : R.name name := R.valid name (by simpa using hcheck)
  rw [← hview] at hm
  have hcall : view (after (modifyConn c fun cn => {cn with name := name}) m₁) =
      (view m₁).setConn c {(view m₁).conn c with name := name} := view_modifyConn m₁ c _
  refine Moves.bind hm (Moves.of_move hcall (Move.call (view m₁) c name hvalid)) ?_
  intro _ m₂ hrun _ _
  refine Reaches.unless fun _ => ?_
  apply startPeer_moves
  have hname : (m₂.conn c).name = name := by
    cases hrun
    simp
  rw [hname]
  exact hvalid

end Identification

section Activation

variable (c : ConnId)

theorem leaves_takeOutgoing (other : ConnId) : Leaves view (takeOutgoing c other) := by
  refine Leaves.bind (Leaves.gets _) fun m => ?_
  refine Leaves.bind (Leaves.when (leaves_modifyConn c fun _ => rfl)) fun _ => ?_
  exact leaves_modifyConn other fun _ => rfl

theorem edgeDelOf_moves (edge : Option EdgeId) (hedge : ∀ k, edge = some k → k < m.nextEdge)
    (hown : R.own) : Moves R (edgeDelOf edge) m := by
  cases edge with
  | none => exact Reaches.pure _ _
  | some k => exact edgeDel_moves k (hedge k rfl) fun _ => hown

theorem replaceConnection_moves (i : NodeId) (hm : Ready R (view m)) (hi : i < m.nextNode)
    (hwire : R.wire) (hown : R.own) : Moves R (replaceConnection p c i) m := by
  apply Reaches.gets_bind
  split
  · exact Reaches.pure _ _
  rename_i old hold
  have hc : old < m.nextConn := hm.connection i hi old hold
  have hedge : ∀ k, (m.conn old).edge = some k → k < m.nextEdge := hm.edge old hc
  refine Moves.bind hm (Moves.of_leaves (leaves_takeOutgoing c old)) fun _ m₁ _ hm₁ h₁ => ?_
  have hdel : Moves R (edgeDelOf (m.conn old).edge) m₁ :=
    edgeDelOf_moves _ (fun k hk => (hedge k hk).trans_le h₁.nextEdge) hown
  refine Moves.bind hm₁ hdel fun _ m₂ _ hm₂ h₂ => ?_
  refine Moves.bind hm₂ ?_ fun _ m₃ _ hm₃ h₃ => ?_
  · exact modifyConn_moves old rfl (Move.setEdge (view m₂) old none hwire (by simp))
  · have hlt := hc.trans_le ((h₁.trans h₂).trans h₃).nextConn
    exact terminateConnection_moves p old false hm₃ hlt hwire hown

theorem peerNode_moves (hm : Ready R (view m)) (hname : R.name (m.conn c).name) (hwire : R.wire)
    (hown : R.own) : Moves R (peerNode p c) m := by
  apply Reaches.gets_bind
  split
  · exact nodeAdd_moves _ hname ⟨rfl, rfl, rfl⟩
  rename_i i hlookup
  have hi := hm.nodes_lt i (View.lookupNode_mem (v := view m) hlookup).1
  refine Reaches.bind_pure ?_ _
  exact replaceConnection_moves p c i hm hi hwire hown

/-- The node of a connection was known by name, or is a new one. -/
theorem peerNode_returns (m : Mesh) :
    Triple (fun _ => True) (· = m) (peerNode p c) (fun i m' =>
      lookupNode m (m.conn c).name = some i ∨
        (lookupNode m (m.conn c).name = none ∧ i = m.nextNode ∧
          view m' = (view m).addNode (newNode (m.conn c).name).toNodeCore)) := by
  refine Triple.gets_bind (a := m) (fun _ h => h) ?_
  cases hlookup : lookupNode m (m.conn c).name with
  | none =>
    intro m' hm'
    rw [hm']
    exact Or.inr ⟨rfl, rfl, view_nodeAdd m _⟩
  | some j =>
    refine Triple.bind (Q := fun _ _ => True) ?_ fun _ => ?_
    · intro m' _
      split
      · trivial
      · trivial
    · exact Triple.pure j fun _ _ => Or.inl rfl

theorem view_attach (m : Mesh) (c : ConnId) (i : NodeId) (devclass : ℤ) :
    view (after (attach c i devclass) m) = (view m).attach c i := by
  set m₁ := after (modifyNode i fun nd => {nd with
    devclass := devclass
    dirty := true
    tiny := isTiny (m.conn c)
    connection := some c
    nexthop := some i}) m with hm₁
  have hrun : after (attach c i devclass) m =
      after (modifyConn c fun cn =>
        {cn with node := some i, allowRequest := none, active := true}) m₁ := rfl
  have hview : view m₁ = (view m).setNode i {(view m).node i with connection := some c} :=
    view_modifyNode m i _
  rw [hrun, view_modifyConn, hview]
  rfl

theorem terminatePending_moves (hm : Ready R (view m)) (hwire : R.wire) (hown : R.own) :
    Moves R (terminatePending p c) m := by
  apply Reaches.gets_bind
  apply Moves.forEach hm
  intro other hother m₁ hm₁ h₁
  apply Reaches.gets_bind
  apply Reaches.when
  intro _
  refine Moves.bind hm₁ (Moves.of_leaves (leaves_takeOutgoing c other)) fun _ m₂ _ hm₂ h₂ => ?_
  have hlt := (hm.listed other hother).trans_le (h₁.trans h₂).nextConn
  exact terminateConnection_moves p other false hm₂ hlt hwire hown

theorem sendEverything_moves (hm : Ready R (view m)) : Moves R (sendEverything p c) m := by
  apply Reaches.gets_bind
  apply Moves.forEach hm
  intro i hi m₁ hm₁ h₁
  apply Moves.forEach hm₁
  intro k hk m₂ hm₂ h₂
  apply Reaches.gets_bind
  refine Reaches.bind_pure ?_ _
  apply sendAddEdge_moves p _ _ 0 hm₂
  apply linked_of_edge
  have hlt := (hm.tree i (hm.nodes_lt i hi) k hk).1
  exact hlt.trans_le (h₁.trans h₂).nextEdge

theorem addOwnEdge_moves (i : NodeId) (port : String) (devclass : ℤ) (hm : Ready R (view m))
    (hi : i ∈ m.nodes) (hwire : R.wire) (hown : R.own) :
    Moves R (addOwnEdge p c i port devclass) m := by
  apply Reaches.gets_bind
  refine Moves.leaves_bind leaves_of_keeping fun _ m₁ _ hview => ?_
  rw [← hview] at hm
  have hi₁ : i ∈ m₁.nodes := (congrArg (i ∈ View.nodes ·) hview).mpr hi
  have hself : m.self = m₁.self := (congrArg View.self hview).symm
  rw [show (id m).self = m₁.self from hself]
  refine Moves.bind hm ?_ fun k m₂ hrun hm₂ h₂ => ?_
  · apply edgeAdd_moves
    · exact ⟨Or.inr rfl, hm.nodes_lt i hi₁, Or.inl hi₁⟩
    · exact fun _ => hown
  obtain ⟨hk, _⟩ := edgeAdd_edge hrun
  refine Moves.bind hm₂ ?_ fun _ m₃ _ hm₃ h₃ => ?_
  · refine modifyConn_moves c rfl (Move.setEdge (view m₂) c (some k) hwire ?_)
    intro a ha
    exact Option.some.inj ha ▸ hk
  · apply Reaches.gets_bind
    refine Reaches.bind_pure ?_ _
    exact sendAddEdge_moves p _ _ 0 hm₃ (linked_of_edge (hk.trans_le h₃.nextEdge))

theorem ackH_moves (port : String) (devclass : ℤ) (hm : Ready R (view m)) (hc : c < m.nextConn)
    (hname : R.name (m.conn c).name) (hwire : R.wire) (hown : R.own)
    (hattach : R.attach ∨ (¬ R.mark ∧
      ∀ i, lookupNode m (m.conn c).name = some i → (m.node i).blacklisted = false)) :
    Moves R (ackH p c port devclass) m := by
  refine Reaches.unless fun _ => ?_
  have hpeer : Moves R (peerNode p c) m := peerNode_moves p c hm hname hwire hown
  refine Moves.bind hm hpeer fun i m₁ hrun₁ hm₁ h₁ => ?_
  have hmoves := hpeer.returned hrun₁
  have hnode : i ∈ m₁.nodes ∧ ((m₁.node i).blacklisted = true → R.attach) := by
    rcases (peerNode_returns p c m).returns rfl hrun₁ with hlookup | ⟨hnone, hi, hview⟩
    · have hi := (View.lookupNode_mem (v := view m) hlookup).1
      refine ⟨h₁.nodes i hi, ?_⟩
      intro hmarked
      rcases hattach with hyes | ⟨hmark, hunmarked⟩
      · exact hyes
      · have hstill := unmarked_of_moves hmoves hmark (hm.nodes_lt i hi) (hunmarked i hlookup)
        exact absurd (hstill.symm.trans hmarked) (by decide)
    · have hmem : m.nextNode ∈ (view m₁).nodes := by
        have hnew : (view m).lookupNode (newNode (m.conn c).name).name = none := hnone
        rw [hview, View.addNode_nodes hnew]
        exact List.mem_append_right _ List.mem_cons_self
      have hunmarked : ((view m₁).node m.nextNode).blacklisted = false := by
        rw [hview]
        exact congrArg NodeCore.blacklisted (View.addNode_node (view m) _)
      rw [hi]
      exact ⟨hmem, fun hmarked => absurd (hunmarked.symm.trans hmarked) (by decide)⟩
  refine Moves.bind hm₁ (Moves.of_move (view_attach m₁ c i devclass) ?_) fun _ m₂ hrun₂ hm₂ h₂ => ?_
  · refine Move.attach (view m₁) c i hwire (hc.trans_le h₁.nextConn) ?_ ?_ hnode.2
    · exact hm₁.nodes_lt i hnode.1
    · exact name_of_moves hmoves hc hname
  refine Moves.bind hm₂ (terminatePending_moves p c hm₂ hwire hown) fun _ m₃ _ hm₃ h₃ => ?_
  apply Reaches.gets_bind
  refine Moves.bind hm₃ ?_ fun _ m₄ _ hm₄ h₄ => ?_
  · exact Reaches.when fun _ => sendEverything_moves p c hm₃
  have hi₄ : i ∈ m₄.nodes := ((h₂.trans h₃).trans h₄).nodes i hnode.1
  have hedge := addOwnEdge_moves p c i port devclass hm₄ hi₄ hwire hown
  refine Moves.bind hm₄ hedge fun _ m₅ _ hm₅ h₅ => ?_
  refine Moves.bind hm₅ (graph_moves p hm₅) fun _ m₆ _ hm₆ h₆ => ?_
  exact moves_of_since

end Activation

section Requests

/-- What a request needs to be allowed. -/
def Permits (R : Rules) (m : Mesh) (c : ConnId) : Request → Prop
  | .ack _ _ _ => R.wire ∧ R.own ∧ R.name (m.conn c).name ∧ (R.attach ∨ (¬ R.mark ∧
      ∀ i, lookupNode m (m.conn c).name = some i → (m.node i).blacklisted = false))
  | .addEdge r =>
    (lookupNode m r.fromName = none → R.name r.fromName) ∧
      (lookupNode m r.toName = none → R.name r.toName) ∧
      (r.fromName = r.toName → lookupNode m r.fromName = none → R.orphan)
  | _ => True

variable (c : ConnId)

theorem keyChangedH_moves {r : Request} (name : String) (hm : Ready R (view m))
    (hr : endpoints r = none) : Moves R (keyChangedH c r name) m := by
  refine Moves.leaves_bind (leaves_seenRequest r) fun seen m' _ hview => ?_
  refine Reaches.unless fun _ => ?_
  apply Reaches.gets_bind
  rw [← hview] at hm
  split
  · exact Reaches.pure _ _
  · refine Reaches.bind_pure ?_ _
    exact broadcastMeta_moves (some c) r hm (about_plain hr none none) rfl

theorem handleRequest_moves (r : Request) (hm : Ready R (view m)) (hc : c < m.nextConn)
    (hr : Permits R m c r) : Moves R (handleRequest p c r) m := by
  cases r with
  | id name major minor flags => exact idH_moves p c name major minor flags hm
  | ack port devclass _ =>
    obtain ⟨hwire, hown, hname, hattach⟩ := hr
    exact ackH_moves p c port devclass hm hc hname hwire hown hattach
  | addEdge r => exact addEdgeH_moves p c r hm hr.1 hr.2.1 hr.2.2
  | delEdge r => exact delEdgeH_moves p c r hm
  | keyChanged nonce name => exact keyChangedH_moves c name hm rfl
  | reqKey r => exact reqKeyH_moves p c r hm.toSane
  | ansKey r => exact moves_of_since (x := ansKeyH p c r)
  | ping => exact sendMeta_plain c rfl
  | pong | packet =>
    refine Moves.of_leaves (Leaves.bind (leaves_modifyConn c fun _ => rfl) fun _ => ?_)
    exact Leaves.pure true
  | _ => exact Reaches.pure _ _

theorem receiveRequest_moves (r : Request) (hm : Ready R (view m)) (hc : c < m.nextConn)
    (hr : ∀ reqno, reqnoOf r = some reqno → admitted (m.conn c).allowRequest reqno = true →
      Permits R m c r) : Moves R (receiveRequest p c r) m := by
  apply Reaches.gets_bind
  split
  · exact Reaches.pure _ _
  · rename_i reqno hreqno
    refine Reaches.ite (fun hadmitted => ?_) fun _ => Reaches.pure _ _
    exact handleRequest_moves p c r hm hc (hr reqno hreqno hadmitted)

theorem receiveMetaSptps_moves (r : Request) (hm : Ready R (view m)) (hc : c < m.nextConn)
    (hraw : (m.conn c).rawPacket = true → ∀ i, (m.conn c).node = some i →
      (m.node i).blacklisted = true → R.raw i)
    (hr : (m.conn c).rawPacket = false → ∀ reqno, reqnoOf r = some reqno →
      admitted (m.conn c).allowRequest reqno = true → Permits R m c r) :
    Moves R (receiveMetaSptps p c r) m := by
  apply Reaches.gets_bind
  apply Reaches.ite
  · intro hyes
    refine Moves.leaves_bind (leaves_modifyConn c fun _ => rfl) fun _ m' _ hview => ?_
    refine Reaches.bind_pure ?_ _
    apply Reaches.when
    intro _
    have hnode : (m.conn c).node = ((view m').conn c).node := by
      rw [hview]
      rfl
    apply Moves.of_move (w := (view m').note (.received ((view m').conn c).node (.raw r)))
    · rw [← hnode]
      rfl
    · apply Move.raw
      rw [hview]
      exact hraw hyes
  · intro hno
    exact receiveRequest_moves p c r hm hc (hr (by simpa using hno))

end Requests

section Handshakes

variable (c : ConnId) (hm : Ready R (view m)) (hc : c < m.nextConn) (hwire : R.wire) (hown : R.own)

include hm hc hwire hown

theorem flushMeta_moves : Moves R (flushMeta p c) m := by
  refine Moves.bind hm (Moves.of_leaves (leaves_attempt p _)) fun flushed m' _ hm' hgrows => ?_
  apply Reaches.gets_bind
  apply Reaches.when
  intro _
  exact terminateConnection_moves p c _ hm' (hc.trans_le hgrows.nextConn) hwire hown

theorem sendError_moves (err : ℤ) : Moves R (sendError p c err) m := by
  refine Moves.bind hm (sendMeta_plain c rfl) fun _ m' _ hm' hgrows => ?_
  refine Reaches.bind_pure ?_ _
  exact flushMeta_moves p c hm' (hc.trans_le hgrows.nextConn) hwire hown

theorem sendAck_moves : Moves R (sendAck p c) m := by
  apply Reaches.gets_bind
  apply Reaches.ite
  · intro _
    exact sendError_moves p c hm hc hwire hown _
  · intro _
    exact sendMeta_plain c rfl

theorem handshakeDone_moves : Moves R (handshakeDone p c) m := by
  apply Reaches.gets_bind
  refine Reaches.ite (fun _ => sendAck_moves p c hm hc hwire hown) fun _ => ?_
  exact Reaches.pure _ _

theorem receiveHandshake_moves : Moves R (receiveHandshake p c) m := by
  refine Moves.bind hm (Moves.of_leaves (leaves_modifyConn c fun _ => rfl)) ?_
  intro _ m' _ hm' hgrows
  have hc' := hc.trans_le hgrows.nextConn
  exact Reaches.bind_pure (handshakeDone_moves p c hm' hc' hwire hown) _

theorem handleMetaData_moves {receive : Command Mesh Bool} (hreceive : Moves R receive m) :
    Moves R (handleMetaData p c receive) m := by
  refine Moves.bind hm hreceive fun ok m' _ hm' hgrows => ?_
  apply Reaches.gets_bind
  apply Reaches.when
  intro _
  exact terminateConnection_moves p c _ hm' (hc.trans_le hgrows.nextConn) hwire hown

end Handshakes

end Meshlink.HandlerMoves
