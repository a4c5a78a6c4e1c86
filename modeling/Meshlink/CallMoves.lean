import Meshlink.HandlerMoves
import Meshlink.RecordRuns

/-!
The calls of the application and the records of invitations, by the moves that
they make. Forgetting a node is the only call here that takes one away.
-/
namespace Meshlink.CallMoves

open Commands MeshState MetaEdges MetaHandlers MeshCalls
open MeshView ViewGrowth MeshMoves EdgeMoves HandlerMoves Relation

variable {R : Rules} {m : Mesh} (p : Params)

section Blacklisting

theorem discard_moves (cookie : String) :
    Moves R (update fun m : Mesh => {m with
      invitations := m.invitations.filter fun other => other.cookie ≠ cookie}) m :=
  Moves.of_move rfl (Move.discard (view m) cookie)

theorem invitationPurgeNode_moves (name : String) : Moves R (invitationPurgeNode p name) m := by
  apply Reaches.gets_bind
  apply Reaches.forEach
  intro inv _ m'
  apply Reaches.when
  intro _
  refine Moves.leaves_bind (leaves_attempt p _) fun deleted m'' _ _ => ?_
  exact Reaches.when fun _ => discard_moves inv.cookie

variable (i : NodeId)

theorem shutPeer_moves (c : ConnId) (hm : Ready R (view m)) (hc : c < m.nextConn) (hwire : R.wire)
    (hown : R.own) : Moves R (shutPeer p i c) m := by
  apply Reaches.gets_bind
  apply Reaches.when
  intro _
  refine Reaches.bind ?_ fun _ m' _ => ?_
  · apply Reaches.when
    intro _
    exact Reaches.bind_pure (sendError_moves p c hm hc hwire hown _) _
  · exact modifyConn_moves c rfl (Move.shut (view m') c)

theorem reportGone_moves (hmark : R.mark) : Moves R (reportGone i) m := by
  apply Reaches.gets_bind
  apply Reaches.when
  intro _
  refine Moves.leaves_bind (leaves_modifyNode i fun _ => rfl) fun _ m' _ _ => ?_
  exact Moves.of_move rfl (Move.gone (view m') i hmark)

theorem storeNode_moves (hi : i < m.nextNode) : Moves R (storeNode p i) m := by
  refine Reaches.bind (nodeWriteConfig_moves p i hi) fun written m' _ => ?_
  refine Reaches.ite (fun _ => Moves.of_leaves (leaves_attempt p _)) fun _ => ?_
  exact Reaches.pure _ _

theorem blacklist_moves (hm : Ready R (view m)) (hi : i < m.nextNode) (hmark : R.mark)
    (hwire : R.wire) (hown : R.own) : Moves R (blacklist p i) m := by
  apply Reaches.gets_bind
  refine Reaches.unless fun _ => ?_
  refine Reaches.unless fun _ => ?_
  refine Moves.bind hm ?_ fun _ m₁ _ hm₁ h₁ => ?_
  · exact modifyNode_moves i rfl (Move.mark (view m) i hmark)
  refine Moves.bind hm₁ (Moves.forEach hm₁ ?_) fun _ m₂ _ hm₂ h₂ => ?_
  · intro c hc m' hm' hgrows
    have hlt := (hm.listed c hc).trans_le (h₁.trans hgrows).nextConn
    exact shutPeer_moves p i c hm' hlt hwire hown
  refine Moves.bind hm₂ (Moves.of_leaves (leaves_modifyNode i fun _ => rfl)) ?_
  intro _ m₃ _ hm₃ h₃
  refine Moves.bind hm₃ (reportGone_moves i hmark) fun _ m₄ _ hm₄ h₄ => ?_
  refine Moves.bind hm₄ (invitationPurgeNode_moves p _) fun _ m₅ _ hm₅ h₅ => ?_
  apply storeNode_moves
  have hgrows := (((h₁.trans h₂).trans h₃).trans h₄).trans h₅
  exact hi.trans_le hgrows.nextNode

/-- Tell a peer that it is blacklisted, if the connection is activated. -/
def warnPeer (c : ConnId) (active : Bool) : Command Mesh Unit :=
  when active (do
    let _ ← sendError p c blacklistedError
    pure ())

instance (c : ConnId) (active : Bool) : Returns (warnPeer p c active) := Keeping.when

theorem shutPeer_body (i : NodeId) (c : ConnId) :
    after (shutPeer p i c) m = after (when (decide ((m.conn c).node = some i)) (do
      warnPeer p c (m.conn c).active
      modifyConn c fun cn => {cn with shut := true})) m := rfl

theorem after_shutPeer {i : NodeId} {c : ConnId} (hnode : (m.conn c).node = some i) :
    after (shutPeer p i c) m =
      after (modifyConn c fun cn => {cn with shut := true})
        (after (warnPeer p c (m.conn c).active) m) := by
  rw [shutPeer_body, decide_eq_true hnode]
  exact after_then (warnPeer p c (m.conn c).active) _ m

theorem after_shutPeer_other {i : NodeId} {c : ConnId} (hnode : (m.conn c).node ≠ some i) :
    after (shutPeer p i c) m = m := by
  rw [shutPeer_body, decide_eq_false hnode]
  rfl

/-- What blacklist does once the connections are shut down. -/
def settleBlacklist (i : NodeId) (name : String) : Command Mesh Bool := do
  modifyNode i fun nd => {nd with udpConfirmed := false}
  reportGone i
  invitationPurgeNode p name
  storeNode p i

theorem view_reportGone :
    view (after (reportGone i) m) =
      if (m.node i).reachable then (view m).note (.report i false) else view m := by
  have hbody : after (reportGone i) m = after (when (m.node i).reachable (do
    modifyNode i fun nd => {nd with lastUnreachable := m.now}
    record (.report i false))) m := rfl
  rw [hbody]
  cases (m.node i).reachable with
  | false => rfl
  | true =>
    have hleaves := leaves_modifyNode i (f := fun nd => {nd with lastUnreachable := m.now})
      (fun _ => rfl) m
    exact congrArg (fun v => View.note v (.report i false)) hleaves

/-- What holds after the report that the node is gone is kept to the end. -/
theorem settleBlacklist_kept {I : View → Prop} (hI : ∀ v w, Ready R v → I v → Move R v w → I w)
    {i : NodeId} (name : String) (hm : Ready R (view m)) (hi : i < m.nextNode)
    (h : I (if (m.node i).reachable then (view m).note (.report i false) else view m)) :
    Ready R (view (after (settleBlacklist p i name) m)) ∧
      I (view (after (settleBlacklist p i name) m)) := by
  set m₁ := after (modifyNode i fun nd => {nd with udpConfirmed := false}) m
  have hview : view m₁ = view m :=
    leaves_modifyNode i (f := fun nd => {nd with udpConfirmed := false}) (fun _ => rfl) m
  set m₂ := after (reportGone i) m₁
  have hsettle : after (settleBlacklist p i name) m =
      after (invitationPurgeNode p name >>= fun _ => storeNode p i) m₂ :=
    (after_then (modifyNode i _) _ m).trans (after_then (reportGone i) _ m₁)
  have hreach : (m₁.node i).reachable = (m.node i).reachable :=
    congrArg (fun v => (View.node v i).reachable) hview
  have hgone : view m₂ =
      if (m.node i).reachable then (view m).note (.report i false) else view m := by
    rw [← hreach, ← hview]
    exact view_reportGone i
  rw [← hgone] at h
  have hm₂ : Ready R (view m₂) ∧ m₂.nextNode = m.nextNode := by
    split at hgone
    · exact ⟨hgone ▸ ⟨hm.toSane.note _, hm.running⟩, congrArg View.nextNode hgone⟩
    · exact ⟨hgone ▸ hm, congrArg View.nextNode hgone⟩
  have hmoves : Moves R (invitationPurgeNode p name >>= fun _ => storeNode p i) m₂ := by
    refine Moves.bind hm₂.1 (invitationPurgeNode_moves p name) fun _ m₃ _ _ hgrows => ?_
    have hi₂ : i < m₂.nextNode := hm₂.2.symm ▸ hi
    exact storeNode_moves p i (hi₂.trans_le hgrows.nextNode)
  rw [hsettle]
  exact hmoves.keeps hI hm₂.1 h

/-- Blacklisting marks the node first, then shuts its connections down. -/
theorem after_blacklist :
    after (blacklist p i) m = if i = m.self ∨ (m.node i).blacklisted = true then m
      else after (settleBlacklist p i (m.node i).name)
        (after (forEach m.connections (shutPeer p i))
          (after (modifyNode i fun nd => {nd with blacklisted := true}) m)) := by
  have hbody : after (blacklist p i) m = after (if i = m.self then pure false
    else if (m.node i).blacklisted then pure true
    else do
      modifyNode i fun nd => {nd with blacklisted := true}
      forEach m.connections (shutPeer p i)
      settleBlacklist p i (m.node i).name) m := rfl
  rw [hbody]
  by_cases hself : i = m.self
  · rw [if_pos hself, if_pos (Or.inl hself)]
    rfl
  rw [if_neg hself]
  by_cases hmarked : (m.node i).blacklisted = true
  · rw [if_pos hmarked, if_pos (Or.inr hmarked)]
    rfl
  rw [if_neg hmarked, if_neg (not_or.mpr ⟨hself, hmarked⟩), after_then, after_then]

/-- Taking the mark off a node and reporting it again. -/
theorem unmarked_whitelist {E : Mesh → Prop} (v : View) :
    Triple E (fun m => view m = v)
      (modifyNode i (fun nd => {nd with blacklisted := false}) >>= fun _ => reportBack i)
      (fun _ m => view m = v.unmark i) := by
  set core : NodeCore := {v.node i with blacklisted := false} with hcore
  have hnode : (v.setNode i core).node i = core := Function.update_self _ _ _
  refine Triple.bind (set_modifyNode i v core fun nd hnd => ?_) fun _ => ?_
  · rw [hcore, ← hnd]
  refine Triple.bind (Q := fun m' m => view m = v.setNode i core ∧
    (m'.node i).reachable = (v.node i).reachable) ?_ fun m' => ?_
  · apply Triple.gets
    intro m hm
    refine ⟨hm, ?_⟩
    have hsame : (m.node i).toNodeCore = core := (congrArg (fun w => View.node w i) hm).trans hnode
    change (m.node i).toNodeCore.reachable = _
    rw [hsame]
  apply Triple.assume
  intro hreachable
  unfold View.unmark
  rw [hreachable]
  cases hr : (v.node i).reachable with
  | false => exact Triple.pure () fun _ h => h
  | true =>
    refine Triple.bind (unseen_modifyNode i (· = v.setNode i core) fun _ => rfl) fun _ => ?_
    refine Triple.mono (reported_updateNodeStatus i _) (fun _ h => h) fun _ m hm => ?_
    rw [hm, hnode, hcore, hr]
    rfl

theorem whitelist_moves (hm : Ready R (view m)) (hi : i < m.nextNode)
    (hunmark : (m.node i).blacklisted = true → R.unmark i) : Moves R (whitelist p i) m := by
  apply Reaches.gets_bind
  refine Reaches.unless fun _ => ?_
  refine Reaches.unless fun hmarked => ?_
  rw [← bind_assoc]
  have hblack : (m.node i).blacklisted = true := by simpa using hmarked
  have hview := Triple.after (R := fun m' => view m' = (view m).unmark i)
    (unmarked_whitelist i (view m)) m rfl
  refine Moves.bind hm (Moves.of_move hview ?_) fun _ m' _ _ hgrows => ?_
  · exact Move.unmark (view m) i (hunmark hblack) hi hblack
  · exact storeNode_moves p i (hi.trans_le hgrows.nextNode)

/-- The node of a name is known afterwards. -/
theorem namedNode_moves (name : String) (hname : lookupNode m name = none → R.name name) :
    Moves R (namedNode name) m := by
  apply Reaches.gets_bind
  split
  · exact Reaches.pure _ _
  · rename_i hnone
    exact nodeAdd_moves _ (hname hnone) ⟨rfl, rfl, rfl⟩

theorem namedNode_returns {name : String} {i : NodeId} {m' : Mesh}
    (h : namedNode name m = (some i, m')) :
    (lookupNode m name = some i ∧ view m' = view m) ∨
      (lookupNode m name = none ∧ i = m.nextNode ∧
        view m' = (view m).addNode (newNode name).toNodeCore) := by
  rw [namedNode, gets_bind, id] at h
  cases hlookup : lookupNode m name with
  | some j =>
    rw [hlookup] at h
    cases h
    exact Or.inl ⟨rfl, rfl⟩
  | none =>
    rw [hlookup] at h
    cases h
    exact Or.inr ⟨rfl, rfl, view_nodeAdd m _⟩

theorem learned_namedNode {name : String} {i : NodeId} {m' : Mesh}
    (h : namedNode name m = (some i, m')) :
    Learned (view m) (view m') (lookupNode m name) name i := by
  rcases namedNode_returns h with hknown | ⟨hnone, hi, hview⟩
  · exact Or.inl hknown
  · exact Or.inr ⟨hnone, hi, _, rfl, ⟨rfl, rfl, rfl⟩, hview⟩

end Blacklisting

section Invitations

theorem leaves_readUsed (inv : Invitation) : Leaves view (readUsed p inv) := by
  refine Leaves.bind (Leaves.gets _) fun m => ?_
  refine Leaves.ite (Leaves.pure false) ?_
  refine Leaves.bind (leaves_attempt p _) fun readable => ?_
  refine Leaves.ite (Leaves.pure false) ?_
  refine Leaves.bind (leaves_attempt p _) fun deleted => ?_
  exact Leaves.ite (Leaves.pure false) (leaves_attempt p _)

/-- What reading an invitation file leaves, and what it gives. -/
def Taken (v : View) (cookie : String) (file : Option Invitation) (w : View) : Prop :=
  (file = none ∧ w = v) ∨ ((∀ inv, file = some inv → inv ∈ v.invitations ∧ inv.cookie = cookie) ∧
    w = v.discard cookie)

/-- A file that is read has been taken away from everyone else. -/
theorem taken_invitationRead (cookie : String) (v : View) :
    Triple (fun m => view m = v ∨ view m = v.discard cookie) (fun m => view m = v)
      (invitationRead p cookie) (fun file m => Taken v cookie file (view m)) := by
  refine Triple.bind (Q := fun _ m => view m = v) (fun _ h => h) fun renamed => ?_
  refine Triple.bind (Q := fun m' m => view m = v ∧ m'.invitations = v.invitations) ?_ fun m' => ?_
  · apply Triple.gets
    intro m hm
    exact ⟨hm, congrArg View.invitations hm⟩
  apply Triple.assume
  intro hinvitations
  rw [hinvitations]
  cases hfind : v.invitations.find? fun inv => inv.cookie = cookie with
  | none =>
    apply Triple.pure
    intro m hm
    exact Or.inl ⟨rfl, hm⟩
  | some inv =>
    have hinv := List.mem_of_find?_eq_some hfind
    have hcookie : inv.cookie = cookie := by simpa using List.find?_some hfind
    apply Triple.ite
    · intro _
      apply Triple.pure
      intro m hm
      exact Or.inl ⟨rfl, hm⟩
    · intro _
      refine Triple.bind (Q := fun _ m => view m = v.discard cookie) ?_ fun _ => ?_
      · intro m hm
        exact congrArg (View.discard · cookie) hm
      refine Triple.bind (Q := fun _ m => view m = v.discard cookie) ?_ fun ok => ?_
      · exact Triple.stops (Leaves.keeps (leaves_readUsed p inv) (· = v.discard cookie))
          fun _ h => Or.inr h
      apply Triple.pure
      intro m hm
      refine Or.inr ⟨?_, hm⟩
      intro other hother
      cases ok with
      | false => exact absurd hother (by simp)
      | true =>
        cases hother
        exact ⟨hinv, hcookie⟩

theorem written_storeInvitee {E : Mesh → Prop} (name : String) (v : View) :
    Triple E (fun m => view m = v) (storeInvitee p name) (fun _ m => Written v name (view m)) := by
  refine Triple.bind (written_writeHostFile p name v) fun written => ?_
  exact Triple.ite (fun _ _ h => h) fun _ => Triple.pure false fun _ h => h

variable (key : Bytes) (c : ConnId)

theorem commitNode_moves (nd : Node) (key : Bytes) (hname : R.name nd.name)
    (hnew : Fresh nd.toNodeCore) (hnone : lookupNode m nd.name = none) :
    Moves R (nodeAdd nd >>= fun _ => record (.committed nd.name key)) m := by
  have hview : view (after (nodeAdd nd >>= fun _ => record (.committed nd.name key)) m) =
      ((view m).addNode nd.toNodeCore).note (.committed nd.name key) :=
    congrArg (fun v => View.note v (.committed nd.name key)) (view_nodeAdd m nd)
  exact Moves.of_move hview (Move.commit (view m) _ key hname hnew hnone)

theorem commitInvitation_moves (key : Bytes) (hm : Ready R (view m))
    (hname : R.name (m.conn c).name) : Moves R (commitInvitation p c key) m := by
  apply Reaches.gets_bind
  refine Reaches.unless fun hunknown => ?_
  have hnone : lookupNode m (m.conn c).name = none := by simpa using hunknown
  have hstored : ∀ {E : Mesh → Prop}, Triple E (fun m' => view m' = view m)
      (storeInvitee p (m.conn c).name) (fun _ m' => Written (view m) (m.conn c).name (view m')) :=
    written_storeInvitee p _ _
  have hstore : Moves R (storeInvitee p (m.conn c).name) m := by
    apply Moves.of_step
    apply step_of_written (Or.inl hname)
    exact Triple.after (R := fun m' => Written (view m) (m.conn c).name (view m')) hstored m rfl
  refine Moves.bind hm hstore fun stored m₁ hrun _ _ => ?_
  refine Reaches.unless fun _ => ?_
  have hwritten := Triple.returns (hstored (E := fun _ => True)) rfl hrun
  have hnone₁ : (view m₁).lookupNode (m.conn c).name = none := by
    rcases hwritten with hview | hview
    · rw [hview]
      exact hnone
    · rw [hview]
      exact hnone
  rw [← bind_assoc]
  refine Reaches.bind_pure ?_ _
  exact commitNode_moves _ key hname ⟨rfl, rfl, rfl⟩ hnone₁

theorem leaves_invitationSubmesh (name : String) : Leaves view (invitationSubmesh name) := by
  refine Leaves.ite (Leaves.pure _) ?_
  refine Leaves.ite (Leaves.pure _) ?_
  refine Leaves.bind (leaves_lookupOrCreateSubmesh name) fun submesh => ?_
  exact Leaves.pure _

/-- The rest of an invitation, once its file has been handed to the connection. -/
theorem acceptInvitation_moves (key : Bytes) (inv : Invitation) (hm : Ready R (view m))
    (hc : c < m.nextConn) (hname : R.name inv.nodeName) :
    Moves R (do
      modifyConn c fun cn => {cn with name := inv.nodeName}
      let submesh ← invitationSubmesh inv.submesh
      match submesh with
      | none => pure false
      | some submesh =>
        modifyConn c fun cn => {cn with submesh := submesh}
        let committed ← commitFirst p c key
        if !committed then pure false
        else
          modifyConn c fun cn => {cn with invitationUsed := true}
          pure true) m := by
  have hcall : Moves R (modifyConn c fun cn => {cn with name := inv.nodeName}) m :=
    modifyConn_moves c rfl (Move.call (view m) c _ hname)
  refine Moves.bind hm hcall fun _ m₁ hrun hm₁ h₁ => ?_
  have hname₁ : R.name ((view m₁).conn c).name := by
    cases hrun
    simpa [view] using hname
  refine Moves.leaves_bind (leaves_invitationSubmesh _) fun submesh m₂ _ hview₂ => ?_
  cases submesh with
  | none => exact Reaches.pure _ _
  | some submesh =>
    refine Moves.leaves_bind (leaves_modifyConn c fun _ => rfl) fun _ m₃ _ hview₃ => ?_
    rw [← hview₂, ← hview₃] at hm₁ hname₁
    have hcommit : Moves R (commitFirst p c key) m₃ := by
      apply Reaches.gets_bind
      refine Reaches.ite (fun _ => ?_) fun _ => Reaches.pure _ _
      exact commitInvitation_moves p c key hm₁ hname₁
    refine Moves.bind hm₁ hcommit fun committed m₄ hrun₄ _ _ => ?_
    refine Reaches.unless fun _ => ?_
    refine Reaches.bind_pure ?_ _
    have hc₃ : c < m₃.nextConn := by
      have hconns : m₃.nextConn = m₁.nextConn := congrArg View.nextConn (hview₃.trans hview₂)
      exact hconns ▸ hc.trans_le h₁.nextConn
    have hname₄ := name_of_moves (hcommit.returned hrun₄) hc₃ hname₁
    exact modifyConn_moves c rfl (Move.use (view m₄) c hname₄)

theorem processInvitation_moves (cookie key : Bytes) (hm : Ready R (view m)) (hc : c < m.nextConn)
    (hnames : ∀ inv ∈ m.invitations, R.name inv.nodeName) :
    Moves R (processInvitation p c cookie key) m := by
  have hread := taken_invitationRead p (p.cookieHash cookie) (view m)
  have hdiscard : ∀ m', view m' = (view m).discard (p.cookieHash cookie) → Step R m m' := by
    intro m' hview
    unfold Step
    rw [hview]
    exact ReflTransGen.single (Move.discard _ _)
  apply Moves.through
  · intro file m₁ hrun
    have htaken : Taken (view m) _ file (view m₁) := hread.returns rfl hrun
    cases file with
    | none =>
      rcases htaken with ⟨_, hview⟩ | ⟨_, hview⟩
      · change Step R m m₁
        unfold Step
        rw [hview]
      · exact hdiscard m₁ hview
    | some inv =>
      rcases htaken with ⟨hno, _⟩ | ⟨hfile, hview⟩
      · exact absurd hno (by simp)
      obtain ⟨hinv, hcookie⟩ := hfile inv rfl
      set m₂ := after (record (.handed inv.file c)) m₁ with hm₂
      have hview₂ : view m₂ = ((view m).discard inv.cookie).note (.handed inv.file c) := by
        rw [hcookie, ← hview]
        rfl
      have hhand : Move R (view m) (view m₂) := by
        rw [hview₂]
        exact Move.hand (view m) c inv hinv
      have hready := hm.of_move hhand
      have hrest := acceptInvitation_moves p c key inv hready
        (hc.trans_le (Grows.of_move hhand).nextConn) (hnames inv hinv)
      exact ReflTransGen.head hhand hrest.step
  · intro m₁ hstop
    have hstopped := hread m rfl
    rw [hstop] at hstopped
    rcases hstopped with hview | hview
    · unfold Step
      rw [hview]
    · exact hdiscard m₁ hview

theorem receiveInvitationSptps_moves (type : ℕ) (data : Bytes) (hm : Ready R (view m))
    (hc : c < m.nextConn) (hnames : ∀ inv ∈ m.invitations, R.name inv.nodeName)
    (hused : (m.conn c).invitationUsed = true → R.name (m.conn c).name) :
    Moves R (receiveInvitationSptps p c type data) m := by
  apply Reaches.gets_bind
  apply Reaches.ite
  · intro _
    refine Reaches.ite (fun _ => ?_) fun _ => Reaches.pure _ _
    exact processInvitation_moves p c _ _ hm hc hnames
  intro _
  apply Reaches.ite
  · intro _
    exact processInvitation_moves p c _ _ hm hc hnames
  intro _
  refine Reaches.ite (fun hyes => ?_) fun _ => Reaches.pure _ _
  simp only [Bool.and_eq_true] at hyes
  exact commitInvitation_moves p c data hm (hused hyes.2.2)

theorem meshlinkInvite_moves (cookie name : String) (submesh : Option String) :
    Moves R (meshlinkInvite cookie name submesh) m := by
  apply Reaches.gets_bind
  apply Reaches.when
  intro hyes
  simp only [Bool.and_eq_true] at hyes
  exact Moves.of_move rfl (Move.invite (view m)
    ⟨m.nextFile, cookie, name, submeshName submesh, m.now⟩ (R.valid name hyes.1) rfl)

end Invitations

end Meshlink.CallMoves
