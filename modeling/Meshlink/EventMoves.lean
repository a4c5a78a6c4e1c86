import Meshlink.CallMoves
import Meshlink.MeshEvents

/-!
Every event of a mesh, by what it does to the view. All of them make moves; only
forgetting a node and joining another mesh do more.
-/
namespace Meshlink.EventMoves

open Commands MeshState MeshGraph MetaHandlers MeshCalls HostFiles MeshEvents
open MeshView ViewGrowth MeshMoves EdgeMoves KeyMoves HandlerMoves CallMoves Relation
open Packmsg hiding Bytes

variable {R : Rules} {m : Mesh} (p : Params)

section HostFiles

/-- What comes out of a host file is a new node of that name. -/
def Named (name : String) (nd : Node) : Prop := nd.name = name ∧ Fresh nd.toNodeCore

variable {name : String} (nd : Node) (input : Input)

theorem leaves_readCanonical : Leaves view (readCanonical nd input) := by
  unfold readCanonical
  split
  · exact Leaves.stop
  · exact Leaves.pure _

theorem leaves_readDetails : Leaves view (readDetails nd input) := by
  unfold readDetails
  dsimp only
  exact Leaves.ite (Leaves.pure none) (leaves_readCanonical _ _)

theorem leaves_readSubmesh : Leaves view (readSubmesh nd input) := by
  unfold readSubmesh
  split
  · exact Leaves.stop
  refine Leaves.ite (leaves_readDetails nd _) ?_
  refine Leaves.bind (leaves_lookupOrCreateSubmesh _) fun submesh => ?_
  cases submesh with
  | none => exact Leaves.pure none
  | some s => exact leaves_readDetails _ _

theorem leaves_nodeReadFromConfig (name : String) (config : Bytes) :
    Leaves view (nodeReadFromConfig name config) := by
  unfold nodeReadFromConfig
  dsimp only
  refine Leaves.ite (Leaves.pure none) ?_
  split
  · exact Leaves.pure none
  · exact Leaves.ite (Leaves.pure none) (leaves_readSubmesh _ _)

theorem named_readTimes {nd nd' : Node} {input : Input} (hnd : Named name nd)
    (h : readTimes nd input = some nd') : Named name nd' := by
  unfold readTimes at h
  dsimp only at h
  split at h
  · cases h
    exact hnd
  · exact absurd h (by simp)

/-- The node that a part of the reader returns, if any, is named. -/
abbrev Reads (name : String) (x : Command Mesh (Option Node)) : Prop :=
  Triple (fun _ => True) (fun _ => True) x fun res _ => ∀ nd, res = some nd → Named name nd

theorem reads_none (name : String) : Reads name (pure none) :=
  Triple.pure none fun _ _ _ h => absurd h (by simp)

theorem reads_readCanonical {nd : Node} (hnd : Named name nd) (input : Input) :
    Reads name (readCanonical nd input) := by
  unfold readCanonical
  split
  · exact Triple.stop fun _ h => h
  apply Triple.pure
  intro _ _ nd' hnd'
  refine named_readTimes ?_ hnd'
  exact hnd

theorem reads_readDetails {nd : Node} (hnd : Named name nd) (input : Input) :
    Reads name (readDetails nd input) := by
  unfold readDetails
  dsimp only
  refine Triple.ite (fun _ => reads_none name) fun _ => reads_readCanonical ?_ _
  exact hnd

theorem reads_readSubmesh {nd : Node} (hnd : Named name nd) (input : Input) :
    Reads name (readSubmesh nd input) := by
  unfold readSubmesh
  split
  · exact Triple.stop fun _ h => h
  refine Triple.ite (fun _ => reads_readDetails hnd _) fun _ => ?_
  refine Triple.bind (Q := fun _ _ => True) ?_ fun submesh => ?_
  · intro m _
    split
    · trivial
    · trivial
  · cases submesh with
    | none => exact reads_none name
    | some s =>
      apply reads_readDetails
      exact hnd

theorem reads_nodeReadFromConfig (name : String) (config : Bytes) :
    Reads name (nodeReadFromConfig name config) := by
  unfold nodeReadFromConfig
  dsimp only
  refine Triple.ite (fun _ => reads_none name) fun _ => ?_
  split
  · exact reads_none name
  · exact Triple.ite (fun _ => reads_none name) fun _ => reads_readSubmesh ⟨rfl, rfl, rfl, rfl⟩ _

theorem checkId_of_hostName {config : Bytes} (h : hostName config = some name) :
    checkId name = true := by
  unfold hostName at h
  dsimp only at h
  split at h
  · exact absurd h (by simp)
  split at h
  · rename_i hvalid
    cases h
    exact hvalid.2
  · exact absurd h (by simp)

theorem writeHostFile_moves (name : String) (hname : R.name name) :
    Moves R (writeHostFile p name) m := by
  apply Moves.of_step
  apply step_of_written (Or.inl hname)
  exact Triple.after (R := fun m' => Written (view m) name (view m'))
    (written_writeHostFile p name (view m)) m rfl

theorem addHost_moves (hname : R.name nd.name) (hnew : Fresh nd.toNodeCore) :
    Moves R (addHost p nd) m := by
  refine Reaches.bind (writeHostFile_moves p nd.name hname) fun written m' _ => ?_
  refine Reaches.unless fun _ => ?_
  refine Reaches.bind_pure ?_ _
  exact nodeAdd_moves _ hname hnew

theorem importEntries_moves (count : ℕ) (input : Input) :
    Moves R (importEntries p count input) m := by
  induction count generalizing input m with
  | zero => exact Reaches.pure _ _
  | succ count ih =>
    unfold importEntries
    split
    · exact Reaches.pure _ _
    · exact Reaches.pure _ _
    rename_i config rest _ _
    apply Reaches.gets_bind
    split
    · exact Reaches.pure _ _
    rename_i name hhost
    have hname := R.valid name (checkId_of_hostName hhost)
    refine Reaches.ite (fun _ => ih rest) fun _ => ?_
    refine Moves.leaves_bind (leaves_nodeReadFromConfig _ _) fun res m' hrun _ => ?_
    have hread := (reads_nodeReadFromConfig _ _).returns trivial hrun
    cases res with
    | none => exact Reaches.pure _ _
    | some nd =>
      obtain ⟨hnd, hnew⟩ := hread nd rfl
      refine Reaches.bind (addHost_moves p nd (hnd ▸ hname) hnew) fun added m'' _ => ?_
      exact Reaches.unless fun _ => ih rest

theorem meshlinkImport_moves (data : Bytes) : Moves R (meshlinkImport p data) m := by
  unfold meshlinkImport
  dsimp only
  refine Reaches.unless fun _ => ?_
  refine Reaches.unless fun _ => ?_
  refine Moves.leaves_bind (Leaves.update fun _ => rfl) fun _ m₁ _ _ => ?_
  refine Reaches.bind (importEntries_moves p _ _) fun rest m₂ _ => ?_
  cases rest with
  | none => exact Reaches.pure _ _
  | some rest =>
    apply Moves.of_leaves
    refine Leaves.bind (Leaves.update fun _ => rfl) fun _ => ?_
    exact Leaves.ite (Leaves.pure false) (leaves_attempt p _)

theorem joinEntries_moves (peer : Option Sockaddr) (count : ℕ) (input : Input) :
    Moves R (joinEntries p peer count input) m := by
  induction count generalizing peer input m with
  | zero => exact Reaches.pure _ _
  | succ count ih =>
    unfold joinEntries
    split
    · exact Reaches.pure _ _
    · exact Reaches.pure _ _
    rename_i config rest _ _
    apply Reaches.gets_bind
    split
    · exact Reaches.pure _ _
    rename_i name hhost
    have hname := R.valid name (checkId_of_hostName hhost)
    refine Reaches.unless fun _ => ?_
    refine Moves.leaves_bind (leaves_nodeReadFromConfig _ _) fun res m' hrun _ => ?_
    have hread := (reads_nodeReadFromConfig _ _).returns trivial hrun
    cases res with
    | none => exact Reaches.pure _ _
    | some nd =>
      obtain ⟨hnd, hnew⟩ := hread nd rfl
      have hcore : (withPeer peer nd).toNodeCore = nd.toNodeCore := by
        cases peer with
        | none => rfl
        | some sa => rfl
      have hnd' : (withPeer peer nd).name = name := (congrArg NodeCore.name hcore).trans hnd
      have hadd := addHost_moves (R := R) (m := m') p (withPeer peer nd) (hnd' ▸ hname)
        (hcore ▸ hnew)
      refine Reaches.bind hadd fun added m'' _ => ?_
      exact Reaches.unless fun _ => ih none rest

end HostFiles

section Acts

def ActStep (R : Rules) (m n : Mesh) : Prop := ReflTransGen (Act R) (view m) (view n)

abbrev Acts {α : Type} (R : Rules) (x : Command Mesh α) (m : Mesh) : Prop := Reaches (ActStep R) x m

variable {α : Type}

theorem Acts.of_moves {x : Command Mesh α} (h : Moves R x m) : Acts R x m := by
  apply ReflTransGen.single
  exact ReflTransGen.mono (fun _ _ hmove => Act.move hmove) _ _ h.step

theorem Acts.of_act {x : Command Mesh α} {w : View} (hview : view (after x m) = w)
    (hact : Act R (view m) w) : Acts R x m := by
  apply ReflTransGen.single
  unfold ActStep
  rw [hview]
  exact ReflTransGen.single hact

theorem Acts.step {x : Command Mesh α} (h : Acts R x m) : ActStep R m (after x m) := by
  have hlast : ∀ n n', ActStep R m n → ActStep R n n' → ActStep R m n' :=
    fun _ _ hsofar hnext => hsofar.trans hnext
  exact kept_by_steps hlast h ReflTransGen.refl

theorem nodeDel_acts (i : NodeId) (name : String) (hm : Ready R (view m)) (hi : i < m.nextNode)
    (hname : (m.node i).name = name) (hown : R.own) (hforget : R.forget) :
    Acts R (nodeDel i >>= fun _ => record (.forgotten name)) m := by
  unfold nodeDel
  rw [bind_assoc]
  apply Reaches.gets_bind
  rw [bind_assoc]
  have hdel : Moves R (forEach (m.node i).edgeTree edgeDel) m := by
    apply Moves.forEach hm
    intro k hk m' _ hgrows
    have hlt := (hm.tree i hi k hk).1
    exact edgeDel_moves k (hlt.trans_le hgrows.nextEdge) fun _ => hown
  refine Reaches.bind (Acts.of_moves hdel) fun _ m' hrun => ?_
  have hsame : (m'.node i).name = (m.node i).name := (hdel.grows hrun).name i hi
  refine Acts.of_act ?_ (Act.forget (view m') i hforget)
  rw [← hname, ← hsame]
  rfl

theorem meshlinkForgetNode_acts (i : NodeId) (channels : Bool) (hm : Ready R (view m))
    (hi : i < m.nextNode) (hown : R.own) (hforget : R.forget) :
    Acts R (meshlinkForgetNode p i channels) m := by
  apply Reaches.gets_bind
  refine Reaches.unless fun _ => ?_
  refine Reaches.bind (Acts.of_moves (Moves.of_leaves (leaves_attempt p _))) ?_
  intro deleted m₁ hrun
  cases hrun
  refine Reaches.unless fun _ => ?_
  have hpurge := invitationPurgeNode_moves (R := R) (m := {m with ops := m.ops + 1}) p
    (m.node i).name
  refine Reaches.bind (Acts.of_moves hpurge) fun _ m₂ hrun₂ => ?_
  have hm₂ := hpurge.ready hrun₂ hm
  have h₂ := hpurge.grows hrun₂
  rw [← bind_assoc]
  refine Reaches.bind ?_ fun _ m₃ _ => Acts.of_moves (Moves.of_leaves (leaves_attempt p _))
  exact nodeDel_acts i _ hm₂ (hi.trans_le h₂.nextNode) (h₂.name i hi) hown hforget

theorem checkId_of_readIdentity {payload : Bytes} {identity : Identity}
    (h : readIdentity payload = some identity) : checkId identity.name = true := by
  unfold readIdentity at h
  dsimp only at h
  split at h
  · exact absurd h (by simp)
  split at h
  · split at h
    · exact absurd h (by simp)
    rename_i hcheck
    split at h
    · exact absurd h (by simp)
    split at h
    · exact absurd h (by simp)
    · cases h
      simpa using hcheck
  · exact absurd h (by simp)

theorem takeIdentity_acts (identity : Identity) (hrename : R.rename) (hname : R.name identity.name)
    (hstarted : m.threadstarted = false) : Acts R (takeIdentity identity) m := by
  refine Reaches.bind (Acts.of_moves (Moves.of_leaves (leaves_lookupOrCreateSubmesh _))) ?_
  intro submesh m₁ hrun
  have hview : view m₁ = view m := by
    have hleft := leaves_lookupOrCreateSubmesh identity.submesh m
    unfold after at hleft
    rw [hrun] at hleft
    exact hleft
  have hstarted₁ : (view m₁).started = false := by
    rw [hview]
    exact hstarted
  apply Reaches.gets_bind
  refine Acts.of_act ?_ (Act.rename (view m₁) identity.name submesh hrename hname hstarted₁)
  exact view_modifyNode {m₁ with name := identity.name} m₁.self _

theorem initStorage_moves (name : String) (hname : R.name name) :
    Moves R (initStorage p name) m := by
  refine Moves.leaves_bind (leaves_attempt p _) fun created m₁ _ _ => ?_
  refine Reaches.unless fun _ => ?_
  refine Moves.leaves_bind (leaves_attempt p _) fun written m₂ _ _ => ?_
  exact Reaches.unless fun _ => writeHostFile_moves p name hname

theorem finalizeJoin_acts (peer : Option Sockaddr) (payload : Bytes) (hrename : R.rename)
    (hstarted : m.threadstarted = false) : Acts R (finalizeJoin p peer payload) m := by
  unfold finalizeJoin
  split
  · exact Reaches.pure _ _
  rename_i identity hidentity
  have hname := R.valid _ (checkId_of_readIdentity hidentity)
  refine Reaches.bind (takeIdentity_acts identity hrename hname hstarted) fun _ m₁ _ => ?_
  refine Reaches.bind (Acts.of_moves (initStorage_moves p _ hname)) fun ready m₂ _ => ?_
  refine Reaches.unless fun _ => ?_
  refine Reaches.bind (Acts.of_moves (joinEntries_moves p _ _ _)) fun hosts m₃ _ => ?_
  refine Reaches.unless fun _ => ?_
  apply Acts.of_moves
  refine Moves.leaves_bind (leaves_attempt p _) fun synced m₄ _ _ => ?_
  exact Reaches.unless fun _ => Moves.of_leaves (leaves_attempt p _)

end Acts

section Events

/-- What an arrival on a connection needs to be allowed. -/
def Welcomes (R : Rules) (m : Mesh) (c : ConnId) : Arrival → Prop
  | .line r => ∀ reqno, reqnoOf r = some reqno →
      admitted (m.conn c).allowRequest reqno = true → Permits R m c r
  | .handshake => True
  | .record r =>
    ((m.conn c).rawPacket = true → ∀ i, (m.conn c).node = some i →
      (m.node i).blacklisted = true → R.raw i) ∧
    ((m.conn c).rawPacket = false → ∀ reqno, reqnoOf r = some reqno →
      admitted (m.conn c).allowRequest reqno = true → Permits R m c r)
  | .invitation _ _ => (∀ inv ∈ m.invitations, R.name inv.nodeName) ∧
      ((m.conn c).invitationUsed = true → R.name (m.conn c).name)

/-- What an event needs to be allowed. -/
def Allows (R : Rules) (m : Mesh) : Event → Prop
  | .accept _ => R.wire
  | .dial _ => R.wire
  | .arrive c late a => c ∈ m.connections → R.wire ∧ R.own ∧
      (((m.conn c).shut && late) = false → Welcomes R m c a)
  | .terminate _ _ => R.wire ∧ R.own
  | .blacklist _ => R.mark ∧ R.wire ∧ R.own
  | .whitelist i => R.unmark i
  | .blacklistByName name => (R.mark ∧ R.wire ∧ R.own) ∧ (lookupNode m name = none → R.name name)
  | .whitelistByName name => (∀ i, lookupNode m name = some i → R.unmark i) ∧
      (lookupNode m name = none → R.name name)
  | .forget _ _ => R.own ∧ R.forget
  | .join _ _ => R.rename
  | _ => True

theorem receive_moves (c : ConnId) (a : Arrival) (hm : Ready R (view m)) (hc : c < m.nextConn)
    (hwire : R.wire) (hown : R.own) (ha : Welcomes R m c a) :
    Moves R (receive p (m.conn c) c a) m := by
  cases a with
  | line r =>
    refine Reaches.ite (fun _ => ?_) fun _ => Reaches.pure _ _
    exact receiveRequest_moves p c r hm hc ha
  | handshake =>
    refine Reaches.unless fun _ => ?_
    exact receiveHandshake_moves p c hm hc hwire hown
  | record r =>
    refine Reaches.ite (fun _ => ?_) fun _ => Reaches.pure _ _
    exact receiveMetaSptps_moves p c r hm hc ha.1 ha.2
  | invitation type data =>
    refine Reaches.ite (fun _ => ?_) fun _ => Reaches.pure _ _
    exact receiveInvitationSptps_moves p c type data hm hc ha.1 ha.2

theorem handleArrival_moves (c : ConnId) (late : Bool) (a : Arrival) (hm : Ready R (view m))
    (ha : Allows R m (.arrive c late a)) : Moves R (handleArrival p c late a) m := by
  apply Reaches.gets_bind
  refine Reaches.ite (fun hmem => ?_) fun _ => Reaches.pure _ _
  obtain ⟨hwire, hown, hwelcome⟩ := ha hmem
  have hc := hm.listed c hmem
  apply Reaches.ite
  · intro _
    exact terminateConnection_moves p c _ hm hc hwire hown
  · intro hdata
    apply handleMetaData_moves p c hm hc hwire hown
    exact receive_moves p c a hm hc hwire hown (hwelcome (by simpa using hdata))

theorem handleDial_moves (i : NodeId) (hwire : R.wire) : Moves R (handleDial p i) m := by
  apply Reaches.gets_bind
  refine Reaches.ite (fun _ => ?_) fun _ => Reaches.pure _ _
  split
  · exact Moves.of_leaves (leaves_modifyConn _ fun _ => rfl)
  · exact Reaches.when fun _ => doOutgoingConnection_moves p _ hwire

theorem withNode_moves (i : NodeId) {x : Command Mesh Bool} (hx : i ∈ m.nodes → Moves R x m) :
    Moves R (withNode i x) m := by
  apply Reaches.gets_bind
  refine Reaches.ite (fun hi => ?_) fun _ => Reaches.pure _ _
  exact Reaches.bind_pure (hx hi) _

theorem meshlinkBlacklistByName_moves (name : String) (hm : Ready R (view m)) (hmark : R.mark)
    (hwire : R.wire) (hown : R.own) (hname : lookupNode m name = none → R.name name) :
    Moves R (meshlinkBlacklistByName p name) m := by
  refine Moves.bind hm (namedNode_moves name hname) fun i m' hrun hm' _ => ?_
  have hi := (learned_mem rfl (learned_namedNode hrun)).1
  exact blacklist_moves p i hm' (hm'.nodes_lt i hi) hmark hwire hown

theorem meshlinkWhitelistByName_moves (name : String) (hm : Ready R (view m))
    (hunmark : ∀ i, lookupNode m name = some i → R.unmark i)
    (hname : lookupNode m name = none → R.name name) :
    Moves R (meshlinkWhitelistByName p name) m := by
  refine Moves.bind hm (namedNode_moves name hname) fun i m' hrun hm' _ => ?_
  have hi := (learned_mem rfl (learned_namedNode hrun)).1
  apply whitelist_moves p i hm' (hm'.nodes_lt i hi)
  intro hmarked
  rcases namedNode_returns hrun with ⟨hlookup, _⟩ | ⟨_, hnew, hview⟩
  · exact hunmark i hlookup
  -- A node that has just been added is not blacklisted.
  have hcore : (view m').node i = (newNode name).toNodeCore := by
    rw [hview, hnew]
    exact View.addNode_node (view m) _
  exact absurd ((congrArg NodeCore.blacklisted hcore).symm.trans hmarked) Bool.false_ne_true

/-- Whatever happens to a mesh happens by acts that the rules allow. -/
theorem handle_acts (ev : Event) (hm : Ready R (view m)) (hev : Allows R m ev) :
    Acts R (handle p ev) m := by
  cases ev with
  | accept address =>
    apply Acts.of_moves
    refine Moves.bind hm ?_ fun c m' _ _ _ => ?_
    · exact Moves.of_move (view_connectionAdd m _)
        (Move.addConn _ _ hev ⟨rfl, rfl, rfl⟩ ⟨rfl, rfl⟩)
    · apply Reaches.gets_bind
      exact Reaches.bind_pure (sendMeta_plain c rfl) _
  | dial i => exact Acts.of_moves (handleDial_moves p i hev)
  | arrive c late a => exact Acts.of_moves (handleArrival_moves p c late a hm hev)
  | terminate c report =>
    apply Acts.of_moves
    apply Reaches.gets_bind
    refine Reaches.ite (fun hmem => ?_) fun _ => Reaches.pure _ _
    exact terminateConnection_moves p c report hm (hm.listed c hmem) hev.1 hev.2
  | udp sa limited d =>
    exact Acts.of_moves (moves_of_since (x := MetaKeys.handleIncomingVpnData p sa limited d))
  | graph => exact Acts.of_moves (graph_moves p hm)
  | start =>
    refine Reaches.bind (Acts.of_act rfl (Act.start (view m))) fun _ m' hrun => ?_
    cases hrun
    exact Acts.of_moves (graph_moves p (hm.of_act (Act.start (view m))))
  | clock | age => exact Acts.of_moves (Moves.of_leaves (Leaves.update fun _ => rfl))
  | blacklist i =>
    obtain ⟨hmark, hwire, hown⟩ := hev
    refine Acts.of_moves (withNode_moves i fun hi => ?_)
    exact blacklist_moves p i hm (hm.nodes_lt i hi) hmark hwire hown
  | whitelist i =>
    refine Acts.of_moves (withNode_moves i fun hi => ?_)
    exact whitelist_moves p i hm (hm.nodes_lt i hi) fun _ => hev
  | blacklistByName name =>
    obtain ⟨⟨hmark, hwire, hown⟩, hname⟩ := hev
    apply Acts.of_moves
    exact Reaches.bind_pure (meshlinkBlacklistByName_moves p name hm hmark hwire hown hname) _
  | whitelistByName name =>
    apply Acts.of_moves
    exact Reaches.bind_pure (meshlinkWhitelistByName_moves p name hm hev.1 hev.2) _
  | setDefaultBlacklist value =>
    exact Acts.of_moves (Moves.of_leaves (Leaves.update fun _ => rfl))
  | forget i channels =>
    apply Reaches.gets_bind
    refine Reaches.ite (fun hi => ?_) fun _ => Reaches.pure _ _
    have hlt := hm.nodes_lt i hi
    exact Reaches.bind_pure (meshlinkForgetNode_acts p i channels hm hlt hev.1 hev.2) _
  | invite cookie name submesh => exact Acts.of_moves (meshlinkInvite_moves cookie name submesh)
  | expire cookie => exact Acts.of_moves (discard_moves cookie)
  | setInviterCommitsFirst value =>
    exact Acts.of_moves (Moves.of_leaves (Leaves.update fun _ => rfl))
  | importHosts data => exact Acts.of_moves (Reaches.bind_pure (meshlinkImport_moves p data) _)
  | join peer payload =>
    apply Reaches.gets_bind
    refine Reaches.unless fun hstopped => ?_
    refine Reaches.bind_pure (finalizeJoin_acts p peer payload hev ?_) _
    simp only [Bool.or_eq_true, not_or] at hstopped
    simpa using hstopped.1

/-- Rules under which connections, whitelisting and records are not restricted. -/
structure Free (R : Rules) : Prop where
  asleep : R.asleep
  wire : R.wire
  unmark : ∀ i, R.unmark i
  attach : R.attach
  raw : ∀ i, R.raw i

/-- The ADD_EDGE request that an event brings, if it is one. -/
def addEdgeOf : Event → Option AddEdge
  | .arrive _ _ (.line (.addEdge r)) => some r
  | .arrive _ _ (.record (.addEdge r)) => some r
  | _ => none

/-- The name under which the application refers to a node, if it does. -/
def namedBy : Event → Option String
  | .blacklistByName name => some name
  | .whitelistByName name => some name
  | _ => none

def blacklists : Event → Bool
  | .blacklist _ => true
  | .blacklistByName _ => true
  | _ => false

/-- The names in use are allowed: those of a request, of the connections that have
been identified, of the invitations and of calls by name. -/
structure Calls (R : Rules) (m : Mesh) (ev : Event) : Prop where
  added : ∀ r ∈ addEdgeOf ev, (lookupNode m r.fromName = none → R.name r.fromName) ∧
    (lookupNode m r.toName = none → R.name r.toName) ∧
    (r.fromName = r.toName → lookupNode m r.fromName = none → R.orphan)
  identified : ∀ c ∈ m.connections, admitted (m.conn c).allowRequest .ack = true →
    R.name (m.conn c).name
  used : ∀ c ∈ m.connections, (m.conn c).invitationUsed = true → R.name (m.conn c).name
  invited : ∀ inv ∈ m.invitations, R.name inv.nodeName
  called : ∀ name ∈ namedBy ev, lookupNode m name = none → R.name name

theorem calls_of_any {ev : Event} (hname : ∀ s, R.name s) (horphan : R.orphan) : Calls R m ev where
  added := fun r _ => ⟨fun _ => hname r.fromName, fun _ => hname r.toName, fun _ _ => horphan⟩
  identified := fun c _ _ => hname (m.conn c).name
  used := fun c _ _ => hname (m.conn c).name
  invited := fun inv _ => hname inv.nodeName
  called := fun name _ _ => hname name

theorem permits_of_calls {ev : Event} (hR : Free R) (h : Calls R m ev) {c : ConnId} {r : Request}
    (hc : c ∈ m.connections) (hr : ∀ e, r = .addEdge e → e ∈ addEdgeOf ev) (reqno : Reqno)
    (hreqno : reqnoOf r = some reqno) (hadmitted : admitted (m.conn c).allowRequest reqno = true) :
    Permits R m c r := by
  cases r with
  | ack =>
    cases hreqno
    exact ⟨hR.wire, R.own_of_asleep hR.asleep, h.identified c hc hadmitted, Or.inl hR.attach⟩
  | addEdge e => exact h.added e (hr e rfl)
  | _ => trivial

theorem allows_of_calls {ev : Event} (hR : Free R) (h : Calls R m ev)
    (hmark : blacklists ev = true → R.mark)
    (hforget : (∃ i channels, ev = .forget i channels) → R.forget)
    (hrename : (∃ peer payload, ev = .join peer payload) → R.rename) : Allows R m ev := by
  have hown := R.own_of_asleep hR.asleep
  cases ev with
  | accept | dial => exact hR.wire
  | arrive c late a =>
    intro hc
    refine ⟨hR.wire, hown, fun _ => ?_⟩
    cases a with
    | line r =>
      apply permits_of_calls hR h hc
      intro e he
      rw [he]
      rfl
    | handshake => trivial
    | record r =>
      refine ⟨fun _ i _ _ => hR.raw i, fun _ => ?_⟩
      apply permits_of_calls hR h hc
      intro e he
      rw [he]
      rfl
    | invitation => exact ⟨h.invited, h.used c hc⟩
  | terminate => exact ⟨hR.wire, hown⟩
  | blacklist => exact ⟨hmark rfl, hR.wire, hown⟩
  | whitelist i => exact hR.unmark i
  | blacklistByName name => exact ⟨⟨hmark rfl, hR.wire, hown⟩, h.called name rfl⟩
  | whitelistByName name => exact ⟨fun i _ => hR.unmark i, h.called name rfl⟩
  | forget i channels => exact ⟨hown, hforget ⟨i, channels, rfl⟩⟩
  | join peer payload => exact hrename ⟨peer, payload, rfl⟩
  | _ => trivial

theorem step_blacklist (i : NodeId) :
    step p m (.blacklist i) = if i ∈ m.nodes then after (blacklist p i) m else m := by
  have hbody : step p m (.blacklist i) = after (if i ∈ m.nodes then do
    let _ ← blacklist p i
    pure ()
    else pure ()) m := rfl
  rw [hbody]
  split
  · exact after_bind_pure _ _ m
  · rfl

theorem step_blacklistByName (name : String) :
    step p m (.blacklistByName name) = after (meshlinkBlacklistByName p name) m :=
  after_bind_pure _ _ m

/-- One event of a run, seen through the view. -/
theorem step_acts (ev : Event) (hm : Ready R (view m)) (hev : Allows R m ev) :
    ReflTransGen (Act R) (view m) (view (step p m ev)) :=
  (handle_acts p ev hm hev).step

theorem ready_step (ev : Event) (hm : Ready R (view m)) (hev : Allows R m ev) :
    Ready R (view (step p m ev)) := hm.of_acts (step_acts p ev hm hev)

end Events

end Meshlink.EventMoves
