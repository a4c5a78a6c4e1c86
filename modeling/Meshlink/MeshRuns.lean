import Meshlink.EventMoves

/-!
Runs of a mesh from the state that opening it leaves. What every act of an event
keeps holds after the whole run.
-/
namespace Meshlink.MeshRuns

open Commands MeshState MeshEvents MeshView ViewGrowth EventMoves Systems Relation

/-- A mesh that has just been opened: the nodes come from their host files, and
nothing has happened yet. -/
structure Opened (m : Mesh) : Prop where
  known : ∀ i, i ∈ m.nodes ↔ i < m.nextNode
  self : m.self ∈ m.nodes
  names : (m.nodes.map fun i => (m.node i).name).Nodup
  valid : ∀ i ∈ m.nodes, checkId (m.node i).name = true
  fresh : ∀ i ∈ m.nodes, Fresh (m.node i).toNodeCore
  edges : m.edges = []
  nextEdge : m.nextEdge = 0
  connections : m.connections = []
  nextConn : m.nextConn = 0
  cache : ∀ slot, m.udpCache slot = none
  cookies : (m.invitations.map Invitation.cookie).Nodup
  files : (m.invitations.map Invitation.file).Nodup
  file_lt : ∀ inv ∈ m.invitations, inv.file < m.nextFile
  invitees : ∀ inv ∈ m.invitations, checkId inv.nodeName = true
  stopped : m.threadstarted = false
  unlocked : m.held = false
  log : m.log = []

theorem sane_of_opened {m : Mesh} (h : Opened m) : Sane (view m) where
  self_lt := (h.known m.self).mp h.self
  nodes_lt := fun i hi => (h.known i).mp hi
  tree := by
    intro i hi k hk
    have htree : ((view m).node i).edgeTree = [] := (h.fresh i ((h.known i).mpr hi)).2.2
    rw [htree] at hk
    exact absurd hk List.not_mem_nil
  ends := by
    intro k hk
    exact absurd (h.nextEdge ▸ hk) (Nat.not_lt_zero k)
  listed := by
    intro c hc
    rw [show (view m).connections = [] from h.connections] at hc
    exact absurd hc List.not_mem_nil
  peer := by
    intro c hc
    exact absurd (h.nextConn ▸ hc) (Nat.not_lt_zero c)
  edge := by
    intro c hc
    exact absurd (h.nextConn ▸ hc) (Nat.not_lt_zero c)
  connection := by
    intro i hi c hc
    have hnone : ((view m).node i).connection = none := (h.fresh i ((h.known i).mpr hi)).2.1
    rw [hnone] at hc
    exact absurd hc (by simp)

section Runs

variable {R : Rules} {I : View → Prop} {C : Mesh → Event → Prop} {p : Params} {m : Mesh}

/-- What every act keeps is kept by an event that the rules allow. -/
theorem kept_step (hI : ∀ v w, Ready R v → I v → Act R v w → I w) {ev : Event}
    (hm : Ready R (view m)) (hi : I (view m)) (hev : Allows R m ev) : I (view (step p m ev)) := by
  have hsteps := step_acts p ev hm hev
  have hboth : ∀ v w, (Ready R v ∧ I v) → Act R v w → Ready R w ∧ I w :=
    fun v w h hact => ⟨h.1.of_act hact, hI v w h.1 h.2 hact⟩
  exact (kept_by_steps hboth hsteps ⟨hm, hi⟩).2

theorem kept_run (hI : ∀ v w, Ready R v → I v → Act R v w → I w)
    (hC : ∀ m ev, C m ev → Ready R (view m) → I (view m) → Allows R m ev) {evs : List Event}
    (hm : Ready R (view m)) (hi : I (view m)) (hrun : Along (step p) C m evs) :
    Ready R (view (run p m evs)) ∧ I (view (run p m evs)) := by
  apply kept_along (I := fun m => Ready R (view m) ∧ I (view m)) _ hrun ⟨hm, hi⟩
  intro m ev hev hboth
  have hallows := hC m ev hev hboth.1 hboth.2
  exact ⟨ready_step p ev hboth.1 hallows, kept_step hI hboth.1 hboth.2 hallows⟩

end Runs

section New

/-- A new mesh with only the local node. -/
def newMesh (name : String) : Mesh where
  name := name
  self := 0
  nodes := [0]
  node := fun _ => newNode name
  nextNode := 1
  edges := []
  edge := fun _ => newEdge 0 0
  nextEdge := 0
  connections := []
  conn := fun _ => newConnection "" .unspec none
  nextConn := 0
  submeshes := []
  udpCache := fun _ => none
  newcomers := []
  pastRequests := []
  now := 0
  contradictingAddEdge := 0
  contradictingDelEdge := 0
  defaultBlacklist := false
  threadstarted := false
  devclass := devClassUnknown
  myport := "0"
  inviterCommitsFirst := false
  invitationKey := none
  invitationTimeout := 604800
  invitations := []
  nextFile := 0
  receiveCb := true
  channelAcceptCb := false
  duplicateCb := false
  held := false
  ops := 0
  draws := 0
  log := []

theorem opened_newMesh {name : String} (h : checkId name = true) : Opened (newMesh name) where
  known := by
    intro i
    rw [show (newMesh name).nodes = [0] from rfl, List.mem_singleton]
    exact Nat.lt_one_iff.symm
  self := List.mem_singleton_self 0
  names := List.nodup_singleton _
  valid := fun _ _ => h
  fresh := fun _ _ => ⟨rfl, rfl, rfl⟩
  edges := rfl
  nextEdge := rfl
  connections := rfl
  nextConn := rfl
  cache := fun _ => rfl
  cookies := List.nodup_nil
  files := List.nodup_nil
  file_lt := by simp [newMesh]
  invitees := by simp [newMesh]
  stopped := rfl
  unlocked := rfl
  log := rfl

/-- A system on which every operation succeeds and every node has a key. -/
def plainParams : Params where
  str2sockaddr := fun _ _ => .inet 0x0a000001 655
  sockaddr2str := fun _ => ("10.0.0.1", "655")
  hashSlot := fun _ => 0
  atoi := fun _ => 655
  decodeKey := fun _ => none
  cookieHash := fun _ => ""
  succeeds := fun _ _ => true
  storedHost := fun _ => some ⟨List.replicate 32 0, none, [], 0, 0, nofun⟩
  prng := id

/-- A node is made known, connects and is activated. -/
def connected (name : String) : List Event :=
  [.start, .whitelistByName name, .accept (.inet 0x0a000002 655),
    .arrive 0 false (.line (.id name 17 3 0)), .arrive 0 false .handshake,
    .arrive 0 false (.record (.ack "655" 1 0))]

/-- A request about an edge between two nodes outside of submeshes. -/
def coreEdge (fromName toName : String) : Request :=
  .addEdge ⟨0, fromName, 1, coreMesh, toName, "10.0.0.1", "655", 1, coreMesh, 1, 0, 1⟩

end New

end Meshlink.MeshRuns
