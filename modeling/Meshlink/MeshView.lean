import Meshlink.MeshState

/-!
The mesh as an abstract machine. A view has the node table, the edges between
nodes, the meta connections, the invitations and what has been seen from outside.
Every function of the mesh goes through views by the moves listed here, so an
invariant is proved once for each move and then holds after every function.
-/
namespace Meshlink.MeshView

open MeshState

structure View where
  self : NodeId
  started : Bool
  nodes : List NodeId
  node : NodeId → NodeCore
  nextNode : NodeId
  edge : EdgeId → EdgeCore
  nextEdge : EdgeId
  connections : List ConnId
  conn : ConnId → ConnCore
  nextConn : ConnId
  invitations : List Invitation
  nextFile : ℕ
  log : List Effect

def view (m : Mesh) : View where
  self := m.self
  started := m.threadstarted
  nodes := m.nodes
  node := fun i => (m.node i).toNodeCore
  nextNode := m.nextNode
  edge := fun k => (m.edge k).toEdgeCore
  nextEdge := m.nextEdge
  connections := m.connections
  conn := fun c => (m.conn c).toConnCore
  nextConn := m.nextConn
  invitations := m.invitations
  nextFile := m.nextFile
  log := m.log

namespace View

variable (v : View) (i : NodeId)

def setNode (core : NodeCore) : View := {v with node := Function.update v.node i core}

def setConn (c : ConnId) (core : ConnCore) : View := {v with conn := Function.update v.conn c core}

def note (effect : Effect) : View := {v with log := v.log ++ [effect]}

def lookupNode (name : String) : Option NodeId := v.nodes.find? fun i => (v.node i).name = name

def lookupEdge (j : NodeId) : Option EdgeId :=
  (v.node i).edgeTree.find? fun k => (v.node (v.edge k).target).name = (v.node j).name

def addNode (core : NodeCore) : View :=
  {v with
    node := Function.update v.node v.nextNode core
    nextNode := v.nextNode + 1
    nodes := if (v.lookupNode core.name).isSome then v.nodes else v.nodes ++ [v.nextNode]}

def newEdge (e : EdgeCore) : View :=
  {v with edge := Function.update v.edge v.nextEdge e, nextEdge := v.nextEdge + 1}

/-- Put an edge into the tree of its source, unless there is one to that name. -/
def insertEdge (k : EdgeId) : View :=
  let e := v.edge k
  if (v.lookupEdge e.source e.target).isSome then v
  else v.setNode e.source {v.node e.source with edgeTree := (v.node e.source).edgeTree ++ [k]}

def addEdge (e : EdgeCore) : View := (v.newEdge e).insertEdge v.nextEdge

def sameTarget (a b : EdgeId) : Bool :=
  (v.node (v.edge a).target).name = (v.node (v.edge b).target).name

def delEdge (k : EdgeId) : View :=
  let i := (v.edge k).source
  v.setNode i {v.node i with edgeTree := (v.node i).edgeTree.filter fun a => !v.sameTarget k a}

/-- A node changes between reachable and unreachable, which is reported unless
the node is blacklisted. -/
def flip : View :=
  let changed := v.setNode i {v.node i with reachable := !(v.node i).reachable}
  if (v.node i).blacklisted then changed else changed.note (.report i !(v.node i).reachable)

def mark : View := v.setNode i {v.node i with blacklisted := true}

/-- A node is whitelisted, and reported if it is reachable. -/
def unmark : View :=
  let changed := v.setNode i {v.node i with blacklisted := false}
  if (v.node i).reachable then changed.note (.report i true) else changed

def attach (c : ConnId) (i : NodeId) : View :=
  (v.setNode i {v.node i with connection := some c}).setConn c
    {v.conn c with node := some i, allowRequest := none, active := true}

def detach : View := v.setNode i {v.node i with connection := none}

def addConn (core : ConnCore) : View :=
  {v with
    conn := Function.update v.conn v.nextConn core
    nextConn := v.nextConn + 1
    connections := v.connections ++ [v.nextConn]}

def delConn (c : ConnId) : View :=
  {v with connections := v.connections.filter fun other => other ≠ c}

def discard (cookie : String) : View :=
  {v with invitations := v.invitations.filter fun inv => inv.cookie ≠ cookie}

/-- A new invitation file takes the place of one with the same name. -/
def invite (inv : Invitation) : View :=
  {v with
    invitations := (v.discard inv.cookie).invitations ++ [inv]
    nextFile := v.nextFile + 1}

/-- A node is taken out of the table, with every other one of its name. -/
def forget : View :=
  View.note {v with nodes := v.nodes.filter fun j => (v.node j).name ≠ (v.node i).name}
    (.forgotten (v.node i).name)

/-- The local node takes on another name and submesh. -/
def rename (name : String) (submesh : Option String) : View :=
  v.setNode v.self {v.node v.self with name := name, submesh := submesh}

def start : View := {v with started := true}

def table : List (String × Option String) :=
  v.nodes.map fun i => ((v.node i).name, (v.node i).submesh)

def peer (c : ConnId) : Option (Option String) := (v.conn c).node.map fun i => (v.node i).submesh

end View

/-- The nodes that a request about an edge names. -/
def endpoints : Request → Option (String × String)
  | .addEdge r => some (r.fromName, r.toName)
  | .delEdge r => some (r.fromName, r.toName)
  | _ => none

/-- Two nodes are known, or there is or was an edge between them. -/
def Linked (v : View) (i j : NodeId) : Prop :=
  (i ∈ v.nodes ∧ j ∈ v.nodes) ∨
    ∃ k, k < v.nextEdge ∧ (v.edge k).source = i ∧ (v.edge k).target = j

/-- A peer in the submesh may know of a node. -/
def Visible (submesh : Option String) (peer : String) : Prop := submesh = none ∨ submesh = some peer

/-- What a message records about the moment it is sent in is right, and the nodes
that it names are linked and visible to the peer. -/
structure Tells (v : View) (x : Sent) : Prop where
  active : x.active = (v.conn x.conn).active
  peer : x.peer = v.peer x.conn
  table : x.table = v.table
  named : ∀ a b, endpoints x.request = some (a, b) → ∃ i j,
    (v.node i).name = a ∧ (v.node j).name = b ∧ Linked v i j ∧
    ∀ s, x.active = true → x.peer = some (some s) →
      Visible (v.node i).submesh s ∧ Visible (v.node j).submesh s

/-- What a part of the mesh may do: the names it uses for nodes, and whether it
takes the moves that only some parts take. -/
structure Rules where
  name : String → Prop
  valid : ∀ s, checkId s = true → name s
  /-- Edges to a second node of the same name are made. -/
  orphan : Prop
  /-- The local node need not be running. -/
  asleep : Prop
  /-- Edges from the local node are made or deleted. -/
  own : Prop
  own_of_asleep : asleep → own
  /-- Connections are made, attached to nodes or deleted. -/
  wire : Prop
  /-- Nodes are blacklisted. -/
  mark : Prop
  /-- The node is whitelisted. -/
  unmark : NodeId → Prop
  /-- Connections are attached to blacklisted nodes. -/
  attach : Prop
  /-- Raw records of the node are delivered although it is blacklisted. -/
  raw : NodeId → Prop
  /-- Nodes are forgotten. -/
  forget : Prop
  /-- The local node is renamed. -/
  rename : Prop

/-- Rules that only restrict the names of nodes. -/
def freeRules (name : String → Prop) (valid : ∀ s, checkId s = true → name s) : Rules where
  name := name
  valid := valid
  orphan := True
  asleep := True
  own := True
  own_of_asleep := fun _ => trivial
  wire := True
  mark := True
  unmark := fun _ => True
  attach := True
  raw := fun _ => True
  forget := True
  rename := True

def Fresh (core : NodeCore) : Prop :=
  core.reachable = false ∧ core.connection = none ∧ core.edgeTree = []

/-- The source of a new edge is known, and its target as well unless it is a
second node of the same name. -/
def Joins (R : Rules) (v : View) (e : EdgeCore) : Prop :=
  (e.source ∈ v.nodes ∨ e.source = v.self) ∧ e.target < v.nextNode ∧
    (e.target ∈ v.nodes ∨ (R.orphan ∧ (v.node e.target).name = (v.node e.source).name))

inductive Move (R : Rules) : View → View → Prop
  | addNode (v : View) (core : NodeCore) (hname : R.name core.name) (hnew : Fresh core) :
      Move R v (v.addNode core)
  | addEdge (v : View) (e : EdgeCore) (hjoins : Joins R v e) (hown : e.source = v.self → R.own) :
      Move R v (v.addEdge e)
  | delEdge (v : View) (k : EdgeId) (hk : k < v.nextEdge)
      (hown : (v.edge k).source = v.self → R.own) : Move R v (v.delEdge k)
  | flip (v : View) (i : NodeId) (hi : i ∈ v.nodes) (hself : i = v.self → R.asleep) :
      Move R v (v.flip i)
  | mark (v : View) (i : NodeId) (hmark : R.mark) : Move R v (v.mark i)
  | gone (v : View) (i : NodeId) (hmark : R.mark) : Move R v (v.note (.report i false))
  | unmark (v : View) (i : NodeId) (hunmark : R.unmark i) (hi : i < v.nextNode)
      (hmarked : (v.node i).blacklisted = true) : Move R v (v.unmark i)
  | send (v : View) (x : Sent) (hx : Tells v x) : Move R v (v.note (.sent x))
  | received (v : View) (i : NodeId) (data : Payload) (hi : (v.node i).blacklisted = false) :
      Move R v (v.note (.received (some i) data))
  | channel (v : View) (i : NodeId) (data : Payload) (hi : (v.node i).blacklisted = false) :
      Move R v (v.note (.channel i data))
  | raw (v : View) (c : ConnId) (data : Payload)
      (hraw : ∀ i, (v.conn c).node = some i → (v.node i).blacklisted = true → R.raw i) :
      Move R v (v.note (.received (v.conn c).node data))
  | stored (v : View) (name : String)
      (hname : R.name name ∨ ∃ i, i < v.nextNode ∧ (v.node i).name = name) :
      Move R v (v.note (.stored name))
  | call (v : View) (c : ConnId) (name : String) (hname : R.name name) :
      Move R v (v.setConn c {v.conn c with name := name})
  | allow (v : View) (c : ConnId) (reqno : Reqno)
      (hname : reqno = .metakey ∨ R.name (v.conn c).name) :
      Move R v (v.setConn c {v.conn c with allowRequest := some reqno})
  | use (v : View) (c : ConnId) (hname : R.name (v.conn c).name) :
      Move R v (v.setConn c {v.conn c with invitationUsed := true})
  | shut (v : View) (c : ConnId) : Move R v (v.setConn c {v.conn c with shut := true})
  | attach (v : View) (c : ConnId) (i : NodeId) (hwire : R.wire) (hc : c < v.nextConn)
      (hi : i < v.nextNode) (hname : R.name (v.conn c).name)
      (hattach : (v.node i).blacklisted = true → R.attach) : Move R v (v.attach c i)
  | detach (v : View) (i : NodeId) (hwire : R.wire) : Move R v (v.detach i)
  | deactivate (v : View) (c : ConnId) (hwire : R.wire) :
      Move R v (v.setConn c {v.conn c with active := false})
  | setEdge (v : View) (c : ConnId) (edge : Option EdgeId) (hwire : R.wire)
      (hedge : ∀ k, edge = some k → k < v.nextEdge) :
      Move R v (v.setConn c {v.conn c with edge := edge})
  | addConn (v : View) (core : ConnCore) (hwire : R.wire)
      (hnew : core.node = none ∧ core.edge = none ∧ core.active = false)
      (hallow : core.allowRequest = some .id ∧ core.invitationUsed = false) :
      Move R v (v.addConn core)
  | delConn (v : View) (c : ConnId) (hwire : R.wire) : Move R v (v.delConn c)
  | invite (v : View) (inv : Invitation) (hname : R.name inv.nodeName)
      (hfile : inv.file = v.nextFile) : Move R v (v.invite inv)
  | discard (v : View) (cookie : String) : Move R v (v.discard cookie)
  | hand (v : View) (c : ConnId) (inv : Invitation) (hinv : inv ∈ v.invitations) :
      Move R v ((v.discard inv.cookie).note (.handed inv.file c))
  | commit (v : View) (core : NodeCore) (key : Bytes) (hname : R.name core.name)
      (hnew : Fresh core) (hfresh : v.lookupNode core.name = none) :
      Move R v ((v.addNode core).note (.committed core.name key))

/-- What an event may do besides moves: nodes are forgotten, and a mesh is given
another name before it is started. -/
inductive Act (R : Rules) : View → View → Prop
  | move {v w : View} (hmove : Move R v w) : Act R v w
  | start (v : View) : Act R v v.start
  | forget (v : View) (i : NodeId) (hforget : R.forget) : Act R v (v.forget i)
  | rename (v : View) (name : String) (submesh : Option String) (hrename : R.rename)
      (hname : R.name name) (hstarted : v.started = false) : Act R v (v.rename name submesh)

end Meshlink.MeshView
