import Meshlink.MeshState

/-!
The graph algorithms: graph.c, with update_node_status of meshlink.c. The
breadth-first search follows the edges that have a reverse, and afterwards the
nodes whose reachability has changed are brought up to date and reported.
-/
namespace Meshlink.MeshGraph

open Commands MeshState

section Search

variable (p : Params)

/-- The edge is no better than the one its target was reached by. -/
def noBetter (m : Mesh) (e : Edge) : Bool :=
  match (m.node e.target).prevedge with
  | none => true
  | some k => (m.edge k).weight ≤ e.weight

/-- An address is worth taking over from the edge to a node. -/
def wantsAddress (nd : Node) (sa : Sockaddr) : Bool :=
  !nd.reachable || (nd.address = .unspec && sa.familiar)

def takeAddress (i : NodeId) (reachable : Bool) (sa : Sockaddr) : Command Mesh Unit := do
  when (!reachable) (update fun m => {m with newcomers := m.newcomers ++ [(i, sa)]})
  updateNodeUdp p i (some sa)

/-- Look at one edge of a node that has been reached; true if its target has to
be looked at again. -/
def visitEdge (i : NodeId) (k : EdgeId) : Command Mesh Bool := do
  let m ← gets id
  let nd := m.node i
  let e := m.edge k
  let dest := m.node e.target
  if e.reverse.isNone then pure false
  else if dest.visited && (dest.distance ≠ nd.distance + 1 || noBetter m e) then pure false
  else
    modifyNode e.target fun dest => {dest with
      visited := true
      nexthop := if nd.nexthop = some m.self then some e.target else nd.nexthop
      prevedge := some k
      distance := nd.distance + 1}
    when (wantsAddress dest e.address) (takeAddress p e.target dest.reachable e.address)
    pure true

/-- The targets of the edges that have to be looked at again. -/
def examineEdges (i : NodeId) : List EdgeId → Command Mesh (List NodeId)
  | [] => pure []
  | k :: rest => do
    let again ← visitEdge p i k
    let e ← gets (·.edge k)
    let more ← examineEdges i rest
    pure (if again then e.target :: more else more)

def examineNodes : ℕ → List NodeId → Command Mesh Unit
  | 0, _ => pure ()
  | _ + 1, [] => pure ()
  | fuel + 1, i :: todo => do
    let nd ← gets (·.node i)
    let more ← examineEdges p i nd.edgeTree
    examineNodes fuel (todo ++ more)

/-- An edge puts its target on the list at most once for each of the two
distances that self can have. -/
def searchFuel (m : Mesh) : ℕ := 2 * ((m.nodes.map fun i => (m.node i).edgeTree.length).sum + 1)

def ssspBfs : Command Mesh Unit := do
  let nodes ← gets (·.nodes)
  forEach nodes fun i => modifyNode i fun nd => {nd with visited := false, distance := -1}
  let self ← gets (·.self)
  let started ← gets (·.threadstarted)
  modifyNode self fun nd => {nd with
    visited := started
    nexthop := some self
    prevedge := none
    distance := 0}
  let fuel ← gets searchFuel
  examineNodes p fuel [self]

end Search

section Walk

variable {p : Params} {E I : Mesh → Prop} [hvisit : ∀ i k, Keeping E I (visitEdge p i k)]

instance (i : NodeId) (edges : List EdgeId) : Keeping E I (examineEdges p i edges) := by
  induction edges with
  | nil => exact Keeping.pure []
  | cons k rest ih =>
    unfold examineEdges
    infer_instance

instance (fuel : ℕ) (todo : List NodeId) : Keeping E I (examineNodes p fuel todo) := by
  induction fuel generalizing todo with
  | zero => exact Keeping.pure ()
  | succ fuel ih =>
    cases todo with
    | nil => exact Keeping.pure ()
    | cons i todo =>
      unfold examineNodes
      infer_instance

end Walk

section Reachability

variable (p : Params) (i : NodeId)

def updateNodeStatus : Command Mesh Unit := do
  let accepts ← gets (·.channelAcceptCb)
  modifyNode i fun nd => {nd with utcp := nd.utcp || (nd.reachable && accepts)}
  let nd ← gets (·.node i)
  record (.report i (nd.reachable && !nd.blacklisted))

/-- Write the host file of a node with this name. -/
def writeHostFile (name : String) : Command Mesh Bool := do
  let written ← attempt p (.writeConfig name)
  when written (record (.stored name))
  pure written

/-- node_write_config, with storage in use. -/
def nodeWriteConfig : Command Mesh Bool := do
  let nd ← gets (·.node i)
  let written ← writeHostFile p nd.name
  when written (modifyNode i fun nd => {nd with dirty := false})
  pure written

/-- Note when a node was last seen to become reachable or unreachable; a node
that is seen for the first time is written to its host file. -/
def noteReachability : Command Mesh Unit := do
  let now ← gets (·.now)
  let nd ← gets (·.node i)
  if nd.reachable then
    modifyNode i fun nd => {nd with lastReachable := now}
    if nd.lastReachable = 0 then
      let _ ← nodeWriteConfig p i
      pure ()
    else pure ()
  else modifyNode i fun nd => {nd with lastUnreachable := now}

/-- A node changes between reachable and unreachable. -/
def changeReachability : Command Mesh Unit := do
  modifyNode i fun nd => {nd with reachable := !nd.reachable, dirty := true}
  let nd ← gets (·.node i)
  when (!nd.blacklisted) (noteReachability p i)
  modifyNode i fun nd => {nd with udpConfirmed := false}
  when (!nd.blacklisted) (updateNodeStatus i)
  when (!nd.reachable) (updateNodeUdp p i none)

/-- The session number that the node a visited node was reached by has for it. -/
def seenSession (m : Mesh) (nd : Node) : Option ℕ :=
  if nd.visited then
    nd.prevedge.bind fun k => (m.edge k).reverse.map fun r => (m.edge r).sessionId
  else none

def checkSession : Command Mesh Unit := do
  let m ← gets id
  match seenSession m (m.node i) with
  | none => pure ()
  | some session =>
    when (session ≠ (m.node i).sessionId) (modifyNode i fun nd => {nd with
      sessionId := session
      validkey := false
      sptps := .stopped
      waitingforkey := false
      lastReqKey := -3600
      udpConfirmed := false})

def checkNode : Command Mesh Unit := do
  checkSession i
  let nd ← gets (·.node i)
  when (nd.visited != nd.reachable) (changeReachability p i)

def checkReachability : Command Mesh Unit := do
  let nodes ← gets (·.nodes)
  forEach nodes (checkNode p)

def graph : Command Mesh Unit := do
  ssspBfs p
  checkReachability p

end Reachability

end Meshlink.MeshGraph
