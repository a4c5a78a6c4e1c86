import Meshlink.MeshGraph

/-!
Telling other nodes about edges: the sending half of protocol.c and meta.c,
protocol_edge.c, and the way a connection is terminated in net.c. A request goes
to one connection or to everyone, and requests about edges are kept from peers
in other submeshes.
-/
namespace Meshlink.MetaEdges

open Commands MeshState MeshGraph

inductive Target
  | everyone
  | conn (c : ConnId)

def peerSubmesh (m : Mesh) (cn : Conn) : Option (Option String) :=
  cn.node.map fun i => (m.node i).submesh

def nodeTable (m : Mesh) : List (String × Option String) :=
  m.nodes.map fun i => ((m.node i).name, (m.node i).submesh)

/-- The request goes out as plain text before the peer is identified, and as a
record of the SPTPS session afterwards. -/
def sendMeta (c : ConnId) (r : Request) : Command Mesh Bool := do
  let m ← gets id
  let cn := m.conn c
  if cn.allowRequest = some .id || cn.sptps = .established then
    record (.sent {
      conn := c
      active := cn.active
      peer := peerSubmesh m cn
      table := nodeTable m
      request := r})
    pure true
  else pure false

def isTiny (cn : Conn) : Bool := cn.flags % 2 = 1

/-- broadcast_meta, and broadcast_submesh_meta when a submesh is given. -/
def receives (m : Mesh) (origin : Option ConnId) (s : Option String) (c : ConnId) : Bool :=
  some c ≠ origin && ((m.conn c).active && (!isTiny (m.conn c) &&
    match s with
    | none => true
    | some s =>
      match peerSubmesh m (m.conn c) with
      | none => false
      | some peer => submeshAllowsNode (some s) peer))

def broadcastMeta (origin : Option ConnId) (s : Option String) (r : Request) :
    Command Mesh Unit := do
  let connections ← gets (·.connections)
  forEach connections fun c => do
    let m ← gets id
    when (receives m origin s c) (do
      let _ ← sendMeta c r
      pure ())

def sendRequest (t : Target) (s : Option String) (r : Request) : Command Mesh Bool :=
  match t with
  | .everyone => do
    broadcastMeta none s r
    pure true
  | .conn c => sendMeta c r

def forwardRequest (origin : ConnId) (s : Option String) (r : Request) : Command Mesh Unit :=
  broadcastMeta (some origin) s r

section Sending

variable (p : Params)

def crosses (a b : Option String) : Bool := a.isSome && (b.isSome && a ≠ b)

/-- An edge may be told to the target: no node is in a submesh that is not the
peer's, and the nodes are not in two different submeshes. -/
def mayTell (m : Mesh) (t : Target) (e : Edge) : Bool :=
  let a := (m.node e.source).submesh
  let b := (m.node e.target).submesh
  !crosses a b &&
    match t with
    | .everyone => true
    | .conn c =>
      match peerSubmesh m (m.conn c) with
      | some (some peer) =>
        submeshAllowsNode a (some peer) && submeshAllowsNode b (some peer)
      | _ => true

def submeshName (s : Option String) : String := s.getD coreMesh

def sendAddEdge (t : Target) (e : Edge) (contradictions : ℤ) : Command Mesh Bool := do
  let m ← gets id
  if !mayTell m t e then pure true
  else
    let nonce ← prng p
    let a := m.node e.source
    let b := m.node e.target
    sendRequest t (a.submesh.or b.submesh) (.addEdge {
      nonce := nonce
      fromName := a.name
      fromDevclass := a.devclass
      fromSubmesh := submeshName a.submesh
      toName := b.name
      toAddress := (p.sockaddr2str e.address).1
      toPort := (p.sockaddr2str e.address).2
      toDevclass := b.devclass
      toSubmesh := submeshName b.submesh
      weight := e.weight
      contradictions := contradictions
      sessionId := a.sessionId})

def sendDelEdge (t : Target) (e : Edge) (contradictions : ℤ) : Command Mesh Bool := do
  let m ← gets id
  if !mayTell m t e then pure true
  else
    let nonce ← prng p
    let a := m.node e.source
    let b := m.node e.target
    sendRequest t (a.submesh.or b.submesh) (.delEdge {
      nonce := nonce
      fromName := a.name
      toName := b.name
      contradictions := contradictions
      sessionId := e.sessionId})

def seenRequest (r : Request) : Command Mesh Bool := do
  let m ← gets id
  if m.pastRequests.any fun past => past.1 = r then pure true
  else
    update fun m => {m with pastRequests := m.pastRequests ++ [(r, m.now)]}
    pure false

/-- A node that cannot be reached any more is no longer remembered to have an
edge to us. -/
def cleanUpEdge (i : NodeId) : Command Mesh Unit := do
  let m ← gets id
  if (m.node i).reachable then pure ()
  else
    match lookupEdge m i m.self with
    | none => pure ()
    | some k =>
      let _ ← sendDelEdge p .everyone (m.edge k) 0
      edgeDel k

end Sending

section Termination

variable (p : Params)

def detachNode (c : ConnId) : Command Mesh Unit := do
  let m ← gets id
  match (m.conn c).node with
  | none => pure ()
  | some i =>
    when ((m.node i).connection = some c) (modifyNode i fun nd => {nd with connection := none})

def cleanUpPeer : Option NodeId → Command Mesh Unit
  | none => pure ()
  | some i => cleanUpEdge p i

def dropEdge (c : ConnId) (report : Bool) : Command Mesh Unit := do
  let m ← gets id
  match (m.conn c).edge with
  | none => pure ()
  | some k =>
    when report (do
      let _ ← sendDelEdge p .everyone (m.edge k) 0
      pure ())
    edgeDel k
    modifyConn c fun cn => {cn with edge := none}
    graph p
    when report (cleanUpPeer p (m.conn c).node)

/-- do_outgoing_connection, as far as the mesh is concerned: a new connection if
an address of the node can be connected to. -/
def doOutgoingConnection : Option NodeId → Command Mesh Unit
  | none => pure ()
  | some i => do
    let nd ← gets (·.node i)
    let connected ← attempt p (.connect i)
    when connected (do
      let _ ← connectionAdd (newConnection nd.name nd.address (some i))
      pure ())

def terminateConnection (c : ConnId) (report : Bool) : Command Mesh Unit := do
  detachNode c
  modifyConn c fun cn => {cn with active := false}
  dropEdge p c report
  let cn ← gets (·.conn c)
  connectionDel c
  doOutgoingConnection p cn.outgoing

end Termination

section Handlers

variable (p : Params) (c : ConnId)

def handleDuplicateNode (i : NodeId) : Command Mesh Unit := do
  let wanted ← gets (·.duplicateCb)
  modifyNode i fun nd => {nd with duplicate := nd.duplicate || wanted}

/-- A new node that is first heard of in a request. -/
def addLearned (name : String) (devclass : ℤ) (submesh : Option String) :
    Command Mesh (Option NodeId) := do
  let blacklisted ← gets (·.defaultBlacklist)
  let i ← nodeAdd {newNode name with
    dirty := true
    blacklisted := blacklisted
    devclass := devclass
    submesh := submesh}
  pure (some i)

def learnNode (name : String) (devclass : ℤ) (submeshName : String) :
    Command Mesh (Option NodeId) := do
  if submeshName = coreMesh then addLearned name devclass none
  else
    let submesh ← lookupOrCreateSubmesh submeshName
    match submesh with
    | none => pure none
    | some s => addLearned name devclass (some s)

def knownOrLearned (known : Option NodeId) (name : String) (devclass : ℤ) (submeshName : String) :
    Command Mesh (Option NodeId) :=
  match known with
  | some i => pure (some i)
  | none => learnNode name devclass submeshName

/-- Add the edge of a request and tell the rest about it. -/
def insertEdge (r : AddEdge) (i j : NodeId) : Command Mesh Bool := do
  let _ ← edgeAdd {newEdge i j with
    address := p.str2sockaddr r.toAddress r.toPort
    weight := r.weight
    sessionId := r.sessionId}
  graph p
  let m ← gets id
  let a := (m.node i).submesh
  let b := (m.node j).submesh
  if crosses a b then pure false
  else
    forwardRequest c (a.or b) (.addEdge r)
    pure true

/-- Compare the edge of a request with the one that is known. -/
def updateEdge (r : AddEdge) (i j : NodeId) : Command Mesh Bool := do
  let m ← gets id
  match lookupEdge m i j with
  | some k =>
    let e := m.edge k
    if e.weight = r.weight && (e.sessionId = r.sessionId &&
        e.address = p.str2sockaddr r.toAddress r.toPort) then pure true
    else if i = m.self then
      let _ ← sendAddEdge p (.conn c) e 0
      pure true
    else if j = m.self && ((m.conn c).node ≠ some i && (m.node i).reachable) then pure true
    else
      edgeDel k
      insertEdge p c r i j
  | none =>
    if i = m.self then
      update fun m => {m with contradictingAddEdge := m.contradictingAddEdge + 1}
      let _ ← sendDelEdge p (.conn c) {newEdge i j with sessionId := r.sessionId}
        (m.contradictingAddEdge + 1)
      pure true
    else insertEdge p c r i j

def validDevclass (devclass : ℤ) : Bool := 0 ≤ devclass && devclass < devClassCount

/-- The part of add_edge_h after both names have been looked up. -/
def addEdgeBetween (r : AddEdge) (known knownTo : Option NodeId) : Command Mesh Bool := do
  let first ← knownOrLearned known r.fromName r.fromDevclass r.fromSubmesh
  match first with
  | none => pure false
  | some i =>
    when (50 < r.contradictions) (handleDuplicateNode i)
    modifyNode i fun nd => {nd with
      devclass := r.fromDevclass
      sessionId := if nd.sessionId = 0 then r.sessionId else nd.sessionId}
    let second ← knownOrLearned knownTo r.toName r.toDevclass r.toSubmesh
    match second with
    | none => pure false
    | some j =>
      modifyNode j fun nd => {nd with devclass := r.toDevclass}
      updateEdge p c r i j

def addEdgeH (r : AddEdge) : Command Mesh Bool := do
  if !validDevclass r.fromDevclass then pure false
  else if !validDevclass r.toDevclass then pure false
  else if r.fromSubmesh = "" then pure false
  else if r.toSubmesh = "" then pure false
  else
    let seen ← seenRequest (.addEdge r)
    if seen then pure true
    else
      let m ← gets id
      addEdgeBetween p c r (lookupNode m r.fromName) (lookupNode m r.toName)

/-- Forward the deletion of a known edge, delete it and update the graph. -/
def removeEdge (r : DelEdge) (j : NodeId) (k : EdgeId) : Command Mesh Bool := do
  let m ← gets id
  let a := (m.node (m.edge k).source).submesh
  let b := (m.node (m.edge k).target).submesh
  if crosses a b then pure false
  else
    forwardRequest c (a.or b) (.delEdge r)
    edgeDel k
    graph p
    cleanUpEdge p j
    pure true

def delEdgeBetween (r : DelEdge) (i j : NodeId) : Command Mesh Bool := do
  when (50 < r.contradictions) (handleDuplicateNode i)
  let m ← gets id
  match lookupEdge m i j with
  | none => pure true
  | some k =>
    if (m.edge k).source = m.self then
      update fun m => {m with contradictingDelEdge := m.contradictingDelEdge + 1}
      let _ ← sendAddEdge p (.conn c) (m.edge k) (m.contradictingDelEdge + 1)
      pure true
    else removeEdge p c r j k

def delEdgeH (r : DelEdge) : Command Mesh Bool := do
  let seen ← seenRequest (.delEdge r)
  if seen then pure true
  else
    let m ← gets id
    match lookupNode m r.fromName, lookupNode m r.toName with
    | some i, some j => delEdgeBetween p c r i j
    | _, _ => pure true

end Handlers

end Meshlink.MetaEdges
