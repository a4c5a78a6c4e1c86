import Meshlink.MetaKeys

/-!
Meta connections from the first line to the last request: protocol_auth.c
without invitations, protocol_misc.c, and the receiving half of protocol.c and
meta.c. A peer gives its name in an ID request, proves it in an SPTPS handshake
and is activated by its ACK request; from then on every request is let through.
-/
namespace Meshlink.MetaHandlers

open Commands MeshState MeshGraph MetaEdges MetaKeys

section Errors

variable (p : Params)

/-- A write that fails terminates the connection. -/
def flushMeta (c : ConnId) : Command Mesh Unit := do
  let flushed ← attempt p (.flush c)
  let cn ← gets (·.conn c)
  when (!flushed) (terminateConnection p c cn.active)

def blacklistedError : ℤ := 1

def sendError (c : ConnId) (err : ℤ) : Command Mesh Bool := do
  let _ ← sendMeta c (.error err)
  flushMeta p c
  pure false

end Errors

section Identification

variable (p : Params)

def protMajor : ℤ := 17

/-- OPTION_PMTU_DISCOVERY and the minor protocol version 3. -/
def ackOptions : ℕ := 4 + 3 * 2 ^ 24

/-- An ID request with a question mark asks for an invitation. -/
def invitationName (name : String) : Bool := name.toList.head? = some '?'

def startInvitation (c : ConnId) (name : String) : Command Mesh Bool := do
  let m ← gets id
  match m.invitationKey, p.decodeKey name with
  | some mykey, some hiskey =>
    modifyConn c fun cn => {cn with ecdsa := some hiskey, invitation := true}
    let sent ← sendMeta c (.ackKey mykey)
    if !sent then pure false
    else
      modifyConn c fun cn => {cn with
        minor := 2
        allowRequest := some .metakey
        sptps := .starting}
      pure true
  | _, _ => pure false

/-- The node with the name of the peer has to be known, with its key. -/
def startPeer (c : ConnId) : Command Mesh Bool := do
  let m ← gets id
  match lookupNode m (m.conn c).name with
  | none => pure false
  | some i =>
    let known ← nodeReadPublicKey p i
    let cn ← gets (·.conn c)
    if !known then
      let nd ← gets (·.node i)
      when (nd.reachable && !nd.waitingforkey) (sendReqKey p i)
      pure false
    else if cn.ecdsa.isSome && cn.minor < 2 then pure false
    else
      modifyConn c fun cn => {cn with allowRequest := some .ack, sptps := .starting}
      pure true

def idH (c : ConnId) (name : String) (major minor : ℤ) (flags : ℕ) : Command Mesh Bool := do
  modifyConn c fun cn => {cn with major := major, minor := minor, flags := flags}
  let cn ← gets (·.conn c)
  if invitationName name then startInvitation p c name
  else if !checkId name then pure false
  else if cn.outgoing.isSome && cn.name ≠ name then pure false
  else
    modifyConn c fun cn => {cn with name := name}
    if major ≠ protMajor then pure false else startPeer p c

def sendAck (c : ConnId) : Command Mesh Bool := do
  let m ← gets id
  let blacklisted := match lookupNode m (m.conn c).name with
    | none => false
    | some i => (m.node i).blacklisted
  if blacklisted then sendError p c blacklistedError
  else sendMeta c (.ack m.myport m.devclass ackOptions)

end Identification

section Activation

variable (p : Params) (c : ConnId)

/-- A connection takes over the outgoing that another one has. -/
def takeOutgoing (other : ConnId) : Command Mesh Unit := do
  let m ← gets id
  when ((m.conn other).outgoing.isSome && (m.conn c).outgoing.isNone)
    (modifyConn c fun cn => {cn with outgoing := (m.conn other).outgoing})
  modifyConn other fun cn => {cn with outgoing := none}

def edgeDelOf : Option EdgeId → Command Mesh Unit
  | none => pure ()
  | some k => edgeDel k

/-- Close the connection that the node already has. Its edge is removed first, to
prevent a graph update. -/
def replaceConnection (i : NodeId) : Command Mesh Unit := do
  let m ← gets id
  match (m.node i).connection with
  | none => pure ()
  | some old =>
    takeOutgoing c old
    edgeDelOf (m.conn old).edge
    modifyConn old fun cn => {cn with edge := none}
    terminateConnection p old false

/-- The node of a connection that is activated. -/
def peerNode : Command Mesh NodeId := do
  let m ← gets id
  match lookupNode m (m.conn c).name with
  | none => nodeAdd (newNode (m.conn c).name)
  | some i => do
    replaceConnection p c i
    pure i

def attach (i : NodeId) (devclass : ℤ) : Command Mesh Unit := do
  let cn ← gets (·.conn c)
  modifyNode i fun nd => {nd with
    devclass := devclass
    dirty := true
    tiny := isTiny cn
    connection := some c
    nexthop := some i}
  modifyConn c fun cn => {cn with node := some i, allowRequest := none, active := true}

/-- Terminate the connections to the same node that are not activated yet. -/
def terminatePending : Command Mesh Unit := do
  let connections ← gets (·.connections)
  forEach connections fun other => do
    let m ← gets id
    when (!(m.conn other).active && (m.conn other).name = (m.conn c).name) (do
      takeOutgoing c other
      terminateConnection p other false)

def sendEverything : Command Mesh Unit := do
  let m ← gets id
  forEach m.nodes fun i => forEach (m.node i).edgeTree fun k => do
    let e ← gets (·.edge k)
    let _ ← sendAddEdge p (.conn c) e 0
    pure ()

def setPort : Sockaddr → ℕ → Sockaddr
  | .inet address _, port => .inet address port
  | .inet6 address _, port => .inet6 address port
  | sa, _ => sa

/-- The weights of edges to nodes of a device class. -/
def edgeWeight (devclass : ℤ) : ℤ :=
  if devclass = 0 then 1 else if devclass = 1 then 3 else if devclass = 2 then 6 else 9

def addOwnEdge (i : NodeId) (port : String) (devclass : ℤ) : Command Mesh Unit := do
  let m ← gets id
  nodeAddRecentAddress i (m.conn c).address
  let k ← edgeAdd {newEdge m.self i with
    address := setPort (m.conn c).address (p.atoi port)
    weight := edgeWeight devclass
    connection := some c}
  modifyConn c fun cn => {cn with edge := some k}
  let e ← gets (·.edge k)
  let _ ← sendAddEdge p .everyone e 0
  pure ()

def ackH (port : String) (devclass : ℤ) : Command Mesh Bool := do
  if !validDevclass devclass then pure false
  else
    let i ← peerNode p c
    attach c i devclass
    terminatePending p c
    let cn ← gets (·.conn c)
    when (!isTiny cn) (sendEverything p c)
    addOwnEdge p c i port devclass
    graph p
    when cn.initiator (sendReqKey p i)
    pure true

end Activation

section Requests

variable (p : Params) (c : ConnId)

def keyChangedH (r : Request) (name : String) : Command Mesh Bool := do
  let seen ← seenRequest r
  if seen then pure true
  else
    let m ← gets id
    match lookupNode m name with
    | none => pure true
    | some _ =>
      forwardRequest c none r
      pure true

def reqnoOf : Request → Option Reqno
  | .id _ _ _ _ => some .id
  | .ack _ _ _ => some .ack
  | .ackKey _ => some .ack
  | .status => some .status
  | .error _ => some .error
  | .termreq => some .termreq
  | .ping => some .ping
  | .pong => some .pong
  | .addEdge _ => some .addEdge
  | .delEdge _ => some .delEdge
  | .keyChanged _ _ => some .keyChanged
  | .reqKey _ => some .reqKey
  | .ansKey _ => some .ansKey
  | .packet => some .packet
  | .bad reqno => some reqno
  | .bogus _ => none

/-- The handler of a request. An ACK with a key has no device class. -/
def handleRequest (r : Request) : Command Mesh Bool :=
  match r with
  | .id name major minor flags => idH p c name major minor flags
  | .ack port devclass _ => ackH p c port devclass
  | .ackKey _ => pure false
  | .status => pure true
  | .error _ => pure false
  | .termreq => pure false
  | .ping => sendMeta c .pong
  | .pong => do
    modifyConn c fun cn => {cn with pinged := false}
    pure true
  | .addEdge r => addEdgeH p c r
  | .delEdge r => delEdgeH p c r
  | .keyChanged nonce name => keyChangedH c (.keyChanged nonce name) name
  | .reqKey r => reqKeyH p c r
  | .ansKey r => ansKeyH p c r
  | .packet => do
    modifyConn c fun cn => {cn with rawPacket := true}
    pure true
  | .bad _ => pure false
  | .bogus _ => pure false

def admitted (allowed : Option Reqno) (reqno : Reqno) : Bool :=
  allowed = none || (allowed = some reqno || reqno = .error)

def receiveRequest (r : Request) : Command Mesh Bool := do
  let cn ← gets (·.conn c)
  match reqnoOf r with
  | none => pure false
  | some reqno => if admitted cn.allowRequest reqno then handleRequest p c r else pure false

/-- receive_meta_sptps for application data. -/
def receiveMetaSptps (r : Request) : Command Mesh Bool := do
  let m ← gets id
  if (m.conn c).rawPacket then
    modifyConn c fun cn => {cn with rawPacket := false}
    when m.receiveCb (record (.received (m.conn c).node (.raw r)))
    pure true
  else receiveRequest p c r

/-- receive_meta_sptps for the end of a handshake. -/
def handshakeDone : Command Mesh Bool := do
  let cn ← gets (·.conn c)
  if cn.allowRequest = some .ack then sendAck p c else pure true

/-- The last step of receive_handshake in sptps.c: the callback is told, and what
it returns is not looked at. -/
def receiveHandshake : Command Mesh Bool := do
  modifyConn c fun cn => {cn with sptps := .established}
  let _ ← handshakeDone p c
  pure true

/-- handle_meta_connection_data: what cannot be handled ends the connection. -/
def handleMetaData (receive : Command Mesh Bool) : Command Mesh Unit := do
  let ok ← receive
  let cn ← gets (·.conn c)
  when (!ok) (terminateConnection p c cn.active)

end Requests

end Meshlink.MetaHandlers
