import Meshlink.Commands

/-!
The state of a mesh: its node table, edges, submeshes and meta connections, as
in node.c, edge.c, submesh.c and connection.c. These records point at each
other, so each kind is kept in a store and named by an identity that is never
used again. A splay tree is the list of its elements: an element that compares
equal to one that is there is not inserted, and nothing in the model depends on
the order in which a tree is walked.
-/
namespace Meshlink.MeshState

open Commands

abbrev NodeId := ℕ

abbrev EdgeId := ℕ

abbrev ConnId := ℕ

abbrev Bytes := List UInt8

inductive Sockaddr
  | unspec
  | inet (address port : ℕ)
  | inet6 (address port : ℕ)
  | unknown (address port : String)
  deriving DecidableEq

/-- Of no family, or of one that the system knows. -/
def Sockaddr.familiar : Sockaddr → Bool
  | .unknown _ _ => false
  | _ => true

/-- How far an SPTPS session has come. -/
inductive Session
  | stopped
  | starting
  | established
  deriving DecidableEq

inductive Reqno
  | id
  | metakey
  | ack
  | status
  | error
  | termreq
  | ping
  | pong
  | addEdge
  | delEdge
  | keyChanged
  | reqKey
  | ansKey
  | packet
  | reqPubkey
  | ansPubkey
  | reqSptps
  | reqCanonical
  | reqExternal
  deriving DecidableEq

/-- A packet for a node, too short for its header or with a destination. -/
inductive Packet
  | short
  | full (destination : String) (payload : Bytes)
  deriving DecidableEq

/-- What a datagram of an SPTPS session turns out to be when it is opened. -/
inductive Content
  | handshake (done : Bool)
  | probe (len : ℕ) (reply : Bool)
  | record (type : ℕ) (packet : Packet)
  deriving DecidableEq

/-- A datagram can only be opened with the session of the node that sent it. -/
structure Datagram where
  author : NodeId
  content : Content
  deriving DecidableEq

structure AddEdge where
  nonce : ℕ
  fromName : String
  fromDevclass : ℤ
  fromSubmesh : String
  toName : String
  toAddress : String
  toPort : String
  toDevclass : ℤ
  toSubmesh : String
  weight : ℤ
  contradictions : ℤ
  sessionId : ℕ
  deriving DecidableEq

structure DelEdge where
  nonce : ℕ
  fromName : String
  toName : String
  contradictions : ℤ
  sessionId : ℕ
  deriving DecidableEq

/-- A REQ_KEY request. The fields after the request number are those that the
text has, as far as they can be decoded; a public key may be there but invalid. -/
structure ReqKey where
  fromName : String
  toName : String
  reqno : Option Reqno
  pubkey : Option (Option Bytes)
  data : Option Datagram
  place : Option (String × String)
  deriving DecidableEq

/-- An ANS_KEY request. There is no key when the text has a dot for it, and a
key without data when it cannot be decoded. -/
structure AnsKey where
  fromName : String
  toName : String
  key : Option (Option Datagram)
  compression : ℤ
  place : Option (String × String)
  deriving DecidableEq

/-- The requests of the meta protocol by their fields; `bad` is one whose fields
cannot be read, `bogus` is text that is no known request. -/
inductive Request
  | id (name : String) (major minor : ℤ) (flags : ℕ)
  | ack (port : String) (devclass : ℤ) (options : ℕ)
  | ackKey (key : Bytes)
  | status
  | error (err : ℤ)
  | termreq
  | ping
  | pong
  | addEdge (r : AddEdge)
  | delEdge (r : DelEdge)
  | keyChanged (nonce : ℕ) (name : String)
  | reqKey (r : ReqKey)
  | ansKey (r : AnsKey)
  | packet
  | bad (reqno : Reqno)
  | bogus (text : Bytes)
  deriving DecidableEq

/-- The part of a node that other records and the application refer to. -/
structure NodeCore where
  name : String
  submesh : Option String
  blacklisted : Bool
  reachable : Bool
  connection : Option ConnId
  edgeTree : List EdgeId

structure Node extends NodeCore where
  validkey : Bool
  waitingforkey : Bool
  visited : Bool
  udpConfirmed : Bool
  duplicate : Bool
  dirty : Bool
  tiny : Bool
  devclass : ℤ
  sessionId : ℕ
  sptps : Session
  address : Sockaddr
  utcp : Bool
  lastReqKey : ℤ
  ecdsa : Option Bytes
  canonicalAddress : Option String
  externalAddress : Option String
  recent : List Sockaddr
  lastReachable : ℤ
  lastUnreachable : ℤ
  distance : ℤ
  nexthop : Option NodeId
  prevedge : Option EdgeId

structure EdgeCore where
  source : NodeId
  target : NodeId

structure Edge extends EdgeCore where
  address : Sockaddr
  connection : Option ConnId
  reverse : Option EdgeId
  weight : ℤ
  sessionId : ℕ

/-- The part of a meta connection that says whom it is with and how far it has
come; `allowRequest` is `none` when every request is allowed. -/
structure ConnCore where
  name : String
  node : Option NodeId
  edge : Option EdgeId
  active : Bool
  shut : Bool
  allowRequest : Option Reqno
  invitationUsed : Bool

structure Conn extends ConnCore where
  invitation : Bool
  initiator : Bool
  rawPacket : Bool
  pinged : Bool
  address : Sockaddr
  sptps : Session
  outgoing : Option NodeId
  submesh : Option String
  ecdsa : Option Bytes
  major : ℤ
  minor : ℤ
  flags : ℕ

/-- A request put on a connection, with what the connection and the node table
were like at that moment. -/
structure Sent where
  conn : ConnId
  active : Bool
  peer : Option (Option String)
  table : List (String × Option String)
  request : Request
  deriving DecidableEq

inductive Payload
  | raw (record : Request)
  | packet (data : Bytes)
  deriving DecidableEq

/-- What can be seen from outside, in the order in which it happens. -/
inductive Effect
  | report (i : NodeId) (online : Bool)
  | sent (message : Sent)
  | received (i : Option NodeId) (data : Payload)
  | channel (i : NodeId) (data : Payload)
  | stored (name : String)
  | handed (file : ℕ) (c : ConnId)
  | committed (name : String) (key : Bytes)
  | forgotten (name : String)
  deriving DecidableEq

/-- An invitation file, by its number and the name it is stored under. -/
structure Invitation where
  file : ℕ
  cookie : String
  nodeName : String
  submesh : String
  written : ℕ
  deriving DecidableEq

/-- Operations on storage and sockets that may fail. -/
inductive Op
  | writeConfig (name : String)
  | deleteConfig (name : String)
  | syncConfig
  | initConfig
  | writeMainConfig
  | syncBase
  | flush (c : ConnId)
  | connect (i : NodeId)
  | renameInvitation (cookie : String)
  | readInvitation (cookie : String)
  | unlinkInvitation (cookie : String)
  | syncInvitations
  deriving DecidableEq

/-- What a host file says about a node, from its key on. The addresses in a file are of
a family that the system knows, or empty. -/
structure StoredHost where
  key : Bytes
  canonicalAddress : Option String
  recent : List Sockaddr
  lastReachable : ℤ
  lastUnreachable : ℤ
  familiar : ∀ sa ∈ recent, sa.familiar = true

/-- What the mesh depends on: the functions of the system, the outcome of the
operations and the random numbers. -/
structure Params where
  str2sockaddr : String → String → Sockaddr
  sockaddr2str : Sockaddr → String × String
  hashSlot : Sockaddr → ℕ
  atoi : String → ℕ
  decodeKey : String → Option Bytes
  cookieHash : Bytes → String
  succeeds : ℕ → Op → Bool
  storedHost : ℕ → Option StoredHost
  prng : ℕ → ℕ

/-- The mesh. `newcomers` is a history: the addresses that the search through the graph has
taken from edges for nodes that were not reachable. -/
structure Mesh where
  name : String
  self : NodeId
  nodes : List NodeId
  node : NodeId → Node
  nextNode : NodeId
  edges : List EdgeId
  edge : EdgeId → Edge
  nextEdge : EdgeId
  connections : List ConnId
  conn : ConnId → Conn
  nextConn : ConnId
  submeshes : List String
  udpCache : ℕ → Option (Sockaddr × NodeId)
  newcomers : List (NodeId × Sockaddr)
  pastRequests : List (Request × ℕ)
  now : ℕ
  contradictingAddEdge : ℤ
  contradictingDelEdge : ℤ
  defaultBlacklist : Bool
  threadstarted : Bool
  devclass : ℤ
  myport : String
  inviterCommitsFirst : Bool
  invitationKey : Option Bytes
  invitationTimeout : ℕ
  invitations : List Invitation
  nextFile : ℕ
  receiveCb : Bool
  channelAcceptCb : Bool
  duplicateCb : Bool
  held : Bool
  ops : ℕ
  draws : ℕ
  log : List Effect

/-- The next operation and whether it succeeds. -/
def attempt (p : Params) (op : Op) : Command Mesh Bool := fun m =>
  (some (p.succeeds m.ops op), {m with ops := m.ops + 1})

def prng (p : Params) : Command Mesh ℕ := fun m =>
  (some (p.prng m.draws), {m with draws := m.draws + 1})

def record (effect : Effect) : Command Mesh Unit :=
  update fun m => {m with log := m.log ++ [effect]}

/-- An update that keeps what is seen of a value is not seen at all. -/
theorem seen_update {ι α τ : Type} [DecidableEq ι] {g : α → τ} {f : ι → α} {i : ι} {a : α}
    (h : g a = g (f i)) : (fun j => g (Function.update f i a j)) = fun j => g (f j) := by
  refine (Function.comp_update g f i a).trans ?_
  rw [h]
  exact Function.update_eq_self i _

def modifyNode (i : NodeId) (f : Node → Node) : Command Mesh Unit :=
  update fun m => {m with node := Function.update m.node i (f (m.node i))}

def modifyEdge (k : EdgeId) (f : Edge → Edge) : Command Mesh Unit :=
  update fun m => {m with edge := Function.update m.edge k (f (m.edge k))}

def modifyConn (c : ConnId) (f : Conn → Conn) : Command Mesh Unit :=
  update fun m => {m with conn := Function.update m.conn c (f (m.conn c))}

def strcmp (a b : String) : ℤ := if a < b then -1 else if a = b then 0 else 1

def checkId (name : String) : Bool :=
  name ≠ "" && name.toList.all fun c => c.isAlphanum || c == '_' || c == '-'

section Nodes

def devClassUnknown : ℤ := 3

def devClassCount : ℤ := 4

def newNode (name : String) : Node where
  name := name
  submesh := none
  blacklisted := false
  reachable := false
  connection := none
  edgeTree := []
  validkey := false
  waitingforkey := false
  visited := false
  udpConfirmed := false
  duplicate := false
  dirty := false
  tiny := false
  devclass := devClassUnknown
  sessionId := 0
  sptps := .stopped
  address := .unspec
  utcp := false
  lastReqKey := 0
  ecdsa := none
  canonicalAddress := none
  externalAddress := none
  recent := []
  lastReachable := 0
  lastUnreachable := 0
  distance := 0
  nexthop := none
  prevedge := none

def lookupNode (m : Mesh) (name : String) : Option NodeId :=
  m.nodes.find? fun i => (m.node i).name = name

/-- Allocate a node and node_add it; the tree keeps the old node of a name. -/
def nodeAdd (nd : Node) : Command Mesh NodeId := fun m =>
  (some m.nextNode, {m with
    node := Function.update m.node m.nextNode nd
    nextNode := m.nextNode + 1
    nodes := if (lookupNode m nd.name).isSome then m.nodes else m.nodes ++ [m.nextNode]})

def maxRecent : ℕ := 5

/-- The place of an address among the recent ones. The search ends at an empty entry,
and an address that is not found takes the last place when all are in use. -/
def recentIndex (recent : List Sockaddr) (sa : Sockaddr) : ℕ :=
  min ((recent.takeWhile fun known => known ≠ .unspec).findIdx fun known => known = sa)
    (maxRecent - 1)

/-- The address comes first, and the entries before its place move back by one. -/
def addRecent (recent : List Sockaddr) (sa : Sockaddr) : List Sockaddr :=
  sa :: (recent.take (recentIndex recent sa) ++ recent.drop (recentIndex recent sa + 1))

/-- The addresses of a host file take the places after those in use. -/
def appendRecent (recent stored : List Sockaddr) : List Sockaddr :=
  let known := recent.countP fun sa => sa ≠ .unspec
  let added := stored.take (maxRecent - known)
  recent.take known ++ added ++ recent.drop (known + added.length)

def nodeAddRecentAddress (i : NodeId) (sa : Sockaddr) : Command Mesh Unit :=
  modifyNode i fun nd =>
    if sa ≠ .unspec ∧ nd.recent.head? = some sa then nd
    else {nd with recent := addRecent nd.recent sa, dirty := true}

def lookupNodeUdp (p : Params) (m : Mesh) (sa : Sockaddr) : Option NodeId :=
  match m.udpCache (p.hashSlot sa) with
  | some (key, i) => if key = sa then some i else none
  | none => none

def cacheAddress (p : Params) (sa : Sockaddr) (value : Option NodeId) : Command Mesh Unit :=
  update fun m => {m with
    udpCache := Function.update m.udpCache (p.hashSlot sa) (value.map fun i => (sa, i))}

def updateNodeUdp (p : Params) (i : NodeId) (sa : Option Sockaddr) : Command Mesh Unit := do
  let self ← gets (·.self)
  if i = self then pure ()
  else
    let nd ← gets (·.node i)
    cacheAddress p nd.address none
    match sa with
    | none => pure ()
    | some sa =>
      modifyNode i fun nd => {nd with address := sa}
      cacheAddress p sa (some i)
      nodeAddRecentAddress i sa

end Nodes

section Edges

def edgeCompare (m : Mesh) (a b : EdgeId) : Bool :=
  (m.node (m.edge a).target).name = (m.node (m.edge b).target).name

def edgeWeightCompare (m : Mesh) (a b : EdgeId) : Bool :=
  (m.edge a).weight = (m.edge b).weight &&
    ((m.node (m.edge a).source).name = (m.node (m.edge b).source).name && edgeCompare m a b)

def lookupEdge (m : Mesh) (i j : NodeId) : Option EdgeId :=
  (m.node i).edgeTree.find? fun k => (m.node (m.edge k).target).name = (m.node j).name

def newEdge (i j : NodeId) : Edge where
  source := i
  target := j
  address := .unspec
  connection := none
  reverse := none
  weight := 0
  sessionId := 0

def linkReverse (k : EdgeId) : Option EdgeId → Command Mesh Unit
  | none => pure ()
  | some r => do
    modifyEdge k fun e => {e with reverse := some r}
    modifyEdge r fun e => {e with reverse := some k}

/-- Allocate an edge and edge_add it. -/
def edgeAdd (e : Edge) : Command Mesh EdgeId := do
  let k ← gets (·.nextEdge)
  update fun m => {m with edge := Function.update m.edge k e, nextEdge := k + 1}
  update fun m =>
    if m.edges.any (edgeWeightCompare m k) then m else {m with edges := m.edges ++ [k]}
  let known ← gets (lookupEdge · e.source e.target)
  when known.isNone (modifyNode e.source fun nd => {nd with edgeTree := nd.edgeTree ++ [k]})
  let reverse ← gets (lookupEdge · e.target e.source)
  linkReverse k reverse
  pure k

def unlinkReverse : Option EdgeId → Command Mesh Unit
  | none => pure ()
  | some r => modifyEdge r fun e => {e with reverse := none}

def edgeDel (k : EdgeId) : Command Mesh Unit := do
  let e ← gets (·.edge k)
  unlinkReverse e.reverse
  update fun m => {m with edges := m.edges.filter fun a => !edgeWeightCompare m k a}
  let m ← gets id
  modifyNode e.source fun nd => {nd with edgeTree := nd.edgeTree.filter fun a => !edgeCompare m k a}

end Edges

section Submeshes

def coreMesh : String := "."

/-- A submesh is told from others by its name. -/
def lookupOrCreateSubmesh (name : String) : Command Mesh (Option String) := do
  if name = coreMesh then pure none
  else if !checkId name then pure none
  else
    update fun m =>
      if name ∈ m.submeshes then m else {m with submeshes := m.submeshes ++ [name]}
    pure (some name)

def submeshAllowsNode (submesh node : Option String) : Bool :=
  node = none || submesh = none || submesh = node

end Submeshes

def newConnection (name : String) (address : Sockaddr) (outgoing : Option NodeId) : Conn where
  name := name
  node := none
  edge := none
  active := false
  shut := false
  invitation := false
  invitationUsed := false
  initiator := outgoing.isSome
  rawPacket := false
  pinged := false
  address := address
  sptps := .stopped
  allowRequest := some .id
  outgoing := outgoing
  submesh := none
  ecdsa := none
  major := 0
  minor := 0
  flags := 0

def connectionAdd (cn : Conn) : Command Mesh ConnId := fun m =>
  (some m.nextConn, {m with
    conn := Function.update m.conn m.nextConn cn
    nextConn := m.nextConn + 1
    connections := m.connections ++ [m.nextConn]})

def connectionDel (c : ConnId) : Command Mesh Unit :=
  update fun m => {m with connections := m.connections.filter fun other => other ≠ c}

end Meshlink.MeshState
