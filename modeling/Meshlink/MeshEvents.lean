import Meshlink.HostFiles
import Meshlink.Systems

/-!
Runs of a mesh: what the network, the timers and the application can make it do,
one event at a time and in any order. Data on a meta connection carries whether
its sender sent it after the connection was shut down; such data never arrives.
-/
namespace Meshlink.MeshEvents

open Commands MeshState MeshGraph MetaEdges MetaKeys MetaHandlers MeshCalls HostFiles

/-- What arrives on a meta connection: a line before the peer is identified, the
end of an SPTPS handshake, a record, or a record of an invitation. -/
inductive Arrival
  | line (r : Request)
  | handshake
  | record (r : Request)
  | invitation (type : ℕ) (data : Bytes)

inductive Event
  | accept (address : Sockaddr)
  | dial (i : NodeId)
  | arrive (c : ConnId) (late : Bool) (a : Arrival)
  | terminate (c : ConnId) (report : Bool)
  | udp (sa : Sockaddr) (limited : Bool) (d : Datagram)
  | graph
  | start
  | clock (now : ℕ)
  | age
  | blacklist (i : NodeId)
  | whitelist (i : NodeId)
  | blacklistByName (name : String)
  | whitelistByName (name : String)
  | setDefaultBlacklist (value : Bool)
  | forget (i : NodeId) (channels : Bool)
  | invite (cookie name : String) (submesh : Option String)
  | expire (cookie : String)
  | setInviterCommitsFirst (value : Bool)
  | importHosts (data : Bytes)
  | join (peer : Option Sockaddr) (payload : Bytes)

section Steps

variable (p : Params)

/-- What a connection does with an arrival, depending on how far it has come. -/
def receive (cn : Conn) (c : ConnId) : Arrival → Command Mesh Bool
  | .line r => if cn.allowRequest = some .id then receiveRequest p c r else pure true
  | .handshake => if cn.sptps = .stopped then pure false else receiveHandshake p c
  | .record r =>
    if cn.sptps = .established && !cn.invitation then receiveMetaSptps p c r else pure false
  | .invitation type data =>
    if cn.sptps = .established && cn.invitation then receiveInvitationSptps p c type data
    else pure false

/-- The socket of a connection that was shut down gives no data that was sent
afterwards, but tells that the connection is closed. -/
def handleArrival (c : ConnId) (late : Bool) (a : Arrival) : Command Mesh Unit := do
  let m ← gets id
  if c ∈ m.connections then
    if (m.conn c).shut && late then terminateConnection p c (m.conn c).active
    else handleMetaData p c (receive p (m.conn c) c a)
  else pure ()

def handleTermination (c : ConnId) (report : Bool) : Command Mesh Unit := do
  let m ← gets id
  if c ∈ m.connections then terminateConnection p c report else pure ()

/-- setup_outgoing_connection. -/
def handleDial (i : NodeId) : Command Mesh Unit := do
  let m ← gets id
  if i ∈ m.nodes then
    match (m.node i).connection with
    | some c => modifyConn c fun cn => {cn with outgoing := some i}
    | none => when (!(m.node i).blacklisted) (doOutgoingConnection p (some i))
  else pure ()

def agePastRequests : Command Mesh Unit :=
  update fun m => {m with pastRequests := m.pastRequests.filter fun past => m.now < past.2 + 60}

/-- The application only has handles of nodes that are known. -/
def withNode (i : NodeId) (x : Command Mesh Bool) : Command Mesh Unit := do
  let m ← gets id
  if i ∈ m.nodes then
    let _ ← x
    pure ()
  else pure ()

def ignoring (x : Command Mesh Bool) : Command Mesh Unit := do
  let _ ← x
  pure ()

/-- Joining is refused while the mesh runs or when other nodes are known. -/
def handleJoin (peer : Option Sockaddr) (payload : Bytes) : Command Mesh Unit := do
  let m ← gets id
  if m.threadstarted || 1 < m.nodes.length then pure ()
  else ignoring (finalizeJoin p peer payload)

def handle : Event → Command Mesh Unit
  | .accept address => do
    let c ← connectionAdd (newConnection "<unknown>" address none)
    let m ← gets id
    let _ ← sendMeta c (.id (m.node m.self).name protMajor 3 0)
    pure ()
  | .dial i => handleDial p i
  | .arrive c late a => handleArrival p c late a
  | .terminate c report => handleTermination p c report
  | .udp sa limited d => handleIncomingVpnData p sa limited d
  | .graph => MeshGraph.graph p
  | .start => do
    update fun m => {m with threadstarted := true}
    MeshGraph.graph p
  | .clock now => update fun m => {m with now := now}
  | .age => agePastRequests
  | .blacklist i => withNode i (MeshCalls.blacklist p i)
  | .whitelist i => withNode i (MeshCalls.whitelist p i)
  | .blacklistByName name => ignoring (meshlinkBlacklistByName p name)
  | .whitelistByName name => ignoring (meshlinkWhitelistByName p name)
  | .setDefaultBlacklist value => update fun m => {m with defaultBlacklist := value}
  | .forget i channels => withNode i (meshlinkForgetNode p i channels)
  | .invite cookie name submesh => meshlinkInvite cookie name submesh
  | .expire cookie => update fun m => {m with
      invitations := m.invitations.filter fun inv => inv.cookie ≠ cookie}
  | .setInviterCommitsFirst value => update fun m => {m with inviterCommitsFirst := value}
  | .importHosts data => ignoring (meshlinkImport p data)
  | .join peer payload => handleJoin p peer payload

/-- The state after an event; what stops the process leaves it as it is then. -/
def step (m : Mesh) (ev : Event) : Mesh := after (handle p ev) m

def run (m : Mesh) (evs : List Event) : Mesh := evs.foldl (step p) m

end Steps

end Meshlink.MeshEvents
