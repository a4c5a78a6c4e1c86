import Meshlink.MetaHandlers
import Meshlink.Packmsg

/-!
Who belongs to the mesh: blacklisting, whitelisting, forgetting and importing
nodes in meshlink.c, invitations in protocol_auth.c and conf.c, and
finalize_join. Host files come in encoded by packmsg; a file that is cut off
where a string is expected makes the code read a null pointer, which stops the
process.
-/
namespace Meshlink.MeshCalls

open Commands MeshState MeshGraph MetaEdges MetaHandlers

section Blacklisting

variable (p : Params) (i : NodeId) (name : String)

/-- invitation_purge_node: delete the invitations for a name. -/
def invitationPurgeNode : Command Mesh Unit := do
  let invitations ← gets (·.invitations)
  forEach invitations fun inv => when (inv.nodeName = name) (do
    let deleted ← attempt p (.unlinkInvitation inv.cookie)
    when deleted (update fun m => {m with
      invitations := m.invitations.filter fun other => other.cookie ≠ inv.cookie}))

/-- Tell a peer that it is blacklisted and shut its connection down. -/
def shutPeer (c : ConnId) : Command Mesh Unit := do
  let cn ← gets (·.conn c)
  when (cn.node = some i) (do
    when cn.active (do
      let _ ← sendError p c blacklistedError
      pure ())
    modifyConn c fun cn => {cn with shut := true})

/-- A node that was reachable is reported to be gone. -/
def reportGone : Command Mesh Unit := do
  let m ← gets id
  when (m.node i).reachable (do
    modifyNode i fun nd => {nd with lastUnreachable := m.now}
    record (.report i false))

def storeNode : Command Mesh Bool := do
  let written ← nodeWriteConfig p i
  if written then attempt p .syncConfig else pure false

def blacklist : Command Mesh Bool := do
  let m ← gets id
  if i = m.self then pure false
  else if (m.node i).blacklisted then pure true
  else
    modifyNode i fun nd => {nd with blacklisted := true}
    forEach m.connections (shutPeer p i)
    modifyNode i fun nd => {nd with udpConfirmed := false}
    reportGone i
    invitationPurgeNode p (m.node i).name
    storeNode p i

/-- A node that is reachable is reported to be there again. -/
def reportBack : Command Mesh Unit := do
  let m ← gets id
  when (m.node i).reachable (do
    modifyNode i fun nd => {nd with lastReachable := m.now}
    updateNodeStatus i)

def whitelist : Command Mesh Bool := do
  let m ← gets id
  if i = m.self then pure false
  else if !(m.node i).blacklisted then pure true
  else
    modifyNode i fun nd => {nd with blacklisted := false}
    reportBack i
    storeNode p i

/-- The node of a name, which is created if it is not known. -/
def namedNode : Command Mesh NodeId := do
  let m ← gets id
  match lookupNode m name with
  | some i => pure i
  | none => nodeAdd (newNode name)

def meshlinkBlacklistByName : Command Mesh Bool := do
  let i ← namedNode name
  blacklist p i

def meshlinkWhitelistByName : Command Mesh Bool := do
  let i ← namedNode name
  whitelist p i

end Blacklisting

section Forgetting

variable (p : Params)

/-- node_del: delete the edges from a node, then the node. -/
def nodeDel (i : NodeId) : Command Mesh Unit := do
  let nd ← gets (·.node i)
  forEach nd.edgeTree edgeDel
  update fun m => {m with nodes := m.nodes.filter fun j => (m.node j).name ≠ nd.name}

/-- The node is in use: reachable, connected, or with channels that are active. -/
def inUse (m : Mesh) (i : NodeId) (channels : Bool) : Bool :=
  ((m.node i).reachable || (m.node i).connection.isSome) ||
    (((m.node i).utcp && channels) || m.connections.any fun c => (m.conn c).node = some i)

/-- meshlink_forget_node; `channels` tells whether UTCP has active connections. -/
def meshlinkForgetNode (i : NodeId) (channels : Bool) : Command Mesh Bool := do
  let m ← gets id
  if inUse m i channels then pure false
  else
    let deleted ← attempt p (.deleteConfig (m.node i).name)
    if !deleted then pure false
    else
      invitationPurgeNode p (m.node i).name
      nodeDel i
      record (.forgotten (m.node i).name)
      attempt p .syncConfig

end Forgetting

section Invitations

variable (p : Params)

/-- The last part of invitation_read, once the file has been renamed. -/
def readUsed (inv : Invitation) : Command Mesh Bool := do
  let m ← gets id
  if inv.written + m.invitationTimeout ≤ m.now then pure false
  else
    let readable ← attempt p (.readInvitation inv.cookie)
    if !readable then pure false
    else
      let deleted ← attempt p (.unlinkInvitation inv.cookie)
      if !deleted then pure false else attempt p .syncInvitations

/-- invitation_read: the rename takes the file away from everyone else. -/
def invitationRead (cookie : String) : Command Mesh (Option Invitation) := do
  let renamed ← attempt p (.renameInvitation cookie)
  let m ← gets id
  match m.invitations.find? fun inv => inv.cookie = cookie with
  | none => pure none
  | some inv =>
    if !renamed then pure none
    else
      update fun m => {m with
        invitations := m.invitations.filter fun other => other.cookie ≠ cookie}
      let ok ← readUsed p inv
      pure (if ok then some inv else none)

def storeInvitee (name : String) : Command Mesh Bool := do
  let written ← writeHostFile p name
  if written then attempt p .syncConfig else pure false

def commitInvitation (c : ConnId) (key : Bytes) : Command Mesh Bool := do
  let m ← gets id
  let cn := m.conn c
  if (lookupNode m cn.name).isSome then pure false
  else
    let stored ← storeInvitee p cn.name
    if !stored then pure false
    else
      let _ ← nodeAdd {newNode cn.name with
        ecdsa := some key
        submesh := cn.submesh
        recent := [cn.address]}
      record (.committed cn.name key)
      pure true

/-- The submesh of an invitation, or none if it is not one. -/
def invitationSubmesh (name : String) : Command Mesh (Option (Option String)) := do
  if name = coreMesh then pure (some none)
  else if !checkId name then pure none
  else
    let submesh ← lookupOrCreateSubmesh name
    pure (submesh.map some)

def commitFirst (c : ConnId) (key : Bytes) : Command Mesh Bool := do
  let first ← gets (·.inviterCommitsFirst)
  if first then commitInvitation p c key else pure true

def processInvitation (c : ConnId) (cookie key : Bytes) : Command Mesh Bool := do
  let file ← invitationRead p (p.cookieHash cookie)
  match file with
  | none => pure false
  | some inv =>
    record (.handed inv.file c)
    modifyConn c fun cn => {cn with name := inv.nodeName}
    let submesh ← invitationSubmesh inv.submesh
    match submesh with
    | none => pure false
    | some submesh =>
      modifyConn c fun cn => {cn with submesh := submesh}
      let committed ← commitFirst p c key
      if !committed then pure false
      else
        modifyConn c fun cn => {cn with invitationUsed := true}
        pure true

def receiveInvitationSptps (c : ConnId) (type : ℕ) (data : Bytes) : Command Mesh Bool := do
  let m ← gets id
  let used := (m.conn c).invitationUsed
  if m.inviterCommitsFirst then
    if type = 2 && (data.length = 50 && !used) then
      processInvitation p c (data.take 18) (data.drop 18)
    else pure false
  else if type = 0 && (data.length = 18 && !used) then processInvitation p c data []
  else if type = 1 && (data.length = 32 && used) then commitInvitation p c data
  else pure false

/-- meshlink_invite: a new invitation file for a name that is not known. -/
def meshlinkInvite (cookie name : String) (submesh : Option String) : Command Mesh Unit := do
  let m ← gets id
  when (checkId name && (lookupNode m name).isNone) (update fun m => {m with
    invitations := (m.invitations.filter fun other => other.cookie ≠ cookie) ++
      [⟨m.nextFile, cookie, name, submeshName submesh, m.now⟩]
    nextFile := m.nextFile + 1})

end Invitations

end Meshlink.MeshCalls
