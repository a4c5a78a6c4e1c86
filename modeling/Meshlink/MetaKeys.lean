import Meshlink.MetaEdges

/-!
Keys of nodes and the packets that are protected with them: protocol_key.c, the
receiving half of net_packet.c, and route.c. A datagram that is opened with the
session of the node that sent it ends in the receive callback or in the channels
of that node.
-/
namespace Meshlink.MetaKeys

open Commands MeshState MeshGraph MetaEdges

section Requests

variable (p : Params) (i : NodeId)

def readStored (host : StoredHost) (nd : Node) : Node :=
  {nd with
    ecdsa := some host.key
    canonicalAddress := nd.canonicalAddress.or host.canonicalAddress
    recent := appendRecent nd.recent host.recent
    lastReachable := if nd.lastReachable = 0 then host.lastReachable else nd.lastReachable
    lastUnreachable :=
      if nd.lastUnreachable = 0 then host.lastUnreachable else nd.lastUnreachable}

/-- The key of a node is read from its host file when it is not known yet, and what else
the file says about the node with it. -/
def nodeReadPublicKey : Command Mesh Bool := do
  let m ← gets id
  if (m.node i).ecdsa.isSome then pure true
  else
    update fun m => {m with ops := m.ops + 1}
    match p.storedHost m.ops with
    | none => pure false
    | some host =>
      modifyNode i (readStored host)
      pure true

/-- The connection over which a node can be reached. -/
def viaConnection (m : Mesh) (i : NodeId) : Option ConnId :=
  (m.node i).nexthop.bind fun hop => (m.node hop).connection

def sendVia (r : Request) : Command Mesh Unit := do
  let m ← gets id
  match viaConnection m i with
  | none => pure ()
  | some c =>
    let _ ← sendMeta c r
    pure ()

def keyRequest (m : Mesh) (i : NodeId) (reqno : Reqno) : ReqKey where
  fromName := (m.node m.self).name
  toName := (m.node i).name
  reqno := some reqno
  pubkey := none
  data := none
  place := none

/-- The first two words of an address text. -/
def placeOf (text : String) : Option (String × String) :=
  match text.splitOn " " with
  | host :: port :: _ => some (host, port)
  | _ => none

/-- Send our addresses to help with hole punching. -/
def sendAddresses : Command Mesh Unit := do
  let m ← gets id
  let self := m.node m.self
  when self.canonicalAddress.isSome (sendVia i (.reqKey {keyRequest m i .reqCanonical with
    place := self.canonicalAddress.bind placeOf}))
  when self.externalAddress.isSome (sendVia i (.reqKey {keyRequest m i .reqExternal with
    place := self.externalAddress.map fun host => (host, m.myport)}))

def startSession : Command Mesh Unit := do
  let now ← gets (·.now)
  modifyNode i fun nd => {nd with
    validkey := false
    waitingforkey := true
    lastReqKey := now
    sptps := .starting}

def sendReqKey : Command Mesh Unit := do
  let known ← nodeReadPublicKey p i
  let m ← gets id
  if known then
    sendAddresses i
    startSession i
    sendVia i (.reqKey {keyRequest m i .reqKey with data := some ⟨m.self, .handshake false⟩})
  else sendVia i (.reqKey {keyRequest m i .reqPubkey with pubkey := some (m.node m.self).ecdsa})

end Requests

section Packets

variable (p : Params) (i : NodeId)

/-- A packet for another node leaves through the session with it, or asks for a
key first; a tiny node gets it over its connection. -/
def sendPacket (j : NodeId) (packet : Packet) : Command Mesh Unit := do
  let m ← gets id
  let nd := m.node j
  if j = m.self || (!nd.reachable || nd.validkey) then pure ()
  else
    match nd.connection.filter fun c => isTiny (m.conn c) && (m.conn c).active with
    | some c =>
      let sent ← sendMeta c .packet
      when sent (do
        let _ ← sendMeta c (.bogus (match packet with
          | .short => []
          | .full _ payload => payload))
        pure ())
    | none =>
      when (!nd.waitingforkey || nd.lastReqKey + 10 < m.now) (sendReqKey p j)

def deliver (payload : Bytes) : Command Mesh Unit := do
  let m ← gets id
  if (m.node i).utcp then record (.channel i (.packet payload))
  else when m.receiveCb (record (.received (some i) (.packet payload)))

def route (source : NodeId) (packet : Packet) : Command Mesh Unit :=
  match packet with
  | .short => pure ()
  | .full destination payload => do
    let m ← gets id
    match lookupNode m destination with
    | none => pure ()
    | some j =>
      if j = m.self then deliver source payload
      else if !(m.node j).reachable then pure ()
      else if j = source then pure ()
      else sendPacket p j packet

def receivePacket (packet : Packet) : Command Mesh Unit := do
  let nd ← gets (·.node i)
  if nd.blacklisted then pure () else route p i packet

/-- The first answer to a probe confirms the address of a node, which is told about it. -/
def mtuProbeH (len : ℕ) (reply : Bool) : Command Mesh Unit := do
  let nd ← gets (·.node i)
  when (64 ≤ len && (reply && !nd.udpConfirmed)) (do
    sendVia i (.ansKey ⟨nd.name, nd.name, none, 0, some (p.sockaddr2str nd.address)⟩)
    modifyNode i fun nd => {nd with udpConfirmed := true})

/-- Other types than 0 and that of probes are refused. -/
def receiveSptpsRecord : Content → Command Mesh Bool
  | .handshake done => do
    when done (modifyNode i fun nd => {nd with
      validkey := true
      waitingforkey := false
      sptps := .established})
    pure true
  | .probe len reply => do
    mtuProbeH p i len reply
    pure true
  | .record type packet =>
    if type ≠ 0 then pure false
    else do
      receivePacket p i packet
      pure true

def opens (s : Session) : Content → Bool
  | .handshake _ => s ≠ .stopped
  | _ => s = .established

/-- sptps_receive_data on the session with a node. -/
def sptpsReceiveData (d : Datagram) : Command Mesh Bool := do
  let nd ← gets (·.node i)
  if d.author = i && opens nd.sptps d.content then receiveSptpsRecord p i d.content
  else pure false

def sameHost : Sockaddr → Sockaddr → Bool
  | .inet a _, .inet b _ => a = b
  | .inet6 a _, .inet6 b _ => a = b
  | .unknown a _, .unknown b _ => a = b
  | .unspec, .unspec => true
  | _, _ => false

/-- try_harder: the target of an edge whose session accepts the datagram. When
`limited`, only edges with the address it came from are tried. -/
def tryHarder (m : Mesh) (sa : Sockaddr) (limited : Bool) (d : Datagram) : Option NodeId :=
  (m.edges.find? fun k =>
    let e := m.edge k
    let nd := m.node e.target
    nd.reachable && (e.target ≠ m.self && ((sameHost sa e.address || !limited) &&
      (d.author = e.target && nd.sptps = .established)))).map fun k => (m.edge k).target

def receiveUdppacket (d : Datagram) : Command Mesh Unit := do
  let nd ← gets (·.node i)
  if !nd.reachable then pure ()
  else if nd.sptps = .stopped then when (!nd.waitingforkey) (sendReqKey p i)
  else
    let _ ← sptpsReceiveData p i d
    pure ()

def receiveFrom (d : Datagram) : Command Mesh Unit := do
  let nd ← gets (·.node i)
  if nd.blacklisted then pure () else receiveUdppacket p i d

def handleIncomingVpnData (sa : Sockaddr) (limited : Bool) (d : Datagram) :
    Command Mesh Unit := do
  let m ← gets id
  match lookupNodeUdp p m sa with
  | some i => receiveFrom p i d
  | none =>
    match tryHarder m sa limited d with
    | none => pure ()
    | some i =>
      updateNodeUdp p i (some sa)
      receiveFrom p i d

end Packets

section Handlers

variable (p : Params) (i : NodeId) (r : ReqKey)

/-- A key is only learned from the network when none is known. -/
def learnKey (pubkey : Option (Option Bytes)) : Command Mesh Unit :=
  match pubkey with
  | some (some key) => do
    modifyNode i fun nd => {nd with ecdsa := some key, dirty := true}
    let _ ← nodeWriteConfig p i
    pure ()
  | _ => pure ()

/-- REQ_PUBKEY: learn the key of the sender and answer with ours, unless what was
sent as a key is not one. -/
def answerPubkey : Command Mesh Unit := do
  let known ← nodeReadPublicKey p i
  if !known && r.pubkey = some none then pure ()
  else
    when (!known) (learnKey p i r.pubkey)
    let m ← gets id
    sendVia i (.reqKey {keyRequest m i .ansPubkey with pubkey := some (m.node m.self).ecdsa})

def takePubkey : Command Mesh Unit := do
  let known ← nodeReadPublicKey p i
  when (!known) (learnKey p i r.pubkey)

/-- The other side also started a session within the last seconds, and the name
decides whose session counts. -/
def keepsOwnSession (m : Mesh) (i : NodeId) : Bool :=
  let nd := m.node i
  nd.sptps ≠ .stopped && (m.now < nd.lastReqKey + 2 && (m.node m.self).name < nd.name)

def acceptSession : Command Mesh Unit := do
  let known ← nodeReadPublicKey p i
  let m ← gets id
  if !known then sendVia i (.reqKey (keyRequest m i .reqPubkey))
  else if keepsOwnSession m i then pure ()
  else
    match r.data with
    | none => pure ()
    | some d =>
      startSession i
      sendAddresses i
      let _ ← sptpsReceiveData p i d
      pure ()

def takeSptps : Command Mesh Unit := do
  let nd ← gets (·.node i)
  if !nd.validkey then pure ()
  else
    match r.data with
    | none => pure ()
    | some d =>
      let _ ← sptpsReceiveData p i d
      pure ()

def placeText (place : String × String) : String := place.1 ++ " " ++ place.2

def reqKeyExtH (reqno : Reqno) : Command Mesh Unit := do
  let m ← gets id
  if (viaConnection m i).isNone then pure ()
  else
    match reqno with
    | .reqPubkey => answerPubkey p i r
    | .ansPubkey => takePubkey p i r
    | .reqKey => acceptSession p i r
    | .reqSptps => takeSptps p i r
    | .reqCanonical =>
      when r.place.isSome (modifyNode i fun nd => {nd with
        canonicalAddress := r.place.map placeText})
    | .reqExternal =>
      when r.place.isSome (modifyNode i fun nd => {nd with
        externalAddress := r.place.map placeText})
    | _ => pure ()

def reqKeyH (c : ConnId) (r : ReqKey) : Command Mesh Bool := do
  if !checkId r.fromName || !checkId r.toName then pure false
  else
    let m ← gets id
    match lookupNode m r.fromName, lookupNode m r.toName with
    | some i, some j =>
      if j = m.self then
        match r.reqno with
        | some reqno =>
          reqKeyExtH p i r reqno
          pure true
        | none => pure ((m.node i).connection ≠ some c)
      else
        when (m.node j).reachable (sendVia j (.reqKey r))
        pure true
    | _, _ => pure true

/-- Forward an answer, with the confirmed address of its sender if it has none. -/
def forwardAnswer (r : AnsKey) (i j : NodeId) : Command Mesh Bool := do
  let m ← gets id
  if !(m.node j).reachable then pure true
  else if i = j then pure true
  else
    match viaConnection m j with
    | none => pure false
    | some c =>
      if r.place.isNone && ((m.node i).udpConfirmed && (m.node i).address ≠ .unspec) then
        let _ ← sendMeta c (.ansKey {r with place := some (p.sockaddr2str (m.node i).address)})
        pure true
      else sendMeta c (.ansKey r)

/-- Pass our own address on to the nodes behind the connection it came from. -/
def shareOwnAddress (c : ConnId) (r : AnsKey) : Command Mesh Unit := do
  let m ← gets id
  when (r.key.isNone && r.place.isSome) (forEach m.nodes fun n => do
    let m ← gets id
    let nd := m.node n
    when (nd.nexthop = (m.conn c).node && (!nd.udpConfirmed &&
        ((nd.waitingforkey || nd.validkey) && (viaConnection m n).isSome))) (do
      let _ ← sendMeta c (.ansKey {r with
        fromName := (m.node m.self).name
        toName := nd.name
        compression := 0})
      pure ()))

def processAnswer : Option (Option Datagram) → Command Mesh Unit
  | none => pure ()
  | some none => modifyNode i fun nd => {nd with validkey := false}
  | some (some d) => do
    modifyNode i fun nd => {nd with validkey := false}
    let _ ← sptpsReceiveData p i d
    pure ()

def takeReflexive : Option (String × String) → Command Mesh Unit
  | none => pure ()
  | some place => updateNodeUdp p i (some (p.str2sockaddr place.1 place.2))

/-- Compression is not supported: the key is then not valid and nothing is read. -/
def takeAnswer (r : AnsKey) (i : NodeId) : Command Mesh Unit := do
  if r.key.isSome && r.compression ≠ 0 then modifyNode i fun nd => {nd with validkey := false}
  else
    processAnswer p i r.key
    let nd ← gets (·.node i)
    when nd.validkey (takeReflexive p i r.place)

def ansKeyH (c : ConnId) (r : AnsKey) : Command Mesh Bool := do
  if !checkId r.fromName || !checkId r.toName then pure false
  else
    let m ← gets id
    match lookupNode m r.fromName, lookupNode m r.toName with
    | some i, some j =>
      if j ≠ m.self then forwardAnswer p r i j
      else if i = m.self then
        shareOwnAddress c r
        pure true
      else
        takeAnswer p r i
        pure true
    | _, _ => pure true

end Handlers

end Meshlink.MetaKeys
