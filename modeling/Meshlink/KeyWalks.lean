import Meshlink.MeshView
import Meshlink.MetaKeys

/-!
What the handlers of keys and packets keep. They send requests that are not about
edges and note keys and sessions; delivering a packet, taking over an address and
writing a host file are left to those who know what these keep.
-/
namespace Meshlink.KeyWalks

open Commands MeshState MetaEdges MetaKeys MeshView

/-- A request that is not about an edge. -/
class Plain (r : Request) : Prop where
  plain : endpoints r = none

instance (r : ReqKey) : Plain (.reqKey r) := ⟨rfl⟩

instance (r : AnsKey) : Plain (.ansKey r) := ⟨rfl⟩

instance : Plain .packet := ⟨rfl⟩

instance (text : Bytes) : Plain (.bogus text) := ⟨rfl⟩

/-- The update of a node is about its key, its session or the names of its hosts. -/
class KeyUpdate (f : Node → Node) : Prop where
  core : ∀ nd, (f nd).toNodeCore = nd.toNodeCore
  same : ∀ nd, (f nd).devclass = nd.devclass ∧ (f nd).address = nd.address ∧
    (f nd).recent = nd.recent

-- such an update is found by matching it against this record
instance {a b v c d e f g : Node → Bool} {last : Node → ℤ} {sessionId : Node → ℕ}
    {sptps : Node → Session} {key : Node → Option Bytes} {x y : Node → Option String} :
    KeyUpdate fun nd => ⟨nd.toNodeCore, a nd, b nd, v nd, c nd, d nd, e nd, f nd, nd.devclass,
      sessionId nd, sptps nd, nd.address, g nd, last nd, key nd, x nd, y nd, nd.recent,
      nd.lastReachable, nd.lastUnreachable, nd.distance, nd.nexthop, nd.prevedge⟩ :=
  ⟨fun _ => rfl, fun _ => ⟨rfl, rfl, rfl⟩⟩

/-- Kept by what these handlers do themselves. -/
class KeyKept (E I : Mesh → Prop) : Prop where
  modify : ∀ i (f : Node → Node) [KeyUpdate f], Keeping E I (modifyNode i f)
  stored : ∀ i host, Keeping E I (modifyNode i (readStored host))
  count : Keeping E I (update fun m => {m with ops := m.ops + 1})
  send : ∀ c (r : Request) [Plain r], Keeping E I (sendMeta c r)

attribute [instance] KeyKept.modify KeyKept.stored KeyKept.count KeyKept.send

variable {E I : Mesh → Prop} [KeyKept E I] (p : Params) (i : NodeId)

section Requests

instance : Keeping E I (nodeReadPublicKey p i) := by
  unfold nodeReadPublicKey
  refine Keeping.of_bind fun m => Keeping.of_ite (fun _ => Keeping.pure true) fun _ => ?_
  refine Keeping.of_bind fun _ => ?_
  split <;> infer_instance

instance (r : Request) [Plain r] : Keeping E I (sendVia i r) := by
  unfold sendVia
  refine Keeping.of_bind fun m => ?_
  split <;> infer_instance

instance : Keeping E I (sendAddresses i) := by
  unfold sendAddresses
  infer_instance

instance : Keeping E I (startSession i) := by
  unfold startSession
  infer_instance

instance : Keeping E I (sendReqKey p i) := by
  unfold sendReqKey
  infer_instance

instance (packet : Packet) : Keeping E I (sendPacket p i packet) := by
  unfold sendPacket
  refine Keeping.of_bind fun m => Keeping.of_ite (fun _ => Keeping.pure ()) fun _ => ?_
  split <;> infer_instance

end Requests

section Handlers

variable [∀ i packet, Keeping E I (receivePacket p i packet)]

instance (content : Content) : Keeping E I (receiveSptpsRecord p i content) := by
  unfold receiveSptpsRecord mtuProbeH
  split <;> infer_instance

instance (d : Datagram) : Keeping E I (sptpsReceiveData p i d) := by
  unfold sptpsReceiveData
  infer_instance

instance (d : Datagram) : Keeping E I (receiveFrom p i d) := by
  unfold receiveFrom receiveUdppacket
  infer_instance

instance {sa : Sockaddr} (limited : Bool) (d : Datagram)
    [∀ i, Keeping E I (updateNodeUdp p i (some sa))] :
    Keeping E I (handleIncomingVpnData p sa limited d) := by
  unfold handleIncomingVpnData
  refine Keeping.of_bind fun m => ?_
  split
  · infer_instance
  · split <;> infer_instance

instance (r : ReqKey) : Keeping E I (acceptSession p i r) := by
  unfold acceptSession
  refine Keeping.of_bind fun known => Keeping.of_bind fun m => ?_
  refine Keeping.of_ite (fun _ => inferInstance) fun _ => ?_
  refine Keeping.of_ite (fun _ => Keeping.pure ()) fun _ => ?_
  split <;> infer_instance

instance (r : ReqKey) : Keeping E I (takeSptps p i r) := by
  unfold takeSptps
  refine Keeping.of_bind fun m => Keeping.of_ite (fun _ => Keeping.pure ()) fun _ => ?_
  split <;> infer_instance

instance (r : ReqKey) (reqno : Reqno) [∀ pubkey, Keeping E I (learnKey p i pubkey)] :
    Keeping E I (reqKeyExtH p i r reqno) := by
  unfold reqKeyExtH answerPubkey takePubkey
  refine Keeping.of_bind fun m => Keeping.of_ite (fun _ => Keeping.pure ()) fun _ => ?_
  cases reqno <;> infer_instance

omit [∀ i packet, Keeping E I (receivePacket p i packet)] in
theorem keeping_forwardAnswer (r : AnsKey) (j : NodeId) : Keeping E I (forwardAnswer p r i j) := by
  unfold forwardAnswer
  refine Keeping.of_bind fun m => Keeping.of_ite (fun _ => Keeping.pure true) fun _ => ?_
  refine Keeping.of_ite (fun _ => Keeping.pure true) fun _ => ?_
  split <;> infer_instance

instance (key : Option (Option Datagram)) : Keeping E I (processAnswer p i key) := by
  unfold processAnswer
  split <;> infer_instance

instance (c : ConnId) (r : AnsKey) [∀ i, Keeping E I (takeReflexive p i r.place)] :
    Keeping E I (ansKeyH p c r) := by
  have hforward : ∀ i j, Keeping E I (forwardAnswer p r i j) :=
    fun i j => keeping_forwardAnswer p i r j
  unfold ansKeyH takeAnswer shareOwnAddress
  refine Keeping.of_ite (fun _ => Keeping.pure false) fun _ => Keeping.of_bind fun m => ?_
  split <;> infer_instance

end Handlers

end Meshlink.KeyWalks
