import Meshlink.KeyWalks
import Meshlink.MetaHandlers

/-!
What the records of nodes, edges and connections say about device classes and
addresses. Most code copies these fields or leaves them alone; a policy says which
values may be taken in, and the commands of the mesh keep to it as long as what
arrives from outside does, and what the search through the graph takes from edges for
nodes that are not reachable.
-/
namespace Meshlink.NodeRecords

open Commands MeshState MeshGraph MetaEdges MetaKeys MetaHandlers KeyWalks

variable (i : NodeId)

/-- Which device classes and addresses may be recorded. -/
structure Policy where
  dev : ℤ → Prop
  adr : Sockaddr → Prop
  valid : ∀ devclass, validDevclass devclass = true → dev devclass
  familiar : ∀ sa : Sockaddr, sa.familiar = true → adr sa

structure Clean (l : Policy) (nd : Node) : Prop where
  devclass : l.dev nd.devclass
  address : l.adr nd.address
  recent : ∀ sa ∈ nd.recent, l.adr sa

structure Records (l : Policy) (m : Mesh) : Prop where
  devclass : l.dev m.devclass
  nodes : ∀ i, Clean l (m.node i)
  conns : ∀ c, l.adr (m.conn c).address

/-- The history of a search keeps to the policy. -/
def Kept (l : Policy) (N : List (NodeId × Sockaddr)) : Prop := ∀ entry ∈ N, l.adr entry.2

/-- The history has grown from `N`, and the records keep to the policy when it does. -/
structure Recorded (N : List (NodeId × Sockaddr)) (l : Policy) (m : Mesh) : Prop where
  since : N ⊆ m.newcomers
  records : Kept l m.newcomers → Records l m

abbrev Obeys (E : Mesh → Prop) (N : List (NodeId × Sockaddr)) (l : Policy) {α : Type}
    (x : Command Mesh α) : Prop :=
  Keeping E (Recorded N l) x

section Updates

/-- The update of a record leaves what the policy is about as it is. -/
class PlainNode (f : Node → Node) : Prop where
  same : ∀ nd, (f nd).devclass = nd.devclass ∧ (f nd).address = nd.address ∧
    (f nd).recent = nd.recent

class PlainConn (f : Conn → Conn) : Prop where
  same : ∀ cn, (f cn).address = cn.address

class PlainMesh (f : Mesh → Mesh) : Prop where
  same : ∀ m, (f m).devclass = m.devclass ∧ (f m).node = m.node ∧ (f m).conn = m.conn ∧
    (f m).newcomers = m.newcomers

-- an update that mentions neither field is found plain by matching it against these records
instance {core : Node → NodeCore} {a b c d e f g h : Node → Bool} {sessionId : Node → ℕ}
    {sptps : Node → Session} {last r u dist : Node → ℤ} {key : Node → Option Bytes}
    {x y : Node → Option String} {hop : Node → Option NodeId} {prev : Node → Option EdgeId} :
    PlainNode fun nd => ⟨core nd, a nd, b nd, c nd, d nd, e nd, f nd, g nd, nd.devclass,
      sessionId nd, sptps nd, nd.address, h nd, last nd, key nd, x nd, y nd, nd.recent, r nd,
      u nd, dist nd, hop nd, prev nd⟩ :=
  ⟨fun _ => ⟨rfl, rfl, rfl⟩⟩

instance {core : Conn → ConnCore} {a b c d : Conn → Bool} {sptps : Conn → Session}
    {outgoing : Conn → Option NodeId} {submesh : Conn → Option String}
    {key : Conn → Option Bytes} {major minor : Conn → ℤ} {flags : Conn → ℕ} :
    PlainConn fun cn => ⟨core cn, a cn, b cn, c cn, d cn, cn.address, sptps cn, outgoing cn,
      submesh cn, key cn, major cn, minor cn, flags cn⟩ :=
  ⟨fun _ => rfl⟩

instance {name port : Mesh → String} {self nextNode nextEdge nextConn : Mesh → ℕ}
    {nodes edges conns : Mesh → List ℕ} {edge : Mesh → EdgeId → Edge} {subs : Mesh → List String}
    {cache : Mesh → ℕ → Option (Sockaddr × NodeId)} {past : Mesh → List (Request × ℕ)}
    {now timeout file ops draws : Mesh → ℕ} {added deleted : Mesh → ℤ}
    {black started first recv acc dup held : Mesh → Bool} {key : Mesh → Option Bytes}
    {inv : Mesh → List Invitation} {log : Mesh → List Effect} :
    PlainMesh fun m => ⟨name m, self m, nodes m, m.node, nextNode m, edges m, edge m, nextEdge m,
      conns m, m.conn, nextConn m, subs m, cache m, m.newcomers, past m, now m, added m, deleted m,
      black m, started m, m.devclass, port m, first m, key m, timeout m, inv m, file m, recv m,
      acc m, dup m, held m, ops m, draws m, log m⟩ :=
  ⟨fun _ => ⟨rfl, rfl, rfl, rfl⟩⟩

instance : PlainMesh fun m => m := ⟨fun _ => ⟨rfl, rfl, rfl, rfl⟩⟩

instance {q : Mesh → Prop} [DecidablePred q] {f g : Mesh → Mesh} [hf : PlainMesh f]
    [hg : PlainMesh g] : PlainMesh fun m => if q m then f m else g m where
  same m := by
    split
    · exact hf.same m
    · exact hg.same m

end Updates

variable {E : Mesh → Prop} {N : List (NodeId × Sockaddr)} {l : Policy}

/-- Together with what is read from a state, its records are known to keep to the policy
as far as the history does up to then. -/
theorem Recorded.gets_bind {α : Type} {f : Mesh → Command Mesh α}
    (h : ∀ m, (Kept l m.newcomers → Records l m) → Obeys E m.newcomers l (f m)) :
    Obeys E N l (gets id >>= f) where
  keeps m hm := (h m hm.records).keeps.mono (fun _ h => h)
    (fun _ _ h => ⟨fun _ he => h.since (hm.since he), h.records⟩) m ⟨fun _ he => he, hm.records⟩

section Operations

theorem clean_same {nd nd' : Node} (h : Clean l nd)
    (hsame : nd'.devclass = nd.devclass ∧ nd'.address = nd.address ∧ nd'.recent = nd.recent) :
    Clean l nd' := by
  obtain ⟨hdevclass, haddress, hrecent⟩ := hsame
  exact ⟨hdevclass ▸ h.devclass, haddress ▸ h.address, hrecent ▸ h.recent⟩

instance (f : Mesh → Mesh) [hf : PlainMesh f] : Obeys E N l (update f) where
  keeps := by
    apply Triple.update
    intro m h
    obtain ⟨hdevclass, hnode, hconn, hnew⟩ := hf.same m
    refine ⟨hnew ▸ h.since, fun hkept => ?_⟩
    have hm := h.records (hnew ▸ hkept)
    exact ⟨hdevclass ▸ hm.devclass, hnode ▸ hm.nodes, hconn ▸ hm.conns⟩

/-- What is taken into a record keeps to the policy if the history does. -/
theorem Recorded.change {m m' : Mesh} (h : Recorded N l m)
    (hnew : m'.newcomers = m.newcomers)
    (hrecords : Kept l N → Records l m → Records l m') : Recorded N l m' := by
  refine ⟨hnew ▸ h.since, fun hkept => ?_⟩
  rw [hnew] at hkept
  exact hrecords (fun entry he => hkept entry (h.since he)) (h.records hkept)

theorem keeping_modifyNode {i : NodeId} {f : Node → Node}
    (hf : Kept l N → ∀ nd, Clean l nd → Clean l (f nd)) :
    Obeys E N l (modifyNode i f) where
  keeps := by
    apply Triple.update
    refine fun m h => h.change rfl fun hkept hm => ⟨hm.devclass, ?_, hm.conns⟩
    exact (Function.forall_update_iff m.node fun _ => Clean l).mpr
      ⟨hf hkept _ (hm.nodes i), fun j _ => hm.nodes j⟩

instance (f : Node → Node) [hf : PlainNode f] : Obeys E N l (modifyNode i f) :=
  keeping_modifyNode fun _ nd hnd => clean_same hnd (hf.same nd)

variable (p : Params) (k : EdgeId)

instance (f : Edge → Edge) : Obeys E N l (modifyEdge k f) := by
  unfold modifyEdge
  infer_instance

instance (c : ConnId) (f : Conn → Conn) [hf : PlainConn f] : Obeys E N l (modifyConn c f) where
  keeps := by
    apply Triple.update
    refine fun m h => h.change rfl fun _ hm => ⟨hm.devclass, hm.nodes, ?_⟩
    exact (Function.forall_update_iff m.conn fun _ cn => l.adr cn.address).mpr
      ⟨(hf.same _).symm ▸ hm.conns c, fun j _ => hm.conns j⟩

instance (op : Op) : Obeys E N l (attempt p op) where
  keeps := fun _ h => h.change rfl fun _ hm => ⟨hm.devclass, hm.nodes, hm.conns⟩

instance : Obeys E N l (prng p) where
  keeps := fun _ h => h.change rfl fun _ hm => ⟨hm.devclass, hm.nodes, hm.conns⟩

instance (effect : Effect) : Obeys E N l (record effect) := by
  unfold record
  infer_instance

theorem keeping_nodeAdd {nd : Node} (hnd : Kept l N → Clean l nd) :
    Obeys E N l (nodeAdd nd) where
  keeps := by
    refine fun m h => h.change rfl fun hkept hm => ⟨hm.devclass, ?_, hm.conns⟩
    exact (Function.forall_update_iff m.node fun _ => Clean l).mpr
      ⟨hnd hkept, fun j _ => hm.nodes j⟩

theorem keeping_connectionAdd {cn : Conn} (hcn : Kept l N → l.adr cn.address) :
    Obeys E N l (connectionAdd cn) where
  keeps := by
    refine fun m h => h.change rfl fun hkept hm => ⟨hm.devclass, hm.nodes, ?_⟩
    exact (Function.forall_update_iff m.conn fun _ cn => l.adr cn.address).mpr
      ⟨hcn hkept, fun j _ => hm.conns j⟩

instance (c : ConnId) : Obeys E N l (connectionDel c) := by
  unfold connectionDel
  infer_instance

theorem clean_newNode (name : String) : Clean l (newNode name) :=
  ⟨l.valid devClassUnknown (by decide), l.familiar _ rfl, fun _ h => absurd h List.not_mem_nil⟩

theorem mem_addRecent {recent : List Sockaddr} {sa sa' : Sockaddr}
    (h : sa' ∈ addRecent recent sa) : sa' = sa ∨ sa' ∈ recent := by
  rcases List.mem_cons.mp h with heq | hmem
  · exact Or.inl heq
  right
  rcases List.mem_append.mp hmem with htaken | hdropped
  · exact List.mem_of_mem_take htaken
  · exact List.mem_of_mem_drop hdropped

theorem keeping_nodeAddRecentAddress {i : NodeId} {sa : Sockaddr} (hsa : Kept l N → l.adr sa) :
    Obeys E N l (nodeAddRecentAddress i sa) := by
  apply keeping_modifyNode
  intro hkept nd hnd
  split
  · exact hnd
  refine ⟨hnd.devclass, hnd.address, fun sa' hmem => ?_⟩
  rcases mem_addRecent hmem with rfl | hold
  · exact hsa hkept
  · exact hnd.recent sa' hold

instance (sa : Sockaddr) (value : Option NodeId) : Obeys E N l (cacheAddress p sa value) := by
  unfold cacheAddress
  infer_instance

theorem keeping_updateNodeUdp (p : Params) (i : NodeId) {sa : Option Sockaddr}
    (hsa : Kept l N → ∀ s, sa = some s → l.adr s) : Obeys E N l (updateNodeUdp p i sa) := by
  unfold updateNodeUdp
  cases sa with
  | none => infer_instance
  | some sa =>
    have haddress : Obeys E N l (modifyNode i fun nd => {nd with address := sa}) :=
      keeping_modifyNode fun hkept nd hnd => ⟨hnd.devclass, hsa hkept sa rfl, hnd.recent⟩
    have hrecent : Obeys E N l (nodeAddRecentAddress i sa) :=
      keeping_nodeAddRecentAddress fun hkept => hsa hkept sa rfl
    infer_instance

instance (reverse : Option EdgeId) : Obeys E N l (linkReverse k reverse) := by
  unfold linkReverse
  split <;> infer_instance

instance (e : Edge) : Obeys E N l (edgeAdd e) := by
  unfold edgeAdd
  infer_instance

instance (reverse : Option EdgeId) : Obeys E N l (unlinkReverse reverse) := by
  unfold unlinkReverse
  split <;> infer_instance

instance : Obeys E N l (edgeDel k) := by
  unfold edgeDel
  infer_instance

instance (name : String) : Obeys E N l (lookupOrCreateSubmesh name) := by
  unfold lookupOrCreateSubmesh
  infer_instance

end Operations

section Graph

variable (p : Params) (i : NodeId)

/-- An address for a node that is not reachable goes into the history. -/
theorem keeping_takeAddress (reachable : Bool) {sa : Sockaddr} (hsa : reachable = true → l.adr sa) :
    Obeys E N l (takeAddress p i reachable sa) := by
  unfold takeAddress
  cases reachable with
  | true =>
    have hudp : Obeys E N l (updateNodeUdp p i (some sa)) :=
      keeping_updateNodeUdp p i fun _ s hs => Option.some.inj hs ▸ hsa rfl
    exact ⟨hudp.keeps⟩
  | false =>
    have hudp : Obeys E (N ++ [(i, sa)]) l (updateNodeUdp p i (some sa)) :=
      keeping_updateNodeUdp p i fun hkept s hs => Option.some.inj hs ▸ hkept (i, sa) (by simp)
    refine ⟨fun m hm => ?_⟩
    have hnoted : Recorded (N ++ [(i, sa)]) l
        {m with newcomers := m.newcomers ++ [(i, sa)]} := by
      refine ⟨List.append_subset.mpr ⟨fun _ he => List.mem_append_left _ (hm.since he),
        List.subset_append_right _ _⟩, fun hkept => ?_⟩
      have hold := hm.records fun entry he => hkept entry (List.mem_append_left _ he)
      exact ⟨hold.devclass, hold.nodes, hold.conns⟩
    exact hudp.keeps.mono (fun _ h => h)
      (fun _ _ h => ⟨fun _ he => h.since (List.mem_append_left _ he), h.records⟩) _ hnoted

instance (k : EdgeId) : Obeys E N l (visitEdge p i k) := by
  unfold visitEdge
  refine Keeping.gets_bind fun m _ => ?_
  -- without a family it is only taken for a node that is not reachable
  dsimp only [id_eq]
  have htake : Obeys E N l (when (wantsAddress (m.node (m.edge k).target) (m.edge k).address)
      (takeAddress p (m.edge k).target (m.node (m.edge k).target).reachable
        (m.edge k).address)) := by
    cases hwants : wantsAddress (m.node (m.edge k).target) (m.edge k).address with
    | false => exact Keeping.pure ()
    | true =>
      refine keeping_takeAddress p _ _ fun hreachable => l.familiar _ ?_
      simp only [wantsAddress, hreachable, Bool.not_true, Bool.false_or, Bool.and_eq_true] at hwants
      exact hwants.2
  infer_instance

instance : Obeys E N l (ssspBfs p) := by
  unfold ssspBfs
  infer_instance

instance : Obeys E N l (updateNodeStatus i) := by
  unfold updateNodeStatus
  infer_instance

instance (name : String) : Obeys E N l (writeHostFile p name) := by
  unfold writeHostFile
  infer_instance

instance : Obeys E N l (nodeWriteConfig p i) := by
  unfold nodeWriteConfig
  infer_instance

instance : Obeys E N l (noteReachability p i) := by
  unfold noteReachability
  infer_instance

instance : Obeys E N l (updateNodeUdp p i none) :=
  keeping_updateNodeUdp p i fun _ _ h => nomatch h

instance : Obeys E N l (changeReachability p i) := by
  unfold changeReachability
  infer_instance

instance : Obeys E N l (checkSession i) := by
  unfold checkSession
  refine Keeping.gets_bind fun m _ => ?_
  split <;> infer_instance

instance : Obeys E N l (checkNode p i) := by
  unfold checkNode
  infer_instance

instance : Obeys E N l (MeshGraph.graph p) := by
  unfold MeshGraph.graph checkReachability
  infer_instance

end Graph

section Edges

variable (p : Params) (c : ConnId) (r : Request) (t : Target) (i : NodeId) (s : Option String)

instance : Obeys E N l (sendMeta c r) := by
  unfold sendMeta
  infer_instance

instance (origin : Option ConnId) : Obeys E N l (broadcastMeta origin s r) := by
  unfold broadcastMeta
  infer_instance

instance : Obeys E N l (sendRequest t s r) := by
  cases t with
  | everyone => exact Keeping.bind
  | conn c => exact inferInstanceAs (Keeping _ _ (sendMeta c r))

instance (origin : ConnId) : Obeys E N l (forwardRequest origin s r) := by
  unfold forwardRequest
  infer_instance

instance (e : Edge) (n : ℤ) : Obeys E N l (sendAddEdge p t e n) := by
  unfold sendAddEdge
  infer_instance

instance (e : Edge) (n : ℤ) : Obeys E N l (sendDelEdge p t e n) := by
  unfold sendDelEdge
  infer_instance

instance : Obeys E N l (seenRequest r) := by
  unfold seenRequest
  infer_instance

instance : Obeys E N l (cleanUpEdge p i) := by
  unfold cleanUpEdge
  refine Keeping.gets_bind fun m _ => ?_
  split
  · infer_instance
  · split <;> infer_instance

instance : Obeys E N l (detachNode c) := by
  unfold detachNode
  refine Keeping.gets_bind fun m _ => ?_
  split <;> infer_instance

instance (i : Option NodeId) : Obeys E N l (cleanUpPeer p i) := by
  cases i with
  | none => exact Keeping.pure ()
  | some i => exact inferInstanceAs (Keeping _ _ (cleanUpEdge p i))

instance (i : Option NodeId) : Obeys E N l (doOutgoingConnection p i) := by
  unfold doOutgoingConnection
  split
  · infer_instance
  rename_i i
  refine Recorded.gets_bind (f := fun m => do
    let connected ← attempt p (.connect i)
    when connected (do
      let _ ← connectionAdd (newConnection (m.node i).name (m.node i).address (some i))
      pure ())) fun m hm => ?_
  have hadd : Obeys E m.newcomers l
      (connectionAdd (newConnection (m.node i).name (m.node i).address (some i))) :=
    keeping_connectionAdd fun hkept => ((hm hkept).nodes i).address
  infer_instance

instance : Obeys E N l (handleDuplicateNode i) := by
  unfold handleDuplicateNode
  infer_instance

instance (report : Bool) : Obeys E N l (dropEdge p c report) := by
  unfold dropEdge
  refine Keeping.gets_bind fun m _ => ?_
  split <;> infer_instance

instance (report : Bool) : Obeys E N l (terminateConnection p c report) := by
  unfold terminateConnection
  infer_instance

instance (r : AddEdge) (j : NodeId) : Obeys E N l (insertEdge p c r i j) := by
  unfold insertEdge
  infer_instance

instance (r : AddEdge) (j : NodeId) : Obeys E N l (updateEdge p c r i j) := by
  unfold updateEdge
  refine Keeping.gets_bind fun m _ => ?_
  split <;> infer_instance

instance (r : DelEdge) (j : NodeId) (k : EdgeId) : Obeys E N l (removeEdge p c r j k) := by
  unfold removeEdge
  infer_instance

instance (r : DelEdge) (j : NodeId) : Obeys E N l (delEdgeBetween p c r i j) := by
  unfold delEdgeBetween
  refine Keeping.of_bind fun _ => Keeping.gets_bind fun m _ => ?_
  split <;> infer_instance

instance (r : DelEdge) : Obeys E N l (delEdgeH p c r) := by
  unfold delEdgeH
  refine Keeping.of_bind fun seen => Keeping.of_ite (fun _ => Keeping.pure true) fun _ => ?_
  refine Keeping.gets_bind fun m _ => ?_
  split <;> infer_instance

theorem keeping_addLearned (name : String) {devclass : ℤ} (submesh : Option String)
    (hdev : l.dev devclass) : Obeys E N l (addLearned name devclass submesh) := by
  have hclean : Clean l (newNode name) := clean_newNode name
  unfold addLearned
  have hadd : ∀ blacklisted, Obeys E N l (nodeAdd {newNode name with
      dirty := true
      blacklisted := blacklisted
      devclass := devclass
      submesh := submesh}) :=
    fun _ => keeping_nodeAdd fun _ => ⟨hdev, hclean.address, hclean.recent⟩
  infer_instance

theorem keeping_knownOrLearned (known : Option NodeId) (name : String) {devclass : ℤ}
    (submeshName : String) (hdev : l.dev devclass) :
    Obeys E N l (knownOrLearned known name devclass submeshName) := by
  have hlearned : ∀ submesh, Obeys E N l (addLearned name devclass submesh) :=
    fun submesh => keeping_addLearned name submesh hdev
  unfold knownOrLearned
  split
  · infer_instance
  unfold learnNode
  refine Keeping.of_ite (fun _ => inferInstance) fun _ => Keeping.of_bind fun submesh => ?_
  split <;> infer_instance

variable (c : ConnId) {r : AddEdge}

theorem keeping_addEdgeBetween (known knownTo : Option NodeId)
    (hfrom : l.dev r.fromDevclass) (hto : l.dev r.toDevclass) :
    Obeys E N l (addEdgeBetween p c r known knownTo) := by
  have hfirst : Obeys E N l
      (knownOrLearned known r.fromName r.fromDevclass r.fromSubmesh) :=
    keeping_knownOrLearned known _ _ hfrom
  have hsecond : Obeys E N l
      (knownOrLearned knownTo r.toName r.toDevclass r.toSubmesh) :=
    keeping_knownOrLearned knownTo _ _ hto
  have htake : ∀ i, Obeys E N l (modifyNode i fun nd => {nd with
      devclass := r.fromDevclass
      sessionId := if nd.sessionId = 0 then r.sessionId else nd.sessionId}) :=
    fun i => keeping_modifyNode fun _ nd hnd => ⟨hfrom, hnd.address, hnd.recent⟩
  have htakeTo : ∀ j, Obeys E N l
      (modifyNode j fun nd => {nd with devclass := r.toDevclass}) :=
    fun j => keeping_modifyNode fun _ nd hnd => ⟨hto, hnd.address, hnd.recent⟩
  unfold addEdgeBetween
  refine Keeping.of_bind fun first => ?_
  cases first with
  | none => infer_instance
  | some i =>
    refine Keeping.of_bind fun _ => Keeping.of_bind fun _ => Keeping.of_bind fun second => ?_
    cases second with
    | none => exact Keeping.pure false
    | some j => exact Keeping.bind

instance (r : AddEdge) : Obeys E N l (addEdgeH p c r) := by
  unfold addEdgeH
  refine Keeping.of_ite (fun _ => Keeping.pure false) fun hfrom => ?_
  refine Keeping.of_ite (fun _ => Keeping.pure false) fun hto => ?_
  have hbetween : ∀ known knownTo,
      Obeys E N l (addEdgeBetween p c r known knownTo) := fun known knownTo =>
    keeping_addEdgeBetween p c known knownTo (l.valid _ (by simpa using hfrom))
      (l.valid _ (by simpa using hto))
  infer_instance

end Edges

section Keys

variable (p : Params)

/-- The addresses of a host file are of families that the policy allows. -/
theorem clean_readStored (host : StoredHost) {nd : Node}
    (hnd : Clean l nd) : Clean l (readStored host nd) := by
  refine ⟨hnd.devclass, hnd.address, fun sa hsa => ?_⟩
  rcases List.mem_append.mp hsa with hsa | hsa
  · rcases List.mem_append.mp hsa with hsa | hsa
    · exact hnd.recent sa (List.mem_of_mem_take hsa)
    · exact l.familiar _ (host.familiar sa (List.mem_of_mem_take hsa))
  · exact hnd.recent sa (List.mem_of_mem_drop hsa)

instance : KeyKept E (Recorded N l) where
  modify _ _ hf := keeping_modifyNode fun _ nd hnd => clean_same hnd (hf.same nd)
  stored _ host := keeping_modifyNode fun _ _ hnd => clean_readStored host hnd
  count := inferInstance
  send _ _ _ := inferInstance

instance (payload : Bytes) : Obeys E N l (deliver i payload) := by
  unfold deliver
  infer_instance

instance (packet : Packet) : Obeys E N l (route p i packet) := by
  unfold route
  split
  · infer_instance
  · refine Keeping.gets_bind fun m _ => ?_
    split <;> infer_instance

instance (packet : Packet) : Obeys E N l (receivePacket p i packet) := by
  unfold receivePacket
  infer_instance

theorem keeping_handleIncomingVpnData {sa : Sockaddr} (limited : Bool) (d : Datagram)
    (hsa : l.adr sa) : Obeys E N l (handleIncomingVpnData p sa limited d) := by
  have hudp : ∀ i, Obeys E N l (updateNodeUdp p i (some sa)) :=
    fun i => keeping_updateNodeUdp p i fun _ s hs => Option.some.inj hs ▸ hsa
  infer_instance

instance (pubkey : Option (Option Bytes)) : Obeys E N l (learnKey p i pubkey) := by
  unfold learnKey
  split <;> infer_instance

instance (c : ConnId) (r : ReqKey) : Obeys E N l (reqKeyH p c r) := by
  unfold reqKeyH
  refine Keeping.of_ite (fun _ => Keeping.pure false) fun _ => Keeping.gets_bind fun m _ => ?_
  split
  · refine Keeping.of_ite (fun _ => ?_) fun _ => inferInstance
    split <;> infer_instance
  · infer_instance

theorem keeping_ansKeyH (c : ConnId) {r : AnsKey}
    (hr : ∀ place, r.place = some place → l.adr (p.str2sockaddr place.1 place.2)) :
    Obeys E N l (ansKeyH p c r) := by
  have htake : ∀ i, Obeys E N l (takeReflexive p i r.place) := by
    intro i
    unfold takeReflexive
    split
    · infer_instance
    · rename_i place hplace
      exact keeping_updateNodeUdp p i fun _ sa hsa => Option.some.inj hsa ▸ hr place hplace
  infer_instance

end Keys

section Handlers

variable (p : Params) (c : ConnId) (name : String)

instance : Obeys E N l (flushMeta p c) := by
  unfold flushMeta
  infer_instance

instance (err : ℤ) : Obeys E N l (sendError p c err) := by
  unfold sendError
  infer_instance

instance : Obeys E N l (startInvitation p c name) := by
  unfold startInvitation
  refine Keeping.gets_bind fun m _ => ?_
  split <;> infer_instance

instance : Obeys E N l (startPeer p c) := by
  unfold startPeer
  refine Keeping.gets_bind fun m _ => ?_
  split <;> infer_instance

instance (major minor : ℤ) (flags : ℕ) : Obeys E N l (idH p c name major minor flags) := by
  unfold idH
  infer_instance

instance : Obeys E N l (sendAck p c) := by
  unfold sendAck
  infer_instance

instance (other : ConnId) : Obeys E N l (takeOutgoing c other) := by
  unfold takeOutgoing
  infer_instance

instance (edge : Option EdgeId) : Obeys E N l (edgeDelOf edge) := by
  unfold edgeDelOf
  split <;> infer_instance

instance : Obeys E N l (replaceConnection p c i) := by
  unfold replaceConnection
  refine Keeping.gets_bind fun m _ => ?_
  split <;> infer_instance

instance : Obeys E N l (terminatePending p c) := by
  unfold terminatePending
  infer_instance

instance : Obeys E N l (sendEverything p c) := by
  unfold sendEverything
  infer_instance

instance : Obeys E N l (nodeAdd (newNode name)) := keeping_nodeAdd fun _ => clean_newNode name

instance : Obeys E N l (peerNode p c) := by
  unfold peerNode
  refine Keeping.gets_bind fun m _ => ?_
  split <;> infer_instance

instance (port : String) (devclass : ℤ) : Obeys E N l (addOwnEdge p c i port devclass) := by
  unfold addOwnEdge
  refine Recorded.gets_bind fun m hm => ?_
  have hrecent : Obeys E m.newcomers l (nodeAddRecentAddress i (m.conn c).address) :=
    keeping_nodeAddRecentAddress fun hkept => (hm hkept).conns c
  infer_instance

instance (port : String) (devclass : ℤ) : Obeys E N l (ackH p c port devclass) := by
  unfold ackH
  refine Keeping.of_ite (fun _ => Keeping.pure false) fun hvalid => ?_
  have hdev : l.dev devclass := l.valid devclass (by simpa using hvalid)
  have hattach : ∀ i, Obeys E N l (attach c i devclass) := by
    intro i
    unfold attach
    refine Keeping.gets_bind fun m _ => ?_
    have htake : Obeys E N l (modifyNode i fun nd => {nd with
        devclass := devclass
        dirty := true
        tiny := isTiny (m.conn c)
        connection := some c
        nexthop := some i}) :=
      keeping_modifyNode fun _ nd hnd => ⟨hdev, hnd.address, hnd.recent⟩
    infer_instance
  refine Keeping.of_bind fun i => Keeping.of_bind fun _ => Keeping.of_bind fun _ => ?_
  infer_instance

instance (r : Request) : Obeys E N l (keyChangedH c r name) := by
  unfold keyChangedH
  refine Keeping.of_bind fun seen => Keeping.of_ite (fun _ => Keeping.pure true) fun _ => ?_
  refine Keeping.gets_bind fun m _ => ?_
  split <;> infer_instance

/-- The reflexive address that a request tells of. -/
def reflexive : Request → Option (String × String)
  | .ansKey r => r.place
  | _ => none

theorem keeping_receiveRequest (c : ConnId) {r : Request}
    (hr : ∀ place, reflexive r = some place → l.adr (p.str2sockaddr place.1 place.2)) :
    Obeys E N l (receiveRequest p c r) := by
  have hhandle : Obeys E N l (handleRequest p c r) := by
    unfold handleRequest
    cases r with
    | ansKey r => exact keeping_ansKeyH p c hr
    | _ => infer_instance
  unfold receiveRequest
  refine Keeping.gets_bind fun m _ => ?_
  split <;> infer_instance

theorem keeping_receiveMetaSptps (c : ConnId) {r : Request}
    (hr : ∀ place, reflexive r = some place → l.adr (p.str2sockaddr place.1 place.2)) :
    Obeys E N l (receiveMetaSptps p c r) := by
  have hreceive : Obeys E N l (receiveRequest p c r) := keeping_receiveRequest p c hr
  unfold receiveMetaSptps
  infer_instance

instance : Obeys E N l (receiveHandshake p c) := by
  unfold receiveHandshake handshakeDone
  infer_instance

end Handlers

section Returning

def anyPolicy : Policy := ⟨fun _ => True, fun _ => True, fun _ _ => trivial, fun _ _ => trivial⟩

theorem recorded_any (m : Mesh) : Recorded [] anyPolicy m :=
  ⟨List.nil_subset _, fun _ => ⟨trivial, fun _ => ⟨trivial, trivial, fun _ _ => trivial⟩,
    fun _ => trivial⟩⟩

/-- The process is never stopped by these commands; only reading host files can do that. -/
instance {α : Type} {x : Command Mesh α} [h : Obeys (fun _ => False) [] anyPolicy x] : Returns x :=
  ⟨fun m _ => h.keeps.mono (fun _ h => h) (fun _ _ _ => trivial) m (recorded_any m)⟩

instance (p : Params) (reachable : Bool) (sa : Sockaddr) :
    Obeys E N anyPolicy (takeAddress p i reachable sa) :=
  keeping_takeAddress p i reachable fun _ => trivial

instance (f : Node → Node) : Returns (modifyNode i f) := Returns.update _

end Returning

end Meshlink.NodeRecords
