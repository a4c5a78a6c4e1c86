import Meshlink.MeshEvents
import Meshlink.NodeRecords

/-!
Host files, invitations and calls under a policy for device classes and addresses,
and the runs of a mesh. A host file brings in a device class that nobody looks at;
the addresses in it are IPv4 or IPv6, or the file is refused.
-/
namespace Meshlink.RecordRuns

open Commands MeshState MetaHandlers MeshCalls HostFiles MeshEvents
open NodeRecords Systems
open Packmsg hiding Bytes

variable {E : Mesh → Prop} {N : List (NodeId × Sockaddr)} {l : Policy}

section Calls

variable (p : Params) (i : NodeId) (name : String) (c : ConnId)

instance : Obeys E N l (invitationPurgeNode p name) := by
  unfold invitationPurgeNode
  infer_instance

instance : Obeys E N l (reportGone i) := by
  unfold reportGone
  infer_instance

instance : Obeys E N l (storeNode p i) := by
  unfold storeNode
  infer_instance

instance : Obeys E N l (reportBack i) := by
  unfold reportBack
  infer_instance

instance : Obeys E N l (whitelist p i) := by
  unfold whitelist
  infer_instance

instance : Obeys E N l (nodeDel i) := by
  unfold nodeDel
  infer_instance

instance (channels : Bool) : Obeys E N l (meshlinkForgetNode p i channels) := by
  unfold meshlinkForgetNode
  infer_instance

instance (inv : Invitation) : Obeys E N l (readUsed p inv) := by
  unfold readUsed
  infer_instance

instance (cookie : String) : Obeys E N l (invitationRead p cookie) := by
  unfold invitationRead
  refine Keeping.of_bind fun renamed => Keeping.gets_bind fun m _ => ?_
  split <;> infer_instance

instance : Obeys E N l (storeInvitee p name) := by
  unfold storeInvitee
  infer_instance

instance : Obeys E N l (invitationSubmesh name) := by
  unfold invitationSubmesh
  infer_instance

instance (cookie : String) (submesh : Option String) :
    Obeys E N l (meshlinkInvite cookie name submesh) := by
  unfold meshlinkInvite
  infer_instance

instance : Obeys E N l (shutPeer p i c) := by
  unfold shutPeer
  infer_instance

instance : Obeys E N l (blacklist p i) := by
  unfold blacklist
  refine Keeping.gets_bind fun m _ => Keeping.of_ite (fun _ => Keeping.pure false) fun _ => ?_
  refine Keeping.of_ite (fun _ => Keeping.pure true) fun _ => Keeping.of_bind fun _ => ?_
  infer_instance

instance : Obeys E N l (namedNode name) := by
  unfold namedNode
  refine Keeping.gets_bind fun m _ => ?_
  split <;> infer_instance

instance (key : Bytes) : Obeys E N l (commitInvitation p c key) := by
  unfold commitInvitation
  refine Recorded.gets_bind fun m hm => ?_
  have hclean : Clean l (newNode (m.conn c).name) := clean_newNode _
  have hadd : Obeys E m.newcomers l (nodeAdd {newNode (m.conn c).name with
      ecdsa := some key
      submesh := (m.conn c).submesh
      recent := [(m.conn c).address]}) := by
    refine keeping_nodeAdd fun hkept => ⟨hclean.devclass, hclean.address, fun sa hsa => ?_⟩
    rw [List.mem_singleton.mp hsa]
    exact (hm hkept).conns c
  infer_instance

instance (cookie key : Bytes) : Obeys E N l (processInvitation p c cookie key) := by
  unfold processInvitation commitFirst
  refine Keeping.of_bind fun file => ?_
  cases file with
  | none => infer_instance
  | some inv =>
    refine Keeping.of_bind fun _ => Keeping.of_bind fun _ => Keeping.of_bind fun submesh => ?_
    cases submesh with
    | none => infer_instance
    | some submesh => infer_instance

instance (type : ℕ) (data : Bytes) : Obeys E N l (receiveInvitationSptps p c type data) := by
  unfold receiveInvitationSptps
  infer_instance

end Calls

section Hosts

/-- The device class in a host file. -/
def storedDevclass (config : Bytes) : ℤ :=
  (getInt32 (getStrDup (getStrDup (getUint32 (some config)).2).2).2).1

theorem announced_cons {count : ℕ} {input rest : Input} {config : Bytes}
    (hconfig : getBinRaw input = (some config, rest)) (hne : config ≠ []) :
    (announced (count + 1) input).1 = config :: (announced count rest).1 := by
  obtain ⟨b, bytes, rfl⟩ := List.exists_cons_of_ne_nil hne
  rw [announced, hconfig]

/-- The policy for commands that may stop the process, as reading a host file can. -/
abbrev Admitted (l : Policy) {α : Type} (x : Command Mesh α) : Prop := Obeys (Recorded [] l) [] l x

/-- The node that is read, if any, may be added. -/
def Gives (l : Policy) (x : Command Mesh (Option Node)) : Prop :=
  Triple (Recorded [] l) (Recorded [] l) x fun nd m =>
    Recorded [] l m ∧ ∀ nd', nd = some nd' → Clean l nd'

theorem Gives.pure {nd : Option Node} (h : ∀ nd', nd = some nd' → Clean l nd') :
    Gives l (Pure.pure nd) := fun _ hm => ⟨hm, h⟩

theorem Gives.stop : Gives l Commands.stop := fun _ hm => hm

theorem Gives.bind {α : Type} {x : Command Mesh α} {f : α → Command Mesh (Option Node)}
    [hx : Admitted l x] (hf : ∀ a, Gives l (f a)) :
    Gives l (x >>= f) := Triple.bind hx.keeps hf

theorem adr_getSockaddr (input : Input) : l.adr (getSockaddr input).1 := by
  unfold getSockaddr
  dsimp only
  apply l.familiar
  split
  · split <;> rfl
  split
  · split <;> rfl
  · rfl

theorem adr_readRecent (count : ℕ) {recent : List Sockaddr} (input : Input)
    (h : ∀ sa ∈ recent, l.adr sa) : ∀ sa ∈ (readRecent count recent input).1, l.adr sa := by
  induction count generalizing recent input with
  | zero => exact h
  | succ count ih =>
    unfold readRecent
    split
    · apply ih
      intro sa hsa
      rcases List.mem_append.mp hsa with hold | hnew
      · exact h sa hold
      · rw [List.mem_singleton.mp hnew]
        exact adr_getSockaddr input
    · exact ih _ h

variable (p : Params)

theorem clean_withPeer {peer : Option Sockaddr} {nd : Node} (hnd : Clean l nd)
    (hpeer : ∀ sa, peer = some sa → l.adr sa) : Clean l (withPeer peer nd) := by
  unfold withPeer
  split
  · exact hnd
  rename_i sa
  refine ⟨hnd.devclass, hnd.address, fun sa' hmem => ?_⟩
  rcases mem_addRecent hmem with rfl | hold
  · exact hpeer _ rfl
  · exact hnd.recent sa' hold

theorem keeping_addHost {nd : Node} (hnd : Clean l nd) : Obeys E N l (addHost p nd) := by
  have hadd : Obeys E N l
      (nodeAdd {nd with lastReachable := 0, lastUnreachable := 0}) :=
    keeping_nodeAdd fun _ => ⟨hnd.devclass, hnd.address, hnd.recent⟩
  unfold addHost
  infer_instance

theorem keeping_takeIdentity {identity : Identity} (hdev : l.dev identity.devclass) :
    Obeys E N l (takeIdentity identity) := by
  unfold takeIdentity
  refine Keeping.of_bind fun submesh => Recorded.gets_bind fun m hm => ?_
  have htake : Obeys E m.newcomers l (modifyNode m.self fun nd => {nd with
      name := identity.name
      submesh := submesh
      devclass := if identity.devclass = devClassUnknown then m.devclass
        else identity.devclass}) := by
    apply keeping_modifyNode
    intro hkept nd hnd
    refine ⟨?_, hnd.address, hnd.recent⟩
    dsimp only
    split
    · exact (hm hkept).devclass
    · exact hdev
  infer_instance

instance (name : String) : Obeys E N l (initStorage p name) := by
  unfold initStorage
  infer_instance

instance : Obeys E N l (syncAll p) := by
  unfold syncAll
  infer_instance

variable {input : Input} {nd : Node}

theorem clean_readTimes {nd' : Node} (hnd : Clean l nd) (h : readTimes nd input = some nd') :
    Clean l nd' := by
  unfold readTimes at h
  dsimp only at h
  split at h
  · cases h
    exact ⟨hnd.devclass, hnd.address,
      adr_readRecent _ _ fun sa hsa => absurd hsa List.not_mem_nil⟩
  · cases h

theorem gives_readDetails (hnd : Clean l nd) (hdev : l.dev (getInt32 input).1) :
    Gives l (readDetails nd input) := by
  unfold readDetails
  dsimp only
  split
  · exact Gives.pure fun _ h => nomatch h
  unfold readCanonical
  split
  · exact Gives.stop
  apply Gives.pure
  intro nd' h
  refine clean_readTimes ?_ h
  exact ⟨hdev, hnd.address, hnd.recent⟩

theorem gives_readSubmesh (hnd : Clean l nd) (hdev : l.dev (getInt32 (getStrDup input).2).1) :
    Gives l (readSubmesh nd input) := by
  unfold readSubmesh
  split
  · exact Gives.stop
  rename_i name rest hname
  rw [hname] at hdev
  split
  · exact gives_readDetails hnd hdev
  apply Gives.bind
  intro submesh
  cases submesh with
  | none => exact Gives.pure fun _ h => nomatch h
  | some s => exact gives_readDetails ⟨hnd.devclass, hnd.address, hnd.recent⟩ hdev

theorem gives_nodeReadFromConfig {name : String} {config : Bytes}
    (hdev : l.dev (storedDevclass config)) : Gives l (nodeReadFromConfig name config) := by
  unfold nodeReadFromConfig
  dsimp only
  split
  · exact Gives.pure fun _ h => nomatch h
  split
  · exact Gives.pure fun _ h => nomatch h
  rename_i stored rest hstored
  split
  · exact Gives.pure fun _ h => nomatch h
  apply gives_readSubmesh (clean_newNode name)
  unfold storedDevclass at hdev
  rw [hstored] at hdev
  exact hdev

/-- What is done with a node that has been read from a host file. -/
theorem keeping_read {α : Type} {name : String} {config : Bytes}
    {f : Option Node → Command Mesh α} (hdev : l.dev (storedDevclass config))
    (hnone : Admitted l (f none))
    (hsome : ∀ nd, Clean l nd → Admitted l (f (some nd))) :
    Admitted l (nodeReadFromConfig name config >>= f) := by
  refine ⟨Triple.bind (gives_nodeReadFromConfig hdev) fun nd => ?_⟩
  rintro m ⟨hm, hclean⟩
  cases nd with
  | none => exact hnone.keeps m hm
  | some nd => exact (hsome nd (hclean nd rfl)).keeps m hm

theorem keeping_loadNode (name : String) {contents : Option Bytes}
    (hdev : ∀ config, contents = some config → l.dev (storedDevclass config)) :
    Admitted l (loadNode name contents) := by
  unfold loadNode
  refine Keeping.of_ite (fun _ => Keeping.pure true) fun _ => Keeping.gets_bind fun m _ => ?_
  refine Keeping.of_ite (fun _ => Keeping.pure true) fun _ => ?_
  cases contents with
  | none => infer_instance
  | some config =>
    refine keeping_read (hdev config rfl) (Keeping.pure false) fun nd hnd => ?_
    have hadd : Admitted l (nodeAdd nd) := keeping_nodeAdd fun _ => hnd
    infer_instance

theorem keeping_loadNodes (files : List (String × Option Bytes))
    (hdev : ∀ file ∈ files, ∀ config, file.2 = some config → l.dev (storedDevclass config)) :
    Admitted l (loadNodes files) := by
  induction files with
  | nil => exact Keeping.pure true
  | cons file rest ih =>
    have hload : Admitted l (loadNode file.1 file.2) :=
      keeping_loadNode file.1 (hdev file List.mem_cons_self)
    have hrest := ih fun file' h => hdev file' (List.mem_cons_of_mem file h)
    exact Keeping.bind

theorem keeping_importEntries (count : ℕ)
    (hdev : ∀ config ∈ (announced count input).1, l.dev (storedDevclass config)) :
    Admitted l (importEntries p count input) := by
  induction count generalizing input with
  | zero => exact Keeping.pure _
  | succ count ih =>
    unfold importEntries
    split
    · infer_instance
    · infer_instance
    rename_i config rest hne hconfig
    rw [announced_cons hconfig (fun hnil => hne hnil)] at hdev
    have hnext : Admitted l (importEntries p count rest) :=
      ih fun config' h => hdev config' (List.mem_cons_of_mem config h)
    refine Keeping.gets_bind fun m _ => ?_
    split
    · infer_instance
    rename_i name _
    refine Keeping.of_ite (fun _ => hnext) fun _ => ?_
    refine keeping_read (hdev config List.mem_cons_self) (Keeping.pure _) fun nd hnd => ?_
    have hadd : Admitted l (addHost p nd) := keeping_addHost p hnd
    infer_instance

theorem keeping_meshlinkImport {data : Bytes}
    (hdev : ∀ config ∈ (announced (getArray (some (b64decode data))).1
      (getArray (some (b64decode data))).2).1, l.dev (storedDevclass config)) :
    Admitted l (meshlinkImport p data) := by
  have hentries : Admitted l (importEntries p (getArray (some (b64decode data))).1
      (getArray (some (b64decode data))).2) := keeping_importEntries p _ hdev
  have hfinish : ∀ rest, Admitted l (finishImport p rest) := by
    intro rest
    unfold finishImport
    split <;> infer_instance
  unfold meshlinkImport
  infer_instance

theorem keeping_joinEntries {peer : Option Sockaddr} (count : ℕ)
    (hpeer : ∀ sa, peer = some sa → l.adr sa)
    (hdev : ∀ config ∈ (announced count input).1, l.dev (storedDevclass config)) :
    Admitted l (joinEntries p peer count input) := by
  induction count generalizing peer input with
  | zero => exact Keeping.pure _
  | succ count ih =>
    unfold joinEntries
    split
    · infer_instance
    · infer_instance
    rename_i config rest hne hconfig
    rw [announced_cons hconfig (fun hnil => hne hnil)] at hdev
    have hnext : Admitted l (joinEntries p none count rest) :=
      ih (by simp) fun config' h => hdev config' (List.mem_cons_of_mem config h)
    refine Keeping.gets_bind fun m _ => ?_
    split
    · infer_instance
    rename_i name _
    refine Keeping.of_ite (fun _ => Keeping.pure _) fun _ => ?_
    refine keeping_read (hdev config List.mem_cons_self) (Keeping.pure _) fun nd hnd => ?_
    have hadd : Admitted l (addHost p (withPeer peer nd)) :=
      keeping_addHost p (clean_withPeer hnd hpeer)
    infer_instance

theorem keeping_finalizeJoin {peer : Option Sockaddr} {payload : Bytes}
    (hpeer : ∀ sa, peer = some sa → l.adr sa)
    (hdev : ∀ identity, readIdentity payload = some identity → l.dev identity.devclass ∧
      ∀ config ∈ (announced identity.count identity.rest).1, l.dev (storedDevclass config)) :
    Admitted l (finalizeJoin p peer payload) := by
  unfold finalizeJoin
  split
  · infer_instance
  rename_i identity hidentity
  have htake : Admitted l (takeIdentity identity) :=
    keeping_takeIdentity (hdev identity hidentity).1
  have hentries : Admitted l (joinEntries p peer identity.count identity.rest) :=
    keeping_joinEntries p identity.count hpeer (hdev identity hidentity).2
  infer_instance

end Hosts

section Runs

variable (p : Params)

/-- The host files that an import or an invitation carries, and what else an event
brings in keeps to the policy. -/
def Admits (l : Policy) : Event → Prop
  | .accept address => l.adr address
  | .arrive _ _ (.line r) =>
    ∀ place, reflexive r = some place → l.adr (p.str2sockaddr place.1 place.2)
  | .arrive _ _ (.record r) =>
    ∀ place, reflexive r = some place → l.adr (p.str2sockaddr place.1 place.2)
  | .udp sa _ _ => l.adr sa
  | .importHosts data => ∀ config ∈ (announced (getArray (some (b64decode data))).1
      (getArray (some (b64decode data))).2).1, l.dev (storedDevclass config)
  | .join peer payload => (∀ sa, peer = some sa → l.adr sa) ∧
      ∀ identity, readIdentity payload = some identity → l.dev identity.devclass ∧
        ∀ config ∈ (announced identity.count identity.rest).1, l.dev (storedDevclass config)
  | _ => True

instance (i : NodeId) : Obeys E N l (handleDial p i) := by
  unfold handleDial
  refine Keeping.gets_bind fun m _ => Keeping.of_ite (fun _ => ?_) fun _ => Keeping.pure ()
  split <;> infer_instance

instance (i : NodeId) (x : Command Mesh Bool) [Obeys E N l x] : Obeys E N l (withNode i x) := by
  unfold withNode
  infer_instance

instance (x : Command Mesh Bool) [Obeys E N l x] : Obeys E N l (ignoring x) := by
  unfold ignoring
  infer_instance

theorem keeping_handleArrival {c : ConnId} {late : Bool} {a : Arrival}
    (ha : Admits p l (.arrive c late a)) :
    Obeys E N l (handleArrival p c late a) := by
  have hreceive : ∀ cn, Obeys E N l (receive p cn c a) := by
    intro cn
    cases a with
    | line r =>
      have hrequest : Obeys E N l (receiveRequest p c r) := keeping_receiveRequest p c ha
      exact Keeping.ite
    | handshake => exact Keeping.ite
    | record r =>
      have hrequest : Obeys E N l (receiveMetaSptps p c r) := keeping_receiveMetaSptps p c ha
      exact Keeping.ite
    | invitation type data => exact Keeping.ite
  unfold handleArrival handleMetaData
  infer_instance

/-- Every event that keeps to the policy keeps the records. -/
theorem keeping_handle {ev : Event} (hev : Admits p l ev) : Admitted l (handle p ev) := by
  unfold handle
  cases ev with
  | accept address =>
    have hadd : Admitted l
        (connectionAdd (newConnection "<unknown>" address none)) :=
      keeping_connectionAdd fun _ => hev
    infer_instance
  | arrive c late a => exact keeping_handleArrival p hev
  | terminate c report =>
    unfold handleTermination
    infer_instance
  | udp sa limited d => exact keeping_handleIncomingVpnData p limited d hev
  | age =>
    unfold agePastRequests
    infer_instance
  | blacklistByName name =>
    unfold meshlinkBlacklistByName
    infer_instance
  | whitelistByName name =>
    unfold meshlinkWhitelistByName
    infer_instance
  | importHosts data =>
    have himport : Admitted l (meshlinkImport p data) := keeping_meshlinkImport p hev
    infer_instance
  | join peer payload =>
    have hjoin : Admitted l (finalizeJoin p peer payload) := keeping_finalizeJoin p hev.1 hev.2
    unfold handleJoin
    infer_instance
  | _ => infer_instance

/-- Along every run that keeps to the policy, the records do if what the search has taken
from edges does. -/
theorem run_records {m : Mesh} (hm : Records l m) {evs : List Event}
    (hevs : ∀ ev ∈ evs, Admits p l ev) (hkept : Kept l (run p m evs).newcomers) :
    Records l (run p m evs) := by
  have hrun : Along (step p) (fun _ ev => Admits p l ev) m evs := along_of_forall hevs
  have hstart : Recorded [] l m := ⟨List.nil_subset _, fun _ => hm⟩
  have hend : Recorded [] l (run p m evs) :=
    kept_along (fun m ev hev hm => (keeping_handle p hev).keeps.after m hm) hrun hstart
  exact hend.records hkept

end Runs

end Meshlink.RecordRuns