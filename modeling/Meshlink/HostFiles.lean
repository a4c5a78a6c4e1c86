import Meshlink.MeshCalls

/-!
Nodes that come in as host files: node_read_from_config of net_setup.c, and
meshlink_import and finalize_join of meshlink.c. A host file that is cut off
where a string is expected makes the code follow a null pointer, which stops the
process.
-/
namespace Meshlink.HostFiles

open Commands MeshState MeshGraph
open Packmsg hiding Bytes

section Reading

def bigEndian (bytes : Bytes) : ℕ := littleEndian bytes.reverse

/-- packmsg_get_sockaddr: an extension of type 4 or 6 with the port in front. -/
def getSockaddr (input : Input) : Sockaddr × Input :=
  match getExtRaw input with
  | (type, data, rest) =>
    let bytes := data.getD []
    if type = 4 then
      if bytes.length = 6 then
        (.inet (bigEndian (bytes.drop 2)) (bigEndian (bytes.take 2)), rest)
      else (.unspec, none)
    else if type = 6 then
      if bytes.length = 18 then
        (.inet6 (bigEndian (bytes.drop 2)) (bigEndian (bytes.take 2)), rest)
      else (.unspec, none)
    else (.unspec, none)

/-- The first five addresses are kept, the others are skipped. -/
def readRecent : ℕ → List Sockaddr → Input → List Sockaddr × Input
  | 0, recent, input => (recent, input)
  | count + 1, recent, input =>
    if recent.length < maxRecent then
      let (sa, rest) := getSockaddr input
      readRecent count (recent ++ [sa]) rest
    else readRecent count recent (skipElement input)

/-- The last fields of a host file, after the canonical address. -/
def readTimes (nd : Node) (input : Input) : Option Node :=
  let (count, rest) := getArray input
  let (recent, rest) := readRecent count [] rest
  let (lastReachable, rest) := getInt64 rest
  let (lastUnreachable, rest) := getInt64 rest
  if Packmsg.done rest then
    some {nd with
      recent := recent
      lastReachable := lastReachable
      lastUnreachable := lastUnreachable}
  else none

def readCanonical (nd : Node) (input : Input) : Command Mesh (Option Node) :=
  match getStrDup input with
  | (none, _) => stop
  | (some address, rest) =>
    pure (readTimes {nd with
      canonicalAddress := if address = "" then none else some address} rest)

/-- The fields of a host file after its submesh. A key has 32 bytes, or none. -/
def readDetails (nd : Node) (input : Input) : Command Mesh (Option Node) :=
  let (devclass, rest) := getInt32 input
  let (blacklisted, rest) := getBool rest
  let (key, rest) := getBinRaw rest
  let bytes := key.getD []
  if bytes.length ≠ 0 ∧ bytes.length ≠ 32 then pure none
  else readCanonical {nd with
    devclass := devclass
    blacklisted := blacklisted
    ecdsa := if bytes.length = 0 then nd.ecdsa else some bytes} rest

def readSubmesh (nd : Node) (input : Input) : Command Mesh (Option Node) :=
  match getStrDup input with
  | (none, _) => stop
  | (some name, rest) => do
    if name = coreMesh then readDetails nd rest
    else
      let submesh ← lookupOrCreateSubmesh name
      match submesh with
      | none => pure none
      | some s => readDetails {nd with submesh := some s} rest

/-- node_read_from_config for a node that only has a name. -/
def nodeReadFromConfig (name : String) (config : Bytes) : Command Mesh (Option Node) :=
  let (version, rest) := getUint32 (some config)
  if version ≠ configVersion then pure none
  else
    match getStrDup rest with
    | (none, _) => pure none
    | (some stored, rest) =>
      if stored ≠ name then pure none else readSubmesh (newNode name) rest

/-- The name in the header of a host file, if it is valid. -/
def hostName (config : Bytes) : Option String :=
  let (version, rest) := getUint32 (some config)
  match getStrDup rest with
  | (none, _) => none
  | (some name, _) => if version = configVersion ∧ checkId name then some name else none

/-- The entries of an array up to the first that is missing or empty, and the input
that is left then. -/
def announced : ℕ → Input → List Bytes × Input
  | 0, input => ([], input)
  | count + 1, input =>
    match getBinRaw input with
    | (none, rest) => ([], rest)
    | (some [], rest) => ([], rest)
    | (some config, rest) => (config :: (announced count rest).1, (announced count rest).2)

end Reading

section Loading

/-- load_node: an entry of the directory of host files, with its contents if it can be
read. What is not the name of a node, or of one that is known, is passed over. -/
def loadNode (name : String) (contents : Option Bytes) : Command Mesh Bool := do
  if !checkId name then pure true
  else
    let m ← gets id
    if (lookupNode m name).isSome then pure true
    else
      match contents with
      | none => pure false
      | some config =>
        let nd ← nodeReadFromConfig name config
        match nd with
        | none => pure false
        | some nd =>
          let _ ← nodeAdd nd
          pure true

/-- config_scan_all with load_node; the first entry that fails ends the scan. -/
def loadNodes : List (String × Option Bytes) → Command Mesh Bool
  | [] => pure true
  | (name, contents) :: rest => do
    let loaded ← loadNode name contents
    if !loaded then pure false else loadNodes rest

end Loading

section Importing

variable (p : Params)

/-- Store and add a node that was read from a host file. -/
def addHost (nd : Node) : Command Mesh Bool := do
  let written ← writeHostFile p nd.name
  if !written then pure false
  else
    let _ ← nodeAdd {nd with lastReachable := 0, lastUnreachable := 0}
    pure true

/-- The loop of meshlink_import. It gives the rest of the input, invalid after a
bad entry, or nothing if the function has returned from inside the loop. -/
def importEntries : ℕ → Input → Command Mesh (Option Input)
  | 0, input => pure (some input)
  | count + 1, input =>
    match getBinRaw input with
    | (none, rest) => pure (some rest)
    | (some [], rest) => pure (some rest)
    | (some config, rest) => do
      let m ← gets id
      match hostName config with
      | none => pure (some none)
      | some name =>
        if (lookupNode m name).isSome then importEntries count rest
        else
          let nd ← nodeReadFromConfig name config
          match nd with
          | none => pure (some none)
          | some nd =>
            let added ← addHost p nd
            if !added then pure none else importEntries count rest

/-- The end of meshlink_import; without a rest the mutex stays locked. -/
def finishImport : Option Input → Command Mesh Bool
  | none => pure false
  | some rest => do
    update fun m => {m with held := false}
    if !Packmsg.done rest then pure false else attempt p .syncConfig

def meshlinkImport (data : Bytes) : Command Mesh Bool := do
  let (count, input) := getArray (some (b64decode data))
  if b64decode data = [] then pure false
  else if count = 0 then pure false
  else
    update fun m => {m with held := true}
    let rest ← importEntries p count input
    finishImport p rest

end Importing

section Joining

variable (p : Params)

/-- What the host entries of an invitation turn out to be: the function returns
false, leaves the loop early, or gets to the end of it. -/
inductive Hosts
  | failed
  | broken
  | complete
  deriving DecidableEq

/-- The first host file is the inviter's own; its address is remembered. -/
def withPeer (peer : Option Sockaddr) (nd : Node) : Node :=
  match peer with
  | none => nd
  | some sa => {nd with recent := addRecent nd.recent sa}

def joinEntries (peer : Option Sockaddr) : ℕ → Input → Command Mesh Hosts
  | 0, _ => pure .complete
  | count + 1, input =>
    match getBinRaw input with
    | (none, _) => pure .failed
    | (some [], _) => pure .failed
    | (some config, rest) => do
      let m ← gets id
      match hostName config with
      | none => pure .broken
      | some name =>
        if name = m.name then pure .failed
        else
          let nd ← nodeReadFromConfig name config
          match nd with
          | none => pure .failed
          | some nd =>
            let added ← addHost p (withPeer peer nd)
            if !added then pure .failed else joinEntries none count rest

/-- The identity that an invitation gives to the local node. -/
structure Identity where
  name : String
  submesh : String
  devclass : ℤ
  count : ℕ
  rest : Input

def invitationVersion : ℕ := 2

def readIdentity (payload : Bytes) : Option Identity :=
  let (version, rest) := getUint32 (some payload)
  if version ≠ invitationVersion then none
  else
    let (name, rest) := getStrDup rest
    let (submesh, rest) := getStrDup rest
    let (devclass, rest) := getInt32 rest
    let (count, rest) := getArray rest
    match name, submesh with
    | some name, some submesh =>
      if !checkId name then none
      else if submesh ≠ coreMesh ∧ !checkId submesh then none
      else if count = 0 then none
      else some ⟨name, submesh, devclass, count, rest⟩
    | _, _ => none

/-- The local node takes on its new identity. -/
def takeIdentity (identity : Identity) : Command Mesh Unit := do
  let submesh ← lookupOrCreateSubmesh identity.submesh
  let m ← gets id
  update fun m => {m with name := identity.name}
  modifyNode m.self fun nd => {nd with
    name := identity.name
    submesh := submesh
    devclass := if identity.devclass = devClassUnknown then m.devclass else identity.devclass}

/-- config_init and write_main_config_files. -/
def initStorage (name : String) : Command Mesh Bool := do
  let created ← attempt p .initConfig
  if !created then pure false
  else
    let written ← attempt p .writeMainConfig
    if !written then pure false else writeHostFile p name

def syncAll : Command Mesh Bool := do
  let synced ← attempt p .syncConfig
  if !synced then pure false else attempt p .syncBase

def finalizeJoin (peer : Option Sockaddr) (payload : Bytes) : Command Mesh Bool :=
  match readIdentity payload with
  | none => pure false
  | some identity => do
    takeIdentity identity
    let ready ← initStorage p identity.name
    if !ready then pure false
    else
      let hosts ← joinEntries p peer identity.count identity.rest
      if hosts = .failed then pure false else syncAll p

end Joining

end Meshlink.HostFiles
