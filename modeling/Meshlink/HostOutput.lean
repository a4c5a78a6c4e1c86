import Meshlink.HostFiles
import Meshlink.PackmsgOutput

/-!
How the record of a node is written to its host file. The fields go one after the
other into a buffer of fixed size. Only IPv4 and IPv6 addresses have an encoding; any
other address in the list of recent ones invalidates the whole output.
-/
namespace Meshlink.HostOutput

open MeshState PackmsgOutput
open Packmsg (configVersion)

def bufferSize : ℕ := 4096

/-- The low bytes of a value in network order. -/
def beBytes (n value : ℕ) : Bytes := (leBytes n value).reverse

/-- packmsg_add_sockaddr. -/
def addSockaddr (sa : Sockaddr) (out : Output) : Output :=
  match sa with
  | .inet address port => addExt 4 (beBytes 2 port ++ beBytes 4 address) out
  | .inet6 address port => addExt 6 (beBytes 2 port ++ beBytes 16 address) out
  | .unspec => none
  | .unknown _ _ => none

/-- The entries of the list of recent addresses before the first empty one. -/
def recentInUse (nd : Node) : List Sockaddr :=
  (nd.recent.take maxRecent).takeWhile fun sa => sa ≠ .unspec

def addSockaddrs (sas : List Sockaddr) (out : Output) : Output :=
  sas.foldl (fun out sa => addSockaddr sa out) out

/-- The encoding that node_write_config makes of a node. -/
def encodeNode (nd : Node) : Option Bytes :=
  let out := addUint32 configVersion (some ([], bufferSize))
  let out := addStr nd.name out
  let out := addStr (nd.submesh.getD ".") out
  let out := addInt32 nd.devclass out
  let out := addBool nd.blacklisted out
  let out := addBin (nd.ecdsa.getD []) out
  let out := addStr (nd.canonicalAddress.getD "") out
  let out := addArray (recentInUse nd).length out
  let out := addSockaddrs (recentInUse nd) out
  let out := addInt64 nd.lastReachable out
  let out := addInt64 nd.lastUnreachable out
  out.map Prod.fst

/-- An address of one of the two families that can be written. -/
def Encodable : Sockaddr → Prop
  | .inet _ _ => True
  | .inet6 _ _ => True
  | _ => False

def sockaddrElement : Sockaddr → Bytes
  | .inet address port => extElement 4 (beBytes 2 port ++ beBytes 4 address)
  | .inet6 address port => extElement 6 (beBytes 2 port ++ beBytes 16 address)
  | _ => []

/-- The contents of the host file of a node. -/
def hostBytes (nd : Node) : Bytes :=
  uint32Element configVersion ++ strElement nd.name ++ strElement (nd.submesh.getD ".") ++
    int32Element nd.devclass ++ [if nd.blacklisted then 0xc3 else 0xc2] ++
    binElement (nd.ecdsa.getD []) ++ strElement (nd.canonicalAddress.getD "") ++
    arrayHeader (recentInUse nd).length ++ (recentInUse nd).flatMap sockaddrElement ++
    int64Element nd.lastReachable ++ int64Element nd.lastUnreachable

theorem addSockaddr_eq {sa : Sockaddr} (hsa : Encodable sa) (out : Output) :
    addSockaddr sa out = write (sockaddrElement sa) out := by
  cases sa with
  | inet | inet6 => exact addExt_eq _ _ out
  | unspec | unknown => exact hsa.elim

theorem write_nil (out : Output) : write [] out = out := by
  cases out with
  | none => rfl
  | some o => simp [write]

theorem addSockaddrs_eq (sas : List Sockaddr) (hsas : ∀ sa ∈ sas, Encodable sa) (out : Output) :
    addSockaddrs sas out = write (sas.flatMap sockaddrElement) out := by
  induction sas generalizing out with
  | nil => exact (write_nil out).symm
  | cons sa rest ih =>
    have hrest := ih (fun sa' h => hsas sa' (List.mem_cons_of_mem sa h)) (addSockaddr sa out)
    calc addSockaddrs (sa :: rest) out
        = write (rest.flatMap sockaddrElement) (addSockaddr sa out) := hrest
      _ = write (rest.flatMap sockaddrElement) (write (sockaddrElement sa) out) := by
          rw [addSockaddr_eq (hsas sa (List.mem_cons_self ..))]
      _ = write ((sa :: rest).flatMap sockaddrElement) out := by
          rw [write_write, List.flatMap_cons]

/-- The host file of a node with encodable addresses is written when it fits the buffer. -/
theorem encodeNode_eq (nd : Node) (hrecent : ∀ sa ∈ recentInUse nd, Encodable sa)
    (hfits : (hostBytes nd).length ≤ bufferSize) : encodeNode nd = some (hostBytes nd) := by
  have hname := length_le_strElement nd.name
  have hsubmesh := length_le_strElement (nd.submesh.getD ".")
  have hcanonical := length_le_strElement (nd.canonicalAddress.getD "")
  have htotal := hfits
  simp only [hostBytes, List.length_append, bufferSize] at htotal
  have hwritten : encodeNode nd = (write (hostBytes nd) (some ([], bufferSize))).map Prod.fst := by
    unfold encodeNode
    dsimp only
    rw [addSockaddrs_eq _ hrecent, addBin_eq, addStr_eq _ (by omega), addStr_eq _ (by omega),
      addStr_eq _ (by omega)]
    simp only [addUint32, addInt32, addInt64, addBool, addArray, writeHdr, write_write, hostBytes]
  rw [hwritten, write_start, if_pos hfits]
  rfl

end Meshlink.HostOutput
