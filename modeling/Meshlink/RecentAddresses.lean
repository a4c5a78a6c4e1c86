import Meshlink.HostOutput
import Meshlink.MeshRuns
import Meshlink.RecordRuns

/-!
The recent addresses of a node are kept in its host file. They come from connections
and packets, from host files, and from the address texts of ADD_EDGE and ANS_KEY
requests. A text that is not an address becomes an address of family AF_UNKNOWN. The
search through the graph leaves it alone when the node that the edge leads to is
reachable; a node that was not reachable until now gets it for its address, and its host
file can no longer be written.
-/
namespace Meshlink.RecentAddresses

open MeshState HostOutput MeshEvents MeshRuns NodeRecords RecordRuns

abbrev Familiar (sa : Sockaddr) : Prop := sa.familiar = true

def familiarPolicy : Policy where
  dev _ := True
  adr := Familiar
  valid _ _ := trivial
  familiar _ h := h

/-- No node and no connection has an address of unknown family. -/
def AllFamiliar (m : Mesh) : Prop := Records familiarPolicy m

/-- What an event tells of addresses: a reflexive address is one, and the system reports
addresses of families it knows. The texts of ADD_EDGE requests are arbitrary. -/
def TellsFamiliar (p : Params) : Event → Prop
  | .accept address => Familiar address
  | .arrive _ _ (.line r) => ∀ place ∈ reflexive r, Familiar (p.str2sockaddr place.1 place.2)
  | .arrive _ _ (.record r) => ∀ place ∈ reflexive r, Familiar (p.str2sockaddr place.1 place.2)
  | .udp sa _ _ => Familiar sa
  | .join (some peer) _ => Familiar peer
  | _ => True

instance (p : Params) (ev : Event) : Decidable (TellsFamiliar p ev) := by
  unfold TellsFamiliar
  split <;> infer_instance

theorem admits_of_tellsFamiliar (p : Params) {ev : Event} (h : TellsFamiliar p ev) :
    Admits p familiarPolicy ev := by
  cases ev with
  | arrive c late a =>
    cases a with
    | line r => exact h
    | record r => exact h
    | _ => trivial
  | accept address => exact h
  | udp sa data session => exact h
  | importHosts data => exact fun _ _ => trivial
  | join peer payload =>
    refine ⟨?_, fun _ _ => ⟨trivial, fun _ _ => trivial⟩⟩
    rintro sa rfl
    exact h
  | _ => trivial

theorem encodable_of_familiar {sa : Sockaddr} (hsa : Familiar sa) (hused : sa ≠ .unspec) :
    Encodable sa := by
  cases sa with
  | unspec => exact absurd rfl hused
  | unknown address port => cases hsa
  | _ => trivial

theorem recentInUse_encodable {nd : Node} (h : ∀ sa ∈ nd.recent, sa ≠ .unspec → Encodable sa) :
    ∀ sa ∈ recentInUse nd, Encodable sa := by
  intro sa hsa
  have hused : sa ≠ .unspec := by
    unfold recentInUse at hsa
    simpa using List.mem_takeWhile_imp hsa
  have hrecent : sa ∈ nd.recent := List.mem_of_mem_take ((List.takeWhile_sublist _).subset hsa)
  exact h sa hrecent hused

/-- A system on which 10.0.0.1 is the only address text. -/
def namelessParams : Params :=
  {plainParams with
    str2sockaddr := fun address port =>
      if address = "10.0.0.1" then .inet 0x0a000001 655 else .unknown address port}

/-- A request about an edge to a node at some address. -/
def edgeAt (fromName toName address : String) : Request :=
  .addEdge ⟨0, fromName, 1, coreMesh, toName, address, "655", 1, coreMesh, 1, 0, 1⟩

/-- A peer connects, and tells of a node that is connected to it, of the address of that
node, and of an address of its own that is none. -/
def introduced (address : String) : List Event :=
  connected "peer" ++
    [.arrive 0 false (.record (edgeAt "peer" "self" "10.0.0.1")),
      .arrive 0 false (.record (edgeAt "peer" "node" address)),
      .arrive 0 false (.record (edgeAt "node" "peer" "nowhere"))]

theorem allFamiliar_newMesh : AllFamiliar (newMesh "self") := by
  refine ⟨trivial, fun i => ⟨trivial, rfl, ?_⟩, fun _ => rfl⟩
  intro sa hsa
  exact absurd hsa List.not_mem_nil

end Meshlink.RecentAddresses
