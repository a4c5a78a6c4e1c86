import Meshlink.MeshRuns
import Meshlink.RecordRuns

/-!
The device classes of nodes, which are used as indices into the table of their
traits. ACK and ADD_EDGE requests are refused when their classes are out of range,
and so is the class that a mesh is opened with. Host files that are loaded when a
mesh is opened, or that come in an import or an invitation, are taken at their word,
and so is the class that an invitation gives to the local node.
-/
namespace Meshlink.DeviceClasses

open Commands MeshState MetaEdges HostFiles MeshEvents MeshRuns NodeRecords RecordRuns
open Packmsg hiding Bytes

/-- A mesh whose host files have not been loaded yet. The class it is opened with has
been checked, the local node has it, and no other record is in use. -/
structure Opening (m : Mesh) : Prop where
  checked : validDevclass m.devclass = true
  self : (m.node m.self).devclass = m.devclass
  blank : ∀ i, i ≠ m.self → ∃ name, m.node i = newNode name

/-- The classes in the host files of an import, and in an invitation, are in range. -/
def CarriesValid : Event → Prop
  | .importHosts data => ∀ config ∈ (announced (getArray (some (b64decode data))).1
      (getArray (some (b64decode data))).2).1, validDevclass (storedDevclass config) = true
  | .join _ payload => ∀ identity, readIdentity payload = some identity →
      validDevclass identity.devclass = true ∧
        ∀ config ∈ (announced identity.count identity.rest).1,
          validDevclass (storedDevclass config) = true
  | _ => True

def classPolicy : Policy where
  dev devclass := validDevclass devclass = true
  adr _ := True
  valid _ h := h
  familiar _ _ := trivial

theorem records_opening {m : Mesh} (h : Opening m) : Records classPolicy m := by
  refine ⟨h.checked, fun i => ⟨?_, trivial, fun _ _ => trivial⟩, fun _ => trivial⟩
  by_cases hi : i = m.self
  · rw [hi, h.self]
    exact h.checked
  · obtain ⟨name, hblank⟩ := h.blank i hi
    rw [hblank]
    exact (show validDevclass devClassUnknown = true by decide)

theorem admits_of_carriesValid (p : Params) {ev : Event} (h : CarriesValid ev) :
    Admits p classPolicy ev := by
  cases ev with
  | arrive c late a =>
    cases a with
    | line | record => exact fun _ _ => trivial
    | _ => trivial
  | importHosts data => exact h
  | join peer payload => exact ⟨fun _ _ => trivial, h⟩
  | _ => trivial

/-- Every node's device class is an index into the table of traits, from opening a mesh
on, as long as host files and invitations carry classes that are. -/
theorem devclass_in_range (p : Params) (m : Mesh) (files : List (String × Option Bytes))
    (evs : List Event) (hm : Opening m)
    (hfiles : ∀ file ∈ files, ∀ config, file.2 = some config →
      validDevclass (storedDevclass config) = true)
    (hevs : ∀ ev ∈ evs, CarriesValid ev) :
    ∀ i, 0 ≤ ((run p (after (loadNodes files) m) evs).node i).devclass ∧
      ((run p (after (loadNodes files) m) evs).node i).devclass < devClassCount := by
  have hloaded := (keeping_loadNodes files hfiles).keeps.after m
    ⟨List.nil_subset _, fun _ => records_opening hm⟩
  have hrun := run_records p (hloaded.records fun _ _ => trivial)
    (fun ev hev => admits_of_carriesValid p (hevs ev hev)) fun _ _ => trivial
  intro i
  have hvalid : validDevclass _ = true := (hrun.nodes i).devclass
  simpa [validDevclass] using hvalid

/-- The host file of a node. -/
def hostFile (name : String) (devclass : UInt8) : Bytes :=
  2 :: 163 :: textBytes name ++ [161, 46, devclass, 194, 196, 0, 160, 144, 0, 0]

/-- An import that carries only the host file of a node named bob. -/
def importText (devclass : String) : Bytes :=
  textBytes ("RS8DCMqYvJWou" ++ devclass ++ "wEDAoQCAA")

theorem opening_newMesh : Opening (newMesh "self") := ⟨by decide, rfl, fun _ _ => ⟨"self", rfl⟩⟩

theorem devclass_in_range_imported :
    let m := run plainParams (after (loadNodes [("ann", some (hostFile "ann" 1))])
      (newMesh "self")) [.importHosts (importText "Eg"), .graph]
    m.nodes = [0, 1, 2] ∧ 0 ≤ (m.node 2).devclass ∧ (m.node 2).devclass < devClassCount := by
  refine ⟨by decide +kernel, devclass_in_range plainParams (newMesh "self")
    [("ann", some (hostFile "ann" 1))] [.importHosts (importText "Eg"), .graph]
    opening_newMesh ?_ ?_ 2⟩
  · intro file hfile config hconfig
    rw [List.mem_singleton.mp hfile] at hconfig
    cases hconfig
    decide +kernel
  · intro ev hev
    rcases List.mem_cons.mp hev with rfl | hev
    · unfold CarriesValid
      decide +kernel
    · rw [List.mem_singleton.mp hev]
      trivial

/-- An import with a host file of class 100 is accepted and adds the node with it. -/
theorem import_out_of_range :
    let m := run plainParams (newMesh "self") [.importHosts (importText "Qm")]
    Opening (newMesh "self") ∧ m.nodes = [0, 1] ∧ (m.node 1).devclass = 100 :=
  ⟨opening_newMesh, by decide +kernel, by decide +kernel⟩

end Meshlink.DeviceClasses
