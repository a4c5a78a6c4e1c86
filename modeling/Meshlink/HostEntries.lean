import Meshlink.MeshRuns

/-!
The host files that an import or an invitation brings. Whether one can be read does
not depend on the state of the mesh, and reading it changes no more than the list of
submeshes. Each file that is stored adds one node to the mesh, unless its name is
known.
-/
namespace Meshlink.HostEntries

open Commands MeshState MeshGraph HostFiles EventMoves
open Packmsg hiding Bytes

variable (nd : Node)

section Reading

variable {α β : Type}

/-- The command gives the same value in every state, and may only add submeshes. -/
def ReadsAs (x : Command Mesh α) (value : Option α) : Prop :=
  ∀ m, ∃ submeshes, x m = (value, {m with submeshes := submeshes})

theorem readsAs_pure (a : α) : ReadsAs (pure a) (some a) := fun m => ⟨m.submeshes, rfl⟩

theorem readsAs_stop : ReadsAs (stop : Command Mesh α) none := fun m => ⟨m.submeshes, rfl⟩

theorem ReadsAs.bind {x : Command Mesh α} {f : α → Command Mesh β} {a : α} {value : Option β}
    (hx : ReadsAs x (some a)) (hf : ReadsAs (f a) value) : ReadsAs (x >>= f) value := by
  intro m
  obtain ⟨submeshes, hrun⟩ := hx m
  obtain ⟨submeshes', hrest⟩ := hf {m with submeshes := submeshes}
  exact ⟨submeshes', by rw [bind_of_some hrun, hrest]⟩

theorem readsAs_lookupOrCreateSubmesh (name : String) :
    ∃ submesh, ReadsAs (lookupOrCreateSubmesh name) (some submesh) := by
  unfold lookupOrCreateSubmesh
  split
  · exact ⟨none, readsAs_pure none⟩
  split
  · exact ⟨none, readsAs_pure none⟩
  refine ⟨some name, ReadsAs.bind (a := ()) ?_ (readsAs_pure _)⟩
  intro m
  by_cases hmem : name ∈ m.submeshes
  · exact ⟨m.submeshes, by simp [update, hmem]⟩
  · exact ⟨m.submeshes ++ [name], by simp [update, hmem]⟩

theorem readsAs_readDetails (input : Input) : ∃ value, ReadsAs (readDetails nd input) value := by
  unfold readDetails
  dsimp only
  split
  · exact ⟨_, readsAs_pure none⟩
  unfold readCanonical
  split
  · exact ⟨none, readsAs_stop⟩
  · exact ⟨_, readsAs_pure _⟩

theorem readsAs_readSubmesh (input : Input) : ∃ value, ReadsAs (readSubmesh nd input) value := by
  unfold readSubmesh
  split
  · exact ⟨none, readsAs_stop⟩
  split
  · exact readsAs_readDetails _ _
  rename_i name rest _ _
  obtain ⟨submesh, hsubmesh⟩ := readsAs_lookupOrCreateSubmesh name
  cases submesh with
  | none => exact ⟨some none, hsubmesh.bind (readsAs_pure none)⟩
  | some s =>
    obtain ⟨value, hvalue⟩ := readsAs_readDetails {nd with submesh := some s} rest
    exact ⟨value, hsubmesh.bind hvalue⟩

theorem readsAs_nodeReadFromConfig (name : String) (config : Bytes) :
    ∃ value, ReadsAs (nodeReadFromConfig name config) value := by
  unfold nodeReadFromConfig
  dsimp only
  split
  · exact ⟨_, readsAs_pure none⟩
  split
  · exact ⟨_, readsAs_pure none⟩
  · split
    · exact ⟨_, readsAs_pure none⟩
    · exact readsAs_readSubmesh _ _

end Reading

section Entries

theorem announced_length_le (count : ℕ) (input : Input) :
    (announced count input).1.length ≤ count := by
  induction count generalizing input with
  | zero => exact Nat.le_refl 0
  | succ count ih =>
    unfold announced
    split
    · exact Nat.zero_le _
    · exact Nat.zero_le _
    · exact Nat.succ_le_succ (ih _)

/-- What node_read_from_config makes of an entry with a valid header. -/
def parsed (m : Mesh) (config : Bytes) : Option Node :=
  match hostName config with
  | none => none
  | some name => (nodeReadFromConfig name config m).1.join

def wellFormed (m : Mesh) (config : Bytes) : Bool := (parsed m config).isSome

variable {m m' : Mesh} {config : Bytes} {name : String} {nd : Node}

theorem parsed_eq (m m' : Mesh) (config : Bytes) : parsed m config = parsed m' config := by
  unfold parsed
  split
  · rfl
  rename_i name _
  obtain ⟨value, hvalue⟩ := readsAs_nodeReadFromConfig name config
  obtain ⟨_, hm⟩ := hvalue m
  obtain ⟨_, hm'⟩ := hvalue m'
  rw [hm, hm']

theorem wellFormed_eq (m m' : Mesh) (config : Bytes) :
    wellFormed m config = wellFormed m' config := by
  unfold wellFormed
  rw [parsed_eq m m']

theorem parsed_of_run (hname : hostName config = some name) {value : Option (Option Node)}
    (h : nodeReadFromConfig name config m = (value, m')) : parsed m config = value.join := by
  unfold parsed
  rw [hname]
  dsimp only
  rw [h]

theorem parsed_name (hname : hostName config = some name) (h : parsed m config = some nd) :
    nd.name = name := by
  unfold parsed at h
  rw [hname] at h
  dsimp only at h
  rcases hread : nodeReadFromConfig name config m with ⟨value, m'⟩
  rw [hread] at h
  obtain rfl : value = some (some nd) := Option.join_eq_some_iff.mp h
  exact ((reads_nodeReadFromConfig name config).returns trivial hread nd rfl).1

/-- The process stops at an entry that cannot be read, or there is no node. -/
theorem read_unread (hname : hostName config = some name) (hparsed : parsed m config = none) :
    ∃ submeshes, nodeReadFromConfig name config m = (none, {m with submeshes := submeshes}) ∨
      nodeReadFromConfig name config m = (some none, {m with submeshes := submeshes}) := by
  obtain ⟨value, hvalue⟩ := readsAs_nodeReadFromConfig name config
  obtain ⟨submeshes, hread⟩ := hvalue m
  have hjoin := (parsed_of_run hname hread).symm.trans hparsed
  match value with
  | none => exact ⟨submeshes, .inl hread⟩
  | some none => exact ⟨submeshes, .inr hread⟩
  | some (some nd) => exact absurd hjoin nofun

theorem read_parsed (hname : hostName config = some name) (hparsed : parsed m config = some nd) :
    ∃ submeshes, nodeReadFromConfig name config m =
      (some (some nd), {m with submeshes := submeshes}) := by
  obtain ⟨value, hvalue⟩ := readsAs_nodeReadFromConfig name config
  obtain ⟨submeshes, hread⟩ := hvalue m
  obtain rfl : value = some (some nd) :=
    Option.join_eq_some_iff.mp ((parsed_of_run hname hread).symm.trans hparsed)
  exact ⟨submeshes, hread⟩

end Entries

section Adding

/-- The mesh knows a node with this name. -/
def knows (m : Mesh) (name : String) : Bool := (lookupNode m name).isSome

/-- The mesh after the node was stored and added. -/
def withHost (m : Mesh) : Mesh :=
  after (nodeAdd {nd with lastReachable := 0, lastUnreachable := 0})
    {m with ops := m.ops + 1, log := m.log ++ [.stored nd.name]}

variable {p : Params} {m : Mesh} {nd : Node} {name : String}

theorem attempt_bind {α : Type} {op : Op} {f : Bool → Command Mesh α} :
    (attempt p op >>= f) m = f (p.succeeds m.ops op) {m with ops := m.ops + 1} := rfl

/-- A host is added once its file is written. -/
theorem addHost_then {α : Type} (m : Mesh) (failed : α) (next : Command Mesh α) :
    (addHost p nd >>= fun added => if !added then pure failed else next) m =
      if p.succeeds m.ops (.writeConfig nd.name) then next (withHost nd m)
      else (some failed, {m with ops := m.ops + 1}) := by
  unfold addHost writeHostFile
  simp only [bind_assoc]
  rw [attempt_bind]
  cases p.succeeds m.ops (.writeConfig nd.name) with
  | true => rfl
  | false => rfl

theorem withHost_nodes (m : Mesh) :
    (withHost nd m).nodes = if knows m nd.name then m.nodes else m.nodes ++ [m.nextNode] := rfl

theorem withHost_nodes_of_known (h : knows m nd.name = true) : (withHost nd m).nodes = m.nodes := by
  rw [withHost_nodes, if_pos h]

theorem withHost_nodes_of_new (h : knows m nd.name = false) :
    (withHost nd m).nodes = m.nodes ++ [m.nextNode] := by
  rw [withHost_nodes, if_neg (Bool.eq_false_iff.mp h)]

theorem withHost_node (m : Mesh) : (withHost nd m).node = Function.update m.node m.nextNode
      {nd with lastReachable := 0, lastUnreachable := 0} := rfl

theorem withHost_nextNode (m : Mesh) : (withHost nd m).nextNode = m.nextNode + 1 := rfl

theorem withHost_ops (m : Mesh) : (withHost nd m).ops = m.ops + 1 := rfl

theorem knows_iff : knows m name = true ↔ ∃ i ∈ m.nodes, (m.node i).name = name := by
  unfold knows lookupNode
  rw [List.find?_isSome]
  simp

/-- Every identity in use has been given out. -/
def Allocated (m : Mesh) : Prop := ∀ i ∈ m.nodes, i < m.nextNode

theorem allocated_newMesh (name : String) : Allocated (MeshRuns.newMesh name) := by
  intro i hi
  rw [List.mem_singleton.mp hi]
  exact Nat.one_pos

theorem Allocated.withHost (h : Allocated m) (nd : Node) : Allocated (withHost nd m) := by
  intro i hi
  rw [withHost_nextNode]
  rw [withHost_nodes] at hi
  split at hi
  · exact Nat.lt_succ_of_lt (h i hi)
  rcases List.mem_append.mp hi with hi | hi
  · exact Nat.lt_succ_of_lt (h i hi)
  · rw [List.mem_singleton.mp hi]
    exact Nat.lt_succ_self _

/-- A new node does not change the ones that are there. -/
theorem Allocated.withHost_node_of_mem (h : Allocated m) (nd : Node) {i : NodeId}
    (hi : i ∈ m.nodes) : (HostEntries.withHost nd m).node i = m.node i := by
  rw [withHost_node]
  exact Function.update_of_ne ((h i hi).ne) _ _

theorem Allocated.knows_withHost (h : Allocated m) (nd : Node) (name : String) :
    knows (HostEntries.withHost nd m) name = (decide (nd.name = name) || knows m name) := by
  rw [Bool.eq_iff_iff, Bool.or_eq_true, decide_eq_true_iff, knows_iff, knows_iff, withHost_nodes]
  have hnew : ((HostEntries.withHost nd m).node m.nextNode).name = nd.name := by
    rw [withHost_node, Function.update_self]
  split
  · rename_i hknown
    obtain ⟨j, hj, hjname⟩ := knows_iff.mp hknown
    constructor
    · rintro ⟨i, hi, hname⟩
      rw [h.withHost_node_of_mem nd hi] at hname
      exact .inr ⟨i, hi, hname⟩
    · rintro (rfl | ⟨i, hi, hname⟩)
      · exact ⟨j, hj, by rw [h.withHost_node_of_mem nd hj, hjname]⟩
      · exact ⟨i, hi, by rw [h.withHost_node_of_mem nd hi, hname]⟩
  · constructor
    · rintro ⟨i, hi, hname⟩
      rcases List.mem_append.mp hi with hi | hi
      · rw [h.withHost_node_of_mem nd hi] at hname
        exact .inr ⟨i, hi, hname⟩
      · rw [List.mem_singleton.mp hi, hnew] at hname
        exact .inl hname
    · rintro (rfl | ⟨i, hi, hname⟩)
      · exact ⟨m.nextNode, List.mem_append_right _ (List.mem_singleton_self _), hnew⟩
      · exact ⟨i, List.mem_append_left _ hi, by rw [h.withHost_node_of_mem nd hi, hname]⟩

end Adding

section New

/-- The names that are new, each where it occurs first. -/
def newOnes (known : String → Bool) : List String → List String
  | [] => []
  | name :: rest =>
    if known name then newOnes known rest
    else name :: newOnes (fun other => decide (name = other) || known other) rest

variable {known : String → Bool}

theorem newOnes_of_known {name : String} (h : known name = true) (rest : List String) :
    newOnes known (name :: rest) = newOnes known rest := by
  rw [newOnes, if_pos h]

theorem newOnes_of_new {name : String} (h : known name = false) (rest : List String) :
    newOnes known (name :: rest) =
      name :: newOnes (fun other => decide (name = other) || known other) rest := by
  rw [newOnes, if_neg (Bool.eq_false_iff.mp h)]

/-- After a host was added its name is known too. -/
theorem Allocated.newOnes_withHost {m : Mesh} {nd : Node} (hm : Allocated m)
    (h : knows m nd.name = false) (rest : List String) :
    newOnes (knows m) (nd.name :: rest) =
      nd.name :: newOnes (knows (HostEntries.withHost nd m)) rest := by
  rw [newOnes_of_new h, funext (hm.knows_withHost nd)]

theorem newOnes_length_le (known : String → Bool) (names : List String) :
    (newOnes known names).length ≤ names.length := by
  induction names generalizing known with
  | nil => exact Nat.le_refl 0
  | cons name rest ih =>
    rw [newOnes]
    split
    · exact Nat.le_succ_of_le (ih known)
    · exact Nat.succ_le_succ (ih _)

theorem newOnes_eq_nil_iff {names : List String} :
    newOnes known names = [] ↔ ∀ name ∈ names, known name = true := by
  induction names with
  | nil => simp [newOnes]
  | cons name rest ih =>
    rw [List.forall_mem_cons, newOnes]
    split
    · rename_i hknown
      rw [ih]
      exact ⟨fun h => ⟨hknown, h⟩, fun h => h.2⟩
    · rename_i hnew
      exact ⟨nofun, fun h => absurd h.1 hnew⟩

theorem newOnes_length_eq_iff {names : List String} :
    (newOnes known names).length = names.length ↔
      names.Nodup ∧ ∀ name ∈ names, known name = false := by
  induction names generalizing known with
  | nil => simp [newOnes]
  | cons name rest ih =>
    rw [List.forall_mem_cons, List.nodup_cons]
    cases hknown : known name with
    | true =>
      rw [newOnes_of_known hknown, List.length_cons]
      have hle := newOnes_length_le known rest
      exact ⟨fun h => absurd h (by omega), fun h => absurd h.2.1 nofun⟩
    | false =>
      rw [newOnes_of_new hknown, List.length_cons, List.length_cons, Nat.add_right_cancel_iff, ih]
      constructor
      · rintro ⟨hnodup, hnew⟩
        refine ⟨⟨?_, hnodup⟩, rfl, ?_⟩
        · intro hmem
          simpa using hnew name hmem
        · intro other hother
          exact (Bool.or_eq_false_iff.mp (hnew other hother)).2
      · rintro ⟨⟨hnot, hnodup⟩, -, hnew⟩
        refine ⟨hnodup, fun other hother => ?_⟩
        rw [hnew other hother, Bool.or_false]
        exact decide_eq_false fun heq => hnot (heq ▸ hother)

end New

end Meshlink.HostEntries
