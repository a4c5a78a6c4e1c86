import Meshlink.MeshRuns

/-!
The names of nodes and the paths of their host files. A host file is stored under
the name of its node, so a name that does not pass check_id can lead out of the
directory. The names in ADD_EDGE requests and in calls by name are not checked;
all other ways in which a node gets its name check it.
-/
namespace Meshlink.NodeNames

open MeshState MetaHandlers MeshEvents MeshView ViewGrowth EventMoves MeshRuns Systems

section Paths

/-- The parts of a path between its slashes. -/
def pathParts : List Char → List (List Char)
  | [] => [[]]
  | c :: rest =>
    if c = '/' then [] :: pathParts rest
    else
      match pathParts rest with
      | [] => [[c]]
      | part :: parts => (c :: part) :: parts

/-- One step of following a path from a directory, which is given by its names
from the innermost outwards. -/
def enter (directory : List (List Char)) (part : List Char) : List (List Char) :=
  if part = [] ∨ part = ['.'] then directory
  else if part = ['.', '.'] then directory.tail
  else part :: directory

/-- Where the path that make_host_path builds from a name ends, seen from the
directory of the host files. -/
def hostFile (hosts : List (List Char)) (name : String) : List (List Char) :=
  (pathParts name.toList).foldl enter hosts

theorem pathParts_of_no_slash {cs : List Char} (h : '/' ∉ cs) : pathParts cs = [cs] := by
  induction cs with
  | nil => rfl
  | cons c rest ih =>
    have hc : c ≠ '/' := fun heq => h (heq ▸ List.mem_cons_self)
    have hrest := ih fun hmem => h (List.mem_cons_of_mem c hmem)
    simp [pathParts, hc, hrest]

theorem not_mem_of_checkId {name : String} (h : checkId name = true) {c : Char}
    (hc : (c.isAlphanum || c == '_' || c == '-') = false) : c ∉ name.toList := by
  intro hmem
  simp only [checkId, Bool.and_eq_true, List.all_eq_true] at h
  exact absurd ((h.2 c hmem).symm.trans hc) (by decide)

/-- The host file of a valid name is in the directory of the host files itself. -/
theorem hostFile_of_checkId {name : String} (h : checkId name = true) (hosts : List (List Char)) :
    hostFile hosts name = name.toList :: hosts := by
  have hslash : '/' ∉ name.toList := not_mem_of_checkId h (by decide)
  have hdot : '.' ∉ name.toList := not_mem_of_checkId h (by decide)
  have hempty : name.toList ≠ [] := by
    intro hnil
    have hname : name = "" := String.toList_eq_nil_iff.mp hnil
    simp [checkId, hname] at h
  have hself : name.toList ≠ ['.'] := fun heq => hdot (by simp [heq])
  have hparent : name.toList ≠ ['.', '.'] := fun heq => hdot (by simp [heq])
  unfold hostFile
  rw [pathParts_of_no_slash hslash]
  simp [enter, hempty, hself, hparent]

end Paths

/-- Every name is valid: those of nodes, of connections that have been identified,
of invitations and of the host files that were written. -/
structure Proper (v : View) : Prop where
  nodes : ∀ i < v.nextNode, checkId (v.node i).name = true
  conns : ∀ c < v.nextConn, checkId (v.conn c).name = true ∨
    (admitted (v.conn c).allowRequest .ack = false ∧ (v.conn c).invitationUsed = false)
  invited : ∀ inv ∈ v.invitations, checkId inv.nodeName = true
  stored : ∀ name, .stored name ∈ v.log → checkId name = true

def nameRules : Rules := freeRules (fun name => checkId name = true) fun _ h => h

section Moves

variable {v w : View}

theorem Proper.setNode (h : Proper v) (i : NodeId) (core : NodeCore)
    (hname : checkId (v.node i).name = true → checkId core.name = true) :
    Proper (v.setNode i core) := by
  refine {h with nodes := ?_}
  intro j hj
  rw [View.setNode_node]
  split
  · rename_i heq
    exact hname (h.nodes i (heq ▸ hj))
  · exact h.nodes j hj

theorem Proper.setConn (h : Proper v) (c : ConnId) (core : ConnCore)
    (hconn : c < v.nextConn → checkId core.name = true ∨
      (admitted core.allowRequest .ack = false ∧ core.invitationUsed = false)) :
    Proper (v.setConn c core) := by
  refine {h with conns := ?_}
  intro d hd
  rw [View.setConn_conn]
  split
  · rename_i heq
    exact hconn (heq ▸ hd)
  · exact h.conns d hd

theorem Proper.note (h : Proper v) (effect : Effect)
    (heffect : ∀ name, effect = .stored name → checkId name = true) : Proper (v.note effect) := by
  refine {h with stored := ?_}
  intro name hname
  rcases List.mem_append.mp hname with hold | hlast
  · exact h.stored name hold
  · exact heffect name (List.mem_singleton.mp hlast).symm

theorem Proper.addNode (h : Proper v) (core : NodeCore) (hname : checkId core.name = true) :
    Proper (v.addNode core) := by
  refine {h with nodes := ?_}
  exact forall_lt_update (P := fun _ (core : NodeCore) => checkId core.name = true) hname h.nodes

theorem Proper.discard (h : Proper v) (cookie : String) : Proper (v.discard cookie) := by
  refine {h with invited := ?_}
  intro inv hinv
  exact h.invited inv (List.mem_filter.mp hinv).1

theorem Proper.of_move (h : Proper v) (hmove : Move nameRules v w) : Proper w := by
  have hnote : ∀ u effect, Proper u → (∀ name, effect ≠ .stored name) → Proper (u.note effect) :=
    fun u effect hu hne => hu.note effect fun name heq => absurd heq (hne name)
  have hconn : ∀ c core, core.name = (v.conn c).name →
      core.allowRequest = (v.conn c).allowRequest →
      core.invitationUsed = (v.conn c).invitationUsed → Proper (v.setConn c core) := by
    intro c core hname hallow hused
    apply h.setConn
    intro hc
    rw [hname, hallow, hused]
    exact h.conns c hc
  cases hmove with
  | addNode core hname => exact h.addNode core hname
  | commit core key hname => exact hnote _ _ (h.addNode core hname) (by simp)
  | addEdge e => exact View.addEdge_ind {h with} fun _ i _ hw => hw.setNode i _ fun hname => hname
  | delEdge k => exact h.setNode _ _ fun hname => hname
  | flip i =>
    apply View.flip_ind (h.setNode i _ fun hname => hname)
    exact fun _ _ hw => hnote _ _ hw (by simp)
  | unmark i =>
    apply View.unmark_ind (h.setNode i _ fun hname => hname)
    exact fun _ _ hw => hnote _ _ hw (by simp)
  | mark i => exact h.setNode i _ fun hname => hname
  | detach i => exact h.setNode i _ fun hname => hname
  | stored name hname =>
    apply h.note
    intro other heq
    cases heq
    rcases hname with hvalid | ⟨i, hi, rfl⟩
    · exact hvalid
    · exact h.nodes i hi
  | call c name hname => exact h.setConn c _ fun _ => Or.inl hname
  | allow c reqno hname =>
    apply h.setConn
    intro hc
    rcases hname with hmetakey | hvalid
    · rcases h.conns c hc with hvalid | ⟨_, hunused⟩
      · exact Or.inl hvalid
      · exact Or.inr ⟨by rw [hmetakey]; rfl, hunused⟩
    · exact Or.inl hvalid
  | use c hname => exact h.setConn c _ fun _ => Or.inl hname
  | attach c i _ _ _ hname =>
    unfold View.attach
    apply Proper.setConn
    · exact h.setNode i _ fun hn => hn
    · exact fun _ => Or.inl hname
  | shut c | deactivate c | setEdge c => exact hconn c _ rfl rfl rfl
  | addConn core _ _ hallow =>
    refine {h with conns := ?_}
    intro c hc
    rw [View.addConn_conn]
    split
    · exact Or.inr ⟨by rw [hallow.1]; rfl, hallow.2⟩
    · rename_i hne
      exact h.conns c (Nat.lt_of_le_of_ne (Nat.le_of_lt_succ hc) hne)
  | delConn => exact {h with}
  | invite inv hname =>
    refine {h with invited := ?_}
    intro other hother
    rcases List.mem_append.mp hother with hold | hlast
    · exact (h.discard inv.cookie).invited other hold
    · rw [List.mem_singleton.mp hlast]
      exact hname
  | discard cookie => exact h.discard cookie
  | hand c inv => exact hnote _ _ (h.discard inv.cookie) (by simp)
  | gone | send | received | channel | raw => exact hnote _ _ h (by simp)

theorem Proper.of_act (h : Proper v) (hact : Act nameRules v w) : Proper w := by
  cases hact with
  | move hmove => exact h.of_move hmove
  | start => exact {h with}
  | forget i =>
    have hdrop : Proper {v with
        nodes := v.nodes.filter fun j => (v.node j).name ≠ (v.node i).name} := {h with}
    exact hdrop.note _ fun _ heq => absurd heq (by simp)
  | rename name submesh _ hname => exact h.setNode _ _ fun _ => hname

end Moves

section Runs

/-- The names that an ADD_EDGE request or a call by name brings in are valid. -/
def Checked (m : Mesh) (ev : Event) : Prop :=
  (∀ r ∈ addEdgeOf ev, (lookupNode m r.fromName = none → checkId r.fromName = true) ∧
    (lookupNode m r.toName = none → checkId r.toName = true)) ∧
  ∀ name ∈ namedBy ev, lookupNode m name = none → checkId name = true

instance (m : Mesh) (ev : Event) : Decidable (Checked m ev) :=
  inferInstanceAs (Decidable ((∀ r ∈ addEdgeOf ev, _) ∧ ∀ name ∈ namedBy ev, _))

theorem allows_of_checked {m : Mesh} {ev : Event} (hm : Sane (view m)) (hproper : Proper (view m))
    (h : Checked m ev) : Allows nameRules m ev := by
  apply allows_of_calls ⟨trivial, trivial, fun _ => trivial, trivial, fun _ => trivial⟩ _
    (fun _ => trivial) (fun _ => trivial) fun _ => trivial
  have hconns := fun c hc => hproper.conns c (hm.listed c hc)
  refine ⟨?_, ?_, ?_, hproper.invited, h.2⟩
  · intro r hr
    exact ⟨(h.1 r hr).1, (h.1 r hr).2, fun _ _ => trivial⟩
  · intro c hc hack
    rcases hconns c hc with hvalid | hnot
    · exact hvalid
    · exact absurd (hnot.1.symm.trans hack) Bool.false_ne_true
  · intro c hc hused
    rcases hconns c hc with hvalid | hnot
    · exact hvalid
    · exact absurd (hnot.2.symm.trans hused) Bool.false_ne_true

theorem proper_of_opened {m : Mesh} (h : Opened m) : Proper (view m) where
  nodes := fun i hi => h.valid i ((h.known i).mpr hi)
  conns := by
    intro c hc
    exact absurd (h.nextConn ▸ hc) (Nat.not_lt_zero c)
  invited := h.invitees
  stored := by
    intro name hname
    rw [show (view m).log = [] from h.log] at hname
    exact absurd hname List.not_mem_nil

/-- As long as ADD_EDGE requests and calls by name only bring in valid names, every
node has a valid name, and host files stay in their directory. -/
theorem names_valid_along {p : Params} {m : Mesh} {evs : List Event} (hm : Opened m)
    (hrun : Along (step p) Checked m evs) :
    (∀ i ∈ (run p m evs).nodes, checkId ((run p m evs).node i).name = true) ∧
      (∀ i ∈ (run p m evs).nodes, ∀ hosts, hostFile hosts ((run p m evs).node i).name =
        ((run p m evs).node i).name.toList :: hosts) ∧
      ∀ name, .stored name ∈ (run p m evs).log → ∀ hosts,
        hostFile hosts name = name.toList :: hosts := by
  have hready : Ready nameRules (view m) := ⟨sane_of_opened hm, Or.inl trivial⟩
  obtain ⟨hsane, hproper⟩ := kept_run (fun _ _ _ h hact => h.of_act hact)
    (fun _ _ hev hm hproper => allows_of_checked hm.toSane hproper hev) hready
    (proper_of_opened hm) hrun
  have hvalid : ∀ i ∈ (run p m evs).nodes, checkId ((run p m evs).node i).name = true :=
    fun i hi => hproper.nodes i (hsane.nodes_lt i hi)
  refine ⟨hvalid, fun i hi => hostFile_of_checkId (hvalid i hi), ?_⟩
  intro name hname
  exact hostFile_of_checkId (hproper.stored name hname)

theorem names_valid_new_edge :
    let m := run plainParams (newMesh "self")
      (connected "peer" ++ [.arrive 0 false (.record (coreEdge "peer" "x-1"))])
    (∀ i ∈ m.nodes, checkId (m.node i).name = true) ∧
      (∀ i ∈ m.nodes, ∀ hosts, hostFile hosts (m.node i).name =
        (m.node i).name.toList :: hosts) ∧
      ∀ name, .stored name ∈ m.log → ∀ hosts, hostFile hosts name = name.toList :: hosts :=
  names_valid_along (opened_newMesh (by decide)) (by decide +kernel)

/-- A peer brings in a node whose name leads out of the directory, and the host
file of that node is written when it becomes reachable. -/
theorem edge_name_leaves_hosts :
    let m := run plainParams (newMesh "self") (connected "peer" ++
      [.arrive 0 false (.record (coreEdge "peer" "self")),
        .arrive 0 false (.record (coreEdge "peer" "../x")),
        .arrive 0 false (.record (coreEdge "../x" "peer"))])
    Opened (newMesh "self") ∧ (∃ i ∈ m.nodes, checkId (m.node i).name = false) ∧
      .stored "../x" ∈ m.log ∧ ∀ hosts, hostFile hosts "../x" = ['x'] :: hosts.tail := by
  refine ⟨opened_newMesh (by decide), by decide +kernel, by decide +kernel, ?_⟩
  intro hosts
  rfl

end Runs

end Meshlink.NodeNames
