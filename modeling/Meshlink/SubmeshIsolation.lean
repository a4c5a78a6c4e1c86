import Meshlink.EdgeEndpoints

/-!
Messages about edges stay within their submesh. Whether a message is originated,
sent as a correction or forwarded, a peer that belongs to a submesh is only told
about nodes of that submesh and of none.
-/
namespace Meshlink.SubmeshIsolation

open MeshState MeshEvents MeshView ViewGrowth EventMoves MeshRuns EdgeEndpoints Systems

/-- The node table has an entry for the name, and every entry for it is in the
submesh or in none. -/
def Within (table : List (String × Option String)) (name submesh : String) : Prop :=
  (∃ s, (name, s) ∈ table) ∧ ∀ s, (name, s) ∈ table → Visible s submesh

/-- A message about an edge on an activated connection names nodes that the peer
may know of. -/
def Isolated (x : Sent) : Prop :=
  ∀ a b, endpoints x.request = some (a, b) → ∀ submesh, x.active = true →
    x.peer = some (some submesh) → Within x.table a submesh ∧ Within x.table b submesh

/-- Names are unique, every edge starts at a known node and leads to a known one or
to one of the same name, and all messages so far are isolated. -/
structure Separate (v : View) : Prop where
  self : v.self ∈ v.nodes
  names : (v.nodes.map fun i => (v.node i).name).Nodup
  edges : ∀ k < v.nextEdge, (v.edge k).source ∈ v.nodes ∧ ((v.edge k).target ∈ v.nodes ∨
    (v.node (v.edge k).target).name = (v.node (v.edge k).source).name)
  sent : ∀ x, .sent x ∈ v.log → Isolated x

def relayRules : Rules :=
  {freeRules (fun _ => True) fun _ _ => trivial with forget := False, rename := False}

section Moves

variable {v w : View}

/-- The entry of a known node in the table. -/
theorem within_table (h : Separate v) {i : NodeId} (hi : i ∈ v.nodes) {submesh : String}
    (hvisible : Visible (v.node i).submesh submesh) :
    Within v.table (v.node i).name submesh := by
  refine ⟨⟨(v.node i).submesh, List.mem_map_of_mem hi⟩, ?_⟩
  intro s hs
  obtain ⟨j, hj, hentry⟩ := List.mem_map.mp hs
  obtain ⟨hname, hsubmesh⟩ := Prod.mk.inj hentry
  have hsame : j = i := List.inj_on_of_nodup_map h.names hj hi hname
  rw [← hsubmesh, hsame]
  exact hvisible

theorem isolated_of_tells (h : Separate v) {x : Sent} (hx : Tells v x) : Isolated x := by
  intro a b hnames submesh hactive hpeer
  obtain ⟨i, j, rfl, rfl, hlinked, hvisible⟩ := hx.named a b hnames
  obtain ⟨hi, hj⟩ := hvisible submesh hactive hpeer
  rw [hx.table]
  rcases hlinked with ⟨himem, hjmem⟩ | ⟨k, hk, rfl, rfl⟩
  · exact ⟨within_table h himem hi, within_table h hjmem hj⟩
  obtain ⟨hsource, htarget⟩ := h.edges k hk
  have hfirst := within_table h hsource hi
  refine ⟨hfirst, ?_⟩
  rcases htarget with hmem | hname
  · exact within_table h hmem hj
  · rw [hname]
    exact hfirst

theorem Separate.note (h : Separate v) (effect : Effect)
    (heffect : ∀ x, effect = .sent x → Isolated x) : Separate (v.note effect) := by
  refine {h with sent := ?_}
  intro x hx
  rcases List.mem_append.mp hx with hold | hlast
  · exact h.sent x hold
  · exact heffect x (List.mem_singleton.mp hlast).symm

/-- Edges keep their ends and nodes their names, so only new ones matter. -/
theorem edges_of_grows (hv : Sane v) (h : Separate v) (hgrows : Grows v w) {k : EdgeId}
    (hk : k < v.nextEdge) : (w.edge k).source ∈ w.nodes ∧ ((w.edge k).target ∈ w.nodes ∨
      (w.node (w.edge k).target).name = (w.node (w.edge k).source).name) := by
  obtain ⟨hsource, htarget⟩ := h.edges k hk
  obtain ⟨hslt, htlt⟩ := hv.ends k hk
  rw [hgrows.edge k hk]
  refine ⟨hgrows.nodes _ hsource, ?_⟩
  rcases htarget with hmem | hname
  · exact Or.inl (hgrows.nodes _ hmem)
  · right
    rw [hgrows.name _ hslt, hgrows.name _ htlt]
    exact hname

theorem Separate.of_same (hv : Sane v) (h : Separate v) (hgrows : Grows v w)
    (hnodes : w.nodes = v.nodes) (hedges : w.nextEdge = v.nextEdge) (hlog : w.log = v.log) :
    Separate w where
  self := by
    rw [hgrows.self]
    exact hgrows.nodes _ h.self
  names := names_of_same hv hgrows hnodes h.names
  edges := by
    intro k hk
    exact edges_of_grows hv h hgrows (hedges ▸ hk)
  sent := by
    rw [hlog]
    exact h.sent

theorem Separate.addNode (hv : Sane v) (h : Separate v) (core : NodeCore) :
    Separate (v.addNode core) where
  self := (Grows.addNode v core).nodes _ h.self
  names := names_addNode hv core h.names
  edges := fun _ hk => edges_of_grows hv h (Grows.addNode v core) hk
  sent := h.sent

theorem Separate.addEdge (hv : Sane v) (h : Separate v) (e : EdgeCore)
    (hjoins : Joins relayRules v e) : Separate (v.addEdge e) := by
  have hgrows := Grows.addEdge v e
  have hsame : (v.addEdge e).nextEdge = v.nextEdge + 1 ∧ (v.addEdge e).log = v.log :=
    View.addEdge_ind (P := fun w => w.nextEdge = v.nextEdge + 1 ∧ w.log = v.log) ⟨rfl, rfl⟩
      fun _ _ _ hw => hw
  obtain ⟨hslt, htlt⟩ := hv.joins_lt hjoins
  refine ⟨?_, names_of_same hv hgrows (View.addEdge_nodes v e) h.names, ?_, ?_⟩
  · rw [hgrows.self]
    exact hgrows.nodes _ h.self
  · intro k hk
    rw [hsame.1] at hk
    rcases Nat.lt_succ_iff_lt_or_eq.mp hk with hold | hlast
    · exact edges_of_grows hv h hgrows hold
    rw [hlast, (addEdge_edge v e).2]
    constructor
    · rcases hjoins.1 with hmem | hself
      · exact hgrows.nodes _ hmem
      · exact hself ▸ hgrows.nodes _ h.self
    · rcases hjoins.2.2 with hmem | ⟨_, hname⟩
      · exact Or.inl (hgrows.nodes _ hmem)
      · right
        rw [hgrows.name _ hslt, hgrows.name _ htlt]
        exact hname
  · rw [hsame.2]
    exact h.sent

theorem Separate.of_move (hv : Sane v) (h : Separate v) (hmove : Move relayRules v w) :
    Separate w := by
  have hset : ∀ i core, core.name = (v.node i).name → core.submesh = (v.node i).submesh →
      Separate (v.setNode i core) := fun i core hname hsubmesh =>
    h.of_same hv (Grows.setNode v i core hname hsubmesh) rfl rfl rfl
  have hnote : ∀ u effect, Separate u → (∀ x, effect ≠ .sent x) → Separate (u.note effect) :=
    fun u effect hu hne => hu.note effect fun x heq => absurd heq (hne x)
  cases hmove with
  | addNode core => exact h.addNode hv core
  | commit core => exact hnote _ _ (h.addNode hv core) (by simp)
  | addEdge e hjoins => exact h.addEdge hv e hjoins
  | delEdge k => exact hset _ _ rfl rfl
  | flip i =>
    exact View.flip_ind (hset i _ rfl rfl) fun _ _ hw => hnote _ _ hw (by simp)
  | unmark i =>
    exact View.unmark_ind (hset i _ rfl rfl) fun _ _ hw => hnote _ _ hw (by simp)
  | mark i => exact hset i _ rfl rfl
  | detach i => exact hset i _ rfl rfl
  | attach c i =>
    have hnode : Separate (v.setNode i {v.node i with connection := some c}) := hset i _ rfl rfl
    exact {hnode with}
  | send x hx =>
    apply h.note
    intro y hy
    cases hy
    exact isolated_of_tells h hx
  | hand =>
    apply hnote _ _ _ (by simp)
    exact {h with}
  | gone | received | channel | raw | stored => exact hnote _ _ h (by simp)
  | _ => exact {h with}

theorem separate_of_act (hv : Ready relayRules v) (h : Separate v) (hact : Act relayRules v w) :
    Separate w := by
  cases hact with
  | move hmove => exact h.of_move hv.toSane hmove
  | start => exact {h with}
  | forget _ hno => exact absurd hno fun hno => hno
  | rename _ _ hno => exact absurd hno fun hno => hno

end Moves

section Runs

theorem allows_of_keepsNodes {m : Mesh} {ev : Event} (hev : keepsNodes ev = true) :
    Allows relayRules m ev := by
  apply allows_of_calls ⟨trivial, trivial, fun _ => trivial, trivial, fun _ => trivial⟩
  · exact calls_of_any (fun _ => trivial) trivial
  · exact fun _ => trivial
  · intro hforget
    obtain ⟨i, channels, rfl⟩ := hforget
    exact Bool.false_ne_true hev
  · intro hjoin
    obtain ⟨peer, payload, rfl⟩ := hjoin
    exact Bool.false_ne_true hev

theorem separate_of_opened {m : Mesh} (h : Opened m) : Separate (view m) where
  self := h.self
  names := h.names
  edges := by
    intro k hk
    exact absurd (h.nextEdge ▸ hk) (Nat.not_lt_zero k)
  sent := by
    intro x hx
    rw [show (view m).log = [] from h.log] at hx
    exact absurd hx List.not_mem_nil

/-- Every message about an edge on an activated connection with a peer in a submesh
names nodes of that submesh or of none, by the node table at that moment. -/
theorem edge_messages_isolated {p : Params} {m : Mesh} {evs : List Event} (hm : Opened m)
    (hevs : ∀ ev ∈ evs, keepsNodes ev = true) :
    ∀ x, .sent x ∈ (run p m evs).log → Isolated x := by
  have hready : Ready relayRules (view m) := ⟨sane_of_opened hm, Or.inl trivial⟩
  have hrun : Along (step p) (fun _ ev => keepsNodes ev = true) m evs := along_of_forall hevs
  have hend := kept_run (fun _ _ => separate_of_act) (fun _ _ hev _ _ => allows_of_keepsNodes hev)
    hready (separate_of_opened hm) hrun
  exact hend.2.sent

/-- A request about an edge from a node of a submesh to one outside of submeshes. -/
def submeshEdge (fromName submesh toName : String) : Request :=
  .addEdge ⟨0, fromName, 1, submesh, toName, "10.0.0.1", "655", 1, coreMesh, 1, 0, 1⟩

/-- One peer tells of a node b in a submesh, b connects, and the peer goes on to tell
of a node outside of submeshes and of one in another submesh. -/
def twoSubmeshes : List Event :=
  connected "peer" ++
  [.arrive 0 false (.record (submeshEdge "b" "s" "peer")), .accept (.inet 0x0a000003 655),
    .arrive 1 false (.line (.id "b" 17 3 0)), .arrive 1 false .handshake,
    .arrive 1 false (.record (.ack "655" 1 0)), .arrive 0 false (.record (coreEdge "x" "peer")),
    .arrive 0 false (.record (submeshEdge "c" "t" "peer"))]

/-- Whether the effect is a message about an edge with that node, sent to a peer in
the submesh. -/
def tellsOf (submesh name : String) : Effect → Bool
  | .sent x => x.active && x.peer == some (some submesh) &&
    (endpoints x.request).any fun (a, b) => a == name || b == name
  | _ => false

theorem edge_messages_isolated_two_submeshes :
    let m := run plainParams (newMesh "self") twoSubmeshes
    m.log.any (tellsOf "s" "x") = true ∧ m.log.any (tellsOf "s" "c") = false ∧
      ∀ x, .sent x ∈ m.log → Isolated x :=
  ⟨by decide +kernel, by decide +kernel,
    edge_messages_isolated (opened_newMesh (by decide)) (by decide +kernel)⟩

end Runs

end Meshlink.SubmeshIsolation
