import Meshlink.MeshGraph
import Meshlink.ViewGrowth

/-!
The functions of the node table, the edges and the graph, by the moves that they
make. Most of them only change what a view does not show.
-/
namespace Meshlink.MeshMoves

open Commands MeshState MeshGraph MeshView ViewGrowth Relation
open Function hiding update

variable {α β : Type} (i : NodeId)

section Rules

variable {R : Rules} {m : Mesh}

variable {x : Command Mesh α} {f : α → Command Mesh β}

def Step (R : Rules) (m n : Mesh) : Prop := ReflTransGen (Move R) (view m) (view n)

/-- Running the command from `m` changes the view by moves that the rules allow. -/
abbrev Moves (R : Rules) (x : Command Mesh α) (m : Mesh) : Prop := Reaches (Step R) x m

theorem Moves.step (h : Moves R x m) : Step R m (after x m) := by
  have hlast : ∀ n n', Step R m n → Step R n n' → Step R m n' :=
    fun _ _ hsofar hnext => hsofar.trans hnext
  exact kept_by_steps hlast h ReflTransGen.refl

theorem Moves.of_step (h : Step R m (after x m)) : Moves R x m := ReflTransGen.single h

theorem Moves.of_move {w : View} (hview : view (after x m) = w)
    (hmove : Move R (view m) w) : Moves R x m := by
  apply Moves.of_step
  unfold Step
  rw [hview]
  exact ReflTransGen.single hmove

theorem Moves.of_leaves (hx : Leaves view x) : Moves R x m := by
  apply Moves.of_step
  unfold Step
  rw [hx m]

/-- The moves up to the state in which the command returns. -/
theorem Moves.returned {a : α} {m' : Mesh} (h : Moves R x m)
    (hx : x m = (some a, m')) : ReflTransGen (Move R) (view m) (view m') := by
  have hstep := h.step
  unfold Step after at hstep
  rw [hx] at hstep
  exact hstep

theorem Moves.ready {a : α} {m' : Mesh} (h : Moves R x m)
    (hx : x m = (some a, m')) (hm : Ready R (view m)) : Ready R (view m') :=
  hm.of_moves (h.returned hx)

theorem Moves.grows {a : α} {m' : Mesh} (h : Moves R x m)
    (hx : x m = (some a, m')) : Grows (view m) (view m') :=
  Grows.of_moves (h.returned hx)

/-- What every move keeps holds after the command. -/
theorem Moves.keeps {I : View → Prop} (hI : ∀ v w, Ready R v → I v → Move R v w → I w)
    {x : Command Mesh α} (h : Moves R x m) (hm : Ready R (view m)) (hi : I (view m)) :
    Ready R (view (after x m)) ∧ I (view (after x m)) := by
  have hboth : ∀ v w, (Ready R v ∧ I v) → Move R v w → Ready R w ∧ I w :=
    fun v w hv hmove => ⟨hv.1.of_move hmove, hI v w hv.1 hv.2 hmove⟩
  exact kept_by_steps hboth h.step ⟨hm, hi⟩

/-- The second command starts in a view that has grown from the first one. -/
theorem Moves.bind (hm : Ready R (view m)) (hx : Moves R x m)
    (hf : ∀ a m', x m = (some a, m') → Ready R (view m') → Grows (view m) (view m') →
      Moves R (f a) m') : Moves R (x >>= f) m :=
  Reaches.bind hx fun a m' hxm => hf a m' hxm (hx.ready hxm hm) (hx.grows hxm)

/-- After a command that leaves the view, only the rest of the state is new. -/
theorem Moves.leaves_bind (hx : Leaves view x)
    (hf : ∀ a m', x m = (some a, m') → view m' = view m → Moves R (f a) m') :
    Moves R (x >>= f) m := by
  apply Reaches.bind (Moves.of_leaves hx)
  intro a m' hxm
  apply hf a m' hxm
  have hview := hx m
  unfold after at hview
  rw [hxm] at hview
  exact hview

theorem Moves.through (hf : ∀ a m', x m = (some a, m') → Step R m (after (f a) m'))
    (hstop : ∀ m', x m = (none, m') → Step R m m') : Moves R (x >>= f) m :=
  Reaches.through (fun a m' hx => ReflTransGen.single (hf a m' hx))
    fun m' hx => ReflTransGen.single (hstop m' hx)

theorem Moves.forEach {xs : List α} {f : α → Command Mesh Unit} (hm : Ready R (view m))
    (hf : ∀ a ∈ xs, ∀ m', Ready R (view m') → Grows (view m) (view m') → Moves R (f a) m') :
    Moves R (Commands.forEach xs f) m := by
  suffices h : ∀ m', Ready R (view m') → Grows (view m) (view m') →
      Moves R (Commands.forEach xs f) m' from h m hm (Grows.refl _)
  induction xs with
  | nil => exact fun m' _ _ => Reaches.pure () m'
  | cons a rest ih =>
    intro m' hm' hgrows
    apply Moves.bind hm' (hf a List.mem_cons_self m' hm' hgrows)
    intro _ m'' _ hm'' hgrows'
    exact ih (fun b hb => hf b (List.mem_cons_of_mem a hb)) m'' hm'' (hgrows.trans hgrows')

end Rules

section Leaving

theorem leaves_attempt (p : Params) (op : Op) : Leaves view (attempt p op) := fun _ => rfl

theorem leaves_prng (p : Params) : Leaves view (prng p) := fun _ => rfl

theorem leaves_modifyNode {f : Node → Node}
    (hf : ∀ nd, (f nd).toNodeCore = nd.toNodeCore) : Leaves view (modifyNode i f) := by
  intro m
  exact congrArg (fun node => {view m with node := node}) (seen_update (hf (m.node i)))

theorem leaves_modifyEdge (k : EdgeId) {f : Edge → Edge}
    (hf : ∀ e, (f e).toEdgeCore = e.toEdgeCore) : Leaves view (modifyEdge k f) := by
  intro m
  exact congrArg (fun edge => {view m with edge := edge}) (seen_update (hf (m.edge k)))

theorem leaves_modifyConn (c : ConnId) {f : Conn → Conn}
    (hf : ∀ cn, (f cn).toConnCore = cn.toConnCore) : Leaves view (modifyConn c f) := by
  intro m
  exact congrArg (fun conn => {view m with conn := conn}) (seen_update (hf (m.conn c)))

/-- The view is this one. -/
def Shows (v : View) (m : Mesh) : Prop := view m = v

/-- A node that has been visited stays so. -/
class Stays (visited : Node → Bool) : Prop where
  stays : ∀ nd, nd.visited = true → visited nd = true

instance : Stays fun nd => nd.visited := ⟨fun _ h => h⟩

instance : Stays fun _ => true := ⟨fun _ _ => rfl⟩

/-- The update of a node does not show in a view, and a visited node stays visited. -/
class Calm (f : Node → Node) : Prop where
  core : ∀ nd, (f nd).toNodeCore = nd.toNodeCore
  visited : ∀ nd, nd.visited = true → (f nd).visited = true

instance : Calm fun nd => nd := ⟨fun _ => rfl, fun _ h => h⟩

instance {q : Node → Prop} [DecidablePred q] {f g : Node → Node} [hf : Calm f] [hg : Calm g] :
    Calm fun nd => if q nd then f nd else g nd where
  core nd := by
    split
    · exact hf.core nd
    · exact hg.core nd
  visited nd h := by
    split
    · exact hf.visited nd h
    · exact hg.visited nd h

-- an update that leaves the core alone is found calm by matching it against this record
instance {a b v c d e f g : Node → Bool} [hv : Stays v] {devclass last r u dist : Node → ℤ}
    {sessionId : Node → ℕ} {sptps : Node → Session} {address : Node → Sockaddr}
    {key : Node → Option Bytes} {x y : Node → Option String} {recent : Node → List Sockaddr}
    {hop : Node → Option NodeId} {prev : Node → Option EdgeId} :
    Calm fun nd => ⟨nd.toNodeCore, a nd, b nd, v nd, c nd, d nd, e nd, f nd, devclass nd,
      sessionId nd, sptps nd, address nd, g nd, last nd, key nd, x nd, y nd, recent nd, r nd,
      u nd, dist nd, hop nd, prev nd⟩ :=
  ⟨fun _ => rfl, hv.stays⟩

/-- What calm updates, the cache of addresses and the history do not change. -/
class Inert (I : Mesh → Prop) : Prop where
  modify : ∀ i (f : Node → Node) [Calm f], Keeps I (modifyNode i f)
  cache : ∀ m udpCache newcomers, I m → I {m with udpCache := udpCache, newcomers := newcomers}

instance (v : View) : Inert (Shows v) where
  modify i _ hf m h := (leaves_modifyNode i hf.core m).trans h
  cache _ _ _ h := h

section Inert

variable {E I : Mesh → Prop} [hI : Inert I] (p : Params) (i : NodeId)

instance (f : Node → Node) [Calm f] : Keeping E I (modifyNode i f) := ⟨hI.modify i f⟩

instance (sa : Sockaddr) (value : Option NodeId) : Keeping E I (cacheAddress p sa value) :=
  ⟨Keeps.update _ fun m h => hI.cache m _ m.newcomers h⟩

instance (sa : Sockaddr) : Keeping E I (nodeAddRecentAddress i sa) := by
  unfold nodeAddRecentAddress
  infer_instance

instance (sa : Option Sockaddr) : Keeping E I (updateNodeUdp p i sa) := by
  unfold updateNodeUdp
  cases sa with
  | none => infer_instance
  | some sa => infer_instance

instance (reachable : Bool) (sa : Sockaddr) : Keeping E I (takeAddress p i reachable sa) := by
  have hnote : Keeping E I (update fun m => {m with newcomers := m.newcomers ++ [(i, sa)]}) :=
    ⟨Keeps.update _ fun m h => hI.cache m m.udpCache _ h⟩
  unfold takeAddress
  infer_instance

instance (k : EdgeId) : Keeping E I (visitEdge p i k) := by
  unfold visitEdge
  infer_instance

instance : Keeping E I (checkSession i) := by
  unfold checkSession
  refine Keeping.of_bind fun m => ?_
  split <;> infer_instance

end Inert

theorem leaves_of_keeping {x : Command Mesh α} [h : ∀ v, Keeping (Shows v) (Shows v) x] :
    Leaves view x :=
  fun m => (h (view m)).keeps.after m rfl

theorem leaves_linkReverse (k : EdgeId) (r : Option EdgeId) : Leaves view (linkReverse k r) := by
  cases r with
  | none => exact Leaves.pure ()
  | some r =>
    refine Leaves.bind (leaves_modifyEdge k fun _ => rfl) fun _ => ?_
    exact leaves_modifyEdge r fun _ => rfl

theorem leaves_unlinkReverse (r : Option EdgeId) : Leaves view (unlinkReverse r) := by
  cases r with
  | none => exact Leaves.pure ()
  | some r => exact leaves_modifyEdge r fun _ => rfl

theorem leaves_lookupOrCreateSubmesh (name : String) :
    Leaves view (lookupOrCreateSubmesh name) := by
  apply Leaves.ite (Leaves.pure none)
  apply Leaves.ite (Leaves.pure none)
  apply Leaves.bind
  · apply Leaves.update
    intro m
    split
    · rfl
    · rfl
  · intro _
    exact Leaves.pure _

end Leaving

section Changes

variable {R : Rules} (m : Mesh) (k : EdgeId)

theorem view_modifyNode (i : NodeId) (f : Node → Node) :
    view (after (modifyNode i f) m) = (view m).setNode i (f (m.node i)).toNodeCore :=
  congrArg (fun node => {view m with node := node})
    (comp_update Node.toNodeCore m.node i _)

theorem view_modifyConn (c : ConnId) (f : Conn → Conn) :
    view (after (modifyConn c f) m) = (view m).setConn c (f (m.conn c)).toConnCore :=
  congrArg (fun conn => {view m with conn := conn})
    (comp_update Conn.toConnCore m.conn c _)

theorem view_nodeAdd (nd : Node) : view (after (nodeAdd nd) m) = (view m).addNode nd.toNodeCore :=
  congrArg (fun node => {(view m).addNode nd.toNodeCore with node := node})
    (comp_update Node.toNodeCore m.node _ nd)

theorem view_connectionAdd (cn : Conn) :
    view (after (connectionAdd cn) m) = (view m).addConn cn.toConnCore :=
  congrArg (fun conn => {(view m).addConn cn.toConnCore with conn := conn})
    (comp_update Conn.toConnCore m.conn _ cn)

/-- A new edge before it is in the tree of its source. -/
theorem view_allocate (e : Edge) :
    view {m with edge := Function.update m.edge m.nextEdge e, nextEdge := m.nextEdge + 1} =
      (view m).newEdge e.toEdgeCore :=
  congrArg (fun edge => {(view m).newEdge e.toEdgeCore with edge := edge})
    (comp_update Edge.toEdgeCore m.edge _ e)

theorem linkReverse_returns (r : Option EdgeId) (m : Mesh) : (linkReverse k r m).1 = some () := by
  cases r with
  | none => rfl
  | some r => rfl

/-- The state of edge_add between the allocation of an edge and its insertion into
the tree of its source. -/
theorem view_register :
    view (if m.edges.any (edgeWeightCompare m k) then m else {m with edges := m.edges ++ [k]}) =
      view m := by
  split
  · rfl
  · rfl

theorem view_insertEdge (i j : NodeId) (he : ((view m).edge k) = ⟨i, j⟩) :
    view (after (when (lookupEdge m i j).isNone (modifyNode i fun nd =>
      {nd with edgeTree := nd.edgeTree ++ [k]})) m) = (view m).insertEdge k := by
  unfold View.insertEdge
  rw [he]
  dsimp only
  cases hlookup : lookupEdge m i j with
  | none =>
    rw [if_neg (by simp [show (view m).lookupEdge i j = none from hlookup])]
    exact view_modifyNode m i fun nd => {nd with edgeTree := nd.edgeTree ++ [k]}
  | some a =>
    rw [if_pos (by simp [show (view m).lookupEdge i j = some a from hlookup])]
    rfl

theorem when_returns (c : Bool) (f : Mesh → Mesh) (m : Mesh) :
    when c (update f) m = (some (), after (when c (update f)) m) := by
  cases c with
  | true => rfl
  | false => rfl

/-- Adding an edge returns its number and puts it into the tree of its source. -/
theorem edgeAdd_returns (e : Edge) :
    ∃ m', edgeAdd e m = (some m.nextEdge, m') ∧ view m' = (view m).addEdge e.toEdgeCore := by
  set m₁ : Mesh := {m with edge := Function.update m.edge m.nextEdge e, nextEdge := m.nextEdge + 1}
  set m₂ : Mesh :=
    if m₁.edges.any (edgeWeightCompare m₁ m.nextEdge) then m₁
    else {m₁ with edges := m₁.edges ++ [m.nextEdge]} with hm₂
  have hview₂ : view m₂ = (view m).newEdge e.toEdgeCore :=
    (view_register m₁ m.nextEdge).trans (view_allocate m e)
  set insert := when (lookupEdge m₂ e.source e.target).isNone (modifyNode e.source fun nd =>
    {nd with edgeTree := nd.edgeTree ++ [m.nextEdge]})
  have hview₃ : view (after insert m₂) = (view m).addEdge e.toEdgeCore := by
    unfold View.addEdge
    rw [← hview₂]
    apply view_insertEdge
    rw [hview₂]
    exact update_self _ _ _
  have hrun : edgeAdd e m = (linkReverse m.nextEdge
      (lookupEdge (after insert m₂) e.target e.source) >>= fun _ => pure m.nextEdge)
      (after insert m₂) := by
    have hinsert : insert m₂ = (some (), after insert m₂) := when_returns _ _ m₂
    exact bind_of_some hinsert
  set link := linkReverse m.nextEdge (lookupEdge (after insert m₂) e.target e.source) with hlink
  have hret : link (after insert m₂) = (some (), after link (after insert m₂)) :=
    Prod.ext (linkReverse_returns _ _ _) rfl
  refine ⟨after link (after insert m₂), ?_, ?_⟩
  · rw [hrun, bind_of_some hret]
    rfl
  · rw [← hview₃]
    exact leaves_linkReverse _ _ _

theorem unlinkReverse_returns (r : Option EdgeId) (m : Mesh) :
    unlinkReverse r m = (some (), after (unlinkReverse r) m) := by
  cases r with
  | none => rfl
  | some r => rfl

theorem view_edgeDel : view (after (edgeDel k) m) = (view m).delEdge k := by
  set m₁ := after (unlinkReverse (m.edge k).reverse) m
  set m₂ : Mesh := {m₁ with edges := m₁.edges.filter fun a => !edgeWeightCompare m₁ k a}
  have hview : view m₂ = view m := leaves_unlinkReverse _ m
  have hrun : after (edgeDel k) m = after (modifyNode (m.edge k).source fun nd =>
      {nd with edgeTree := nd.edgeTree.filter fun a => !edgeCompare m₂ k a}) m₂ :=
    congrArg Prod.snd (bind_of_some (unlinkReverse_returns _ m))
  have hsource : (m.edge k).source = (m₂.edge k).source :=
    (congrArg (fun v => (v.edge k).source) hview).symm
  rw [hrun, view_modifyNode, hsource, ← hview]
  rfl

variable {m}

theorem edgeAdd_moves (e : Edge) (hjoins : Joins R (view m) e.toEdgeCore)
    (hown : e.source = m.self → R.own) : Moves R (edgeAdd e) m := by
  obtain ⟨m', hrun, hview⟩ := edgeAdd_returns m e
  refine Moves.of_move ?_ (Move.addEdge _ _ hjoins hown)
  unfold after
  rw [hrun]
  exact hview

theorem edgeDel_moves (hk : k < m.nextEdge)
    (hown : (m.edge k).source = m.self → R.own) : Moves R (edgeDel k) m :=
  Moves.of_move (view_edgeDel m k) (Move.delEdge _ k hk hown)

theorem nodeAdd_moves (nd : Node) (hname : R.name nd.name) (hnew : Fresh nd.toNodeCore) :
    Moves R (nodeAdd nd) m :=
  Moves.of_move (view_nodeAdd m nd) (Move.addNode _ _ hname hnew)

end Changes

section Graph

variable (p : Params)

variable {E : Mesh → Prop} (i : NodeId) (v : View)

theorem leaves_ssspBfs : Leaves view (ssspBfs p) := by
  refine Leaves.bind (Leaves.gets _) fun nodes => ?_
  refine Leaves.bind (Leaves.forEach fun i => leaves_modifyNode i fun _ => rfl) fun _ => ?_
  refine Leaves.bind (Leaves.gets _) fun self => ?_
  refine Leaves.bind (Leaves.gets _) fun started => ?_
  refine Leaves.bind (leaves_modifyNode self fun _ => rfl) fun _ => ?_
  refine Leaves.bind (Leaves.gets _) fun fuel => ?_
  exact leaves_of_keeping

theorem unseen_modifyNode (P : View → Prop) {f : Node → Node}
    (hf : ∀ nd, (f nd).toNodeCore = nd.toNodeCore) :
    Triple E (fun m => P (view m)) (modifyNode i f) (fun _ m => P (view m)) := by
  intro m hm
  change P (view (after (modifyNode i f) m))
  rw [leaves_modifyNode i hf m]
  exact hm

theorem set_modifyNode (core : NodeCore) {f : Node → Node}
    (hf : ∀ nd : Node, nd.toNodeCore = v.node i → (f nd).toNodeCore = core) :
    Triple E (fun m => view m = v) (modifyNode i f) (fun _ m => view m = v.setNode i core) := by
  intro m hm
  have hcore : (m.node i).toNodeCore = v.node i := congrFun (congrArg View.node hm) i
  have hview := view_modifyNode m i f
  rw [hf (m.node i) hcore, hm] at hview
  exact hview

/-- A view before or after a host file has been written. -/
def Written (v : View) (name : String) (w : View) : Prop := w = v ∨ w = v.note (.stored name)

theorem written_writeHostFile (name : String) (v : View) :
    Triple E (fun m => view m = v) (writeHostFile p name) (fun _ m => Written v name (view m)) := by
  refine Triple.bind (Q := fun _ m => view m = v) (fun m hm => hm) fun written => ?_
  refine Triple.bind (Q := fun _ m => Written v name (view m)) ?_ fun _ => ?_
  · apply Triple.when
    · intro _ m hm
      exact Or.inr (congrArg (fun w => w.note (.stored name)) hm)
    · intro _ m hm
      exact Or.inl hm
  · exact Triple.pure _ fun _ h => h

theorem written_nodeWriteConfig : Triple E (fun m => view m = v) (nodeWriteConfig p i)
      (fun _ m => Written v (v.node i).name (view m)) := by
  refine Triple.bind (Q := fun nd m => view m = v ∧ nd.name = (v.node i).name) ?_ fun nd => ?_
  · apply Triple.gets
    intro m hm
    rw [← hm]
    exact ⟨rfl, rfl⟩
  · apply Triple.assume
    intro hname
    rw [hname]
    refine Triple.bind (written_writeHostFile p _ v) fun written => ?_
    refine Triple.bind (Q := fun _ m => Written v (v.node i).name (view m)) ?_ fun _ => ?_
    · apply Triple.when
      · intro _
        exact unseen_modifyNode i (Written v (v.node i).name) fun _ => rfl
      · exact fun _ _ h => h
    · exact Triple.pure _ fun _ h => h

theorem written_noteReachability : Triple E (fun m => view m = v) (noteReachability p i)
      (fun _ m => Written v (v.node i).name (view m)) := by
  refine Triple.bind (Triple.read _) fun now => ?_
  refine Triple.bind (Triple.read _) fun nd => ?_
  apply Triple.ite
  · intro _
    refine Triple.bind (Q := fun _ m => view m = v) ?_ fun _ => ?_
    · exact unseen_modifyNode i (· = v) fun _ => rfl
    apply Triple.ite
    · intro _
      refine Triple.bind (written_nodeWriteConfig p i v) fun _ => ?_
      exact Triple.pure _ fun _ h => h
    · intro _
      exact Triple.pure _ fun _ h => Or.inl h
  · intro _
    refine Triple.mono (Q := fun _ m => view m = v) ?_ (fun _ h => h) fun _ _ h => Or.inl h
    exact unseen_modifyNode i (· = v) fun _ => rfl

theorem reported_updateNodeStatus :
    Triple E (fun m => view m = v) (updateNodeStatus i) (fun _ m => view m =
      v.note (.report i ((v.node i).reachable && !(v.node i).blacklisted))) := by
  refine Triple.bind (Triple.read _) fun accepts => ?_
  refine Triple.bind (Q := fun _ m => view m = v) ?_ fun _ => ?_
  · exact unseen_modifyNode i (· = v) fun _ => rfl
  intro m hm
  change (view m).note _ = _
  rw [← hm]
  rfl

/-- The view after a node has changed between reachable and unreachable; its host
file may have been written before the change is reported. -/
def Flipped (v : View) (i : NodeId) (w : View) : Prop :=
  ∃ u, Written v (v.node i).name u ∧ w = u.flip i

/-- Turning the node over and reporting it is a flip, when it is not blacklisted. -/
theorem flip_of_written {v u : View} {i : NodeId} {core : NodeCore}
    (hcore : core = {v.node i with reachable := !(v.node i).reachable})
    (hu : Written (v.setNode i core) (v.node i).name u) (hmarked : (v.node i).blacklisted = false) :
    Flipped v i (u.note (.report i !(v.node i).reachable)) := by
  have hflip : ∀ w : View, w.node = v.node →
      w.flip i = (w.setNode i core).note (.report i !(v.node i).reachable) := by
    intro w hw
    unfold View.flip
    rw [hw, hcore, if_neg (by simp [hmarked])]
  rcases hu with hu | hu
  · refine ⟨v, Or.inl rfl, ?_⟩
    rw [hu, hflip v rfl]
  · refine ⟨v.note (.stored (v.node i).name), Or.inr rfl, ?_⟩
    rw [hu, hflip (v.note (.stored (v.node i).name)) rfl]
    rfl

theorem flipped_changeReachability :
    Triple (fun m => Flipped v i (view m)) (fun m => view m = v) (changeReachability p i)
      (fun _ m => Flipped v i (view m)) := by
  set core : NodeCore := {v.node i with reachable := !(v.node i).reachable} with hcore
  have hnode : (v.setNode i core).node i = core := update_self _ _ _
  refine Triple.bind (set_modifyNode i v core fun nd hnd => ?_) fun _ => ?_
  · rw [hcore, ← hnd]
  refine Triple.bind (Q := fun nd m => view m = v.setNode i core ∧ nd.toNodeCore = core) ?_
    fun nd => ?_
  · apply Triple.gets
    intro m hm
    refine ⟨hm, ?_⟩
    rw [← hnode, ← hm]
    rfl
  apply Triple.assume
  intro hnd
  have hmarked : nd.blacklisted = (v.node i).blacklisted := by rw [hnd]
  have hflipped : Flipped v i (v.flip i) := ⟨v, Or.inl rfl, rfl⟩
  cases hblack : (v.node i).blacklisted with
  | true =>
    -- Nothing is written or reported, so the change is all there is.
    have hflip : v.flip i = v.setNode i core := by
      unfold View.flip
      rw [if_pos hblack]
    rw [← hflip, hmarked, hblack]
    refine Triple.bind (Q := fun _ m => view m = v.flip i) (Triple.pure () fun _ h => h) fun _ => ?_
    refine Triple.bind (unseen_modifyNode i (· = v.flip i) fun _ => rfl) fun _ => ?_
    refine Triple.bind (Q := fun _ m => Flipped v i (view m)) (Triple.pure () ?_) fun _ => ?_
    · intro m hm
      rw [hm]
      exact hflipped
    · exact Leaves.keeps (Leaves.when (leaves_of_keeping)) (Flipped v i)
  | false =>
    have hname : ((v.setNode i core).node i).name = (v.node i).name := by rw [hnode]
    rw [hmarked, hblack]
    refine Triple.bind (written_noteReachability p i _) fun _ => ?_
    rw [hname]
    refine Triple.bind (unseen_modifyNode i (Written _ _) fun _ => rfl) fun _ => ?_
    refine Triple.bind (Q := fun _ m => Flipped v i (view m)) (Triple.of_fixed ?_) fun _ => ?_
    · intro u hu
      have hsame : u.node i = core := by
        rcases hu with hu | hu
        · rw [hu, hnode]
        · rw [hu]
          exact hnode
      refine Triple.mono (reported_updateNodeStatus i u) (fun _ h => h) fun _ m hm => ?_
      rw [hm, hsame]
      have hreport := flip_of_written hcore hu hblack
      simpa [hcore, hblack] using hreport
    · exact Leaves.keeps (Leaves.when (leaves_of_keeping)) (Flipped v i)

variable {R : Rules} {m : Mesh}

/-- The search has reached the local node, which is known to be reachable. -/
def Awake (R : Rules) (m : Mesh) : Prop :=
  R.asleep ∨ ((m.node m.self).visited = true ∧ (m.node m.self).reachable = true)

instance : Inert (Awake R) where
  modify i f hf := by
    apply Keeps.update
    intro m hm
    rcases hm with hasleep | hself
    · exact Or.inl hasleep
    right
    dsimp only
    rw [update_apply]
    split
    · rename_i heq
      rw [← heq, hf.core]
      exact ⟨hf.visited _ hself.1, hself.2⟩
    · exact hself
  cache _ _ _ h := h

/-- The search visits the local node first, if it is running. -/
theorem awake_ssspBfs : Triple (fun _ => True) (fun m => R.asleep ∨ Started (view m)) (ssspBfs p)
    (fun _ => Awake R) := by
  refine Triple.bind (Triple.read _) fun nodes => ?_
  refine Triple.bind (Q := fun _ m => R.asleep ∨ Started (view m)) ?_ fun _ => ?_
  · refine Triple.stops (Leaves.keeps ?_ fun v => R.asleep ∨ Started v) fun _ _ => trivial
    exact Leaves.forEach fun i => leaves_modifyNode i fun _ => rfl
  refine Triple.bind (Q := fun s m => (R.asleep ∨ Started (view m)) ∧ s = m.self) ?_ fun s => ?_
  · exact Triple.gets _ fun _ h => ⟨h, rfl⟩
  refine Triple.bind (Q := fun started m => (R.asleep ∨ Started (view m)) ∧
    (s = m.self ∧ started = m.threadstarted)) ?_ fun started => ?_
  · exact Triple.gets _ fun _ h => ⟨h.1, h.2, rfl⟩
  refine Triple.bind (Q := fun _ => Awake R) ?_ fun _ => ?_
  · apply Triple.update
    intro m hm
    obtain ⟨hrunning, hself, hstarted⟩ := hm
    rcases hrunning with hasleep | ⟨hthread, hreachable⟩
    · exact Or.inl hasleep
    right
    dsimp only
    rw [hself, update_self, hstarted]
    exact ⟨hthread, hreachable⟩
  · refine Triple.bind (Triple.read _) fun fuel => ?_
    exact Keeping.keeps

/-- The local node has been visited and is another one. -/
def Apart (R : Rules) (i : NodeId) (m : Mesh) : Prop := Awake R m ∧ (R.asleep ∨ m.self ≠ i)

instance (f : Node → Node) : Keeping E (Apart R i) (modifyNode i f) where
  keeps := by
    apply Keeps.update
    intro m hm
    obtain ⟨hawake, hne⟩ := hm
    refine ⟨?_, hne⟩
    rcases hne with hasleep | hne
    · exact Or.inl hasleep
    rcases hawake with hasleep | hself
    · exact Or.inl hasleep
    right
    dsimp only
    rw [update_of_ne hne]
    exact hself

instance (effect : Effect) : Keeping E (Apart R i) (record effect) := ⟨Keeps.update _ fun _ h => h⟩

instance (sa : Sockaddr) (value : Option NodeId) :
    Keeping E (Apart R i) (cacheAddress p sa value) := ⟨Keeps.update _ fun _ h => h⟩

instance (op : Op) : Keeping E (Apart R i) (attempt p op) := ⟨fun _ h => h⟩

instance : Keeping E (Apart R i) (changeReachability p i) := by
  have hudp : Keeping E (Apart R i) (updateNodeUdp p i none) := by
    unfold updateNodeUdp
    infer_instance
  have hnote : Keeping E (Apart R i) (noteReachability p i) := by
    unfold noteReachability nodeWriteConfig writeHostFile
    infer_instance
  have hstatus : Keeping E (Apart R i) (updateNodeStatus i) := by
    unfold updateNodeStatus
    infer_instance
  unfold changeReachability
  infer_instance

/-- The local node itself is not changed, because it has been visited. -/
theorem awake_checkNode : Keeps (Awake R) (checkNode p i) := by
  refine Triple.bind Keeping.keeps fun _ => ?_
  refine Triple.bind (Q := fun nd m => Awake R m ∧ (nd = m.node i)) ?_ fun nd => ?_
  · exact Triple.gets _ fun _ h => ⟨h, rfl⟩
  apply Triple.when
  · intro hchanged
    have hapart : ∀ m, Awake R m ∧ nd = m.node i → Apart R i m := by
      intro m hm
      refine ⟨hm.1, ?_⟩
      rcases hm.1 with hasleep | ⟨hvisited, hreachable⟩
      · exact Or.inl hasleep
      right
      intro heq
      rw [hm.2, ← heq, hvisited, hreachable] at hchanged
      exact absurd hchanged (by decide)
    refine Triple.mono (Q := fun _ => Apart R i) ?_ hapart fun _ _ h => h.1
    exact Keeping.keeps
  · intro _ m hm
    exact hm.1

theorem changeReachability_moves (hm : Ready R (view m)) (hi : i ∈ m.nodes)
    (hself : i = m.self → R.asleep) : Moves R (changeReachability p i) m := by
  apply Moves.of_step
  obtain ⟨u, hu, hview⟩ := Triple.after (flipped_changeReachability p i (view m)) m rfl
  unfold Step
  rw [hview]
  rcases hu with hu | hu
  · rw [hu]
    exact ReflTransGen.single (Move.flip _ i hi hself)
  · rw [hu]
    refine ReflTransGen.head (Move.stored _ _ (Or.inr ⟨i, hm.nodes_lt i hi, rfl⟩)) ?_
    exact ReflTransGen.single (Move.flip _ i hi hself)

theorem checkNode_moves (hm : Ready R (view m)) (hi : i ∈ m.nodes)
    (hawake : Awake R m) : Moves R (checkNode p i) m := by
  refine Moves.leaves_bind leaves_of_keeping fun _ m' hrun hview => ?_
  have hawake' : Awake R m' := (Keeping.keeps (E := Awake R)).returns hawake hrun
  apply Reaches.gets_bind
  apply Reaches.when
  intro hchanged
  have hi' : i ∈ (view m').nodes := hview ▸ hi
  refine changeReachability_moves p i (hview ▸ hm) hi' fun hself => ?_
  rcases hawake' with hasleep | ⟨hvisited, hreachable⟩
  · exact hasleep
  · simp [hself, hvisited, hreachable] at hchanged

theorem checkNodes_moves (todo : List NodeId) (hm : Ready R (view m))
    (htodo : ∀ i ∈ todo, i ∈ m.nodes) (hawake : Awake R m) :
    Moves R (forEach todo (checkNode p)) m := by
  induction todo generalizing m with
  | nil => exact Reaches.pure () m
  | cons i todo ih =>
    have hi := htodo i List.mem_cons_self
    refine Moves.bind hm (checkNode_moves p i hm hi hawake) fun _ m' hrun hm' hgrows => ?_
    apply ih hm'
    · intro j hj
      exact hgrows.nodes j (htodo j (List.mem_cons_of_mem i hj))
    · exact (awake_checkNode p i).returns hawake hrun

/-- Updating the graph flips nodes and nothing else. -/
theorem graph_moves (hm : Ready R (view m)) : Moves R (graph p) m := by
  refine Moves.leaves_bind (leaves_ssspBfs p) fun _ m' hrun hview => ?_
  have hawake : Awake R m' := (awake_ssspBfs p).returns hm.running hrun
  apply Reaches.gets_bind
  rw [← hview] at hm
  exact checkNodes_moves p m'.nodes hm (fun _ h => h) hawake

theorem step_of_written {name : String} {m' : Mesh}
    (hname : R.name name ∨ ∃ i, i < m.nextNode ∧ (m.node i).name = name)
    (hwritten : Written (view m) name (view m')) : Step R m m' := by
  unfold Step
  rcases hwritten with hview | hview
  · rw [hview]
  · rw [hview]
    exact ReflTransGen.single (Move.stored _ _ hname)

theorem nodeWriteConfig_moves (hi : i < m.nextNode) : Moves R (nodeWriteConfig p i) m := by
  apply Moves.of_step
  apply step_of_written (Or.inr ⟨i, hi, rfl⟩)
  exact Triple.after (R := fun m' => Written (view m) (m.node i).name (view m'))
    (written_nodeWriteConfig p i (view m)) m rfl

end Graph

end Meshlink.MeshMoves
