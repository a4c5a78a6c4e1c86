import Meshlink.MeshRuns

/-!
The status reports that the application gets for a node. Changes of reachability
are reported unless the node is blacklisted, and blacklisting and whitelisting a
reachable node are reported by the calls themselves. What is missed is a connection
that breaks while its node is being blacklisted.
-/
namespace Meshlink.StatusReports

open Commands MeshState MetaEdges MetaHandlers MeshCalls MeshEvents MeshView ViewGrowth
open MeshMoves EdgeMoves CallMoves EventMoves MeshRuns Systems

def reportOf (i : NodeId) : Effect → Option Bool
  | .report j online => if j = i then some online else none
  | _ => none

def reports (i : NodeId) (log : List Effect) : List Bool := log.filterMap (reportOf i)

/-- The reports for a node alternate, and the last one is right; a node without
reports counts as reported to be offline. -/
structure Faithful (log : List Effect) (i : NodeId) (online : Bool) : Prop where
  alternates : (reports i log).IsChain (· ≠ ·)
  last : (reports i log).getLast?.getD false = online

def online (nd : NodeCore) : Bool := nd.reachable && !nd.blacklisted

theorem online_marked {nd : NodeCore} (h : nd.blacklisted = true) : online nd = false := by
  rw [online, h, Bool.not_true, Bool.and_false]

theorem online_unmarked {nd : NodeCore} (h : nd.blacklisted = false) :
    online nd = nd.reachable := by
  rw [online, h, Bool.not_false, Bool.and_true]

/-- The node that an event blacklists, unless it is new. -/
def blacklistTarget (m : Mesh) : Event → Option NodeId
  | .blacklist i => some i
  | .blacklistByName name => lookupNode m name
  | _ => none

/-- Writing out the error message succeeds on each of the connections in turn. -/
def flushes (p : Params) : ℕ → List ConnId → Bool
  | _, [] => true
  | ops, c :: rest => p.succeeds ops (.flush c) && flushes p (ops + 1) rest

def activePeer (m : Mesh) (i : NodeId) (c : ConnId) : Bool :=
  (m.conn c).node = some i && (m.conn c).active

/-- The activated connections with a node. -/
def activePeers (m : Mesh) (i : NodeId) (connections : List ConnId) : List ConnId :=
  connections.filter (activePeer m i)

/-- When a node is blacklisted, the error message can be written out on each of its
activated connections. -/
def errorsFlushed (p : Params) (m : Mesh) (ev : Event) : Bool :=
  match blacklistTarget m ev with
  | none => true
  | some i => i = m.self || ((m.node i).blacklisted ||
      flushes p m.ops (activePeers m i m.connections))

def reportRules : Rules := {freeRules (fun _ => True) fun _ _ => trivial with mark := False}

section Reports

variable {log : List Effect} {i : NodeId} {value : Bool}

theorem reports_concat (log : List Effect) (effect : Effect) :
    reports i (log ++ [effect]) = reports i log ++ (reportOf i effect).toList := by
  unfold reports
  rw [List.filterMap_append]
  cases hreport : reportOf i effect with
  | none => simp [hreport]
  | some online => simp [hreport]

theorem reports_other {effect : Effect} (h : reportOf i effect = none) :
    reports i (log ++ [effect]) = reports i log := by
  rw [reports_concat, h]
  exact List.append_nil _

theorem Faithful.congr {log' : List Effect} (h : Faithful log i value)
    (hsame : reports i log' = reports i log) : Faithful log' i value := by
  refine ⟨?_, ?_⟩
  · rw [hsame]
    exact h.alternates
  · rw [hsame]
    exact h.last

theorem Faithful.note (h : Faithful log i value) {effect : Effect}
    (heffect : reportOf i effect = none) : Faithful (log ++ [effect]) i value :=
  h.congr (reports_other heffect)

theorem faithful_nil (i : NodeId) : Faithful [] i false := ⟨List.isChain_nil, rfl⟩

/-- A change that is reported. -/
theorem Faithful.report (h : Faithful log i (!value)) :
    Faithful (log ++ [.report i value]) i value := by
  have hreports : reports i (log ++ [.report i value]) = reports i log ++ [value] := by
    rw [reports_concat]
    simp [reportOf]
  refine ⟨?_, ?_⟩
  · rw [hreports]
    refine List.isChain_append.mpr ⟨h.alternates, List.isChain_singleton value, ?_⟩
    intro x hx y hy
    rw [Option.mem_def] at hx hy
    have hlast := h.last
    rw [hx] at hlast
    rw [← Option.some.inj hy, show x = !value from hlast]
    cases value with
    | true => exact Bool.false_ne_true
    | false => exact Bool.false_ne_true.symm
  · rw [hreports, List.getLast?_concat]
    rfl

end Reports

section Moves

variable {v w : View}

/-- All reports about the nodes so far are right. -/
structure Told (v : View) : Prop where
  known : ∀ i < v.nextNode, Faithful v.log i (online (v.node i))
  unknown : ∀ i, v.nextNode ≤ i → reports i v.log = []

theorem Told.note (h : Told v) {effect : Effect} (heffect : ∀ i, reportOf i effect = none) :
    Told (v.note effect) where
  known := fun i hi => (h.known i hi).note (heffect i)
  unknown := fun i hi => (reports_other (heffect i)).trans (h.unknown i hi)

theorem Told.setNode (h : Told v) (i : NodeId) (core : NodeCore)
    (hsame : online core = online (v.node i)) : Told (v.setNode i core) := by
  refine ⟨?_, h.unknown⟩
  intro j hj
  rw [View.setNode_same hsame]
  exact h.known j hj

/-- The status of one node changes and the change is reported. -/
theorem Told.report (h : Told v) {i : NodeId} (hi : i < v.nextNode) (core : NodeCore)
    (hchange : online core = !online (v.node i)) :
    Told ((v.setNode i core).note (.report i (online core))) := by
  have hother : ∀ j, j ≠ i → reportOf j (.report i (online core)) = none :=
    fun j hne => if_neg hne.symm
  refine ⟨?_, ?_⟩
  · intro j hj
    change Faithful (v.log ++ [.report i (online core)]) j (online ((v.setNode i core).node j))
    rw [View.setNode_node]
    split
    · rename_i heq
      rw [heq]
      apply Faithful.report
      rw [hchange, Bool.not_not]
      exact h.known i hi
    · rename_i hne
      exact (h.known j hj).note (hother j hne)
  · intro j hj
    have hne : j ≠ i := (hi.trans_le hj).ne'
    exact (reports_other (hother j hne)).trans (h.unknown j hj)

theorem Told.addNode (h : Told v) {core : NodeCore} (hnew : Fresh core) :
    Told (v.addNode core) := by
  refine ⟨?_, fun i hi => h.unknown i (Nat.le_of_succ_le hi)⟩
  intro i hi
  rcases Nat.lt_succ_iff_lt_or_eq.mp hi with hold | rfl
  · rw [View.addNode_node_of_lt v hold]
    exact h.known i hold
  have hoff : online core = false := by
    unfold online
    rw [hnew.1]
    rfl
  rw [View.addNode_node, hoff]
  exact (faithful_nil _).congr (h.unknown v.nextNode (Nat.le_refl _))

/-- A node turns reachable or unreachable; a blacklisted one stays offline. -/
theorem Told.flip (h : Told v) {i : NodeId} (hi : i < v.nextNode) : Told (v.flip i) := by
  unfold View.flip
  cases hmarked : (v.node i).blacklisted with
  | true =>
    apply h.setNode
    rw [online_marked hmarked]
    exact online_marked hmarked
  | false =>
    have hon : online {v.node i with reachable := !(v.node i).reachable} =
        !(v.node i).reachable := online_unmarked hmarked
    have hreport := h.report hi _ (hon.trans (congrArg _ (online_unmarked hmarked).symm))
    rw [hon] at hreport
    exact hreport

theorem Told.unmark (h : Told v) {i : NodeId} (hi : i < v.nextNode)
    (hmarked : (v.node i).blacklisted = true) : Told (v.unmark i) := by
  have hoff : online (v.node i) = false := online_marked hmarked
  have hon : online {v.node i with blacklisted := false} = (v.node i).reachable :=
    online_unmarked rfl
  unfold View.unmark
  cases hreach : (v.node i).reachable with
  | true =>
    have hreport := h.report hi {v.node i with blacklisted := false}
      (by rw [hon, hoff, hreach]; rfl)
    rw [hon, hreach] at hreport
    exact hreport
  | false =>
    apply h.setNode
    rw [hon, hoff, hreach]

theorem Told.of_move (hv : Sane v) (h : Told v) (hmove : Move reportRules v w) : Told w := by
  cases hmove with
  | addNode core _ hnew => exact h.addNode hnew
  | commit core _ _ hnew => exact (h.addNode hnew).note fun _ => rfl
  | addEdge e => exact View.addEdge_ind {h with} fun _ i _ hw => hw.setNode i _ rfl
  | delEdge k => exact h.setNode _ _ rfl
  | flip i hi => exact h.flip (hv.nodes_lt i hi)
  | mark i hmark => exact absurd hmark fun hno => hno
  | gone i hmark => exact absurd hmark fun hno => hno
  | unmark i _ hi hmarked => exact h.unmark hi hmarked
  | attach c i =>
    have hnode : Told (v.setNode i {v.node i with connection := some c}) := h.setNode i _ rfl
    exact {hnode with}
  | detach i => exact h.setNode i _ rfl
  | hand c inv =>
    have hdiscard : Told (v.discard inv.cookie) := {h with}
    exact hdiscard.note fun _ => rfl
  | send | received | channel | raw | stored => exact h.note fun _ => rfl
  | _ => exact {h with}

theorem told_of_act (hv : Ready reportRules v) (h : Told v) (hact : Act reportRules v w) :
    Told w := by
  cases hact with
  | move hmove => exact h.of_move hv.toSane hmove
  | start => exact {h with}
  | forget i =>
    apply Told.note _ fun _ => rfl
    exact {h with}
  | rename name submesh => exact h.setNode v.self _ rfl

end Moves

section Blacklist

variable {m m' : Mesh} (p : Params)

/-- Nodes, the peers of connections and the reports are as before. -/
structure Undisturbed (m m' : Mesh) : Prop where
  node : m'.node = m.node
  nextNode : m'.nextNode = m.nextNode
  peer : ∀ c, (m'.conn c).node = (m.conn c).node
  active : ∀ c, (m'.conn c).active = (m.conn c).active
  reports : ∀ i, reports i m'.log = reports i m.log

theorem Undisturbed.refl (m : Mesh) : Undisturbed m m :=
  ⟨rfl, rfl, fun _ => rfl, fun _ => rfl, fun _ => rfl⟩

theorem Undisturbed.trans {m₁ m₂ m₃ : Mesh} (h : Undisturbed m₁ m₂) (h' : Undisturbed m₂ m₃) :
    Undisturbed m₁ m₃ where
  node := h'.node.trans h.node
  nextNode := h'.nextNode.trans h.nextNode
  peer := fun c => (h'.peer c).trans (h.peer c)
  active := fun c => (h'.active c).trans (h.active c)
  reports := fun i => (h'.reports i).trans (h.reports i)

theorem after_sendMeta (c : ConnId) (r : Request) :
    after (sendMeta c r) m = m ∨
      ∃ x, after (sendMeta c r) m = {m with log := m.log ++ [.sent x]} := by
  have hbody : after (sendMeta c r) m =
      after (if (m.conn c).allowRequest = some .id || (m.conn c).sptps = .established then do
        record (.sent ⟨c, (m.conn c).active, peerSubmesh m (m.conn c), nodeTable m, r⟩)
        pure true
      else pure false) m := rfl
  rw [hbody]
  split
  · exact Or.inr ⟨_, rfl⟩
  · exact Or.inl rfl

theorem after_flushMeta {c : ConnId} (h : p.succeeds m.ops (.flush c) = true) :
    after (flushMeta p c) m = {m with ops := m.ops + 1} := by
  have hbody : after (flushMeta p c) m =
      after (when (!p.succeeds m.ops (.flush c)) (terminateConnection p c (m.conn c).active))
        {m with ops := m.ops + 1} := rfl
  rw [hbody, h]
  rfl

/-- An error message that can be written out disturbs nothing. -/
theorem warnPeer_undisturbed {c : ConnId} {active : Bool}
    (h : active = true → p.succeeds m.ops (.flush c) = true) :
    Undisturbed m (after (warnPeer p c active) m) ∧
      (after (warnPeer p c active) m).ops = m.ops + if active then 1 else 0 := by
  cases active with
  | false => exact ⟨Undisturbed.refl m, rfl⟩
  | true =>
    obtain ⟨_, hsent⟩ := Returns.returns (x := sendMeta c (.error blacklistedError)) m
    set m₁ := after (sendMeta c (.error blacklistedError)) m
    have hrun : after (warnPeer p c true) m = after (flushMeta p c) m₁ := by
      rw [show after (warnPeer p c true) m = after (sendError p c blacklistedError) m from
        after_bind_pure _ _ m]
      rw [show after (sendError p c blacklistedError) m = _ from after_bind hsent]
      exact after_bind_pure _ _ m₁
    have hlog : Undisturbed m m₁ ∧ m₁.ops = m.ops := by
      rcases after_sendMeta (m := m) c (.error blacklistedError) with hsame | ⟨x, hnew⟩
      · rw [show m₁ = m from hsame]
        exact ⟨Undisturbed.refl m, rfl⟩
      · rw [show m₁ = _ from hnew]
        exact ⟨⟨rfl, rfl, fun _ => rfl, fun _ => rfl, fun _ => reports_other rfl⟩, rfl⟩
    have hflush : p.succeeds m₁.ops (.flush c) = true := hlog.2.symm ▸ h rfl
    rw [hrun, after_flushMeta p hflush]
    exact ⟨{hlog.1 with}, congrArg (· + 1) hlog.2⟩

theorem undisturbed_shut (m : Mesh) (c : ConnId) :
    Undisturbed m (after (modifyConn c fun cn => {cn with shut := true}) m) := by
  refine ⟨rfl, rfl, ?_, ?_, fun _ => rfl⟩
  · exact congrFun (seen_update (g := fun cn : Conn => cn.node) rfl)
  · exact congrFun (seen_update (g := fun cn : Conn => cn.active) rfl)

variable {i : NodeId}

theorem shutPeer_undisturbed {c : ConnId}
    (h : activePeer m i c = true → p.succeeds m.ops (.flush c) = true) :
    Undisturbed m (after (shutPeer p i c) m) ∧
      (after (shutPeer p i c) m).ops = m.ops + if activePeer m i c then 1 else 0 := by
  unfold activePeer at h ⊢
  by_cases hnode : (m.conn c).node = some i
  · rw [decide_eq_true hnode, Bool.true_and] at h ⊢
    obtain ⟨hsame, hops⟩ := warnPeer_undisturbed p h
    rw [after_shutPeer p hnode]
    exact ⟨hsame.trans (undisturbed_shut _ c), hops⟩
  · rw [after_shutPeer_other p hnode, decide_eq_false hnode]
    exact ⟨Undisturbed.refl m, rfl⟩

theorem activePeers_congr (h : Undisturbed m m') (i : NodeId) (connections : List ConnId) :
    activePeers m' i connections = activePeers m i connections := by
  apply List.filter_congr
  intro c _
  unfold activePeer
  rw [h.peer, h.active]

theorem shutPeers_undisturbed {todo : List ConnId}
    (h : flushes p m.ops (activePeers m i todo) = true) :
    Undisturbed m (after (forEach todo (shutPeer p i)) m) := by
  induction todo generalizing m with
  | nil => exact Undisturbed.refl m
  | cons c rest ih =>
    rw [after_forEach_cons]
    have hfirst : activePeer m i c = true → p.succeeds m.ops (.flush c) = true := by
      intro hpeer
      rw [activePeers, List.filter_cons_of_pos hpeer] at h
      exact (Bool.and_eq_true _ _ ▸ h).1
    obtain ⟨hsame, hops⟩ := shutPeer_undisturbed p hfirst
    apply hsame.trans
    apply ih
    rw [activePeers_congr hsame, hops]
    cases hpeer : activePeer m i c with
    | true =>
      rw [activePeers, List.filter_cons_of_pos hpeer] at h
      exact (Bool.and_eq_true _ _ ▸ h).2
    | false =>
      rw [activePeers, List.filter_cons_of_neg (Bool.eq_false_iff.mp hpeer)] at h
      exact h

theorem Told.of_reports {v w : View} (h : Told v) (hnode : w.node = v.node)
    (hnext : w.nextNode = v.nextNode) (hreports : ∀ i, reports i w.log = reports i v.log) :
    Told w := by
  refine ⟨?_, ?_⟩
  · intro i hi
    rw [hnode]
    exact (h.known i (hnext ▸ hi)).congr (hreports i)
  · intro i hi
    rw [hreports]
    exact h.unknown i (hnext ▸ hi)

/-- Blacklisting with the report that follows it. -/
theorem told_mark {v : View} (h : Told v) (hi : i < v.nextNode)
    (hmarked : (v.node i).blacklisted = false) :
    Told (if (v.node i).reachable then (v.mark i).note (.report i false) else v.mark i) := by
  have hoff : online {v.node i with blacklisted := true} = false := online_marked rfl
  have hon : online (v.node i) = (v.node i).reachable := online_unmarked hmarked
  split
  · rename_i hreach
    have hreport := h.report hi {v.node i with blacklisted := true} (by
      rw [hoff, hon, hreach]
      rfl)
    rw [hoff] at hreport
    exact hreport
  · rename_i hreach
    apply h.setNode
    rw [hoff, hon]
    exact (Bool.eq_false_iff.mpr hreach).symm

/-- Blacklisting a node is reported once its connections could be told. -/
theorem blacklist_told (hm : Ready reportRules (view m)) (hi : i < m.nextNode) (h : Told (view m))
    (hflush : (m.node i).blacklisted = false → i ≠ m.self →
      flushes p m.ops (activePeers m i m.connections) = true) :
    Ready reportRules (view (after (blacklist p i) m)) ∧ Told (view (after (blacklist p i) m)) := by
  rw [after_blacklist]
  split
  · exact ⟨hm, h⟩
  rename_i hdo
  obtain ⟨hself, hmarked⟩ := not_or.mp hdo
  have hunmarked : (m.node i).blacklisted = false := Bool.eq_false_iff.mpr hmarked
  set m₁ := after (modifyNode i fun nd => {nd with blacklisted := true}) m
  have hview : view m₁ = (view m).mark i := view_modifyNode m i _
  have hm₁ : Ready reportRules (view m₁) := by
    rw [hview]
    exact ⟨hm.toSane.setNode_sub i _ (fun _ hk => hk) fun _ hc => hc, Or.inl trivial⟩
  set m₂ := after (forEach m.connections (shutPeer p i)) m₁
  have hsame : Undisturbed m₁ m₂ := shutPeers_undisturbed p (hflush hunmarked hself)
  have hm₂ : Ready reportRules (view m₂) := by
    refine hm₁.of_moves (Moves.forEach (f := shutPeer p i) hm₁ ?_).step
    intro c hc m' hm' hgrows
    have hlt : c < m₁.nextConn := hm.listed c hc
    exact shutPeer_moves p i c hm' (hlt.trans_le hgrows.nextConn) trivial trivial
  have hi₂ : i < m₂.nextNode := by
    rw [hsame.nextNode]
    exact hi
  apply settleBlacklist_kept p (fun _ _ hv hw => hw.of_move hv.toSane) _ hm₂ hi₂
  have hnode : (view m₂).node = ((view m).mark i).node := by
    rw [← hview]
    exact congrArg (fun node => fun j => (node j : Node).toNodeCore) hsame.node
  have hnext : (view m₂).nextNode = ((view m).mark i).nextNode := hsame.nextNode
  have hreports : ∀ j, reports j (view m₂).log = reports j ((view m).mark i).log := hsame.reports
  have hreach : (m₂.node i).reachable = (m.node i).reachable := by
    rw [show (m₂.node i).reachable = ((view m₂).node i).reachable from rfl, hnode, View.mark,
      View.setNode_node, if_pos rfl]
    rfl
  rw [hreach]
  have htold : Told (if (m.node i).reachable then ((view m).mark i).note (.report i false)
      else (view m).mark i) := told_mark h hi hunmarked
  split
  · rename_i hyes
    rw [if_pos hyes] at htold
    refine htold.of_reports hnode hnext fun j => ?_
    change reports j ((view m₂).log ++ [.report i false]) =
      reports j (((view m).mark i).log ++ [.report i false])
    rw [reports_concat, reports_concat, hreports]
  · rename_i hno
    rw [if_neg hno] at htold
    exact htold.of_reports hnode hnext hreports

end Blacklist

section Runs

variable {m : Mesh} (p : Params)

/-- No connection has a node that has just been made. -/
theorem activePeers_new (hm : Sane (view m)) (i : NodeId) (hi : m.nextNode ≤ i) :
    activePeers m i m.connections = [] := by
  apply List.filter_eq_nil_iff.mpr
  intro c hc hpeer
  unfold activePeer at hpeer
  rw [Bool.and_eq_true, decide_eq_true_eq] at hpeer
  exact absurd (hm.peer c (hm.listed c hc) i hpeer.1) (Nat.not_lt.mpr hi)

theorem blacklistByName_told (name : String) (hm : Ready reportRules (view m)) (h : Told (view m))
    (hflush : errorsFlushed p m (.blacklistByName name) = true) :
    Ready reportRules (view (after (meshlinkBlacklistByName p name) m)) ∧
      Told (view (after (meshlinkBlacklistByName p name) m)) := by
  obtain ⟨i, hrun⟩ := Returns.returns (x := namedNode name) m
  have hmoves : Moves reportRules (namedNode name) m := namedNode_moves name fun _ => trivial
  have hkept := hmoves.keeps (fun _ _ hv hw => hw.of_move hv.toSane) hm h
  have hi := (learned_mem rfl (learned_namedNode hrun)).1
  rw [show after (meshlinkBlacklistByName p name) m = _ from after_bind hrun]
  apply blacklist_told p hkept.1 (hkept.1.nodes_lt i hi) hkept.2
  intro hmarked hself
  conv_lhs at hrun => rw [namedNode, gets_bind, id]
  cases hlookup : lookupNode m name with
  | some j =>
    rw [hlookup] at hrun
    obtain ⟨hij, hstate⟩ := Prod.mk.inj hrun.symm
    rw [hstate] at hmarked hself ⊢
    rw [Option.some.inj hij] at hmarked hself ⊢
    rw [errorsFlushed, blacklistTarget, hlookup] at hflush
    dsimp only at hflush
    rw [decide_eq_false hself, hmarked] at hflush
    exact hflush
  | none =>
    rw [hlookup] at hrun
    obtain ⟨hij, hstate⟩ := Prod.mk.inj hrun.symm
    rw [hstate, Option.some.inj hij]
    have hnone : activePeers m m.nextNode m.connections = [] :=
      activePeers_new hm.toSane m.nextNode (Nat.le_refl _)
    exact congrArg (flushes p m.ops) hnone

theorem step_told (ev : Event) (hm : Ready reportRules (view m)) (h : Told (view m))
    (hflush : errorsFlushed p m ev = true) :
    Ready reportRules (view (step p m ev)) ∧ Told (view (step p m ev)) := by
  cases hblack : blacklists ev with
  | true =>
    cases ev with
    | blacklist i =>
      rw [step_blacklist]
      split
      · rename_i hi
        apply blacklist_told p hm (hm.nodes_lt i hi) h
        intro hmarked hself
        have hor : (decide (i = m.self) || ((m.node i).blacklisted ||
            flushes p m.ops (activePeers m i m.connections))) = true := hflush
        rw [decide_eq_false hself, hmarked] at hor
        exact hor
      · exact ⟨hm, h⟩
    | blacklistByName name =>
      rw [step_blacklistByName]
      exact blacklistByName_told p name hm h hflush
    | _ => exact absurd hblack Bool.false_ne_true
  | false =>
    have hallows : Allows reportRules m ev := by
      refine allows_of_calls ⟨trivial, trivial, fun _ => trivial, trivial, fun _ => trivial⟩
        (calls_of_any (fun _ => trivial) trivial) ?_ (fun _ => trivial) fun _ => trivial
      intro hyes
      exact absurd (hblack.symm.trans hyes) Bool.false_ne_true
    exact ⟨ready_step p ev hm hallows, kept_step (fun _ _ => told_of_act) hm h hallows⟩

theorem told_of_opened (h : Opened m) : Told (view m) := by
  have hlog : (view m).log = [] := h.log
  refine ⟨?_, fun i _ => congrArg (reports i) hlog⟩
  intro i hi
  have hfresh : ((view m).node i).reachable = false := (h.fresh i ((h.known i).mpr hi)).1
  rw [hlog, online, hfresh]
  exact faithful_nil i

/-- As long as the error messages to nodes that are blacklisted can be written out, the
reports for every node alternate and end with its status. -/
theorem reports_faithful {evs : List Event} (hm : Opened m)
    (hrun : Along (step p) (fun m ev => errorsFlushed p m ev = true) m evs) :
    ∀ i < (run p m evs).nextNode,
      Faithful (run p m evs).log i (online ((run p m evs).node i).toNodeCore) := by
  have hready : Ready reportRules (view m) := ⟨sane_of_opened hm, Or.inl trivial⟩
  have hend := kept_along (I := fun m => Ready reportRules (view m) ∧ Told (view m))
    (fun m ev hflush hboth => step_told p ev hboth.1 hboth.2 hflush) hrun
    ⟨hready, told_of_opened hm⟩
  exact hend.2.known

/-- A peer that is connected and reachable is blacklisted. -/
def onlinePeer : List Event :=
  connected "peer" ++ [.arrive 0 false (.record (coreEdge "peer" "self")), .blacklistByName "peer"]

theorem reports_faithful_back :
    let m := run plainParams (newMesh "self") (onlinePeer ++ [.whitelistByName "peer"])
    reports 1 m.log = [true, false, true] ∧
      ∀ i < m.nextNode, Faithful m.log i (online (m.node i).toNodeCore) :=
  ⟨by decide +kernel, reports_faithful plainParams (opened_newMesh (by decide)) (by decide +kernel)⟩

/-- Nothing can be written out on connections. -/
def brokenParams : Params :=
  {plainParams with succeeds := fun _ op => match op with
    | .flush _ => false
    | _ => true}

/-- The connection breaks while the peer is blacklisted: the application last heard
that it is online. -/
theorem broken_peer_unreported :
    let m := run brokenParams (newMesh "self") onlinePeer
    Opened (newMesh "self") ∧ reports 1 m.log = [true] ∧
      ¬ ∀ i < m.nextNode, Faithful m.log i (online (m.node i).toNodeCore) := by
  refine ⟨opened_newMesh (by decide), by decide +kernel, ?_⟩
  intro h
  have hlast := (h 1 (by decide +kernel)).last
  exact absurd hlast (by decide +kernel)

end Runs

end Meshlink.StatusReports
