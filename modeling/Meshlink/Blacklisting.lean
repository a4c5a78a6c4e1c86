import Meshlink.MeshRuns

/-!
What a blacklisted node can still do. Its connections are shut down when it is
blacklisted, and packets are only delivered for nodes that are not; but an ACK
request is accepted from anyone who has shown to be known, and the raw packets of
an activated connection are delivered without looking at its node.
-/
namespace Meshlink.Blacklisting

open Commands MeshState MetaHandlers MeshCalls MeshEvents MeshView ViewGrowth MeshMoves
open EdgeMoves HandlerMoves CallMoves EventMoves MeshRuns Systems Relation

/-- The data of a node reaches the receive callback or a channel. -/
def deliversFrom (n : NodeId) : Effect → Bool
  | .received (some i) _ => i = n
  | .channel i _ => i = n
  | _ => false

def whitelists (m : Mesh) (n : NodeId) : Event → Bool
  | .whitelist i => i = n
  | .whitelistByName name => lookupNode m name = some n
  | _ => false

/-- The arrival was sent by the node before its connection was shut down. -/
def sentEarlier (m : Mesh) (n : NodeId) : Event → Bool
  | .arrive c late _ => !late && ((m.conn c).shut && (m.conn c).node = some n)
  | _ => false

/-- A node that is blacklisted before the event stays so, none of its connections
is activated, and nothing that it sends is delivered. -/
def Barred (p : Params) (m : Mesh) (ev : Event) : Prop :=
  ∀ n < m.nextNode, (m.node n).blacklisted = true → whitelists m n ev = false →
    ((step p m ev).node n).blacklisted = true ∧
    (∀ c, ((step p m ev).conn c).active = true → ((step p m ev).conn c).node = some n →
      (m.conn c).active = true ∧ (m.conn c).node = some n) ∧
    (sentEarlier m n ev = false →
      (step p m ev).log.filter (deliversFrom n) = m.log.filter (deliversFrom n))

/-- The connection on which an ACK request arrives. -/
def ackOn : Event → Option ConnId
  | .arrive c _ (.line (.ack _ _ _)) => some c
  | .arrive c _ (.record (.ack _ _ _)) => some c
  | _ => none

/-- The connection has not identified itself as a blacklisted node. -/
def unbarred (m : Mesh) (c : ConnId) : Bool :=
  match lookupNode m (m.conn c).name with
  | none => true
  | some i => !(m.node i).blacklisted

/-- No ACK request arrives on a connection with a blacklisted node. -/
def acksUnbarred (m : Mesh) (ev : Event) : Bool :=
  match ackOn ev with
  | none => true
  | some c => unbarred m c

/-- The rules for an event: it may whitelist nodes, and data that was sent before a
connection was shut down is delivered. -/
def eventRules (m : Mesh) (ev : Event) : Rules :=
  {freeRules (fun _ => True) fun _ _ => trivial with
    mark := False
    unmark := fun n => whitelists m n ev = true
    attach := False
    raw := fun n => sentEarlier m n ev = true}

section Moves

variable {m₀ : Mesh} {ev : Event} {v w : View} {E : NodeId → ConnId → Prop}

/-- The node was blacklisted before the event, which does not whitelist it. -/
def Listed (m₀ : Mesh) (ev : Event) (n : NodeId) : Prop :=
  n < m₀.nextNode ∧ (m₀.node n).blacklisted = true ∧ whitelists m₀ n ev = false

/-- The connections with blacklisted nodes are shut down, up to exceptions, and
during the event no listed node has been let in. -/
structure Guarded (m₀ : Mesh) (ev : Event) (E : NodeId → ConnId → Prop) (v : View) : Prop where
  nextNode : m₀.nextNode ≤ v.nextNode
  shut : ∀ c ∈ v.connections, ∀ i, (v.conn c).node = some i → (v.node i).blacklisted = true →
    (v.conn c).shut = true ∨ E i c
  marked : ∀ n, Listed m₀ ev n → (v.node n).blacklisted = true
  active : ∀ n, Listed m₀ ev n → ∀ c, (v.conn c).active = true → (v.conn c).node = some n →
    (m₀.conn c).active = true ∧ (m₀.conn c).node = some n
  silent : ∀ n, Listed m₀ ev n → sentEarlier m₀ n ev = false →
    v.log.filter (deliversFrom n) = m₀.log.filter (deliversFrom n)

namespace Guarded

variable (h : Guarded m₀ ev E v)

include h

theorem note (effect : Effect)
    (hsilent : ∀ n, Listed m₀ ev n → sentEarlier m₀ n ev = false →
      deliversFrom n effect = false) :
    Guarded m₀ ev E (v.note effect) := by
  refine {h with silent := ?_}
  intro n hn hraw
  have hlast : [effect].filter (deliversFrom n) = [] :=
    List.filter_eq_nil_iff.mpr fun other hother => by
      rw [List.mem_singleton.mp hother, hsilent n hn hraw]
      exact Bool.false_ne_true
  change (v.log ++ [effect]).filter (deliversFrom n) = _
  rw [List.filter_append, hlast, List.append_nil]
  exact h.silent n hn hraw

variable {i : NodeId}

/-- A delivery for a node that is not blacklisted is not one for a listed node. -/
theorem not_listed {n : NodeId}
    (hi : (v.node i).blacklisted = false) (hn : Listed m₀ ev n) : i ≠ n := by
  intro heq
  have hmarked := h.marked n hn
  rw [← heq, hi] at hmarked
  exact Bool.false_ne_true hmarked

theorem setNode (i : NodeId) (core : NodeCore)
    (hblack : core.blacklisted = (v.node i).blacklisted) :
    Guarded m₀ ev E (v.setNode i core) := by
  have hsame : ∀ j, ((v.setNode i core).node j).blacklisted = (v.node j).blacklisted :=
    View.setNode_same hblack
  refine {h with shut := ?_, marked := ?_}
  · intro c hc j hj hmarked
    rw [hsame] at hmarked
    exact h.shut c hc j hj hmarked
  · intro n hn
    rw [hsame]
    exact h.marked n hn

theorem setConn (c : ConnId) (core : ConnCore)
    (hnode : core.node = (v.conn c).node) (hactive : core.active = true → (v.conn c).active = true)
    (hshut : (v.conn c).shut = true → core.shut = true) :
    Guarded m₀ ev E (v.setConn c core) := by
  refine {h with shut := ?_, active := ?_}
  · intro d hd i hi hmarked
    rw [View.setConn_conn] at hi ⊢
    split at hi
    · rename_i heq
      rw [if_pos heq]
      rw [hnode, ← heq] at hi
      have hold := h.shut d hd i hi hmarked
      rw [heq] at hold ⊢
      exact hold.imp_left hshut
    · rename_i hne
      rw [if_neg hne]
      exact h.shut d hd i hi hmarked
  · intro n hn d hd hnd
    rw [View.setConn_conn] at hd hnd
    split at hd
    · rename_i heq
      rw [if_pos heq, hnode] at hnd
      rw [heq]
      exact h.active n hn c (hactive hd) hnd
    · rename_i hne
      rw [if_neg hne] at hnd
      exact h.active n hn d hd hnd

theorem addNode (hv : Sane v) (core : NodeCore) : Guarded m₀ ev E (v.addNode core) := by
  refine {h with nextNode := Nat.le_succ_of_le h.nextNode, shut := ?_, marked := ?_}
  · intro c hc i hi hmarked
    rw [View.addNode_node_of_lt v (hv.peer c (hv.listed c hc) i hi)] at hmarked
    exact h.shut c hc i hi hmarked
  · intro n hn
    rw [View.addNode_node_of_lt v (hn.1.trans_le h.nextNode)]
    exact h.marked n hn

theorem addConn {core : ConnCore} (hnode : core.node = none)
    (hactive : core.active = false) : Guarded m₀ ev E (v.addConn core) := by
  refine {h with shut := ?_, active := ?_}
  · intro c hc i hi hmarked
    rw [View.addConn_conn] at hi ⊢
    split at hi
    · rw [hnode] at hi
      exact absurd hi (by simp)
    rename_i hne
    rw [if_neg hne]
    have hold := (List.mem_append.mp hc).resolve_right fun hlast =>
      hne (List.mem_singleton.mp hlast)
    exact h.shut c hold i hi hmarked
  · intro n hn c hc hnc
    rw [View.addConn_conn] at hc hnc
    split at hc
    · rw [hactive] at hc
      exact absurd hc Bool.false_ne_true
    · rename_i hne
      rw [if_neg hne] at hnc
      exact h.active n hn c hc hnc

/-- A connection is only attached to a node that is not blacklisted. -/
theorem attach (c : ConnId) (hi : (v.node i).blacklisted = false) :
    Guarded m₀ ev E (v.attach c i) := by
  have hset := h.setNode i {v.node i with connection := some c} rfl
  have hi' : ((v.attach c i).node i).blacklisted = false := by
    change ((v.setNode i {v.node i with connection := some c}).node i).blacklisted = false
    rw [View.setNode_node, if_pos rfl]
    exact hi
  have hconn : ∀ d, (v.attach c i).conn d = if d = c then
      {v.conn c with node := some i, allowRequest := none, active := true} else v.conn d :=
    fun d => View.setConn_conn _ c d _
  refine {hset with shut := ?_, active := ?_}
  · intro d hd j hj hmarked
    rw [hconn] at hj ⊢
    split at hj
    · rw [← Option.some.inj hj, hi'] at hmarked
      exact absurd hmarked Bool.false_ne_true
    · rename_i hne
      rw [if_neg hne]
      exact hset.shut d hd j hj hmarked
  · intro n hn d hd hnd
    rw [hconn] at hd hnd
    split at hnd
    · exact absurd (Option.some.inj hnd) (h.not_listed hi hn)
    · rename_i hne
      rw [if_neg hne] at hd
      exact h.active n hn d hd hnd

/-- A node that is not listed is whitelisted. -/
theorem whitelisted (hi : whitelists m₀ i ev = true) : Guarded m₀ ev E (v.unmark i) := by
  apply View.unmark_ind
  · refine {h with shut := ?_, marked := ?_}
    · intro c hc j hj hmarked
      rw [View.setNode_node] at hmarked
      split at hmarked
      · exact absurd hmarked Bool.false_ne_true
      · exact h.shut c hc j hj hmarked
    · intro n hn
      rw [View.setNode_node]
      split
      · rename_i heq
        exact absurd (hn.2.2.symm.trans (heq ▸ hi)) Bool.false_ne_true
      · exact h.marked n hn
  · exact fun _ _ hw => hw.note _ fun _ _ _ => rfl

theorem of_move (hv : Sane v) (hmove : Move (eventRules m₀ ev) v w) : Guarded m₀ ev E w := by
  cases hmove with
  | addNode core => exact h.addNode hv core
  | commit core => exact (h.addNode hv core).note _ fun _ _ _ => rfl
  | addEdge e => exact View.addEdge_ind {h with} fun _ i _ hw => hw.setNode i _ rfl
  | delEdge k => exact h.setNode _ _ rfl
  | flip i => exact View.flip_ind (h.setNode i _ rfl) fun _ _ hw => hw.note _ fun _ _ _ => rfl
  | mark i hmark => exact absurd hmark fun hno => hno
  | gone i hmark => exact absurd hmark fun hno => hno
  | unmark i hunmark => exact h.whitelisted hunmark
  | received i data hi | channel i data hi =>
    exact h.note _ fun n hn _ => decide_eq_false (h.not_listed hi hn)
  | raw c data hraw =>
    apply h.note
    intro n hn hsilent
    cases hnode : (v.conn c).node with
    | none => rfl
    | some i =>
      apply decide_eq_false
      intro heq
      have hearly := hraw i hnode (heq ▸ h.marked n hn)
      exact absurd (hsilent.symm.trans (heq ▸ hearly)) Bool.false_ne_true
  | attach c i _ _ _ _ hattach =>
    exact h.attach c (Bool.eq_false_iff.mpr hattach)
  | detach i => exact h.setNode i _ rfl
  | deactivate c => exact h.setConn c _ rfl (fun hno => absurd hno Bool.false_ne_true) id
  | shut c => exact h.setConn c _ rfl id fun _ => rfl
  | call c | allow c | use c | setEdge c => exact h.setConn c _ rfl id id
  | addConn core _ hnew => exact h.addConn hnew.1 hnew.2.2
  | delConn c => exact {h with shut := fun d hd => h.shut d (List.mem_filter.mp hd).1}
  | hand c inv =>
    have hdiscard : Guarded m₀ ev E (v.discard inv.cookie) := {h with}
    exact hdiscard.note _ fun _ _ _ => rfl
  | send | stored => exact h.note _ fun _ _ _ => rfl
  | invite | discard => exact {h with}

theorem of_act (hv : Ready (eventRules m₀ ev) v)
    (hact : Act (eventRules m₀ ev) v w) : Guarded m₀ ev E w := by
  cases hact with
  | move hmove => exact h.of_move hv.toSane hmove
  | start => exact {h with}
  | forget i =>
    apply Guarded.note _ _ fun _ _ _ => rfl
    exact {h with}
  | rename name submesh => exact h.setNode v.self _ rfl

omit h

/-- Connections with a node that has just been blacklisted are exceptions. -/
theorem mark (h : Guarded m₀ ev (fun _ _ => False) v) (i : NodeId) :
    Guarded m₀ ev (fun j c => j = i ∧ c ∈ v.connections) (v.mark i) := by
  refine {h with shut := ?_, marked := ?_}
  · intro c hc j hj hmarked
    by_cases heq : j = i
    · exact Or.inr ⟨heq, hc⟩
    have hold : (v.node j).blacklisted = true := by
      rw [View.mark, View.setNode_node, if_neg heq] at hmarked
      exact hmarked
    exact Or.inl ((h.shut c hc j hj hold).resolve_right fun hno => hno)
  · intro n hn
    rw [View.mark, View.setNode_node]
    split
    · rfl
    · exact h.marked n hn

/-- The first connection on the list is dealt with. -/
theorem tail {c : ConnId} {rest : List ConnId}
    (h : Guarded m₀ ev (fun j d => j = i ∧ d ∈ c :: rest) v)
    (hc : (v.conn c).node = some i → (v.conn c).shut = true) :
    Guarded m₀ ev (fun j d => j = i ∧ d ∈ rest) v := by
  refine {h with shut := ?_}
  intro d hd j hj hmarked
  rcases h.shut d hd j hj hmarked with hshut | ⟨rfl, hmem⟩
  · exact Or.inl hshut
  · rcases List.mem_cons.mp hmem with rfl | hrest
    · exact Or.inl (hc hj)
    · exact Or.inr ⟨rfl, hrest⟩

end Guarded

end Moves

section Blacklist

variable {m₀ m : Mesh} {ev : Event} (p : Params)

theorem shutPeer_guarded {i : NodeId} {c : ConnId} {rest : List ConnId}
    (hm : Ready (eventRules m₀ ev) (view m)) (hc : c < m.nextConn)
    (h : Guarded m₀ ev (fun j d => j = i ∧ d ∈ c :: rest) (view m)) :
    Guarded m₀ ev (fun j d => j = i ∧ d ∈ rest) (view (after (shutPeer p i c) m)) := by
  by_cases hnode : (m.conn c).node = some i
  · have hmoves : Moves (eventRules m₀ ev) (warnPeer p c (m.conn c).active) m := by
      apply Reaches.when
      intro _
      exact Reaches.bind_pure (sendError_moves p c hm hc trivial trivial _) _
    have hkept := (hmoves.keeps (fun _ _ hv hw => hw.of_move hv.toSane) hm h).2
    rw [after_shutPeer p hnode, view_modifyConn]
    set w := view (after (warnPeer p c (m.conn c).active) m)
    have hset := hkept.setConn c {w.conn c with shut := true} rfl id fun _ => rfl
    apply hset.tail
    intro _
    rw [View.setConn_conn, if_pos rfl]
  · rw [after_shutPeer_other p hnode]
    exact h.tail fun hyes => absurd hyes hnode

/-- Once all connections have been gone through there are no exceptions left. -/
theorem shutPeers_guarded {i : NodeId} {todo : List ConnId}
    (hm : Ready (eventRules m₀ ev) (view m)) (htodo : ∀ c ∈ todo, c < m.nextConn)
    (h : Guarded m₀ ev (fun j d => j = i ∧ d ∈ todo) (view m)) :
    let m' := after (forEach todo (shutPeer p i)) m
    Ready (eventRules m₀ ev) (view m') ∧ Grows (view m) (view m') ∧
      Guarded m₀ ev (fun _ _ => False) (view m') := by
  induction todo generalizing m with
  | nil =>
    refine ⟨hm, Grows.refl _, {h with shut := ?_}⟩
    intro c hc j hj hmarked
    exact (h.shut c hc j hj hmarked).imp_right fun hno => absurd hno.2 List.not_mem_nil
  | cons c rest ih =>
    have hc := htodo c List.mem_cons_self
    have hmoves := shutPeer_moves p i c hm hc trivial trivial
    have hgrows : Grows (view m) (view (after (shutPeer p i c) m)) := Grows.of_moves hmoves.step
    have htodo' : ∀ d ∈ rest, d < (after (shutPeer p i c) m).nextConn := fun d hd =>
      (htodo d (List.mem_cons_of_mem c hd)).trans_le hgrows.nextConn
    rw [after_forEach_cons]
    obtain ⟨hready, hgrows', hrest⟩ :=
      ih (hm.of_moves hmoves.step) htodo' (shutPeer_guarded p hm hc h)
    exact ⟨hready, hgrows.trans hgrows', hrest⟩

/-- The blacklisting of a node guards its connections as well. -/
theorem blacklist_guarded {i : NodeId} (hm : Ready (eventRules m₀ ev) (view m))
    (hi : i < m.nextNode) (h : Guarded m₀ ev (fun _ _ => False) (view m)) :
    Ready (eventRules m₀ ev) (view (after (blacklist p i) m)) ∧
      Guarded m₀ ev (fun _ _ => False) (view (after (blacklist p i) m)) := by
  rw [after_blacklist]
  split
  · exact ⟨hm, h⟩
  set m₁ := after (modifyNode i fun nd => {nd with blacklisted := true}) m
  have hview : view m₁ = (view m).mark i := view_modifyNode m i _
  have hm₁ : Ready (eventRules m₀ ev) (view m₁) := by
    rw [hview]
    exact ⟨hm.toSane.setNode_sub i _ (fun _ hk => hk) fun _ hc => hc, Or.inl trivial⟩
  have hnext : m₁.nextConn = m.nextConn := congrArg View.nextConn hview
  obtain ⟨hm₂, hgrows, h₂⟩ :=
    shutPeers_guarded p hm₁ (fun c hc => hnext ▸ hm.listed c hc) (hview ▸ h.mark i)
  have hi₁ : i < m₁.nextNode := hi
  apply settleBlacklist_kept p (fun _ _ hv hw => hw.of_move hv.toSane) _ hm₂
    (hi₁.trans_le hgrows.nextNode)
  split
  · exact h₂.note _ fun _ _ _ => rfl
  · exact h₂

end Blacklist

section Events

variable {m₀ m : Mesh} {ev : Event} (p : Params)

theorem not_blacklisted_of_unbarred {c : ConnId} (h : unbarred m c = true) {i : NodeId}
    (hi : lookupNode m (m.conn c).name = some i) : (m.node i).blacklisted = false := by
  unfold unbarred at h
  rw [hi] at h
  simpa using h

theorem permits_of_unbarred {c : ConnId} {r : Request}
    (hack : ∀ port devclass options, r = .ack port devclass options → unbarred m c = true) :
    Permits (eventRules m₀ ev) m c r := by
  cases r with
  | ack port devclass options =>
    refine ⟨trivial, trivial, trivial, Or.inr ⟨fun hno => hno, fun i hi => ?_⟩⟩
    exact not_blacklisted_of_unbarred (hack _ _ _ rfl) hi
  | addEdge r => exact ⟨fun _ => trivial, fun _ => trivial, fun _ _ => trivial⟩
  | _ => trivial

/-- A listed connection with a blacklisted node is shut down. -/
def Shut (v : View) : Prop :=
  ∀ c ∈ v.connections, ∀ i, (v.conn c).node = some i → (v.node i).blacklisted = true →
    (v.conn c).shut = true

theorem guarded_of_shut (h : Shut (view m)) : Guarded m ev (fun _ _ => False) (view m) where
  nextNode := Nat.le_refl _
  shut := fun c hc i hi hmarked => Or.inl (h c hc i hi hmarked)
  marked := fun _ hn => hn.2.1
  active := fun _ _ _ hc hnode => ⟨hc, hnode⟩
  silent := fun _ _ _ => rfl

theorem allows_of_unbarred (hshut : Shut (view m)) (hack : acksUnbarred m ev = true)
    (hblack : ∀ i, ev ≠ .blacklist i) (hname : ∀ name, ev ≠ .blacklistByName name) :
    Allows (eventRules m ev) m ev := by
  cases ev with
  | accept | dial => trivial
  | arrive c late a =>
    intro hc
    refine ⟨trivial, trivial, fun hdata => ?_⟩
    cases a with
    | line r =>
      intro _ _ _
      apply permits_of_unbarred
      rintro port devclass options rfl
      exact hack
    | handshake => trivial
    | record r =>
      constructor
      · intro _ i hi hmarked
        have hdown : (m.conn c).shut = true := hshut c hc i hi hmarked
        rw [hdown, Bool.true_and] at hdata
        change (!late && ((m.conn c).shut && decide ((m.conn c).node = some i))) = true
        rw [hdata, hdown, hi]
        simp
      · intro _ _ _ _
        apply permits_of_unbarred
        rintro port devclass options rfl
        exact hack
    | invitation => exact ⟨fun _ _ => trivial, fun _ => trivial⟩
  | terminate => exact ⟨trivial, trivial⟩
  | blacklist i => exact absurd rfl (hblack i)
  | blacklistByName name => exact absurd rfl (hname name)
  | whitelist i => exact decide_eq_true rfl
  | whitelistByName name => exact ⟨fun i hi => decide_eq_true hi, fun _ => trivial⟩
  | forget => exact ⟨trivial, trivial⟩
  | join => trivial
  | _ => trivial

theorem blacklistByName_guarded (name : String)
    (hm : Ready (eventRules m₀ ev) (view m))
    (h : Guarded m₀ ev (fun _ _ => False) (view m)) :
    Ready (eventRules m₀ ev) (view (after (meshlinkBlacklistByName p name) m)) ∧
      Guarded m₀ ev (fun _ _ => False)
        (view (after (meshlinkBlacklistByName p name) m)) := by
  obtain ⟨i, hrun⟩ := Returns.returns (x := namedNode name) m
  have hmoves : Moves (eventRules m₀ ev) (namedNode name) m :=
    namedNode_moves name fun _ => trivial
  have hkept := hmoves.keeps (fun _ _ hv hw => hw.of_move hv.toSane) hm h
  have hi := (learned_mem rfl (learned_namedNode hrun)).1
  rw [show after (meshlinkBlacklistByName p name) m = _ from after_bind hrun]
  exact blacklist_guarded p hkept.1 (hkept.1.nodes_lt i hi) hkept.2

/-- Every event keeps the connections of blacklisted nodes shut and lets none of
these nodes in. -/
theorem step_guarded (ev : Event) (hm : Sane (view m)) (hshut : Shut (view m))
    (hack : acksUnbarred m ev = true) :
    Sane (view (step p m ev)) ∧
      Guarded m ev (fun _ _ => False) (view (step p m ev)) := by
  have hready : Ready (eventRules m ev) (view m) := ⟨hm, Or.inl trivial⟩
  have hguarded : Guarded m ev (fun _ _ => False) (view m) := guarded_of_shut hshut
  by_cases hblack : (∃ i, ev = .blacklist i) ∨ ∃ name, ev = .blacklistByName name
  · rcases hblack with ⟨i, rfl⟩ | ⟨name, rfl⟩
    · rw [step_blacklist]
      split
      · rename_i hi
        have hend := blacklist_guarded p hready (hm.nodes_lt i hi) hguarded
        exact ⟨hend.1.toSane, hend.2⟩
      · exact ⟨hm, hguarded⟩
    · rw [step_blacklistByName]
      have hend := blacklistByName_guarded p name hready hguarded
      exact ⟨hend.1.toSane, hend.2⟩
  · have hallows := allows_of_unbarred hshut hack (fun i heq => hblack (Or.inl ⟨i, heq⟩))
      fun name heq => hblack (Or.inr ⟨name, heq⟩)
    exact ⟨(ready_step p ev hready hallows).toSane,
      kept_step (fun _ _ hv hw => hw.of_act hv) hready hguarded hallows⟩

theorem barred_of_guarded (h : Guarded m ev (fun _ _ => False) (view (step p m ev))) :
    Barred p m ev := by
  intro n hn hmarked hkept
  have hlisted : Listed m ev n := ⟨hn, hmarked, hkept⟩
  exact ⟨h.marked n hlisted, h.active n hlisted, h.silent n hlisted⟩

theorem shut_of_opened (hm : Opened m) : Shut (view m) := by
  intro c hc
  rw [show (view m).connections = [] from hm.connections] at hc
  exact absurd hc List.not_mem_nil

/-- As long as no ACK request arrives on a connection that has identified itself as a
blacklisted node, blacklisted nodes are not let in. -/
theorem barred_along {evs : List Event} (hm : Opened m)
    (hrun : Along (step p) (fun m ev => acksUnbarred m ev = true) m evs) :
    Along (step p) (Barred p) m evs := by
  apply along_of_kept (I := fun m => Sane (view m) ∧ Shut (view m)) _ _ hrun
  · exact ⟨sane_of_opened hm, shut_of_opened hm⟩
  · intro m ev hack hboth
    have hend := step_guarded p ev hboth.1 hboth.2 hack
    refine ⟨hend.1, ?_⟩
    intro c hc i hi hmarked
    exact (hend.2.shut c hc i hi hmarked).resolve_right fun hno => hno
  · intro m ev hack hboth
    exact barred_of_guarded p (step_guarded p ev hboth.1 hboth.2 hack).2

/-- A peer is blacklisted, goes on sending, and connects again. -/
def barredPeer : List Event :=
  connected "peer" ++
  [.arrive 0 false (.record .packet), .blacklistByName "peer",
    .arrive 0 false (.record (.bogus [1])), .arrive 0 true (.record .packet),
    .accept (.inet 0x0a000003 655), .arrive 1 false (.line (.id "peer" 17 3 0)),
    .arrive 1 false .handshake, .arrive 1 false (.record .packet)]

theorem barred_along_barredPeer :
    ((run plainParams (newMesh "self") barredPeer).node 1).blacklisted = true ∧
      Along (step plainParams) (Barred plainParams) (newMesh "self") barredPeer :=
  ⟨by decide +kernel, barred_along plainParams (opened_newMesh (by decide)) (by decide +kernel)⟩

/-- A blacklisted node connects and sends an ACK request of its own accord, and then
a raw packet. -/
def intruder : List Event :=
  [.blacklistByName "n", .accept (.inet 0x0a000003 655), .arrive 0 false (.line (.id "n" 17 3 0)),
    .arrive 0 false .handshake, .arrive 0 false (.record (.ack "655" 1 0)),
    .arrive 0 false (.record .packet), .arrive 0 false (.record (.bogus [1]))]

theorem intruder_delivered :
    Opened (newMesh "self") ∧
      ((step plainParams (newMesh "self") (.blacklistByName "n")).node 1).blacklisted = true ∧
      .received (some 1) (.raw (.bogus [1])) ∈ (run plainParams (newMesh "self") intruder).log ∧
      ¬ Along (step plainParams) (Barred plainParams) (newMesh "self") intruder := by
  refine ⟨opened_newMesh (by decide), by decide +kernel, by decide +kernel, ?_⟩
  intro h
  -- the fifth event is the ACK request
  have hbarred := h.2.2.2.2.1 1 (by decide +kernel) (by decide +kernel) rfl
  have hactive := hbarred.2.1 0 (by decide +kernel) (by decide +kernel)
  exact absurd hactive.1 (by decide +kernel)

end Events

end Meshlink.Blacklisting
