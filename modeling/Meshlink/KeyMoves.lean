import Meshlink.EdgeMoves
import Meshlink.KeyWalks

/-!
The handlers of keys and packets, by the moves that they make. They send requests
that are not about edges, store the keys that they learn, and deliver the packets
of nodes that are not blacklisted.
-/
namespace Meshlink.KeyMoves

open Commands MeshState MetaKeys MeshView ViewGrowth MeshMoves EdgeMoves
open KeyWalks Relation

variable {α : Type} {R : Rules} {m : Mesh} (p : Params) (i : NodeId)

section Since

/-- The state is reached from `m₀` by moves. -/
def Since (R : Rules) (m₀ m : Mesh) : Prop := Step R m₀ m

/-- The command moves on from where `m` has led to. -/
abbrev Onward (R : Rules) (m : Mesh) (x : Command Mesh α) : Prop :=
  Keeping (Since R m) (Since R m) x

theorem moves_of_since {x : Command Mesh α} [h : Onward R m x] : Moves R x m :=
  Moves.of_step (h.keeps.after m ReflTransGen.refl)

/-- What moves from every state that has grown from `m` keeps being reached from it. -/
theorem since_of_moves {x : Command Mesh α}
    (h : ∀ m', Grows (view m) (view m') → Moves R x m') : Onward R m x where
  keeps := Triple.of_after fun m' hm => hm.trans (h m' (Grows.of_moves hm)).step

theorem since_of_leaves {x : Command Mesh α} (h : Leaves view x) : Onward R m x :=
  since_of_moves fun _ _ => Moves.of_leaves h

instance : KeyKept (Since R m) (Since R m) where
  modify i _ hf := since_of_leaves (leaves_modifyNode i hf.core)
  stored i _ := since_of_leaves (leaves_modifyNode i fun _ => rfl)
  count := since_of_leaves (Leaves.update fun _ => rfl)
  send c _ hr := since_of_moves fun _ _ => sendMeta_plain c hr.plain

instance (sa : Option Sockaddr) : Onward R m (updateNodeUdp p i sa) :=
  since_of_leaves leaves_of_keeping

end Since

section Packets

theorem deliver_moves (payload : Bytes) (hi : (m.node i).blacklisted = false) :
    Moves R (deliver i payload) m := by
  apply Reaches.gets_bind
  apply Reaches.ite
  · intro _
    exact Moves.of_move rfl (Move.channel (view m) i _ hi)
  intro _
  apply Reaches.when
  intro _
  exact Moves.of_move rfl (Move.received (view m) i _ hi)

theorem route_moves (packet : Packet) (hi : (m.node i).blacklisted = false) :
    Moves R (route p i packet) m := by
  cases packet with
  | short => exact Reaches.pure _ _
  | full destination payload =>
    apply Reaches.gets_bind
    split
    · exact Reaches.pure _ _
    refine Reaches.ite (fun _ => deliver_moves i payload hi) fun _ => ?_
    refine Reaches.unless fun _ => ?_
    refine Reaches.unless fun _ => ?_
    exact moves_of_since

theorem receivePacket_moves (packet : Packet) : Moves R (receivePacket p i packet) m := by
  apply Reaches.gets_bind
  refine Reaches.unless fun hi => ?_
  exact route_moves p i packet (by simpa using hi)

instance (packet : Packet) : Onward R m (receivePacket p i packet) :=
  since_of_moves fun _ _ => receivePacket_moves p i packet

end Packets

section Handlers

theorem learnKey_moves (pubkey : Option (Option Bytes)) (hi : i < m.nextNode) :
    Moves R (learnKey p i pubkey) m := by
  unfold learnKey
  split
  · refine Moves.leaves_bind (leaves_modifyNode i fun _ => rfl) fun _ m' _ hview => ?_
    refine Reaches.bind_pure (nodeWriteConfig_moves p i ?_) _
    have hnext : m'.nextNode = m.nextNode := congrArg View.nextNode hview
    exact hnext ▸ hi
  · exact Reaches.pure _ _

theorem reqKeyExtH_moves (r : ReqKey) (reqno : Reqno) (hi : i < m.nextNode) :
    Moves R (reqKeyExtH p i r reqno) m := by
  have hlearn : ∀ pubkey, Onward R m (learnKey p i pubkey) := fun pubkey =>
    since_of_moves fun m' hgrows =>
      learnKey_moves p i pubkey (hi.trans_le hgrows.nextNode)
  exact moves_of_since

theorem reqKeyH_moves (c : ConnId) (r : ReqKey) (hm : Sane (view m)) :
    Moves R (reqKeyH p c r) m := by
  refine Reaches.unless fun _ => ?_
  apply Reaches.gets_bind
  split
  · rename_i i j hfrom _
    have hi := hm.nodes_lt i (View.lookupNode_mem (v := view m) hfrom).1
    apply Reaches.ite
    · intro _
      split
      · exact Reaches.bind_pure (reqKeyExtH_moves p i r _ hi) _
      · exact Reaches.pure _ _
    · intro _
      exact moves_of_since
  · exact Reaches.pure _ _

instance (place : Option (String × String)) : Onward R m (takeReflexive p i place) := by
  unfold takeReflexive
  split <;> infer_instance

end Handlers

end Meshlink.KeyMoves
