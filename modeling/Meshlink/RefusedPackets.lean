import Meshlink.ConnectionTable

/-!
Packets that belong to no connection and are answered with a reset. The answer is
given before a connection is allocated, when the allocation fails, or after it, when
the init header of a SYN has version 0. In the last case the connection stays in the
table: it is closed but not marked for removal, so utcp_timeout passes over it.
-/
namespace Meshlink.RefusedPackets

open UtcpState UtcpReceiver Commands UtcpEndpoint UtcpProcess ConnectionTable
open SendAtomicity (sampleEnv)

/-- A callback that gives its answer without a call into the library. -/
def Quiet (cb : Command World Bool) : Prop :=
  ∀ w, ∃ answer scripts, cb w = (some answer, { w with scripts := scripts })

/-- A reset was sent between the two states. -/
def Answered (w w' : World) : Prop :=
  ∃ evs, w'.trace = w.trace ++ evs ∧ ∃ h q, (h, .control q) ∈ evs ∧ q.hdr.ctl.rst = true

section Packet

variable {cb : Command World Bool} {e : Env} {i : Incoming} {w : World}

/-- The packet is a SYN that the application wants and that there is room for, but
its init header has version 0. -/
structure BadVersion (cb : Command World Bool) (e : Env) (i : Incoming) (w : World) : Prop where
  rst : i.hdr.ctl.rst = false
  syn : i.hdr.ctl.syn = true ∧ i.hdr.ctl.ack = false
  accept : w.utcp.accept = true
  wanted : (askListen cb w).1 = some true
  port : refused w.utcp i.hdr.dst i.hdr.src = false
  memory : outOfMemory w.utcp e = false
  version : ∃ init, i.init = some init ∧ init.version = 0

theorem askListen_quiet (hcb : Quiet cb) (w : World) :
    ∃ answer scripts, askListen cb w = (some answer, { w with scripts := scripts }) := by
  unfold askListen
  rw [bind_of_some (rfl : gets World.utcp w = (some w.utcp, w))]
  split
  · exact hcb w
  · exact ⟨true, w.scripts, rfl⟩

theorem not_answered_of_trace {w' : World} {evs : List (ℕ × Ev)} (h : w'.trace = w.trace ++ evs)
    (hevs : ∀ h q, (h, Ev.control q) ∈ evs → q.hdr.ctl.rst = false) : ¬Answered w w' := by
  rintro ⟨evs', hevs', k, q, hq, hrst⟩
  rw [List.append_cancel_left (h.symm.trans hevs')] at hevs
  exact absurd (hevs k q hq) (by rw [hrst]; decide)

/-- What code on one connection adds to the trace. -/
theorem onConn_trace {α : Type} (h : ℕ) (f : Utcp → Conn → Option (Step α)) (w : World) :
    (after (onConn h f) w).trace = w.trace ∨
      ∃ u c s, f u c = some s ∧
        (after (onConn h f) w).trace = w.trace ++ s.events.map fun ev => (h, ev) := by
  unfold after onConn
  cases Handles.find w.utcp.connections h with
  | none => exact .inl rfl
  | some c =>
    dsimp only
    cases hs : f w.utcp c with
    | none => exact .inl rfl
    | some s => exact .inr ⟨_, _, s, hs, rfl⟩

/-- A SYN that is answered with a SYN of its own is not refused. -/
theorem not_answered_synack {h : ℕ} {c : Conn} (flags : UInt32) {w₁ : World}
    (hw : w₁.trace = w.trace ++ [(h, .opened c)]) :
    ¬Answered w (after (onConn h fun u c => some (synack u e { c with flags := flags } i)) w₁) := by
  rcases onConn_trace h (fun u c => some (synack u e { c with flags := flags } i)) w₁ with
    htrace | ⟨u, c', s, hs, htrace⟩
  · refine not_answered_of_trace (htrace.trans hw) fun k q hq => ?_
    exact absurd (congrArg Prod.snd (List.mem_singleton.mp hq)) (by simp)
  cases hs
  rw [hw, List.append_assoc] at htrace
  refine not_answered_of_trace htrace fun k q hq => ?_
  simp only [synack, List.map_cons, List.map_nil, List.cons_append, List.nil_append,
    List.mem_cons, Prod.mk.injEq, reduceCtorEq, and_false, Ev.control.injEq, List.not_mem_nil,
    or_false, false_or] at hq
  rw [hq.2]

/-- How a packet that belongs to no connection is dealt with. -/
theorem recvNew_cases (hcb : Quiet cb) (e : Env) (i : Incoming) (w : World) :
    (¬BadVersion cb e i w ∧
        (after (recvNew cb e i) w).utcp.connections = w.utcp.connections) ∨
      (BadVersion cb e i w ∧ (after (recvNew cb e i) w).utcp.connections.length =
        w.utcp.connections.length + 1) ∨
      ¬Answered w (after (recvNew cb e i) w) := by
  unfold recvNew
  obtain ⟨answer, scripts, hask⟩ := askListen_quiet hcb w
  rw [after_bind (rfl : gets World.utcp w = (some w.utcp, w))]
  by_cases hrst : i.hdr.ctl.rst = true
  · rw [if_pos hrst]
    exact .inl ⟨fun h => absurd (h.rst.symm.trans hrst) (by decide), rfl⟩
  rw [if_neg hrst]
  by_cases hsyn : i.hdr.ctl.syn = false ∨ i.hdr.ctl.ack = true ∨ w.utcp.accept = false
  · rw [if_pos hsyn]
    refine .inl ⟨fun h => ?_, rfl⟩
    rcases hsyn with hsyn | hack | haccept
    · exact absurd (h.syn.1.symm.trans hsyn) (by decide)
    · exact absurd (h.syn.2.symm.trans hack) (by decide)
    · exact absurd (h.accept.symm.trans haccept) (by decide)
  rw [if_neg hsyn, after_bind hask]
  simp only [not_or, Bool.not_eq_false, Bool.not_eq_true] at hsyn hrst
  have hanswer : (askListen cb w).1 = some answer := by rw [hask]
  cases answer with
  | false =>
    exact .inl ⟨fun h => absurd (h.wanted.symm.trans hanswer) (by decide), rfl⟩
  | true =>
    rw [if_neg (by decide)]
    have halloc := allocateConnection_eq e i.hdr.dst i.hdr.src { w with scripts := scripts }
    cases hport : refused w.utcp i.hdr.dst i.hdr.src with
    | true =>
      rw [if_pos hport] at halloc
      rw [after_bind halloc]
      exact .inl ⟨fun h => absurd (h.port.symm.trans hport) (by decide), rfl⟩
    | false =>
      rw [if_neg (by rw [hport]; decide)] at halloc
      cases hmemory : outOfMemory w.utcp e with
      | true =>
        rw [if_pos hmemory] at halloc
        rw [after_bind halloc]
        exact .inl ⟨fun h => absurd (h.memory.symm.trans hmemory) (by decide), rfl⟩
      | false =>
        rw [if_neg (by rw [hmemory]; decide)] at halloc
        rw [after_bind halloc]
        cases hinit : i.init with
        | none => exact .inr (.inr (not_answered_synack utcpTcp rfl))
        | some init =>
          dsimp only
          by_cases hversion : init.version < 1
          · rw [if_pos hversion]
            have hbad : BadVersion cb e i w :=
              ⟨hrst, ⟨hsyn.1, hsyn.2.1⟩, hsyn.2.2, hanswer, hport, hmemory, init, hinit,
                UInt8.lt_one_iff.mp hversion⟩
            exact .inr (.inl ⟨hbad, List.orderedInsert_length portsLe _ _⟩)
          · rw [if_neg hversion]
            exact .inr (.inr (not_answered_synack _ rfl))

/-- The table is the same after a packet that is refused exactly when it is not one of
these SYNs. -/
theorem refused_packet_keeps_table {p : Packet} (hcb : Quiet cb) (hparse : parsePacket p = some i)
    (hnew : findConnection w.utcp p.hdr.dst p.hdr.src = none)
    (hanswered : Answered w (after (utcpRecv cb e (.packet p)) w)) :
    (after (utcpRecv cb e (.packet p)) w).utcp.connections = w.utcp.connections ↔
      ¬BadVersion cb e i w := by
  have hafter : after (utcpRecv cb e (.packet p)) w = after (recvNew cb e i) w := by
    have hfind : gets (fun w : World => findConnection w.utcp p.hdr.dst p.hdr.src) w =
        (some none, w) := congrArg (fun found => (some found, w)) hnew
    simp only [utcpRecv, hparse]
    rw [after_bind hfind]
    exact after_bind_pure _ _ _
  rw [hafter] at hanswered ⊢
  rcases recvNew_cases hcb e i w with ⟨hgood, hsame⟩ | ⟨hbad, hlength⟩ | hnot
  · exact ⟨fun _ => hgood, fun _ => hsame⟩
  · refine ⟨fun hsame => ?_, fun hgood => absurd hbad hgood⟩
    rw [hsame] at hlength
    omega
  · exact absurd hanswered hnot

end Packet

section Samples

def listeningWorld : World := { emptyWorld with utcp := { emptyWorld.utcp with listen := true } }

/-- A SYN from port 7 to port 5 with an init header of the given version. -/
def synOfVersion (version : UInt8) : Packet :=
  ⟨⟨7, 5, 100, 0, 65535, { syn := true }, 0x0101⟩, [version, 0, 0, 7]⟩

theorem quiet_pure (answer : Bool) : Quiet (pure answer) := fun w => ⟨answer, w.scripts, rfl⟩

/-- The listen callback refuses a SYN. -/
theorem refused_packet_keeps_table_unwanted :
    let w := after (utcpRecv (pure false) (sampleEnv true) (.packet (synOfVersion 0)))
      listeningWorld
    Answered listeningWorld w ∧ w.utcp.connections = listeningWorld.utcp.connections := by
  intro w
  have hanswered : Answered listeningWorld w :=
    ⟨_, rfl, 0, resetPacket (synOfVersion 0).hdr 1, List.mem_singleton.mpr rfl, rfl⟩
  refine ⟨hanswered, ?_⟩
  refine (refused_packet_keeps_table (i := ⟨(synOfVersion 0).hdr, [], some ⟨0, 0, 0, 7⟩⟩)
    (quiet_pure false) rfl rfl hanswered).mpr fun hbad => ?_
  exact absurd hbad.wanted (by decide)

/-- A SYN of version 0 is refused and leaves a connection behind, which no timeout
takes out of the table again. -/
theorem refused_packet_leaves_connection :
    let w := after (utcpRecv (pure true) (sampleEnv true) (.packet (synOfVersion 0))) emptyWorld
    Answered emptyWorld w ∧ w.utcp.connections ≠ emptyWorld.utcp.connections ∧
      (after (utcpTimeout (pure true) ⟨1000, 0⟩ fun _ => sampleEnv true) w).utcp.connections.length
        = 1 := by
  refine ⟨⟨_, rfl, 1, resetPacket (synOfVersion 0).hdr 1, ?_, rfl⟩, ?_, by decide +kernel⟩
  · exact List.mem_cons_of_mem _ (List.mem_singleton.mpr rfl)
  · intro hsame
    exact absurd (congrArg List.length hsame) (by decide +kernel)

end Samples

end Meshlink.RefusedPackets
