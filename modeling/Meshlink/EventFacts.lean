import Meshlink.ControlFacts
import Meshlink.SendAtomicity

/-!
Which events the pieces of code leave behind. Only utcp_send reports accepted
data, only utcp_send and utcp_shutdown report a return value, and only a call
on a connection reports the call.
-/
namespace Meshlink.EventFacts

open UtcpState UtcpTimers UtcpSender UtcpReceiver
open Arrivals

variable (u : Utcp) (e : Env) (c : Conn)

/-- Events that report a call, data it accepted, or what it returned. -/
def Spoken : Ev → Prop
  | .accepted _ => True
  | .ret _ _ => True
  | .call _ _ _ => True
  | _ => False

def Quiet (evs : List Ev) : Prop := ∀ ev ∈ evs, ¬ Spoken ev

theorem Quiet.nil : Quiet [] := by
  intro ev hev
  simp at hev

theorem Quiet.cons {ev : Ev} {evs : List Ev} (hev : ¬ Spoken ev) (hevs : Quiet evs) :
    Quiet (ev :: evs) := by
  intro ev' hmem
  rcases List.mem_cons.mp hmem with rfl | hrest
  · exact hev
  · exact hevs ev' hrest

/-- Packets that go out. -/
inductive OnWire : Ev → Prop
  | control (p : Packet) : OnWire (.control p)
  | segment (p : Packet) : OnWire (.segment p)

def Wired (evs : List Ev) : Prop := ∀ ev ∈ evs, OnWire ev

theorem Wired.nil : Wired [] := by
  intro ev hev
  simp at hev

theorem Wired.cons {ev : Ev} {evs : List Ev} (hev : OnWire ev) (hevs : Wired evs) :
    Wired (ev :: evs) := by
  intro ev' hmem
  rcases List.mem_cons.mp hmem with rfl | hrest
  · exact hev
  · exact hevs ev' hrest

theorem Wired.quiet {evs : List Ev} (h : Wired evs) : Quiet evs := by
  intro ev hev hspoken
  cases h ev hev with
  | control | segment => exact hspoken

theorem ackLoop_wired (now : Timespec) (fuel : ℕ) (l : AckLoop) :
    Wired (ackLoop u now fuel l).2 := by
  induction fuel generalizing l with
  | zero => exact Wired.cons (.segment _) Wired.nil
  | succ fuel ih =>
    simp only [ackLoop]
    split
    · exact Wired.cons (.segment _) Wired.nil
    · exact Wired.cons (.segment _) (ih _)

theorem ack_wired (now : Timespec) (c : Conn) (one : Bool) (s : Step Unit)
    (h : UtcpSender.ack u now c one = some s) : Wired s.events := by
  simp only [UtcpSender.ack] at h
  split at h
  · simp at h
  split at h
  · cases h
    exact Wired.nil
  · cases h
    exact ackLoop_wired u now _ _

theorem sendBuffered_wired (len : Int) (s : Step Unit)
    (h : sendBuffered u e c len = some s) : Wired s.events := by
  simp only [sendBuffered] at h
  split at h
  · cases h
    exact Wired.nil
  split at h
  · simp at h
  rename_i t ht
  have hwired := ack_wired u _ _ _ t ht
  split at h
  · cases h
    exact hwired
  · cases h
    exact hwired

theorem fastRetransmit_wired (r : (ℕ → UInt8) × List Ev)
    (h : fastRetransmit u c = some r) : Wired r.2 := by
  unfold fastRetransmit at h
  split at h
  · cases h
    exact Wired.nil
  split at h
  all_goals first
    | (obtain ⟨seg, -, rfl⟩ := Option.map_eq_some_iff.mp h
       exact Wired.cons (.segment _) Wired.nil)
    | (cases h
       exact Wired.nil)

theorem acknowledged_wired (i : Incoming)
    (s : Step (Option UInt32)) (h : Acknowledged u e c i s) : Wired s.events := by
  cases h with
  | refused => exact Wired.nil
  | duplicate t _ ht =>
    rcases duplicateAck_events u e c _ t ht with hnone | ⟨d, r, -, hr, hevents⟩
    · dsimp only
      rw [hnone]
      exact Wired.nil
    · dsimp only
      rw [hevents]
      exact fastRetransmit_wired u d r hr
  | advances c' _ _ _ => exact Wired.nil

/-- A packet is recorded, and then at most a segment goes out before the first callback. -/
theorem arrive_wired (i : Incoming)
    (s : Step (Incoming × Verdict)) (h : UtcpReceiver.arrive u e c i = some s) :
    ∃ sent, s.events = .arrive c i :: sent ∧ Wired sent := by
  cases arrive_cases u e c i s h with
  | closed | stray | reset | unacked => exact ⟨[], rfl, Wired.nil⟩
  | refused t _ _ ht _ => exact ⟨t.events, rfl, acknowledged_wired u e _ _ t ht⟩
  | acked t advanced _ _ _ ht _ => exact ⟨t.events, rfl, acknowledged_wired u e _ _ t ht⟩

theorem retransmitSend_wired (s : Step Unit)
    (h : retransmitSend u e c = some s) : ∃ sent, s.events = .rtrx c :: sent ∧ Wired sent := by
  unfold retransmitSend at h
  split at h
  all_goals first
    | (obtain ⟨seg, -, rfl⟩ := Option.map_eq_some_iff.mp h
       exact ⟨_, rfl, Wired.cons (.segment _) Wired.nil⟩)
    | (cases h
       exact ⟨_, rfl, Wired.cons (.control _) Wired.nil⟩)
    | (cases h
       exact ⟨_, rfl, Wired.nil⟩)

theorem resetConnection_wired : Wired (resetConnection u c).events := by
  unfold resetConnection
  split
  · exact Wired.nil
  dsimp only
  split
  all_goals first
    | exact Wired.nil
    | exact Wired.cons (.control _) Wired.nil

end Meshlink.EventFacts
