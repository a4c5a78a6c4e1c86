import Meshlink.Arrivals
import Meshlink.SenderMoves
import Meshlink.SenderFacts

/-!
What the code does to the state of a connection and to its write-shutdown
flag. Sending, acknowledging and storing data leave both alone; the flag is
never taken back; only SYN processing and utcp_accept lead to ESTABLISHED.
-/
namespace Meshlink.ControlFacts

open UtcpState UtcpTimers UtcpSender UtcpReceiver
open UtcpEndpoint SenderFacts Arrivals SenderMoves

variable (u : Utcp) (e : Env) (c : Conn) (i : Incoming)

/-- The fields that most of the code leaves alone. -/
def SameControl (c c' : Conn) : Prop :=
  c'.state = c.state ∧ c'.shutWr = c.shutWr ∧ c'.flags = c.flags ∧ c'.reapable = c.reapable

theorem SameControl.refl : SameControl c c := ⟨rfl, rfl, rfl, rfl⟩

theorem sameControl_of_sent {c c' : Conn} (h : Sent c c') : SameControl c c' := by
  obtain ⟨nxt, start, seq, rfl⟩ := h
  exact SameControl.refl c

theorem sameControl_of_sameSender {c c' : Conn} (h : SameSender c c') : SameControl c c' := by
  obtain ⟨rcvbuf, sacks, nxt, rfl⟩ := h
  exact SameControl.refl c

theorem sameControl_of_retimed {c c' : Conn} (h : Retimed c c') : SameControl c c' := by
  obtain ⟨conn, rtrx, start, rto, rfl⟩ := h
  exact SameControl.refl c

theorem utcpSend_sameControl (data : Option (List UInt8))
    (s : Step Ret) (h : utcpSend u e c data = some s) : SameControl c s.conn := by
  rw [utcpSend_queued h]
  exact SameControl.refl c

theorem retransmitSend_sameControl (s : Step Unit)
    (h : retransmitSend u e c = some s) : SameControl c s.conn := by
  unfold retransmitSend at h
  split at h
  all_goals first
    | (obtain ⟨seg, -, rfl⟩ := Option.map_eq_some_iff.mp h
       exact SameControl.refl c)
    | (cases h
       exact SameControl.refl c)

/-- utcp_set_flags leaves every flag alone that is not changeable. -/
theorem utcpSetFlags_kept (flags mask : UInt32)
    (hkept : ~~~utcpChangeableFlags &&& mask = mask) (hnone : utcpChangeableFlags &&& mask = 0) :
    (utcpSetFlags c flags).flags &&& mask = c.flags &&& mask := by
  have hdistrib : ∀ a b m : UInt32, (a ||| b) &&& m = (a &&& m) ||| (b &&& m) := by
    intro a b m
    apply UInt32.toBitVec_inj.mp
    simp only [UInt32.toBitVec_and, UInt32.toBitVec_or]
    exact BitVec.and_or_distrib_right
  dsimp only [utcpSetFlags]
  rw [hdistrib, UInt32.and_assoc, UInt32.and_assoc, hkept, hnone, UInt32.and_zero, UInt32.or_zero]

theorem utcpSetFlags_reliable (flags : UInt32) :
    isReliable (utcpSetFlags c flags) = isReliable c := by
  have hbit := utcpSetFlags_kept c flags utcpReliable (by decide) (by decide)
  unfold isReliable
  rw [hbit]

/-- An acknowledgement of our FIN ends the first half of the closing handshake. -/
theorem finAcked_cases : finAcked u e c = c ∨ c.sndUna = c.sndLast ∧
    (c.state = .finWait1 ∧ finAcked u e c = { c with state := .finWait2 } ∨
      c.state = .closing ∧
        finAcked u e c = { startConnTimer u c (e.clk 4) with state := .timeWait }) := by
  unfold finAcked
  split
  · exact Or.inl rfl
  rename_i hall
  split
  · rename_i hstate
    exact Or.inr ⟨not_not.mp hall, Or.inl ⟨hstate, rfl⟩⟩
  · rename_i hstate
    exact Or.inr ⟨not_not.mp hall, Or.inr ⟨hstate, rfl⟩⟩
  · exact Or.inl rfl

/-- The connection that steps 1 to 3 leave to the check for our FIN. -/
theorem advanceUna_cases {c c' : Conn} {ackno advanced : UInt32}
    (h : advanceUna u e c ackno advanced = some c') :
    ∃ sndbuf doPoll nxt start srtt rttvar rto cwnd, c' = finAcked u e { c with
      sndbuf := sndbuf, doPoll := doPoll, sndNxt := nxt, sndUna := ackno, rttStart := start
      srtt := srtt, rttvar := rttvar, rto := rto, sndCwnd := cwnd, dupack := 0 } := by
  obtain ⟨start, srtt, rttvar, rto, hm⟩ := measureRtt_eq u e c ackno
  simp only [advanceUna] at h
  split at h
  · cases h
  obtain ⟨g, hg, rfl⟩ := Option.map_eq_some_iff.mp h
  obtain ⟨cwnd, rfl⟩ := growCwnd_eq u hg
  rw [hm]
  exact ⟨_, _, _, _, _, _, _, _, rfl⟩

/-- An acknowledgement changes the state only when it covers our FIN. -/
theorem advanceUna_control (c c' : Conn) (ackno advanced : UInt32)
    (h : advanceUna u e c ackno advanced = some c') : c'.shutWr = c.shutWr ∧ c'.flags = c.flags ∧
      (c'.state = c.state ∨ (c.state = .finWait1 ∧ c'.state = .finWait2) ∨
        (c.state = .closing ∧ c'.state = .timeWait)) := by
  obtain ⟨_, _, _, _, _, _, _, _, rfl⟩ := advanceUna_cases u e h
  rcases finAcked_cases u e _ with heq | ⟨-, ⟨hstate, heq⟩ | ⟨hstate, heq⟩⟩
  · rw [heq]
    exact ⟨rfl, rfl, Or.inl rfl⟩
  · rw [heq]
    exact ⟨rfl, rfl, Or.inr (Or.inl ⟨hstate, rfl⟩)⟩
  · rw [heq]
    exact ⟨rfl, rfl, Or.inr (Or.inr ⟨hstate, rfl⟩)⟩

theorem handleAck_control (s : Step (Option UInt32)) (h : Acknowledged u e c i s) :
    s.conn.shutWr = c.shutWr ∧ s.conn.flags = c.flags ∧
      (s.conn.state = c.state ∨ (c.state = .finWait1 ∧ s.conn.state = .finWait2) ∨
        (c.state = .closing ∧ s.conn.state = .timeWait)) := by
  cases h with
  | refused => exact ⟨rfl, rfl, Or.inl rfl⟩
  | duplicate t _ ht =>
    dsimp only
    rw [duplicateAck_paced u e c _ t ht]
    exact ⟨rfl, rfl, Or.inl rfl⟩
  | advances c' _ _ hc' =>
    obtain ⟨conn, rtrx, heq⟩ := updateTimers_eq u e c'
    rw [heq]
    exact advanceUna_control u e c c' _ _ hc'

/-- What a packet does to the state before any callback runs. -/
inductive StateStep (c : Conn) : State → Prop
  | same : StateStep c c.state
  | closed : StateStep c .closed
  | finAcked (h : c.state = .finWait1) : StateStep c .finWait2
  | closingAcked (h : c.state = .closing) : StateStep c .timeWait
  | connected (h : c.state = .synSent) (hshut : c.shutWr = false) : StateStep c .established
  | connectedShut (h : c.state = .synSent) (hshut : c.shutWr = true) : StateStep c .finWait1

theorem handleSyn_control (advanced : UInt32) :
    (handleSyn c i advanced).1.shutWr = c.shutWr ∧ (handleSyn c i advanced).1.flags = c.flags ∧
      StateStep c (handleSyn c i advanced).1.state := by
  unfold handleSyn
  split
  · exact ⟨rfl, rfl, .same⟩
  split
  · rename_i hstate
    split
    · exact ⟨rfl, rfl, .same⟩
    dsimp only
    split
    · rename_i hshut
      exact ⟨rfl, rfl, .connectedShut hstate hshut⟩
    · rename_i hshut
      exact ⟨rfl, rfl, .connected hstate (by simpa using hshut)⟩
  · exact ⟨rfl, rfl, .same⟩
  · exact ⟨rfl, rfl, .same⟩
  · exact ⟨rfl, rfl, .same⟩
  · exact ⟨rfl, rfl, .same⟩

theorem handleRst_control (hasAck : Bool) (r : Conn × Verdict) (h : handleRst c hasAck = some r) :
    r.1.shutWr = c.shutWr ∧ r.1.flags = c.flags ∧ StateStep c r.1.state := by
  unfold handleRst at h
  split at h
  all_goals (try split at h)
  all_goals (try split at h)
  all_goals (simp only [Option.some.injEq, reduceCtorEq] at h)
  all_goals (subst r; first | exact ⟨rfl, rfl, .same⟩ | exact ⟨rfl, rfl, .closed⟩)

/-- SYN processing only leaves SYN_SENT, where the acknowledgement changed nothing. -/
theorem stateStep_acked {c d : Conn} {after : State} (hshut : d.shutWr = c.shutWr)
    (hstate : d.state = c.state ∨ (c.state = .finWait1 ∧ d.state = .finWait2) ∨
      (c.state = .closing ∧ d.state = .timeWait))
    (hstep : StateStep d after) : StateStep c after := by
  rcases hstate with hsame | ⟨hold, hnew⟩ | ⟨hold, hnew⟩
  · cases hstep with
    | same =>
      rw [hsame]
      exact .same
    | closed => exact .closed
    | finAcked h => exact .finAcked (hsame.symm.trans h)
    | closingAcked h => exact .closingAcked (hsame.symm.trans h)
    | connected h hs => exact .connected (hsame.symm.trans h) (hshut.symm.trans hs)
    | connectedShut h hs => exact .connectedShut (hsame.symm.trans h) (hshut.symm.trans hs)
  · cases hstep with
    | same =>
      rw [hnew]
      exact .finAcked hold
    | closed => exact .closed
    | finAcked h => simp [hnew] at h
    | closingAcked h => simp [hnew] at h
    | connected h hs => simp [hnew] at h
    | connectedShut h hs => simp [hnew] at h
  · cases hstep with
    | same =>
      rw [hnew]
      exact .closingAcked hold
    | closed => exact .closed
    | finAcked h => simp [hnew] at h
    | closingAcked h => simp [hnew] at h
    | connected h hs => simp [hnew] at h
    | connectedShut h hs => simp [hnew] at h

/-- What a packet does to the control fields before any callback runs. -/
theorem arrive_control (s : Step (Incoming × Verdict)) (h : UtcpReceiver.arrive u e c i = some s) :
    s.conn.shutWr = c.shutWr ∧ s.conn.flags = c.flags ∧ StateStep c s.conn.state := by
  have hview : ∀ st, StateStep { c with sndWnd := i.hdr.wnd } st → StateStep c st := by
    intro st hst
    refine stateStep_acked ?_ (Or.inl ?_) hst <;> rfl
  cases arrive_cases u e c i s h with
  | closed | stray => exact ⟨rfl, rfl, .same⟩
  | reset r _ _ hr =>
    obtain ⟨hshut, hflags, hstep⟩ := handleRst_control _ _ r hr
    exact ⟨hshut, hflags, hview _ hstep⟩
  | unacked _ _ =>
    obtain ⟨hshut, hflags, hstep⟩ := handleSyn_control { c with sndWnd := i.hdr.wnd }
      (trimmedSegment c i) 0
    exact ⟨hshut, hflags, hview _ hstep⟩
  | refused t _ _ ht _ =>
    obtain ⟨hshut, hflags, hstate⟩ := handleAck_control u e _ _ t ht
    exact ⟨hshut, hflags, hview _ (stateStep_acked hshut hstate .same)⟩
  | acked t advanced _ _ _ ht _ =>
    obtain ⟨hshut, hflags, hstate⟩ := handleAck_control u e _ _ t ht
    obtain ⟨hsshut, hsflags, hsstep⟩ := handleSyn_control t.conn (trimmedSegment c i) advanced
    exact ⟨hsshut.trans hshut, hsflags.trans hflags,
      hview _ (stateStep_acked hshut hstate hsstep)⟩

end Meshlink.ControlFacts
