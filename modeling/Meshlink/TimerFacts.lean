import Meshlink.EventFacts

/-!
What the code does to the timers of a connection, together with the sequence
numbers they guard: snd.una and snd.last. A timer that is started is set,
because clocks have passed their first second and the user timeout is not
negative.
-/
namespace Meshlink.TimerFacts

open UtcpState UtcpTimers UtcpSender UtcpReceiver
open UtcpEndpoint SenderFacts ControlFacts Arrivals Moves

variable (u : Utcp) (e : Env) (c : Conn)

/-- The fields the timers depend on, and the timers. -/
def SameTimers (c c' : Conn) : Prop :=
  c'.sndUna = c.sndUna ∧ c'.sndLast = c.sndLast ∧ c'.connTimeout = c.connTimeout ∧
    c'.rtrxTimeout = c.rtrxTimeout

theorem SameTimers.refl : SameTimers c c := ⟨rfl, rfl, rfl, rfl⟩

theorem sameTimers_of_sent {c c' : Conn} (h : Sent c c') : SameTimers c c' := by
  obtain ⟨nxt, start, seq, rfl⟩ := h
  exact SameTimers.refl c

theorem startRetransmitTimer_isset (now : Timespec) (h : 0 < now.sec) :
    timespecIsset (startRetransmitTimer c now).rtrxTimeout = true :=
  retransmitDeadline_isset now c.rto h

theorem startConnTimer_isset (now : Timespec) (h : 0 < now.sec)
    (hu : 0 ≤ u.timeout) : timespecIsset (startConnTimer u c now).connTimeout = true := by
  unfold timespecIsset startConnTimer
  apply decide_eq_true
  dsimp only
  omega

/-- An acknowledgement that advances snd.una, before the timers are looked at. -/
theorem advanceUna_seqs (c c' : Conn) (ackno advanced : UInt32)
    (h : advanceUna u e c ackno advanced = some c') : c'.sndUna = ackno ∧ c'.sndLast = c.sndLast ∧
      (ackno ≠ c.sndLast → c'.state = c.state ∧ c'.connTimeout = c.connTimeout ∧
        c'.rtrxTimeout = c.rtrxTimeout) ∧
      (ackno = c.sndLast → c.state ≠ .closing → c'.state ≠ .timeWait ∨ c.state = .timeWait) := by
  obtain ⟨_, _, _, _, _, _, _, _, rfl⟩ := advanceUna_cases u e h
  rcases finAcked_cases u e _ with heq | ⟨hall, ⟨hstate, heq⟩ | ⟨hstate, heq⟩⟩
  · rw [heq]
    exact ⟨rfl, rfl, fun _ => ⟨rfl, rfl, rfl⟩, fun _ _ => (em _).symm⟩
  · rw [heq]
    exact ⟨rfl, rfl, fun hne => absurd hall hne, fun _ _ => Or.inl (by simp)⟩
  · rw [heq]
    exact ⟨rfl, rfl, fun hne => absurd hall hne, fun _ hnot => absurd hstate hnot⟩

/-- Both timers run: what step 4 leaves behind while something is unacknowledged. -/
def BothSet (c : Conn) : Prop :=
  timespecIsset c.connTimeout = true ∧ timespecIsset c.rtrxTimeout = true

/-- Steps 3 and 4 refuse the acknowledgement, find nothing new in it, or advance
snd.una to it; in the last case the timers follow from whether everything is
acknowledged. -/
inductive AckOutcome (c : Conn) (ackno : UInt32) (s : Step (Option UInt32)) : Prop
  | refused (hconn : s.conn = c) (hvalue : s.value = none)
  | nothing (hvalue : s.value = some 0) (hack : ackno = c.sndUna)
      (huna : s.conn.sndUna = c.sndUna) (hlast : s.conn.sndLast = c.sndLast)
      (hconn : s.conn.connTimeout = c.connTimeout) (hstate : s.conn.state = c.state)
      (hrtrx : s.conn.rtrxTimeout = c.rtrxTimeout ∨ timespecIsset s.conn.rtrxTimeout = true)
  | everything (advanced : UInt32) (hvalue : s.value = some advanced) (hadv : advanced ≠ 0)
      (hack : ackno = c.sndLast) (hrange : Advances c ackno)
      (huna : s.conn.sndUna = c.sndLast) (hlast : s.conn.sndLast = c.sndLast)
      (hstate : c.state ≠ .closing → s.conn.state ≠ .timeWait ∨ c.state = .timeWait)
  | part (advanced : UInt32) (hvalue : s.value = some advanced) (hadv : advanced ≠ 0)
      (hack : ackno ≠ c.sndLast) (hrange : Advances c ackno)
      (huna : s.conn.sndUna = ackno) (hlast : s.conn.sndLast = c.sndLast)
      (hstate : s.conn.state = c.state) (hset : isReliable c = true → BothSet s.conn)
      (hkept : isReliable c = false → s.conn.connTimeout = c.connTimeout)

theorem duplicateAck_timers (empty : Bool) (s : Step Unit)
    (he : UtcpTimers.Env.ClockRuns e) (h : duplicateAck u e c empty = some s) :
    s.conn.sndUna = c.sndUna ∧ s.conn.sndLast = c.sndLast ∧
      s.conn.connTimeout = c.connTimeout ∧ s.conn.state = c.state ∧
      (s.conn.rtrxTimeout = c.rtrxTimeout ∨ timespecIsset s.conn.rtrxTimeout = true) := by
  simp only [duplicateAck] at h
  split at h
  · cases h
    exact ⟨rfl, rfl, rfl, rfl, Or.inl rfl⟩
  split at h
  · obtain ⟨r, -, rfl⟩ := Option.map_eq_some_iff.mp h
    exact ⟨rfl, rfl, rfl, rfl, Or.inr (startRetransmitTimer_isset _ _ (he 5))⟩
  cases h
  have hset : ∀ d : Conn, timespecIsset (startRetransmitTimer d (e.clk 5)).rtrxTimeout = true :=
    fun d => startRetransmitTimer_isset d _ (he 5)
  split <;> exact ⟨rfl, rfl, rfl, rfl, Or.inr (hset _)⟩

theorem handleAck_outcome (i : Incoming)
    (s : Step (Option UInt32)) (he : UtcpTimers.Env.ClockRuns e) (hu : 0 ≤ u.timeout)
    (h : Acknowledged u e c i s) : AckOutcome c i.hdr.ack s := by
  cases h with
  | refused => exact .refused rfl rfl
  | duplicate t hack ht =>
    obtain ⟨huna, hlast, hconn, hstate, hrtrx⟩ := duplicateAck_timers u e c _ t he ht
    exact .nothing rfl hack huna hlast hconn hstate hrtrx
  | advances c' hwindow hadv hc' =>
    obtain ⟨huna, hlast, hpart, hall⟩ := advanceUna_seqs u e c c' _ _ hc'
    obtain ⟨-, hflags, -⟩ := advanceUna_control u e c c' _ _ hc'
    have hrel : isReliable c' = isReliable c := by
      unfold isReliable
      rw [hflags]
    by_cases hlastack : i.hdr.ack = c.sndLast
    · have heq : c'.sndUna = c'.sndLast := by rw [huna, hlast, hlastack]
      have hupdate : updateTimers u e c' =
          { stopRetransmitTimer c' with connTimeout := timespecClear } := by
        unfold updateTimers
        rw [if_pos heq]
      rw [hupdate]
      exact .everything _ rfl hadv hlastack hwindow (huna.trans hlastack) hlast (hall hlastack)
    · have hneq : ¬ c'.sndUna = c'.sndLast := by
        rw [huna, hlast]
        exact hlastack
      obtain ⟨hstate, hconn, -⟩ := hpart hlastack
      cases hreliable : isReliable c with
      | true =>
        have hupdate : updateTimers u e c' =
            startConnTimer u (startRetransmitTimer c' (e.clk 6)) (e.clk 7) := by
          unfold updateTimers
          rw [if_neg hneq, if_pos (hrel.trans hreliable)]
        rw [hupdate]
        refine .part _ rfl hadv hlastack hwindow huna hlast hstate (fun _ => ?_) fun hfalse => ?_
        · exact ⟨startConnTimer_isset u _ _ (he 7) hu, startRetransmitTimer_isset c' _ (he 6)⟩
        · rw [hreliable] at hfalse
          simp at hfalse
      | false =>
        have hupdate : updateTimers u e c' = c' := by
          unfold updateTimers
          rw [if_neg hneq, if_neg (by rw [hrel, hreliable]; simp)]
        rw [hupdate]
        refine .part _ rfl hadv hlastack hwindow huna hlast hstate (fun htrue => ?_) fun _ => hconn
        rw [hreliable] at htrue
        simp at htrue

/-- Clocks have passed their first second and no call sets a negative user timeout. -/
def clocks : Rules where
  okEnv := UtcpTimers.Env.ClockRuns
  okOp := fun _ => True
  okRequest := fun request => ∀ timeout, request = .setUserTimeout timeout → 0 ≤ timeout
  okIncoming := fun _ => True

/-- The endpoint's side of the timers: the user timeout stays nonnegative. -/
theorem timeout_request (call : Call) (hcall : clocks.okCall call) (hu : 0 ≤ u.timeout) :
    match call.request with
    | .setMtu mtu => 0 ≤ (setMtu call.env mtu u).timeout
    | .setUserTimeout timeout => 0 ≤ timeout
    | .setAcceptCb _ _ => 0 ≤ u.timeout
    | .setRetransmitCb _ => 0 ≤ u.timeout
    | .setClockGranularity _ => 0 ≤ u.timeout
    | _ => True := by
  obtain ⟨request, e⟩ := call
  obtain ⟨-, hrequest, -⟩ := hcall
  cases request with
  | setMtu mtu =>
    simp only [setMtu]
    split
    · exact hu
    · split <;> exact hu
  | setUserTimeout timeout => exact hrequest timeout rfl
  | setAcceptCb | setRetransmitCb | setClockGranularity => exact hu
  | _ => trivial

end Meshlink.TimerFacts
