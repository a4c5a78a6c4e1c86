import Meshlink.CallPieces
import Meshlink.RttEstimate

/-!
What calls of the application do to the deadlines of a connection. A deadline that a
call sets comes from a reading of the clock, so that it is a normalised time that is
not before any earlier reading. Everything else a call can do is to leave a deadline
as it is or to clear it, and no call opens a closed connection again.
-/
namespace Meshlink.Deadlines

open UtcpState UtcpTimers UtcpSender
open UtcpEndpoint SenderFacts CallPieces RttEstimate

section Times

variable {now t : Timespec}

/-- timespec_sub is exact, whatever the times are. -/
theorem nanoseconds_timespecSub (a b : Timespec) :
    nanoseconds (timespecSub a b) = nanoseconds a - nanoseconds b := by
  unfold timespecSub
  split
  all_goals
    simp only [nanoseconds, nsecPerSec]
    omega

theorem timespecLt_iff {a b : Timespec} (ha : Normalised a) (hb : Normalised b) :
    timespecLt a b = true ↔ nanoseconds a < nanoseconds b := by
  unfold timespecLt
  split
  all_goals
    simp only [Normalised, nanoseconds, nsecPerSec, decide_eq_true_eq] at *
    omega

/-- A reading of the clock that is taken at `now` or later. -/
def Reading (now t : Timespec) : Prop := Normalised t ∧ nanoseconds now ≤ nanoseconds t

/-- A deadline that is not before `now`, or that is not set. -/
structure Late (now t : Timespec) : Prop where
  normalised : Normalised t
  late : timespecIsset t = true → nanoseconds now ≤ nanoseconds t

theorem normalised_clear : Normalised timespecClear := ⟨Int.le_refl 0, by decide⟩

theorem late_clear : Late now timespecClear where
  normalised := normalised_clear
  late := fun hset => absurd hset (by decide)

theorem Reading.late (h : Reading now t) : Late now t := ⟨h.1, fun _ => h.2⟩

theorem Reading.retransmitDeadline (h : Reading now t) (rto : UInt32) :
    Late now (retransmitDeadline t rto) := by
  obtain ⟨hnormal, heq⟩ := retransmitDeadline_exact h.1 rto
  have hle := h.2
  exact ⟨hnormal, fun _ => by omega⟩

theorem Reading.userTimeout (h : Reading now t) {timeout : Int} (hpos : 0 ≤ timeout) :
    Late now ⟨t.sec + timeout, t.nsec⟩ := by
  obtain ⟨hnormal, hle⟩ := h
  refine ⟨hnormal, fun _ => ?_⟩
  simp only [nanoseconds, nsecPerSec] at hle ⊢
  omega

/-- A normalised deadline that has not passed. -/
theorem late_of_not_due (hnow : Normalised now) (ht : Normalised t)
    (hdue : (timespecIsset t && timespecLt t now) = false) : Late now t := by
  refine ⟨ht, fun hset => ?_⟩
  rw [hset, Bool.true_and] at hdue
  by_contra hlt
  rw [(timespecLt_iff ht hnow).mpr (Int.not_le.mp hlt)] at hdue
  exact absurd hdue (by decide)

end Times

/-- Each deadline is as it was or set after `now`; what was closed is closed. -/
structure Rearmed (now : Timespec) (c c' : Conn) : Prop where
  connTimeout : c'.connTimeout = c.connTimeout ∨ Late now c'.connTimeout
  rtrxTimeout : c'.rtrxTimeout = c.rtrxTimeout ∨ Late now c'.rtrxTimeout
  closed : c.state = .closed → c'.state = .closed

variable {now : Timespec} {u : Utcp} {e : Env} {c c' : Conn}

theorem Rearmed.refl (now : Timespec) (c : Conn) : Rearmed now c c := ⟨Or.inl rfl, Or.inl rfl, id⟩

theorem Rearmed.trans {c'' : Conn} (h : Rearmed now c c') (h' : Rearmed now c' c'') :
    Rearmed now c c'' where
  connTimeout := by
    rcases h'.connTimeout with heq | hlate
    · rw [heq]
      exact h.connTimeout
    · exact Or.inr hlate
  rtrxTimeout := by
    rcases h'.rtrxTimeout with heq | hlate
    · rw [heq]
      exact h.rtrxTimeout
    · exact Or.inr hlate
  closed := fun hclosed => h'.closed (h.closed hclosed)

theorem Rearmed.normalised (h : Rearmed now c c')
    (hc : Normalised c.connTimeout ∧ Normalised c.rtrxTimeout) :
    Normalised c'.connTimeout ∧ Normalised c'.rtrxTimeout := by
  constructor
  · rcases h.connTimeout with heq | hlate
    · rw [heq]
      exact hc.1
    · exact hlate.normalised
  · rcases h.rtrxTimeout with heq | hlate
    · rw [heq]
      exact hc.2
    · exact hlate.normalised

theorem resetConnection_rearmed : Rearmed now c (resetConnection u c).conn := by
  obtain ⟨d, ⟨_, _, _, _, _, rfl⟩, heq | heq⟩ := resetConnection_cases u c
  · rw [heq]
    exact ⟨Or.inl rfl, Or.inl rfl, id⟩
  · rw [heq]
    exact ⟨Or.inl rfl, Or.inl rfl, fun _ => rfl⟩

section Calls

variable (he : ∀ k, Reading now (e.clk k)) (hu : 0 ≤ u.timeout)

include he hu in
theorem piece_rearmed (h : Piece u e c c') : Rearmed now c c' := by
  cases h with
  | edit h =>
    simp only [fixed, Prod.mk.injEq] at h
    obtain ⟨-, hstate, -, -, ⟨hconn, hrtrx⟩, -⟩ := h
    exact ⟨Or.inl hconn, Or.inl hrtrx, fun hclosed => hstate.trans hclosed⟩
  | ack h =>
    obtain ⟨nxt, start, seq, heq⟩ := ack_sent u _ _ _ _ h
    rw [heq]
    exact ⟨Or.inl rfl, Or.inl rfl, id⟩
  | discard => exact ⟨Or.inl rfl, Or.inl rfl, id⟩
  | enter h =>
    refine ⟨?_, Or.inl rfl, h⟩
    unfold setState
    dsimp only
    split
    · exact Or.inr late_clear
    · exact Or.inl rfl
  | retransmitTimer k => exact ⟨Or.inl rfl, Or.inr ((he k).retransmitDeadline c.rto), id⟩
  | connTimer k => exact ⟨Or.inr ((he k).userTimeout hu), Or.inl rfl, id⟩
  | idle => exact ⟨Or.inr late_clear, Or.inl rfl, id⟩

include he hu in
theorem trail_rearmed (h : Trail u e c c') : Rearmed now c c' := by
  induction h with
  | refl => exact Rearmed.refl now c
  | tail _ hpiece ih => exact ih.trans (piece_rearmed he hu hpiece)

include he hu in
theorem resetTimers_rearmed : Rearmed now c (resetTimers u (e.clk 0) c) := by
  unfold resetTimers
  split
  case isTrue => exact Rearmed.refl now c
  case isFalse =>
    refine ⟨?_, ?_, id⟩
    · dsimp only
      split
      · exact Or.inr ((he 0).userTimeout hu)
      · exact Or.inl rfl
    · dsimp only
      split
      · exact Or.inr (he 0).late
      · exact Or.inl rfl

include he hu in
theorem offlineConn_rearmed (offline : Bool) : Rearmed now c (offlineConn u e offline c) := by
  unfold offlineConn
  split
  case isTrue => exact Rearmed.refl now c
  case isFalse =>
    have hexpect := trail_rearmed he hu (utcpExpectData_trail (c := c) 1 offline)
    dsimp only
    split
    · exact hexpect
    refine ⟨hexpect.connTimeout, ?_, hexpect.closed⟩
    dsimp only
    split
    · exact Or.inr (he 0).late
    · exact hexpect.rtrxTimeout

include he in
/-- After a retransmission the timer has been started again or stopped. -/
theorem retransmitSend_late {s : Step Unit} (h : retransmitSend u e c = some s) :
    s.conn.connTimeout = c.connTimeout ∧ Late now s.conn.rtrxTimeout ∧
      s.conn.state = c.state := by
  unfold retransmitSend at h
  split at h
  case h_1 | h_2 =>
    cases h
    exact ⟨rfl, (he 0).retransmitDeadline _, rfl⟩
  case h_3 | h_4 | h_5 | h_6 | h_7 =>
    obtain ⟨seg, -, rfl⟩ := Option.map_eq_some_iff.mp h
    exact ⟨rfl, (he 0).retransmitDeadline _, rfl⟩
  case h_8 | h_9 | h_10 | h_11 =>
    cases h
    exact ⟨rfl, late_clear, rfl⟩

end Calls

end Meshlink.Deadlines
