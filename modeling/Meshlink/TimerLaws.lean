import Meshlink.TimerMoves

/-!
Three laws about the timers, each for every connection after any run of an
endpoint. A connection in TIME_WAIT waits for its connection timer; unacknowledged
sequence space of a reliable connection is guarded by the retransmission timer and
by the connection timer. Each law comes with the events under which the code
breaks it; without them it is an invariant.
-/
namespace Meshlink.TimerLaws

open UtcpState UtcpTimers UtcpSender UtcpReceiver
open UtcpEndpoint UtcpProcess SendAtomicity Moves Runs SenderMoves WriteShutdown TimerFacts
open TimerMoves Handles

/-- A law `P` of connections that every move keeps, except one with a `bad` event. -/
structure Law (bad : Ev → Prop) (P : Conn → Prop) : Prop where
  fresh : ∀ c, Fresh c → P c
  step : ∀ c c' evs, P c → TimerMove c c' evs → (∀ ev ∈ evs, ¬ bad ev) → P c'

variable {bad : Ev → Prop} {P : Conn → Prop}

/-- A law as an invariant of the connections of an endpoint. -/
def Law.invariant (law : Law bad P) : Invariant clocks where
  endpoint := fun u => 0 ≤ u.timeout
  conn := fun _ c hist => (∀ ev ∈ hist, ¬ bad ev) → P c
  past := fun _ => True
  past_nil := trivial
  past_conn := fun _ _ _ _ => trivial
  past_note := fun _ _ _ _ => trivial
  frame := fun _ _ _ _ _ hu => hu
  request := fun u call hcall hu => by
    have hset := timeout_request u call hcall hu
    obtain ⟨request, e⟩ := call
    cases request <;> exact hset
  opened := by
    intro u c c' evs hu hfresh hopening hcond
    exact law.step c c' _ (law.fresh c hfresh) (opening_timers u c c' evs hu hopening) hcond
  move := by
    intro u st c st' c' hist evs hu hc hmove hcond
    have hold : P c := hc fun ev hev => hcond ev (List.mem_append_left _ hev)
    have hnew : ∀ ev ∈ evs, ¬ bad ev := fun ev hev => hcond ev (List.mem_append_right _ hev)
    exact law.step c c' evs hold (move_timers u c c' evs hu (move_sender hmove)) hnew

variable (w : World) (hw : Start w) (stimuli : List (Stimulus × List Script))
  (hok : okRun clocks stimuli) (h : ℕ) (c : Conn)
  (hc : find (run w stimuli).utcp.connections h = some c)

include hw hok hc in
/-- A law holds of every connection after any run without bad events on it. -/
theorem Law.holds (law : Law bad P)
    (hcond : ∀ ev ∈ history h (run w stimuli).trace, ¬ bad ev) : P c := by
  have htimeout : 0 ≤ w.utcp.timeout := by
    rw [hw.timeout]
    decide
  obtain ⟨stages, hrun⟩ := run_holds law.invariant stimuli hok w
    (start_holds law.invariant w hw htimeout)
  exact hrun.conn h c hc hcond

section Samples

theorem sampleEnv_clock : UtcpTimers.Env.ClockRuns (sampleEnv true) := fun _ => by
  simp [sampleEnv]

theorem okScripts_nil : clocks.okScripts [] := by
  intro s hs
  simp at hs

theorem sampleCall_ok (request : Request) (h : ∀ timeout, request ≠ .setUserTimeout timeout) :
    okStimulus clocks (sampleCall request).1 ∧ clocks.okScripts (sampleCall request).2 :=
  ⟨⟨sampleEnv_clock, fun timeout heq => absurd heq (h timeout), fun _ _ _ => trivial⟩,
    okScripts_nil⟩

theorem sampleRecv_ok (ctl : Ctl) (seq ack : UInt32) :
    okStimulus clocks (sampleRecv ctl seq ack).1 ∧ clocks.okScripts (sampleRecv ctl seq ack).2 :=
  ⟨⟨sampleEnv_clock, fun _ _ _ _ => trivial⟩, okScripts_nil⟩

theorem none_bad {evs : List Ev} (f : Ev → Bool) (hf : ∀ ev, bad ev → f ev = true)
    (hnone : evs.any f = false) : ∀ ev ∈ evs, ¬ bad ev :=
  fun ev hev hbad => List.any_eq_false.mp hnone ev hev (hf ev hbad)

end Samples

section TimeWait

/-- The acknowledgement of everything in CLOSING: the connection timer is set for
TIME_WAIT and then cleared, because nothing is left unacknowledged. -/
def clearsTimeWait : Ev → Prop
  | .arrive c i => ClosingAcked c i
  | _ => False

/-- In FIN_WAIT_2 and TIME_WAIT nothing is left unacknowledged, so no later
acknowledgement touches the timer. -/
def WaitGuarded (c : Conn) : Prop :=
  (c.state = .timeWait → timespecIsset c.connTimeout = true) ∧
    (c.state = .finWait2 ∨ c.state = .timeWait → c.sndUna = c.sndLast)

theorem waitGuarded_of_state {c : Conn} {s : State} (hc : c.state = s)
    (hs : s ≠ .timeWait ∧ s ≠ .finWait2) : WaitGuarded c := by
  rw [← hc] at hs
  refine ⟨fun h => absurd h hs.1, ?_⟩
  rintro (h | h)
  · exact absurd h hs.2
  · exact absurd h hs.1

theorem WaitGuarded.busy {c : Conn} (h : WaitGuarded c) (hne : c.sndUna ≠ c.sndLast) :
    c.state ≠ .timeWait ∧ c.state ≠ .finWait2 :=
  ⟨fun hwait => hne (h.2 (Or.inr hwait)), fun hfin => hne (h.2 (Or.inl hfin))⟩

theorem timeWaitLaw : Law clearsTimeWait WaitGuarded where
  fresh := by
    rintro c ⟨u, src, dst, iss, sndbuf, rcvbuf, rfl, -⟩
    exact waitGuarded_of_state rfl (by simp [newConn])
  step := by
    intro c c' evs h hmove hcond
    cases hmove with
    | closed hstate => exact waitGuarded_of_state hstate (by decide)
    | unchanged hsame =>
      refine ⟨fun hwait => ?_, fun hwait => ?_⟩
      · exact hsame.connTimeout (h.1 (hsame.state.symm.trans hwait))
      · rw [hsame.state] at hwait
        rw [hsame.una, hsame.last]
        exact h.2 hwait
    | idle hstate _ hall hconn =>
      refine ⟨fun hwait => ?_, fun _ => hall⟩
      have hold : c.state = .timeWait := hstate.symm.trans hwait
      exact hconn hold (h.1 hold)
    | queued _ _ _ _ hfrom hstate _ _ _ =>
      rcases hfrom with hfrom | hfrom <;>
        exact waitGuarded_of_state (hstate.trans hfrom) (by decide)
    | armed hbusy hstate _ _ =>
      rcases hbusy with hest | hne
      · exact waitGuarded_of_state (hstate.trans hest) (by decide)
      · exact waitGuarded_of_state hstate (h.busy hne)
    | finSent _ _ _ _ _ _ _ hto _ _ _ =>
      rcases hto with hto | hto <;> exact waitGuarded_of_state hto (by decide)
    | accepted _ hto _ _ _ _ => exact waitGuarded_of_state hto (by decide)
    | connecting hto _ => exact waitGuarded_of_state hto (by decide)
    | answered _ _ _ hto _ _ => exact waitGuarded_of_state hto (by decide)
    | finReceived hto _ _ =>
      rcases hto with ⟨-, hto⟩ | ⟨-, hto⟩ <;> exact waitGuarded_of_state hto (by decide)
    | lastFin hfrom _ _ huna hlast hset =>
      refine ⟨fun _ => hset, fun _ => ?_⟩
      rw [huna, hlast]
      exact h.2 (Or.inl hfrom)
    | stopped _ hstate _ huna hlast hconn =>
      refine ⟨fun hwait => ?_, fun hwait => ?_⟩
      · rw [hconn]
        exact h.1 (hstate.symm.trans hwait)
      · rw [hstate] at hwait
        rw [huna, hlast]
        exact h.2 hwait
    | partly hstate _ hne => exact waitGuarded_of_state hstate (h.busy hne)
    | allAcked i hev hne hall _ hstate =>
      refine ⟨fun hwait => ?_, fun _ => hall⟩
      exfalso
      rcases hstate with hsame | ⟨-, hto⟩ | hclosing
      · exact (h.busy hne).1 (hsame.symm.trans hwait)
      · rw [hto] at hwait
        simp at hwait
      · exact hcond _ hev hclosing.1
    | connected i _ _ _ hto =>
      rcases hto.state with hto | hto <;> exact waitGuarded_of_state hto (by decide)

include hw hok hc in
/-- After any run in which no acknowledgement of everything reached it in CLOSING, a
connection in TIME_WAIT has its connection timer set. -/
theorem timeWait_has_connTimeout
    (hcond : ∀ ev ∈ history h (run w stimuli).trace, ¬ clearsTimeWait ev)
    (hwait : c.state = .timeWait) : timespecIsset c.connTimeout = true :=
  (Law.holds w hw stimuli hok h c hc timeWaitLaw hcond).1 hwait

/-- Our FIN is acknowledged before the peer's FIN arrives. -/
def activeClose : List (Stimulus × List Script) :=
  [sampleCall (.connect 7 true utcpTcp), sampleRecv { syn := true, ack := true } 100 1,
    sampleCall (.on 1 (.shutdown .wr)), sampleRecv { ack := true } 101 2,
    sampleRecv { ack := true, fin := true } 101 2]

/-- The FINs cross, and the peer acknowledges ours last. -/
def simultaneousClose : List (Stimulus × List Script) :=
  [sampleCall (.connect 7 true utcpTcp), sampleRecv { syn := true, ack := true } 100 1,
    sampleCall (.on 1 (.shutdown .wr)), sampleRecv { ack := true, fin := true } 101 1,
    sampleRecv { ack := true } 102 2]

/-- The state of a connection and whether its timers are set. -/
def timers (c : Conn) : State × Bool × Bool :=
  (c.state, timespecIsset c.connTimeout, timespecIsset c.rtrxTimeout)

def foundClosing : Ev → Bool
  | .arrive c _ => decide (c.state = .closing)
  | _ => false

theorem timeWait_activeClose :
    ∃ c, find (run sampleWorld activeClose).utcp.connections 1 = some c ∧
      c.state = .timeWait ∧ timespecIsset c.connTimeout = true := by
  have hrun : (find (run sampleWorld activeClose).utcp.connections 1).map timers =
      some (.timeWait, true, false) := by decide +kernel
  obtain ⟨c, hc, htimers⟩ := Option.map_eq_some_iff.mp hrun
  have hwait : c.state = .timeWait := congrArg Prod.fst htimers
  have hok : okRun clocks activeClose := by
    unfold okRun activeClose
    simp [sampleCall_ok, sampleRecv_ok]
  have hcond : ∀ ev ∈ history 1 (run sampleWorld activeClose).trace, ¬ clearsTimeWait ev := by
    refine none_bad foundClosing (fun ev hbad => ?_) (by decide +kernel)
    cases ev with
    | arrive c' i => exact decide_eq_true hbad.1
    | _ => exact hbad.elim
  exact ⟨c, hc, hwait, timeWait_has_connTimeout sampleWorld sampleWorld_start activeClose hok 1 c
    hc hcond hwait⟩

/-- After a simultaneous close the connection stays in TIME_WAIT without a timer. -/
theorem timeWait_without_connTimeout :
    ∃ c, find (run sampleWorld simultaneousClose).utcp.connections 1 = some c ∧
      c.state = .timeWait ∧ timespecIsset c.connTimeout = false := by
  have hrun : (find (run sampleWorld simultaneousClose).utcp.connections 1).map timers =
      some (.timeWait, false, false) := by decide +kernel
  obtain ⟨c, hc, htimers⟩ := Option.map_eq_some_iff.mp hrun
  refine ⟨c, hc, congrArg Prod.fst htimers, ?_⟩
  exact congrArg (fun t => t.2.1) htimers

end TimeWait

section Retransmission

/-- The states in which retransmit sends something. -/
def retransmits : State → Bool
  | .synSent | .synReceived | .established | .finWait1 | .closeWait | .closing => true
  | _ => false

/-- The two ways to add sequence space without starting the timer: the SYN+ACK that
acknowledges everything reaches a connection that is shut down, so a FIN is counted
after the timers were stopped; or data is queued before the connection is
established, when the SYN is already acknowledged. -/
def losesRetransmission : Ev → Prop
  | .arrive c i =>
      isReliable c = true ∧ SynAcked c i ∧ c.shutWr = true ∧ i.hdr.ack = c.sndLast
  | .call c (.send data) _ =>
      isReliable c = true ∧ MayQueue c data ∧ (c.state = .synSent ∨ c.state = .synReceived) ∧
        timespecIsset c.rtrxTimeout = false
  | _ => False

def RetransmissionGuarded (c : Conn) : Prop :=
  isReliable c = true → retransmits c.state = true → c.sndUna ≠ c.sndLast →
    timespecIsset c.rtrxTimeout = true

theorem retransmissionLaw : Law losesRetransmission RetransmissionGuarded where
  fresh := by
    rintro c ⟨u, src, dst, iss, sndbuf, rcvbuf, rfl, -⟩ - hstate
    simp [newConn, retransmits] at hstate
  step := by
    intro c c' evs h hmove hcond hrel hstate hne
    cases hmove with
    | closed hclosed =>
      rw [hclosed] at hstate
      simp [retransmits] at hstate
    | unchanged hsame =>
      rw [hsame.state] at hstate
      rw [hsame.una, hsame.last] at hne
      exact hsame.rtrxTimeout (h (hsame.reliable.symm.trans hrel) hstate hne)
    | idle _ _ hall _ => exact absurd hall hne
    | queued data e hev hmay hfrom _ hkept _ hrtrx =>
      rw [hrtrx]
      by_contra hunset
      apply hcond _ hev
      exact ⟨hkept.symm.trans hrel, hmay, hfrom, by simpa using hunset⟩
    | armed _ _ _ hset => exact hset.2
    | finSent _ _ _ _ _ _ _ _ _ _ hset => exact hset
    | accepted hfrom _ hkept huna hlast hrtrx =>
      rw [huna, hlast] at hne
      rw [hrtrx]
      exact h (hkept.symm.trans hrel) (by rw [hfrom]; rfl) hne
    | connecting _ hset => exact hset.2
    | answered _ _ _ _ _ hset => exact hset
    | finReceived hto hkept hsame =>
      obtain ⟨huna, hlast, -, hrtrx⟩ := hsame
      rw [huna, hlast] at hne
      rw [hrtrx]
      refine h (hkept.symm.trans hrel) ?_ hne
      rcases hto with ⟨hfrom, -⟩ | ⟨hfrom, -⟩ <;> rw [hfrom] <;> rfl
    | lastFin _ hto _ _ _ _ =>
      rw [hto] at hstate
      simp [retransmits] at hstate
    | stopped hfrom hsame _ _ _ _ =>
      rw [hsame] at hstate
      rcases hfrom with hfrom | hfrom | hfrom | hfrom <;> rw [hfrom] at hstate <;>
        simp [retransmits] at hstate
    | partly _ hunrel _ =>
      rw [hunrel] at hrel
      simp at hrel
    | allAcked _ _ _ hall _ _ => exact absurd hall hne
    | connected i hev hsyn hkept hto =>
      have hold : isReliable c = true := hkept.symm.trans hrel
      cases hto with
      | idle _ _ _ hall => exact absurd hall hne
      | busy _ _ _ hset => exact hset hold
      | finUnguarded hshut hack _ => exact absurd ⟨hold, hsyn, hshut, hack⟩ (hcond _ hev)
      | finGuarded _ _ _ hset => exact (hset hold).2

include hw hok hc in
/-- After any run without the two kinds of events, unacknowledged sequence space of a
reliable connection is guarded by the retransmission timer. -/
theorem unacked_has_rtrxTimeout
    (hcond : ∀ ev ∈ history h (run w stimuli).trace, ¬ losesRetransmission ev)
    (hrel : isReliable c = true)
    (hstate : c.state = .synSent ∨ c.state = .synReceived ∨ c.state = .established ∨
      c.state = .finWait1 ∨ c.state = .closeWait ∨ c.state = .closing)
    (hne : c.sndUna ≠ c.sndLast) : timespecIsset c.rtrxTimeout = true := by
  refine Law.holds w hw stimuli hok h c hc retransmissionLaw hcond hrel ?_ hne
  rcases hstate with hstate | hstate | hstate | hstate | hstate | hstate <;> rw [hstate] <;> rfl

/-- The SYN is answered, then data is sent. -/
def connectThenSend : List (Stimulus × List Script) :=
  [sampleCall (.connect 7 true utcpTcp), sampleRecv { syn := true, ack := true } 100 1,
    sampleCall (.on 1 (.send (some [1])))]

/-- A write shutdown while the SYN is unanswered. -/
def shutdownThenSynack : List (Stimulus × List Script) :=
  [sampleCall (.connect 7 true utcpTcp), sampleCall (.on 1 (.shutdown .wr)),
    sampleRecv { syn := true, ack := true } 100 1]

/-- An acknowledgement without SYN, then data. -/
def ackThenSend : List (Stimulus × List Script) :=
  [sampleCall (.connect 7 true utcpTcp), sampleRecv { ack := true } 100 1,
    sampleCall (.on 1 (.send (some [1])))]

/-- What the laws look at: reliable, the state, the unacknowledged range and the timers. -/
def guarded (c : Conn) : Bool × State × UInt32 × UInt32 × Bool × Bool :=
  (isReliable c, c.state, c.sndUna, c.sndLast, timespecIsset c.connTimeout,
    timespecIsset c.rtrxTimeout)

theorem found_guarded {found : Option Conn} {rel conn rtrx : Bool} {state : State}
    {una last : UInt32} (h : found.map guarded = some (rel, state, una, last, conn, rtrx))
    (hne : una ≠ last) :
    ∃ c, found = some c ∧ isReliable c = rel ∧ c.state = state ∧ c.sndUna ≠ c.sndLast ∧
      timespecIsset c.connTimeout = conn ∧ timespecIsset c.rtrxTimeout = rtrx := by
  obtain ⟨c, hc, hguarded⟩ := Option.map_eq_some_iff.mp h
  cases hguarded
  exact ⟨c, hc, rfl, rfl, hne, rfl, rfl⟩

/-- The connection the event found is shut down, or its timer is not set. -/
def foundUnguarded : Ev → Bool
  | .arrive c _ => c.shutWr
  | .call c (.send _) _ => !timespecIsset c.rtrxTimeout && decide (c.state ≠ .established)
  | _ => false

theorem unacked_connectThenSend :
    ∃ c, find (run sampleWorld connectThenSend).utcp.connections 1 = some c ∧
      isReliable c = true ∧ c.state = .established ∧ c.sndUna ≠ c.sndLast ∧
      timespecIsset c.rtrxTimeout = true := by
  have hrun : (find (run sampleWorld connectThenSend).utcp.connections 1).map guarded =
      some (true, .established, 1, 2, true, true) := by decide +kernel
  obtain ⟨c, hc, hrel, hstate, hne, -, -⟩ := found_guarded hrun (by decide)
  have hok : okRun clocks connectThenSend := by
    unfold okRun connectThenSend
    simp [sampleCall_ok, sampleRecv_ok]
  have hcond : ∀ ev ∈ history 1 (run sampleWorld connectThenSend).trace,
      ¬ losesRetransmission ev := by
    refine none_bad foundUnguarded (fun ev hbad => ?_) (by decide +kernel)
    unfold losesRetransmission at hbad
    split at hbad
    · exact hbad.2.2.1
    · obtain ⟨-, -, hsyn, hunset⟩ := hbad
      rcases hsyn with hsyn | hsyn <;> simp [foundUnguarded, hunset, hsyn]
    · exact hbad.elim
  exact ⟨c, hc, hrel, hstate, hne, unacked_has_rtrxTimeout sampleWorld sampleWorld_start
    connectThenSend hok 1 c hc hcond hrel (by simp [hstate]) hne⟩

/-- Both kinds of events leave sequence space that is never sent again. -/
theorem unacked_without_rtrxTimeout :
    (∃ c, find (run sampleWorld shutdownThenSynack).utcp.connections 1 = some c ∧
      isReliable c = true ∧ c.state = .finWait1 ∧ c.sndUna ≠ c.sndLast ∧
      timespecIsset c.rtrxTimeout = false) ∧
    ∃ c, find (run sampleWorld ackThenSend).utcp.connections 1 = some c ∧
      isReliable c = true ∧ c.state = .synSent ∧ c.sndUna ≠ c.sndLast ∧
      timespecIsset c.rtrxTimeout = false := by
  have hshut : (find (run sampleWorld shutdownThenSynack).utcp.connections 1).map guarded =
      some (true, .finWait1, 1, 2, false, false) := by decide +kernel
  have hsend : (find (run sampleWorld ackThenSend).utcp.connections 1).map guarded =
      some (true, .synSent, 1, 2, false, false) := by decide +kernel
  refine ⟨?_, ?_⟩
  · obtain ⟨c, hc, hrel, hstate, hne, -, hunset⟩ := found_guarded hshut (by decide)
    exact ⟨c, hc, hrel, hstate, hne, hunset⟩
  · obtain ⟨c, hc, hrel, hstate, hne, -, hunset⟩ := found_guarded hsend (by decide)
    exact ⟨c, hc, hrel, hstate, hne, hunset⟩

end Retransmission

section ConnectionTimer

/-- The ways to have unacknowledged sequence space without a connection timer: a
passive open, a FIN sent or data queued while the timer is not set, and a SYN+ACK
that clears the timer in ESTABLISHED with data left or counts a FIN after the
timer was cleared. -/
def losesConnection : Ev → Prop
  | .answered c _ => isReliable c = true
  | .call c (.shutdown dir) _ =>
      isReliable c = true ∧ (dir = .wr ∨ dir = .rdwr) ∧ c.shutWr = false ∧ c.reapable = false ∧
        (c.state = .synReceived ∨ c.state = .established ∨ c.state = .closeWait) ∧
        timespecIsset c.connTimeout = false
  | .call c (.send data) _ =>
      isReliable c = true ∧ MayQueue c data ∧ (c.state = .synSent ∨ c.state = .synReceived) ∧
        timespecIsset c.connTimeout = false
  | .arrive c i =>
      isReliable c = true ∧ SynAcked c i ∧ (c.shutWr = true ↔ i.hdr.ack = c.sndLast)
  | _ => False

/-- Without a passive open no reliable connection is in SYN_RECEIVED. -/
def ConnectionGuarded (c : Conn) : Prop :=
  isReliable c = true → c.state ≠ .synReceived ∧
    (c.state ≠ .closed → c.sndUna ≠ c.sndLast → timespecIsset c.connTimeout = true)

theorem connectionLaw : Law losesConnection ConnectionGuarded where
  fresh := by
    rintro c ⟨u, src, dst, iss, sndbuf, rcvbuf, rfl, -⟩ hrel
    simp [newConn, isReliable] at hrel
  step := by
    intro c c' evs h hmove hcond hrel
    cases hmove with
    | closed hclosed => exact ⟨by simp [hclosed], fun hopen => absurd hclosed hopen⟩
    | unchanged hsame =>
      obtain ⟨hnot, hset⟩ := h (hsame.reliable.symm.trans hrel)
      rw [hsame.state, hsame.una, hsame.last]
      exact ⟨hnot, fun hopen hne => hsame.connTimeout (hset hopen hne)⟩
    | idle hstate hkept hall _ =>
      rw [hstate]
      exact ⟨(h (hkept.symm.trans hrel)).1, fun _ hne => absurd hall hne⟩
    | queued data e hev hmay hfrom hstate hkept hconn _ =>
      have hold : isReliable c = true := hkept.symm.trans hrel
      rw [hstate, hconn]
      refine ⟨(h hold).1, fun _ _ => ?_⟩
      by_contra hunset
      exact hcond _ hev ⟨hold, hmay, hfrom, by simpa using hunset⟩
    | armed _ hstate hkept hset =>
      rw [hstate]
      exact ⟨(h (hkept.symm.trans hrel)).1, fun _ _ => hset.1⟩
    | finSent dir e hev hdir hshut hreap hfrom hto hkept hconn _ =>
      have hold : isReliable c = true := hkept.symm.trans hrel
      refine ⟨?_, fun _ _ => ?_⟩
      · rcases hto with hto | hto <;> simp [hto]
      · apply hconn
        by_contra hunset
        exact hcond _ hev ⟨hold, hdir, hshut, hreap, hfrom, by simpa using hunset⟩
    | accepted hfrom _ hkept _ _ _ => exact absurd hfrom (h (hkept.symm.trans hrel)).1
    | connecting hto hset => exact ⟨by simp [hto], fun _ _ => hset.1⟩
    | answered d i hev _ hkept _ => exact absurd (hkept.symm.trans hrel) (hcond _ hev)
    | finReceived hto hkept hsame =>
      obtain ⟨huna, hlast, hconn, -⟩ := hsame
      obtain ⟨-, hset⟩ := h (hkept.symm.trans hrel)
      rw [huna, hlast, hconn]
      refine ⟨?_, fun _ hne => hset ?_ hne⟩
      · rcases hto with ⟨-, hto⟩ | ⟨-, hto⟩ <;> simp [hto]
      · rcases hto with ⟨hfrom, -⟩ | ⟨hfrom, -⟩ <;> simp [hfrom]
    | lastFin _ hto _ _ _ hset => exact ⟨by simp [hto], fun _ _ => hset⟩
    | stopped _ hstate hkept huna hlast hconn =>
      rw [hstate, huna, hlast, hconn]
      exact h (hkept.symm.trans hrel)
    | partly _ hunrel _ =>
      rw [hunrel] at hrel
      simp at hrel
    | allAcked _ _ _ hall hkept hstate =>
      refine ⟨?_, fun _ hne => absurd hall hne⟩
      rcases hstate with hsame | ⟨-, hto⟩ | ⟨-, hto⟩
      · rw [hsame]
        exact (h (hkept.symm.trans hrel)).1
      · simp [hto]
      · simp [hto]
    | connected i hev hsyn hkept hto =>
      have hold : isReliable c = true := hkept.symm.trans hrel
      have hstate : c'.state ≠ .synReceived := by
        rcases hto.state with hstate | hstate <;> simp [hstate]
      refine ⟨hstate, fun _ hne => ?_⟩
      cases hto with
      | idle _ _ _ hall => exact absurd hall hne
      | busy hshut hack _ _ =>
        exfalso
        refine hcond _ hev ⟨hold, hsyn, ?_⟩
        simp [hshut, hack]
      | finUnguarded hshut hack _ =>
        exfalso
        refine hcond _ hev ⟨hold, hsyn, ?_⟩
        simp [hshut, hack]
      | finGuarded _ _ _ hset => exact (hset hold).1

include hw hok hc in
/-- After any run without such an event, unacknowledged sequence space of a reliable
connection that is not closed is guarded by the connection timer. -/
theorem unacked_has_connTimeout
    (hcond : ∀ ev ∈ history h (run w stimuli).trace, ¬ losesConnection ev)
    (hrel : isReliable c = true) (hopen : c.state ≠ .closed) (hne : c.sndUna ≠ c.sndLast) :
    timespecIsset c.connTimeout = true :=
  (Law.holds w hw stimuli hok h c hc connectionLaw hcond hrel).2 hopen hne

/-- An active open that is not answered. -/
def connectOnly : List (Stimulus × List Script) := [sampleCall (.connect 7 true utcpTcp)]

/-- A shutdown of an idle connection. -/
def idleShutdown : List (Stimulus × List Script) :=
  [sampleCall (.connect 7 true utcpTcp), sampleRecv { syn := true, ack := true } 100 1,
    sampleCall (.on 1 (.shutdown .wr))]

/-- A SYN of the peer. -/
def passiveOpen : List (Stimulus × List Script) :=
  [sampleCall (.setAcceptCb true false), sampleRecv { syn := true } 100 0]

/-- The event is of a kind that the law looks at. -/
def ofConcern : Ev → Bool
  | .answered _ _ | .call _ _ _ | .arrive _ _ => true
  | _ => false

theorem unacked_connectOnly :
    ∃ c, find (run sampleWorld connectOnly).utcp.connections 1 = some c ∧
      isReliable c = true ∧ c.state = .synSent ∧ c.sndUna ≠ c.sndLast ∧
      timespecIsset c.connTimeout = true := by
  have hrun : (find (run sampleWorld connectOnly).utcp.connections 1).map guarded =
      some (true, .synSent, 0, 1, true, true) := by decide +kernel
  obtain ⟨c, hc, hrel, hstate, hne, -, -⟩ := found_guarded hrun (by decide)
  have hok : okRun clocks connectOnly := by
    unfold okRun connectOnly
    simp [sampleCall_ok]
  have hcond : ∀ ev ∈ history 1 (run sampleWorld connectOnly).trace, ¬ losesConnection ev := by
    refine none_bad ofConcern (fun ev hbad => ?_) (by decide +kernel)
    unfold losesConnection at hbad
    split at hbad
    all_goals first
      | rfl
      | exact hbad.elim
  exact ⟨c, hc, hrel, hstate, hne, unacked_has_connTimeout sampleWorld sampleWorld_start
    connectOnly hok 1 c hc hcond hrel (by simp [hstate]) hne⟩

/-- An unanswered FIN on an idle connection and an unanswered SYN+ACK are never given up. -/
theorem unacked_without_connTimeout :
    (∃ c, find (run sampleWorld idleShutdown).utcp.connections 1 = some c ∧
      isReliable c = true ∧ c.state = .finWait1 ∧ c.sndUna ≠ c.sndLast ∧
      timespecIsset c.connTimeout = false) ∧
    ∃ c, find (run sampleWorld passiveOpen).utcp.connections 1 = some c ∧
      isReliable c = true ∧ c.state = .synReceived ∧ c.sndUna ≠ c.sndLast ∧
      timespecIsset c.connTimeout = false := by
  have hshut : (find (run sampleWorld idleShutdown).utcp.connections 1).map guarded =
      some (true, .finWait1, 1, 2, false, true) := by decide +kernel
  have hopen : (find (run sampleWorld passiveOpen).utcp.connections 1).map guarded =
      some (true, .synReceived, 0, 1, false, true) := by decide +kernel
  refine ⟨?_, ?_⟩
  · obtain ⟨c, hc, hrel, hstate, hne, hunset, -⟩ := found_guarded hshut (by decide)
    exact ⟨c, hc, hrel, hstate, hne, hunset⟩
  · obtain ⟨c, hc, hrel, hstate, hne, hunset, -⟩ := found_guarded hopen (by decide)
    exact ⟨c, hc, hrel, hstate, hne, hunset⟩

end ConnectionTimer

end Meshlink.TimerLaws
