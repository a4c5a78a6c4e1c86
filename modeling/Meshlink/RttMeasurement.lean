import Meshlink.CallPieces
import Meshlink.TimerFacts

/-!
The round-trip measurement of a connection. One segment at a time is measured; the
measurement ends when exactly its end is acknowledged, and should be given up when an
acknowledgement passes it. Whether it is passed is decided by comparing sequence
numbers as plain numbers, which goes wrong when an acknowledgement has wrapped around
zero and the end of the measured segment has not. Until the next packet arrives,
calls, callbacks and timers leave a running measurement and snd.una alone, or give
the measurement up.
-/
namespace Meshlink.RttMeasurement

open SerialNumbers UtcpState UtcpTimers UtcpSender UtcpReceiver UtcpEndpoint UtcpProcess
open Arrivals ControlFacts TimerFacts SenderFacts EventFacts SendAtomicity Moves Runs SenderMoves
open WriteShutdown CallPieces

def Running (c : Conn) : Prop := c.rttStart.sec ≠ 0

instance (c : Conn) : Decidable (Running c) := inferInstanceAs (Decidable (_ ≠ _))

/-- A measurement that is running can still complete: its end is yet to be acknowledged. -/
def CanComplete (c : Conn) : Prop := Running c → 0 < seqdiff c.rttSeq c.sndUna

/-- The acknowledgement is after the end of the measured segment, but the smaller number. -/
def PassesWrap (c : Conn) (ackno : UInt32) : Prop :=
  Running c ∧ seqdiff c.rttSeq ackno < 0 ∧ ackno < c.rttSeq

/-- Start and end of the measurement. -/
def measurement (c : Conn) : Timespec × UInt32 := (c.rttStart, c.rttSeq)

section Acknowledgement

variable {u : Utcp} {e : Env} {c c' : Conn} {ackno advanced : UInt32}

/-- A measurement goes on only when its end is a greater number than the acknowledgement. -/
theorem measureRtt_running (h : Running (measureRtt u e c ackno)) : ackno < c.rttSeq := by
  unfold measureRtt at h
  split at h
  · rename_i hzero
    exact absurd hzero h
  split at h
  · exact absurd rfl h
  rename_i hne
  split at h
  · exact absurd rfl h
  · rename_i hlt
    exact UInt32.lt_of_le_of_ne (UInt32.not_lt.mp hlt) (Ne.symm hne)

theorem measureRtt_of_lt (h : ackno < c.rttSeq) : measureRtt u e c ackno = c := by
  have hne : c.rttSeq ≠ ackno := by
    intro heq
    rw [heq] at h
    exact UInt32.lt_irrefl ackno h
  unfold measureRtt
  rw [if_neg hne, if_neg (UInt32.lt_asymm h), ite_self]

theorem finAcked_measurement : measurement (finAcked u e c) = measurement c := by
  rcases finAcked_cases u e c with heq | ⟨-, ⟨-, heq⟩ | ⟨-, heq⟩⟩
  · rw [heq]
  · rw [heq]
    rfl
  · rw [heq]
    rfl

theorem advanceUna_measurement (h : advanceUna u e c ackno advanced = some c') :
    measurement c' = measurement (measureRtt u e c ackno) := by
  simp only [advanceUna] at h
  split at h
  · cases h
  · obtain ⟨g, hg, rfl⟩ := Option.map_eq_some_iff.mp h
    obtain ⟨cwnd, rfl⟩ := growCwnd_eq u hg
    exact finAcked_measurement

theorem updateTimers_measurement :
    measurement (updateTimers u e c) = measurement c ∧ (updateTimers u e c).sndUna = c.sndUna := by
  obtain ⟨conn, rtrx, heq⟩ := updateTimers_eq u e c
  rw [heq]
  exact ⟨rfl, rfl⟩

theorem handleSyn_measurement (c : Conn) (i : Incoming) (advanced : UInt32) :
    measurement (handleSyn c i advanced).1 = measurement c ∧
      (handleSyn c i advanced).1.sndUna = c.sndUna := by
  rcases handleSyn_cases c i advanced with heq | ⟨-, -, -, heq⟩
  · rw [heq]
    exact ⟨rfl, rfl⟩
  · rw [heq]
    split <;> exact ⟨rfl, rfl⟩

theorem running_congr (h : measurement c' = measurement c) : Running c' ↔ Running c := by
  unfold Running
  rw [(Prod.mk.inj h).1]

theorem duplicateAck_una {empty : Bool} {t : Step Unit} (h : duplicateAck u e c empty = some t) :
    t.conn.sndUna = c.sndUna := by
  rw [duplicateAck_paced u e c empty t h]
  rfl

/-- Which packets advance snd.una, and what they leave of the measurement. -/
theorem arrive_advances {i : Incoming} {s : Step (Incoming × Verdict)}
    (h : arrive u e c i = some s) (hrel : isReliable c = true) (hadv : s.conn.sndUna ≠ c.sndUna) :
    s.conn.sndUna = i.hdr.ack ∧
      ∃ d, measurement d = measurement c ∧
        measurement s.conn = measurement (measureRtt u e d i.hdr.ack) := by
  have hack : (trimmedSegment c i).hdr.ack = i.hdr.ack := by
    rcases (trimmedSegment_hdr c i).2 with hack | ⟨-, hunrel⟩
    · exact hack
    · exact absurd (hrel.symm.trans hunrel) (by decide)
  cases arrive_cases u e c i s h with
  | closed | stray => exact absurd rfl hadv
  | reset r _ _ hr =>
    rcases handleRst_cases _ _ _ hr with heq | heq | heq
    all_goals
      dsimp only at hadv
      rw [heq] at hadv
      exact absurd rfl hadv
  | unacked =>
    refine absurd ?_ hadv
    exact (handleSyn_measurement _ _ _).2
  | refused t _ _ ht hvalue =>
    cases ht with
    | refused => exact absurd rfl hadv
    | duplicate t' _ ht' => cases hvalue
    | advances c' _ _ hc' => cases hvalue
  | acked t advanced _ _ _ ht hvalue =>
    obtain ⟨hsame, huna⟩ := handleSyn_measurement t.conn (trimmedSegment c i) advanced
    cases ht with
    | refused => cases hvalue
    | duplicate t' _ ht' => exact absurd (huna.trans (duplicateAck_una ht')) hadv
    | advances c' _ _ hc' =>
      rw [hack] at hc'
      obtain ⟨hstep, -⟩ := advanceUna_seqs u e _ c' _ _ hc'
      refine ⟨huna.trans (updateTimers_measurement.2.trans hstep),
        { c with sndWnd := i.hdr.wnd }, rfl, ?_⟩
      exact hsame.trans (updateTimers_measurement.1.trans (advanceUna_measurement hc'))

end Acknowledgement

section Answer

variable {u : Utcp} {now : Timespec}

theorem ackSegment_measurement {l : AckLoop} (h : Running l.conn) :
    measurement (ackSegment u now l).1.conn = measurement l.conn := by
  have hstart : decide (l.conn.rttStart.sec = 0) = false := decide_eq_false h
  simp only [ackSegment, measurement, hstart, Bool.false_eq_true, if_false]

theorem ackLoop_measurement (fuel : ℕ) (l : AckLoop) (h : Running l.conn) :
    measurement (ackLoop u now fuel l).1.conn = measurement l.conn := by
  induction fuel generalizing l with
  | zero => exact ackSegment_measurement h
  | succ fuel ih =>
    have hsegment : measurement (ackSegment u now l).1.conn = measurement l.conn :=
      ackSegment_measurement h
    simp only [ackLoop]
    split
    · exact hsegment
    · exact (ih (ackSegment u now l).1 ((running_congr hsegment).mpr h)).trans hsegment

/-- Sending segments leaves a running measurement alone. -/
theorem ack_measurement {c : Conn} {sendatleastone : Bool} {s : Step Unit} (h : Running c)
    (hs : UtcpSender.ack u now c sendatleastone = some s) : measurement s.conn = measurement c := by
  simp only [UtcpSender.ack] at hs
  split at hs
  · cases hs
  split at hs
  · cases hs
    rfl
  · cases hs
    exact ackLoop_measurement _ _ h

end Answer

section Calls

variable {u : Utcp} {e : Env} {c c' : Conn}

/-- A reliable connection keeps snd.una, and a running measurement goes on. -/
structure Steady (c c' : Conn) : Prop where
  reliable : isReliable c' = isReliable c
  una : isReliable c = true → c'.sndUna = c.sndUna
  kept : Running c → measurement c' = measurement c

theorem Steady.trans {a b : Conn} (hab : Steady a b) (hbc : Steady b c) : Steady a c where
  reliable := hbc.reliable.trans hab.reliable
  una := fun hrel => (hbc.una (hab.reliable.trans hrel)).trans (hab.una hrel)
  kept := fun hrun => (hbc.kept ((running_congr (hab.kept hrun)).mpr hrun)).trans (hab.kept hrun)

theorem ack_steady {now : Timespec} {one : Bool} {s : Step Unit}
    (h : UtcpSender.ack u now c one = some s) : Steady c s.conn := by
  obtain ⟨nxt, start, seq, heq⟩ := ack_sent u now c one s h
  refine ⟨?_, fun _ => ?_, fun hrun => ack_measurement hrun h⟩
  · rw [heq]
    rfl
  · rw [heq]

theorem piece_steady (h : Piece u e c c') : Steady c c' := by
  cases h with
  | edit h =>
    simp only [fixed, Prod.mk.injEq] at h
    obtain ⟨hrel, -, huna, -, -, hstart, hseq⟩ := h
    exact ⟨hrel, fun _ => huna, fun _ => Prod.ext hstart hseq⟩
  | ack h => exact ack_steady h
  | discard h => exact ⟨rfl, fun hrel => absurd (h.symm.trans hrel) nofun, fun _ => rfl⟩
  | enter | retransmitTimer | connTimer | idle => exact ⟨rfl, fun _ => rfl, fun _ => rfl⟩

theorem trail_steady (h : Trail u e c c') : Steady c c' := by
  induction h with
  | refl => exact ⟨rfl, fun _ => rfl, fun _ => rfl⟩
  | tail _ hpiece ih => exact ih.trans (piece_steady hpiece)

end Calls

section Moves

variable {u : Utcp} {c c' : Conn} {evs : List Ev}

/-- A call or an answer that finds a measurement running. Those that find none may start one. -/
def Marked : Ev → Prop
  | .call c _ _ => Running c
  | .reply c => Running c
  | _ => True

instance (ev : Ev) : Decidable (Marked ev) := by
  cases ev <;> unfold Marked <;> infer_instance

/-- What happens to a connection between two packets: a measurement that is running
afterwards and was not started meanwhile is the one that ran before. -/
structure Between (c c' : Conn) (evs : List Ev) : Prop where
  noArrival : ∀ ev ∈ evs, isArrival ev = false
  reliable : isReliable c' = isReliable c
  una : isReliable c = true → c'.sndUna = c.sndUna
  kept : (∀ ev ∈ evs, Marked ev) → Running c' → measurement c' = measurement c

theorem Steady.between (h : Steady c c') (hevs : ∀ ev ∈ evs, isArrival ev = false)
    (hrunning : (∀ ev ∈ evs, Marked ev) → Running c' → Running c) : Between c c' evs :=
  ⟨hevs, h.reliable, h.una, fun hmarked hrun => h.kept (hrunning hmarked hrun)⟩

theorem connCall_between {e : Env} {op : Op} {s : Step Ret} (h : connCall e op u c = some s) :
    Between c s.conn s.events := by
  obtain ⟨htrail, op', e', inner, hevents, hinner⟩ := connCall_trail h
  rw [hevents]
  refine (trail_steady htrail).between ?_ fun hmarked _ => hmarked _ List.mem_cons_self
  exact List.forall_mem_cons.mpr ⟨rfl, hinner⟩

theorem reply_between {now : Timespec} {one : Bool} {s : Step Unit}
    (h : UtcpSender.ack u now c one = some s) : Between c s.conn (.reply c :: s.events) := by
  refine (ack_steady h).between ?_ fun hmarked _ => hmarked _ List.mem_cons_self
  exact List.forall_mem_cons.mpr ⟨rfl, wired_noArrival (ack_wired u now c one s h)⟩

theorem retransmitSend_between {e : Env} {s : Step Unit} (h : retransmitSend u e c = some s) :
    Between c s.conn s.events := by
  obtain ⟨sent, hevents, hwired⟩ := retransmitSend_wired u e c s h
  have hnone : ∀ ev ∈ s.events, isArrival ev = false := by
    rw [hevents]
    exact List.forall_mem_cons.mpr ⟨rfl, wired_noArrival hwired⟩
  -- A retransmission gives the measurement up.
  unfold retransmitSend at h
  split at h
  all_goals first
    | (obtain ⟨seg, -, rfl⟩ := Option.map_eq_some_iff.mp h
       exact ⟨hnone, rfl, fun _ => rfl, fun _ hrun => absurd rfl hrun⟩)
    | (cases h
       exact ⟨hnone, rfl, fun _ => rfl, fun _ hrun => absurd rfl hrun⟩)
    | (cases h
       exact ⟨hnone, rfl, fun _ => rfl, fun _ _ => rfl⟩)

theorem finState_between {e : Env} (h : finState u e c = some c') :
    Between c { c' with rcvNxt := c'.rcvNxt + 1 } [.fin] := by
  have hnone : ∀ ev ∈ [Ev.fin], isArrival ev = false := by simp [isArrival]
  unfold finState at h
  split at h
  all_goals first
    | (cases h
       exact ⟨hnone, rfl, fun _ => rfl, fun _ _ => rfl⟩)
    | cases h

/-- Only a packet moves snd.una of a reliable connection. -/
theorem move_between {R : Rules} (h : SenderMove R u c c' evs) :
    (∃ e i s, UtcpReceiver.arrive u e c i = some s ∧ c' = s.conn ∧ evs = s.events) ∨
      Between c c' evs := by
  have hnil : ∀ ev ∈ ([] : List Ev), isArrival ev = false := by simp
  cases h with
  | received _ _ _ hsame hevs =>
    obtain ⟨_, _, _, rfl⟩ := hsame
    refine .inr ⟨fun ev hev => ?_, rfl, fun _ => rfl, fun _ _ => rfl⟩
    rcases hevs ev hev with ⟨⟨⟩⟩ | _ | _ | _ <;> rfl
  | call e op _ s _ _ hs => exact .inr (connCall_between hs)
  | resetTimers e _ _ =>
    refine .inr ?_
    unfold UtcpEndpoint.resetTimers
    split
    · exact ⟨hnil, rfl, fun _ => rfl, fun _ _ => rfl⟩
    · exact ⟨hnil, rfl, fun _ => rfl, fun _ hrun => absurd rfl hrun⟩
  | offline e off _ _ =>
    obtain ⟨t, ht⟩ := utcpExpectData_eq u (e.clk 1) c off
    refine .inr ?_
    unfold offlineConn
    rw [ht]
    split
    · exact ⟨hnil, rfl, fun _ => rfl, fun _ _ => rfl⟩
    dsimp only
    split
    · exact ⟨hnil, rfl, fun _ => rfl, fun _ _ => rfl⟩
    · exact ⟨hnil, rfl, fun _ => rfl, fun _ hrun => absurd rfl hrun⟩
  | reset _ =>
    have hnone := wired_noArrival (resetConnection_wired u c)
    obtain ⟨d, ⟨_, _, _, _, _, rfl⟩, heq | heq⟩ := resetConnection_cases u c
    all_goals
      rw [heq]
      exact .inr ⟨hnone, rfl, fun _ => rfl, fun _ _ => rfl⟩
  | arrive e i _ s _ _ hs => exact .inl ⟨e, i, s, hs, rfl, rfl⟩
  | synack e i _ _ _ =>
    exact .inr ⟨by simp [UtcpReceiver.synack, isArrival], rfl, fun _ => rfl, fun _ _ => rfl⟩
  | notAccepted _ _ => exact .inr ⟨hnil, rfl, fun _ => rfl, fun _ _ => rfl⟩
  | fin e _ d _ hs => exact .inr (finState_between hs)
  | reply e one _ s _ hs => exact .inr (reply_between hs)
  | stopTimer _ _ => exact .inr ⟨hnil, rfl, fun _ => rfl, fun _ _ => rfl⟩
  | retransmit e _ s _ hs => exact .inr (retransmitSend_between hs)
  | timeOut | polled => exact .inr ⟨hnil, rfl, fun _ => rfl, fun _ _ => rfl⟩

end Moves

section Law

/-- A packet that arrived, how it found the connection, and the events since then. -/
structure Arrived where
  conn : Conn
  packet : Incoming
  since : List Ev

def noteArrival (last : Option Arrived) : Ev → Option Arrived
  | .arrive c i => some ⟨c, i, []⟩
  | ev => last.map fun a => { a with since := a.since ++ [ev] }

/-- The packet that arrived last on a connection. -/
def lastArrival (hist : List Ev) : Option Arrived := hist.foldl noteArrival none

variable {hist evs : List Ev} {c c' : Conn} {a : Arrived}

theorem lastArrival_append (hevs : ∀ ev ∈ evs, isArrival ev = false) :
    lastArrival (hist ++ evs) =
      (lastArrival hist).map fun a => { a with since := a.since ++ evs } := by
  induction evs generalizing hist with
  | nil => simp
  | cons ev evs ih =>
    obtain ⟨hev, hrest⟩ := List.forall_mem_cons.mp hevs
    have hfirst : lastArrival (hist ++ [ev]) =
        (lastArrival hist).map fun a => { a with since := a.since ++ [ev] } := by
      unfold lastArrival
      rw [List.foldl_append]
      cases ev <;> first | rfl | cases hev
    rw [List.append_cons, ih hrest, hfirst]
    simp [Function.comp_def]

theorem lastArrival_arrive {i : Incoming} (hevs : ∀ ev ∈ evs, isArrival ev = false) :
    lastArrival (hist ++ .arrive c i :: evs) = some ⟨c, i, evs⟩ := by
  have hfirst : lastArrival (hist ++ [.arrive c i]) = some ⟨c, i, []⟩ := by
    unfold lastArrival
    rw [List.foldl_append]
    rfl
  rw [List.append_cons, lastArrival_append hevs, hfirst]
  rfl

/-- What the last packet and the events since then have left. -/
structure Since (a : Arrived) (c : Conn) : Prop where
  reliable : isReliable c = true
  advanced : c.sndUna ≠ a.conn.sndUna → c.sndUna = a.packet.hdr.ack
  measured : c.sndUna ≠ a.conn.sndUna → (∀ ev ∈ a.since, Marked ev) → Running c →
    measurement c = measurement a.conn ∧ a.packet.hdr.ack < a.conn.rttSeq

theorem since_arrive {u : Utcp} {e : Env} {i : Incoming} {s : Step (Incoming × Verdict)}
    (h : UtcpReceiver.arrive u e c i = some s) (hrel : isReliable c = true) :
    Since ⟨c, i, evs⟩ s.conn where
  reliable := by
    unfold isReliable at hrel ⊢
    rw [(arrive_control u e c i s h).2.1]
    exact hrel
  advanced := fun hadv => (arrive_advances h hrel hadv).1
  measured := by
    intro hadv _ hrun
    obtain ⟨-, d, hd, hs⟩ := arrive_advances h hrel hadv
    have hlt := measureRtt_running ((running_congr hs).mp hrun)
    rw [measureRtt_of_lt hlt] at hs
    rw [(Prod.mk.inj hd).2] at hlt
    exact ⟨hs.trans hd, hlt⟩

theorem Since.between (h : Since a c) (hbetween : Between c c' evs) :
    Since { a with since := a.since ++ evs } c' where
  reliable := hbetween.reliable.trans h.reliable
  advanced := by
    rw [hbetween.una h.reliable]
    exact h.advanced
  measured := by
    intro hadv hmarked hrun
    rw [hbetween.una h.reliable] at hadv
    obtain ⟨hold, hnew⟩ := List.forall_mem_append.mp hmarked
    have hsame := hbetween.kept hnew hrun
    obtain ⟨hfirst, hlt⟩ := h.measured hadv hold ((running_congr hsame).mp hrun)
    exact ⟨hsame.trans hfirst, hlt⟩

/-- The law as an invariant of the connections of an endpoint, of which nothing is asked. -/
def law : Invariant anything where
  __ := WriteShutdown.law
  conn := fun _ c hist => ∀ a, lastArrival hist = some a → isReliable a.conn = true → Since a c
  past := fun _ => True
  past_nil := trivial
  past_conn := fun _ _ _ _ => trivial
  past_note := fun _ _ _ _ => trivial
  opened := by
    intro u c c' evs _ _ hopening a ha
    have hnone : lastArrival (.opened c :: evs) = none := by
      cases hopening <;> rfl
    rw [hnone] at ha
    cases ha
  move := by
    intro u st c st' c' hist evs _ h hmove a ha hrel
    rcases move_between (move_sender hmove) with ⟨e, i, s, hs, rfl, rfl⟩ | hbetween
    · obtain ⟨sent, hevents, hwired⟩ := arrive_wired u e c i s hs
      rw [hevents, lastArrival_arrive (wired_noArrival hwired)] at ha
      cases ha
      exact since_arrive hs hrel
    · rw [lastArrival_append hbetween.noArrival] at ha
      obtain ⟨first, hfirst, rfl⟩ := Option.map_eq_some_iff.mp ha
      exact (h first hfirst hrel).between hbetween

/-- After every run, callbacks included: the measurement that ran when the last packet
arrived on a reliable connection, and has been running since, can still complete after
an advance of snd.una, except when the acknowledgement has passed it across the wrap of
the sequence numbers. -/
theorem surviving_measurement_can_complete (w : World) (hw : Start w)
    (stimuli : List (Stimulus × List Script)) (h : ℕ) (c : Conn) (a : Arrived)
    (hc : Handles.find (run w stimuli).utcp.connections h = some c)
    (ha : lastArrival (history h (run w stimuli).trace) = some a)
    (hrel : isReliable a.conn = true) (hadv : c.sndUna ≠ a.conn.sndUna)
    (hsince : ∀ ev ∈ a.since, Marked ev) (hrunning : Running c) :
    measurement c = measurement a.conn ∧
      (0 < seqdiff c.rttSeq c.sndUna ↔ ¬PassesWrap a.conn a.packet.hdr.ack) := by
  obtain ⟨stages, hrun⟩ := run_holds law stimuli (okRun_anything stimuli) w
    (start_holds law w hw trivial)
  have hlaw : Since a c := hrun.conn h c hc a ha hrel
  obtain ⟨hsame, hlt⟩ := hlaw.measured hadv hsince hrunning
  refine ⟨hsame, ?_⟩
  have hne : seqdiff a.conn.rttSeq a.packet.hdr.ack ≠ 0 := by
    intro hzero
    rw [(distance_eq_zero_iff _ _).mp hzero] at hlt
    exact UInt32.lt_irrefl _ hlt
  rw [hlaw.advanced hadv, (Prod.mk.inj hsame).2]
  unfold PassesWrap
  rw [← running_congr hsame]
  constructor
  · rintro hpos ⟨-, hneg, -⟩
    omega
  · intro hnot
    have hnonneg : ¬seqdiff a.conn.rttSeq a.packet.hdr.ack < 0 := fun hneg =>
      hnot ⟨hrunning, hneg, hlt⟩
    omega

end Law

section Samples

/-- The first sequence number is the last but one before the wrap. -/
def nearWrap : Env := { sampleEnv true with rand := fun _ => 0xfffffffe }

/-- A packet from port 7 for the connection that the sample opens. -/
def answerOf (seq ackno : UInt32) (ctl : Ctl) : Stimulus × List Script :=
  (.recv nearWrap (.packet ⟨⟨7, 0xfffe, seq, ackno, 65535, ctl, 0⟩, []⟩), [])

/-- A connection is opened and five bytes are sent. -/
def fiveSent : List (Stimulus × List Script) :=
  [(.call ⟨.connect 7 true utcpTcp, nearWrap⟩, []),
    answerOf 0 0xffffffff { syn := true, ack := true },
    (.call ⟨.on 1 (.send (some [1, 2, 3, 4, 5])), nearWrap⟩, [])]

def found (stimuli : List (Stimulus × List Script)) : Option Conn :=
  Handles.find (run ⟨sampleUtcp, [], []⟩ stimuli).utcp.connections 1

/-- All five bytes are acknowledged across the wrap, and the measurement goes on. -/
theorem passed_measurement_goes_on :
    ∃ c c', found fiveSent = some c ∧ isReliable c = true ∧
      found (fiveSent ++ [answerOf 1 4 { ack := true }]) = some c' ∧
      c'.sndUna ≠ c.sndUna ∧ ¬CanComplete c' := by
  have hbefore : (found fiveSent).map (fun c => (c.sndUna, isReliable c)) =
      some (0xffffffff, true) := by
    decide +kernel
  have hafter : (found (fiveSent ++ [answerOf 1 4 { ack := true }])).map
      (fun c => (c.sndUna, c.rttSeq, c.rttStart.sec)) = some (4, 0xffffffff, 1) := by
    decide +kernel
  obtain ⟨c, hc, hstate⟩ := Option.map_eq_some_iff.mp hbefore
  obtain ⟨c', hc', hstate'⟩ := Option.map_eq_some_iff.mp hafter
  simp only [Prod.mk.injEq] at hstate hstate'
  refine ⟨c, c', hc, hstate.2, hc', ?_, fun hcan => ?_⟩
  · rw [hstate.1, hstate'.1]
    decide
  · have hpos := hcan (by rw [Running, hstate'.2.2]; decide)
    rw [hstate'.1, hstate'.2.1] at hpos
    exact absurd hpos (by decide)

/-- Five bytes are sent and acknowledged, then five more, of which two are acknowledged. -/
def partlyAcked : List (Stimulus × List Script) :=
  [sampleCall (.connect 7 true utcpTcp), sampleRecv { syn := true, ack := true } 100 1,
    sampleCall (.on 1 (.send (some [1, 2, 3, 4, 5]))), sampleRecv { ack := true } 101 6,
    sampleCall (.on 1 (.send (some [6, 7, 8, 9, 10]))), sampleRecv { ack := true } 101 8]

theorem surviving_measurement_partlyAcked :
    ∃ c a, Handles.find (run sampleWorld partlyAcked).utcp.connections 1 = some c ∧
      lastArrival (history 1 (run sampleWorld partlyAcked).trace) = some a ∧
      c.sndUna ≠ a.conn.sndUna ∧ Running c ∧ 0 < seqdiff c.rttSeq c.sndUna := by
  have hend : (Handles.find (run sampleWorld partlyAcked).utcp.connections 1).map
      (fun c => (c.sndUna, c.rttStart.sec)) = some (8, 1) := by
    decide +kernel
  have hlast : (lastArrival (history 1 (run sampleWorld partlyAcked).trace)).map
      (fun a => (isReliable a.conn, a.conn.sndUna, a.conn.rttSeq, a.packet.hdr.ack,
        decide (∀ ev ∈ a.since, Marked ev))) = some (true, 6, 11, 8, true) := by
    decide +kernel
  obtain ⟨c, hc, hstate⟩ := Option.map_eq_some_iff.mp hend
  obtain ⟨a, ha, hfound⟩ := Option.map_eq_some_iff.mp hlast
  simp only [Prod.mk.injEq, decide_eq_true_eq] at hstate hfound
  obtain ⟨hrel, hold, hseq, hack, hsince⟩ := hfound
  have hadv : c.sndUna ≠ a.conn.sndUna := by
    rw [hstate.1, hold]
    decide
  have hrunning : Running c := by
    rw [Running, hstate.2]
    decide
  refine ⟨c, a, hc, ha, hadv, hrunning, (surviving_measurement_can_complete sampleWorld
    sampleWorld_start partlyAcked 1 c a hc ha hrel hadv hsince hrunning).2.mpr ?_⟩
  rintro ⟨-, hneg, -⟩
  rw [hseq, hack] at hneg
  exact absurd hneg (by decide)

end Samples

end Meshlink.RttMeasurement
