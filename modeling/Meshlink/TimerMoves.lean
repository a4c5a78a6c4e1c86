import Meshlink.TimerFacts
import Meshlink.WriteShutdown

/-!
Everything a move can do to the timers of a connection, as one list with the
events that tell in which state the move found the connection. Every law about
the timers is a case analysis over this list.
-/
namespace Meshlink.TimerMoves

open UtcpState UtcpTimers UtcpSender UtcpReceiver
open UtcpEndpoint UtcpProcess SenderFacts ControlFacts SendAtomicity Moves
open WriteShutdown TimerFacts SenderMoves Arrivals

/-- Nothing has changed for the timers, except that one may have been started. -/
structure Unchanged (c c' : Conn) : Prop where
  state : c'.state = c.state
  una : c'.sndUna = c.sndUna
  last : c'.sndLast = c.sndLast
  reliable : isReliable c' = isReliable c
  connTimeout : timespecIsset c.connTimeout = true → timespecIsset c'.connTimeout = true
  rtrxTimeout : timespecIsset c.rtrxTimeout = true → timespecIsset c'.rtrxTimeout = true

variable {c c' : Conn}

theorem SameControl.reliable (h : SameControl c c') : isReliable c' = isReliable c := by
  unfold isReliable
  rw [h.2.2.1]

theorem unchanged_of_same (hcontrol : SameControl c c') (htimers : SameTimers c c') :
    Unchanged c c' where
  state := hcontrol.1
  una := htimers.1
  last := htimers.2.1
  reliable := SameControl.reliable hcontrol
  connTimeout := fun hset => by rw [htimers.2.2.1, hset]
  rtrxTimeout := fun hset => by rw [htimers.2.2.2, hset]

theorem Unchanged.refl (c : Conn) : Unchanged c c :=
  unchanged_of_same (SameControl.refl c) (SameTimers.refl c)

/-- The acknowledgement of everything that reaches a connection in CLOSING. -/
def ClosingAcked (c : Conn) (i : Incoming) : Prop :=
  c.state = .closing ∧ i.hdr.ctl.ack = true ∧ i.hdr.ctl.rst = false ∧
    i.hdr.ack = c.sndLast ∧ c.sndUna ≠ c.sndLast

/-- The SYN+ACK that ends an active open. -/
def SynAcked (c : Conn) (i : Incoming) : Prop :=
  c.state = .synSent ∧ i.hdr.ctl.syn = true ∧ i.hdr.ctl.ack = true ∧ i.hdr.ctl.rst = false ∧
    Advances c i.hdr.ack

/-- Where a SYN+ACK leads to: the timers are those of the acknowledgement, except
that ESTABLISHED clears the connection timer, and the sequence number of a FIN is
counted after the timers have been looked at. -/
inductive Connected (c : Conn) (i : Incoming) (c' : Conn) : Prop
  | idle (hshut : c.shutWr = false) (hack : i.hdr.ack = c.sndLast)
      (hto : c'.state = .established) (hall : c'.sndUna = c'.sndLast)
  | busy (hshut : c.shutWr = false) (hack : i.hdr.ack ≠ c.sndLast)
      (hto : c'.state = .established)
      (hset : isReliable c = true → timespecIsset c'.rtrxTimeout = true)
  | finUnguarded (hshut : c.shutWr = true) (hack : i.hdr.ack = c.sndLast)
      (hto : c'.state = .finWait1)
  | finGuarded (hshut : c.shutWr = true) (hack : i.hdr.ack ≠ c.sndLast)
      (hto : c'.state = .finWait1) (hset : isReliable c = true → BothSet c')

theorem Connected.state {i : Incoming} (h : Connected c i c') :
    c'.state = .established ∨ c'.state = .finWait1 := by
  cases h with
  | idle _ _ hto _ => exact Or.inl hto
  | busy _ _ hto _ => exact Or.inl hto
  | finUnguarded _ _ hto => exact Or.inr hto
  | finGuarded _ _ hto _ => exact Or.inr hto

/-- What a move can do to the timers, to the state and to the sequence numbers they guard. -/
inductive TimerMove (c c' : Conn) (evs : List Ev) : Prop
  | closed (hstate : c'.state = .closed)
  | unchanged (h : Unchanged c c')
  | idle (hstate : c'.state = c.state) (hrel : isReliable c' = isReliable c)
      (hall : c'.sndUna = c'.sndLast)
      (hconn : c.state = .timeWait →
        timespecIsset c.connTimeout = true → timespecIsset c'.connTimeout = true)
  | queued (data : Option (List UInt8)) (e : Env) (hev : Ev.call c (.send data) e ∈ evs)
      (hmay : MayQueue c data) (hfrom : c.state = .synSent ∨ c.state = .synReceived)
      (hstate : c'.state = c.state) (hrel : isReliable c' = isReliable c)
      (hconn : c'.connTimeout = c.connTimeout) (hrtrx : c'.rtrxTimeout = c.rtrxTimeout)
  | armed (hbusy : c.state = .established ∨ c.sndUna ≠ c.sndLast) (hstate : c'.state = c.state)
      (hrel : isReliable c' = isReliable c) (hset : BothSet c')
  | finSent (dir : Dir) (e : Env) (hev : Ev.call c (.shutdown dir) e ∈ evs)
      (hdir : dir = .wr ∨ dir = .rdwr) (hshut : c.shutWr = false) (hreap : c.reapable = false)
      (hfrom : c.state = .synReceived ∨ c.state = .established ∨ c.state = .closeWait)
      (hto : c'.state = .finWait1 ∨ c'.state = .closing)
      (hrel : isReliable c' = isReliable c)
      (hconn : timespecIsset c.connTimeout = true → timespecIsset c'.connTimeout = true)
      (hset : timespecIsset c'.rtrxTimeout = true)
  | accepted (hfrom : c.state = .synReceived) (hto : c'.state = .established)
      (hrel : isReliable c' = isReliable c) (huna : c'.sndUna = c.sndUna)
      (hlast : c'.sndLast = c.sndLast) (hrtrx : c'.rtrxTimeout = c.rtrxTimeout)
  | connecting (hto : c'.state = .synSent) (hset : BothSet c')
  | answered (d : Conn) (i : Incoming) (hev : Ev.answered d i ∈ evs)
      (hto : c'.state = .synReceived) (hrel : isReliable c' = isReliable d)
      (hset : timespecIsset c'.rtrxTimeout = true)
  | finReceived (hto : c.state = .established ∧ c'.state = .closeWait ∨
        c.state = .finWait1 ∧ c'.state = .closing)
      (hrel : isReliable c' = isReliable c) (hsame : SameTimers c c')
  | lastFin (hfrom : c.state = .finWait2) (hto : c'.state = .timeWait)
      (hrel : isReliable c' = isReliable c) (huna : c'.sndUna = c.sndUna)
      (hlast : c'.sndLast = c.sndLast) (hset : timespecIsset c'.connTimeout = true)
  | stopped (hfrom : c.state = .closed ∨ c.state = .listen ∨ c.state = .timeWait ∨
        c.state = .finWait2)
      (hstate : c'.state = c.state) (hrel : isReliable c' = isReliable c)
      (huna : c'.sndUna = c.sndUna) (hlast : c'.sndLast = c.sndLast)
      (hconn : c'.connTimeout = c.connTimeout)
  | partly (hstate : c'.state = c.state) (hrel : isReliable c' = false)
      (hne : c.sndUna ≠ c.sndLast)
  | allAcked (i : Incoming) (hev : Ev.arrive c i ∈ evs) (hne : c.sndUna ≠ c.sndLast)
      (hall : c'.sndUna = c'.sndLast) (hrel : isReliable c' = isReliable c)
      (hstate : c'.state = c.state ∨ c.state = .finWait1 ∧ c'.state = .finWait2 ∨
        ClosingAcked c i ∧ c'.state = .timeWait)
  | connected (i : Incoming) (hev : Ev.arrive c i ∈ evs) (hsyn : SynAcked c i)
      (hrel : isReliable c' = isReliable c) (hto : Connected c i c')

section Calls

variable (u : Utcp) (e : Env) (c : Conn) (he : UtcpTimers.Env.ClockRuns e) (hu : 0 ≤ u.timeout)

include he hu in
theorem sendBuffered_timers (len : Int) (s : Step Unit) (h : sendBuffered u e c len = some s) :
    ((c.state = .synSent ∨ c.state = .synReceived) ∧ s.conn.connTimeout = c.connTimeout ∧
        s.conn.rtrxTimeout = c.rtrxTimeout) ∨
      (¬ (c.state = .synSent ∨ c.state = .synReceived) ∧
        (BothSet s.conn ∨ s.conn.sndUna = s.conn.sndLast)) := by
  simp only [sendBuffered] at h
  split at h
  · rename_i hsyn
    cases h
    exact Or.inl ⟨hsyn, rfl, rfl⟩
  rename_i hsyn
  refine Or.inr ⟨hsyn, ?_⟩
  split at h
  · simp at h
  rename_i t ht
  split at h
  · cases h
    left
    generalize hr : (if timespecIsset t.conn.rtrxTimeout = true then t.conn
      else startRetransmitTimer t.conn (e.clk 1)) = r
    have hrset : timespecIsset r.rtrxTimeout = true := by
      rw [← hr]
      split
      · assumption
      · exact startRetransmitTimer_isset _ _ (he 1)
    dsimp only
    split
    · exact ⟨by assumption, hrset⟩
    · exact ⟨startConnTimer_isset u r _ (he 2) hu, hrset⟩
  · cases h
    exact Or.inr rfl

variable (s : Step Ret)

include he hu in
theorem utcpSend_timers (data : Option (List UInt8)) (s : Step Ret)
    (h : utcpSend u e c data = some s) : TimerMove c s.conn s.events := by
  have hcontrol := utcpSend_sameControl u e c data s h
  obtain ⟨inner, -, hevents⟩ := utcpSend_sends u e c data s h
  unfold utcpSend at h
  dsimp only at h
  cases hr : sendRefusal c data with
  | some r =>
    simp only [hr, Option.some.injEq] at h
    subst s
    exact .unchanged (Unchanged.refl c)
  | none =>
    obtain ⟨d, rfl, hq⟩ := (sendRefusal_none_iff c data).mp hr
    simp only [hr] at h
    split at h
    · simp at h
    rename_i t ht
    cases h
    cases sendData_outcome u e c d t hq ht with
    | refused hconn | unstored len buf _ _ hconn =>
      exact .unchanged (unchanged_of_same hcontrol (by rw [hconn]; exact SameTimers.refl c))
    | stored len buf r _ _ hmay hsent hconn _ =>
      dsimp only at hcontrol ⊢
      rw [hconn] at hcontrol ⊢
      have hopen := hq.2.1
      rcases sendBuffered_timers u e _ he hu len r hsent with
        ⟨hsyn, hct, hrt⟩ | ⟨hnot, hset | hidle⟩
      · exact .queued (some d) e (by simp) hmay hsyn hcontrol.1 (SameControl.reliable hcontrol)
          hct hrt
      · refine .armed (Or.inl ?_) hcontrol.1 (SameControl.reliable hcontrol) hset
        tauto
      refine .idle hcontrol.1 (SameControl.reliable hcontrol) hidle ?_
      intro htime
      rw [htime] at hopen
      simp at hopen

include he in
theorem sendFin_timers (h : sendFin u e c = some s) :
    s.conn.connTimeout = c.connTimeout ∧ timespecIsset s.conn.rtrxTimeout = true := by
  simp only [sendFin] at h
  split at h
  · simp at h
  rename_i t ht
  cases h
  obtain ⟨-, -, hconn, -⟩ := sameTimers_of_sent (ack_sent u _ _ _ t ht)
  dsimp only
  split
  · exact ⟨hconn, by assumption⟩
  · exact ⟨hconn, startRetransmitTimer_isset _ _ (he 1)⟩

theorem unchanged_of_released {c c' : Conn} (h : Released c c') : Unchanged c c' := by
  obtain ⟨_, _, _, _, _, rfl⟩ := h
  exact ⟨rfl, rfl, rfl, rfl, id, id⟩

theorem Unchanged.trans {a b d : Conn} (hab : Unchanged a b) (hbd : Unchanged b d) :
    Unchanged a d where
  state := hbd.state.trans hab.state
  una := hbd.una.trans hab.una
  last := hbd.last.trans hab.last
  reliable := hbd.reliable.trans hab.reliable
  connTimeout := fun hset => hbd.connTimeout (hab.connTimeout hset)
  rtrxTimeout := fun hset => hbd.rtrxTimeout (hab.rtrxTimeout hset)

/-- A shutdown, possibly followed by changes the timers do not see, changes the flag only
or counts a FIN. -/
theorem timerMove_of_shutdown (dir : Dir) (t : Step Ret) (c' : Conn)
    (he : UtcpTimers.Env.ClockRuns e) (ht : utcpShutdown u e c dir = some t)
    (hc' : Unchanged t.conn c') : TimerMove c c' t.events := by
  cases utcpShutdown_cases u e c dir t ht with
  | nothing recv r _ => exact .unchanged {hc' with}
  | write recv t hdir hopen hwrite =>
    cases hwrite with
    | already | flagged => exact .unchanged {hc' with}
    | finSent state _ hshut hto hs =>
      obtain ⟨hcontrol, -, -⟩ := sendFin_sameControl u e _ t hs
      obtain ⟨hconn, hset⟩ := sendFin_timers u e _ he t hs
      have hrel := SameControl.reliable hcontrol
      refine .finSent dir e (by simp) hdir hshut hopen (by tauto) ?_ (hc'.reliable.trans hrel)
        (fun hold => hc'.connTimeout ?_) (hc'.rtrxTimeout hset)
      · rw [hc'.state, hcontrol.1]
        rcases hto with ⟨rfl, -⟩ | ⟨rfl, -⟩ <;> simp [setState]
      · rw [hconn]
        rcases hto with ⟨rfl, -⟩ | ⟨rfl, -⟩ <;> exact hold

theorem resetConnection_timers :
    Unchanged c (resetConnection u c).conn ∨ (resetConnection u c).conn.state = .closed := by
  obtain ⟨d, hd, heq | heq⟩ := resetConnection_cases u c
  · rw [heq]
    exact Or.inl (unchanged_of_released hd)
  · rw [heq]
    exact Or.inr rfl

theorem utcpAbort_timers (h : utcpAbort u e c = some s) : TimerMove c s.conn s.events := by
  have hreleased := unchanged_of_released (utcpAbort_cases h).1
  rcases resetConnection_timers u c with hsame | hclosed
  · exact .unchanged (hsame.trans hreleased)
  · exact .closed (hreleased.state.trans hclosed)

include he in
theorem utcpClose_timers (h : utcpClose u e c = some s) : TimerMove c s.conn s.events := by
  obtain ⟨t, ht, hreleased, hevents⟩ := utcpClose_cases h
  rw [hevents]
  exact timerMove_of_shutdown u e c .rdwr t s.conn he ht (unchanged_of_released hreleased)

/-- Nothing has changed, or the connection timer of an idle connection was stopped. -/
def MayIdle (c c' : Conn) : Prop :=
  Unchanged c c' ∨ (c.state ≠ .timeWait ∧ c'.state = c.state ∧ isReliable c' = isReliable c ∧
    c'.sndUna = c'.sndLast)

theorem MayIdle.move {c c' : Conn} (h : MayIdle c c') (evs : List Ev) : TimerMove c c' evs := by
  rcases h with hsame | ⟨htime, hstate, hrel, hall⟩
  · exact .unchanged hsame
  · exact .idle hstate hrel hall fun hwait => absurd hwait htime

theorem utcpExpectData_timers (now : Timespec) (expect : Bool) (hnow : 0 < now.sec)
    (hu : 0 ≤ u.timeout) : MayIdle c (utcpExpectData u now c expect) := by
  unfold utcpExpectData
  split
  · exact Or.inl (Unchanged.refl c)
  rename_i hstate
  split
  · split
    · exact Or.inl (Unchanged.refl c)
    · refine Or.inl ⟨rfl, rfl, rfl, rfl, fun _ => ?_, fun hset => hset⟩
      exact startConnTimer_isset u c now hnow hu
  · split
    · rename_i hall
      refine Or.inr ⟨?_, rfl, rfl, hall⟩
      intro htime
      rw [htime] at hstate
      simp at hstate
    · exact Or.inl (Unchanged.refl c)

include he hu in
theorem connCall_timers (op : Op) (s : Step Ret) (h : connCall e op u c = some s) :
    TimerMove c s.conn s.events := by
  cases op with
  | send data => exact utcpSend_timers u e c he hu data s h
  | shutdown dir => exact timerMove_of_shutdown u e c dir s s.conn he h (Unchanged.refl _)
  | close => exact utcpClose_timers u e c he s h
  | abort => exact utcpAbort_timers u e c s h
  | accept installed =>
    cases h
    unfold utcpAccept
    split
    · exact .unchanged (Unchanged.refl c)
    · rename_i hstate
      refine .accepted ?_ rfl rfl rfl rfl rfl
      tauto
  | setSndbuf storage size | setRcvbuf storage size =>
    obtain ⟨c', hc', rfl⟩ := Option.map_eq_some_iff.mp h
    obtain ⟨buf, -, rfl⟩ := Option.map_eq_some_iff.mp hc'
    exact .unchanged ⟨rfl, rfl, rfl, rfl, id, id⟩
  | setRecvCb installed | setPollCb installed =>
    cases h
    exact .unchanged ⟨rfl, rfl, rfl, rfl, id, id⟩
  | expectData expect =>
    cases h
    exact (utcpExpectData_timers u c (e.clk 0) expect (he 0) hu).move _
  | setFlags flags =>
    cases h
    exact .unchanged ⟨rfl, rfl, rfl, utcpSetFlags_reliable c flags, id, id⟩

end Calls

section Packets

variable (u : Utcp) (e : Env) (c : Conn) (i : Incoming)

/-- The end of an active open, after an acknowledgement of everything or of a part. -/
theorem connected_of_acked (t : Conn) (hshut : t.shutWr = c.shutWr)
    (hacked : i.hdr.ack = c.sndLast ∧ t.sndUna = t.sndLast ∨
      i.hdr.ack ≠ c.sndLast ∧ (isReliable c = true → BothSet t)) :
    Connected c i (if t.shutWr then
        setState { t with
          rcvIrs := i.hdr.seq, rcvNxt := i.hdr.seq + 1, sndLast := t.sndLast + 1 } .finWait1
      else
        setState { t with
          rcvIrs := i.hdr.seq, rcvNxt := i.hdr.seq + 1, doPoll := true } .established) := by
  cases hcase : c.shutWr with
  | true =>
    rw [if_pos (hshut.trans hcase)]
    rcases hacked with ⟨hack, -⟩ | ⟨hack, hset⟩
    · exact .finUnguarded hcase hack rfl
    · exact .finGuarded hcase hack rfl fun hrel => hset hrel
  | false =>
    rw [if_neg (by rw [hshut, hcase]; simp)]
    rcases hacked with ⟨hack, hall⟩ | ⟨hack, hset⟩
    · exact .idle hcase hack rfl hall
    · exact .busy hcase hack rfl fun hrel => (hset hrel).2

variable (he : UtcpTimers.Env.ClockRuns e) (hu : 0 ≤ u.timeout)

/-- Trimming does not touch an acknowledgement that advances snd.una. -/
theorem trimmedSegment_ack (h : (trimmedSegment c i).hdr.ack ≠ c.sndUna) :
    (trimmedSegment c i).hdr.ack = i.hdr.ack := by
  obtain ⟨-, hsame | ⟨huna, -⟩⟩ := trimmedSegment_hdr c i
  · exact hsame
  · exact absurd huna h

include he hu in
theorem acked_timers (t : Step (Option UInt32)) (advanced : UInt32) (evs : List Ev)
    (hev : Ev.arrive c i ∈ evs) (hack : i.hdr.ctl.ack = true)
    (hrst : i.hdr.ctl.rst = true → c.state = .listen)
    (ht : Acknowledged u e { c with sndWnd := i.hdr.wnd } (trimmedSegment c i) t)
    (hvalue : t.value = some advanced) :
    TimerMove c (handleSyn t.conn (trimmedSegment c i) advanced).1 evs := by
  obtain ⟨hctl, -⟩ := trimmedSegment_hdr c i
  obtain ⟨hshut, hflags, hstate⟩ := handleAck_control u e _ _ t ht
  have hrel : isReliable t.conn = isReliable c := by
    unfold isReliable
    rw [hflags]
  have hopen : c.state ≠ .listen → i.hdr.ctl.rst = false := by
    intro hnot
    cases hcase : i.hdr.ctl.rst with
    | false => rfl
    | true => exact absurd (hrst hcase) hnot
  have hout := handleAck_outcome u e _ _ t he hu ht
  rcases handleSyn_cases t.conn (trimmedSegment c i) advanced with
    hsame | ⟨hsyn, hsynSent, hadv, hnew⟩
  · rw [hsame]
    cases hout with
    | refused _ hnone =>
      rw [hvalue] at hnone
      simp at hnone
    | nothing _ _ huna hlast hconn hkept hrtrx =>
      refine .unchanged ⟨hkept, huna, hlast, hrel, fun hset => ?_, fun hset => ?_⟩
      · rw [hconn]
        exact hset
      rcases hrtrx with hold | hnew
      · rw [hold]
        exact hset
      · exact hnew
    | everything _ _ _ hall hrange huna hlast _ =>
      have hkept := trimmedSegment_ack c i hrange.ack_ne_una
      refine .allAcked i hev hrange.una_ne_last (huna.trans hlast.symm) hrel ?_
      rcases hstate with hstate | hstate | ⟨hclosing, hto⟩
      · exact Or.inl hstate
      · exact Or.inr (Or.inl hstate)
      refine Or.inr (Or.inr ⟨⟨hclosing, hack, hopen ?_, hkept.symm.trans hall,
        hrange.una_ne_last⟩, hto⟩)
      have hcstate : c.state = .closing := hclosing
      rw [hcstate]
      simp
    | part _ _ _ _ hrange _ _ hkept hset _ =>
      cases hcase : isReliable c with
      | true => exact .armed (Or.inr hrange.una_ne_last) hkept hrel (hset hcase)
      | false => exact .partly hkept (hrel.trans hcase) hrange.una_ne_last
  · -- Only an acknowledgement that advances snd.una gets here, and in SYN_SENT.
    have hfrom : c.state = .synSent := by
      rcases hstate with hstate | ⟨-, hto⟩ | ⟨-, hto⟩
      · exact hstate.symm.trans hsynSent
      all_goals
        rw [hto] at hsynSent
        simp at hsynSent
    have hseg := trimmedSegment_synSent c i hfrom
    rw [hseg] at hnew hout hsyn ⊢
    have hacked : Advances c i.hdr.ack → SynAcked c i := fun hrange =>
      ⟨hfrom, hsyn, hack, hopen (by rw [hfrom]; simp), hrange⟩
    have hreliable : isReliable (handleSyn t.conn i advanced).1 = isReliable c := by
      rw [hnew]
      split <;> exact hrel
    cases hout with
    | refused _ hnone =>
      rw [hvalue] at hnone
      simp at hnone
    | nothing hzero _ _ _ _ _ _ =>
      rw [hvalue, Option.some.injEq] at hzero
      exact absurd hzero hadv
    | everything _ _ _ hall hrange huna hlast _ =>
      refine .connected i hev (hacked hrange) hreliable ?_
      rw [hnew]
      exact connected_of_acked c i t.conn hshut (Or.inl ⟨hall, huna.trans hlast.symm⟩)
    | part _ _ _ hnot hrange _ _ _ hset _ =>
      refine .connected i hev (hacked hrange) hreliable ?_
      rw [hnew]
      exact connected_of_acked c i t.conn hshut (Or.inr ⟨hnot, hset⟩)

include he hu in
theorem arrive_timers (s : Step (Incoming × Verdict))
    (h : UtcpReceiver.arrive u e c i = some s) : TimerMove c s.conn s.events := by
  have hev := arrive_record u e c i s h
  have hwnd : Unchanged c { c with sndWnd := i.hdr.wnd } := ⟨rfl, rfl, rfl, rfl, id, id⟩
  cases arrive_cases u e c i s h with
  | closed | stray => exact .unchanged (Unchanged.refl c)
  | reset r _ _ hr =>
    rcases handleRst_cases _ _ r hr with hsame | hclosed | hclosed
    · dsimp only
      rw [hsame]
      exact .unchanged hwnd
    all_goals
      dsimp only
      rw [hclosed]
      exact .closed rfl
  | unacked _ _ =>
    rcases handleSyn_cases { c with sndWnd := i.hdr.wnd } (trimmedSegment c i) 0 with
      hsame | ⟨-, -, hadv, -⟩
    · dsimp only
      rw [hsame]
      exact .unchanged hwnd
    · exact absurd rfl hadv
  | refused t _ _ ht hvalue =>
    cases handleAck_outcome u e _ _ t he hu ht with
    | refused hsame _ =>
      dsimp only
      rw [hsame]
      exact .unchanged hwnd
    | nothing hsome | everything _ hsome | part _ hsome =>
      rw [hvalue] at hsome
      simp at hsome
  | acked t advanced _ hack hrst ht hvalue =>
    exact acked_timers u e c i he hu t advanced _ hev hack hrst ht hvalue

end Packets

section Moves

variable (u : Utcp) (e : Env) (c : Conn) (he : UtcpTimers.Env.ClockRuns e) (hu : 0 ≤ u.timeout)

include he hu in
theorem resetTimers_timers : Unchanged c (UtcpEndpoint.resetTimers u (e.clk 0) c) := by
  unfold UtcpEndpoint.resetTimers
  split
  · exact Unchanged.refl c
  refine ⟨rfl, rfl, rfl, rfl, fun hset => ?_, fun hset => ?_⟩
  · dsimp only
    rw [if_pos hset]
    exact startConnTimer_isset u c _ (he 0) hu
  dsimp only
  rw [if_pos hset]
  have hnow := he 0
  exact decide_eq_true (by omega)

include he hu in
theorem offlineConn_timers (off : Bool) : MayIdle c (offlineConn u e off c) := by
  have hexpect := utcpExpectData_timers u c (e.clk 1) off (he 1) hu
  unfold offlineConn
  split
  · exact Or.inl (Unchanged.refl c)
  dsimp only
  split
  · exact hexpect
  rcases hexpect with hsame | hidle
  · refine Or.inl {hsame with rtrxTimeout := fun hset => ?_}
    dsimp only
    rw [if_pos (hsame.rtrxTimeout hset)]
    have hnow := he 0
    exact decide_eq_true (by omega)
  · exact Or.inr hidle

include he in
theorem retransmitSend_timers (s : Step Unit) (h : retransmitSend u e c = some s) :
    TimerMove c s.conn s.events := by
  have hback : ∀ d : Conn, timespecIsset (backOff (e.clk 0) d).rtrxTimeout = true := by
    intro d
    exact startRetransmitTimer_isset d _ (he 0)
  unfold retransmitSend at h
  split at h
  iterate 2
    cases h
    exact .unchanged ⟨rfl, rfl, rfl, rfl, id, fun _ => hback c⟩
  iterate 5
    obtain ⟨seg, -, rfl⟩ := Option.map_eq_some_iff.mp h
    exact .unchanged ⟨rfl, rfl, rfl, rfl, id, fun _ => hback _⟩
  all_goals rename_i hstate
  all_goals
    cases h
    refine .stopped ?_ rfl rfl rfl rfl rfl
    rw [hstate]
    simp

include he hu in
theorem finState_timers (c' : Conn) (h : finState u e c = some c') :
    TimerMove c { c' with rcvNxt := c'.rcvNxt + 1 } [.fin] := by
  unfold finState at h
  split at h
  all_goals rename_i hstate
  · cases h
    exact .finReceived (Or.inl ⟨hstate, rfl⟩) rfl ⟨rfl, rfl, rfl, rfl⟩
  · cases h
    exact .finReceived (Or.inr ⟨hstate, rfl⟩) rfl ⟨rfl, rfl, rfl, rfl⟩
  · cases h
    exact .lastFin hstate rfl rfl rfl rfl (startConnTimer_isset u c _ (he 9) hu)
  all_goals first
    | (simp at h; done)
    | (cases h
       exact .unchanged ⟨rfl, rfl, rfl, rfl, id, id⟩)

end Moves

theorem sameTimers_of_sameSender (h : SameSender c c') : SameTimers c c' := by
  obtain ⟨rcvbuf, sacks, nxt, rfl⟩ := h
  exact SameTimers.refl c

/-- Every move is in the list. -/
theorem move_timers (u : Utcp) (c c' : Conn) (evs : List Ev) (hu : 0 ≤ u.timeout)
    (h : SenderMove clocks u c c' evs) : TimerMove c c' evs := by
  cases h with
  | received _ _ _ hsame _ =>
    exact .unchanged (unchanged_of_same (sameControl_of_sameSender hsame)
      (sameTimers_of_sameSender hsame))
  | call e op _ s he _ hs => exact connCall_timers u e c he hu op s hs
  | resetTimers e _ he => exact .unchanged (resetTimers_timers u e c he hu)
  | offline e off _ he => exact (offlineConn_timers u e c he hu off).move _
  | reset _ =>
    rcases resetConnection_timers u c with hsame | hclosed
    · exact .unchanged hsame
    · exact .closed hclosed
  | arrive e i _ s he _ hs => exact arrive_timers u e c i he hu s hs
  | synack e i _ he _ =>
    exact .answered c i (by simp [UtcpReceiver.synack]) rfl rfl
      (startRetransmitTimer_isset _ _ (he 8))
  | notAccepted _ _ => exact .closed rfl
  | fin e _ d he hs => exact finState_timers u e c he hu d hs
  | reply e one _ s _ hs =>
    have hsent := ack_sent u _ c one s hs
    exact .unchanged (unchanged_of_same (sameControl_of_sent hsent) (sameTimers_of_sent hsent))
  | stopTimer _ hstop =>
    rcases hstop with hclosed | hall
    · exact .closed hclosed
    · exact .idle rfl rfl hall.symm fun _ hset => hset
  | retransmit e _ s he hs => exact retransmitSend_timers u e c he s hs
  | timeOut _ => exact .closed rfl
  | polled _ => exact .unchanged ⟨rfl, rfl, rfl, rfl, id, id⟩

/-- What happens to the timers of a new connection. -/
theorem opening_timers (u : Utcp) (c c' : Conn) (evs : List Ev) (hu : 0 ≤ u.timeout)
    (h : Opening clocks u c c' evs) : TimerMove c c' (.opened c :: evs) := by
  cases h with
  | unused _ => exact .unchanged (Unchanged.refl c)
  | connect e recv flags _ he =>
    exact .connecting rfl ⟨startConnTimer_isset u c _ (he 0) hu,
      startRetransmitTimer_isset _ _ (he 1)⟩
  | answer e i flags _ he _ =>
    exact .answered { c with flags := flags } i (by simp [UtcpReceiver.synack]) rfl rfl
      (startRetransmitTimer_isset _ _ (he 8))

end Meshlink.TimerMoves
