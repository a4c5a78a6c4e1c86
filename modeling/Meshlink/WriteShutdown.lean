import Meshlink.EventFacts

/-!
After a write shutdown nothing more is accepted. The shutdown is recorded in
the flag shut_wr and, except in SYN_SENT, in the state; utcp_send looks at the
state only. So the law holds in every run in which no data is queued on a
connection that was shut down while its SYN was still unanswered.
-/
namespace Meshlink.WriteShutdown

open List UtcpBuffer UtcpState UtcpTimers UtcpSender UtcpReceiver
open UtcpEndpoint UtcpProcess SenderFacts ControlFacts SendAtomicity EventFacts Moves Runs
open SenderMoves Arrivals

variable {hist evs : List Ev} (u : Utcp) (e : Env) (c : Conn) (d : List UInt8) (s : Step Ret)

/-- A connection that is shut down for writing is in no state in which utcp_send
takes data, SYN_SENT excepted. -/
def ShutState (c : Conn) : Prop := c.shutWr = true → c.state ≠ .synReceived ∧ c.state ≠ .established

theorem ShutState.same {c c' : Conn} (hc : ShutState c) (hstate : c'.state = c.state)
    (hshut : c'.shutWr = c.shutWr) : ShutState c' := by
  intro hflag
  rw [hstate]
  exact hc (hshut.symm.trans hflag)

theorem shutState_closed {c : Conn} (h : c.state = .closed) : ShutState c := by
  intro _
  rw [h]
  simp

theorem sendFin_sameControl (h : sendFin u e c = some s) :
    SameControl c s.conn ∧ Quiet s.events ∧ s.value.value = 0 := by
  simp only [sendFin] at h
  split at h
  · simp at h
  rename_i t ht
  cases h
  obtain ⟨hstate, hshut, hflags, hreap⟩ := sameControl_of_sent (ack_sent u _ _ _ t ht)
  refine ⟨?_, (ack_wired u _ _ _ t ht).quiet, rfl⟩
  dsimp only
  split <;> exact ⟨hstate, hshut, hflags, hreap⟩

/-- The write half of utcp_shutdown sets the flag and leaves the open states. -/
theorem shutdownWrite_spec (hc : ShutState c)
    (h : WriteShut u e c s) : s.conn.shutWr = true ∧ ShutState s.conn ∧ Quiet s.events := by
  cases h with
  | already hshut => exact ⟨hshut, hc, Quiet.nil⟩
  | flagged r hshut hreceived hestablished hwait =>
    exact ⟨rfl, fun _ => ⟨hreceived, hestablished⟩, Quiet.nil⟩
  | finSent state _ hshut hto hs =>
    obtain ⟨⟨hstate, hflag, -, -⟩, hquiet, -⟩ := sendFin_sameControl u e _ s hs
    refine ⟨hflag, fun _ => ?_, hquiet⟩
    rw [hstate]
    rcases hto with ⟨rfl, -⟩ | ⟨rfl, -⟩ <;> simp [setState]

/-- The events of a call: the call, whatever it did, and what it returned. -/
def Reports (c : Conn) (op : Op) (e : Env) (r : Ret) (evs : List Ev) : Prop :=
  ∃ inner, Quiet inner ∧ evs = .call c op e :: inner ++ [.ret op r]

theorem utcpShutdown_spec (dir : Dir) (s : Step Ret)
    (hc : ShutState c) (h : utcpShutdown u e c dir = some s) :
    (c.shutWr = true → s.conn.shutWr = true) ∧ ShutState s.conn ∧
      Reports c (.shutdown dir) e s.value s.events ∧
      ((dir = .wr ∨ dir = .rdwr) → s.value.value = 0 → s.conn.shutWr = true) := by
  cases utcpShutdown_cases u e c dir s h with
  | nothing recv r hvalue =>
    refine ⟨fun hshut => hshut, hc, ⟨[], Quiet.nil, rfl⟩, fun hdir hzero => ?_⟩
    rw [hvalue hdir] at hzero
    simp at hzero
  | write recv t hdir hopen ht =>
    obtain ⟨hshut, hstate, hquiet⟩ := shutdownWrite_spec u e { c with recv := recv } t hc ht
    exact ⟨fun _ => hshut, hstate, ⟨t.events, hquiet, rfl⟩, fun _ _ => hshut⟩

theorem control_of_released {c c' : Conn} (h : Released c c') :
    c'.state = c.state ∧ c'.shutWr = c.shutWr := by
  obtain ⟨_, _, _, _, _, rfl⟩ := h
  exact ⟨rfl, rfl⟩

theorem utcpClose_spec (hc : ShutState c) (h : utcpClose u e c = some s) :
    (c.shutWr = true → s.conn.shutWr = true) ∧ ShutState s.conn ∧
      ∃ r, Reports c (.shutdown .rdwr) e r s.events ∧ (r.value = 0 → s.conn.shutWr = true) := by
  obtain ⟨t, ht, hreleased, hevents⟩ := utcpClose_cases h
  obtain ⟨hmono, hstate, hreports, hzero⟩ := utcpShutdown_spec u e c .rdwr t hc ht
  obtain ⟨hcstate, hcshut⟩ := control_of_released hreleased
  rw [hcshut, hevents]
  exact ⟨hmono, hstate.same hcstate hcshut, t.value, hreports, hzero (Or.inr rfl)⟩

theorem resetConnection_shutState (hc : ShutState c) :
    (resetConnection u c).conn.shutWr = c.shutWr ∧ ShutState (resetConnection u c).conn := by
  obtain ⟨d, hd, heq⟩ := resetConnection_cases u c
  obtain ⟨hstate, hshut⟩ := control_of_released hd
  rcases heq with heq | heq
  · rw [heq]
    exact ⟨hshut, hc.same hstate hshut⟩
  · rw [heq]
    exact ⟨hshut, shutState_closed rfl⟩

/-- A call that may take data: it passes the first checks, and on a reliable
connection there is room in the buffer. -/
def MayQueue (c : Conn) (data : Option (List UInt8)) : Prop :=
  ∃ d, data = some d ∧ Queues c d ∧
    (isReliable c = true → c.sndbuf.used < c.sndbuf.maxsize) ∧
    (isReliable c = false → c.state = .established)

/-- The events between a call of utcp_send and its return. -/
def Sends (c : Conn) (data : Option (List UInt8)) (inner : List Ev) : Prop :=
  Quiet inner ∨ ∃ d rest, inner = .accepted d :: rest ∧ Quiet rest ∧ MayQueue c data

theorem bufferPut_full (buf : Buffer) (d : List UInt8) (a : Alloc) (hd : d ≠ [])
    (hfull : buf.maxsize ≤ buf.used) : bufferPut buf d a = some (0, buf) := by
  have hpos : 0 < d.length := length_pos_of_ne_nil hd
  simp [bufferPut, bufferPutAt, show buf.maxsize < buf.used + d.length by omega, hfull]

/-- What becomes of data that passed the first checks: it is refused, the buffer
does not take it, or it is stored and snd.last moves. -/
inductive SendOutcome (u : Utcp) (e : Env) (c : Conn) (d : List UInt8) (s : Step Ret) : Prop
  | refused (hconn : s.conn = c) (hevents : s.events = [])
  | unstored (len : Int) (buf : Buffer)
      (hput : bufferPut c.sndbuf d (e.alloc 0) = some (len, buf))
      (hlen : isReliable c = true → len = 0) (hconn : s.conn = { c with sndbuf := buf })
      (hevents : s.events = [])
  | stored (len : Int) (buf : Buffer) (t : Step Unit)
      (hput : bufferPut c.sndbuf d (e.alloc 0) = some (len, buf)) (hlen : len ≠ 0)
      (hmay : MayQueue c (some d))
      (ht : sendBuffered u e { c with sndbuf := buf } len = some t) (hconn : s.conn = t.conn)
      (hevents : s.events = .accepted (d.take len.toNat) :: t.events)

theorem sendData_outcome
    (hq : Queues c d) (h : sendData u e c d = some s) : SendOutcome u e c d s := by
  obtain ⟨-, hopen, hd, -⟩ := id hq
  simp only [sendData] at h
  split at h
  · rename_i hrel
    split at h
    · simp at h
    rename_i len buf hput
    split at h
    · rename_i hlen
      cases h
      exact .unstored len buf hput (fun _ => hlen) rfl rfl
    rename_i hlen
    split at h
    · simp at h
    rename_i t ht
    cases h
    refine .stored len buf t hput hlen ⟨d, rfl, hq, ?_, ?_⟩ ht rfl rfl
    · intro _
      by_contra hfull
      rw [bufferPut_full c.sndbuf d _ hd (by omega)] at hput
      simp only [Option.some.injEq, Prod.mk.injEq] at hput
      exact hlen hput.1.symm
    · intro hunrel
      rw [hrel] at hunrel
      simp at hunrel
  · rename_i hrel
    split at h
    · rename_i hstate
      split at h
      · cases h
        exact .refused rfl rfl
      split at h
      · simp at h
      rename_i len buf hput
      split at h
      · cases h
        exact .unstored len buf hput (fun hr => absurd hr hrel) rfl rfl
      rename_i hlen
      split at h
      · simp at h
      rename_i t ht
      cases h
      have hpos : 0 < d.length := length_pos_of_ne_nil hd
      refine .stored len buf t hput (by omega) ⟨d, rfl, hq, ?_, ?_⟩ ht rfl rfl
      · intro hr
        exact absurd hr hrel
      · intro _
        tauto
    · cases h
      exact .refused rfl rfl

theorem sendData_sends
    (hq : Queues c d) (h : sendData u e c d = some s) : Sends c (some d) s.events := by
  cases sendData_outcome u e c d s hq h with
  | refused hconn hevents =>
    rw [hevents]
    exact Or.inl Quiet.nil
  | unstored len buf hput hlen hconn hevents =>
    rw [hevents]
    exact Or.inl Quiet.nil
  | stored len buf t hput hlen hmay ht hconn hevents =>
    exact Or.inr ⟨_, _, hevents, (sendBuffered_wired u e _ _ t ht).quiet, hmay⟩

theorem utcpSend_sends (data : Option (List UInt8)) (s : Step Ret)
    (h : utcpSend u e c data = some s) : ∃ inner, Sends c data inner ∧
      s.events = .call c (.send data) e :: inner ++ [.ret (.send data) s.value] := by
  unfold utcpSend at h
  dsimp only at h
  cases hr : sendRefusal c data with
  | some r =>
    simp only [hr, Option.some.injEq] at h
    subst s
    exact ⟨[], Or.inl Quiet.nil, rfl⟩
  | none =>
    obtain ⟨d, rfl, hq⟩ := (sendRefusal_none_iff c data).mp hr
    simp only [hr] at h
    split at h
    · simp at h
    · rename_i t ht
      cases h
      exact ⟨t.events, sendData_sends u e c d t hq ht, rfl⟩

/-- A write shutdown has returned 0. -/
def ShutDown (hist : List Ev) : Prop :=
  ∃ dir r, (dir = .wr ∨ dir = .rdwr) ∧ Ev.ret (.shutdown dir) r ∈ hist ∧ r.value = 0

/-- No call of utcp_send accepts a byte once a write shutdown has returned 0. -/
def NothingLater (hist : List Ev) : Prop :=
  ∀ before d rest, hist = before ++ .accepted d :: rest → ShutDown before → d = []

/-- Data is queued on a reliable connection in SYN_SENT that is shut down for writing. -/
def QueuesAfterShutdown (hist : List Ev) : Prop :=
  ∃ c data e, Ev.call c (.send data) e ∈ hist ∧ isReliable c = true ∧ c.shutWr = true ∧
    c.state = .synSent ∧ MayQueue c data

theorem ShutDown.mono {hist hist' : List Ev} (h : ShutDown hist) (hsub : hist ⊆ hist') :
    ShutDown hist' := by
  obtain ⟨dir, r, hdir, hmem, hzero⟩ := h
  exact ⟨dir, r, hdir, hsub hmem, hzero⟩

theorem nothingLater_append (hhist : NothingLater hist)
    (hevs : ∀ d, Ev.accepted d ∈ evs → ShutDown (hist ++ evs) → d = []) :
    NothingLater (hist ++ evs) := by
  intro before d rest heq hshut
  rcases append_eq_append_iff.mp heq with ⟨mid, hbefore, hsplit⟩ | ⟨mid, hhist', hsplit⟩
  · -- The event is one of the new ones.
    apply hevs d
    · rw [hsplit]
      simp
    · apply hshut.mono
      rw [heq]
      exact subset_append_left _ _
  · cases mid with
    | nil =>
      apply hevs d
      · rw [nil_append] at hsplit
        rw [← hsplit]
        simp
      · apply hshut.mono
        rw [heq]
        exact subset_append_left _ _
    | cons ev mid =>
      simp only [cons_append, List.cons.injEq] at hsplit
      obtain ⟨rfl, -⟩ := hsplit
      exact hhist before d mid hhist' hshut

/-- Events without accepted data and without a return value. -/
def Silent (evs : List Ev) : Prop := ∀ ev ∈ evs, (∀ d, ev ≠ .accepted d) ∧ ∀ op r, ev ≠ .ret op r

theorem silent_of_quiet {evs : List Ev} (h : Quiet evs) : Silent evs := by
  intro ev hev
  refine ⟨?_, ?_⟩
  · rintro d rfl
    exact h _ hev trivial
  · rintro op r rfl
    exact h _ hev trivial

theorem silent_call (op : Op) (e : Env) {evs : List Ev} (h : Silent evs) :
    Silent (.call c op e :: evs) := by
  intro ev hev
  rcases mem_cons.mp hev with rfl | hrest
  · exact ⟨fun d => by simp, fun op r => by simp⟩
  · exact h ev hrest

theorem shutDown_silent (hsilent : Silent evs) (h : ShutDown (hist ++ evs)) : ShutDown hist := by
  obtain ⟨dir, r, hdir, hmem, hzero⟩ := h
  rcases mem_append.mp hmem with hold | hnew
  · exact ⟨dir, r, hdir, hold, hzero⟩
  · exact absurd rfl ((hsilent _ hnew).2 _ _)

/-- What every move keeps as long as the condition is met. -/
structure Kept (c : Conn) (hist : List Ev) : Prop where
  state : ShutState c
  flag : ShutDown hist → c.shutWr = true
  later : NothingLater hist

theorem Kept.silent {c c' : Conn} {hist evs : List Ev} (h : Kept c hist) (hsilent : Silent evs)
    (hflag : c.shutWr = true → c'.shutWr = true) (hstate : ShutState c') :
    Kept c' (hist ++ evs) where
  state := hstate
  flag := fun hshut => hflag (h.flag (shutDown_silent hsilent hshut))
  later := nothingLater_append h.later fun d hd => absurd rfl ((hsilent _ hd).1 d)

/-- The usual case: the code leaves the control fields alone. -/
theorem Kept.same {c c' : Conn} {hist evs : List Ev} (h : Kept c hist) (hquiet : Quiet evs)
    (hsame : SameControl c c') : Kept c' (hist ++ evs) :=
  h.silent (silent_of_quiet hquiet) (fun hshut => hsame.2.1.trans hshut)
    (h.state.same hsame.1 hsame.2.1)

theorem Kept.send {c : Conn} {hist : List Ev} (h : Kept c hist) (u : Utcp) (e : Env)
    (data : Option (List UInt8)) (s : Step Ret) (hs : utcpSend u e c data = some s)
    (hcond : ¬ QueuesAfterShutdown (hist ++ s.events)) : Kept s.conn (hist ++ s.events) := by
  have hsame := utcpSend_sameControl u e c data s hs
  obtain ⟨inner, hsends, hevents⟩ := utcpSend_sends u e c data s hs
  have hold : ShutDown (hist ++ s.events) → ShutDown hist := by
    rintro ⟨dir, r, hdir, hmem, hzero⟩
    refine ⟨dir, r, hdir, ?_, hzero⟩
    rcases mem_append.mp hmem with hmem | hmem
    · exact hmem
    exfalso
    rw [hevents] at hmem
    simp only [cons_append, mem_cons, reduceCtorEq, mem_append, Ev.ret.injEq,
      not_mem_nil, or_false, false_or, false_and] at hmem
    rcases hsends with hquiet | ⟨d, rest, rfl, hquiet, -⟩
    · exact hquiet _ hmem trivial
    · rcases mem_cons.mp hmem with heq | hmem
      · simp at heq
      · exact hquiet _ hmem trivial
  refine ⟨h.state.same hsame.1 hsame.2.1, ?_, ?_⟩
  · intro hshut
    exact hsame.2.1.trans (h.flag (hold hshut))
  apply nothingLater_append h.later
  intro d hd hshut
  have hflag := h.flag (hold hshut)
  obtain ⟨hreceived, hestablished⟩ := h.state hflag
  rw [hevents] at hd
  simp only [cons_append, mem_cons, reduceCtorEq, mem_append,
    not_mem_nil, or_false, false_or] at hd
  rcases hsends with hquiet | ⟨d', rest, rfl, -, hmay⟩
  · exact absurd trivial (hquiet _ hd)
  -- Data was queued after the shutdown, so in SYN_SENT: the excluded call.
  exfalso
  obtain ⟨d₀, hdata, hq, hroom, hunrel⟩ := id hmay
  have hsyn : c.state = .synSent := by
    rcases hq.2.1 with hstate | hstate | hstate
    · exact hstate
    · exact absurd hstate hreceived
    · exact absurd hstate hestablished
  have hrel : isReliable c = true := by
    by_contra hnot
    exact hestablished (hunrel (by simpa using hnot))
  apply hcond
  refine ⟨c, data, e, ?_, hrel, hflag, hsyn, hmay⟩
  rw [hevents]
  simp

theorem Kept.shutdown {c c' : Conn} {hist evs : List Ev} {dir : Dir} {e : Env} {r : Ret}
    (h : Kept c hist) (hmono : c.shutWr = true → c'.shutWr = true) (hstate : ShutState c')
    (hreports : Reports c (.shutdown dir) e r evs)
    (hzero : (dir = .wr ∨ dir = .rdwr) → r.value = 0 → c'.shutWr = true) :
    Kept c' (hist ++ evs) := by
  obtain ⟨inner, hquiet, rfl⟩ := hreports
  refine ⟨hstate, ?_, ?_⟩
  · rintro ⟨dir', r', hdir, hmem, hr⟩
    rcases mem_append.mp hmem with hold | hnew
    · exact hmono (h.flag ⟨dir', r', hdir, hold, hr⟩)
    simp only [cons_append, mem_cons, reduceCtorEq, mem_append, Ev.ret.injEq,
      Op.shutdown.injEq, not_mem_nil, or_false, false_or] at hnew
    rcases hnew with hinner | ⟨rfl, rfl⟩
    · exact absurd trivial (hquiet _ hinner)
    · exact hzero hdir hr
  · apply nothingLater_append h.later
    intro d hd
    simp only [cons_append, mem_cons, reduceCtorEq, mem_append,
      not_mem_nil, or_false, false_or] at hd
    exact absurd trivial (hquiet _ hd)

theorem note_quiet {ev : Ev} (h : Note ev) : Quiet [ev] := by
  apply Quiet.cons _ Quiet.nil
  cases h <;> exact fun hspoken => hspoken

theorem Fresh.open_flag {c : Conn} (h : Fresh c) : c.shutWr = false := by
  obtain ⟨u, src, dst, iss, sndbuf, rcvbuf, rfl, -⟩ := h
  rfl

theorem stateStep_shutState {c c' : Conn} (h : StateStep c c'.state) (hshut : c'.shutWr = c.shutWr)
    (hc : ShutState c) : ShutState c' := by
  intro hflag
  have hold := hc (hshut.symm.trans hflag)
  generalize c'.state = after at h
  cases h with
  | same => exact hold
  | closed => simp
  | finAcked _ => simp
  | closingAcked _ => simp
  | connected _ hopen =>
    rw [← hshut, hflag] at hopen
    simp at hopen
  | connectedShut _ _ => simp

/-- The calls on a connection, one case for each. -/
theorem Kept.call {c : Conn} {hist : List Ev} (h : Kept c hist) (u : Utcp) (e : Env) (op : Op)
    (s : Step Ret) (hs : connCall e op u c = some s)
    (hcond : ¬ QueuesAfterShutdown (hist ++ s.events)) : Kept s.conn (hist ++ s.events) := by
  have hcall : ∀ {c' : Conn}, (c.shutWr = true → c'.shutWr = true) → ShutState c' →
      Kept c' (hist ++ [.call c op e]) := fun hflag hstate =>
    h.silent (silent_call c op e (silent_of_quiet Quiet.nil)) hflag hstate
  cases op with
  | send data => exact h.send u e data s hs hcond
  | shutdown dir =>
    obtain ⟨hmono, hstate, hreports, hzero⟩ := utcpShutdown_spec u e c dir s h.state hs
    exact h.shutdown hmono hstate hreports hzero
  | close =>
    obtain ⟨hmono, hstate, r, hreports, hzero⟩ := utcpClose_spec u e c s h.state hs
    exact h.shutdown hmono hstate hreports fun _ => hzero
  | abort =>
    obtain ⟨hshut, hreset⟩ := resetConnection_shutState u c h.state
    obtain ⟨hreleased, hevents⟩ := utcpAbort_cases hs
    obtain ⟨hcstate, hcshut⟩ := control_of_released hreleased
    rw [hevents]
    exact h.silent (silent_call c _ e (silent_of_quiet (resetConnection_wired u c).quiet))
      (fun hflag => hcshut.trans (hshut.trans hflag)) (hreset.same hcstate hcshut)
  | accept installed =>
    cases hs
    unfold utcpAccept
    split
    · exact hcall (fun hflag => hflag) h.state
    rename_i hstate
    refine hcall (fun hflag => hflag) ?_
    intro hflag
    have hreceived := (h.state hflag).1
    tauto
  | setSndbuf storage size | setRcvbuf storage size =>
    obtain ⟨c', hc', rfl⟩ := Option.map_eq_some_iff.mp hs
    obtain ⟨buf, -, rfl⟩ := Option.map_eq_some_iff.mp hc'
    exact hcall (fun hflag => hflag) h.state
  | setRecvCb installed | setPollCb installed | setFlags flags =>
    cases hs
    exact hcall (fun hflag => hflag) h.state
  | expectData expect =>
    cases hs
    obtain ⟨t, heq⟩ := utcpExpectData_eq u (e.clk 0) c expect
    dsimp only
    rw [heq]
    exact hcall (fun hflag => hflag) h.state

theorem receipt_quiet {ev : Ev} (h : Receipt ev) : Quiet [ev] := by
  cases h with
  | note hnote => exact note_quiet hnote
  | recv | half | inOrder => exact Quiet.cons (fun hspoken => hspoken) Quiet.nil

theorem receipts_quiet {evs : List Ev} (h : ∀ ev ∈ evs, Receipt ev) : Quiet evs := by
  intro ev hev
  exact receipt_quiet (h ev hev) ev (mem_singleton.mpr rfl)

/-- Every move keeps the law as long as the condition is met. -/
theorem Kept.move {u : Utcp} {c c' : Conn} {hist evs : List Ev} (h : Kept c hist)
    (hmove : SenderMove anything u c c' evs)
    (hcond : ¬ QueuesAfterShutdown (hist ++ evs)) : Kept c' (hist ++ evs) := by
  have hclosed : ∀ {d : Conn}, d.shutWr = c.shutWr → d.state = .closed → Kept d (hist ++ []) :=
    fun hshut hstate => h.silent (silent_of_quiet Quiet.nil) (fun hflag => hshut.trans hflag)
      (shutState_closed hstate)
  have hone : ∀ p, Quiet [Ev.control p] := fun p => Quiet.cons (fun hspoken => hspoken) Quiet.nil
  cases hmove with
  | received _ _ _ hsame hevs =>
    exact h.same (receipts_quiet hevs) (sameControl_of_sameSender hsame)
  | call e op _ s _ _ hs => exact h.call u e op s hs hcond
  | resetTimers e _ _ =>
    exact h.same Quiet.nil (sameControl_of_retimed (resetTimers_retimed u _ c))
  | offline e off _ _ =>
    exact h.same Quiet.nil (sameControl_of_retimed (offlineConn_retimed u e off c))
  | reset _ =>
    obtain ⟨hshut, hreset⟩ := resetConnection_shutState u c h.state
    exact h.silent (silent_of_quiet (resetConnection_wired u c).quiet)
      (fun hflag => hshut.trans hflag) hreset
  | arrive e i _ s _ _ hs =>
    obtain ⟨hshut, -, hstep⟩ := arrive_control u e c i s hs
    obtain ⟨sent, hevents, hwired⟩ := arrive_wired u e c i s hs
    rw [hevents]
    exact h.silent (silent_of_quiet (Quiet.cons (fun hspoken => hspoken) hwired.quiet))
      (fun hflag => hshut.trans hflag)
      (stateStep_shutState hstep hshut h.state)
  | synack e i _ _ hstate =>
    refine h.silent (silent_of_quiet (Quiet.cons (fun hspoken => hspoken) (hone _)))
      (fun hflag => hflag) ?_
    intro hflag
    exact absurd hstate (h.state hflag).1
  | notAccepted _ _ => exact hclosed rfl rfl
  | fin e _ d _ hs =>
    refine h.silent (silent_of_quiet (Quiet.cons (fun hspoken => hspoken) Quiet.nil))
      (fun hflag => ?_) (fun hflag => ?_)
    · unfold finState at hs
      split at hs
      all_goals first
        | (simp only [Option.some.injEq] at hs; subst d; exact hflag)
        | simp at hs
    · unfold finState at hs
      split at hs
      all_goals first
        | (simp only [Option.some.injEq] at hs; subst d; exact h.state hflag)
        | (simp only [Option.some.injEq] at hs
           subst d
           exact ⟨by simp [setState], by simp [setState]⟩)
        | simp at hs
  | reply e one _ s _ hs =>
    exact h.same (Quiet.cons (fun hspoken => hspoken) (ack_wired u _ c one s hs).quiet)
      (sameControl_of_sent (ack_sent u _ c one s hs))
  | stopTimer _ _ => exact h.same Quiet.nil (SameControl.refl c)
  | retransmit e _ s _ hs =>
    obtain ⟨sent, hevents, hwired⟩ := retransmitSend_wired u e c s hs
    rw [hevents]
    exact h.same (Quiet.cons (fun hspoken => hspoken) hwired.quiet)
      (retransmitSend_sameControl u e c s hs)
  | timeOut _ => exact hclosed rfl rfl
  | polled _ => exact h.same Quiet.nil (SameControl.refl c)

/-- A new connection is not shut down, and nothing has been accepted on it. -/
theorem kept_opened {u : Utcp} {c c' : Conn} {evs : List Ev} (hfresh : Fresh c)
    (hopening : Opening anything u c c' evs) : Kept c' (.opened c :: evs) := by
  have hopen : c'.shutWr = false := by
    have hold : c.shutWr = false := Fresh.open_flag hfresh
    cases hopening with
    | unused | connect | answer => exact hold
  have hsilent : Silent (.opened c :: evs) := by
    intro ev hev
    cases hopening with
    | unused _ => simp_all
    | connect e recv flags _ _ =>
      simp only [mem_cons, not_mem_nil, or_false] at hev
      rcases hev with rfl | rfl <;> exact ⟨fun d => by simp, fun op r => by simp⟩
    | answer e i flags _ _ _ =>
      simp only [UtcpReceiver.synack, mem_cons, not_mem_nil, or_false] at hev
      rcases hev with rfl | rfl | rfl <;> exact ⟨fun d => by simp, fun op r => by simp⟩
  refine ⟨fun hflag => ?_, ?_, ?_⟩
  · rw [hopen] at hflag
    simp at hflag
  · rintro ⟨dir, r, -, hmem, -⟩
    exact absurd rfl ((hsilent _ hmem).2 _ _)
  have hnil : NothingLater [] := by
    intro before d rest heq
    simp at heq
  exact nothingLater_append hnil fun d hd => absurd rfl ((hsilent _ hd).1 d)

theorem queuesAfterShutdown_mono (h : QueuesAfterShutdown hist) :
    QueuesAfterShutdown (hist ++ evs) := by
  obtain ⟨c, data, e, hmem, hrest⟩ := h
  exact ⟨c, data, e, mem_append_left _ hmem, hrest⟩

/-- The law as an invariant of the connections of an endpoint. -/
def law : Invariant anything where
  endpoint := fun _ => True
  conn := fun _ c hist => ¬ QueuesAfterShutdown hist → Kept c hist
  past := fun hist => ¬ QueuesAfterShutdown hist → NothingLater hist
  past_nil := by
    rintro - before d rest heq
    simp at heq
  past_conn := fun _ c hist h hcond => (h hcond).later
  past_note := by
    intro hist ev h hnote hcond
    apply nothingLater_append (h fun hq => hcond (queuesAfterShutdown_mono hq))
    intro d hd
    exact absurd rfl ((silent_of_quiet (note_quiet hnote) _ hd).1 d)
  frame := fun _ _ _ _ _ _ => trivial
  request := by
    rintro u ⟨request, e⟩ - -
    cases request <;> exact trivial
  opened := fun u c c' evs _ hfresh hopening _ => kept_opened hfresh hopening
  move := by
    intro u st c st' c' hist evs _ h hmove hcond
    exact (h fun hq => hcond (queuesAfterShutdown_mono hq)).move (move_sender hmove) hcond

/-- In every run of an endpoint, with any calls, callbacks, packets and timeouts, a
connection on which no data is queued in SYN_SENT after a write shutdown accepts no
byte once a write shutdown has returned 0. -/
theorem nothing_accepted_after_shutdown (w : World) (hw : Start w)
    (stimuli : List (Stimulus × List Script)) (h : ℕ)
    (hcond : ¬ QueuesAfterShutdown (history h (run w stimuli).trace)) :
    NothingLater (history h (run w stimuli).trace) := by
  obtain ⟨stages, hrun⟩ := run_holds law stimuli (okRun_anything stimuli) w
    (start_holds law w hw trivial)
  exact hrun.past h hcond

section Samples

/-- A new endpoint. -/
def sampleWorld : World := ⟨sampleUtcp, [], []⟩

theorem sampleWorld_start : Start sampleWorld where
  connections := rfl
  timeout := rfl
  positive := by decide
  scripts := rfl
  trace := rfl

def sampleCall (request : Request) : Stimulus × List Script := (.call ⟨request, sampleEnv true⟩, [])

/-- A packet of the peer that listens on port 7. -/
def sampleRecv (ctl : Ctl) (seq ack : UInt32) : Stimulus × List Script :=
  (.recv (sampleEnv true) (.packet ⟨⟨7, 0x8000, seq, ack, 65535, ctl, 0⟩, []⟩), [])

/-- On an established connection, send a byte, shut down for writing and send again. -/
def sendThenShutdown : List (Stimulus × List Script) :=
  [sampleCall (.connect 7 true utcpTcp), sampleRecv { syn := true, ack := true } 100 1,
    sampleCall (.on 1 (.send (some [1]))), sampleCall (.on 1 (.shutdown .wr)),
    sampleCall (.on 1 (.send (some [2])))]

/-- Shut down while the SYN is unanswered, then send. -/
def shutdownThenSend : List (Stimulus × List Script) :=
  [sampleCall (.connect 7 true utcpTcp), sampleCall (.on 1 (.shutdown .wr)),
    sampleCall (.on 1 (.send (some [1])))]

/-- The event is not a send on a connection that is shut down and still in SYN_SENT. -/
def openCall : Ev → Bool
  | .call c (.send _) _ => !(c.shutWr && decide (c.state = .synSent))
  | _ => true

def isShutdown : Ev → Bool
  | .ret (.shutdown .wr) r => decide (r.value = 0)
  | _ => false

def isRefusedSend : Ev → Bool
  | .ret (.send _) r => decide (r.value = -1)
  | _ => false

theorem nothing_accepted_sendThenShutdown :
    let hist := history 1 (run sampleWorld sendThenShutdown).trace
    (hist.dropWhile (!isShutdown ·)).any isRefusedSend = true ∧ ¬ QueuesAfterShutdown hist ∧
      NothingLater hist := by
  intro hist
  refine ⟨by decide +kernel +revert, ?_⟩
  have hopen : hist.all openCall = true := by decide +kernel +revert
  have hcond : ¬ QueuesAfterShutdown hist := by
    rintro ⟨c, data, e, hmem, -, hshut, hstate, -⟩
    have hcall := all_eq_true.mp hopen _ hmem
    simp [openCall, hshut, hstate] at hcall
  exact ⟨hcond, nothing_accepted_after_shutdown sampleWorld sampleWorld_start sendThenShutdown 1
    hcond⟩

/-- The shutdown returns 0 and the later send still takes its byte. -/
theorem accepted_after_shutdown :
    ¬ NothingLater (history 1 (run sampleWorld shutdownThenSend).trace) := by
  intro hlaw
  let hist := history 1 (run sampleWorld shutdownThenSend).trace
  have hbyte := hlaw (hist.take 5) [1] (hist.drop 6) rfl
    ⟨.wr, { value := 0 }, Or.inl rfl, mem_of_getElem? (i := 3) rfl, rfl⟩
  simp at hbyte

end Samples

end Meshlink.WriteShutdown
