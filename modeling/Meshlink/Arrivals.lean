import Meshlink.UtcpProcess

/-!
What a packet does to a connection before the first callback, said once. Timers,
round-trip times and the congestion window change all over this code without
touching anything else, so these changes are one relation.
-/
namespace Meshlink.Arrivals

open SerialNumbers UtcpBuffer UtcpState UtcpTimers UtcpSender UtcpReceiver UtcpEndpoint

variable (c : Conn) (i : Incoming) (u : Utcp) (e : Env)

/-- The connection `c` with the timers, windows and measurements of `d`. -/
def pacedLike (c d : Conn) : Conn :=
  { c with
    doPoll := d.doPoll
    sndWnd := d.sndWnd
    sndCwnd := d.sndCwnd
    sndSsthresh := d.sndSsthresh
    dupack := d.dupack
    connTimeout := d.connTimeout
    rtrxTimeout := d.rtrxTimeout
    rttStart := d.rttStart
    rttSeq := d.rttSeq
    srtt := d.srtt
    rttvar := d.rttvar
    rto := d.rto }

/-- The connections differ in timers, windows and measurements at most. -/
def Paced (c c' : Conn) : Prop := c' = pacedLike c c'

/-- Measuring changes the measurement and the estimate, and leaves the end of the segment. -/
theorem measureRtt_eq (c : Conn) (ackno : UInt32) : ∃ start srtt rttvar rto,
    measureRtt u e c ackno =
      { c with rttStart := start, srtt := srtt, rttvar := rttvar, rto := rto } := by
  unfold measureRtt updateRtt
  split
  · exact ⟨_, _, _, _, rfl⟩
  split
  · dsimp only
    split <;> exact ⟨_, _, _, _, rfl⟩
  · split <;> exact ⟨_, _, _, _, rfl⟩

theorem growCwnd_eq {c c' : Conn} {advanced : UInt32} (h : growCwnd u c advanced = some c') :
    ∃ cwnd, c' = { c with sndCwnd := cwnd, dupack := 0 } := by
  simp only [growCwnd] at h
  generalize (if c.dupack ≥ 3 then c.sndSsthresh else c.sndCwnd) = cwnd at h
  split at h
  · cases h
    exact ⟨_, rfl⟩
  split at h
  · cases h
  · cases h
    exact ⟨_, rfl⟩

theorem duplicateAck_paced (c : Conn) (empty : Bool) (s : Step Unit)
    (h : duplicateAck u e c empty = some s) : Paced c s.conn := by
  simp only [duplicateAck] at h
  split at h
  · cases h
    rfl
  split at h
  · obtain ⟨r, -, rfl⟩ := Option.map_eq_some_iff.mp h
    rfl
  · cases h
    split <;> rfl

/-- A duplicate acknowledgement sends at most what fast_retransmit sends. -/
theorem duplicateAck_events (c : Conn) (empty : Bool) (s : Step Unit)
    (h : duplicateAck u e c empty = some s) :
    s.events = [] ∨ ∃ d r, Paced c d ∧ fastRetransmit u d = some r ∧ s.events = r.2 := by
  simp only [duplicateAck] at h
  split at h
  · cases h
    exact Or.inl rfl
  split at h
  · obtain ⟨r, hr, rfl⟩ := Option.map_eq_some_iff.mp h
    refine Or.inr ⟨_, r, ?_, hr, rfl⟩
    rfl
  · cases h
    exact Or.inl rfl

theorem updateTimers_eq (c : Conn) : ∃ conn rtrx,
    updateTimers u e c = { c with connTimeout := conn, rtrxTimeout := rtrx } := by
  unfold updateTimers
  split
  · exact ⟨_, _, rfl⟩
  · split <;> exact ⟨_, _, rfl⟩

/-- The connections differ in timers, the timeout and the start of the measurement at most. -/
def Retimed (c c' : Conn) : Prop :=
  ∃ conn rtrx start rto,
    c' = { c with connTimeout := conn, rtrxTimeout := rtrx, rttStart := start, rto := rto }

theorem utcpExpectData_eq (now : Timespec) (c : Conn) (expect : Bool) :
    ∃ t, utcpExpectData u now c expect = { c with connTimeout := t } := by
  unfold utcpExpectData
  split
  · exact ⟨_, rfl⟩
  · split <;> split <;> exact ⟨_, rfl⟩

theorem resetTimers_retimed (now : Timespec) (c : Conn) :
    Retimed c (UtcpEndpoint.resetTimers u now c) := by
  unfold UtcpEndpoint.resetTimers
  split <;> exact ⟨_, _, _, _, rfl⟩

theorem offlineConn_retimed (offline : Bool) (c : Conn) :
    Retimed c (offlineConn u e offline c) := by
  obtain ⟨t, ht⟩ := utcpExpectData_eq u (e.clk 1) c offline
  unfold offlineConn
  rw [ht]
  split
  · exact ⟨_, _, _, _, rfl⟩
  · dsimp only
    split <;> exact ⟨_, _, _, _, rfl⟩

/-- An acknowledgement of something new that has been sent. -/
def Advances (c : Conn) (ackno : UInt32) : Prop :=
  seqdiff ackno c.sndLast ≤ 0 ∧ 0 < seqdiff ackno c.sndUna

theorem Advances.una_ne_last {c : Conn} {ackno : UInt32} (h : Advances c ackno) :
    c.sndUna ≠ c.sndLast := by
  intro heq
  obtain ⟨hlast, huna⟩ := h
  rw [← heq] at hlast
  omega

theorem Advances.ack_ne_una {c : Conn} {ackno : UInt32} (h : Advances c ackno) :
    ackno ≠ c.sndUna := by
  intro heq
  have hzero : seqdiff ackno c.sndUna = 0 := (distance_eq_zero_iff _ _).mpr heq
  have hpos := h.2
  omega

theorem advances_of_window (ackno : UInt32)
    (hrange : ¬ (seqdiff ackno c.sndLast > 0 ∨ seqdiff ackno c.sndUna < 0))
    (hadv : ackno - c.sndUna ≠ 0) : Advances c ackno := by
  have hne : seqdiff ackno c.sndUna ≠ 0 := fun hzero => hadv ((signed_eq_zero_iff _).mp hzero)
  constructor <;> omega

/-- Steps 3 and 4 refuse the acknowledgement, find nothing new in it, or advance snd.una. -/
inductive Acknowledged (u : Utcp) (e : Env) (c : Conn) (i : Incoming) :
    Step (Option UInt32) → Prop
  | refused : Acknowledged u e c i ⟨c, u.pkt, [], none⟩
  | duplicate (t : Step Unit) (hack : i.hdr.ack = c.sndUna)
      (ht : duplicateAck u e c i.data.isEmpty = some t) :
      Acknowledged u e c i ⟨t.conn, t.pkt, t.events, some 0⟩
  | advances (c' : Conn) (hadv : Advances c i.hdr.ack) (hne : i.hdr.ack - c.sndUna ≠ 0)
      (hc' : advanceUna u e c i.hdr.ack (i.hdr.ack - c.sndUna) = some c') :
      Acknowledged u e c i
        ⟨updateTimers u e c', u.pkt, [], some (i.hdr.ack - c.sndUna)⟩

theorem handleAck_cases (c : Conn) (i : Incoming)
    (s : Step (Option UInt32)) (h : handleAck u e c i = some s) : Acknowledged u e c i s := by
  simp only [handleAck] at h
  split at h
  · cases h
    exact .refused
  rename_i hrange
  split at h
  · rename_i hzero
    obtain ⟨t, ht, rfl⟩ := Option.map_eq_some_iff.mp h
    have hdist : seqdiff i.hdr.ack c.sndUna = 0 := (signed_eq_zero_iff _).mpr hzero
    exact .duplicate t ((distance_eq_zero_iff _ _).mp hdist) ht
  · rename_i hadv
    obtain ⟨c', hc', rfl⟩ := Option.map_eq_some_iff.mp h
    exact .advances c' (advances_of_window c _ hrange hadv) hadv hc'

/-- Everything a packet can do before a callback runs, step by step. -/
inductive Arrival (u : Utcp) (e : Env) (c : Conn) (i : Incoming) :
    Step (Incoming × Verdict) → Prop
  | closed (h : c.state = .closed) : Arrival u e c i ⟨c, u.pkt, [.arrive c i], (i, .reset)⟩
  | stray (hrst : i.hdr.ctl.rst = true) : Arrival u e c i ⟨c, u.pkt, [.arrive c i], (i, .ignore)⟩
  | reset (r : Conn × Verdict) (hopen : c.state ≠ .closed) (hrst : i.hdr.ctl.rst = true)
      (hr : handleRst { c with sndWnd := i.hdr.wnd } i.hdr.ctl.ack = some r) :
      Arrival u e c i ⟨r.1, u.pkt, [.arrive c i], (trimmedSegment c i, r.2)⟩
  | unacked (hopen : c.state ≠ .closed) (hack : i.hdr.ctl.ack = false) :
      Arrival u e c i
        ⟨(handleSyn { c with sndWnd := i.hdr.wnd } (trimmedSegment c i) 0).1, u.pkt,
          [.arrive c i], (trimmedSegment c i,
            (handleSyn { c with sndWnd := i.hdr.wnd } (trimmedSegment c i) 0).2)⟩
  | refused (t : Step (Option UInt32)) (hopen : c.state ≠ .closed) (hack : i.hdr.ctl.ack = true)
      (ht : Acknowledged u e { c with sndWnd := i.hdr.wnd } (trimmedSegment c i) t)
      (hvalue : t.value = none) :
      Arrival u e c i ⟨t.conn, t.pkt, .arrive c i :: t.events, (trimmedSegment c i, .reset)⟩
  | acked (t : Step (Option UInt32)) (advanced : UInt32) (hopen : c.state ≠ .closed)
      (hack : i.hdr.ctl.ack = true) (hrst : i.hdr.ctl.rst = true → c.state = .listen)
      (ht : Acknowledged u e { c with sndWnd := i.hdr.wnd } (trimmedSegment c i) t)
      (hvalue : t.value = some advanced) :
      Arrival u e c i
        ⟨(handleSyn t.conn (trimmedSegment c i) advanced).1, t.pkt, .arrive c i :: t.events,
          (trimmedSegment c i, (handleSyn t.conn (trimmedSegment c i) advanced).2)⟩

theorem checkAck_ctl : (checkAck c i).hdr.ctl = i.hdr.ctl := by
  unfold checkAck
  split <;> rfl

theorem trim_ctl : (trim c i).1.hdr.ctl = i.hdr.ctl ∧ (trim c i).1.hdr.ack = i.hdr.ack := by
  simp only [trim]
  split
  · exact ⟨rfl, rfl⟩
  split
  · exact ⟨rfl, rfl⟩
  · split
    · split <;> exact ⟨rfl, rfl⟩
    · exact ⟨rfl, rfl⟩

/-- Trimming keeps the flags; the acknowledgement of an unreliable connection may be
replaced by snd.una. -/
theorem trimmedSegment_hdr : (trimmedSegment c i).hdr.ctl = i.hdr.ctl ∧
      ((trimmedSegment c i).hdr.ack = i.hdr.ack ∨
        ((trimmedSegment c i).hdr.ack = c.sndUna ∧ isReliable c = false)) := by
  obtain ⟨hctl, hack⟩ := trim_ctl c i
  simp only [trimmedSegment]
  generalize hj : (if (trim c i).2 = true then (trim c i).1
    else { (trim c i).1 with data := [] }) = j
  have hjctl : j.hdr.ctl = i.hdr.ctl := by
    rw [← hj]
    split <;> exact hctl
  have hjack : j.hdr.ack = i.hdr.ack := by
    rw [← hj]
    split <;> exact hack
  refine ⟨(checkAck_ctl c j).trans hjctl, ?_⟩
  unfold checkAck
  split
  · rename_i hunrel
    exact Or.inr ⟨rfl, hunrel.1⟩
  · exact Or.inl hjack

/-- Only in CLOSED and LISTEN does a RST packet go on to steps 3 to 5. -/
theorem handleRst_none (hasAck : Bool) (h : handleRst c hasAck = none) :
    c.state = .closed ∨ c.state = .listen := by
  unfold handleRst at h
  split at h
  all_goals first
    | exact Or.inl ‹_›
    | exact Or.inr ‹_›
    | (split at h <;> (try split at h) <;> simp at h)

/-- A RST leaves the connection alone or closes it; its send buffer is kept or cleared. -/
theorem handleRst_cases (hasAck : Bool) (r : Conn × Verdict) (h : handleRst c hasAck = some r) :
    r.1 = c ∨ r.1 = setState c .closed ∨ r.1 = { setState c .closed with
        sndbuf := bufferClear c.sndbuf, rcvbuf := bufferClear c.rcvbuf } := by
  unfold handleRst at h
  split at h
  all_goals first
    | (simp at h; done)
    | (split at h <;> (try split at h) <;>
        (simp only [Option.some.injEq] at h; subst r; simp))

/-- Step 5 leaves the connection alone unless a SYN+ACK ends an active open. -/
theorem handleSyn_cases (advanced : UInt32) : (handleSyn c i advanced).1 = c ∨
      (i.hdr.ctl.syn = true ∧ c.state = .synSent ∧ advanced ≠ 0 ∧ (handleSyn c i advanced).1 =
          if c.shutWr then setState { c with
              rcvIrs := i.hdr.seq, rcvNxt := i.hdr.seq + 1, sndLast := c.sndLast + 1 } .finWait1
          else
            setState { c with
              rcvIrs := i.hdr.seq, rcvNxt := i.hdr.seq + 1, doPoll := true } .established) := by
  unfold handleSyn
  split
  · exact Or.inl rfl
  rename_i hsyn
  split
  · rename_i hstate
    split
    · exact Or.inl rfl
    rename_i hadv
    refine Or.inr ⟨by simpa using hsyn, hstate, hadv, ?_⟩
    dsimp only
    split
    · rfl
    · rfl
  all_goals exact Or.inl rfl

/-- Nothing is trimmed before the handshake is over. -/
theorem trimmedSegment_synSent (h : c.state = .synSent) : trimmedSegment c i = i := by
  have htrim : trim c i = (i, true) := by
    simp only [trim]
    rw [if_pos (Or.inr h)]
  simp only [trimmedSegment, htrim, checkAck, h]
  rw [if_neg (by simp [State.rank])]
  rfl

theorem arrive_cases (c : Conn) (i : Incoming)
    (s : Step (Incoming × Verdict)) (h : UtcpReceiver.arrive u e c i = some s) :
    Arrival u e c i s := by
  obtain ⟨hctl, -⟩ := trimmedSegment_hdr c i
  unfold UtcpReceiver.arrive at h
  split at h
  · rename_i hclosed
    cases h
    exact .closed hclosed
  rename_i hopen
  split at h
  · rename_i hstray
    cases h
    exact .stray hstray.2
  obtain ⟨t, ht, rfl⟩ := Option.map_eq_some_iff.mp h
  unfold dispatch at ht
  rw [hctl] at ht
  split at ht
  · rename_i r hr
    cases ht
    split at hr
    · rename_i hrst
      exact .reset r hopen hrst hr
    · simp at hr
  · rename_i hnone
    have hrst : i.hdr.ctl.rst = true → c.state = .listen := by
      intro hset
      simp only [hset, ite_true] at hnone
      exact (handleRst_none _ _ hnone).resolve_left hopen
    unfold acknowledge at ht
    rw [hctl] at ht
    split at ht
    · rename_i hack
      obtain ⟨a, ha, rfl⟩ := Option.map_eq_some_iff.mp ht
      have hcases := handleAck_cases u e _ _ a ha
      cases hvalue : a.value with
      | none => exact .refused a hopen hack hcases hvalue
      | some advanced => exact .acked a advanced hopen hack hrst hcases hvalue
    · rename_i hack
      cases ht
      exact .unacked hopen (by simpa using hack)

theorem arrive_record (c : Conn) (i : Incoming)
    (s : Step (Incoming × Verdict)) (h : UtcpReceiver.arrive u e c i = some s) :
    Ev.arrive c i ∈ s.events := by
  cases arrive_cases u e c i s h with
  | closed | stray | reset | unacked | refused | acked => exact List.mem_cons_self

end Meshlink.Arrivals
