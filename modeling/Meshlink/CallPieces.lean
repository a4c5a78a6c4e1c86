import Meshlink.WriteShutdown

/-!
The calls of the application on a connection, taken apart. All of them are made of the
same few pieces, so a relation between connections that each piece keeps, and that is
reflexive and transitive, holds across every call.
-/
namespace Meshlink.CallPieces

open UtcpBuffer UtcpState UtcpTimers UtcpSender UtcpEndpoint SenderFacts ControlFacts
open SendAtomicity EventFacts WriteShutdown

/-- What a piece that only edits other fields leaves alone. -/
def fixed (c : Conn) :=
  (isReliable c, c.state, c.sndUna, (c.sndCwnd, c.sndSsthresh, c.dupack),
    (c.connTimeout, c.rtrxTimeout), c.rttStart, c.rttSeq)

inductive Piece (u : Utcp) (e : Env) : Conn → Conn → Prop
  | edit {c c' : Conn} (h : fixed c' = fixed c) : Piece u e c c'
  | ack {c : Conn} {k : ℕ} {one : Bool} {s : Step Unit}
      (h : UtcpSender.ack u (e.clk k) c one = some s) : Piece u e c s.conn
  | discard {c : Conn} {buf : Buffer} (h : isReliable c = false) :
      Piece u e c { c with sndUna := c.sndLast, sndNxt := c.sndLast, sndbuf := buf }
  | enter {c : Conn} {state : State} (h : c.state = .closed → state = .closed) :
      Piece u e c (setState c state)
  | retransmitTimer {c : Conn} (k : ℕ) : Piece u e c (startRetransmitTimer c (e.clk k))
  | connTimer {c : Conn} (k : ℕ) : Piece u e c (startConnTimer u c (e.clk k))
  | idle {c : Conn} : Piece u e c { c with connTimeout := timespecClear }

abbrev Trail (u : Utcp) (e : Env) : Conn → Conn → Prop := Relation.ReflTransGen (Piece u e)

def isArrival : Ev → Bool
  | .arrive _ _ => true
  | _ => false

theorem wired_noArrival {evs : List Ev} (h : Wired evs) : ∀ ev ∈ evs, isArrival ev = false := by
  intro ev hev
  cases h ev hev with
  | control p => rfl
  | segment p => rfl

/-- The events of a call on a connection: the call, and no packet. -/
def Calls (c : Conn) (evs : List Ev) : Prop :=
  ∃ op e inner, evs = .call c op e :: inner ∧ ∀ ev ∈ inner, isArrival ev = false

variable {u : Utcp} {e : Env} {c c' : Conn}

theorem Trail.edit (h : fixed c' = fixed c) : Trail u e c c' := .single (.edit h)

theorem retransmitTimer_trail (k : ℕ) : Trail u e c
    (if timespecIsset c.rtrxTimeout then c else startRetransmitTimer c (e.clk k)) := by
  split
  · exact .refl
  · exact .single (.retransmitTimer k)

theorem connTimer_trail (k : ℕ) :
    Trail u e c (if timespecIsset c.connTimeout then c else startConnTimer u c (e.clk k)) := by
  split
  · exact .refl
  · exact .single (.connTimer k)

theorem sendBuffered_trail {len : Int} {s : Step Unit} (h : sendBuffered u e c len = some s) :
    Trail u e c s.conn := by
  have hcounted : Trail u e c { c with sndLast := c.sndLast + UInt32.ofInt len } := .edit rfl
  simp only [sendBuffered] at h
  split at h
  · cases h
    exact hcounted
  split at h
  · cases h
  rename_i t ht
  have hack := hcounted.tail (.ack ht)
  split at h
  · cases h
    exact hack.trans ((retransmitTimer_trail 1).trans (connTimer_trail 2))
  · rename_i hrel
    cases h
    exact hack.tail (.discard (Bool.eq_false_iff.mpr hrel))

theorem sendFin_trail {s : Step Ret} (h : sendFin u e c = some s) :
    Trail u e c s.conn ∧ Wired s.events := by
  have hcounted : Trail u e c { c with sndLast := c.sndLast + 1 } := .edit rfl
  simp only [sendFin] at h
  split at h
  · cases h
  rename_i t ht
  cases h
  exact ⟨(hcounted.tail (.ack ht)).trans (retransmitTimer_trail 1), ack_wired u _ _ _ t ht⟩

theorem released_trail (h : Released c c') : Trail u e c c' := by
  obtain ⟨_, _, _, _, _, rfl⟩ := h
  exact .edit rfl

theorem resetConnection_trail : Trail u e c (resetConnection u c).conn := by
  obtain ⟨d, hd, heq | heq⟩ := resetConnection_cases u c
  · rw [heq]
    exact released_trail hd
  · rw [heq]
    exact (released_trail hd).tail (.enter fun _ => rfl)

theorem utcpSend_trail {data : Option (List UInt8)} {s : Step Ret}
    (h : utcpSend u e c data = some s) : Trail u e c s.conn ∧ Calls c s.events := by
  unfold utcpSend at h
  dsimp only at h
  cases hr : sendRefusal c data with
  | some r =>
    simp only [hr, Option.some.injEq] at h
    subst s
    exact ⟨.refl, _, _, _, rfl, by simp [isArrival]⟩
  | none =>
    obtain ⟨d, rfl, hq⟩ := (sendRefusal_none_iff c data).mp hr
    simp only [hr] at h
    split at h
    · cases h
    rename_i t ht
    cases h
    dsimp only
    cases sendData_outcome u e c d t hq ht with
    | refused hconn hevents =>
      rw [hconn, hevents]
      exact ⟨.refl, _, _, _, rfl, by simp [isArrival]⟩
    | unstored len buf _ _ hconn hevents =>
      rw [hconn, hevents]
      exact ⟨.edit rfl, _, _, _, rfl, by simp [isArrival]⟩
    | stored len buf r _ _ _ hsent hconn hevents =>
      have hstored : Trail u e c { c with sndbuf := buf } := .edit rfl
      have hwired := wired_noArrival (sendBuffered_wired u e _ _ r hsent)
      rw [hconn, hevents]
      refine ⟨hstored.trans (sendBuffered_trail hsent), _, _, _, rfl, ?_⟩
      simpa [isArrival, or_imp, forall_and] using hwired

theorem writeShut_trail {s : Step Ret} (h : WriteShut u e c s) :
    Trail u e c s.conn ∧ Wired s.events := by
  cases h with
  | already _ => exact ⟨.refl, Wired.nil⟩
  | flagged r _ _ _ _ => exact ⟨.edit rfl, Wired.nil⟩
  | finSent state _ _ hstate hs =>
    have hflagged : Trail u e c { c with shutWr := true } := .edit rfl
    obtain ⟨htrail, hwired⟩ := sendFin_trail hs
    refine ⟨(hflagged.tail (.enter fun hclosed => ?_)).trans htrail, hwired⟩
    rcases hstate with ⟨-, hold | hold⟩ | ⟨-, hold⟩ <;> exact absurd (hold.symm.trans hclosed) nofun

theorem utcpShutdown_trail {dir : Dir} {s : Step Ret} (h : utcpShutdown u e c dir = some s) :
    Trail u e c s.conn ∧ Calls c s.events := by
  cases utcpShutdown_cases u e c dir s h with
  | nothing recv r _ => exact ⟨.edit rfl, _, _, _, rfl, by simp [isArrival]⟩
  | write recv t _ _ ht =>
    have hrecv : Trail u e c { c with recv := recv } := .edit rfl
    obtain ⟨htrail, hwired⟩ := writeShut_trail ht
    refine ⟨hrecv.trans htrail, _, _, _, rfl, ?_⟩
    simpa [isArrival, or_imp, forall_and] using wired_noArrival hwired

theorem utcpExpectData_trail (k : ℕ) (expect : Bool) :
    Trail u e c (utcpExpectData u (e.clk k) c expect) := by
  unfold utcpExpectData
  split
  · exact .refl
  split
  · exact connTimer_trail k
  split
  · exact .single .idle
  · exact .refl

theorem connCall_trail {op : Op} {s : Step Ret} (h : connCall e op u c = some s) :
    Trail u e c s.conn ∧ Calls c s.events := by
  have hquiet : Calls c [.call c op e] := ⟨op, e, [], rfl, by simp⟩
  cases op with
  | send data => exact utcpSend_trail h
  | shutdown dir => exact utcpShutdown_trail h
  | close =>
    obtain ⟨t, ht, hreleased, hevents⟩ := utcpClose_cases h
    obtain ⟨htrail, hcalls⟩ := utcpShutdown_trail ht
    rw [hevents]
    exact ⟨htrail.trans (released_trail hreleased), hcalls⟩
  | abort =>
    obtain ⟨hreleased, hevents⟩ := utcpAbort_cases h
    rw [hevents]
    exact ⟨resetConnection_trail.trans (released_trail hreleased), _, _, _, rfl,
      wired_noArrival (resetConnection_wired u c)⟩
  | accept installed =>
    cases h
    refine ⟨?_, hquiet⟩
    dsimp only
    unfold utcpAccept
    split
    · exact .refl
    rename_i hstate
    have hrecv : Trail u e c { c with recv := installed, doPoll := true } := .edit rfl
    refine hrecv.tail (.enter fun hclosed => absurd (.inr ?_) hstate)
    rw [show c.state = .closed from hclosed]
    decide
  | setSndbuf storage size | setRcvbuf storage size =>
    obtain ⟨c', hc', rfl⟩ := Option.map_eq_some_iff.mp h
    obtain ⟨buf, -, rfl⟩ := Option.map_eq_some_iff.mp hc'
    exact ⟨.edit rfl, hquiet⟩
  | setRecvCb installed | setPollCb installed =>
    cases h
    exact ⟨.edit rfl, hquiet⟩
  | setFlags flags =>
    cases h
    refine ⟨.edit ?_, hquiet⟩
    unfold fixed
    rw [utcpSetFlags_reliable]
    rfl
  | expectData expect =>
    cases h
    exact ⟨utcpExpectData_trail 0 expect, hquiet⟩

end Meshlink.CallPieces
