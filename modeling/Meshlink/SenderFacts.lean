import Meshlink.UtcpSender
import Meshlink.BufferContents

/-!
What the functions of the sending half can do. Sending segments moves snd.nxt
and the round-trip measurement and leaves the rest of the connection alone;
storing data in the send buffer either fails for want of memory, finds the
buffer full, or appends what fits.
-/
namespace Meshlink.SenderFacts

open UtcpBuffer UtcpState UtcpTimers UtcpSender

/-- The connection after some segments have been sent. -/
def Sent (c c' : Conn) : Prop :=
  ∃ (nxt : UInt32) (start : Timespec) (seq : UInt32),
    c' = { c with sndNxt := nxt, rttStart := start, rttSeq := seq }

theorem Sent.refl (c : Conn) : Sent c c := ⟨c.sndNxt, c.rttStart, c.rttSeq, rfl⟩

variable {c : Conn} (u : Utcp) (now : Timespec)

theorem Sent.trans {a b : Conn} (hab : Sent a b) (hbc : Sent b c) : Sent a c := by
  obtain ⟨_, _, _, rfl⟩ := hab
  obtain ⟨nxt, start, seq, rfl⟩ := hbc
  exact ⟨nxt, start, seq, rfl⟩

theorem ackSegment_sent (l : AckLoop) : Sent l.conn (ackSegment u now l).1.conn := ⟨_, _, _, rfl⟩

theorem ackLoop_sent (fuel : ℕ) (l : AckLoop) : Sent l.conn (ackLoop u now fuel l).1.conn := by
  induction fuel generalizing l with
  | zero => exact ackSegment_sent u now l
  | succ fuel ih =>
    simp only [ackLoop]
    split
    · exact ackSegment_sent u now l
    · exact (ackSegment_sent u now l).trans (ih _)

theorem ack_sent (c : Conn) (one : Bool) (s : Step Unit) (h : ack u now c one = some s) :
    Sent c s.conn := by
  simp only [UtcpSender.ack] at h
  split at h
  · simp at h
  split at h
  · cases h
    exact Sent.refl c
  · cases h
    exact ackLoop_sent u now _ _

/-- The connection `c` with the stream, the timers and the measurement of `d`. -/
def queuedLike (c d : Conn) : Conn :=
  { c with
    sndUna := d.sndUna
    sndNxt := d.sndNxt
    sndLast := d.sndLast
    sndbuf := d.sndbuf
    connTimeout := d.connTimeout
    rtrxTimeout := d.rtrxTimeout
    rttStart := d.rttStart
    rttSeq := d.rttSeq }

/-- The connections differ in what utcp_send changes at most. -/
def Queued (c c' : Conn) : Prop := c' = queuedLike c c'

theorem Queued.trans {a b : Conn} (hab : Queued a b) (hbc : Queued b c) : Queued a c := by
  unfold Queued at *
  rw [hbc, hab]
  rfl

theorem queued_of_sent {c' : Conn} (h : Sent c c') : Queued c c' := by
  obtain ⟨nxt, start, seq, rfl⟩ := h
  rfl

theorem sendBuffered_queued {u : Utcp} {e : Env} {len : Int} {s : Step Unit}
    (h : sendBuffered u e c len = some s) : Queued c s.conn := by
  simp only [sendBuffered] at h
  split at h
  · cases h
    rfl
  split at h
  · cases h
  rename_i t ht
  have hsent := queued_of_sent (ack_sent u _ _ _ t ht)
  split at h
  · cases h
    refine Queued.trans ?_ (hsent.trans ?_)
    · rfl
    · dsimp only
      split <;> split <;> rfl
  · cases h
    refine Queued.trans ?_ (hsent.trans ?_)
    · rfl
    · rfl

theorem sendData_queued {u : Utcp} {e : Env} {d : List UInt8} {s : Step Ret}
    (h : sendData u e c d = some s) : Queued c s.conn := by
  have hflush : ∀ buf len t, sendBuffered u e { c with sndbuf := buf } len = some t →
      Queued c t.conn := by
    intro buf len t ht
    refine Queued.trans ?_ (sendBuffered_queued ht)
    rfl
  unfold sendData at h
  dsimp only at h
  split at h
  · split at h
    · cases h
    split at h
    · cases h
      rfl
    split at h
    · cases h
    · rename_i t ht
      cases h
      exact hflush _ _ t ht
  · split at h
    · split at h
      · cases h
        rfl
      split at h
      · cases h
      split at h
      · cases h
        rfl
      split at h
      · cases h
      · rename_i t ht
        cases h
        exact hflush _ _ t ht
    · cases h
      rfl

theorem utcpSend_queued {u : Utcp} {e : Env} {data : Option (List UInt8)} {s : Step Ret}
    (h : utcpSend u e c data = some s) : Queued c s.conn := by
  unfold utcpSend at h
  dsimp only at h
  split at h
  · cases h
    rfl
  split at h
  · cases h
  · rename_i t ht
    cases h
    exact (sendData_queued ht : Queued c t.conn)

/-- The assertion at the start of ack is the only thing that can fail. -/
theorem ack_isSome (c : Conn) (one : Bool) :
    (ack u now c one).isSome = true ↔ 0 ≤ seqdiff c.sndLast c.sndNxt := by
  simp only [UtcpSender.ack]
  split
  · rename_i hneg
    simp only [Option.isSome_none, Bool.false_eq_true, false_iff]
    omega
  rename_i hneg
  have hleft : 0 ≤ seqdiff c.sndLast c.sndNxt := by omega
  split
  · simpa using hleft
  · simpa using hleft

/-- Storing the part of the data that fits needs more memory, and there is none. -/
def GrowthFails (buf : Buffer) (data : List UInt8) (a : Alloc) : Prop :=
  buf.used < buf.maxsize ∧
    buf.size < buf.used + min data.length (buf.maxsize - buf.used) ∧ a.ok = false

theorem bufferStore_growthFails (buf : Buffer) (hb : buf.Wf) (offset : ℕ) (data : List UInt8)
    (a : Alloc) (hmax : offset + data.length ≤ buf.maxsize)
    (hsize : buf.size < offset + data.length) (hok : a.ok = false) :
    bufferStore buf offset data a = some (-1, buf) := by
  have hext : buf.external = false := by
    cases hcase : buf.external with
    | false => rfl
    | true =>
      have := hb.external_fits hcase
      omega
  have hgrown := le_grownSize buf (offset + data.length) hmax
  have hne : grownSize buf (offset + data.length) ≠ 0 := by omega
  simp [bufferStore, hsize, bufferResize, hext, hne, hok]

/-- The three outcomes of buffer_put and when each of them occurs. -/
theorem bufferPut_spec (buf : Buffer) (hb : buf.Wf) (data : List UInt8) (a : Alloc)
    (hne : data ≠ []) :
    ∃ r result, bufferPut buf data a = some (r, result) ∧
      ((GrowthFails buf data a ∧ r = -1 ∧ result = buf) ∨
        (buf.maxsize ≤ buf.used ∧ r = 0 ∧ result = buf) ∨
        (¬ GrowthFails buf data a ∧ buf.used < buf.maxsize ∧
          r = min data.length (buf.maxsize - buf.used) ∧
          Stored buf buf.used (data.take (buf.maxsize - buf.used)) result)) := by
  have hpos : 0 < data.length := List.length_pos_of_ne_nil hne
  obtain ⟨⟨r, result⟩, h⟩ := Option.isSome_iff_exists.mp
    (bufferPutAt_isSome buf hb buf.used data a)
  refine ⟨r, result, h, ?_⟩
  by_cases hfull : buf.maxsize ≤ buf.used
  · have hlarge : buf.maxsize < buf.used + data.length := by omega
    simp only [bufferPutAt, hlarge, hfull, ite_true, Option.some.injEq, Prod.mk.injEq] at h
    exact Or.inr (Or.inl ⟨hfull, h.1.symm, h.2.symm⟩)
  have hstore :
      bufferStore buf buf.used (data.take (buf.maxsize - buf.used)) a = some (r, result) := by
    unfold bufferPutAt at h
    split at h
    · simpa only [hfull, ite_false] using h
    · rwa [List.take_of_length_le (by omega)]
  have hlen : (data.take (buf.maxsize - buf.used)).length =
      min data.length (buf.maxsize - buf.used) := by
    rw [List.length_take, Nat.min_comm]
  have hmax : buf.used + (data.take (buf.maxsize - buf.used)).length ≤ buf.maxsize := by omega
  rcases bufferStore_cases buf hb _ _ a r result hmax hstore with
    ⟨hr, hbuf, hok, hsize⟩ | ⟨hr, hstored⟩
  · exact Or.inl ⟨⟨by omega, by omega, hok⟩, hr, hbuf⟩
  refine Or.inr (Or.inr ⟨?_, by omega, by omega, hstored⟩)
  rintro ⟨-, hsize, hok⟩
  rw [bufferStore_growthFails buf hb _ _ a hmax (by omega) hok] at hstore
  simp only [Option.some.injEq, Prod.mk.injEq] at hstore
  omega

/-- What the write half of utcp_shutdown does. -/
inductive WriteShut (u : Utcp) (e : Env) (c : Conn) : Step Ret → Prop
  | already (h : c.shutWr = true) : WriteShut u e c ⟨c, u.pkt, [], { value := 0 }⟩
  | flagged (r : Ret) (h : c.shutWr = false) (hreceived : c.state ≠ .synReceived)
      (hestablished : c.state ≠ .established) (hwait : c.state ≠ .closeWait) :
      WriteShut u e c ⟨{ c with shutWr := true }, u.pkt, [], r⟩
  | finSent (state : State) (s : Step Ret) (h : c.shutWr = false)
      (hstate : state = .finWait1 ∧ (c.state = .synReceived ∨ c.state = .established) ∨
        state = .closing ∧ c.state = .closeWait)
      (hs : sendFin u e (setState { c with shutWr := true } state) = some s) : WriteShut u e c s

theorem shutdownWrite_cases (e : Env) (c : Conn) (s : Step Ret) (h : shutdownWrite u e c = some s) :
    WriteShut u e c s := by
  unfold shutdownWrite at h
  split at h
  · rename_i hshut
    cases h
    exact .already hshut
  rename_i hshut
  rw [Bool.not_eq_true] at hshut
  dsimp only at h
  split at h
  all_goals rename_i hstate
  all_goals first
    | exact .finSent _ s hshut (Or.inl ⟨rfl, by rw [hstate]; simp⟩) h
    | exact .finSent _ s hshut (Or.inr ⟨rfl, hstate⟩) h
    | (cases h
       exact .flagged _ hshut (by rw [hstate]; simp) (by rw [hstate]; simp)
         (by rw [hstate]; simp))

/-- utcp_shutdown changes nothing but the recv callback, or shuts down the write half. -/
inductive Shut (u : Utcp) (e : Env) (c : Conn) (dir : Dir) : Step Ret → Prop
  | nothing (recv : Bool) (r : Ret) (hvalue : dir = .wr ∨ dir = .rdwr → r.value = -1) :
      Shut u e c dir ⟨{ c with recv := recv }, u.pkt,
        [.call c (.shutdown dir) e, .ret (.shutdown dir) r], r⟩
  | write (recv : Bool) (t : Step Ret) (hdir : dir = .wr ∨ dir = .rdwr)
      (hopen : c.reapable = false) (ht : WriteShut u e { c with recv := recv } t) :
      Shut u e c dir { t with
        events := .call c (.shutdown dir) e :: t.events ++ [.ret (.shutdown dir) t.value] }

theorem utcpShutdown_cases (e : Env) (c : Conn) (dir : Dir) (s : Step Ret)
    (h : utcpShutdown u e c dir = some s) : Shut u e c dir s := by
  unfold utcpShutdown at h
  dsimp only at h
  split at h
  · cases h
    exact .nothing c.recv _ fun _ => rfl
  rename_i hopen
  rw [Bool.not_eq_true] at hopen
  cases dir with
  | invalid =>
    cases h
    exact .nothing c.recv _ fun _ => rfl
  | rd =>
    cases h
    exact .nothing false _ (by simp)
  | wr =>
    obtain ⟨t, ht, rfl⟩ := Option.map_eq_some_iff.mp h
    exact .write c.recv t (Or.inl rfl) hopen (shutdownWrite_cases u e c t ht)
  | rdwr =>
    obtain ⟨t, ht, rfl⟩ := Option.map_eq_some_iff.mp h
    exact .write false t (Or.inr rfl) hopen (shutdownWrite_cases u e _ t ht)

/-- The connections differ in their buffers and in what they are to the application at most. -/
def Released (c c' : Conn) : Prop :=
  ∃ sndbuf rcvbuf recv poll reapable, c' = { c with
    sndbuf := sndbuf, rcvbuf := rcvbuf, recv := recv, poll := poll, reapable := reapable }

section Release

variable {u : Utcp} {e : Env} {c : Conn} {s : Step Ret}

theorem Released.refl (c : Conn) : Released c c := ⟨_, _, _, _, _, rfl⟩

theorem setReapable_released {c' : Conn} (h : setReapable e c = some c') : Released c c' := by
  unfold setReapable at h
  split at h
  · cases h
    exact ⟨_, _, _, _, _, rfl⟩
  · cases h

/-- utcp_close is a shutdown of both directions, after which the connection may be released. -/
theorem utcpClose_cases (h : utcpClose u e c = some s) :
    ∃ t, utcpShutdown u e c .rdwr = some t ∧ Released t.conn s.conn ∧ s.events = t.events := by
  unfold utcpClose at h
  split at h
  · cases h
  rename_i t ht
  refine ⟨t, ht, ?_⟩
  split at h
  · cases h
    exact ⟨.refl _, rfl⟩
  split at h
  · cases h
  · rename_i c' hc'
    cases h
    exact ⟨setReapable_released hc', rfl⟩

theorem resetConnection_cases (u : Utcp) (c : Conn) : ∃ d, Released c d ∧
    ((resetConnection u c).conn = d ∨
      (resetConnection u c).conn = { d with state := .closed }) := by
  unfold resetConnection
  split
  · exact ⟨c, .refl c, .inl rfl⟩
  refine ⟨{ c with sndbuf := bufferClear c.sndbuf, rcvbuf := bufferClear c.rcvbuf },
    ⟨_, _, _, _, _, rfl⟩, ?_⟩
  dsimp only
  split
  all_goals first
    | exact .inl rfl
    | exact .inr rfl

theorem utcpAbort_cases (h : utcpAbort u e c = some s) :
    Released (resetConnection u c).conn s.conn ∧
      s.events = .call c .abort e :: (resetConnection u c).events := by
  simp only [utcpAbort] at h
  split at h
  · split at h
    · cases h
    · rename_i c' hc'
      cases h
      exact ⟨setReapable_released hc', rfl⟩
  · rename_i hvalue
    cases h
    refine ⟨.refl _, ?_⟩
    unfold resetConnection at hvalue ⊢
    split at hvalue
    · rename_i hreapable
      rw [if_pos hreapable]
    · dsimp only at hvalue
      split at hvalue <;> exact absurd rfl hvalue

end Release

end Meshlink.SenderFacts
