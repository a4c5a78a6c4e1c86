import Meshlink.SenderFacts
import Meshlink.UtcpEndpoint

/-!
When utcp_send fails without a trace. A call that returns zero or a negative
value should leave the send buffer and the sequence numbers as they were. Two
paths do not: on a reliable connection a failed allocation returns -1, which
the unsigned length turns into a step back of snd.last; on an unreliable one a
datagram that only fits in part has been stored in part when the call fails.
-/
namespace Meshlink.SendAtomicity

open SerialNumbers UtcpBuffer UtcpState UtcpTimers UtcpSender SenderFacts

variable (u : Utcp) (e : Env) (c : Conn) (len : Int) (d : List UInt8)

/-- What a failed call must not change. -/
def sendState (c : Conn) : List UInt8 × ℕ × UInt32 × UInt32 × UInt32 :=
  (c.sndbuf.contents, c.sndbuf.used, c.sndUna, c.sndNxt, c.sndLast)

/-- The allocation fails and the call still returns: in ESTABLISHED the assertion
in ack stops the process when the step back passes snd.nxt. -/
def StepsBack (e : Env) (c : Conn) (d : List UInt8) : Prop :=
  isReliable c = true ∧ GrowthFails c.sndbuf d (e.alloc 0) ∧
    (c.state = .established → 0 ≤ seqdiff (c.sndLast - 1) c.sndNxt)

/-- Some but not all of a datagram is stored. -/
def StoresPart (e : Env) (c : Conn) (d : List UInt8) : Prop :=
  isReliable c = false ∧ c.state = .established ∧ d.length ≤ maxUnreliableSize ∧
    c.sndbuf.used < c.sndbuf.maxsize ∧ c.sndbuf.maxsize < c.sndbuf.used + d.length ∧
    ¬ GrowthFails c.sndbuf d (e.alloc 0)

/-- An open connection with data to queue, all of which fits when it has to. -/
def Queues (c : Conn) (d : List UInt8) : Prop :=
  c.reapable = false ∧
    (c.state = .synSent ∨ c.state = .synReceived ∨ c.state = .established) ∧ d ≠ [] ∧
    ¬ (c.flags &&& utcpNoPartial ≠ 0 ∧ bufferFree c.sndbuf < d.length)

/-- The calls that fail and leave something behind. -/
def FailsDirty (e : Env) (c : Conn) (data : Option (List UInt8)) : Prop :=
  ∃ d, data = some d ∧ Queues c d ∧ (StepsBack e c d ∨ StoresPart e c d)

variable (data : Option (List UInt8))

/-- The first checks of utcp_send let exactly these calls through. -/
theorem sendRefusal_none_iff : sendRefusal c data = none ↔ ∃ d, data = some d ∧ Queues c d := by
  unfold sendRefusal Queues
  cases hreap : c.reapable with
  | true => simp
  | false =>
    cases hstate : c.state with
    | synSent | synReceived | established =>
      cases data with
      | none => simp
      | some d =>
        by_cases hd : d = []
        · simp [hd]
        by_cases hfull : c.flags &&& utcpNoPartial ≠ 0 ∧ bufferFree c.sndbuf < d.length
        · have hrefused : ¬ ∃ d', some d = some d' ∧ Queues c d' := by
            rintro ⟨d', hdata, -, -, -, hfits⟩
            cases hdata
            exact hfits hfull
          simp only [Bool.false_eq_true, hd, if_pos hfull, ite_false]
          refine iff_of_false ?_ (by simpa only [Queues, hreap, hstate] using hrefused)
          split <;> simp
        · simp only [Bool.false_eq_true, hd, if_neg hfull, ite_false]
          exact iff_of_true trivial ⟨d, rfl, trivial, by simp, hd, hfull⟩
    | _ => simp

theorem sendState_of_refused (r : Ret) (hr : sendRefusal c data = some r) (s : Step Ret)
    (h : utcpSend u e c data = some s) : sendState s.conn = sendState c := by
  simp only [utcpSend, hr, Option.some.injEq] at h
  subst s
  rfl

/-- After the first checks utcp_send returns what sendData returns. -/
theorem utcpSend_of_data (hr : sendRefusal c data = none) (s : Step Ret)
    (h : utcpSend u e c data = some s) :
    ∃ t, sendData u e c (data.getD []) = some t ∧ s.conn = t.conn ∧ s.value = t.value := by
  simp only [utcpSend, hr] at h
  split at h
  · simp at h
  · rename_i t ht
    cases h
    exact ⟨t, ht, rfl, rfl⟩

theorem utcpSend_of_sendData (hr : sendRefusal c data = none) (t : Step Ret)
    (ht : sendData u e c (data.getD []) = some t) :
    ∃ s, utcpSend u e c data = some s ∧ s.conn = t.conn ∧ s.value = t.value := by
  simp only [utcpSend, hr, ht]
  exact ⟨_, rfl, rfl, rfl⟩

/-- On a reliable connection sendBuffered moves snd.last by the length it is given. -/
theorem sendBuffered_last (s : Step Unit)
    (hrel : isReliable c = true) (h : sendBuffered u e c len = some s) :
    s.conn.sndLast = c.sndLast + UInt32.ofInt len := by
  simp only [sendBuffered] at h
  split at h
  · cases h
    rfl
  split at h
  · simp at h
  rename_i t ht
  obtain ⟨nxt, start, seq, hconn⟩ := ack_sent u _ _ _ t ht
  have hrel' : isReliable t.conn = true := by
    rw [hconn]
    exact hrel
  simp only [hrel', ite_true, Option.some.injEq] at h
  subst s
  dsimp only
  split <;> split <;> simp [startConnTimer, startRetransmitTimer, hconn]

/-- sendBuffered returns unless the assertion in ack fails. -/
theorem sendBuffered_isSome (h : c.state = .synSent ∨ c.state = .synReceived ∨
      0 ≤ seqdiff (c.sndLast + UInt32.ofInt len) c.sndNxt) :
    (sendBuffered u e c len).isSome = true := by
  simp only [sendBuffered]
  split
  · rfl
  rename_i hopen
  have hleft : 0 ≤ seqdiff (c.sndLast + UInt32.ofInt len) c.sndNxt := by tauto
  obtain ⟨t, ht⟩ := Option.isSome_iff_exists.mp ((ack_isSome u (e.clk 0)
    { c with sndLast := c.sndLast + UInt32.ofInt len } false).mpr hleft)
  rw [ht]
  dsimp only
  split <;> rfl

theorem sendBuffered_asserts (s : Step Unit)
    (hstate : c.state = .established) (h : sendBuffered u e c len = some s) :
    0 ≤ seqdiff (c.sndLast + UInt32.ofInt len) c.sndNxt := by
  simp only [sendBuffered] at h
  split at h
  · rename_i hopen
    rw [hstate] at hopen
    simp at hopen
  split at h
  · simp at h
  · rename_i t ht
    exact (ack_isSome u (e.clk 0) { c with sndLast := c.sndLast + UInt32.ofInt len } false).mp
      (by rw [ht]; rfl)

/-- A reliable connection, by the outcome of buffer_put. -/
theorem sendData_reliable (t : Step Ret)
    (hb : c.sndbuf.Wf) (hrel : isReliable c = true) (hd : d ≠ []) (h : sendData u e c d = some t) :
    (GrowthFails c.sndbuf d (e.alloc 0) ∧
        ∃ s, sendBuffered u e c (-1) = some s ∧ t.conn = s.conn ∧ t.value.value = -1) ∨
      sendState t.conn = sendState c ∨ 0 < t.value.value := by
  have hpos : 0 < d.length := List.length_pos_of_ne_nil hd
  obtain ⟨r, buf, hput, hcases⟩ := bufferPut_spec c.sndbuf hb d (e.alloc 0) hd
  simp only [sendData, hrel, ite_true, hput] at h
  rcases hcases with ⟨hfails, rfl, rfl⟩ | ⟨-, rfl, rfl⟩ | ⟨-, hroom, hr, -⟩
  · left
    refine ⟨hfails, ?_⟩
    have hneg : ¬ (-1 : Int) = 0 := by decide
    simp only [hneg, ite_false] at h
    split at h
    · simp at h
    · rename_i s hs
      cases h
      exact ⟨s, hs, rfl, rfl⟩
  · right; left
    simp only [ite_true, Option.some.injEq] at h
    subst t
    rfl
  · right; right
    have hrpos : 0 < r := by omega
    simp only [show ¬ r = 0 by omega, ite_false] at h
    split at h
    · simp at h
    · cases h
      exact hrpos

/-- An unreliable connection, by the outcome of buffer_put. -/
theorem sendData_unreliable (t : Step Ret)
    (hb : c.sndbuf.Wf) (hrel : isReliable c = false) (hd : d ≠ [])
    (hopen : c.state = .synSent ∨ c.state = .synReceived ∨ c.state = .established)
    (h : sendData u e c d = some t) :
    StoresPart e c d ∨ sendState t.conn = sendState c ∨ 0 < t.value.value := by
  have hpos : 0 < d.length := List.length_pos_of_ne_nil hd
  simp only [sendData, hrel, Bool.false_eq_true, ite_false] at h
  split at h
  · rename_i hstate
    have hest : c.state = .established := by tauto
    split at h
    · cases h
      exact Or.inr (Or.inl rfl)
    rename_i hsmall
    obtain ⟨r, buf, hput, hcases⟩ := bufferPut_spec c.sndbuf hb d (e.alloc 0) hd
    simp only [hput] at h
    split at h
    · rename_i hpart
      cases h
      rcases hcases with ⟨-, -, rfl⟩ | ⟨-, -, rfl⟩ | ⟨hgrow, hroom, hr, -⟩
      · exact Or.inr (Or.inl rfl)
      · exact Or.inr (Or.inl rfl)
      · exact Or.inl ⟨hrel, hest, by omega, hroom, by omega, hgrow⟩
    · rename_i hall
      right; right
      split at h
      · simp at h
      · cases h
        dsimp only
        omega
  · cases h
    exact Or.inr (Or.inl rfl)

/-- Stepping back really moves snd.last. -/
theorem stepsBack_dirty (hb : c.sndbuf.Wf)
    (hd : d ≠ []) (hopen : c.state = .synSent ∨ c.state = .synReceived ∨ c.state = .established)
    (h : StepsBack e c d) :
    ∃ t, sendData u e c d = some t ∧ t.value.value = -1 ∧ sendState t.conn ≠ sendState c := by
  obtain ⟨hrel, hfails, hleft⟩ := h
  have hreturns : (sendBuffered u e c (-1)).isSome = true := by
    apply sendBuffered_isSome
    rcases hopen with hstate | hstate | hstate
    · exact Or.inl hstate
    · exact Or.inr (Or.inl hstate)
    · rw [add_ofInt_neg_one]
      exact Or.inr (Or.inr (hleft hstate))
  obtain ⟨s, hs⟩ := Option.isSome_iff_exists.mp hreturns
  obtain ⟨r, buf, hput, hcases⟩ := bufferPut_spec c.sndbuf hb d (e.alloc 0) hd
  rcases hcases with ⟨-, rfl, rfl⟩ | ⟨hfull, -, -⟩ | ⟨hgrow, -, -, -⟩
  · refine ⟨⟨s.conn, s.pkt, .accepted (d.take (-1 : Int).toNat) :: s.events, { value := -1 }⟩,
      ?_, rfl, ?_⟩
    · simp [sendData, hrel, hput, hs]
    intro hsame
    have hlast := sendBuffered_last u e c (-1) s hrel hs
    simp only [sendState, Prod.mk.injEq] at hsame
    rw [add_ofInt_neg_one] at hlast
    exact sub_one_ne c.sndLast (hlast.symm.trans hsame.2.2.2.2)
  · exact absurd hfails.1 (by omega)
  · exact absurd hfails hgrow

/-- A datagram stored in part stays in the buffer. -/
theorem storesPart_dirty (hb : c.sndbuf.Wf) (hd : d ≠ []) (h : StoresPart e c d) :
    ∃ t, sendData u e c d = some t ∧ t.value.value = -1 ∧ sendState t.conn ≠ sendState c := by
  obtain ⟨hrel, hest, hsmall, hroom, hlarge, hgrow⟩ := h
  obtain ⟨r, buf, hput, hcases⟩ := bufferPut_spec c.sndbuf hb d (e.alloc 0) hd
  rcases hcases with ⟨hfails, -, -⟩ | ⟨hfull, -, -⟩ | ⟨-, -, hr, hstored⟩
  · exact absurd hfails hgrow
  · omega
  have hpart : ¬ r = d.length := by omega
  refine ⟨⟨{ c with sndbuf := buf }, u.pkt, [], { value := -1, errno := .emsgsize }⟩,
    ?_, rfl, ?_⟩
  · simp [sendData, hrel, hest, hput, hpart, Nat.not_lt.mpr hsmall]
  intro hsame
  simp only [sendState, Prod.mk.injEq] at hsame
  have hused := hstored.used
  rw [List.length_take] at hused
  omega

/-- A call of utcp_send that fails leaves the send buffer and the sequence numbers
as they were, except for the two paths of `FailsDirty`, where it never does. -/
theorem utcpSend_failure_clean_iff (u : Utcp) (e : Env) (c : Conn) (data : Option (List UInt8))
    (hb : c.sndbuf.Wf) :
    (∀ s, utcpSend u e c data = some s → s.value.value ≤ 0 →
      sendState s.conn = sendState c) ↔ ¬ FailsDirty e c data := by
  constructor
  · rintro hclean ⟨d, rfl, hqueues, hdirty⟩
    have hr := (sendRefusal_none_iff c (some d)).mpr ⟨d, rfl, hqueues⟩
    obtain ⟨-, hopen, hd, -⟩ := hqueues
    obtain ⟨t, ht, hvalue, hchanged⟩ : ∃ t, sendData u e c d = some t ∧
        t.value.value = -1 ∧ sendState t.conn ≠ sendState c := by
      rcases hdirty with hback | hpart
      · exact stepsBack_dirty u e c d hb hd hopen hback
      · exact storesPart_dirty u e c d hb hd hpart
    obtain ⟨s, hs, hconn, hval⟩ := utcpSend_of_sendData u e c (some d) hr t ht
    apply hchanged
    rw [← hconn]
    exact hclean s hs (by rw [hval]; omega)
  · intro hnot s hs hle
    cases hr : sendRefusal c data with
    | some r => exact sendState_of_refused u e c data r hr s hs
    | none =>
      obtain ⟨d, rfl, hqueues⟩ := (sendRefusal_none_iff c data).mp hr
      obtain ⟨t, ht, hconn, hval⟩ := utcpSend_of_data u e c (some d) hr s hs
      rw [hval] at hle
      rw [hconn]
      cases hrel : isReliable c with
      | true =>
        rcases sendData_reliable u e c d t hb hrel hqueues.2.2.1 ht with
          ⟨hfails, b, hbuf, -, -⟩ | hsame | hpos
        · refine absurd ⟨d, rfl, hqueues, Or.inl ⟨hrel, hfails, ?_⟩⟩ hnot
          intro hest
          rw [← add_ofInt_neg_one]
          exact sendBuffered_asserts u e c (-1) b hest hbuf
        · exact hsame
        · omega
      | false =>
        rcases sendData_unreliable u e c d t hb hrel hqueues.2.2.1 hqueues.2.1 ht with
          hpart | hsame | hpos
        · exact absurd ⟨d, rfl, hqueues, Or.inr hpart⟩ hnot
        · exact hsame
        · omega

section Samples

open UtcpEndpoint

/-- An endpoint with the default segment size. -/
def sampleUtcp : Utcp where
  accept := false
  listen := false
  retransmit := false
  pkt := fun _ => 0
  mtu := defaultMtu
  mss := defaultMtu - hdrSize
  timeout := defaultUserTimeout
  clockGranularity := 1
  connections := []
  nallocated := 0
  nextHandle := 1
  mss_pos := defaultMss_pos
  mss_lt := defaultMss_lt

/-- A second after the start of the clock, with or without memory. -/
def sampleEnv (memory : Bool) : Env where
  clk := fun _ => ⟨1, 0⟩
  alloc := fun _ => ⟨memory, fun _ => 0⟩
  rand := fun _ => 0

/-- A connection whose send buffer may hold `maxsize` bytes. -/
def sampleConn (flags : UInt32) (state : State) (maxsize : ℕ) : Conn :=
  let c := newConn sampleUtcp 0x8000 7 100 { Buffer.empty with maxsize := maxsize } .empty
  { c with flags := flags, state := state }

/-- A full send buffer: the call returns 0 and nothing has changed. -/
theorem utcpSend_full_clean :
    let c := sampleConn utcpTcp .synSent 0
    c.sndbuf.Wf ∧ ∃ s, utcpSend sampleUtcp (sampleEnv true) c (some [1]) = some s ∧
      s.value.value = 0 ∧ sendState s.conn = sendState c := by
  have hwf : (sampleConn utcpTcp .synSent 0).sndbuf.Wf := Buffer.empty_wf
  have hclean := (utcpSend_failure_clean_iff sampleUtcp (sampleEnv true) _ (some [1]) hwf).mpr (by
      rintro ⟨d, -, -, ⟨-, hfails, -⟩ | ⟨-, hest, -⟩⟩
      · exact absurd hfails.1 (by decide)
      · exact absurd hest (by decide))
  exact ⟨hwf, _, rfl, rfl, hclean _ rfl (by decide)⟩

/-- Without memory, a send right after utcp_connect returns -1 and takes one number
off snd.last. A datagram of five bytes for a buffer of four is refused and its
first four bytes stay in the buffer. -/
theorem utcpSend_failure_dirty :
    (∃ s, utcpSend sampleUtcp (sampleEnv false)
        (sampleConn utcpTcp .synSent defaultMaxsndbufsize) (some [1]) = some s ∧
      s.value.value = -1 ∧
      (sampleConn utcpTcp .synSent defaultMaxsndbufsize).sndLast = 101 ∧
      s.conn.sndLast = 100) ∧
    ∃ s, utcpSend sampleUtcp (sampleEnv true) (sampleConn 0 .established 4)
        (some [1, 2, 3, 4, 5]) = some s ∧
      s.value = { value := -1, errno := .emsgsize } ∧
      (sampleConn 0 .established 4).sndbuf.contents = [] ∧
      s.conn.sndbuf.contents = [1, 2, 3, 4] :=
  ⟨⟨_, rfl, by decide, by decide, by decide⟩, ⟨_, rfl, by decide, by decide, by decide⟩⟩

end Samples

end Meshlink.SendAtomicity
