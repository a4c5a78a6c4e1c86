import Meshlink.Channels
import Meshlink.SendAtomicity

/-!
A channel sees little of its UTCP connection: whether data can be sent, and how much
room there is in the send buffer. What it is told by utcp_send, and what it can see
afterwards, depend on no more than this, so the channel's view of the connection is a
faithful one for every reliable connection.
-/
namespace Meshlink.ChannelTransport

open Channels UtcpState UtcpBuffer UtcpTimers UtcpSender SenderFacts

def linkState (c : Conn) : LinkState :=
  if c.reapable then .closed
  else
    match c.state with
    | .synSent | .synReceived | .established => .sending
    | .closeWait => .closeWait
    | _ => .closed

/-- What a channel sees of a connection, given whether the send buffer can grow as far as
needed. -/
def linkOf (c : Conn) (memory polls : Bool) : Link where
  state := linkState c
  room := bufferFree c.sndbuf
  maxsize := c.sndbuf.maxsize
  noPartial := decide (c.flags &&& utcpNoPartial ≠ 0)
  memory := memory
  polls := polls

variable {c : Conn}

/-- Sending segments and starting timers does not change the channel's view. -/
theorem sendBuffered_link {u : Utcp} {e : Env} {len : Int} {s : Step Unit}
    (hrel : isReliable c = true) (memory polls : Bool) (h : sendBuffered u e c len = some s) :
    linkOf s.conn memory polls = linkOf c memory polls := by
  simp only [sendBuffered] at h
  split at h
  · cases h
    rfl
  split at h
  · cases h
  next t ht =>
  obtain ⟨nxt, start, seq, hconn⟩ := ack_sent u _ _ _ t ht
  have hrel' : isReliable t.conn = true := by
    rw [hconn]
    exact hrel
  rw [if_pos hrel'] at h
  cases h
  have hview : linkOf t.conn memory polls = linkOf c memory polls := by
    rw [hconn]
    rfl
  rw [← hview]
  dsimp only
  split <;> split <;> rfl

theorem sendRefusal_closed (h : linkState c ≠ .sending) (data : Option (List UInt8)) :
    ∃ r, sendRefusal c data = some r ∧ r.value = -1 := by
  unfold linkState at h
  unfold sendRefusal
  by_cases hreap : c.reapable = true
  · rw [if_pos hreap]
    exact ⟨_, rfl, rfl⟩
  rw [if_neg hreap]
  rw [if_neg hreap] at h
  cases hstate : c.state <;> rw [hstate] at h <;> first
    | exact ⟨_, rfl, rfl⟩
    | exact absurd rfl h

theorem sendRefusal_sending (h : linkState c = .sending) {d : List UInt8} (hd : d ≠ []) :
    sendRefusal c (some d) =
      if c.flags &&& utcpNoPartial ≠ 0 ∧ bufferFree c.sndbuf < d.length then
        if c.sndbuf.maxsize < d.length then some { value := -1, errno := .emsgsize }
        else some { value := 0, errno := .ewouldblock }
      else none := by
  unfold linkState at h
  unfold sendRefusal
  by_cases hreap : c.reapable = true
  · rw [if_pos hreap] at h
    cases h
  rw [if_neg hreap]
  rw [if_neg hreap] at h
  cases hstate : c.state <;> rw [hstate] at h <;> first
    | exact if_neg hd
    | cases h

/-- A reliable connection that takes data, by the outcome of buffer_put. -/
theorem sendData_link {u : Utcp} {e : Env} {d : List UInt8} {s : Step Ret} (memory polls : Bool)
    (hb : c.sndbuf.Wf) (hrel : isReliable c = true) (hd : d ≠ [])
    (hmemory : memory = true ↔ ¬ GrowthFails c.sndbuf d (e.alloc 0))
    (h : sendData u e c d = some s) :
    s.value.value = (if memory then ((min d.length (bufferFree c.sndbuf) : ℕ) : ℤ) else -1) ∧
      linkOf s.conn memory polls = (if memory then
        {linkOf c memory polls with
          room := bufferFree c.sndbuf - min d.length (bufferFree c.sndbuf)}
        else linkOf c memory polls) := by
  have hpos : 0 < d.length := List.length_pos_of_ne_nil hd
  obtain ⟨r, buf, hput, hcases⟩ := bufferPut_spec c.sndbuf hb d (e.alloc 0) hd
  simp only [sendData, hrel, ite_true, hput] at h
  rcases hcases with ⟨hfails, rfl, rfl⟩ | ⟨hfull, rfl, rfl⟩ | ⟨hgrows, hroom, hr, hstored⟩
  · have hno : memory = false := Bool.eq_false_iff.mpr fun hyes => hmemory.mp hyes hfails
    have hneg : ¬ (-1 : Int) = 0 := by decide
    simp only [hneg, ite_false] at h
    split at h
    · cases h
    next t ht =>
    cases h
    have hview := sendBuffered_link (c := {c with sndbuf := c.sndbuf}) hrel memory polls ht
    rw [hno]
    rw [hno] at hview
    exact ⟨rfl, hview⟩
  · have hyes : memory = true := hmemory.mpr fun hfails => by
      have := hfails.1
      omega
    simp only [ite_true, Option.some.injEq] at h
    subst s
    have hfree : bufferFree c.sndbuf = 0 := Nat.sub_eq_zero_of_le hfull
    rw [hyes, hfree, Nat.min_zero]
    refine ⟨rfl, ?_⟩
    simp only [linkOf, hfree, if_true, Nat.sub_self]
  · have hyes : memory = true := hmemory.mpr hgrows
    have hr0 : ¬ r = 0 := by omega
    simp only [hr0, ite_false] at h
    split at h
    · cases h
    next t ht =>
    cases h
    have hview := sendBuffered_link (c := {c with sndbuf := buf}) hrel memory polls ht
    have hused := hstored.used
    rw [List.length_take] at hused
    have hfree : bufferFree buf = bufferFree c.sndbuf - min d.length (bufferFree c.sndbuf) := by
      unfold bufferFree
      rw [hstored.maxsize]
      omega
    rw [hyes]
    refine ⟨hr, ?_⟩
    rw [hyes] at hview
    rw [if_pos rfl, hview]
    simp only [linkOf, linkState, hfree, hstored.maxsize]

/-- What utcp_send returns for a reliable connection, and what the channel sees of the
connection afterwards, as it follows from what the channel saw before. -/
theorem utcpSend_link (u : Utcp) (e : Env) (c : Conn) (d : List UInt8) (s : Step Ret)
    (memory polls : Bool) (hb : c.sndbuf.Wf) (hrel : isReliable c = true) (hd : d ≠ [])
    (hmemory : memory = true ↔ ¬ GrowthFails c.sndbuf d (e.alloc 0))
    (h : UtcpSender.utcpSend u e c (some d) = some s) :
    s.value.value = (Channels.utcpSend (linkOf c memory polls) d).1 ∧
      linkOf s.conn memory polls = (Channels.utcpSend (linkOf c memory polls) d).2 := by
  unfold UtcpSender.utcpSend at h
  unfold Channels.utcpSend
  by_cases hstate : linkState c = .sending
  · have hlink : ¬ (linkOf c memory polls).state ≠ .sending := not_not.mpr hstate
    rw [if_neg hlink]
    rw [sendRefusal_sending hstate hd] at h
    by_cases hpart : c.flags &&& utcpNoPartial ≠ 0 ∧ bufferFree c.sndbuf < d.length
    · have hview : (linkOf c memory polls).noPartial = true ∧
          (linkOf c memory polls).room < d.length := ⟨decide_eq_true hpart.1, hpart.2⟩
      rw [if_pos hview]
      rw [if_pos hpart] at h
      by_cases hmax : c.sndbuf.maxsize < d.length
      · rw [if_pos hmax] at h
        cases h
        exact ⟨(if_pos hmax).symm, rfl⟩
      · rw [if_neg hmax] at h
        cases h
        exact ⟨(if_neg hmax).symm, rfl⟩
    · have hview : ¬ ((linkOf c memory polls).noPartial = true ∧
          (linkOf c memory polls).room < d.length) := fun hv =>
        hpart ⟨of_decide_eq_true hv.1, hv.2⟩
      rw [if_neg hview]
      rw [if_neg hpart] at h
      dsimp only [Option.getD_some] at h
      split at h
      · cases h
      next t ht =>
      cases h
      obtain ⟨hvalue, hconn⟩ := sendData_link memory polls hb hrel hd hmemory ht
      cases memory with
      | true => exact ⟨hvalue, hconn⟩
      | false => exact ⟨hvalue, hconn⟩
  · obtain ⟨r, hr, hvalue⟩ := sendRefusal_closed hstate (some d)
    have hlink : (linkOf c memory polls).state ≠ .sending := hstate
    rw [hr] at h
    cases h
    rw [if_pos hlink]
    exact ⟨hvalue, rfl⟩

open SendAtomicity

/-- One byte fits into the send buffer. -/
theorem utcpSend_link_accepted :
    ∃ s, UtcpSender.utcpSend sampleUtcp (sampleEnv true) (sampleConn utcpTcp .established 4)
        (some [1]) = some s ∧ s.value.value = 1 ∧
      linkOf s.conn true true =
        (Channels.utcpSend (linkOf (sampleConn utcpTcp .established 4) true true) [1]).2 :=
  have hwf : (sampleConn utcpTcp .established 4).sndbuf.Wf :=
    ⟨Nat.zero_le _, Or.inr rfl, fun _ => rfl, by decide⟩
  ⟨_, rfl, utcpSend_link sampleUtcp (sampleEnv true) (sampleConn utcpTcp .established 4) [1] _ true
    true hwf rfl (by decide) ⟨fun _ h => absurd h.2.2 (by decide), fun _ => rfl⟩ rfl⟩

end Meshlink.ChannelTransport
