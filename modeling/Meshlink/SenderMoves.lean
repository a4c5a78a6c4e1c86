import Meshlink.Runs

/-!
The moves as the sending side sees them. Laws about the state, the timers and
the send buffer do not depend on the stage of a packet, and all moves that only
store or deliver received data are one case for them.
-/
namespace Meshlink.SenderMoves

open UtcpBuffer UtcpState UtcpTimers UtcpSender UtcpReceiver
open UtcpEndpoint UtcpProcess Moves

/-- The connections differ in the received data at most. -/
def SameSender (c c' : Conn) : Prop :=
  ∃ (rcvbuf : Buffer) (sacks : List Sack) (nxt : UInt32),
    c' = { c with rcvbuf := rcvbuf, sacks := sacks, rcvNxt := nxt }

theorem SameSender.refl (c : Conn) : SameSender c c := ⟨c.rcvbuf, c.sacks, c.rcvNxt, rfl⟩

/-- Records of the receiving side and notes. -/
inductive Receipt : Ev → Prop
  | note {ev : Ev} (h : Note ev) : Receipt ev
  | recv (data : List UInt8) : Receipt (.recv data)
  | half (before after : Buffer) : Receipt (.half before after)
  | inOrder (c : Conn) (data : List UInt8) : Receipt (.inOrder c data)

inductive SenderMove (R : Rules) (u : Utcp) : Conn → Conn → List Ev → Prop
  | received (c c' : Conn) (evs : List Ev) (hsame : SameSender c c')
      (hevs : ∀ ev ∈ evs, Receipt ev) : SenderMove R u c c' evs
  | call (e : Env) (op : Op) (c : Conn) (s : Step Ret) (he : R.okEnv e) (hop : R.okOp op)
      (h : connCall e op u c = some s) : SenderMove R u c s.conn s.events
  | resetTimers (e : Env) (c : Conn) (he : R.okEnv e) :
      SenderMove R u c (UtcpEndpoint.resetTimers u (e.clk 0) c) []
  | offline (e : Env) (off : Bool) (c : Conn) (he : R.okEnv e) :
      SenderMove R u c (offlineConn u e off c) []
  | reset (c : Conn) : SenderMove R u c (resetConnection u c).conn (resetConnection u c).events
  | arrive (e : Env) (i : Incoming) (c : Conn) (s : Step (Incoming × Verdict)) (he : R.okEnv e)
      (hi : R.okIncoming i) (h : UtcpReceiver.arrive u e c i = some s) :
      SenderMove R u c s.conn s.events
  | synack (e : Env) (i : Incoming) (c : Conn) (he : R.okEnv e) (h : c.state = .synReceived) :
      SenderMove R u c (UtcpReceiver.synack u e c i).conn (UtcpReceiver.synack u e c i).events
  | notAccepted (c : Conn) (h : c.state ≠ .established) :
      SenderMove R u c { setState c .closed with reapable := true } []
  | fin (e : Env) (c c' : Conn) (he : R.okEnv e) (h : finState u e c = some c') :
      SenderMove R u c { c' with rcvNxt := c'.rcvNxt + 1 } [.fin]
  | reply (e : Env) (one : Bool) (c : Conn) (s : Step Unit) (he : R.okEnv e)
      (h : UtcpSender.ack u (e.clk 10) c one = some s) :
      SenderMove R u c s.conn (.reply c :: s.events)
  | stopTimer (c : Conn) (h : c.state = .closed ∨ c.sndLast = c.sndUna) :
      SenderMove R u c (stopRetransmitTimer c) []
  | retransmit (e : Env) (c : Conn) (s : Step Unit) (he : R.okEnv e)
      (h : retransmitSend u e c = some s) : SenderMove R u c s.conn s.events
  | timeOut (c : Conn) : SenderMove R u c (UtcpProcess.timeOut c) []
  | polled (c : Conn) : SenderMove R u c { c with doPoll := false } []

theorem consumeInOrder_sameSender (c : Conn) (len : ℕ) : SameSender c (consumeInOrder c len) := by
  simp only [consumeInOrder]
  split
  · simp only [sackConsume]
    split <;> exact ⟨_, _, _, rfl⟩
  · exact ⟨_, _, _, rfl⟩

theorem handleOutOfOrder_sameSender (e : Env) (c c' : Conn) (offset : ℕ) (data : List UInt8)
    (h : handleOutOfOrder e c offset data = some c') : SameSender c c' := by
  unfold handleOutOfOrder at h
  split at h
  · simp at h
  split at h
  · simp only [Option.some.injEq] at h
    exact ⟨_, _, _, h.symm⟩
  · simp only [Option.some.injEq] at h
    exact ⟨_, _, _, h.symm⟩

theorem storeFragment_sameSender (e : Env) (wnd : ℕ) (data : List UInt8) (u : Utcp) (c : Conn)
    (s : Step Bool) (h : storeFragment e wnd data u c = some s) :
    SameSender c s.conn ∧ s.events = [] := by
  unfold storeFragment at h
  dsimp only at h
  split at h
  · simp at h
  · cases h
    exact ⟨⟨_, _, _, rfl⟩, rfl⟩

variable {R : Rules} {u : Utcp}

theorem move_sender {st st' : Stage} {c c' : Conn} {evs : List Ev}
    (h : Move R u st c st' c' evs) : SenderMove R u c c' evs := by
  have hnone : ∀ ev ∈ ([] : List Ev), Receipt ev := by simp
  have hrecv : ∀ data, ∀ ev ∈ [Ev.recv data], Receipt ev := by
    intro data ev hev
    rw [List.mem_singleton.mp hev]
    exact .recv data
  have hhalf : ∀ before after data, ∀ ev ∈ [Ev.half before after, .recv data], Receipt ev := by
    intro before after data ev hev
    rcases List.mem_cons.mp hev with rfl | hrest
    · exact .half before after
    · exact hrecv data ev hrest
  cases h with
  | call _ e op _ s he hop hs => exact .call e op c s he hop hs
  | resetTimers _ e _ he => exact .resetTimers e c he
  | offline _ e off _ he => exact .offline e off c he
  | reset _ _ => exact .reset c
  | note _ _ ev hnote =>
    refine .received c c _ (.refl c) ?_
    intro ev' hev
    rw [List.mem_singleton.mp hev]
    exact .note hnote
  | arrive e i _ s he hi hs => exact .arrive e i c s he hi hs
  | synack e i _ he hstate => exact .synack e i c he hstate
  | notAccepted i _ hstate => exact .notAccepted c hstate
  | outOfOrder e i _ _ _ _ _ _ hs =>
    exact .received _ _ _ (handleOutOfOrder_sameSender _ _ _ _ _ hs) hnone
  | deliver i _ _ _ _ _ =>
    refine .received c c _ (.refl c) ?_
    intro ev hev
    rcases List.mem_cons.mp hev with rfl | hrest
    · exact .inOrder c i.data
    · exact hrecv i.data ev hrest
  | skip i _ _ _ _ _ =>
    refine .received c c _ (.refl c) ?_
    intro ev hev
    rw [List.mem_singleton.mp hev]
    exact .inOrder c i.data
  | consume i _ _ => exact .received _ _ _ (consumeInOrder_sameSender c _) hnone
  | reach i _ stretch _ => exact .received _ _ _ (.refl c) hnone
  | passStored i _ stretch data _ => exact .received _ _ _ (.refl c) (hrecv data)
  | restStored i _ stretch before data _ => exact .received _ _ _ (.refl c) (hhalf _ _ data)
  | skipStored i _ stretch passed _ => exact .received _ _ _ (.refl c) hnone
  | consumeStretch i _ stretch => exact .received _ _ _ (consumeInOrder_sameSender c _) hnone
  | drop i _ _ => exact .received _ _ _ (.refl c) hnone
  | whole i _ _ _ _ _ => exact .received _ _ _ (.refl c) (hrecv i.data)
  | wholeUnheard i _ _ _ _ _ => exact .received _ _ _ (.refl c) hnone
  | wholeNxt i _ => exact .received _ _ _ ⟨_, _, _, rfl⟩ hnone
  | fragment e i _ s _ _ _ _ _ hs =>
    obtain ⟨hsame, hevents⟩ := storeFragment_sameSender _ _ _ _ _ s hs
    rw [hevents]
    exact .received _ _ _ hsame hnone
  | passDatagram i _ data _ _ => exact .received _ _ _ (.refl c) (hrecv data)
  | restDatagram i _ before data _ _ => exact .received _ _ _ (.refl c) (hhalf _ _ data)
  | skipDatagram i _ passed _ => exact .received _ _ _ (.refl c) hnone
  | storedNxt i _ passed => exact .received _ _ _ ⟨_, _, _, rfl⟩ hnone
  | fin _ e i _ d he _ _ _ hs => exact .fin e c d he hs
  | reply _ e one _ s _ he hs => exact .reply e one c s he hs
  | settle _ _ _ => exact .received _ _ _ (.refl c) hnone
  | stopTimer _ hstop => exact .stopTimer c hstop
  | retransmit e _ s he hs => exact .retransmit e c s he hs
  | timeOut _ => exact .timeOut c
  | polled _ => exact .polled c

end Meshlink.SenderMoves
