import Meshlink.UtcpProcess

/-!
Everything that can happen to one connection, as one relation. A move is a
stretch of code without callbacks, with the events it adds to the history of
the connection. While a callback runs, utcp_recv may be in the middle of a
packet; the stage says how far it has come, so that moves after the callback
can refer to what was done before it. Whatever holds of a new connection and
is kept by every move holds of every connection after any run, callbacks
included.
-/
namespace Meshlink.Moves

open RingMemory UtcpBuffer UtcpState UtcpTimers UtcpSender UtcpReceiver
open UtcpEndpoint UtcpProcess

/-- Events that leave the connection as it is. -/
inductive Note : Ev → Prop
  | recvNull (errno : Errno) : Note (.recvNull errno)
  | poll (len : ℕ) : Note (.poll len)
  | acceptCb : Note .acceptCb
  | reset (hdr : Hdr) (len : ℕ) : Note (.control (resetPacket hdr len))

/-- A connection as allocate_connection returns it. -/
def Fresh (c : Conn) : Prop :=
  ∃ (u : Utcp) (src dst : UInt16) (iss : UInt32) (sndbuf rcvbuf : Buffer),
    c = newConn u src dst iss sndbuf rcvbuf ∧ sndbuf.Wf ∧ rcvbuf.Wf ∧
      sndbuf.used = 0 ∧ rcvbuf.used = 0

/-- How far utcp_recv has come with a packet on a connection. -/
inductive Stage
  | idle
  | answer (i : Incoming)
  | segment (i : Incoming)
  | passing (i : Incoming)
  | reaching (i : Incoming) (stretch passed : ℕ)
  | whole (i : Incoming)
  | stored (i : Incoming) (passed : ℕ)
  | done (i : Incoming)
  | finished

/-- Where the part of utcp_recv before the first callback leads. -/
def nextStage : Incoming × Verdict → Stage
  | (i, .proceed _) => .segment i
  | (i, .synack) => .answer i
  | _ => .idle

/-- No data is left to deal with. -/
inductive Settled : Stage → Prop
  | segment (i : Incoming) : Settled (.segment i)
  | done (i : Incoming) : Settled (.done i)
  | finished : Settled .finished

/-- The data of a segment gets past the switch of step 6. -/
def Takes (c : Conn) (i : Incoming) : Prop := i.data ≠ [] ∧ dataVerdict c = .take

/-- What buffer_call passes to recv first: everything asked for that is there, or
the part before the end of the ring. -/
def Passes (c : Conn) (offset len : ℕ) (data : List UInt8) : Prop :=
  c.recv = true ∧ offset < c.rcvbuf.used ∧
    data = window c.rcvbuf.data (realOffset c.rcvbuf offset)
      (min (c.rcvbuf.size - realOffset c.rcvbuf offset) (min len (c.rcvbuf.used - offset)))

/-- What buffer_call passes to recv after it has come to the end of the ring. The
ring was `before` when the first part was passed, and is read again. -/
def PassesRest (before : Buffer) (c : Conn) (offset len : ℕ) (data : List UInt8) : Prop :=
  let start := realOffset before offset
  let asked := min len (before.used - offset)
  let room : ℕ := toSize ((c.rcvbuf.size : Int) - start) % 2 ^ 32
  c.recv = true ∧ before.size - start < asked ∧ room ≤ before.size - start ∧
    data = window c.rcvbuf.data 0 (toSize ((asked : Int) - room))

/-- Which environments, calls and packets a run may use. -/
structure Rules where
  okEnv : Env → Prop
  okOp : Op → Prop
  okRequest : Request → Prop
  okIncoming : Incoming → Prop

/-- What the code can do to a connection between two callbacks. -/
inductive Move (R : Rules) (u : Utcp) : Stage → Conn → Stage → Conn → List Ev → Prop
  | call (st : Stage) (e : Env) (op : Op) (c : Conn) (s : Step Ret) (he : R.okEnv e)
      (hop : R.okOp op) (h : connCall e op u c = some s) : Move R u st c st s.conn s.events
  | resetTimers (st : Stage) (e : Env) (c : Conn) (he : R.okEnv e) :
      Move R u st c st (UtcpEndpoint.resetTimers u (e.clk 0) c) []
  | offline (st : Stage) (e : Env) (off : Bool) (c : Conn) (he : R.okEnv e) :
      Move R u st c st (offlineConn u e off c) []
  | reset (st : Stage) (c : Conn) :
      Move R u st c st (resetConnection u c).conn (resetConnection u c).events
  | note (st : Stage) (c : Conn) (ev : Ev) (h : Note ev) : Move R u st c st c [ev]
  | arrive (e : Env) (i : Incoming) (c : Conn) (s : Step (Incoming × Verdict)) (he : R.okEnv e)
      (hi : R.okIncoming i) (h : UtcpReceiver.arrive u e c i = some s) :
      Move R u .idle c (nextStage s.value) s.conn s.events
  | synack (e : Env) (i : Incoming) (c : Conn) (he : R.okEnv e) (h : c.state = .synReceived) :
      Move R u (.answer i) c .idle (UtcpReceiver.synack u e c i).conn
        (UtcpReceiver.synack u e c i).events
  | notAccepted (i : Incoming) (c : Conn) (h : c.state ≠ .established) :
      Move R u (.segment i) c .idle { setState c .closed with reapable := true } []
  | outOfOrder (e : Env) (i : Incoming) (c c' : Conn) (he : R.okEnv e) (hdata : Takes c i)
      (hrel : isReliable c = true) (hseq : i.hdr.seq - c.rcvNxt ≠ 0)
      (h : handleOutOfOrder e c (i.hdr.seq - c.rcvNxt).toNat i.data = some c') :
      Move R u (.segment i) c (.done i) c' []
  | deliver (i : Incoming) (c : Conn) (hdata : Takes c i) (hrel : isReliable c = true)
      (hseq : i.hdr.seq - c.rcvNxt = 0) (hrecv : c.recv = true) :
      Move R u (.segment i) c (.passing i) c [.inOrder c i.data, .recv i.data]
  | skip (i : Incoming) (c : Conn) (hdata : Takes c i) (hrel : isReliable c = true)
      (hseq : i.hdr.seq - c.rcvNxt = 0) (hrecv : c.recv = false) :
      Move R u (.segment i) c (.passing i) c [.inOrder c i.data]
  | consume (i : Incoming) (c : Conn) (h : reachedSack c i.data.length = none) :
      Move R u (.passing i) c (.done i) (consumeInOrder c i.data.length) []
  | reach (i : Incoming) (c : Conn) (stretch : ℕ)
      (h : reachedSack c i.data.length = some stretch) :
      Move R u (.passing i) c (.reaching i stretch i.data.length) c []
  | passStored (i : Incoming) (c : Conn) (stretch : ℕ) (data : List UInt8)
      (h : Passes c i.data.length (stretch - i.data.length) data) :
      Move R u (.reaching i stretch i.data.length) c
        (.reaching i stretch (i.data.length + data.length)) c [.recv data]
  | restStored (i : Incoming) (c : Conn) (stretch : ℕ) (before : Buffer) (data : List UInt8)
      (h : PassesRest before c i.data.length (stretch - i.data.length) data) :
      Move R u (.reaching i stretch
          (i.data.length + (before.size - realOffset before i.data.length))) c
        (.reaching i stretch
          (i.data.length + (before.size - realOffset before i.data.length) + data.length)) c
        [.half before c.rcvbuf, .recv data]
  | skipStored (i : Incoming) (c : Conn) (stretch passed : ℕ) (h : c.recv = false) :
      Move R u (.reaching i stretch passed) c (.reaching i stretch stretch) c []
  | consumeStretch (i : Incoming) (c : Conn) (stretch : ℕ) :
      Move R u (.reaching i stretch stretch) c (.done i) (consumeInOrder c stretch) []
  | drop (i : Incoming) (c : Conn) (hrel : isReliable c = false) :
      Move R u (.segment i) c (.done i) c []
  | whole (i : Incoming) (c : Conn) (hdata : Takes c i) (hrel : isReliable c = false)
      (hhdr : i.hdr.wnd.toNat = 0 ∧ i.hdr.ctl.mf = false) (hrecv : c.recv = true) :
      Move R u (.segment i) c (.whole i) c [.recv i.data]
  | wholeUnheard (i : Incoming) (c : Conn) (hdata : Takes c i) (hrel : isReliable c = false)
      (hhdr : i.hdr.wnd.toNat = 0 ∧ i.hdr.ctl.mf = false) (hrecv : c.recv = false) :
      Move R u (.segment i) c (.whole i) c []
  | wholeNxt (i : Incoming) (c : Conn) :
      Move R u (.whole i) c (.done i)
        { c with rcvNxt := i.hdr.seq + UInt32.ofNat i.data.length } []
  | fragment (e : Env) (i : Incoming) (c : Conn) (s : Step Bool) (he : R.okEnv e)
      (hdata : Takes c i) (hrel : isReliable c = false)
      (hpart : ¬ (i.hdr.wnd.toNat = 0 ∧ i.hdr.ctl.mf = false))
      (hnext : i.hdr.wnd.toNat = 0 ∨ i.hdr.seq = c.rcvNxt)
      (h : storeFragment e i.hdr.wnd.toNat i.data u c = some s) :
      Move R u (.segment i) c (if s.value then .stored i 0 else .done i) s.conn s.events
  | passDatagram (i : Incoming) (c : Conn) (data : List UInt8) (hlast : i.hdr.ctl.mf = false)
      (h : Passes c 0 (i.hdr.wnd.toNat + i.data.length) data) :
      Move R u (.stored i 0) c (.stored i (0 + data.length)) c [.recv data]
  | restDatagram (i : Incoming) (c : Conn) (before : Buffer) (data : List UInt8)
      (hlast : i.hdr.ctl.mf = false)
      (h : PassesRest before c 0 (i.hdr.wnd.toNat + i.data.length) data) :
      Move R u (.stored i (0 + (before.size - realOffset before 0))) c
        (.stored i (0 + (before.size - realOffset before 0) + data.length)) c
        [.half before c.rcvbuf, .recv data]
  | skipDatagram (i : Incoming) (c : Conn) (passed : ℕ) (h : c.recv = false) :
      Move R u (.stored i passed) c (.stored i (0 + (i.hdr.wnd.toNat + i.data.length))) c []
  | storedNxt (i : Incoming) (c : Conn) (passed : ℕ) :
      Move R u (.stored i passed) c (.done i)
        { c with rcvNxt := i.hdr.seq + UInt32.ofNat i.data.length } []
  | fin (st : Stage) (e : Env) (i : Incoming) (c c' : Conn) (he : R.okEnv e)
      (hst : st = .segment i ∧ i.data = [] ∨ st = .done i) (hfin : i.hdr.ctl.fin = true)
      (hseq : isReliable c = true → i.hdr.seq.toNat + i.data.length = c.rcvNxt.toNat)
      (h : finState u e c = some c') :
      Move R u st c .finished { c' with rcvNxt := c'.rcvNxt + 1 } [.fin]
  | reply (st : Stage) (e : Env) (one : Bool) (c : Conn) (s : Step Unit) (hst : Settled st)
      (he : R.okEnv e) (h : UtcpSender.ack u (e.clk 10) c one = some s) :
      Move R u st c .idle s.conn (.reply c :: s.events)
  | settle (st : Stage) (c : Conn) (hst : Settled st) : Move R u st c .idle c []
  | stopTimer (c : Conn) (h : c.state = .closed ∨ c.sndLast = c.sndUna) :
      Move R u .idle c .idle (stopRetransmitTimer c) []
  | retransmit (e : Env) (c : Conn) (s : Step Unit) (he : R.okEnv e)
      (h : retransmitSend u e c = some s) : Move R u .idle c .idle s.conn s.events
  | timeOut (c : Conn) : Move R u .idle c .idle (UtcpProcess.timeOut c) []
  | polled (c : Conn) : Move R u .idle c .idle { c with doPoll := false } []

/-- What becomes of a new connection before anything else can see it. -/
inductive Opening (R : Rules) (u : Utcp) : Conn → Conn → List Ev → Prop
  | unused (c : Conn) : Opening R u c c []
  | connect (e : Env) (recv : Bool) (flags : UInt32) (c : Conn) (he : R.okEnv e) :
      Opening R u c
        (startRetransmitTimer (startConnTimer u
          (setState { c with flags := flags, recv := recv } .synSent) (e.clk 0)) (e.clk 1))
        [.control (synPacket (setState { c with flags := flags, recv := recv } .synSent))]
  | answer (e : Env) (i : Incoming) (flags : UInt32) (c : Conn) (he : R.okEnv e)
      (hi : R.okIncoming i) :
      Opening R u c (UtcpReceiver.synack u e { c with flags := flags } i).conn
        (UtcpReceiver.synack u e { c with flags := flags } i).events

/-- The events of one connection. -/
def history (h : ℕ) (trace : List (ℕ × Ev)) : List Ev :=
  trace.filterMap fun e => if e.1 = h then some e.2 else none

@[simp] theorem history_append (h : ℕ) (s t : List (ℕ × Ev)) :
    history h (s ++ t) = history h s ++ history h t := by
  simp [history, List.filterMap_append]

theorem history_own (h : ℕ) (evs : List Ev) : history h (evs.map fun ev => (h, ev)) = evs := by
  simp [history]

theorem history_other (h k : ℕ) (hne : k ≠ h) (evs : List Ev) :
    history k (evs.map fun ev => (h, ev)) = [] := by
  have hhk : ¬ h = k := fun heq => hne heq.symm
  simp [history, hhk]

theorem history_fresh (h : ℕ) (trace : List (ℕ × Ev)) (hlt : ∀ e ∈ trace, e.1 < h) :
    history h trace = [] := by
  apply List.filterMap_eq_nil_iff.mpr
  intro e he
  have := hlt e he
  simp [show ¬ e.1 = h by omega]

def Rules.okCall (R : Rules) (call : Call) : Prop :=
  R.okEnv call.env ∧ R.okRequest call.request ∧
    ∀ h op, call.request = .on h op → R.okOp op

def Rules.okScripts (R : Rules) (scripts : List Script) : Prop :=
  ∀ s ∈ scripts, ∀ call ∈ s.calls, R.okCall call

/-- An invariant of the connections of an endpoint: `endpoint` is about the
settings that no connection changes, `conn` about a connection, the stage it is
in and its history, `past` about the history alone, which outlives the connection. -/
structure Invariant (R : Rules) where
  endpoint : Utcp → Prop
  conn : Stage → Conn → List Ev → Prop
  past : List Ev → Prop
  past_nil : past []
  past_conn : ∀ st c hist, conn st c hist → past hist
  past_note : ∀ hist ev, past hist → Note ev → past (hist ++ [ev])
  frame : ∀ u connections pkt nallocated nextHandle, endpoint u →
    endpoint { u with
      connections := connections, pkt := pkt, nallocated := nallocated, nextHandle := nextHandle }
  request : ∀ u call, R.okCall call → endpoint u →
    match call.request with
    | .setMtu mtu => endpoint (setMtu call.env mtu u)
    | .setUserTimeout timeout => endpoint { u with timeout := timeout }
    | .setAcceptCb accept listen => endpoint { u with accept := accept, listen := listen }
    | .setRetransmitCb installed => endpoint { u with retransmit := installed }
    | .setClockGranularity granularity => endpoint { u with clockGranularity := granularity }
    | _ => True
  opened : ∀ u c c' evs, endpoint u → Fresh c → Opening R u c c' evs →
    conn .idle c' (.opened c :: evs)
  move : ∀ u st c st' c' hist evs, endpoint u → conn st c hist → Move R u st c st' c' evs →
    conn st' c' (hist ++ evs)

variable {R : Rules}

/-- The invariant of a whole process, callbacks still to come included, when each
connection is in the stage that `stages` says. -/
structure Invariant.Holds (I : Invariant R) (stages : ℕ → Stage) (w : World) : Prop where
  scripts : R.okScripts w.scripts
  endpoint : I.endpoint w.utcp
  below : Handles.Below w.utcp.connections w.utcp.nextHandle
  traced : ∀ e ∈ w.trace, e.1 < w.utcp.nextHandle ∨ e.1 = 0
  positive : 0 < w.utcp.nextHandle
  quiet : ∀ h, w.utcp.nextHandle ≤ h → stages h = .idle
  past : ∀ h, I.past (history h w.trace)
  conn : ∀ h c, Handles.find w.utcp.connections h = some c →
    I.conn (stages h) c (history h w.trace)

/-- What is known of the connection behind a handle. -/
def At (h : ℕ) (P : Conn → Prop) (w : World) : Prop :=
  ∀ c, Handles.find w.utcp.connections h = some c → P c

end Meshlink.Moves
