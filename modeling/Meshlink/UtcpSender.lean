import Meshlink.UtcpTimers

/-!
The sending half of utcp.c: ack, utcp_send, fast_retransmit, retransmit and
the calls that end a connection. Each function maps the connection it is
called on to a step; `none` is a failed assertion or a read out of bounds. The
packet buffer of the endpoint is shared, so a segment whose payload was not
copied in full carries what the buffer held before.
-/
namespace Meshlink.UtcpSender

open SerialNumbers RingMemory UtcpBuffer UtcpState UtcpTimers

variable (u : Utcp) (e : Env) (c : Conn)

def finWanted (seq : UInt32) : Bool :=
  if seq ≠ c.sndLast then false
  else
    match c.state with
    | .finWait1 | .closing | .lastAck => true
    | _ => false

/-- The conversion of an int32_t argument to size_t. -/
def toSize (i : Int) : ℕ := (i % 2 ^ 64).toNat

/-- The variables of the loop in ack. -/
structure AckLoop where
  conn : Conn
  pkt : ℕ → UInt8
  ctl : Ctl
  wnd : UInt32
  left : ℕ

def ackSegment (now : Timespec) (l : AckLoop) : AckLoop × Packet :=
  let c := l.conn
  let seglen := min l.left u.mss
  let pkt := blit l.pkt 0 (bufferCopy c.sndbuf (toSize (seqdiff c.sndNxt c.sndUna)) seglen)
  let nxt := c.sndNxt + UInt32.ofNat seglen
  let left := l.left - seglen
  let ctl := if isReliable c then l.ctl else { l.ctl with mf := decide (left ≠ 0) }
  let fin := decide (seglen ≠ 0) && finWanted c nxt
  let paylen := if fin then seglen - 1 else seglen
  let ctl := if fin then { ctl with fin := true } else ctl
  let measure := decide (c.rttStart.sec = 0)
  ({ conn := { c with
        sndNxt := nxt
        rttStart := if measure then now else c.rttStart
        rttSeq := if measure then c.sndNxt + UInt32.ofNat paylen else c.rttSeq }
     pkt := pkt
     ctl := ctl
     wnd := if decide (left ≠ 0) && !isReliable c then l.wnd + UInt32.ofNat paylen else l.wnd
     left := left },
   ⟨⟨c.src, c.dst, c.sndNxt, c.rcvNxt, l.wnd, ctl, 0⟩, window pkt 0 paylen⟩)

/-- The loop body runs once more as long as something is left. -/
def ackLoop (u : Utcp) (now : Timespec) : ℕ → AckLoop → AckLoop × List Ev
  | 0, l => ((ackSegment u now l).1, [.segment (ackSegment u now l).2])
  | fuel + 1, l =>
      let r := ackSegment u now l
      if r.1.left = 0 then (r.1, [.segment r.2])
      else
        let rest := ackLoop u now fuel r.1
        (rest.1, .segment r.2 :: rest.2)

/-- How much ack sends: what is left, cut to the windows and to whole segments. -/
def ackLeft (sendatleastone : Bool) : ℕ :=
  let left := seqdiff c.sndLast c.sndNxt
  let cwndleft :=
    if isReliable c then signed (min c.sndCwnd c.sndWnd - (c.sndNxt - c.sndUna))
    else (maxUnreliableSize : Int)
  if cwndleft ≤ 0 then 0
  else if cwndleft < left then
    if !sendatleastone || decide (cwndleft > u.mss) then (cwndleft - cwndleft % u.mss).toNat
    else cwndleft.toNat
  else left.toNat

def ack (now : Timespec) (c : Conn) (sendatleastone : Bool) : Option (Step Unit) :=
  if seqdiff c.sndLast c.sndNxt < 0 then none
  else
    let left := ackLeft u c sendatleastone
    if left = 0 ∧ sendatleastone = false then some ⟨c, u.pkt, [], ()⟩
    else
      let wnd := if isReliable c then UInt32.ofNat c.rcvbuf.maxsize else 0
      let r := ackLoop u now left ⟨c, u.pkt, { ack := true }, wnd, left⟩
      some ⟨r.1.conn, r.1.pkt, r.2, ()⟩

/-- The returns of utcp_send that come before any data is buffered. -/
def sendRefusal (data : Option (List UInt8)) : Option Ret :=
  if c.reapable then some { value := -1, errno := .ebadf }
  else
    match c.state with
    | .closed | .listen => some { value := -1, errno := .enotconn }
    | .closeWait | .finWait1 | .finWait2 | .closing | .lastAck | .timeWait =>
        some { value := -1, errno := .epipe }
    | .synSent | .synReceived | .established =>
        match data with
        | none => some { value := -1, errno := .efault }
        | some d =>
            if d = [] then some { value := 0 }
            else if c.flags &&& utcpNoPartial ≠ 0 ∧ bufferFree c.sndbuf < d.length then
              if c.sndbuf.maxsize < d.length then some { value := -1, errno := .emsgsize }
              else some { value := 0, errno := .ewouldblock }
            else none

/-- utcp_send after buffer_put returned `len`, which is -1 when the allocation failed. -/
def sendBuffered (len : Int) : Option (Step Unit) :=
  let c := { c with sndLast := c.sndLast + UInt32.ofInt len }
  if c.state = .synSent ∨ c.state = .synReceived then some ⟨c, u.pkt, [], ()⟩
  else
    match ack u (e.clk 0) c false with
    | none => none
    | some s =>
        let c := s.conn
        if isReliable c then
          let c := if timespecIsset c.rtrxTimeout then c else startRetransmitTimer c (e.clk 1)
          let c := if timespecIsset c.connTimeout then c else startConnTimer u c (e.clk 2)
          some { s with conn := c }
        else
          some { s with conn := { c with
            sndUna := c.sndLast
            sndNxt := c.sndLast
            sndbuf := bufferDiscard c.sndbuf c.sndbuf.used } }

/-- Data goes to the buffer; the call returns early when nothing, or for a
datagram not everything, could be stored. -/
def sendData (d : List UInt8) : Option (Step Ret) :=
  let refuse (c : Conn) (r : Ret) : Option (Step Ret) := some ⟨c, u.pkt, [], r⟩
  let flush (buf : Buffer) (len : Int) : Option (Step Ret) :=
    match sendBuffered u e { c with sndbuf := buf } len with
    | none => none
    | some s =>
        some ⟨s.conn, s.pkt, .accepted (d.take len.toNat) :: s.events, { value := len }⟩
  if isReliable c then
    match bufferPut c.sndbuf d (e.alloc 0) with
    | none => none
    | some (len, buf) =>
        if len = 0 then refuse { c with sndbuf := buf } { value := 0, errno := .ewouldblock }
        else flush buf len
  else if c.state ≠ .synSent ∧ c.state ≠ .synReceived then
    if maxUnreliableSize < d.length then refuse c { value := -1, errno := .emsgsize }
    else
      match bufferPut c.sndbuf d (e.alloc 0) with
      | none => none
      | some (len, buf) =>
          if len ≠ d.length then refuse { c with sndbuf := buf } { value := -1, errno := .emsgsize }
          else flush buf len
  else refuse c { value := 0 }

def utcpSend (data : Option (List UInt8)) : Option (Step Ret) :=
  let op := Op.send data
  match sendRefusal c data with
  | some r => some ⟨c, u.pkt, [.call c op e, .ret op r], r⟩
  | none =>
      match sendData u e c (data.getD []) with
      | none => none
      | some s => some { s with events := .call c op e :: s.events ++ [.ret op s.value] }

/-- Unacknowledged data from the front of the send buffer, as fast_retransmit
and retransmit put it in a segment, with the number of payload bytes. When a FIN
is wanted and no byte is counted for it, the length wraps around and the source
reads past the packet buffer. -/
def unackedSegment : Option (ℕ × (ℕ → UInt8) × Packet) :=
  let len := min (toSize (seqdiff c.sndLast c.sndUna)) u.mss
  let fin := finWanted c (c.sndUna + UInt32.ofNat len)
  if fin = true ∧ len = 0 then none
  else
    let len := if fin then len - 1 else len
    let pkt := blit u.pkt 0 (bufferCopy c.sndbuf 0 len)
    let wnd := UInt32.ofNat c.rcvbuf.maxsize
    some (len, pkt,
      ⟨⟨c.src, c.dst, c.sndUna, c.rcvNxt, wnd, { ack := true, fin := fin }, 0⟩,
        window pkt 0 len⟩)

def fastRetransmit : Option ((ℕ → UInt8) × List Ev) :=
  if c.state = .closed ∨ c.sndLast = c.sndUna then some (u.pkt, [])
  else
    match c.state with
    | .established | .finWait1 | .closeWait | .closing | .lastAck =>
        (unackedSegment u c).map fun seg => (seg.2.1, [.segment seg.2.2])
    | _ => some (u.pkt, [])

/-- The four bytes of the init header that goes with a SYN or SYN+ACK. -/
def initBytes (flags : UInt32) : List UInt8 := [1, 0, 0, (flags &&& 7).toUInt8]

/-- The SYN of an active open, first sent by utcp_connect_ex and then by retransmit. -/
def synPacket : Packet :=
  ⟨⟨c.src, c.dst, c.sndIss, 0, UInt32.ofNat c.rcvbuf.maxsize, { syn := true }, 0x0101⟩,
    initBytes c.flags⟩

/-- The SYN+ACK that retransmit sends; its sequence number is snd.nxt. -/
def synackRetransmission : Packet :=
  ⟨⟨c.src, c.dst, c.sndNxt, c.rcvNxt, UInt32.ofNat c.rcvbuf.maxsize,
    { syn := true, ack := true }, 0⟩, []⟩

/-- The end of retransmit, when something was sent again. -/
def backOff (now : Timespec) (c : Conn) : Conn :=
  let c := startRetransmitTimer c now
  let rto := c.rto * 2
  { c with
    rto := if rto > maxRto then maxRto else rto
    rttStart := { c.rttStart with sec := 0 }
    dupack := 0 }

/-- retransmit from its switch on, after the application has been told. -/
def retransmitSend : Option (Step Unit) :=
  match c.state with
  | .synSent =>
      some ⟨backOff (e.clk 0) c, blit u.pkt 0 (initBytes c.flags),
        [.rtrx c, .control (synPacket c)], ()⟩
  | .synReceived =>
      some ⟨backOff (e.clk 0) c, u.pkt, [.rtrx c, .control (synackRetransmission c)], ()⟩
  | .established | .finWait1 | .closeWait | .closing | .lastAck =>
      (unackedSegment u c).map fun seg =>
        let flightsize := c.sndNxt - c.sndUna
        let c' := { c with
          sndSsthresh := max (flightsize / 2) (UInt32.ofNat (u.mss * 2))
          sndCwnd := UInt32.ofNat u.mss
          sndNxt := c.sndUna + UInt32.ofNat seg.1 }
        ⟨backOff (e.clk 0) c', seg.2.1, [.rtrx c, .segment seg.2.2], ()⟩
  | .closed | .listen | .timeWait | .finWait2 =>
      some ⟨stopRetransmitTimer c, u.pkt, [.rtrx c], ()⟩

/-- The write half of utcp_shutdown once the state has been changed: count the FIN, send, arm. -/
def sendFin : Option (Step Ret) :=
  match ack u (e.clk 0) { c with sndLast := c.sndLast + 1 } false with
  | none => none
  | some s =>
      let c := s.conn
      let c := if timespecIsset c.rtrxTimeout then c else startRetransmitTimer c (e.clk 1)
      some ⟨c, s.pkt, s.events, { value := 0 }⟩

def shutdownWrite : Option (Step Ret) :=
  if c.shutWr then some ⟨c, u.pkt, [], { value := 0 }⟩
  else
    let c := { c with shutWr := true }
    match c.state with
    | .closed | .listen => some ⟨c, u.pkt, [], { value := -1, errno := .enotconn }⟩
    | .synSent => some ⟨c, u.pkt, [], { value := 0 }⟩
    | .synReceived | .established => sendFin u e (setState c .finWait1)
    | .finWait1 | .finWait2 => some ⟨c, u.pkt, [], { value := 0 }⟩
    | .closeWait => sendFin u e (setState c .closing)
    | .closing | .lastAck | .timeWait => some ⟨c, u.pkt, [], { value := 0 }⟩

def utcpShutdown (dir : Dir) : Option (Step Ret) :=
  let op := Op.shutdown dir
  let finish (s : Step Ret) : Step Ret :=
    { s with events := .call c op e :: s.events ++ [.ret op s.value] }
  if c.reapable then some (finish ⟨c, u.pkt, [], { value := -1, errno := .ebadf }⟩)
  else
    match dir with
    | .invalid => some (finish ⟨c, u.pkt, [], { value := -1, errno := .einval }⟩)
    | .rd => some (finish ⟨{ c with recv := false }, u.pkt, [], { value := 0 }⟩)
    | .wr => (shutdownWrite u e c).map finish
    | .rdwr => (shutdownWrite u e { c with recv := false }).map finish

def rstPacket : Packet := ⟨⟨c.src, c.dst, c.sndNxt, c.rcvNxt, 0, { rst := true }, 0⟩, []⟩

/-- reset_connection; the value says whether it returned true. -/
def resetConnection : Step Bool :=
  if c.reapable then ⟨c, u.pkt, [], false⟩
  else
    let c := { c with sndbuf := bufferClear c.sndbuf, rcvbuf := bufferClear c.rcvbuf }
    match c.state with
    | .closed => ⟨c, u.pkt, [], true⟩
    | .listen | .synSent | .closing | .lastAck | .timeWait =>
        ⟨setState c .closed, u.pkt, [], true⟩
    | .synReceived | .established | .finWait1 | .finWait2 | .closeWait =>
        ⟨setState c .closed, u.pkt, [.control (rstPacket c)], true⟩

def setReapable : Option Conn :=
  match setBufferStorage c.sndbuf none (min c.sndbuf.maxsize defaultMaxsndbufsize) (e.alloc 1),
    setBufferStorage c.rcvbuf none (min c.rcvbuf.maxsize defaultMaxrcvbufsize) (e.alloc 2) with
  | some sndbuf, some rcvbuf =>
      some { c with
        sndbuf := sndbuf
        rcvbuf := rcvbuf
        recv := false
        poll := false
        reapable := true }
  | _, _ => none

def utcpClose : Option (Step Ret) :=
  match utcpShutdown u e c .rdwr with
  | none => none
  | some s =>
      if s.value.value ≠ 0 ∧ s.value.errno ≠ .enotconn then
        some { s with value := { value := -1, errno := s.value.errno } }
      else
        match setReapable e s.conn with
        | none => none
        | some c' => some { s with conn := c', value := { value := 0 } }

def utcpAbort : Option (Step Ret) :=
  let s := resetConnection u c
  if s.value then
    match setReapable e s.conn with
    | none => none
    | some c' => some ⟨c', s.pkt, .call c .abort e :: s.events, { value := 0 }⟩
  else some ⟨s.conn, s.pkt, [.call c .abort e], { value := -1, errno := .ebadf }⟩

end Meshlink.UtcpSender
