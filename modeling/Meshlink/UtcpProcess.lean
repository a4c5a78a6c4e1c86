import Meshlink.UtcpEndpoint

/-!
The rest of utcp_recv, utcp_timeout, and runs of an endpoint. Everything here
can call back into the application, so it is written over the callback `cb`;
`callback` ties the knot, each callback using up one script.
-/
namespace Meshlink.UtcpProcess

open RingMemory UtcpBuffer UtcpState UtcpTimers UtcpSender UtcpReceiver Commands
open UtcpEndpoint

section Callbacks

variable (cb : Command World Bool) (e : Env)

/-- Pass data to recv, with the records that belong to this call. A callback that
does not accept everything counts as returning -1. -/
def callRecv (h : ℕ) (records : List Ev) (data : List UInt8) : Command World Int := do
  emitAll h (records ++ [.recv data])
  let accepted ← cb
  pure (if accepted then data.length else -1)

/-- Wrapped data goes out in two calls; the second one reads the buffer as the
first callback left it. -/
def bufferCall (h : ℕ) (offset len : ℕ) : Command World Int := do
  let c ← getConn h
  let buf := c.rcvbuf
  if c.recv = false then pure len
  else if buf.used ≤ offset then pure 0
  else
    let len := min len (buf.used - offset)
    let start := realOffset buf offset
    let room := buf.size - start
    if room < len then
      let rx1 ← callRecv cb h [] (window buf.data start room)
      let c' ← getConn h
      let room' : ℕ := toSize ((c'.rcvbuf.size : Int) - start) % 2 ^ 32
      if rx1 < room' then pure rx1
      else if c'.recv = false then pure len
      else
        let rx2 ← callRecv cb h [.half buf c'.rcvbuf]
          (window c'.rcvbuf.data 0 (toSize ((len : Int) - room')))
        pure (if rx2 < 0 then rx2 else rx1 + rx2)
    else callRecv cb h [] (window buf.data start len)

/-- The first SACK entry, when data of length `len` reaches it without covering it. -/
def reachedSack (c : Conn) (len : ℕ) : Option ℕ :=
  match c.sacks with
  | [] => none
  | s :: _ =>
      if s.len ≠ 0 ∧ s.offset ≤ len ∧ len < s.offset + s.len then some (s.offset + s.len) else none

def consumeInOrder (c : Conn) (len : ℕ) : Conn :=
  let c := if c.rcvbuf.used ≠ 0 then sackConsume c len else c
  { c with rcvNxt := c.rcvNxt + UInt32.ofNat len }

/-- The end of handle_in_order, once the data have been offered. -/
def reachStored (h len : ℕ) : Command World Unit := do
  let c ← getConn h
  match reachedSack c len with
  | none => modifyConn h fun _ c => consumeInOrder c len
  | some stretch =>
      let rxd ← bufferCall cb h len (stretch - len)
      if rxd ≠ (stretch - len : ℕ) then stop
      else modifyConn h fun _ c => consumeInOrder c stretch

def handleInOrder (h : ℕ) (data : List UInt8) : Command World Unit := do
  let c ← getConn h
  if c.recv then
    let rxd ← callRecv cb h [.inOrder c data] data
    if rxd ≠ data.length then stop
  else emitAll h [.inOrder c data]
  reachStored cb h data.length

/-- Store one fragment of a datagram; the value says whether all of it was stored. -/
def storeFragment (wnd : ℕ) (data : List UInt8) (u : Utcp) (c : Conn) : Option (Step Bool) :=
  let buf := if wnd = 0 then bufferClear c.rcvbuf else c.rcvbuf
  match bufferPutAt buf wnd data (e.alloc 3) with
  | none => none
  | some (rxd, buf) =>
      some ⟨{ c with rcvbuf := buf }, u.pkt, [], decide (rxd = data.length)⟩

def setRcvNxt (h : ℕ) (nxt : UInt32) : Command World Unit :=
  modifyConn h fun _ c => { c with rcvNxt := nxt }

def handleUnreliable (h : ℕ) (hdr : Hdr) (data : List UInt8) : Command World Unit := do
  let c ← getConn h
  let wnd := hdr.wnd.toNat
  let next := hdr.seq + UInt32.ofNat data.length
  if wnd = 0 ∧ hdr.ctl.mf = false then
    if c.recv then
      let _ ← callRecv cb h [] data
    setRcvNxt h next
  else if maxUnreliableSize ≤ wnd ∨ maxUnreliableSize < wnd + data.length then pure ()
  else if wnd ≠ 0 ∧ hdr.seq ≠ c.rcvNxt then pure ()
  else
    let stored ← onConn h (storeFragment e wnd data)
    if stored then
      if hdr.ctl.mf = false then
        let _ ← bufferCall cb h 0 (wnd + data.length)
      setRcvNxt h next

def handleIncomingData (h : ℕ) (i : Incoming) : Command World Unit := do
  let c ← getConn h
  if isReliable c = false then handleUnreliable cb e h i.hdr i.data
  else
    let offset := i.hdr.seq - c.rcvNxt
    if offset ≠ 0 then
      onConn h fun u c =>
        (handleOutOfOrder e c offset.toNat i.data).map fun c => ⟨c, u.pkt, [], ()⟩
    else handleInOrder cb h i.data

def sendReset (h : ℕ) (hdr : Hdr) (len : ℕ) : Command World Unit :=
  emit h (.control (resetPacket hdr len))

/-- What the data switch of step 6 decides from the state. -/
inductive DataVerdict
  | take
  | drop
  | reset
  deriving DecidableEq

def dataVerdict (c : Conn) : DataVerdict :=
  match c.state with
  | .established => .take
  | .finWait1 | .finWait2 => if c.reapable then .reset else .take
  | .closeWait | .closing | .lastAck | .timeWait => .reset
  | .synSent | .synReceived | .closed | .listen => .drop

/-- The state change of step 7; `none` is a second FIN. -/
def finState (u : Utcp) (e : Env) (c : Conn) : Option Conn :=
  match c.state with
  | .established => some (setState c .closeWait)
  | .finWait1 => some (setState c .closing)
  | .finWait2 => some (setState (startConnTimer u c (e.clk 9)) .timeWait)
  | .closeWait | .closing | .lastAck | .timeWait => none
  | .synSent | .synReceived | .closed | .listen => some c

/-- Step 7 and the answer. `hasData` was computed before the segment was trimmed. The end
of the segment is a size_t, which does not wrap where rcv.nxt does. -/
def finishRecv (h : ℕ) (i : Incoming) (hasData : Bool) : Command World Unit := do
  let c ← getConn h
  let len := i.data.length
  let finNow := i.hdr.ctl.fin &&
    (!isReliable c || decide (i.hdr.seq.toNat + len = c.rcvNxt.toNat))
  let u ← gets World.utcp
  if finNow = true ∧ (finState u e c).isNone = true then sendReset h i.hdr len
  else
    if finNow then
      onConn h fun u c =>
        (finState u e c).map fun c => ⟨{ c with rcvNxt := c.rcvNxt + 1 }, u.pkt, [.fin], ()⟩
      callRecvNull cb h .zero
    let c ← getConn h
    if isReliable c || i.hdr.ctl.syn || i.hdr.ctl.fin then
      onConn h fun u c =>
        (ack u (e.clk 10) c hasData).map fun s => { s with events := .reply c :: s.events }

def processData (h : ℕ) (i : Incoming) (hasData : Bool) : Command World Unit := do
  if i.data = [] then finishRecv cb e h i hasData
  else
    let c ← getConn h
    match dataVerdict c with
    | .drop => pure ()
    | .reset => sendReset h i.hdr i.data.length
    | .take =>
        handleIncomingData cb e h i
        finishRecv cb e h i hasData

/-- Step 6: the ACK that ends a passive open is shown to the application first. -/
def processAccept (h : ℕ) (i : Incoming) (advanced : UInt32) (hasData : Bool) :
    Command World Unit := do
  let c ← getConn h
  if c.state ≠ .synReceived then processData cb e h i hasData
  else if advanced = 0 then sendReset h i.hdr i.data.length
  else
    let u ← gets World.utcp
    if u.accept then
      emit h .acceptCb
      let _ ← cb
    let c ← getConn h
    if c.state = .established then processData cb e h i hasData
    else
      modifyConn h fun _ c => { setState c .closed with reapable := true }
      sendReset h i.hdr i.data.length

def recvExisting (h : ℕ) (i : Incoming) : Command World Unit := do
  let hasData := !i.data.isEmpty || i.hdr.ctl.syn || i.hdr.ctl.fin
  let (i, verdict) ← onConn h fun u c => arrive u e c i
  match verdict with
  | .ignore => pure ()
  | .reset => sendReset h i.hdr i.data.length
  | .refused => notifyClosed cb h .econnrefused
  | .aborted => notifyClosed cb h .econnreset
  | .free => freeConnection h
  | .synack => onConn h fun u c => some (synack u e c i)
  | .proceed advanced => processAccept cb e h i advanced hasData

/-- Without a listen callback every port is open. -/
def askListen : Command World Bool := do
  let u ← gets World.utcp
  if u.listen then cb else pure true

/-- A packet that belongs to no connection. A SYN whose init header has version 0
leaves the connection that was allocated for it in the table. -/
def recvNew (i : Incoming) : Command World Unit := do
  let u ← gets World.utcp
  if i.hdr.ctl.rst then pure ()
  else if i.hdr.ctl.syn = false ∨ i.hdr.ctl.ack = true ∨ u.accept = false then
    sendReset 0 i.hdr 1
  else
    let wanted ← askListen cb
    if wanted = false then sendReset 0 i.hdr 1
    else
      match ← allocateConnection e i.hdr.dst i.hdr.src with
      | none => sendReset 0 i.hdr 1
      | some h =>
          match i.init with
          | none => onConn h fun u c => some (synack u e { c with flags := utcpTcp } i)
          | some init =>
              if init.version < 1 then sendReset h i.hdr 1
              else
                onConn h fun u c =>
                  some (synack u e { c with flags := (init.flags &&& 7).toUInt32 } i)

/-- The argument of utcp_recv. -/
inductive Datagram
  | empty
  | null
  | short
  | packet (p : Packet)

def utcpRecv (d : Datagram) : Command World Ret :=
  match d with
  | .empty => pure { value := 0 }
  | .null => pure { value := -1, errno := .efault }
  | .short => pure { value := -1, errno := .ebadmsg }
  | .packet p =>
      match parsePacket p with
      | none => pure { value := -1, errno := .ebadmsg }
      | some i => do
          match ← gets fun w => findConnection w.utcp p.hdr.dst p.hdr.src with
          | some h => recvExisting cb e h i
          | none => recvNew cb e i
          pure { value := 0 }

def retransmit (h : ℕ) : Command World Unit := do
  let c ← getConn h
  if c.state = .closed ∨ c.sndLast = c.sndUna then modifyConn h fun _ => stopRetransmitTimer
  else
    let u ← gets World.utcp
    if u.retransmit then
      let _ ← cb
    onConn h fun u c => retransmitSend u e c

/-- The connection timer has run out. -/
def timeOut (c : Conn) : Conn :=
  { c with
    state := .closed, sndbuf := bufferClear c.sndbuf, rcvbuf := bufferClear c.rcvbuf }

def pollConn (h : ℕ) : Command World Unit := do
  let c ← getConn h
  if c.poll then
    if (c.state = .established ∨ c.state = .closeWait) ∧ c.doPoll = true then
      modifyConn h fun _ c => { c with doPoll := false }
      if bufferFree c.sndbuf ≠ 0 then callPoll cb h (bufferFree c.sndbuf)
    else if c.state = .closed then callPoll cb h 0

def earlier (deadline next : Timespec) : Timespec :=
  if timespecIsset deadline && timespecLt deadline next then deadline else next

/-- The loop of utcp_timeout by index; freeing a connection keeps the index. -/
def timeoutFrom (now : Timespec) (envs : ℕ → Env) : ℕ → ℕ → Timespec → Command World Timespec
  | 0, _, next => pure next
  | fuel + 1, i, next => do
      match ← gets fun w => w.utcp.connections[i]? with
      | none => pure next
      | some (h, c) =>
          if c.state = .closed then
            if c.reapable then
              freeConnection h
              timeoutFrom now envs fuel i next
            else timeoutFrom now envs fuel (i + 1) next
          else if timespecIsset c.connTimeout && timespecLt c.connTimeout now then
            modifyConn h fun _ => timeOut
            notifyClosed cb h .etimedout
            timeoutFrom now envs fuel (i + 1) next
          else
            if timespecIsset c.rtrxTimeout && timespecLt c.rtrxTimeout now then
              retransmit cb (envs i) h
            pollConn cb h
            let c ← getConn h
            timeoutFrom now envs fuel (i + 1) (earlier c.rtrxTimeout (earlier c.connTimeout next))

def utcpTimeout (now : Timespec) (envs : ℕ → Env) : Command World Timespec := do
  let fuel ← gets loopFuel
  let next ← timeoutFrom cb now envs fuel 0 ⟨now.sec + 3600, now.nsec⟩
  pure (timespecSub next now)

end Callbacks

/-- Take the next script and make its calls; with no script left a callback accepts. -/
def callback : ℕ → Command World Bool
  | 0 => pure true
  | n + 1 => do
      match ← gets World.scripts with
      | [] => pure true
      | script :: rest =>
          update fun w => { w with scripts := rest }
          performAll (callback n) script.calls
          pure script.accepts

/-- What happens to an endpoint from outside. -/
inductive Stimulus
  | call (c : Call)
  | recv (e : Env) (d : Datagram)
  | timeout (now : Timespec) (envs : ℕ → Env)

/-- One stimulus, with the scripts of the callbacks it leads to. -/
def react (s : Stimulus) (scripts : List Script) : Command World Unit := do
  update fun w => { w with scripts := scripts }
  let cb := callback scripts.length
  match s with
  | .call c => perform cb c
  | .recv e d =>
      let _ ← utcpRecv cb e d
  | .timeout now envs =>
      let _ ← utcpTimeout cb now envs

/-- A run ends early when the process stops. -/
def run : World → List (Stimulus × List Script) → World
  | w, [] => w
  | w, (s, scripts) :: rest =>
      match react s scripts w with
      | (none, w') => w'
      | (some _, w') => run w' rest

end Meshlink.UtcpProcess
