import Meshlink.UtcpReceiver
import Meshlink.Commands

/-!
A UTCP endpoint as a process: its state, the application behind its callbacks
and everything it has done so far. The application is a list of scripts, one
for each callback still to come; a script says which calls the callback makes
and whether it accepts what it is given. After a callback the connection is
looked up again, as the source follows its pointer again.
-/
namespace Meshlink.UtcpEndpoint

open UtcpBuffer UtcpState UtcpTimers UtcpSender Commands

/-- The calls that free no connection; a callback may make every one of them. -/
inductive Request
  | on (h : ℕ) (op : Op)
  | connect (dst : UInt16) (recv : Bool) (flags : UInt32)
  | setMtu (mtu : UInt16)
  | setUserTimeout (timeout : Int)
  | setAcceptCb (accept listen : Bool)
  | setRetransmitCb (installed : Bool)
  | setClockGranularity (granularity : ℕ)
  | resetTimers
  | offline (offline : Bool)
  | resetAll

structure Call where
  request : Request
  env : Env

structure Script where
  calls : List Call
  accepts : Bool

structure World where
  utcp : Utcp
  scripts : List Script
  trace : List (ℕ × Ev)

def emit (h : ℕ) (ev : Ev) : Command World Unit :=
  update fun w => { w with trace := w.trace ++ [(h, ev)] }

def emitAll (h : ℕ) (evs : List Ev) : Command World Unit :=
  update fun w => { w with trace := w.trace ++ evs.map fun ev => (h, ev) }

def getConn (h : ℕ) : Command World Conn := fun w => (Handles.find w.utcp.connections h, w)

/-- Run code that does not call back on the connection behind a handle. -/
def onConn {α : Type} (h : ℕ) (f : Utcp → Conn → Option (Step α)) : Command World α := fun w =>
  match Handles.find w.utcp.connections h with
  | none => (none, w)
  | some c =>
      match f w.utcp c with
      | none => (none, w)
      | some s =>
          (some s.value,
            { w with
              utcp := { w.utcp with
                connections := Handles.put w.utcp.connections h s.conn, pkt := s.pkt }
              trace := w.trace ++ s.events.map fun ev => (h, ev) })

/-- Change a connection without sending or calling anything. -/
def modifyConn (h : ℕ) (f : Utcp → Conn → Conn) : Command World Unit :=
  onConn h fun u c => some ⟨f u c, u.pkt, [], ()⟩

def utcpAccept (c : Conn) (installed : Bool) : Conn :=
  if c.reapable = true ∨ c.state ≠ .synReceived then c
  else setState { c with recv := installed, doPoll := true } .established

def utcpExpectData (u : Utcp) (now : Timespec) (c : Conn) (expect : Bool) : Conn :=
  if c.reapable = true ∨ ¬ (c.state = .established ∨ c.state = .finWait1 ∨ c.state = .finWait2)
  then c
  else if expect then
    if timespecIsset c.connTimeout then c else startConnTimer u c now
  else if c.sndUna = c.sndLast then { c with connTimeout := timespecClear }
  else c

def utcpSetFlags (c : Conn) (flags : UInt32) : Conn :=
  { c with
    flags := (c.flags &&& ~~~utcpChangeableFlags) ||| (flags &&& utcpChangeableFlags) }

def pollWanted (c : Conn) : Bool := isReliable c && decide (bufferFree c.sndbuf ≠ 0)

def utcpSetSndbuf (e : Env) (c : Conn) (storage : Option (ℕ → UInt8)) (size : ℕ) : Option Conn :=
  (setBufferStorage c.sndbuf storage size (e.alloc 1)).map fun buf =>
    { c with sndbuf := buf, doPoll := pollWanted { c with sndbuf := buf } }

def utcpSetRcvbuf (e : Env) (c : Conn) (storage : Option (ℕ → UInt8)) (size : ℕ) : Option Conn :=
  (setBufferStorage c.rcvbuf storage size (e.alloc 2)).map fun buf => { c with rcvbuf := buf }

/-- A call on one connection. None of them calls back. -/
def connCall (e : Env) (op : Op) (u : Utcp) (c : Conn) : Option (Step Ret) :=
  let quiet (c' : Conn) : Step Ret := ⟨c', u.pkt, [.call c op e], { value := 0 }⟩
  match op with
  | .send data => utcpSend u e c data
  | .shutdown dir => utcpShutdown u e c dir
  | .close => utcpClose u e c
  | .abort => utcpAbort u e c
  | .accept installed => some (quiet (utcpAccept c installed))
  | .setSndbuf storage size => (utcpSetSndbuf e c storage size).map quiet
  | .setRcvbuf storage size => (utcpSetRcvbuf e c storage size).map quiet
  | .setRecvCb installed => some (quiet { c with recv := installed })
  | .setPollCb installed => some (quiet { c with poll := installed, doPoll := pollWanted c })
  | .expectData expect => some (quiet (utcpExpectData u (e.clk 0) c expect))
  | .setFlags flags => some (quiet (utcpSetFlags c flags))

def findConnection (u : Utcp) (src dst : UInt16) : Option ℕ :=
  (u.connections.find? fun e => decide (e.2.src = src ∧ e.2.dst = dst)).map Prod.fst

/-- `while(find_connection(utcp, src, dst)) src++`. -/
def freePort (u : Utcp) (dst : UInt16) : ℕ → UInt16 → UInt16
  | 0, src => src
  | fuel + 1, src =>
      if (findConnection u src dst).isSome then freePort u dst fuel (src + 1) else src

/-- The order of compare(). -/
def portsLe (a b : ℕ × Conn) : Prop := a.2.src < b.2.src ∨ (a.2.src = b.2.src ∧ a.2.dst ≤ b.2.dst)

instance : DecidableRel portsLe := fun a b =>
  inferInstanceAs (Decidable (a.2.src < b.2.src ∨ (a.2.src = b.2.src ∧ a.2.dst ≤ b.2.dst)))

def initialCwnd (mss : ℕ) : UInt32 :=
  UInt32.ofNat ((if mss > 2190 then 2 else if mss > 1095 then 3 else 4) * mss)

def newConn (u : Utcp) (src dst : UInt16) (iss : UInt32) (sndbuf rcvbuf : Buffer) : Conn where
  flags := 0
  reapable := false
  doPoll := false
  recv := false
  poll := false
  src := src
  dst := dst
  state := .closed
  sndUna := iss
  sndNxt := iss + 1
  sndWnd := 0
  sndIss := iss
  sndLast := iss + 1
  sndCwnd := initialCwnd u.mss
  sndSsthresh := 0xffffffff
  rcvNxt := 0
  rcvIrs := 0
  dupack := 0
  connTimeout := timespecClear
  rtrxTimeout := timespecClear
  rttStart := timespecClear
  rttSeq := 0
  srtt := 0
  rttvar := 0
  rto := startRto
  sndbuf := sndbuf
  rcvbuf := rcvbuf
  sacks := List.replicate nsacks ⟨0, 0⟩
  shutWr := false

/-- allocate_connection; the table is enlarged, and its new size recorded, before memory is
asked for. -/
def allocateConnection (e : Env) (src dst : UInt16) : Command World (Option ℕ) := fun w =>
  let u := w.utcp
  let taken := if src = 0 then decide (u.connections.length ≥ 32767)
    else (findConnection u src dst).isSome
  if taken then (some none, w)
  else
    let src := if src = 0 then freePort u dst 65536 ((e.rand 0).toUInt16 ||| 0x8000) else src
    let grow := decide (u.connections.length ≥ u.nallocated)
    let nallocated := if grow then (if u.nallocated = 0 then 4 else u.nallocated * 2)
      else u.nallocated
    let failed := (some none, { w with utcp := { u with nallocated := nallocated } })
    if (grow && !(e.alloc 4).ok) || !(e.alloc 5).ok then failed
    else
      match bufferSetSize .empty defaultSndbufsize defaultMaxsndbufsize (e.alloc 6),
        bufferSetSize .empty defaultRcvbufsize defaultMaxrcvbufsize (e.alloc 7) with
      | some (true, sndbuf), some (true, rcvbuf) =>
          let h := u.nextHandle
          let c := newConn u src dst (e.rand 1) sndbuf rcvbuf
          (some (some h),
            { w with
              utcp := { u with
                connections := u.connections.orderedInsert portsLe (h, c)
                nallocated := nallocated
                nextHandle := h + 1 }
              trace := w.trace ++ [(h, .opened c)] })
      | some _, some _ => failed
      | _, _ => (none, w)

def freeConnection (h : ℕ) : Command World Unit :=
  update fun w =>
    { w with utcp := { w.utcp with connections := Handles.remove w.utcp.connections h } }

/-- utcp_connect_ex, with a failed assertion for flags it does not know. -/
def utcpConnect (e : Env) (dst : UInt16) (recv : Bool) (flags : UInt32) : Command World Unit := do
  match ← allocateConnection e 0 dst with
  | none => pure ()
  | some h =>
      if flags &&& ~~~(0x1f : UInt32) ≠ 0 then stop
      else
        onConn h fun u c =>
          let c := setState { c with flags := flags, recv := recv } .synSent
          some ⟨startRetransmitTimer (startConnTimer u c (e.clk 0)) (e.clk 1), u.pkt,
            [.control (synPacket c)], ()⟩

def setMtu (e : Env) (mtu : UInt16) (u : Utcp) : Utcp :=
  if h : mtu.toNat ≤ hdrSize then u
  else if u.mtu < mtu.toNat ∧ (e.alloc 0).ok = false then u
  else { u with
    mtu := mtu.toNat
    mss := mtu.toNat - hdrSize
    mss_pos := Nat.sub_pos_of_lt (Nat.lt_of_not_le h)
    mss_lt := (Nat.sub_le _ _).trans_lt mtu.toNat_lt }

/-- What utcp_reset_timers does to one connection. -/
def resetTimers (u : Utcp) (now : Timespec) (c : Conn) : Conn :=
  if c.reapable then c
  else { c with
    rtrxTimeout := if timespecIsset c.rtrxTimeout then now else c.rtrxTimeout
    connTimeout :=
      if timespecIsset c.connTimeout then ⟨now.sec + u.timeout, now.nsec⟩ else c.connTimeout
    rttStart := { c.rttStart with sec := 0 }
    rto := if c.rto > startRto then startRto else c.rto }

/-- What utcp_offline does to one connection. -/
def offlineConn (u : Utcp) (e : Env) (offline : Bool) (c : Conn) : Conn :=
  if c.reapable then c
  else
    let c := utcpExpectData u (e.clk 1) c offline
    if offline then c
    else { c with
      rtrxTimeout := if timespecIsset c.rtrxTimeout then e.clk 0 else c.rtrxTimeout
      rttStart := { c.rttStart with sec := 0 }
      rto := if c.rto > startRto then startRto else c.rto }

def mapConns (f : Utcp → Conn → Conn) (u : Utcp) : Utcp :=
  { u with connections := u.connections.map fun e => (e.1, f u e.2) }

section Callbacks

variable (cb : Command World Bool)

def callRecvNull (h : ℕ) (errno : Errno) : Command World Unit := do
  let c ← getConn h
  if c.recv then
    emit h (.recvNull errno)
    let _ ← cb

def callPoll (h : ℕ) (len : ℕ) : Command World Unit := do
  emit h (.poll len)
  let _ ← cb

/-- Tell the application that a connection is gone. -/
def notifyClosed (h : ℕ) (errno : Errno) : Command World Unit := do
  callRecvNull cb h errno
  let c ← getConn h
  if c.poll && !c.reapable then callPoll cb h 0

/-- The loop of utcp_reset_all_connections, by index: a callback may add connections. -/
def resetAllFrom : ℕ → ℕ → Command World Unit
  | 0, _ => pure ()
  | fuel + 1, i => do
      match ← gets fun w => w.utcp.connections[i]? with
      | none => pure ()
      | some (h, c) =>
          if c.reapable = true ∨ c.state = .closed then resetAllFrom fuel (i + 1)
          else
            let _ ← onConn h fun u c => some (resetConnection u c)
            notifyClosed cb h .zero
            resetAllFrom fuel (i + 1)

/-- Enough iterations for a loop over the table while callbacks may still connect. -/
def loopFuel (w : World) : ℕ :=
  w.utcp.connections.length + (w.scripts.map fun s => s.calls.length).sum + 1

def perform (call : Call) : Command World Unit := do
  let e := call.env
  match call.request with
  | .on h op =>
      let _ ← onConn h (connCall e op)
  | .connect dst recv flags => utcpConnect e dst recv flags
  | .setMtu mtu => update fun w => { w with utcp := setMtu e mtu w.utcp }
  | .setUserTimeout timeout => update fun w => { w with utcp := { w.utcp with timeout := timeout } }
  | .setAcceptCb accept listen =>
      update fun w => { w with utcp := { w.utcp with accept := accept, listen := listen } }
  | .setRetransmitCb installed =>
      update fun w => { w with utcp := { w.utcp with retransmit := installed } }
  | .setClockGranularity granularity =>
      update fun w => { w with utcp := { w.utcp with clockGranularity := granularity } }
  | .resetTimers =>
      update fun w => { w with utcp := mapConns (fun u => resetTimers u (e.clk 0)) w.utcp }
  | .offline offline =>
      update fun w => { w with utcp := mapConns (fun u => offlineConn u e offline) w.utcp }
  | .resetAll =>
      let fuel ← gets loopFuel
      resetAllFrom cb fuel 0

def performAll : List Call → Command World Unit
  | [] => pure ()
  | call :: rest => do
      perform cb call
      performAll rest

end Callbacks

end Meshlink.UtcpEndpoint
