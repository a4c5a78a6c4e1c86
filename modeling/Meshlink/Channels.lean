import Mathlib

/-!
A channel with its queues of buffers for asynchronous sending and receiving. The
application hands in buffers and is called back when one is finished, from inside
the loops that work on the queues; it may call the library again from there. The
control stack is therefore part of the state: each callback that runs is a frame,
which remembers how the loop below it goes on. Between two steps the application
runs, or a file is being read or written, or nothing runs and UTCP may call in.
-/
namespace Meshlink.Channels

abbrev Bytes := List UInt8

section States

/-- A buffer in memory with its contents, or a file. A buffer for receiving starts
without contents. -/
structure Aio where
  id : ℕ
  data : Option Bytes
  len : ℕ
  done : ℕ
  cb : Bool
  deriving DecidableEq

structure Channel where
  /-- Whether the pointer to the connection is set. -/
  c : Bool
  inCallback : Bool
  aioSend : List Aio
  aioReceive : List Aio
  receiveCb : Bool
  pollCb : Bool
  deriving DecidableEq

/-- Whether UTCP still takes data for this connection. -/
inductive LinkState
  | sending
  | closeWait
  | closed
  deriving DecidableEq

/-- What a channel sees of a reliable UTCP connection: the room in its send buffer,
whether there is memory when that has to grow, and whether its poll callback is set. -/
structure Link where
  state : LinkState
  room : ℕ
  maxsize : ℕ
  noPartial : Bool
  memory : Bool
  polls : Bool
  deriving DecidableEq

/-- How the loop that finished a buffer goes on after the callback. -/
inductive After
  | poll (len : ℕ)
  | pollAbort
  | recv (rest : Bytes)
  | recvAbort
  deriving DecidableEq

/-- A callback of the application with what it is told, or an operation on a file. -/
inductive Frame
  | callback (after : After)
  | pollCb (len : ℕ)
  | receiveCb (data : Bytes)
  | reading (len : ℕ)
  | writing (rest : Bytes)
  deriving DecidableEq

/-- What happens to data on its way to UTCP. -/
inductive Sent
  | registered (id : ℕ) (data : Bytes) (cb : Bool)
  | direct (data : Bytes)
  | accepted (id : ℕ) (data : Bytes)
  | completed (id done : ℕ) (called : Bool)
  deriving DecidableEq

/-- What happens to data that comes from UTCP. -/
inductive Received
  | registered (id len : ℕ) (cb : Bool)
  | delivered (data : Bytes)
  | stored (id : ℕ) (data : Bytes)
  | completed (id done : ℕ) (data : Option Bytes) (called : Bool)
  | given (data : Bytes)
  | ignored (data : Bytes)
  deriving DecidableEq

/-- The channel, the control stack with the innermost frame first, and what has
happened. A channel that is released more often than once, or that is used by
aio_finish_one after that, is a fault. -/
structure Machine where
  chan : Channel
  link : Link
  stack : List Frame
  released : ℕ
  fault : Bool
  nextSend : ℕ
  nextReceive : ℕ
  sent : List Sent
  received : List Received
  deriving DecidableEq

namespace Machine

variable (m : Machine)

def withSend (queue : List Aio) : Machine := {m with chan := {m.chan with aioSend := queue}}

def withReceive (queue : List Aio) : Machine := {m with chan := {m.chan with aioReceive := queue}}

def noteSent (x : Sent) : Machine := {m with sent := m.sent ++ [x]}

def noteReceived (x : Received) : Machine := {m with received := m.received ++ [x]}

def suspend (frame : Frame) : Machine := {m with stack := frame :: m.stack}

/-- aio_finish_one calls back. -/
def enter (after : After) : Machine :=
  {m with chan := {m.chan with inCallback := true}, stack := .callback after :: m.stack}

/-- aio_finish_one after its callback. -/
def leave : Machine := {m with chan := {m.chan with inCallback := false}}

/-- aio_finish_one without a callback; nothing is done with a channel that was closed. -/
def pass : Machine := if m.chan.c then m.leave else m

end Machine

end States

open Machine

/-- A loop has stopped, or goes on with what is left. -/
def goOn {α : Type} (next : Machine × Option α) (loop : Machine → α → Machine) : Machine :=
  match next with
  | (m, none) => m
  | (m, some left) => loop m left

section Transport

/-- utcp_send on a reliable connection: the number of bytes that were taken. -/
def utcpSend (link : Link) (data : Bytes) : ℤ × Link :=
  if link.state ≠ .sending then (-1, link)
  else if link.noPartial ∧ link.room < data.length then
    (if link.maxsize < data.length then -1 else 0, link)
  else if !link.memory then (-1, link)
  else
    let taken := min data.length link.room
    (taken, {link with room := link.room - taken})

/-- utcp_get_sndbuf_free. -/
def sndbufFree (link : Link) : ℕ := if link.state = .closed then 0 else link.room

end Transport

variable (m : Machine)

section Sending

/-- The end of channel_poll: the poll callback, or polling is switched off. -/
def pollRest (len : ℕ) : Machine :=
  if m.chan.pollCb then m.suspend (.pollCb len)
  else {m with link := {m.link with polls := false}}

/-- aio_abort for the sends, inside of channel_poll, and what follows there. -/
def abortSends (m : Machine) : List Aio → Machine
  | [] => pollRest (m.withSend []) 0
  | aio :: rest =>
    let m := (m.withSend rest).noteSent (.completed aio.id aio.done (m.chan.c && aio.cb))
    if m.chan.c && aio.cb then m.enter .pollAbort else abortSends m.pass rest

/-- aio_finish_one for the first buffer in channel_poll. The loop goes on when there
is no callback to wait for and there is length left. -/
def finishSend (aio : Aio) (rest : List Aio) (len : ℕ) : Machine × Option ℕ :=
  let m := (m.withSend rest).noteSent (.completed aio.id aio.done (m.chan.c && aio.cb))
  if m.chan.c && aio.cb then (m.enter (.poll len), none)
  else if len = 0 then (m.pass, none)
  else (m.pass, some len)

/-- Data of the first buffer is handed to UTCP, which takes all of it or the loop
gives up on all buffers. -/
def sendChunk (aio : Aio) (rest : List Aio) (len : ℕ) (chunk : Bytes) : Machine × Option ℕ :=
  let result := utcpSend m.link chunk
  let m := {m with link := result.2}.noteSent (.accepted aio.id (chunk.take result.1.toNat))
  if result.1 ≠ chunk.length then (abortSends m (aio :: rest), none)
  else
    let aio := {aio with done := aio.done + chunk.length}
    if aio.done < aio.len then (m.withSend (aio :: rest), none)
    else finishSend m aio rest (len - chunk.length)

/-- The loop of channel_poll. -/
def pollLoop (m : Machine) (len : ℕ) : List Aio → Machine
  | [] => pollRest (m.withSend []) len
  | aio :: rest =>
    if len = 0 then abortSends m (aio :: rest)
    else
      match aio.data with
      | none => (m.withSend (aio :: rest)).suspend (.reading len)
      | some data =>
        let chunk := (data.drop aio.done).take (min (aio.len - aio.done) len)
        goOn (sendChunk m aio rest len chunk) fun m len => pollLoop m len rest

def channelPoll (len : ℕ) : Machine := pollLoop m len m.chan.aioSend

/-- The loop is entered, or goes on after a buffer, unless there is no length left. -/
def resumePoll (len : ℕ) : Machine := if len = 0 then m else channelPoll m len

/-- Limit the amount that is read at once. -/
def readLimit : ℕ := 65536

/-- The loop of channel_poll after reading from a file; nothing is read at the end of
the file or after an error. -/
def readDone (len : ℕ) (data : Bytes) : Machine :=
  match m.chan.aioSend with
  | [] => resumePoll m len
  | aio :: rest =>
    let chunk := data.take (min (min (aio.len - aio.done) len) readLimit)
    let next := if chunk = [] then finishSend m aio rest len else sendChunk m aio rest len chunk
    goOn next fun m len => pollLoop m len rest

end Sending

section Receiving

/-- The end of channel_recv. -/
def recvRest (data : Bytes) : Machine :=
  if m.chan.receiveCb then (m.noteReceived (.given data)).suspend (.receiveCb data)
  else m.noteReceived (.ignored data)

def abortReceives (m : Machine) : List Aio → Machine
  | [] => recvRest (m.withReceive []) []
  | aio :: rest =>
    let m := (m.withReceive rest).noteReceived
      (.completed aio.id aio.done aio.data (m.chan.c && aio.cb))
    if m.chan.c && aio.cb then m.enter .recvAbort else abortReceives m.pass rest

def finishReceive (aio : Aio) (rest : List Aio) (data : Bytes) : Machine × Option Bytes :=
  let m := (m.withReceive rest).noteReceived
    (.completed aio.id aio.done aio.data (m.chan.c && aio.cb))
  if m.chan.c && aio.cb then (m.enter (.recv data), none)
  else if data = [] then (m.pass, none)
  else (m.pass, some data)

/-- Some bytes have gone to the first buffer. A buffer in memory that is not full then
has taken everything. -/
def takeIn (aio : Aio) (rest : List Aio) (data : Bytes) (n : ℕ) : Machine × Option Bytes :=
  let m := m.noteReceived (.stored aio.id (data.take n))
  let aio := {aio with done := aio.done + n, data := aio.data.map fun old => old ++ data.take n}
  let data := data.drop n
  if aio.done = aio.len then finishReceive m aio rest data
  else if data = [] then (m.withReceive (aio :: rest), none)
  else ((m.withReceive (aio :: rest)).suspend (.writing data), none)

/-- The loop of channel_recv for data; the end of the stream is handled apart. -/
def recvLoop (m : Machine) (data : Bytes) : List Aio → Machine
  | [] => recvRest (m.withReceive []) data
  | aio :: rest =>
    match aio.data with
    | none => (m.withReceive (aio :: rest)).suspend (.writing data)
    | some _ =>
      goOn (takeIn m aio rest data (min (aio.len - aio.done) data.length)) fun m data =>
        recvLoop m data rest

/-- The loop goes on after a buffer, unless there is no data left. -/
def resumeRecv (data : Bytes) : Machine :=
  if data = [] then m else recvLoop m data m.chan.aioReceive

/-- channel_recv for a node that is not destroyed. -/
def channelRecv (data : Bytes) : Machine :=
  let m := m.noteReceived (.delivered data)
  if data = [] then abortReceives m m.chan.aioReceive else recvLoop m data m.chan.aioReceive

/-- The loop of channel_recv after writing to a file. After an error nothing is written, and
the file is given up. -/
def writeDone (data : Bytes) (n : ℕ) : Machine :=
  match m.chan.aioReceive with
  | [] => resumeRecv m data
  | aio :: rest =>
    let n := min n (min (aio.len - aio.done) data.length)
    let next := if n = 0 ∧ aio.data = none then finishReceive m aio rest data
      else takeIn m aio rest data n
    goOn next fun m data => recvLoop m data rest

end Receiving

section Calls

/-- aio_finish_one clears its mark after the callback, which is a fault when the channel
has been released. Memory that was released still has its old contents. -/
def regain : Machine := {m with fault := m.fault || decide (0 < m.released)}.leave

/-- The loop that finished a buffer goes on. -/
def proceed : After → Machine
  | .poll len => resumePoll m len
  | .pollAbort => abortSends m m.chan.aioSend
  | .recv data => resumeRecv m data
  | .recvAbort => abortReceives m m.chan.aioReceive

/-- A callback returns to aio_finish_one, which releases a channel that was closed in
the meantime. -/
def callbackDone (after : After) : Machine :=
  if m.chan.c then proceed (regain m) after
  else {regain m with released := m.released + 1}

/-- meshlink_channel_close and meshlink_channel_abort: the buffers are dropped without
calling back, since the connection is gone by then. -/
def channelClose : Machine :=
  let chan := if m.chan.c then {m.chan with c := false, aioSend := [], aioReceive := []} else m.chan
  {m with
    chan := chan
    released := if m.chan.inCallback then m.released else m.released + 1}

def channelSend (data : Bytes) : Machine :=
  if data = [] ∨ m.chan.aioSend ≠ [] ∨ m.chan.c = false then m
  else
    let result := utcpSend m.link data
    {m with link := result.2}.noteSent (.direct (data.take result.1.toNat))

/-- A buffer is put at the end of the queue and polling is switched on. -/
def enqueueSend (data : Option Bytes) (len : ℕ) (cb : Bool) : Machine :=
  {m with
    chan := {m.chan with aioSend := m.chan.aioSend ++ [⟨m.nextSend, data, len, 0, cb⟩]}
    link := {m.link with polls := m.chan.c || m.link.polls}
    nextSend := m.nextSend + 1}

/-- The room in the send buffer, if there is a connection. -/
def roomNow : ℕ := if m.chan.c then sndbufFree m.link else 0

def channelAioSend (data : Bytes) (cb : Bool) : Machine :=
  if data = [] then m
  else
    let m := (enqueueSend m (some data) data.length cb).noteSent (.registered m.nextSend data cb)
    resumePoll m (min data.length (roomNow m))

def channelAioFdSend (len : ℕ) (cb : Bool) : Machine :=
  if len = 0 then m
  else
    let m := enqueueSend m none len cb
    resumePoll m (roomNow m)

def enqueueReceive (data : Option Bytes) (len : ℕ) (cb : Bool) : Machine :=
  if len = 0 then m
  else
    {m with
      chan := {m.chan with aioReceive := m.chan.aioReceive ++ [⟨m.nextReceive, data, len, 0, cb⟩]}
      nextReceive := m.nextReceive + 1
      received := m.received ++ [.registered m.nextReceive len cb]}

def channelAioReceive (len : ℕ) (cb : Bool) : Machine := enqueueReceive m (some []) len cb

def channelAioFdReceive (len : ℕ) (cb : Bool) : Machine := enqueueReceive m none len cb

def setChannelPollCb (cb : Bool) : Machine :=
  {m with
    chan := {m.chan with pollCb := cb}
    link := {m.link with
      polls := if m.chan.c then cb || !m.chan.aioSend.isEmpty else m.link.polls}}

def setChannelReceiveCb (cb : Bool) : Machine := {m with chan := {m.chan with receiveCb := cb}}

end Calls

section Steps

inductive Call
  | aioSend (data : Bytes) (cb : Bool)
  | aioFdSend (len : ℕ) (cb : Bool)
  | send (data : Bytes)
  | aioReceive (len : ℕ) (cb : Bool)
  | aioFdReceive (len : ℕ) (cb : Bool)
  | setPollCb (cb : Bool)
  | setReceiveCb (cb : Bool)
  | close
  | abort
  deriving DecidableEq

inductive Event
  | call (x : Call)
  /-- The innermost callback returns. -/
  | ret
  /-- The results of reading from and writing to a file. -/
  | read (data : Bytes)
  | wrote (n : ℕ)
  /-- UTCP asks for data, reports an error, delivers data or the end of the stream. -/
  | poll
  | pollError
  | recv (data : Bytes)
  /-- UTCP reports the end of the stream for a node that is destroyed. -/
  | exit
  /-- The connection changes between calls. -/
  | network (state : LinkState) (room : ℕ) (memory : Bool)
  deriving DecidableEq

def runCall : Call → Machine
  | .aioSend data cb => channelAioSend m data cb
  | .aioFdSend len cb => channelAioFdSend m len cb
  | .send data => channelSend m data
  | .aioReceive len cb => channelAioReceive m len cb
  | .aioFdReceive len cb => channelAioFdReceive m len cb
  | .setPollCb cb => setChannelPollCb m cb
  | .setReceiveCb cb => setChannelReceiveCb m cb
  | .close => channelClose m
  | .abort => channelClose m

/-- The application runs, or nothing does. -/
def AtRest : List Frame → Prop
  | .reading _ :: _ => False
  | .writing _ :: _ => False
  | _ => True

instance : DecidablePred AtRest
  | [] => .isTrue trivial
  | .callback _ :: _ => .isTrue trivial
  | .pollCb _ :: _ => .isTrue trivial
  | .receiveCb _ :: _ => .isTrue trivial
  | .reading _ :: _ => .isFalse id
  | .writing _ :: _ => .isFalse id

def resume : Machine :=
  match m.stack with
  | .callback after :: stack => callbackDone {m with stack := stack} after
  | .pollCb _ :: stack => {m with stack := stack}
  | .receiveCb _ :: stack => {m with stack := stack}
  | _ => m

/-- An event that cannot happen changes nothing: a released channel is not called
upon, no channel is closed while a file is read or written, and UTCP calls in only when
nothing runs and the connection is there. -/
def step (ev : Event) : Machine :=
  match ev with
  | .call x => if AtRest m.stack ∧ m.released = 0 then runCall m x else m
  | .ret => resume m
  | .read data =>
    match m.stack with
    | .reading len :: stack => if m.chan.c then readDone {m with stack := stack} len data else m
    | _ => m
  | .wrote n =>
    match m.stack with
    | .writing data :: stack => if m.chan.c then writeDone {m with stack := stack} data n else m
    | _ => m
  | .poll =>
    if m.stack = [] ∧ m.chan.c ∧ m.link.polls ∧ sndbufFree m.link ≠ 0 then
      channelPoll m (sndbufFree m.link)
    else m
  | .pollError => if m.stack = [] ∧ m.chan.c ∧ m.link.polls then channelPoll m 0 else m
  | .recv data => if m.stack = [] ∧ m.chan.c then channelRecv m data else m
  | .exit => if m.stack = [] ∧ m.chan.c then channelClose m else m
  | .network state room memory =>
    if m.stack = [] then
      {m with link := {m.link with state := state, room := room, memory := memory}}
    else m

def run (evs : List Event) : Machine := evs.foldl step m

/-- A new channel to a node, over a connection with room for some bytes. -/
def newChannel (room : ℕ) : Machine where
  chan := ⟨true, false, [], [], false, false⟩
  link := ⟨.sending, room, room, false, true, false⟩
  stack := []
  released := 0
  fault := false
  nextSend := 0
  nextReceive := 0
  sent := []
  received := []

end Steps

end Meshlink.Channels
