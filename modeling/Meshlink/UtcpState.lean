import Meshlink.SerialNumbers
import Meshlink.UtcpBuffer
import Meshlink.Handles

/-!
The data of utcp.c and utcp_priv.h: packets, connections, the endpoint, and
the inputs it does not compute itself (clock readings, allocations, random
numbers). A connection pointer is a handle; 0 is the null pointer. Everything
an endpoint does that its application or its peer can see, and the state in
which each call found the connection, is recorded as an event.
-/
namespace Meshlink.UtcpState

open SerialNumbers UtcpBuffer

inductive State
  | closed
  | listen
  | synSent
  | synReceived
  | established
  | finWait1
  | finWait2
  | closeWait
  | closing
  | lastAck
  | timeWait
  deriving DecidableEq

/-- The value of the enumerator in the source. -/
def State.rank : State → ℕ
  | .closed => 0
  | .listen => 1
  | .synSent => 2
  | .synReceived => 3
  | .established => 4
  | .finWait1 => 5
  | .finWait2 => 6
  | .closeWait => 7
  | .closing => 8
  | .lastAck => 9
  | .timeWait => 10

/-- The bits of a packet's ctl field; `other` is any bit beyond the five known ones. -/
structure Ctl where
  syn : Bool := false
  ack : Bool := false
  fin : Bool := false
  rst : Bool := false
  mf : Bool := false
  other : Bool := false
  deriving DecidableEq

structure Hdr where
  src : UInt16
  dst : UInt16
  seq : UInt32
  ack : UInt32
  wnd : UInt32
  ctl : Ctl
  aux : UInt16
  deriving DecidableEq

structure Packet where
  hdr : Hdr
  body : List UInt8
  deriving DecidableEq

/-- The four bytes of an init header. -/
structure Init where
  version : UInt8
  b1 : UInt8
  b2 : UInt8
  flags : UInt8
  deriving DecidableEq

/-- A packet inside utcp_recv: its header and payload as they have been rewritten so far. -/
structure Incoming where
  hdr : Hdr
  data : List UInt8
  init : Option Init

inductive Errno
  | unset
  | zero
  | efault
  | ebadmsg
  | ebadf
  | enotconn
  | epipe
  | emsgsize
  | ewouldblock
  | einval
  | econnrefused
  | econnreset
  | etimedout
  deriving DecidableEq

/-- A return value together with what the call stored in errno. -/
structure Ret where
  value : Int
  errno : Errno := .unset
  deriving DecidableEq

inductive Dir
  | rd
  | wr
  | rdwr
  | invalid
  deriving DecidableEq

structure Timespec where
  sec : Int
  nsec : Int
  deriving DecidableEq

structure Sack where
  offset : ℕ
  len : ℕ
  deriving DecidableEq

def nsacks : ℕ := 4
def maxUnreliableSize : ℕ := 16777215
def hdrSize : ℕ := 20
def defaultMtu : ℕ := 1000
def usecPerSec : ℕ := 1000000
def nsecPerSec : ℕ := 1000000000
def defaultUserTimeout : Int := 60
def startRto : UInt32 := 1000000
def maxRto : UInt32 := 3000000

structure Conn where
  flags : UInt32
  reapable : Bool
  doPoll : Bool
  recv : Bool
  poll : Bool
  src : UInt16
  dst : UInt16
  state : State
  sndUna : UInt32
  sndNxt : UInt32
  sndWnd : UInt32
  sndIss : UInt32
  sndLast : UInt32
  sndCwnd : UInt32
  sndSsthresh : UInt32
  rcvNxt : UInt32
  rcvIrs : UInt32
  dupack : ℕ
  connTimeout : Timespec
  rtrxTimeout : Timespec
  rttStart : Timespec
  rttSeq : UInt32
  srtt : UInt32
  rttvar : UInt32
  rto : UInt32
  sndbuf : Buffer
  rcvbuf : Buffer
  sacks : List Sack
  shutWr : Bool

def utcpReliable : UInt32 := 2
def utcpNoPartial : UInt32 := 16
def utcpTcp : UInt32 := 3
def utcpChangeableFlags : UInt32 := 0x18

def isReliable (c : Conn) : Bool := decide (c.flags &&& utcpReliable ≠ 0)

def seqdiff (a b : UInt32) : Int := distance a b

/-- What one call reads from outside, by program point: clocks, allocations, random numbers. -/
structure Env where
  clk : ℕ → Timespec
  alloc : ℕ → Alloc
  rand : ℕ → UInt32

/-- The calls an application makes on one connection. -/
inductive Op
  | send (data : Option (List UInt8))
  | shutdown (dir : Dir)
  | close
  | abort
  | accept (installed : Bool)
  | setSndbuf (storage : Option (ℕ → UInt8)) (size : ℕ)
  | setRcvbuf (storage : Option (ℕ → UInt8)) (size : ℕ)
  | setRecvCb (installed : Bool)
  | setPollCb (installed : Bool)
  | expectData (expect : Bool)
  | setFlags (flags : UInt32)

/-- Events on one connection. The last group records the state in which a
piece of code found the connection, for statements about the steps of a run. -/
inductive Ev
  | control (p : Packet)
  | segment (p : Packet)
  | recv (data : List UInt8)
  | recvNull (errno : Errno)
  | poll (len : ℕ)
  | acceptCb
  | accepted (data : List UInt8)
  | ret (op : Op) (r : Ret)
  | fin
  | call (c : Conn) (op : Op) (e : Env)
  | opened (c : Conn)
  | arrive (c : Conn) (i : Incoming)
  | answered (c : Conn) (i : Incoming)
  | inOrder (c : Conn) (data : List UInt8)
  | half (before after : Buffer)
  | reply (c : Conn)
  | rtrx (c : Conn)

theorem defaultMss_pos : 0 < defaultMtu - hdrSize := by decide

theorem defaultMss_lt : defaultMtu - hdrSize < 65536 := by decide

/-- An endpoint. `utcp_set_mtu` refuses an MTU that leaves no room for data, so
the segment size is never zero. -/
structure Utcp where
  accept : Bool
  listen : Bool
  retransmit : Bool
  pkt : ℕ → UInt8
  mtu : ℕ
  mss : ℕ
  timeout : Int
  clockGranularity : ℕ
  connections : List (ℕ × Conn)
  nallocated : ℕ
  nextHandle : ℕ
  mss_pos : 0 < mss
  mss_lt : mss < 65536

/-- A stretch of code that runs without calling back: the connection, the packet
buffer and the events it leaves behind, and the value it computes. -/
structure Step (α : Type) where
  conn : Conn
  pkt : ℕ → UInt8
  events : List Ev
  value : α

end Meshlink.UtcpState
