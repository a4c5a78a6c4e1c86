import Meshlink.UtcpSender

/-!
The receiving half of utcp.c up to the first callback: auxiliary headers, the
SACK table, and the part of utcp_recv that trims a segment, handles RST, ACK
and SYN and sets the timers. Its outcome is a verdict that says how utcp_recv
goes on, together with the header and payload as they have been rewritten.
-/
namespace Meshlink.UtcpReceiver

open SerialNumbers UtcpBuffer UtcpState UtcpTimers UtcpSender

variable (u : Utcp) (e : Env) (c : Conn) (i : Incoming)

/-- The loop over auxiliary headers. Only an init header of four bytes on a SYN
passes; another header follows when bit 11 is set. `none` is EBADMSG. -/
def parseAux (syn : Bool) : ℕ → UInt16 → List UInt8 → Option Init →
    Option (Option Init × List UInt8)
  | 0, _, _, _ => none
  | fuel + 1, aux, body, init =>
      if aux = 0 then some (init, body)
      else if (4 * (aux.toNat >>> 8)) &&& 0xf ≠ 4 ∨ aux &&& 0xff ≠ 1 ∨ syn = false then none
      else
        match body with
        | version :: b1 :: b2 :: flags :: rest =>
            let init := some ⟨version, b1, b2, flags⟩
            if aux &&& 0x800 = 0 then some (init, rest)
            else
              match rest with
              | low :: high :: rest =>
                  parseAux syn fuel (low.toUInt16 ||| (high.toUInt16 <<< 8)) rest init
              | _ => none
        | _ => none

/-- A packet as utcp_recv sees it after its headers; `none` is EBADMSG. -/
def parsePacket (p : Packet) : Option Incoming :=
  if p.hdr.ctl.other then none
  else
    match parseAux p.hdr.ctl.syn (p.body.length + 1) p.hdr.aux p.body none with
    | none => none
    | some (init, data) => some ⟨p.hdr, data, init⟩

/-- The loop of sack_consume, on the entries from the current index on. -/
def sackConsumeFrom (len : ℕ) : ℕ → List Sack → List Sack
  | 0, sacks => sacks
  | _ + 1, [] => []
  | fuel + 1, s :: rest =>
      if s.len = 0 then s :: rest
      else if len < s.offset then
        { s with offset := s.offset - len } :: sackConsumeFrom len fuel rest
      else if len < s.offset + s.len then
        ⟨0, s.len - (len - s.offset)⟩ :: sackConsumeFrom len fuel rest
      else
        match rest.getLast? with
        | some last => sackConsumeFrom len fuel (rest ++ [{ last with len := 0 }])
        | none => [{ s with len := 0 }]

/-- Only the first entry is cleared when more is consumed than is stored. -/
def sackConsume (len : ℕ) : Conn :=
  if c.rcvbuf.used < len then
    { c with sacks := c.sacks.modifyHead fun s => { s with len := 0 } }
  else
    { c with
      rcvbuf := bufferDiscard c.rcvbuf len
      sacks := sackConsumeFrom len (2 * nsacks) c.sacks }

/-- The loop of handle_out_of_order; `full` says that the last entry is in use. -/
def noteSack (full : Bool) (offset rxd : ℕ) : List Sack → List Sack
  | [] => []
  | s :: rest =>
      if s.len = 0 then ⟨offset, rxd⟩ :: rest
      else if offset < s.offset then
        if offset + rxd < s.offset then
          if full then s :: rest else ⟨offset, rxd⟩ :: (s :: rest).dropLast
        else { s with offset := offset } :: rest
      else if offset ≤ s.offset + s.len then
        if s.offset + s.len < offset + rxd then
          { s with len := offset + rxd - s.offset } :: rest
        else s :: rest
      else s :: noteSack full offset rxd rest

def sacksFull (sacks : List Sack) : Bool :=
  match sacks.getLast? with
  | some s => decide (s.len ≠ 0)
  | none => false

def handleOutOfOrder (offset : ℕ) (data : List UInt8) : Option Conn :=
  match bufferPutAt c.rcvbuf offset data (e.alloc 3) with
  | none => none
  | some (rxd, buf) =>
      if rxd ≤ 0 then some { c with rcvbuf := buf }
      else some { c with
        rcvbuf := buf
        sacks := noteSack (sacksFull c.sacks) offset rxd.toNat c.sacks }

/-- Step 1b: cut what was already accepted. The flag says whether the segment is acceptable. -/
def trim : Incoming × Bool :=
  let offset := seqdiff i.hdr.seq c.rcvNxt
  if isReliable c = false ∨ c.state = .synSent then (i, true)
  else if i.data = [] then (i, decide (0 ≤ offset))
  else if offset < 0 then
    if (-offset).toNat < i.data.length then
      ({ i with
          hdr := { i.hdr with seq := i.hdr.seq - UInt32.ofInt offset }
          data := i.data.drop (-offset).toNat }, true)
    else (i, false)
  else (i, decide (offset.toNat + i.data.length ≤ c.rcvbuf.maxsize))

/-- How utcp_recv goes on after the part without callbacks. -/
inductive Verdict
  | ignore
  | reset
  | refused
  | aborted
  | free
  | synack
  | proceed (advanced : UInt32)
  deriving DecidableEq

/-- Step 2, for a packet with RST set; `none` when the switch falls through. -/
def handleRst (hasAck : Bool) : Option (Conn × Verdict) :=
  match c.state with
  | .synSent => if hasAck then some (setState c .closed, .refused) else some (c, .ignore)
  | .synReceived => if hasAck then some (c, .ignore) else some (c, .free)
  | .established | .finWait1 | .finWait2 | .closeWait =>
      if hasAck then some (c, .ignore)
      else
        some ({ setState c .closed with
          sndbuf := bufferClear c.sndbuf, rcvbuf := bufferClear c.rcvbuf }, .aborted)
  | .closing | .lastAck | .timeWait =>
      if hasAck then some (c, .ignore)
      else if c.reapable then some (c, .free)
      else some (setState c .closed, .ignore)
  | .closed | .listen => none

/-- The round-trip measurement that ends with the segment just acknowledged. -/
def measureRtt (ackno : UInt32) : Conn :=
  if c.rttStart.sec = 0 then c
  else if c.rttSeq = ackno then
    let c := updateRtt u.clockGranularity c (timespecDiffUsec (e.clk 3) c.rttStart)
    { c with rttStart := { c.rttStart with sec := 0 } }
  else if c.rttSeq < ackno then { c with rttStart := { c.rttStart with sec := 0 } }
  else c

/-- The congestion window never exceeds the send buffer. -/
def capCwnd (cwnd : UInt32) : UInt32 :=
  if c.sndbuf.maxsize < cwnd.toNat then UInt32.ofNat c.sndbuf.maxsize else cwnd

/-- Leaving fast recovery, then the growth of RFC 5681; `none` is a division by zero. -/
def growCwnd (advanced : UInt32) : Option Conn :=
  let cwnd := if c.dupack ≥ 3 then c.sndSsthresh else c.sndCwnd
  if cwnd < c.sndSsthresh then
    let grown := cwnd + UInt32.ofNat (min advanced.toNat u.mss)
    some { c with dupack := 0, sndCwnd := capCwnd c grown }
  else if cwnd = 0 then none
  else
    let grown := cwnd + max 1 (UInt32.ofNat (u.mss * u.mss) / cwnd)
    some { c with dupack := 0, sndCwnd := capCwnd c grown }

/-- A FIN of ours that is now acknowledged. -/
def finAcked : Conn :=
  if c.sndUna ≠ c.sndLast then c
  else
    match c.state with
    | .finWait1 => setState c .finWait2
    | .closing => setState (startConnTimer u c (e.clk 4)) .timeWait
    | _ => c

/-- How much data an acknowledgement covers: SYN takes one sequence number that is
not in the send buffer. -/
def dataAcked (advanced : UInt32) : Int :=
  if c.state = .synSent ∨ c.state = .synReceived then signed advanced - 1 else signed advanced

/-- Drop acknowledged data from the send buffer and move snd.una. -/
def discardAcked (acked : Int) (ackno : UInt32) : Conn :=
  { c with
    sndbuf := if acked = 0 then c.sndbuf else bufferDiscard c.sndbuf acked.toNat
    doPoll := if acked = 0 then c.doPoll else c.doPoll || isReliable c
    sndNxt := if seqdiff c.sndNxt ackno < 0 then ackno else c.sndNxt
    sndUna := ackno }

/-- Step 3 when the acknowledgement advances snd.una, with its two assertions. -/
def advanceUna (ackno advanced : UInt32) : Option Conn :=
  let c := measureRtt u e c ackno
  let acked := dataAcked c advanced
  if acked < 0 ∨ seqdiff c.sndLast c.sndUna < acked then none
  else (growCwnd u (discardAcked c acked ackno) advanced).map (finAcked u e)

/-- Step 3 for an acknowledgement that does not advance snd.una. -/
def duplicateAck (empty : Bool) : Option (Step Unit) :=
  if empty = false ∨ isReliable c = false ∨ c.sndUna = c.sndLast then some ⟨c, u.pkt, [], ()⟩
  else
    let c := { c with dupack := c.dupack + 1 }
    if c.dupack = 3 then
      let ssthresh := max ((c.sndNxt - c.sndUna) / 2) (UInt32.ofNat (u.mss * 2))
      let cwnd := min (ssthresh.toNat + 3 * u.mss) c.sndbuf.maxsize
      let c := { c with sndSsthresh := ssthresh, sndCwnd := UInt32.ofNat cwnd }
      (fastRetransmit u c).map fun r => ⟨startRetransmitTimer c (e.clk 5), r.1, r.2, ()⟩
    else
      let c :=
        if c.dupack > 3 then { c with sndCwnd := capCwnd c (c.sndCwnd + UInt32.ofNat u.mss) }
        else c
      some ⟨startRetransmitTimer c (e.clk 5), u.pkt, [], ()⟩

/-- Step 4. -/
def updateTimers : Conn :=
  if c.sndUna = c.sndLast then { stopRetransmitTimer c with connTimeout := timespecClear }
  else if isReliable c then startConnTimer u (startRetransmitTimer c (e.clk 6)) (e.clk 7)
  else c

/-- Steps 3 and 4 for a packet with ACK set. -/
def handleAck : Option (Step (Option UInt32)) :=
  let ackno := i.hdr.ack
  if seqdiff ackno c.sndLast > 0 ∨ seqdiff ackno c.sndUna < 0 then some ⟨c, u.pkt, [], none⟩
  else
    let advanced := ackno - c.sndUna
    if advanced = 0 then
      (duplicateAck u e c i.data.isEmpty).map fun s => ⟨s.conn, s.pkt, s.events, some 0⟩
    else
      (advanceUna u e c ackno advanced).map fun c =>
        ⟨updateTimers u e c, u.pkt, [], some advanced⟩

/-- Step 5. -/
def handleSyn (advanced : UInt32) : Conn × Verdict :=
  if i.hdr.ctl.syn = false then (c, .proceed advanced)
  else
    match c.state with
    | .synSent =>
        if advanced = 0 then (c, .reset)
        else
          let c := { c with rcvIrs := i.hdr.seq, rcvNxt := i.hdr.seq + 1 }
          if c.shutWr then
            (setState { c with sndLast := c.sndLast + 1 } .finWait1, .proceed advanced)
          else (setState { c with doPoll := true } .established, .proceed advanced)
    | .synReceived => (c, .synack)
    | .closed | .listen => (c, .ignore)
    | _ => (c, .proceed advanced)

/-- Steps 3 to 5, after RST packets have been dealt with. -/
def acknowledge : Option (Step (Incoming × Verdict)) :=
  if i.hdr.ctl.ack then
    (handleAck u e c i).map fun s =>
      match s.value with
      | none => ⟨s.conn, s.pkt, s.events, (i, .reset)⟩
      | some advanced =>
          let r := handleSyn s.conn i advanced
          ⟨r.1, s.pkt, s.events, (i, r.2)⟩
  else
    let r := handleSyn c i 0
    some ⟨r.1, u.pkt, [], (i, r.2)⟩

/-- Step 1c: an unreliable connection takes only an acknowledgement of everything. -/
def checkAck : Incoming :=
  if isReliable c = false ∧ i.hdr.ack ≠ c.sndLast ∧ State.rank .established ≤ c.state.rank then
    { i with hdr := { i.hdr with ack := c.sndUna } }
  else i

/-- The segment after steps 1b and 1c; one that is not acceptable loses its payload. -/
def trimmedSegment : Incoming :=
  let t := trim c i
  checkAck c (if t.2 then t.1 else { t.1 with data := [] })

/-- Step 2, then steps 3 to 5 unless a RST has settled the matter. -/
def dispatch : Option (Step (Incoming × Verdict)) :=
  match (if i.hdr.ctl.rst then handleRst c i.hdr.ctl.ack else none) with
  | some r => some ⟨r.1, u.pkt, [], (i, r.2)⟩
  | none => acknowledge u e c i

/-- utcp_recv on a connection, from its check for CLOSED to the end of step 5. -/
def arrive : Option (Step (Incoming × Verdict)) :=
  if c.state = .closed then some ⟨c, u.pkt, [.arrive c i], (i, .reset)⟩
  else if (trim c i).2 = false ∧ i.hdr.ctl.rst = true then
    some ⟨c, u.pkt, [.arrive c i], (i, .ignore)⟩
  else
    (dispatch u e { c with sndWnd := i.hdr.wnd } (trimmedSegment c i)).map fun s =>
      { s with events := .arrive c i :: s.events }

/-- The label synack: answer a SYN and wait for the ACK. -/
def synack : Step Unit :=
  let c' := setState { c with
    sndWnd := i.hdr.wnd, rcvIrs := i.hdr.seq, rcvNxt := i.hdr.seq + 1 } .synReceived
  let aux := if i.init.isSome then 0x0101 else 0
  let body := if i.init.isSome then initBytes c'.flags else []
  let hdr : Hdr := ⟨c'.src, c'.dst, c'.sndIss, c'.rcvIrs + 1, UInt32.ofNat c'.rcvbuf.maxsize,
    { syn := true, ack := true }, aux⟩
  ⟨startRetransmitTimer c' (e.clk 8), u.pkt, [.answered c i, .control ⟨hdr, body⟩], ()⟩

/-- The label reset; `len` is the length utcp_recv has counted by then. -/
def resetPacket (hdr : Hdr) (len : ℕ) : Packet :=
  if hdr.ctl.ack then ⟨⟨hdr.dst, hdr.src, hdr.ack, hdr.ack, 0, { rst := true }, 0⟩, []⟩
  else ⟨⟨hdr.dst, hdr.src, 0, hdr.seq + UInt32.ofNat len, 0, { rst := true, ack := true }, 0⟩, []⟩

end Meshlink.UtcpReceiver
