import Meshlink.UtcpState

/-!
Timers and round-trip times of a connection. A deadline whose seconds are
zero counts as not set, as in the source. Clock values are passed in by the
caller; sums of a clock value and the user timeout are not normalised.
-/
namespace Meshlink.UtcpTimers

open UtcpState

def timespecSub (a b : Timespec) : Timespec :=
  if a.nsec - b.nsec < 0 then ⟨a.sec - b.sec - 1, a.nsec - b.nsec + nsecPerSec⟩
  else ⟨a.sec - b.sec, a.nsec - b.nsec⟩

/-- The difference in microseconds, cut to 32 bits. -/
def timespecDiffUsec (a b : Timespec) : UInt32 :=
  UInt32.ofInt ((a.sec - b.sec) * 1000000 + (a.nsec - b.nsec).tdiv 1000)

def timespecLt (a b : Timespec) : Bool :=
  if a.sec = b.sec then decide (a.nsec < b.nsec) else decide (a.sec < b.sec)

def timespecClear : Timespec := ⟨0, 0⟩

def timespecIsset (a : Timespec) : Bool := decide (a.sec ≠ 0)

def absdiff (a b : UInt32) : UInt32 := if a > b then a - b else b - a

def updateRtt (granularity : ℕ) (c : Conn) (rtt : UInt32) : Conn :=
  if rtt = 0 then c
  else
    let rttvar := if c.srtt = 0 then rtt / 2 else (c.rttvar * 3 + absdiff c.srtt rtt) / 4
    let srtt := if c.srtt = 0 then rtt else (c.srtt * 7 + rtt) / 8
    let rto := srtt + UInt32.ofNat (max (4 * rttvar).toNat granularity)
    { c with srtt := srtt, rttvar := rttvar, rto := if rto > maxRto then maxRto else rto }

/-- The loop that moves whole seconds of the timeout into the deadline. -/
def carrySeconds : ℕ → Int → ℕ → Int × ℕ
  | 0, sec, rto => (sec, rto)
  | fuel + 1, sec, rto =>
      if rto > usecPerSec then carrySeconds fuel (sec + 1) (rto - usecPerSec) else (sec, rto)

def retransmitDeadline (now : Timespec) (rto : UInt32) : Timespec :=
  let carried := carrySeconds rto.toNat now.sec rto.toNat
  let nsec := now.nsec + (carried.2 * 1000 : ℕ)
  if nsec ≥ nsecPerSec then ⟨carried.1 + 1, nsec - nsecPerSec⟩ else ⟨carried.1, nsec⟩

def startRetransmitTimer (c : Conn) (now : Timespec) : Conn :=
  { c with rtrxTimeout := retransmitDeadline now c.rto }

def stopRetransmitTimer (c : Conn) : Conn := { c with rtrxTimeout := timespecClear }

/-- `clock_gettime(UTCP_CLOCK, &c->conn_timeout); c->conn_timeout.tv_sec += utcp->timeout`. -/
def startConnTimer (u : Utcp) (c : Conn) (now : Timespec) : Conn :=
  { c with connTimeout := ⟨now.sec + u.timeout, now.nsec⟩ }

def setState (c : Conn) (state : State) : Conn :=
  { c with
    state := state
    connTimeout := if state = .established then timespecClear else c.connTimeout }

/-- Clocks that have passed their first second. -/
def Env.ClockRuns (e : Env) : Prop := ∀ i, 0 < (e.clk i).sec

theorem carrySeconds_ge (fuel : ℕ) (sec : Int) (rto : ℕ) : sec ≤ (carrySeconds fuel sec rto).1 := by
  induction fuel generalizing sec rto with
  | zero => exact Int.le_refl sec
  | succ fuel ih =>
    simp only [carrySeconds]
    split
    · have := ih (sec + 1) (rto - usecPerSec)
      omega
    · exact Int.le_refl sec

/-- Starting the retransmission timer sets it once the clock has passed its first second. -/
theorem retransmitDeadline_isset (now : Timespec) (rto : UInt32) (h : 0 < now.sec) :
    timespecIsset (retransmitDeadline now rto) = true := by
  have hge := carrySeconds_ge rto.toNat now.sec rto.toNat
  unfold timespecIsset retransmitDeadline
  apply decide_eq_true
  dsimp only
  split
  · dsimp only
    omega
  · dsimp only
    omega

end Meshlink.UtcpTimers
