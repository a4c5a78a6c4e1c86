import Meshlink.CallPieces
import Meshlink.ConnectionTable

/-!
The congestion window. What utcp_recv and retransmit do to it depends on four numbers
of the connection, on the segment size and on the amounts sent and acknowledged, so
it is described on these numbers alone; the code on a connection refines that
description. Sums and products are then compared with the ranges of their C types:
the square of the segment size is computed as an int, and sums of the window and the
segment size as a uint32_t.
-/
namespace Meshlink.CongestionWindow

open UtcpState UtcpTimers UtcpSender UtcpReceiver UtcpEndpoint
open UtcpProcess SenderFacts SenderMoves Arrivals ControlFacts CallPieces Systems ConnectionTable
open SendAtomicity (sampleEnv sampleUtcp)

/-- The numbers that say how much may be sent. -/
structure Pace where
  cwnd : UInt32
  ssthresh : UInt32
  dupack : ℕ
  maxsize : ℕ
  deriving DecidableEq

def pace (c : Conn) : Pace := ⟨c.sndCwnd, c.sndSsthresh, c.dupack, c.sndbuf.maxsize⟩

namespace Pace

variable (mss : ℕ) (p : Pace)

def cap (cwnd : UInt32) : UInt32 :=
  if p.maxsize < cwnd.toNat then UInt32.ofNat p.maxsize else cwnd

/-- The window from which it grows: fast recovery ends first. -/
def recovered : UInt32 := if p.dupack ≥ 3 then p.ssthresh else p.cwnd

/-- Something new is acknowledged. -/
def grown (advanced : UInt32) : Option Pace :=
  if p.recovered < p.ssthresh then
    some { p with
      dupack := 0
      cwnd := p.cap (p.recovered + UInt32.ofNat (min advanced.toNat mss)) }
  else if p.recovered = 0 then none
  else some { p with
    dupack := 0
    cwnd := p.cap (p.recovered + max 1 (UInt32.ofNat (mss * mss) / p.recovered)) }

def halved (flight : UInt32) : UInt32 := max (flight / 2) (UInt32.ofNat (mss * 2))

/-- One more duplicate acknowledgement; the third starts fast recovery. -/
def duplicated (flight : UInt32) : Pace :=
  if p.dupack + 1 = 3 then
    { p with
      dupack := p.dupack + 1
      ssthresh := halved mss flight
      cwnd := UInt32.ofNat (min ((halved mss flight).toNat + 3 * mss) p.maxsize) }
  else
    { p with
      dupack := p.dupack + 1
      cwnd := if p.dupack + 1 > 3 then p.cap (p.cwnd + UInt32.ofNat mss) else p.cwnd }

/-- The retransmission timer has run out with data on its way. -/
def timedOut (flight : UInt32) : Pace :=
  { p with dupack := 0, ssthresh := halved mss flight, cwnd := UInt32.ofNat mss }

/-- What a packet does. -/
inductive Received : Pace → Prop
  | kept : Received p
  | duplicate (flight : UInt32) : Received (p.duplicated mss flight)
  | advance (advanced : UInt32) (p' : Pace) (h : p.grown mss advanced = some p') : Received p'

/-- What a retransmission does; a SYN is sent again without regard to the window. -/
inductive Resent : Pace → Prop
  | kept : Resent p
  | syn : Resent { p with dupack := 0 }
  | data (flight : UInt32) : Resent (p.timedOut mss flight)

end Pace

section Refinement

variable {u : Utcp} {e : Env} {c c' : Conn}

theorem growCwnd_pace (u : Utcp) (c : Conn) (advanced : UInt32) :
    (growCwnd u c advanced).map pace = (pace c).grown u.mss advanced := by
  unfold growCwnd
  rw [apply_ite (Option.map pace), apply_ite (Option.map pace)]
  rfl

theorem duplicateAck_pace {empty : Bool} {t : Step Unit} (h : duplicateAck u e c empty = some t) :
    pace t.conn = pace c ∨
      pace t.conn = (pace c).duplicated u.mss (c.sndNxt - c.sndUna) := by
  simp only [duplicateAck] at h
  split at h
  · cases h
    exact .inl rfl
  refine .inr ?_
  unfold Pace.duplicated
  split at h
  case isTrue hthird =>
    obtain ⟨r, -, rfl⟩ := Option.map_eq_some_iff.mp h
    exact (if_pos hthird).symm
  case isFalse hthird =>
    cases h
    refine Eq.trans ?_ (if_neg hthird).symm
    by_cases hmore : c.dupack + 1 > 3
    · rw [if_pos hmore, if_pos (by exact hmore)]
      rfl
    · rw [if_neg hmore, if_neg (by exact hmore)]
      rfl

theorem measureRtt_pace (ackno : UInt32) : pace (measureRtt u e c ackno) = pace c := by
  obtain ⟨_, _, _, _, heq⟩ := measureRtt_eq u e c ackno
  rw [heq]
  rfl

theorem discardAcked_pace (acked : Int) (ackno : UInt32) :
    pace (discardAcked c acked ackno) = pace c := by
  unfold discardAcked pace
  dsimp only
  split <;> rfl

theorem finAcked_pace : pace (finAcked u e c) = pace c := by
  rcases finAcked_cases u e c with heq | ⟨-, ⟨-, heq⟩ | ⟨-, heq⟩⟩
  · rw [heq]
  · rw [heq]
    rfl
  · rw [heq]
    rfl

theorem advanceUna_pace {ackno advanced : UInt32} (h : advanceUna u e c ackno advanced = some c') :
    (pace c).grown u.mss advanced = some (pace c') := by
  simp only [advanceUna] at h
  split at h
  · cases h
  obtain ⟨g, hg, rfl⟩ := Option.map_eq_some_iff.mp h
  have hgrown := growCwnd_pace u _ advanced ▸ congrArg (Option.map pace) hg
  rw [discardAcked_pace, measureRtt_pace] at hgrown
  rw [finAcked_pace]
  exact hgrown

theorem updateTimers_pace : pace (updateTimers u e c) = pace c := by
  obtain ⟨conn, rtrx, heq⟩ := updateTimers_eq u e c
  rw [heq]
  rfl

theorem handleSyn_pace (c : Conn) (i : Incoming) (advanced : UInt32) :
    pace (handleSyn c i advanced).1 = pace c := by
  rcases handleSyn_cases c i advanced with heq | ⟨-, -, -, heq⟩
  · rw [heq]
  · rw [heq]
    split <;> rfl

theorem acknowledged_pace {i : Incoming} {t : Step (Option UInt32)}
    (h : Acknowledged u e c i t) : Pace.Received u.mss (pace c) (pace t.conn) := by
  cases h with
  | refused => exact .kept
  | duplicate t' _ ht' =>
    rcases duplicateAck_pace ht' with heq | heq
    · rw [heq]
      exact .kept
    · rw [heq]
      exact .duplicate _
  | advances c' _ _ hc' =>
    rw [updateTimers_pace]
    exact .advance _ _ (advanceUna_pace hc')

/-- Everything that a packet does to the window. -/
theorem arrive_pace {i : Incoming} {s : Step (Incoming × Verdict)} (h : arrive u e c i = some s) :
    Pace.Received u.mss (pace c) (pace s.conn) := by
  cases arrive_cases u e c i s h with
  | closed | stray => exact .kept
  | reset r _ _ hr =>
    dsimp only
    rcases handleRst_cases _ _ _ hr with heq | heq | heq
    all_goals
      rw [heq]
      exact .kept
  | unacked =>
    dsimp only
    rw [handleSyn_pace]
    exact .kept
  | refused t _ _ ht _ => exact (acknowledged_pace ht :)
  | acked t advanced _ _ _ ht _ =>
    dsimp only
    rw [handleSyn_pace]
    exact (acknowledged_pace ht :)

/-- Everything that a retransmission does to the window. -/
theorem retransmitSend_pace {s : Step Unit} (h : retransmitSend u e c = some s) :
    Pace.Resent u.mss (pace c) (pace s.conn) := by
  unfold retransmitSend at h
  split at h
  all_goals first
    | (obtain ⟨seg, -, rfl⟩ := Option.map_eq_some_iff.mp h
       exact .data (c.sndNxt - c.sndUna))
    | (cases h
       exact .syn)
    | (cases h
       exact .kept)

end Refinement

namespace Pace

section Bounds

variable {mss : ℕ} {p p' : Pace} {flight advanced : UInt32}

/-- The results on the way to a larger window fit in their types, and the division is
one by something. -/
def GrowthFits (mss : ℕ) (p : Pace) (advanced : UInt32) : Prop :=
  if p.recovered < p.ssthresh then p.recovered.toNat + min advanced.toNat mss < 2 ^ 32
  else p.recovered.toNat ≠ 0 ∧ mss * mss < 2 ^ 31 ∧
    p.recovered.toNat + max 1 (mss * mss / p.recovered.toNat) < 2 ^ 32

def DuplicateFits (mss : ℕ) (p : Pace) (flight : UInt32) : Prop :=
  (p.dupack + 1 = 3 → (halved mss flight).toNat + 3 * mss < 2 ^ 32) ∧
    (p.dupack + 1 > 3 → p.cwnd.toNat + mss < 2 ^ 32)

/-- The threshold is not 0, and has been set in fast recovery; the window is within the
send buffer. -/
structure Safe (p : Pace) : Prop where
  positive : 0 < p.ssthresh.toNat
  recovery : 3 ≤ p.dupack → p.ssthresh.toNat < 2 ^ 31
  capped : p.cwnd.toNat ≤ p.maxsize

theorem toNat_max (a b : UInt32) : (max a b).toNat = max a.toNat b.toNat := by
  change (if a ≤ b then b else a).toNat = _
  split
  case isTrue h =>
    rw [UInt32.le_iff_toNat_le] at h
    omega
  case isFalse h =>
    rw [UInt32.le_iff_toNat_le] at h
    omega

theorem toNat_halved (flight : UInt32) (hmss : mss < 65536) :
    (halved mss flight).toNat = max (flight.toNat / 2) (mss * 2) := by
  unfold halved
  rw [toNat_max, UInt32.toNat_div, UInt32.toNat_ofNat_of_lt' (by change mss * 2 < 2 ^ 32; omega)]
  rfl

theorem cap_le (cwnd : UInt32) : (p.cap cwnd).toNat ≤ p.maxsize := by
  have hlt := cwnd.toNat_lt
  unfold cap
  split
  case isTrue h =>
    rw [UInt32.toNat_ofNat_of_lt' (by change p.maxsize < 2 ^ 32; omega)]
  case isFalse h => omega

theorem Safe.grown (hp : p.Safe) (h : p.grown mss advanced = some p') : p'.Safe := by
  unfold Pace.grown at h
  split at h
  · cases h
    exact ⟨hp.positive, fun (h : 3 ≤ 0) => absurd h (by decide), cap_le _⟩
  split at h
  · cases h
  · cases h
    exact ⟨hp.positive, fun (h : 3 ≤ 0) => absurd h (by decide), cap_le _⟩

theorem Safe.duplicated (hp : p.Safe) (hpos : 0 < mss) (hmss : mss < 65536) :
    (p.duplicated mss flight).Safe := by
  have hhalved := toNat_halved flight hmss
  have hflight := flight.toNat_lt
  unfold Pace.duplicated
  split
  · refine ⟨?_, fun _ => ?_, ?_⟩
    · change 0 < (halved mss flight).toNat
      omega
    · change (halved mss flight).toNat < 2 ^ 31
      omega
    · change (UInt32.ofNat _).toNat ≤ p.maxsize
      rw [UInt32.toNat_ofNat_of_lt' (by change min _ _ < 2 ^ 32; omega)]
      exact Nat.min_le_right _ _
  case isFalse hthird =>
    refine ⟨hp.positive, fun h => hp.recovery ?_, ?_⟩
    · change 3 ≤ p.dupack + 1 at h
      omega
    dsimp only
    split
    · exact cap_le _
    · exact hp.capped

theorem Safe.received (hp : p.Safe) (hpos : 0 < mss) (hmss : mss < 65536)
    (h : Received mss p p') : p'.Safe := by
  cases h with
  | kept => exact hp
  | duplicate flight => exact hp.duplicated hpos hmss
  | advance advanced _ h => exact hp.grown h

/-- After a timeout the window is one segment, which has to fit in the send buffer. -/
theorem Safe.resent (hp : p.Safe) (hpos : 0 < mss) (hmss : mss < 65536)
    (hroom : mss ≤ p.maxsize) (h : Resent mss p p') : p'.Safe := by
  cases h with
  | kept => exact hp
  | syn => exact ⟨hp.positive, fun (h : 3 ≤ 0) => absurd h (by decide), hp.capped⟩
  | data flight =>
    have hhalved := toNat_halved flight hmss
    refine ⟨?_, fun (h : 3 ≤ 0) => absurd h (by decide), ?_⟩
    · change 0 < (halved mss flight).toNat
      omega
    · change (UInt32.ofNat mss).toNat ≤ p.maxsize
      rw [UInt32.toNat_ofNat_of_lt' (by change mss < 2 ^ 32; omega)]
      exact hroom

/-- Outside fast recovery the window is within the send buffer. -/
theorem Safe.recovered_le (hp : p.Safe) :
    p.recovered = p.ssthresh ∧ p.ssthresh.toNat < 2 ^ 31 ∨ p.recovered.toNat ≤ p.maxsize := by
  unfold recovered
  split
  case isTrue h => exact .inl ⟨rfl, hp.recovery h⟩
  case isFalse => exact .inr hp.capped

/-- With segments of at most 46340 bytes and room above the send buffer nothing overflows. -/
theorem Safe.growthFits (hp : p.Safe) (hpos : 0 < mss) (hmss : mss ≤ 46340)
    (hroom : p.maxsize + mss < 2 ^ 32) (advanced : UInt32) : GrowthFits mss p advanced := by
  have hsquare : mss * mss ≤ 46340 * 46340 := Nat.mul_le_mul hmss hmss
  have hpositive := hp.positive
  unfold GrowthFits
  split
  case isTrue hlt =>
    rcases hp.recovered_le with ⟨heq, -⟩ | hle
    · rw [heq] at hlt
      exact absurd hlt (UInt32.lt_irrefl _)
    · omega
  case isFalse hlt =>
    rw [UInt32.lt_iff_toNat_lt, Nat.not_lt] at hlt
    refine ⟨by omega, by omega, ?_⟩
    have hdiv := Nat.div_le_self (mss * mss) p.recovered.toNat
    by_cases hlarge : 2 ^ 31 ≤ p.recovered.toNat
    · -- the square of the segment size is smaller than the window
      rw [Nat.div_eq_of_lt (by omega)]
      rcases hp.recovered_le with ⟨heq, hsmall⟩ | hle
      · rw [heq] at hlarge
        omega
      · omega
    · omega

theorem Safe.duplicateFits (hp : p.Safe) (hmss : mss ≤ 46340) (hroom : p.maxsize + mss < 2 ^ 32)
    (flight : UInt32) : DuplicateFits mss p flight := by
  have hhalved := toNat_halved flight (hmss.trans_lt (by decide))
  have hflight := flight.toNat_lt
  have hcapped := hp.capped
  refine ⟨fun _ => ?_, fun _ => ?_⟩ <;> omega

/-- Both places that set the threshold take at least two segments. -/
theorem two_le_halved (flight : UInt32) (hmss : mss < 65536) :
    2 * mss ≤ (halved mss flight).toNat := by
  rw [toNat_halved flight hmss]
  omega

theorem Received.threshold (hmss : mss < 65536) (h : Received mss p p') :
    p'.ssthresh = p.ssthresh ∨ 2 * mss ≤ p'.ssthresh.toNat := by
  cases h with
  | kept => exact .inl rfl
  | duplicate flight =>
    unfold Pace.duplicated
    split
    · exact .inr (two_le_halved flight hmss)
    · exact .inl rfl
  | advance advanced _ h =>
    unfold Pace.grown at h
    split at h
    · cases h
      exact .inl rfl
    split at h
    · cases h
    · cases h
      exact .inl rfl

theorem Resent.threshold (hmss : mss < 65536) (h : Resent mss p p') :
    p'.ssthresh = p.ssthresh ∨ 2 * mss ≤ p'.ssthresh.toNat := by
  cases h with
  | kept | syn => exact .inl rfl
  | data flight => exact .inr (two_le_halved flight hmss)

end Bounds

end Pace

section Runs

/-- Packets and retransmissions, with the endpoint as it is then; everything else that
happens to the connection is a change. -/
inductive Event
  | packet (u : Utcp) (e : Env) (i : Incoming)
  | retransmit (u : Utcp) (e : Env)
  | change (c' : Conn)

def step (c : Conn) : Event → Conn
  | .packet u e i => ((arrive u e c i).map Step.conn).getD c
  | .retransmit u e => ((retransmitSend u e c).map Step.conn).getD c
  | .change c' => c'

/-- The change has nothing to do with the congestion window. -/
def Untouched (c c' : Conn) : Prop :=
  (c'.sndCwnd, c'.sndSsthresh, c'.dupack) = (c.sndCwnd, c.sndSsthresh, c.dupack)

/-- A threshold that is set is at least twice the segment size. -/
def ThresholdSet (mss : ℕ) (before after : Conn) : Prop :=
  after.sndSsthresh = before.sndSsthresh ∨ 2 * mss ≤ after.sndSsthresh.toNat

def Sound (c : Conn) : Event → Prop
  | .packet u e i =>
      (∀ advanced, (pace c).GrowthFits u.mss advanced) ∧
        (∀ flight, (pace c).DuplicateFits u.mss flight) ∧
        ThresholdSet u.mss c (step c (.packet u e i)) ∧
        (step c (.packet u e i)).sndCwnd.toNat ≤ (step c (.packet u e i)).sndbuf.maxsize
  | .retransmit u e => ThresholdSet u.mss c (step c (.retransmit u e))
  | .change _ => True

/-- The MTU is at most 46360, the send buffer has room below 2^32 and holds a segment
when it is sent again, and it is not made smaller than the window. -/
def Admitted (c : Conn) : Event → Prop
  | .packet u _ _ => u.mss ≤ 46340 ∧ c.sndbuf.maxsize + u.mss < 2 ^ 32
  | .retransmit u _ => u.mss ≤ c.sndbuf.maxsize
  | .change c' => Untouched c c' ∧ c.sndCwnd.toNat ≤ c'.sndbuf.maxsize

variable {u : Utcp} {e : Env} {c c' : Conn}

theorem step_packet (u : Utcp) (e : Env) (i : Incoming) (c : Conn) :
    Pace.Received u.mss (pace c) (pace (step c (.packet u e i))) := by
  dsimp only [step]
  cases h : arrive u e c i with
  | none => exact .kept
  | some s => exact arrive_pace h

theorem step_retransmit (u : Utcp) (e : Env) (c : Conn) :
    Pace.Resent u.mss (pace c) (pace (step c (.retransmit u e))) := by
  dsimp only [step]
  cases h : retransmitSend u e c with
  | none => exact .kept
  | some s => exact retransmitSend_pace h

theorem safe_step (ev : Event) (h : Admitted c ev) (hc : (pace c).Safe) :
    (pace (step c ev)).Safe := by
  cases ev with
  | packet u e i => exact hc.received u.mss_pos u.mss_lt (step_packet u e i c)
  | retransmit u e => exact hc.resent u.mss_pos u.mss_lt h (step_retransmit u e c)
  | change c' =>
    obtain ⟨hsame, hle⟩ := h
    simp only [Untouched, Prod.mk.injEq] at hsame
    obtain ⟨hcwnd, hssthresh, hdupack⟩ := hsame
    refine ⟨?_, fun h => ?_, ?_⟩
    · change 0 < c'.sndSsthresh.toNat
      rw [hssthresh]
      exact hc.positive
    · change 3 ≤ c'.dupack at h
      change c'.sndSsthresh.toNat < 2 ^ 31
      rw [hdupack] at h
      rw [hssthresh]
      exact hc.recovery h
    · change c'.sndCwnd.toNat ≤ c'.sndbuf.maxsize
      rw [hcwnd]
      exact hle

theorem sound_of_safe (ev : Event) (h : Admitted c ev) (hc : (pace c).Safe) : Sound c ev := by
  cases ev with
  | packet u e i =>
    have hreceived := step_packet u e i c
    exact ⟨hc.growthFits u.mss_pos h.1 h.2, hc.duplicateFits h.1 h.2,
      hreceived.threshold u.mss_lt, (safe_step _ h hc).capped⟩
  | retransmit u e => exact (step_retransmit u e c).threshold u.mss_lt
  | change c' => trivial

/-- The first window is between two and four segments. -/
theorem safe_created (u : Utcp) (e : Env) (src dst : UInt16) :
    (pace (created u e src dst)).Safe where
  positive := by
    change 0 < (0xffffffff : UInt32).toNat
    decide
  recovery := fun (h : 3 ≤ 0) => absurd h (by decide)
  capped := by
    have hmss := u.mss_lt
    change (initialCwnd u.mss).toNat ≤ 131072
    unfold initialCwnd
    split
    · rw [UInt32.toNat_ofNat_of_lt' (by change _ < 2 ^ 32; omega)]
      omega
    split
    · rw [UInt32.toNat_ofNat_of_lt' (by change _ < 2 ^ 32; omega)]
      omega
    · rw [UInt32.toNat_ofNat_of_lt' (by change _ < 2 ^ 32; omega)]
      omega

end Runs

section Coverage

variable {R : Moves.Rules} {u : Utcp} {e : Env} {c c' : Conn}

theorem untouched_of_sent (h : Sent c c') : Untouched c c' := by
  obtain ⟨nxt, start, seq, rfl⟩ := h
  rfl

theorem untouched_of_retimed (h : Retimed c c') : Untouched c c' := by
  obtain ⟨conn, rtrx, start, rto, rfl⟩ := h
  rfl

/-- No call of the application touches the congestion window. -/
theorem trail_untouched (h : Trail u e c c') : Untouched c c' := by
  induction h with
  | refl => rfl
  | tail _ hpiece ih =>
    refine Eq.trans ?_ ih
    cases hpiece with
    | edit h => exact (Prod.mk.inj (Prod.mk.inj (Prod.mk.inj (Prod.mk.inj h).2).2).2).1
    | ack h => exact untouched_of_sent (ack_sent u _ _ _ _ h)
    | discard | enter | retransmitTimer | connTimer | idle => rfl

/-- Whatever a process does with a connection is an event of such a run: only packets
and retransmissions touch the congestion window. -/
theorem move_is_event {evs : List Ev} (h : SenderMove R u c c' evs) :
    (∃ e i, step c (.packet u e i) = c') ∨ (∃ e, step c (.retransmit u e) = c') ∨
      Untouched c c' := by
  cases h with
  | received _ _ _ hsame _ =>
    obtain ⟨rcvbuf, sacks, nxt, rfl⟩ := hsame
    exact .inr (.inr rfl)
  | call e op _ s _ _ hs => exact .inr (.inr (trail_untouched (connCall_trail hs).1))
  | resetTimers e _ _ => exact .inr (.inr (untouched_of_retimed (resetTimers_retimed u _ c)))
  | offline e off _ _ => exact .inr (.inr (untouched_of_retimed (offlineConn_retimed u e off c)))
  | reset _ =>
    obtain ⟨d, ⟨_, _, _, _, _, rfl⟩, heq | heq⟩ := resetConnection_cases u c
    all_goals
      rw [heq]
      exact .inr (.inr rfl)
  | arrive e i _ s _ _ hs =>
    refine .inl ⟨e, i, ?_⟩
    rw [step, hs]
    rfl
  | synack | notAccepted => exact .inr (.inr rfl)
  | fin e _ d _ hd =>
    refine .inr (.inr ?_)
    unfold finState at hd
    split at hd
    all_goals cases hd
    all_goals rfl
  | reply e one _ s _ hs => exact .inr (.inr (untouched_of_sent (ack_sent _ _ _ _ _ hs)))
  | stopTimer _ _ => exact .inr (.inr rfl)
  | retransmit e _ s _ hs =>
    refine .inr (.inl ⟨e, ?_⟩)
    rw [step, hs]
    rfl
  | timeOut | polled => exact .inr (.inr rfl)

end Coverage

section Samples

/-- An endpoint with the largest MTU. -/
def largeUtcp : Utcp :=
  { sampleUtcp with mtu := 65535, mss := 65515, mss_pos := by decide, mss_lt := by decide }

/-- The connection is established and `sent` bytes are on their way. -/
def sending (sent : UInt32) (c : Conn) : Conn :=
  { c with
    flags := utcpTcp, state := .established, sndUna := 10, sndNxt := 10 + sent
    sndLast := 10 + sent }

/-- An acknowledgement without data. -/
def acks (ackno : UInt32) : Incoming := ⟨⟨7, 1, 0, ackno, 65535, { ack := true }, 0⟩, [], none⟩

def fresh (u : Utcp) : Conn := created u (sampleEnv true) 1 7

/-- A thousand bytes are acknowledged after a retransmission. -/
def resentAndAcked : List Event :=
  [.change (sending 4000 (fresh sampleUtcp)), .retransmit sampleUtcp (sampleEnv true),
    .packet sampleUtcp (sampleEnv true) (acks 1010)]

/-- Data is on its way, and three duplicates start fast recovery. -/
def duplicates (u : Utcp) : List Event :=
  .change (sending 131030 (fresh u)) :: List.replicate 3 (.packet u (sampleEnv true) (acks 10))

end Samples

end Meshlink.CongestionWindow
