import Meshlink.Arrivals
import Meshlink.SendAtomicity
import Meshlink.Systems

/-!
The round-trip estimate and the retransmission timeout. update_rtt computes with
32-bit numbers what RFC 6298 says about natural numbers, as long as no sample is
longer than 2^29 - 1 microseconds: both averages stay below that bound, so that no
sum or product overflows. The timeout is doubled by retransmissions and cut back by
the calls that reset timers, and never leaves its range. The deadline that is computed
from it is a normalised time.
-/
namespace Meshlink.RttEstimate

open UtcpState UtcpTimers UtcpEndpoint Arrivals Systems
open SendAtomicity (sampleConn sampleEnv sampleUtcp)

/-- The three numbers, in microseconds. -/
structure Estimate where
  srtt : ℕ
  rttvar : ℕ
  rto : ℕ
  deriving DecidableEq

section Formulas

variable (est : Estimate) (granularity rtt : ℕ)

/-- The first measurement is taken as it is; later ones count for one eighth. -/
def smoothed : ℕ := if est.srtt = 0 then rtt else (7 * est.srtt + rtt) / 8

def gap : ℕ := (est.srtt - rtt) + (rtt - est.srtt)

def variation : ℕ := if est.srtt = 0 then rtt / 2 else (3 * est.rttvar + gap est rtt) / 4

def timeout : ℕ := smoothed est rtt + max (4 * variation est rtt) granularity

def measured : Estimate :=
  ⟨smoothed est rtt, variation est rtt, min (timeout est granularity rtt) maxRto.toNat⟩

/-- Exponential back-off. -/
def doubled : Estimate := { est with rto := min (2 * est.rto) maxRto.toNat }

def cutBack : Estimate := { est with rto := min est.rto startRto.toNat }

end Formulas

/-- What changes the numbers of a connection, and the start of its timer. -/
inductive Event
  | sample (granularity : ℕ) (rtt : UInt32)
  | retransmit (now : Timespec)
  | resetTimers (u : Utcp) (now : Timespec)
  | offline (u : Utcp) (e : Env) (offline : Bool)
  | startTimer (now : Timespec)

def step (c : Conn) : Event → Conn
  | .sample granularity rtt => updateRtt granularity c rtt
  | .retransmit now => UtcpSender.backOff now c
  | .resetTimers u now => UtcpEndpoint.resetTimers u now c
  | .offline u e offline => offlineConn u e offline c
  | .startTimer now => startRetransmitTimer c now

/-- The same on natural numbers; a connection that is to be removed keeps its timers. -/
def follow (reapable : Bool) (est : Estimate) : Event → Estimate
  | .sample granularity rtt => measured est granularity rtt.toNat
  | .retransmit _ => doubled est
  | .resetTimers _ _ => if reapable then est else cutBack est
  | .offline _ _ offline => if reapable || offline then est else cutBack est
  | .startTimer _ => est

def view (c : Conn) : Estimate := ⟨c.srtt.toNat, c.rttvar.toNat, c.rto.toNat⟩

/-- The longest sample that is considered. -/
def longest : ℕ := 2 ^ 29 - 1

/-- Samples in range, taken with a clock that is not coarser than the longest timeout. -/
def InRange : Event → Prop
  | .sample granularity rtt =>
      1 ≤ rtt.toNat ∧ rtt.toNat ≤ longest ∧ granularity ≤ maxRto.toNat
  | _ => True

instance : DecidablePred InRange
  | .sample granularity rtt => inferInstanceAs (Decidable
      (1 ≤ rtt.toNat ∧ rtt.toNat ≤ longest ∧ granularity ≤ maxRto.toNat))
  | .retransmit _ | .resetTimers _ _ | .offline _ _ _ | .startTimer _ =>
      inferInstanceAs (Decidable True)

/-- The intermediate results of the event fit in 32 bits. -/
def Fits (est : Estimate) : Event → Prop
  | .sample granularity rtt =>
      3 * est.rttvar + gap est rtt.toNat < 2 ^ 32 ∧ 7 * est.srtt + rtt.toNat < 2 ^ 32 ∧
        4 * variation est rtt.toNat < 2 ^ 32 ∧ timeout est granularity rtt.toNat < 2 ^ 32
  | .retransmit _ => 2 * est.rto < 2 ^ 32
  | _ => True

structure Bounded (est : Estimate) : Prop where
  srtt : est.srtt ≤ longest
  rttvar : est.rttvar ≤ longest
  rto : 1 ≤ est.rto ∧ est.rto ≤ maxRto.toNat

section Step

variable {c : Conn} {est : Estimate} {ev : Event}

theorem smoothed_le {rtt : ℕ} (hest : est.srtt ≤ longest) (hrtt : rtt ≤ longest) :
    smoothed est rtt ≤ longest := by
  unfold smoothed
  split <;> omega

theorem one_le_smoothed (est : Estimate) {rtt : ℕ} (hrtt : 1 ≤ rtt) : 1 ≤ smoothed est rtt := by
  unfold smoothed
  split <;> omega

theorem variation_le {rtt : ℕ} (hest : Bounded est) (hrtt : rtt ≤ longest) :
    variation est rtt ≤ longest := by
  have hsrtt := hest.srtt
  have hrttvar := hest.rttvar
  unfold variation gap
  split <;> omega

theorem fits_of_bounded (hest : Bounded est) (hev : InRange ev) : Fits est ev := by
  have hsrtt := hest.srtt
  have hrttvar := hest.rttvar
  have hrto := hest.rto
  have hmax : maxRto.toNat = 3000000 := rfl
  cases ev with
  | sample granularity rtt =>
    obtain ⟨-, hrtt, hgranularity⟩ := hev
    have hsmoothed := smoothed_le hest.srtt hrtt
    have hvariation := variation_le hest hrtt
    simp only [Fits, timeout, gap, longest] at *
    omega
  | retransmit now =>
    change 2 * est.rto < 2 ^ 32
    omega
  | resetTimers | offline | startTimer => trivial

theorem bounded_follow (reapable : Bool) (hest : Bounded est) (hev : InRange ev) :
    Bounded (follow reapable est ev) := by
  obtain ⟨hsrtt, hrttvar, hrto⟩ := hest
  have hmax : maxRto.toNat = 3000000 := rfl
  have hcut : Bounded (cutBack est) := by
    have hstart : startRto.toNat = 1000000 := rfl
    exact ⟨hsrtt, hrttvar, by simp only [cutBack]; omega⟩
  have hsame : Bounded est := ⟨hsrtt, hrttvar, hrto⟩
  cases ev with
  | sample granularity rtt =>
    obtain ⟨hone, hrtt, -⟩ := hev
    have hsmoothed := one_le_smoothed est hone
    refine ⟨smoothed_le hsrtt hrtt, variation_le hsame hrtt, ?_⟩
    simp only [follow, measured, timeout]
    omega
  | retransmit now => exact ⟨hsrtt, hrttvar, by simp only [follow, doubled]; omega⟩
  | resetTimers | offline =>
    dsimp only [follow]
    split
    · exact hsame
    · exact hcut
  | startTimer now => exact hsame

theorem toNat_absdiff (a b : UInt32) :
    (absdiff a b).toNat = (a.toNat - b.toNat) + (b.toNat - a.toNat) := by
  have ha := a.toNat_lt
  have hb := b.toNat_lt
  unfold absdiff
  split
  case isTrue h =>
    rw [gt_iff_lt, UInt32.lt_iff_toNat_lt] at h
    rw [UInt32.toNat_sub_of_le _ _ (UInt32.le_iff_toNat_le.mpr (Nat.le_of_lt h))]
    omega
  case isFalse h =>
    rw [gt_iff_lt, UInt32.lt_iff_toNat_lt, Nat.not_lt] at h
    rw [UInt32.toNat_sub_of_le _ _ (UInt32.le_iff_toNat_le.mpr h)]
    omega

theorem toNat_min (a b : UInt32) : (if a > b then b else a).toNat = min a.toNat b.toNat := by
  split
  case isTrue h =>
    rw [gt_iff_lt, UInt32.lt_iff_toNat_lt] at h
    omega
  case isFalse h =>
    rw [gt_iff_lt, UInt32.lt_iff_toNat_lt] at h
    omega

section Words

variable {rtt : UInt32} {granularity : ℕ}

theorem toNat_variation (hsum : 3 * c.rttvar.toNat + gap (view c) rtt.toNat < 2 ^ 32) :
    (if c.srtt = 0 then rtt / 2 else (c.rttvar * 3 + absdiff c.srtt rtt) / 4).toNat =
      variation (view c) rtt.toNat := by
  have hzero : c.srtt = 0 ↔ (view c).srtt = 0 := UInt32.toNat_inj.symm
  unfold variation
  by_cases hfirst : c.srtt = 0
  · rw [if_pos hfirst, if_pos (hzero.mp hfirst)]
    exact UInt32.toNat_div _ _
  rw [if_neg hfirst, if_neg fun h => hfirst (hzero.mpr h)]
  change 3 * c.rttvar.toNat + (_ + _) < _ at hsum
  rw [UInt32.toNat_div, UInt32.toNat_add, UInt32.toNat_mul, toNat_absdiff]
  change (c.rttvar.toNat * 3 % 2 ^ 32 + (c.srtt.toNat - rtt.toNat +
    (rtt.toNat - c.srtt.toNat))) % 2 ^ 32 / 4 =
      (3 * c.rttvar.toNat + (c.srtt.toNat - rtt.toNat + (rtt.toNat - c.srtt.toNat))) / 4
  simp only [view] at hsum
  omega

theorem toNat_smoothed (hsum : 7 * c.srtt.toNat + rtt.toNat < 2 ^ 32) :
    (if c.srtt = 0 then rtt else (c.srtt * 7 + rtt) / 8).toNat = smoothed (view c) rtt.toNat := by
  have hzero : c.srtt = 0 ↔ (view c).srtt = 0 := UInt32.toNat_inj.symm
  unfold smoothed
  by_cases hfirst : c.srtt = 0
  · rw [if_pos hfirst, if_pos (hzero.mp hfirst)]
  rw [if_neg hfirst, if_neg fun h => hfirst (hzero.mpr h)]
  rw [UInt32.toNat_div, UInt32.toNat_add, UInt32.toNat_mul]
  change (c.srtt.toNat * 7 % 2 ^ 32 + rtt.toNat) % 2 ^ 32 / 8 = (7 * c.srtt.toNat + rtt.toNat) / 8
  omega

/-- Nothing wraps around in update_rtt. -/
theorem view_updateRtt (hone : 1 ≤ rtt.toNat) (hfits : Fits (view c) (.sample granularity rtt)) :
    view (updateRtt granularity c rtt) = measured (view c) granularity rtt.toNat := by
  obtain ⟨hsum, hseven, hfour, htimeout⟩ := hfits
  have hne : rtt ≠ 0 := by
    rintro rfl
    exact absurd hone (by decide)
  have hrttvar := toNat_variation hsum
  have hsrtt := toNat_smoothed hseven
  unfold updateRtt
  rw [if_neg hne]
  dsimp only [view]
  rw [toNat_min, UInt32.toNat_add, UInt32.toNat_ofNat', UInt32.toNat_mul]
  rw [hsrtt, hrttvar]
  have hwrap : (smoothed (view c) rtt.toNat +
      max ((4 : UInt32).toNat * variation (view c) rtt.toNat % 2 ^ 32) granularity % 2 ^ 32) %
        2 ^ 32 = timeout (view c) granularity rtt.toNat := by
    unfold timeout at htimeout ⊢
    change (_ + max (4 * variation (view c) rtt.toNat % 2 ^ 32) granularity % 2 ^ 32) % 2 ^ 32 = _
    omega
  rw [hwrap]
  rfl

end Words

theorem step_reapable : (step c ev).reapable = c.reapable := by
  cases ev with
  | sample granularity rtt =>
    dsimp only [step, updateRtt]
    split <;> rfl
  | retransmit now => rfl
  | resetTimers u now =>
    obtain ⟨_, _, _, _, heq⟩ := resetTimers_retimed u now c
    rw [step, heq]
  | offline u e off =>
    obtain ⟨_, _, _, _, heq⟩ := offlineConn_retimed u e off c
    rw [step, heq]
  | startTimer now => rfl

theorem view_step (hest : Bounded (view c)) (hev : InRange ev) :
    view (step c ev) = follow c.reapable (view c) ev := by
  have hfits := fits_of_bounded hest hev
  cases ev with
  | sample granularity rtt => exact view_updateRtt hev.1 hfits
  | retransmit now =>
    have hdouble : (c.rto * 2).toNat = 2 * c.rto.toNat := by
      change 2 * c.rto.toNat < 2 ^ 32 at hfits
      rw [UInt32.toNat_mul]
      change c.rto.toNat * 2 % 2 ^ 32 = 2 * c.rto.toNat
      omega
    refine congrArg (Estimate.mk c.srtt.toNat c.rttvar.toNat) ((toNat_min _ _).trans ?_)
    change min (c.rto * 2).toNat _ = _
    rw [hdouble]
    rfl
  | resetTimers u now =>
    dsimp only [step, UtcpEndpoint.resetTimers, follow]
    split
    · rfl
    · dsimp only [view, cutBack]
      rw [toNat_min]
  | offline u e off =>
    obtain ⟨t, heq⟩ := utcpExpectData_eq u (e.clk 1) c off
    dsimp only [step, offlineConn, follow]
    rw [heq]
    cases c.reapable with
    | true => rfl
    | false =>
      cases off with
      | true => rfl
      | false => exact congrArg (Estimate.mk _ _) (toNat_min _ _)
  | startTimer now => rfl

end Step

section Deadline

/-- A time whose nanoseconds are less than a second. -/
def Normalised (t : Timespec) : Prop := 0 ≤ t.nsec ∧ t.nsec < nsecPerSec

def nanoseconds (t : Timespec) : Int := t.sec * nsecPerSec + t.nsec

/-- The loop leaves at most a second, and has counted the rest. -/
theorem carrySeconds_eq (fuel : ℕ) (sec : Int) (rto : ℕ) (h : rto ≤ fuel) :
    (carrySeconds fuel sec rto).2 ≤ usecPerSec ∧
      (carrySeconds fuel sec rto).1 * usecPerSec + (carrySeconds fuel sec rto).2 =
        sec * usecPerSec + rto := by
  induction fuel generalizing sec rto with
  | zero =>
    obtain rfl := Nat.le_zero.mp h
    exact ⟨Nat.zero_le _, rfl⟩
  | succ fuel ih =>
    rw [carrySeconds]
    split
    case isTrue hlong =>
      unfold usecPerSec at hlong
      obtain ⟨hle, heq⟩ := ih (sec + 1) (rto - usecPerSec) (by unfold usecPerSec; omega)
      refine ⟨hle, heq.trans ?_⟩
      unfold usecPerSec
      omega
    case isFalse hshort => exact ⟨Nat.not_lt.mp hshort, rfl⟩

/-- The deadline is a normalised time, just as long after the clock as the timeout says. -/
theorem retransmitDeadline_exact {now : Timespec} (hnow : Normalised now) (rto : UInt32) :
    Normalised (retransmitDeadline now rto) ∧
      nanoseconds (retransmitDeadline now rto) = nanoseconds now + 1000 * rto.toNat := by
  obtain ⟨hle, heq⟩ := carrySeconds_eq rto.toNat now.sec rto.toNat (Nat.le_refl _)
  obtain ⟨hnonneg, hlt⟩ := hnow
  unfold usecPerSec at hle heq
  unfold nsecPerSec at hlt
  unfold retransmitDeadline
  dsimp only
  split
  all_goals
    simp only [Normalised, nanoseconds, nsecPerSec] at *
    omega

end Deadline

section Runs

variable {c : Conn} {events : List Event}

/-- A connection that has no measurement yet. -/
def Unmeasured (c : Conn) : Prop := c.srtt = 0 ∧ c.rttvar = 0 ∧ c.rto = startRto

theorem bounded_step (c : Conn) (ev : Event) (hev : InRange ev) (hc : Bounded (view c)) :
    Bounded (view (step c ev)) := by
  rw [view_step hc hev]
  exact bounded_follow c.reapable hc hev

theorem view_run (hc : Bounded (view c)) (hevents : ∀ ev ∈ events, InRange ev) :
    view (events.foldl step c) = events.foldl (follow c.reapable) (view c) := by
  induction events generalizing c with
  | nil => rfl
  | cons ev events ih =>
    have hev := hevents ev List.mem_cons_self
    have hrest := ih (bounded_step c ev hev hc) fun ev' h => hevents ev' (List.mem_cons_of_mem ev h)
    rw [step_reapable, view_step hc hev] at hrest
    exact hrest

/-- After any events the numbers are those of the formulas and no computation has
overflowed; the timeout is in its range and gives an exact deadline. -/
theorem timeout_follows_formulas (hc : Unmeasured c) (hevents : ∀ ev ∈ events, InRange ev) :
    view (events.foldl step c) =
        events.foldl (follow c.reapable) ⟨0, 0, startRto.toNat⟩ ∧
      Along step (fun c ev => Fits (view c) ev) c events ∧
      1 ≤ (events.foldl step c).rto ∧ (events.foldl step c).rto ≤ maxRto ∧
      ∀ now, Normalised now →
        Normalised (startRetransmitTimer (events.foldl step c) now).rtrxTimeout ∧
        nanoseconds (startRetransmitTimer (events.foldl step c) now).rtrxTimeout =
          nanoseconds now + 1000 * (events.foldl step c).rto.toNat := by
  have hview : view c = ⟨0, 0, startRto.toNat⟩ := by
    obtain ⟨hsrtt, hrttvar, hrto⟩ := hc
    rw [view, hsrtt, hrttvar, hrto]
    rfl
  have hstart : Bounded (view c) := by
    rw [hview]
    exact ⟨Nat.zero_le _, Nat.zero_le _, by decide⟩
  have hbounded : Bounded (view (events.foldl step c)) :=
    kept_along (I := fun c => Bounded (view c)) bounded_step
      (along_of_forall hevents) hstart
  refine ⟨?_, ?_, ?_, ?_, fun now hnow => ?_⟩
  · rw [← hview]
    exact view_run hstart hevents
  · exact along_of_kept (I := fun c => Bounded (view c)) bounded_step
      (fun _ _ hev hest => fits_of_bounded hest hev) (along_of_forall hevents) hstart
  · exact UInt32.le_iff_toNat_le.mpr hbounded.rto.1
  · exact UInt32.le_iff_toNat_le.mpr hbounded.rto.2
  · exact retransmitDeadline_exact hnow _

/-- Two samples with a retransmission and a reset between them. -/
def sampleEvents : List Event :=
  [.sample 1 1000, .retransmit ⟨5, 0⟩, .resetTimers sampleUtcp ⟨6, 0⟩, .sample 1 2000]

theorem timeout_follows_formulas_two :
    Unmeasured (sampleConn utcpTcp .established 4) ∧ (∀ ev ∈ sampleEvents, InRange ev) ∧
      view (sampleEvents.foldl step (sampleConn utcpTcp .established 4)) = ⟨1125, 625, 3625⟩ := by
  have hstart : Unmeasured (sampleConn utcpTcp .established 4) := ⟨rfl, rfl, rfl⟩
  have hevents : ∀ ev ∈ sampleEvents, InRange ev := by decide
  exact ⟨hstart, hevents, (timeout_follows_formulas hstart hevents).1.trans (by decide)⟩

end Runs

end Meshlink.RttEstimate
