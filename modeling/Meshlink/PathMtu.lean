import Meshlink.PacketHeaders
import Meshlink.UtcpEndpoint

/-!
The packet sizes of a node: what path MTU discovery knows of the way to it, the size
limit for packets, and the size that UTCP uses for its own packets. UTCP is told the
limit less the size of the packet header, as a number of sixteen bits. Blacklisting a
node sets its limit to zero, and this difference then wraps around to a very large
size when a UTCP instance is made for the node afterwards.
-/
namespace Meshlink.PathMtu

open UtcpState UtcpEndpoint PacketHeaders Systems

section Model

def minMtu : ℕ := 527

/-- What the header and the authentication of an SPTPS datagram add to its payload. -/
def datagramOverhead : ℕ := 21

/-- The part of a node that has to do with packet sizes. -/
structure Peer where
  minmtu : ℕ
  maxmtu : ℕ
  mtu : ℕ
  mtuprobes : ℤ
  reachable : Bool
  validkey : Bool
  blacklisted : Bool
  udpConfirmed : Bool
  utcp : Option Utcp
  /-- Whether the mesh has a callback for accepting channels. -/
  acceptCb : Bool

variable (jumbograms : Bool)

/-- What new_node makes; the blacklist may already have the node on it. -/
def newPeer (acceptCb blacklisted : Bool) : Peer where
  minmtu := 0
  maxmtu := mtu jumbograms
  mtu := mtu jumbograms
  mtuprobes := 0
  reachable := false
  validkey := false
  blacklisted := blacklisted
  udpConfirmed := false
  utcp := none
  acceptCb := acceptCb

/-- What utcp_init returns, or nothing without memory for the instance and its buffer. -/
def utcpInit (e : Env) (granularity : ℕ) : Option Utcp :=
  if (e.alloc 1).ok && (e.alloc 2).ok then
    some {
      accept := true
      listen := true
      retransmit := true
      pkt := fun _ => 0
      mtu := defaultMtu
      mss := defaultMtu - hdrSize
      timeout := defaultUserTimeout
      clockGranularity := granularity
      connections := []
      nallocated := 0
      nextHandle := 0
      mss_pos := defaultMss_pos
      mss_lt := defaultMss_lt }
  else none

/-- A size less that of the packet header, as the sixteen bits that utcp_set_mtu takes. -/
def lessHeader (size : ℕ) : UInt16 := UInt16.ofNat (size + 2 ^ 16 - headerSize)

/-- The UTCP instance of a node is made if there is none. -/
def ensureUtcp (e : Env) (granularity : ℕ) (n : Peer) : Peer :=
  match n.utcp with
  | some _ => n
  | none => {n with utcp := (utcpInit e granularity).map (setMtu e (lessHeader n.mtu))}

def updateNodeStatus (e : Env) (granularity : ℕ) (n : Peer) : Peer :=
  if n.reachable && n.acceptCb then ensureUtcp e granularity n else n

def updateNodePmtu (e : Env) (n : Peer) : Peer :=
  {n with utcp := n.utcp.map (setMtu e (lessHeader (max n.minmtu minMtu)))}

/-- A datagram is sent over UDP, unless it is too large for that and no probe. The
system may refuse it for its size. -/
def sendSptpsData (probe : Bool) (payload : ℕ) (refused : Bool) (n : Peer) : Peer :=
  let len := payload + datagramOverhead
  if !n.reachable || !n.validkey || (!probe && decide (n.minmtu < payload)) then n
  else if refused then
    {n with
      maxmtu := if len ≤ n.maxmtu then len - 1 else n.maxmtu
      mtu := if len ≤ n.mtu then len - 1 else n.mtu}
  else n

variable (n : Peer)

/-- The size of the probe with some number in a burst. The first one tries a larger size
than is known to be possible, and is left out in the initial discovery. -/
def probeSize (i draw : ℕ) : Option ℕ :=
  if i = 0 then
    if n.mtuprobes < 30 ∨ mtu jumbograms ≤ n.maxmtu + 8 then none
    else some (max (n.maxmtu + 8) 64)
  else if n.maxmtu ≤ n.minmtu then some (max n.maxmtu 64)
  else some (max (n.minmtu + 1 + draw % (n.maxmtu - n.minmtu)) 64)

def sendProbe (draw : ℕ → ℕ) (refused : ℕ → Bool) (n : Peer) (i : ℕ) : Peer :=
  match probeSize jumbograms n i (draw i) with
  | none => n
  | some size => sendSptpsData true size (refused i) n

def sendBurst (draw : ℕ → ℕ) (refused : ℕ → Bool) (n : Peer) : Peer :=
  (List.range 5).foldl (sendProbe jumbograms draw refused) n

/-- Discovery starts anew when there was no answer to a ping. -/
def restartDiscovery (e : Env) (n : Peer) : Peer :=
  if 32 < n.mtuprobes then
    updateNodePmtu e {n with
      udpConfirmed := false
      mtuprobes := 1
      minmtu := 0
      maxmtu := mtu jumbograms}
  else n

/-- The discovery ends without an answer. -/
def giveUp : Peer :=
  if 10 ≤ n.mtuprobes ∧ n.mtuprobes < 32 ∧ n.minmtu = 0 then {n with mtuprobes := 31} else n

/-- The discovery ends with the size that it has found. -/
def fixMtu (e : Env) (n : Peer) : Peer :=
  if n.mtuprobes = 30 ∨ n.mtuprobes < 30 ∧ n.maxmtu ≤ n.minmtu then
    let n :=
      if n.maxmtu < n.minmtu then updateNodePmtu e {n with minmtu := n.maxmtu}
      else {n with maxmtu := n.minmtu}
    {n with mtu := n.minmtu, mtuprobes := 31}
  else n

/-- What the timer does before it sends a burst, and whether it sends one. -/
def nextRound (e : Env) (n : Peer) : Peer × Bool :=
  let n := {n with mtuprobes := n.mtuprobes + 1}
  if !n.reachable || !n.validkey then ({n with mtuprobes := 0}, false)
  else if 32 < n.mtuprobes ∧ n.minmtu = 0 then ({n with mtuprobes := 31}, false)
  else
    let n := fixMtu e (giveUp (restartDiscovery jumbograms e n))
    (n, n.mtuprobes ≠ 31)

def sendMtuProbeHandler (e : Env) (draw : ℕ → ℕ) (refused : ℕ → Bool) (n : Peer) : Peer :=
  let (n, burst) := nextRound jumbograms e n
  if burst then sendBurst jumbograms draw refused n else n

/-- The size that is known to be possible is raised. -/
def raiseMinimum (e : Env) (len : ℕ) (n : Peer) : Peer :=
  let len := min len n.maxmtu
  if n.minmtu < len then updateNodePmtu e {n with minmtu := len} else n

/-- The answer to a probe. It starts the discovery anew if it was over. -/
def probeReply (e : Env) (len : ℕ) (n : Peer) : Peer :=
  let n := {n with udpConfirmed := true}
  if 30 < n.mtuprobes ∧ len = n.maxmtu + 8 then
    {n with maxmtu := mtu jumbograms, mtuprobes := 10}
  else
    raiseMinimum e len
      (if 30 < n.mtuprobes then {n with mtuprobes := if n.minmtu = 0 then 1 else 30} else n)

def mtuProbeH (e : Env) (reply : Bool) (len : ℕ) (refused : Bool) (n : Peer) : Peer :=
  if len < 64 then n
  else if reply then probeReply jumbograms e len n
  else sendSptpsData true len refused n

/-- A new session, or a change in reachability, makes void all that was discovered, but
leaves the size limit as it is. -/
def resetDiscovery : Peer :=
  {n with udpConfirmed := false, maxmtu := mtu jumbograms, minmtu := 0, mtuprobes := 0}

def changeReachability (e : Env) (granularity : ℕ) (n : Peer) : Peer :=
  let n := resetDiscovery jumbograms {n with reachable := !n.reachable}
  if n.blacklisted then n else updateNodeStatus e granularity n

def blacklist : Peer :=
  if n.blacklisted then n
  else
    {n with
      blacklisted := true
      mtu := 0
      minmtu := 0
      maxmtu := mtu jumbograms
      mtuprobes := 0
      udpConfirmed := false}

def whitelist (e : Env) (granularity : ℕ) (n : Peer) : Peer :=
  if n.blacklisted then
    let n := {n with blacklisted := false}
    if n.reachable then updateNodeStatus e granularity n else n
  else n

inductive Event
  /-- The timer of the discovery, or a new key. -/
  | probe (draw : ℕ → ℕ) (refused : ℕ → Bool)
  | probed (reply : Bool) (len : ℕ) (refused : Bool)
  | send (payload : ℕ) (refused : Bool)
  | validkey (valid : Bool)
  | newSession
  | reachability
  | blacklist
  | whitelist
  | setAcceptCb (cb : Bool)
  | openChannel
  | setChannelTimeout

/-- The events of one node, with the environment that each one happens in. -/
def step (ev : Event × Env × ℕ) : Peer :=
  match ev with
  | (.probe draw refused, e, _) => sendMtuProbeHandler jumbograms e draw refused n
  | (.probed reply len refused, e, _) => mtuProbeH jumbograms e reply len refused n
  | (.send payload refused, _, _) => sendSptpsData false payload refused n
  | (.validkey valid, _, _) => {n with validkey := valid}
  | (.newSession, _, _) => resetDiscovery jumbograms {n with validkey := false}
  | (.reachability, e, granularity) => changeReachability jumbograms e granularity n
  | (.blacklist, _, _) => blacklist jumbograms n
  | (.whitelist, e, granularity) => whitelist e granularity n
  | (.setAcceptCb cb, e, granularity) => ensureUtcp e granularity {n with acceptCb := cb}
  | (.openChannel, e, granularity) => ensureUtcp e granularity n
  | (.setChannelTimeout, e, granularity) => ensureUtcp e granularity n

def run (evs : List (Event × Env × ℕ)) : Peer := evs.foldl (step jumbograms) n

/-- Whether the event makes a UTCP instance, if there is memory for it. -/
def Creates : Event → Bool
  | .reachability => n.utcp.isNone && !n.reachable && !n.blacklisted && n.acceptCb
  | .whitelist => n.utcp.isNone && n.reachable && n.blacklisted && n.acceptCb
  | .setAcceptCb _ => n.utcp.isNone
  | .openChannel => n.utcp.isNone
  | .setChannelTimeout => n.utcp.isNone
  | _ => false

end Model

section Sizes

variable {jumbograms : Bool} {n : Peer} {e : Env} {granularity : ℕ}

theorem headerSize_le_minMtu : headerSize ≤ minMtu := by decide

theorem minMtu_le_mtu : minMtu ≤ mtu jumbograms := by
  cases jumbograms
  · decide
  · decide

theorem mtu_lt : mtu jumbograms < 2 ^ 16 := by
  cases jumbograms
  · decide
  · decide

theorem defaultMtu_le : defaultMtu ≤ mtu jumbograms - headerSize := by
  cases jumbograms
  · decide
  · decide

/-- A size below the header wraps around. -/
theorem lessHeader_toNat {size : ℕ} (h : size < 2 ^ 16) :
    (lessHeader size).toNat =
      if headerSize ≤ size then size - headerSize else size + 2 ^ 16 - headerSize := by
  have hh : headerSize = 32 := rfl
  unfold lessHeader
  rw [UInt16.toNat_ofNat', hh]
  split
  · rw [show size + 2 ^ 16 - 32 = size - 32 + 2 ^ 16 by omega, Nat.add_mod_right]
    exact Nat.mod_eq_of_lt (by omega)
  · exact Nat.mod_eq_of_lt (by omega)

theorem lessHeader_le {size : ℕ} (hlow : headerSize ≤ size) (hhigh : size ≤ mtu jumbograms) :
    (lessHeader size).toNat ≤ mtu jumbograms - headerSize := by
  rw [lessHeader_toNat (hhigh.trans_lt mtu_lt), if_pos hlow]
  exact Nat.sub_le_sub_right hhigh headerSize

/-- The size that is left when the system has refused a datagram. -/
theorem lowered_le (len size : ℕ) : (if len ≤ size then len - 1 else size) ≤ size := by
  split
  · exact Nat.le_trans (Nat.sub_le len 1) ‹len ≤ size›
  · exact Nat.le_refl size

theorem setMtu_mtu (e : Env) (size : UInt16) (u : Utcp) :
    (setMtu e size u).mtu = u.mtu ∨ (setMtu e size u).mtu = size.toNat := by
  unfold setMtu
  split
  · exact .inl rfl
  · split
    · exact .inl rfl
    · exact .inr rfl

theorem setMtu_le {bound : ℕ} {size : UInt16} {u : Utcp} (hs : size.toNat ≤ bound)
    (hu : u.mtu ≤ bound) : (setMtu e size u).mtu ≤ bound := by
  rcases setMtu_mtu e size u with h | h
  · rw [h]
    exact hu
  · rw [h]
    exact hs

theorem utcpInit_mtu {u : Utcp} (h : utcpInit e granularity = some u) : u.mtu = defaultMtu := by
  unfold utcpInit at h
  split at h
  · cases h
    rfl
  · cases h

end Sizes

section Bounds

variable {jumbograms : Bool} {longest room : ℕ} {n : Peer} {e : Env} {granularity : ℕ}

/-- No size of the node is above the largest one, and UTCP leaves room for the header. -/
structure Bounded (jumbograms : Bool) (n : Peer) : Prop where
  mtu_le : n.mtu ≤ mtu jumbograms
  maxmtu_le : n.maxmtu ≤ mtu jumbograms
  minmtu_le : n.minmtu ≤ mtu jumbograms
  utcp_le : ∀ u ∈ n.utcp, u.mtu ≤ mtu jumbograms - headerSize

/-- The same for the sizes alone, with a bound of its own for UTCP; the smallest size that
is known to be possible is also at most that of an answer. -/
structure Sized (jumbograms : Bool) (longest room size maxmtu minmtu : ℕ)
    (utcp : Option Utcp) : Prop where
  mtu_le : size ≤ mtu jumbograms
  maxmtu_le : maxmtu ≤ mtu jumbograms
  minmtu_le : minmtu ≤ mtu jumbograms
  minmtu_heard : minmtu ≤ longest
  utcp_le : ∀ u ∈ utcp, u.mtu ≤ room

def Within (jumbograms : Bool) (longest room : ℕ) (n : Peer) : Prop :=
  Sized jumbograms longest room n.mtu n.maxmtu n.minmtu n.utcp

theorem newPeer_within (acceptCb blacklisted : Bool) :
    Within jumbograms longest room (newPeer jumbograms acceptCb blacklisted) :=
  ⟨Nat.le_refl _, Nat.le_refl _, Nat.zero_le _, Nat.zero_le _, fun _ h => nomatch h⟩

section Discovery

variable (h : Within jumbograms longest room n)

include h

theorem Within.mono {more : ℕ} : Within jumbograms (max longest more) room n :=
  ⟨h.mtu_le, h.maxmtu_le, h.minmtu_le, h.minmtu_heard.trans (Nat.le_max_left _ _),
    h.utcp_le⟩

theorem Within.sendSptpsData (probe : Bool) (payload : ℕ) (refused : Bool) :
    Within jumbograms longest room (sendSptpsData probe payload refused n) := by
  unfold PathMtu.sendSptpsData
  split
  · exact h
  split
  · exact ⟨(lowered_le _ _).trans h.mtu_le, (lowered_le _ _).trans h.maxmtu_le,
      h.minmtu_le, h.minmtu_heard, h.utcp_le⟩
  · exact h

theorem Within.sendProbe (draw : ℕ → ℕ) (refused : ℕ → Bool) (i : ℕ) :
    Within jumbograms longest room (sendProbe jumbograms draw refused n i) := by
  unfold PathMtu.sendProbe
  split
  · exact h
  · exact h.sendSptpsData _ _ _

theorem Within.giveUp : Within jumbograms longest room (giveUp n) := by
  unfold PathMtu.giveUp
  split
  · exact h
  · exact h

theorem Within.resetDiscovery : Within jumbograms longest room (resetDiscovery jumbograms n) :=
  ⟨h.mtu_le, Nat.le_refl _, Nat.zero_le _, Nat.zero_le _, h.utcp_le⟩

theorem Within.blacklist : Within jumbograms longest room (blacklist jumbograms n) := by
  unfold PathMtu.blacklist
  split
  · exact h
  · exact ⟨Nat.zero_le _, Nat.le_refl _, Nat.zero_le _, Nat.zero_le _, h.utcp_le⟩

end Discovery

section Utcp

variable (hroom : mtu jumbograms - headerSize ≤ room) (h : Within jumbograms longest room n)

include hroom h

theorem Within.ensureUtcp (hm : n.utcp = none → (lessHeader n.mtu).toNat ≤ room) :
    Within jumbograms longest room (ensureUtcp e granularity n) := by
  unfold PathMtu.ensureUtcp
  split
  · exact h
  rename_i hnone
  refine ⟨h.mtu_le, h.maxmtu_le, h.minmtu_le, h.minmtu_heard, ?_⟩
  intro u hu
  obtain ⟨v, hv, rfl⟩ := Option.map_eq_some_iff.mp hu
  refine setMtu_le (hm hnone) ?_
  rw [utcpInit_mtu hv]
  exact defaultMtu_le.trans hroom

theorem Within.updateNodeStatus
    (hm : n.utcp = none → n.reachable = true → n.acceptCb = true →
      (lessHeader n.mtu).toNat ≤ room) :
    Within jumbograms longest room (updateNodeStatus e granularity n) := by
  unfold PathMtu.updateNodeStatus
  split
  · rename_i hc
    obtain ⟨hr, ha⟩ := (Bool.and_eq_true _ _).mp hc
    exact h.ensureUtcp hroom fun hnone => hm hnone hr ha
  · exact h

/-- The discovery never lets UTCP use less than the smallest size that every path has. -/
theorem Within.updateNodePmtu : Within jumbograms longest room (updateNodePmtu e n) := by
  refine ⟨h.mtu_le, h.maxmtu_le, h.minmtu_le, h.minmtu_heard, ?_⟩
  intro u hu
  obtain ⟨v, hv, rfl⟩ := Option.map_eq_some_iff.mp hu
  refine setMtu_le ((lessHeader_le ?_
    (Nat.max_le.mpr ⟨h.minmtu_le, minMtu_le_mtu⟩)).trans hroom) (h.utcp_le v hv)
  exact headerSize_le_minMtu.trans (Nat.le_max_right _ _)

theorem Within.restartDiscovery :
    Within jumbograms longest room (restartDiscovery jumbograms e n) := by
  unfold PathMtu.restartDiscovery
  split
  · exact Within.updateNodePmtu hroom h.resetDiscovery
  · exact h

theorem Within.fixMtu : Within jumbograms longest room (fixMtu e n) := by
  unfold PathMtu.fixMtu
  split
  · have hmet : Within jumbograms longest room
        (if n.maxmtu < n.minmtu then PathMtu.updateNodePmtu e {n with minmtu := n.maxmtu}
          else {n with maxmtu := n.minmtu}) := by
      split
      · exact Within.updateNodePmtu hroom ⟨h.mtu_le, h.maxmtu_le, h.maxmtu_le,
          (Nat.le_of_lt ‹_›).trans h.minmtu_heard, h.utcp_le⟩
      · exact ⟨h.mtu_le, h.minmtu_le, h.minmtu_le, h.minmtu_heard, h.utcp_le⟩
    exact ⟨hmet.minmtu_le, hmet.maxmtu_le, hmet.minmtu_le, hmet.minmtu_heard, hmet.utcp_le⟩
  · exact h

theorem Within.nextRound : Within jumbograms longest room (nextRound jumbograms e n).1 := by
  unfold PathMtu.nextRound
  dsimp only
  split
  · exact h
  split
  · exact h
  · exact Within.fixMtu hroom (Within.giveUp (Within.restartDiscovery hroom h))

theorem Within.sendMtuProbeHandler (draw : ℕ → ℕ) (refused : ℕ → Bool) :
    Within jumbograms longest room (sendMtuProbeHandler jumbograms e draw refused n) := by
  unfold PathMtu.sendMtuProbeHandler
  dsimp only
  split
  · have hstep : ∀ n i, True → Within jumbograms longest room n →
        Within jumbograms longest room (PathMtu.sendProbe jumbograms draw refused n i) :=
      fun _ i _ hn => Within.sendProbe hn draw refused i
    exact kept_along hstep (along_of_forall (P := fun _ => True) fun _ _ => trivial)
      (h.nextRound hroom)
  · exact h.nextRound hroom

theorem Within.raiseMinimum (len : ℕ) :
    Within jumbograms (max longest len) room (raiseMinimum e len n) := by
  unfold PathMtu.raiseMinimum
  dsimp only
  split
  · exact Within.updateNodePmtu hroom ⟨h.mtu_le, h.maxmtu_le,
      (Nat.min_le_right _ _).trans h.maxmtu_le,
      (Nat.min_le_left _ _).trans (Nat.le_max_right _ _), h.utcp_le⟩
  · exact h.mono

theorem Within.probeReply (len : ℕ) :
    Within jumbograms (max longest len) room (probeReply jumbograms e len n) := by
  unfold PathMtu.probeReply
  dsimp only
  split
  · exact ⟨h.mtu_le, Nat.le_refl _, h.minmtu_le, h.mono.minmtu_heard, h.utcp_le⟩
  refine Within.raiseMinimum hroom ?_ len
  split
  · exact h
  · exact h

end Utcp

/-- The size of the answer that an event brings. -/
def replySize : Event → ℕ
  | .probed true len _ => len
  | _ => 0

/-- What an event has to meet: a UTCP instance is only made while the size limit of the
node has room for a header. -/
def RoomForHeader (n : Peer) (ev : Event × Env × ℕ) : Prop := Creates n ev.1 → headerSize ≤ n.mtu

instance decidableRoomForHeader (n : Peer) (ev : Event × Env × ℕ) :
    Decidable (RoomForHeader n ev) := by
  unfold RoomForHeader
  infer_instance

/-- Only an answer raises what the minimum comes from. -/
theorem step_within (n : Peer) (ev : Event × Env × ℕ) (hroom : mtu jumbograms - headerSize ≤ room)
    (hc : Creates n ev.1 → (lessHeader n.mtu).toNat ≤ room)
    (h : Within jumbograms longest room n) :
    Within jumbograms (max longest (replySize ev.1)) room (step jumbograms n ev) := by
  obtain ⟨ev, e, granularity⟩ := ev
  have hensure (hc' : Creates n ev = n.utcp.isNone) :
      Within jumbograms (max longest (replySize ev)) room (ensureUtcp e granularity n) :=
    h.mono.ensureUtcp hroom fun hnone => hc (by rw [hc', hnone]; rfl)
  cases ev with
  | probe draw refused => exact h.mono.sendMtuProbeHandler hroom draw refused
  | probed reply len refused =>
    show Within _ _ _ (mtuProbeH _ _ _ _ _ _)
    unfold mtuProbeH
    split
    · exact h.mono
    · cases reply with
      | false => exact h.mono.sendSptpsData true len refused
      | true => exact h.probeReply hroom len
  | send payload refused => exact h.mono.sendSptpsData false payload refused
  | validkey valid => exact h.mono
  | newSession => exact h.mono.resetDiscovery
  | reachability =>
    show Within _ _ _ (changeReachability _ _ _ _)
    unfold changeReachability
    dsimp only
    split
    · exact h.mono.resetDiscovery
    rename_i hb
    refine Within.updateNodeStatus hroom h.mono.resetDiscovery fun hnone hr ha => hc ?_
    have hb' : n.blacklisted = false := Bool.eq_false_iff.mpr hb
    simp_all [Creates, resetDiscovery]
  | blacklist => exact h.mono.blacklist
  | whitelist =>
    show Within _ _ _ (PathMtu.whitelist _ _ _)
    unfold PathMtu.whitelist
    split
    · dsimp only
      split
      · refine Within.updateNodeStatus hroom h.mono fun hnone _ ha => hc ?_
        simp_all [Creates]
      · exact h.mono
    · exact h.mono
  | setAcceptCb cb =>
    exact Within.ensureUtcp (n := {n with acceptCb := cb}) hroom h.mono
      fun hnone => hc (Option.isNone_iff_eq_none.mpr hnone)
  | openChannel | setChannelTimeout => exact hensure rfl

theorem step_bounded (n : Peer) (ev : Event × Env × ℕ) (hroom : RoomForHeader n ev)
    (h : Bounded jumbograms n) : Bounded jumbograms (step jumbograms n ev) := by
  have hstep := step_within n ev (Nat.le_refl _)
    (fun hc => lessHeader_le (hroom hc) h.mtu_le)
    ⟨h.mtu_le, h.maxmtu_le, h.minmtu_le, Nat.le_refl _, h.utcp_le⟩
  exact ⟨hstep.mtu_le, hstep.maxmtu_le, hstep.minmtu_le, hstep.utcp_le⟩

end Bounds

section Packets

variable (jumbograms : Bool) (m : MeshState.Mesh) (destination : MeshState.NodeId)

/-- The check in prepare_packet lets more pass than UTCP ever sends of a bounded node. -/
theorem preparePacket_fits {data : MeshState.Bytes}
    (h : data.length ≤ mtu jumbograms - headerSize) :
    preparePacket jumbograms m destination data ≠ .error .einval := by
  have hlen : ¬maxsize jumbograms - headerSize < data.length := by
    unfold maxsize
    omega
  unfold preparePacket
  rw [if_neg hlen]
  split
  · exact fun h => nomatch h
  · exact fun h => nomatch h

/-- In every history in which UTCP instances are only made while the size limit of the
node has room for a header, the packets that UTCP makes for the node pass the check. -/
theorem utcp_packets_fit (acceptCb blacklisted : Bool) (evs : List (Event × Env × ℕ))
    (hroom : Along (step jumbograms) RoomForHeader (newPeer jumbograms acceptCb blacklisted) evs)
    (u : Utcp) (hu : (run jumbograms (newPeer jumbograms acceptCb blacklisted) evs).utcp = some u) :
    u.mtu ≤ mtu jumbograms - headerSize ∧
      ∀ data : MeshState.Bytes, data.length ≤ u.mtu →
        preparePacket jumbograms m destination data ≠ .error .einval := by
  have hbounded :
      Bounded jumbograms (run jumbograms (newPeer jumbograms acceptCb blacklisted) evs) :=
    kept_along step_bounded hroom
      ⟨Nat.le_refl _, Nat.le_refl _, Nat.zero_le _, fun _ h => nomatch h⟩
  have hmtu : u.mtu ≤ mtu jumbograms - headerSize := hbounded.utcp_le u hu
  exact ⟨hmtu, fun data hdata =>
    preparePacket_fits jumbograms m destination (hdata.trans hmtu)⟩

end Packets

section Histories

/-- A computer with memory for everything. -/
def ampleEnv : Env where
  clk := fun _ => ⟨1, 0⟩
  alloc := fun _ => ⟨true, fun _ => 0⟩
  rand := fun _ => 0

def history (evs : List Event) : List (Event × Env × ℕ) := evs.map fun ev => (ev, ampleEnv, 1)

/-- A channel to a node that answers a probe of fourteen hundred bytes. -/
def probedHistory : List (Event × Env × ℕ) :=
  history [.reachability, .openChannel, .validkey true, .probe id (fun _ => false),
    .probed true 1400 false]

theorem utcp_packets_fit_probed :
    Along (step false) RoomForHeader (newPeer false true false) probedHistory ∧
      ∃ u, (run false (newPeer false true false) probedHistory).utcp = some u ∧ u.mtu = 1368 ∧
        u.mtu ≤ mtu false - headerSize ∧
        ∀ data : MeshState.Bytes, data.length ≤ u.mtu →
          preparePacket false (MeshRuns.newMesh "self") 0 data ≠ .error .einval :=
  ⟨by decide, _, rfl, rfl, utcp_packets_fit false (MeshRuns.newMesh "self") 0 true false
    probedHistory (by decide) _ rfl⟩

/-- Once blacklisted, the node has no size limit left when its UTCP instance is made. -/
theorem whitelisted_packets_refused :
    ∃ u, (run false (newPeer false false false)
        (history [.blacklist, .whitelist, .openChannel])).utcp = some u ∧
      u.mtu = 65504 ∧ mtu false - headerSize < u.mtu ∧
      ∃ data : MeshState.Bytes, data.length ≤ u.mtu ∧
        preparePacket false (MeshRuns.newMesh "self") 0 data = .error .einval := by
  refine ⟨_, rfl, rfl, by decide, List.replicate 1484 0, ?_, ?_⟩
  · rw [List.length_replicate]
    decide
  · unfold preparePacket
    rw [List.length_replicate]
    rfl

end Histories

end Meshlink.PathMtu
