import Meshlink.PathMtu

/-!
What path MTU discovery knows is what it was told: the smallest size that is known to be
possible was the size of an answer, both sizes stay below the largest one, and so do the
probes. A node is followed together with the probes that were sent to it and the longest
answer since nothing was known.
-/
namespace Meshlink.ProbeSizes

open UtcpState PacketHeaders PathMtu

section Model

variable (jumbograms : Bool)

/-- A node while a burst is sent to it, with the sizes of the probes. -/
def sendProbeLogged (draw : ℕ → ℕ) (refused : ℕ → Bool) (s : Peer × List ℕ) (i : ℕ) :
    Peer × List ℕ :=
  (sendProbe jumbograms draw refused s.1 i,
    s.2 ++ (probeSize jumbograms s.1 i (draw i)).toList)

/-- The sizes of the probes that an event sends. -/
def probesSent (n : Peer) : Event × Env × ℕ → List ℕ
  | (.probe draw refused, e, _) =>
    let (n, burst) := nextRound jumbograms e n
    if burst then ((List.range 5).foldl (sendProbeLogged jumbograms draw refused) (n, [])).2
    else []
  | _ => []

/-- A node, the longest answer since its minimum was zero, and the probes sent to it. -/
structure Discovery where
  node : Peer
  longest : ℕ
  sent : List ℕ

def follow (d : Discovery) (ev : Event × Env × ℕ) : Discovery where
  node := step jumbograms d.node ev
  longest :=
    if (step jumbograms d.node ev).minmtu = 0 then 0 else max d.longest (replySize ev.1)
  sent := d.sent ++ probesSent jumbograms d.node ev

end Model

section Sizes

variable {jumbograms : Bool} {longest room : ℕ} {n : Peer}

def ProbesFit (jumbograms : Bool) (sizes : List ℕ) : Prop :=
  ∀ size ∈ sizes, 64 ≤ size ∧ size ≤ mtu jumbograms

theorem ProbesFit.append {xs ys : List ℕ} (hx : ProbesFit jumbograms xs)
    (hy : ProbesFit jumbograms ys) : ProbesFit jumbograms (xs ++ ys) := by
  intro size hsize
  rcases List.mem_append.mp hsize with h | h
  · exact hx size h
  · exact hy size h

/-- The probe that tries a larger size is only sent while there is one. -/
theorem probeSize_fits (h : Within jumbograms longest room n) (i draw : ℕ) :
    ProbesFit jumbograms (probeSize jumbograms n i draw).toList := by
  intro size hsize
  have hmtu : 64 ≤ mtu jumbograms := Nat.le_trans (by decide) (minMtu_le_mtu)
  have hmax := h.maxmtu_le
  have hsize : probeSize jumbograms n i draw = some size := Option.mem_toList.mp hsize
  unfold probeSize at hsize
  split at hsize
  · split at hsize
    · cases hsize
    · cases hsize
      omega
  · split at hsize
    · cases hsize
      omega
    rename_i hopen
    have hdraw := Nat.mod_lt draw (Nat.sub_pos_of_lt (Nat.lt_of_not_le hopen))
    cases hsize
    omega

/-- A refused probe lowers the sizes for those that follow it in the burst. -/
theorem burst_fits (draw : ℕ → ℕ) (refused : ℕ → Bool) (is : List ℕ) {s : Peer × List ℕ}
    (h : Within jumbograms longest room s.1) (hsent : ProbesFit jumbograms s.2) :
    ProbesFit jumbograms (is.foldl (sendProbeLogged jumbograms draw refused) s).2 := by
  induction is generalizing s with
  | nil => exact hsent
  | cons i is ih => exact ih (h.sendProbe draw refused i) (hsent.append (probeSize_fits h i _))

theorem probesSent_fit (ev : Event × Env × ℕ) (hroom : mtu jumbograms - headerSize ≤ room)
    (h : Within jumbograms longest room n) :
    ProbesFit jumbograms (probesSent jumbograms n ev) := by
  have hnil : ProbesFit jumbograms [] := fun _ hsize => nomatch hsize
  obtain ⟨ev, e, granularity⟩ := ev
  cases ev with
  | probe draw refused =>
    unfold probesSent
    dsimp only
    split
    · exact burst_fits draw refused _ (h.nextRound hroom) hnil
    · exact hnil
  | _ => exact hnil

/-- The invariant of a history; UTCP gets a size of sixteen bits in any case. -/
structure Followed (jumbograms : Bool) (d : Discovery) : Prop where
  within : Within jumbograms d.longest (2 ^ 16) d.node
  sent : ProbesFit jumbograms d.sent

theorem follow_followed (d : Discovery) (ev : Event × Env × ℕ) (h : Followed jumbograms d) :
    Followed jumbograms (follow jumbograms d ev) := by
  have hroom : mtu jumbograms - headerSize ≤ 2 ^ 16 :=
    (Nat.sub_le _ _).trans (Nat.le_of_lt mtu_lt)
  have hstep := step_within d.node ev hroom
    (fun _ => Nat.le_of_lt (UInt16.toNat_lt _)) h.within
  refine ⟨?_, h.sent.append (probesSent_fit ev hroom h.within)⟩
  unfold follow
  dsimp only
  split
  · rename_i hzero
    exact ⟨hstep.mtu_le, hstep.maxmtu_le, hstep.minmtu_le, Nat.le_of_eq hzero, hstep.utcp_le⟩
  · exact hstep

/-- In every history of a node, the sizes that the discovery keeps are at most the largest
one, the smallest of them is at most the longest answer since it was zero, and every probe
is between 64 bytes and the largest size long. -/
theorem discovery_bounded (jumbograms acceptCb blacklisted : Bool) (evs : List (Event × Env × ℕ)) :
    let d := evs.foldl (follow jumbograms) ⟨newPeer jumbograms acceptCb blacklisted, 0, []⟩
    d.node = run jumbograms (newPeer jumbograms acceptCb blacklisted) evs ∧
      d.node.minmtu ≤ mtu jumbograms ∧ d.node.maxmtu ≤ mtu jumbograms ∧
      d.node.minmtu ≤ d.longest ∧ ∀ size ∈ d.sent, 64 ≤ size ∧ size ≤ mtu jumbograms := by
  have hrun (d : Discovery) (h : Followed jumbograms d) :
      (evs.foldl (follow jumbograms) d).node = run jumbograms d.node evs ∧
        Followed jumbograms (evs.foldl (follow jumbograms) d) := by
    induction evs generalizing d with
    | nil => exact ⟨rfl, h⟩
    | cons ev evs ih => exact ih (follow jumbograms d ev) (follow_followed d ev h)
  obtain ⟨hnode, h⟩ := hrun ⟨newPeer jumbograms acceptCb blacklisted, 0, []⟩
    ⟨newPeer_within acceptCb blacklisted, fun _ hsize => nomatch hsize⟩
  exact ⟨hnode, h.within.minmtu_le, h.within.maxmtu_le, h.within.minmtu_heard, h.sent⟩

end Sizes

end Meshlink.ProbeSizes
