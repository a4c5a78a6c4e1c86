import Meshlink.MeshState

/-!
The addresses that an outgoing connection is tried at: get_next_outgoing_address in
net_socket.c and the functions around it, for a node to which no attempt succeeds. The
canonical address of a node is resolved in the background and used exclusively; only without
one are the recent addresses tried, and then those that its edges tell.
-/
namespace Meshlink.OutgoingAddresses

open MeshState

inductive OutgoingState
  | start
  | canonicalResolve
  | canonical
  | recent
  | known
  | ended
  | noKnownAddresses
  deriving DecidableEq

/-- `ai` is the list in use and `aip` its part from the address that was tried last; the empty
list is a null pointer. -/
structure Outgoing where
  state : OutgoingState
  ai : List Sockaddr
  aip : List Sockaddr
  deriving DecidableEq

section Lists

variable (edge : EdgeId → Edge) (nd : Node)

def reverseAddress (k : EdgeId) : Option Sockaddr := (edge k).reverse.map fun r => (edge r).address

/-- A new address goes to the head of the list. -/
def collect (ai : List Sockaddr) : Option Sockaddr → List Sockaddr
  | none => ai
  | some sa => ai.insert sa

def getKnownAddresses : List Sockaddr := (nd.edgeTree.map (reverseAddress edge)).foldl collect []

def getRecentAddresses : List Sockaddr :=
  (nd.recent.take maxRecent).takeWhile fun sa => sa ≠ .unspec

/-- A canonical address is only resolved when it has a port. -/
def resolves : Bool := nd.canonicalAddress.any fun address => address.toList.contains ' '

/-- Go on to the next address of a list, or to the next state at its end. -/
def nextFrom (o : Outgoing) (list : List Sockaddr) (next : OutgoingState) : Bool × Outgoing :=
  let o := if o.aip = [] then {o with ai := list, aip := list} else {o with aip := o.aip.tail}
  if o.aip ≠ [] then (true, o) else (false, ⟨next, [], []⟩)

def getNextOutgoingAddress (o : Outgoing) : Bool × Outgoing :=
  let start := o.state = .start
  let o := if start then {o with state := .canonicalResolve} else o
  if o.state = .canonicalResolve ∧ resolves nd then (false, o)
  else
    let o := if o.state = .canonicalResolve then {o with state := .recent} else o
    let r := if o.state = .canonical then nextFrom o o.ai .ended else (false, o)
    let r := if !r.1 ∧ r.2.state = .recent then nextFrom r.2 (getRecentAddresses nd) .known else r
    let r := if !r.1 ∧ r.2.state = .known then nextFrom r.2 (getKnownAddresses edge nd) .ended
      else r
    if !r.1 ∧ start then (false, {r.2 with state := .noKnownAddresses}) else r

/-- do_outgoing_connection when no socket can be connected: the addresses that were tried. -/
def doOutgoingConnection : ℕ → Outgoing → List Sockaddr × Outgoing
  | 0, o => ([], o)
  | attempts + 1, o =>
    let r := getNextOutgoingAddress edge nd o
    if r.1 then
      let rest := doOutgoingConnection attempts r.2
      (r.2.aip.headD .unspec :: rest.1, rest.2)
    else ([], r.2)

/-- The resolver's answer; it is the empty list when the name has no address. -/
def canonicalResolveCb (attempts : ℕ) (o : Outgoing) (ai : List Sockaddr) :
    List Sockaddr × Outgoing :=
  if o.state = .canonicalResolve then doOutgoingConnection edge nd attempts ⟨.canonical, ai, []⟩
  else ([], o)

/-- All addresses from OUTGOING_START on, with what the resolver answers if it is asked. -/
def outgoingAddresses (attempts : ℕ) (resolved : List Sockaddr) : List Sockaddr × Outgoing :=
  let first := doOutgoingConnection edge nd attempts ⟨.start, [], []⟩
  let second := canonicalResolveCb edge nd attempts first.2 resolved
  (first.1 ++ second.1, second.2)

end Lists

theorem mem_collect {ai : List Sockaddr} {found : Option Sockaddr} {sa : Sockaddr} :
    sa ∈ collect ai found ↔ sa ∈ ai ∨ some sa = found := by
  cases found with
  | none => simp [collect]
  | some other => rw [collect, List.mem_insert_iff, Option.some.injEq, or_comm]

theorem nodup_collect {ai : List Sockaddr} (h : ai.Nodup) (found : Option Sockaddr) :
    (collect ai found).Nodup := by
  cases found with
  | none => exact h
  | some sa => exact h.insert

variable (edge : EdgeId → Edge) (nd : Node)

/-- The known addresses are those of the reverses of the node's edges, each one once. -/
theorem getKnownAddresses_spec :
    (getKnownAddresses edge nd).Nodup ∧ ∀ sa, sa ∈ getKnownAddresses edge nd ↔
      ∃ k ∈ nd.edgeTree, reverseAddress edge k = some sa := by
  have hfold : ∀ (found : List (Option Sockaddr)) (ai : List Sockaddr), ai.Nodup →
      (found.foldl collect ai).Nodup ∧
        ∀ sa, sa ∈ found.foldl collect ai ↔ sa ∈ ai ∨ some sa ∈ found := by
    intro found
    induction found with
    | nil => exact fun ai h => ⟨h, by simp⟩
    | cons first rest ih =>
      intro ai h
      obtain ⟨hnodup, hmem⟩ := ih (collect ai first) (nodup_collect h first)
      refine ⟨hnodup, fun sa => ?_⟩
      rw [List.foldl_cons, hmem, mem_collect, List.mem_cons, or_assoc]
  obtain ⟨hnodup, hmem⟩ := hfold (nd.edgeTree.map (reverseAddress edge)) [] List.nodup_nil
  refine ⟨hnodup, fun sa => ?_⟩
  unfold getKnownAddresses
  rw [hmem]
  simp

/-- In the middle of the last list, the rest of it is tried. -/
theorem doOutgoingConnection_last {state : OutgoingState}
    (hstate : state = .canonical ∨ state = .known) (ai rest : List Sockaddr) (sa : Sockaddr)
    (attempts : ℕ) (h : rest.length < attempts) :
    doOutgoingConnection edge nd attempts ⟨state, ai, sa :: rest⟩ = (rest, ⟨.ended, [], []⟩) := by
  induction rest generalizing sa attempts with
  | nil =>
    obtain ⟨n, rfl⟩ := Nat.exists_eq_succ_of_ne_zero (Nat.ne_of_gt h)
    rcases hstate with rfl | rfl <;> rfl
  | cons next rest ih =>
    obtain ⟨n, rfl⟩ := Nat.exists_eq_succ_of_ne_zero (Nat.ne_of_gt (Nat.zero_lt_of_lt h))
    have hrest := ih next n (Nat.lt_of_succ_lt_succ h)
    rcases hstate with rfl | rfl
    · simp [doOutgoingConnection, getNextOutgoingAddress, nextFrom, hrest]
    · simp [doOutgoingConnection, getNextOutgoingAddress, nextFrom, hrest]

/-- The recent addresses that are left are followed by the known ones. -/
theorem doOutgoingConnection_recent (ai rest : List Sockaddr)
    (sa : Sockaddr) (attempts : ℕ)
    (h : rest.length + (getKnownAddresses edge nd).length < attempts) :
    doOutgoingConnection edge nd attempts ⟨.recent, ai, sa :: rest⟩ =
      (rest ++ getKnownAddresses edge nd, ⟨.ended, [], []⟩) := by
  induction rest generalizing sa attempts with
  | nil =>
    obtain ⟨n, rfl⟩ := Nat.exists_eq_succ_of_ne_zero (Nat.ne_of_gt (Nat.zero_lt_of_lt h))
    cases hknown : getKnownAddresses edge nd with
    | nil => simp [doOutgoingConnection, getNextOutgoingAddress, nextFrom, hknown]
    | cons first others =>
      rw [hknown] at h
      have hrest := doOutgoingConnection_last edge nd (.inr rfl) (first :: others) others first n
        (by simp at h; omega)
      simp [doOutgoingConnection, getNextOutgoingAddress, nextFrom, hknown, hrest]
  | cons next rest ih =>
    obtain ⟨n, rfl⟩ := Nat.exists_eq_succ_of_ne_zero (Nat.ne_of_gt (Nat.zero_lt_of_lt h))
    have hrest := ih next n (by simp at h; omega)
    simp [doOutgoingConnection, getNextOutgoingAddress, nextFrom, hrest]

/-- With a canonical address only what it resolves to is tried; without one the recent and then
the known addresses are. Every entry of these lists is tried once before the end is reached. -/
theorem outgoing_addresses_exclusive (resolved : List Sockaddr)
    {attempts : ℕ} (hattempts : resolved.length + (getRecentAddresses nd).length +
      (getKnownAddresses edge nd).length < attempts) :
    (outgoingAddresses edge nd attempts resolved =
      if resolves nd then (resolved, ⟨.ended, [], []⟩)
      else (getRecentAddresses nd ++ getKnownAddresses edge nd,
        ⟨if getRecentAddresses nd ++ getKnownAddresses edge nd = [] then .noKnownAddresses
          else .ended, [], []⟩)) ∧
      (getKnownAddresses edge nd).Nodup ∧
      ∀ sa, sa ∈ getKnownAddresses edge nd ↔
        ∃ k ∈ nd.edgeTree, reverseAddress edge k = some sa := by
  refine ⟨?_, getKnownAddresses_spec edge nd⟩
  obtain ⟨n, rfl⟩ := Nat.exists_eq_succ_of_ne_zero (Nat.ne_of_gt (Nat.zero_lt_of_lt hattempts))
  cases hresolves : resolves nd with
  | true =>
    cases resolved with
    | nil =>
      simp [outgoingAddresses, canonicalResolveCb, doOutgoingConnection, getNextOutgoingAddress,
        nextFrom, hresolves]
    | cons sa rest =>
      have hrest := doOutgoingConnection_last edge nd (.inl rfl) (sa :: rest) rest sa n
        (by simp at hattempts; omega)
      simp [outgoingAddresses, canonicalResolveCb, doOutgoingConnection, getNextOutgoingAddress,
        nextFrom, hresolves, hrest]
  | false =>
    cases hrecent : getRecentAddresses nd with
    | cons sa rest =>
      rw [hrecent] at hattempts
      have hrest := doOutgoingConnection_recent edge nd (sa :: rest) rest sa n
        (by simp at hattempts; omega)
      simp [outgoingAddresses, canonicalResolveCb, doOutgoingConnection, getNextOutgoingAddress,
        nextFrom, hresolves, hrecent, hrest]
    | nil =>
      cases hknown : getKnownAddresses edge nd with
      | nil =>
        simp [outgoingAddresses, canonicalResolveCb, doOutgoingConnection, getNextOutgoingAddress,
          nextFrom, hresolves, hrecent, hknown]
      | cons sa rest =>
        rw [hknown] at hattempts
        have hrest := doOutgoingConnection_last edge nd (.inr rfl) (sa :: rest) rest sa n
          (by simp at hattempts; omega)
        simp [outgoingAddresses, canonicalResolveCb, doOutgoingConnection, getNextOutgoingAddress,
          nextFrom, hresolves, hrecent, hknown, hrest]

/-- A node that can be connected to at a recent address, with a canonical name that has no
address. -/
def hiddenNode : Node :=
  {newNode "hidden" with canonicalAddress := some "hidden.example 655", recent := [.inet 1 655]}

/-- An edge that has the next one as its reverse. -/
def mutualEdge (k : EdgeId) : Edge :=
  {newEdge 1 2 with reverse := some (k + 1), address := .inet k 655}

/-- Two recent addresses and two known ones, and a canonical name with two addresses. -/
def knownNode : Node :=
  {hiddenNode with recent := [.inet 1 655, .inet 2 655], edgeTree := [4, 6]}

theorem outgoing_addresses_exclusive_all :
    outgoingAddresses mutualEdge knownNode 7 [.inet 8 655, .inet 9 655] =
        ([.inet 8 655, .inet 9 655], ⟨.ended, [], []⟩) ∧
      outgoingAddresses mutualEdge {knownNode with canonicalAddress := none} 5 [] =
        ([.inet 1 655, .inet 2 655, .inet 7 655, .inet 5 655], ⟨.ended, [], []⟩) :=
  ⟨(outgoing_addresses_exclusive _ knownNode _ (by decide +kernel)).1,
    (outgoing_addresses_exclusive _ {knownNode with canonicalAddress := none} []
      (by decide +kernel)).1⟩

/-- The end is reached without the recent address. -/
theorem recent_address_not_tried :
    outgoingAddresses (fun _ => newEdge 1 2) hiddenNode 3 [] = ([], ⟨.ended, [], []⟩) ∧
      getRecentAddresses hiddenNode = [.inet 1 655] := ⟨rfl, rfl⟩

end Meshlink.OutgoingAddresses
