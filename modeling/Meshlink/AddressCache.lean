import Meshlink.MeshState

/-!
The cache from UDP addresses to nodes: hash.c, and the functions of node.c that use it. An
address has one slot, which it shares with others; whatever is inserted takes the slot over,
and a search compares the whole key. The values are only trusted because a node's slot is
cleared before its address changes.
-/
namespace Meshlink.AddressCache

open MeshState (NodeId)

/-- The bytes of a sockaddr_t. -/
abbrev Address (size : ℕ) := Vector UInt8 size

section Hash

/-- Up to three of the last four of the first `len` bytes; the first of four is not read. -/
def hashRound (q : List UInt8) (len : ℕ) (hash : UInt32) : UInt32 :=
  [3, 2, 1].foldl (fun hash i =>
    if i < min len 4 then hash + (q.getD (len - i) 0).toUInt32 <<< UInt32.ofNat (8 * i)
    else hash) hash * 0x9e370001

def hashFrom (q : List UInt8) (hash : UInt32) : ℕ → UInt32
  | len + 5 => hashFrom q (hashRound q (len + 5) hash) (len + 1)
  | len => hashRound q len hash

def hashFunction (q : List UInt8) : UInt32 := hashFrom q 0 q.length

def modulo (hash : UInt32) (n : ℕ) : ℕ :=
  if n = 0x100 then
    let byte (k : UInt32) := (hash >>> k) &&& 0xff
    ((hash >>> 24) ^^^ byte 16 ^^^ byte 8 ^^^ (hash &&& 0xff)).toNat
  else if n = 0x10000 then ((hash >>> 16) ^^^ (hash &&& 0xffff)).toNat
  else hash.toNat % n

structure Hash (size : ℕ) where
  n : ℕ
  keys : ℕ → Address size
  values : ℕ → Option NodeId

variable {size : ℕ}

def hashAlloc (n : ℕ) : Hash size where
  n := n
  keys := fun _ => Vector.replicate size 0
  values := fun _ => none

def Hash.slot (hash : Hash size) (key : Address size) : ℕ := modulo (hashFunction key.toList) hash.n

def hashInsert (hash : Hash size) (key : Address size) (value : Option NodeId) : Hash size where
  n := hash.n
  keys := Function.update hash.keys (hash.slot key) key
  values := Function.update hash.values (hash.slot key) value

def hashSearch (hash : Hash size) (key : Address size) : Option NodeId :=
  if key = hash.keys (hash.slot key) then hash.values (hash.slot key) else none

end Hash

variable {size : ℕ}

structure Node (size : ℕ) where
  address : Address size
  sock : ℕ

structure Mesh (size : ℕ) where
  self : NodeId
  node : NodeId → Node size
  listenSocket : List (Address size)
  nodeUdpCache : Hash size

/-- The bytes of sa_family. -/
def family (sa : Address size) : List UInt8 := sa.toList.take 2

def lookupNodeUdp (m : Mesh size) (sa : Address size) : Option NodeId :=
  hashSearch m.nodeUdpCache sa

/-- The first listening socket of the address's family, or the first of all. -/
def socketFor (m : Mesh size) (sa : Address size) : ℕ :=
  (m.listenSocket.findIdx? fun known => family known = family sa).getD 0

def updateNodeUdp (m : Mesh size) (call : NodeId × Option (Address size)) : Mesh size :=
  let i := call.1
  if i = m.self then m
  else
    let cleared := hashInsert m.nodeUdpCache (m.node i).address none
    match call.2 with
    | none => {m with nodeUdpCache := cleared}
    | some sa => {m with
        node := Function.update m.node i ⟨sa, socketFor m sa⟩
        nodeUdpCache := hashInsert cleared sa (some i)}

/-- Any nodes and sockets, with the table that init_nodes allocates. -/
def initNodes (self : NodeId) (node : NodeId → Node size) (listenSocket : List (Address size)) :
    Mesh size :=
  ⟨self, node, listenSocket, hashAlloc 0x100⟩

/-- A node is only found under its address, in the slot of that address. -/
def Faithful (m : Mesh size) : Prop :=
  ∀ s i, m.nodeUdpCache.values s = some i →
    m.nodeUdpCache.keys s = (m.node i).address ∧ m.nodeUdpCache.slot (m.node i).address = s

@[simp] theorem slot_hashInsert (hash : Hash size) (key other : Address size)
    (value : Option NodeId) : (hashInsert hash key value).slot other = hash.slot other := rfl

@[simp] theorem values_hashInsert (hash : Hash size) (key : Address size) (value : Option NodeId)
    (s : ℕ) : (hashInsert hash key value).values s =
      if s = hash.slot key then value else hash.values s :=
  Function.update_apply ..

@[simp] theorem keys_hashInsert (hash : Hash size) (key : Address size) (value : Option NodeId)
    (s : ℕ) : (hashInsert hash key value).keys s =
      if s = hash.slot key then key else hash.keys s :=
  Function.update_apply ..

/-- Once its slot is cleared, a node is in no slot at all. -/
theorem cleared_values {m : Mesh size} (hm : Faithful m) (i : NodeId) {s : ℕ} {j : NodeId}
    (h : (hashInsert m.nodeUdpCache (m.node i).address none).values s = some j) :
    j ≠ i ∧ s ≠ m.nodeUdpCache.slot (m.node i).address ∧ m.nodeUdpCache.values s = some j := by
  rw [values_hashInsert] at h
  split at h
  · cases h
  rename_i hs
  refine ⟨?_, hs, h⟩
  rintro rfl
  exact hs (hm s j h).2.symm

theorem faithful_update {m : Mesh size} (hm : Faithful m) (call : NodeId × Option (Address size)) :
    Faithful (updateNodeUdp m call) := by
  obtain ⟨i, sa⟩ := call
  unfold updateNodeUdp
  dsimp only
  split
  · exact hm
  cases sa with
  | none =>
    intro s j h
    obtain ⟨-, hs, hold⟩ := cleared_values hm i h
    simpa [hs] using hm s j hold
  | some sa =>
    intro s j h
    by_cases hslot : s = m.nodeUdpCache.slot sa
    · obtain rfl : i = j := by simpa [hslot] using h
      simp [hslot]
    · obtain ⟨hj, hs, hold⟩ := cleared_values hm i (by simpa [hslot] using h)
      simpa [hslot, hs, hj] using hm s j hold

theorem faithful_initNodes (self : NodeId) (node : NodeId → Node size)
    (listenSocket : List (Address size)) : Faithful (initNodes self node listenSocket) :=
  fun _ _ hnone => nomatch hnone

/-- Whatever calls were made, a node that is found for an address has that address. -/
theorem found_node_has_address (self : NodeId) (node : NodeId → Node size)
    (listenSocket : List (Address size)) (calls : List (NodeId × Option (Address size)))
    {sa : Address size} {i : NodeId}
    (h : lookupNodeUdp (calls.foldl updateNodeUdp (initNodes self node listenSocket)) sa = some i) :
    ((calls.foldl updateNodeUdp (initNodes self node listenSocket)).node i).address = sa := by
  have hfaithful : Faithful (calls.foldl updateNodeUdp (initNodes self node listenSocket)) :=
    List.foldlRecOn calls updateNodeUdp (faithful_initNodes self node listenSocket)
      fun _ hm call _ => faithful_update hm call
  unfold lookupNodeUdp hashSearch at h
  split at h
  · rename_i hkey
    rw [hkey]
    exact (hfaithful _ i h).1.symm
  · cases h

/-- Two nodes share an address, and the first one moves on. -/
theorem found_node_has_address_moved :
    let node : NodeId → Node 4 := fun _ => ⟨#v[0, 0, 0, 0], 0⟩
    let calls := [(1, some #v[2, 0, 0, 7]), (2, some #v[2, 0, 0, 7]), (1, some #v[2, 0, 0, 8])]
    let m := calls.foldl updateNodeUdp (initNodes 0 node [#v[2, 0, 0, 1]])
    lookupNodeUdp m #v[2, 0, 0, 8] = some 1 ∧ (m.node 1).address = #v[2, 0, 0, 8] := by
  intro node calls m
  have hfound : lookupNodeUdp m #v[2, 0, 0, 8] = some 1 := by decide +kernel
  exact ⟨hfound, found_node_has_address 0 node [#v[2, 0, 0, 1]] calls hfound⟩

end Meshlink.AddressCache
