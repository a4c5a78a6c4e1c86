import Meshlink.MeshRuns

/-!
The header that prepare_packet writes in front of the data of a packet. It holds the
names of the destination and of the source in fields of sixteen bytes, the last of
which is always zero. Route looks the destination up by what it reads there; the source
is an argument of its own, and the field with its name is only logged. A valid name comes
back from its field exactly when it has at most fifteen characters; check_id sets no
limit.
-/
namespace Meshlink.PacketHeaders

open List Commands MeshState MetaKeys MeshRuns
open Packmsg (cString textBytes)

section Packets

/-- The size of the name fields of the header. -/
def fieldSize : ℕ := 16

def headerSize : ℕ := 2 * fieldSize

def mtu (jumbograms : Bool) : ℕ := if jumbograms then 8951 else 1451

def maxsize (jumbograms : Bool) : ℕ := mtu jumbograms + 64

/-- A vpn_packet_t with the bytes of its data that are in use. -/
structure VpnPacket where
  probe : Bool
  tcp : Bool
  data : Bytes

inductive Refusal
  | einval
  | eblacklisted
  deriving DecidableEq

/-- strncpy of a string without zeros into a field of `size` bytes. -/
def strncpy (size : ℕ) (source : Bytes) : Bytes :=
  source.take size ++ List.replicate (size - source.length) 0

/-- The last byte of the field stays zero. -/
def nameField (name : String) : Bytes := strncpy (fieldSize - 1) (textBytes name) ++ [0]

def preparePacket (jumbograms : Bool) (m : Mesh) (destination : NodeId) (data : Bytes) :
    Except Refusal VpnPacket :=
  if maxsize jumbograms - headerSize < data.length then .error .einval
  else if (m.node destination).blacklisted then .error .eblacklisted
  else .ok ⟨false, false,
    nameField (m.node destination).name ++ nameField (m.node m.self).name ++ data⟩

/-- What route makes of the bytes of a packet. -/
def toRoute (packet : VpnPacket) : Packet :=
  if packet.data.length < headerSize then .short
  else .full (cString packet.data) (packet.data.drop headerSize)

/-- The node that route finds for the destination of a packet. -/
def destinationOf (m : Mesh) (packet : VpnPacket) : Option NodeId :=
  match toRoute packet with
  | .short => none
  | .full destination _ => lookupNode m destination

end Packets

section Fields

variable {name : String}

/-- The characters of a valid name are ASCII, and none is the zero byte. -/
theorem valid_char_bounds {c : Char} (h : (c.isAlphanum || c == '_' || c == '-') = true) :
    0 < c.toNat ∧ c.toNat < 128 := by
  by_cases hsign : c = '_' ∨ c = '-'
  · rcases hsign with rfl | rfl
    · decide
    · decide
  have halnum : c.isAlphanum = true := by
    simpa [not_or.mp hsign] using h
  simp [Char.isAlphanum, Char.isAlpha, Char.isUpper, Char.isLower, Char.isDigit,
    UInt32.le_iff_toNat_le] at halnum
  omega

theorem char_bounds_of_checkId (h : checkId name = true) :
    ∀ c ∈ name.toList, 0 < c.toNat ∧ c.toNat < 128 := by
  simp only [checkId, Bool.and_eq_true, all_eq_true] at h
  intro c hc
  exact valid_char_bounds (h.2 c hc)

theorem byte_toNat {c : Char} (h : c.toNat < 128) : (UInt8.ofNat c.toNat).toNat = c.toNat := by
  rw [UInt8.toNat_ofNat']
  omega

/-- After the name the field holds a zero. -/
theorem nameField_eq (name : String) :
    ∃ zeros, nameField name = (textBytes name).take (fieldSize - 1) ++ 0 :: zeros := by
  refine ⟨List.replicate (fieldSize - 1 - (textBytes name).length) 0, ?_⟩
  unfold nameField strncpy
  rw [append_assoc, ← replicate_succ', replicate_succ]

theorem nameField_length (name : String) : (nameField name).length = fieldSize := by
  simp only [nameField, strncpy, length_append, length_take, length_replicate,
    length_singleton]
  change min 15 _ + (15 - _) + 1 = 16
  omega

/-- A valid name is read back up to its fifteenth character. -/
theorem cString_nameField (h : checkId name = true) (rest : Bytes) :
    cString (nameField name ++ rest) = String.ofList (name.toList.take (fieldSize - 1)) := by
  obtain ⟨zeros, hfield⟩ := nameField_eq name
  have hbounds := char_bounds_of_checkId h
  have hnonzero : ∀ b ∈ (textBytes name).take (fieldSize - 1), decide (b ≠ 0) = true := by
    intro b hb
    obtain ⟨c, hc, rfl⟩ := mem_map.mp (mem_of_mem_take hb)
    apply decide_eq_true
    intro hzero
    have hnat := congrArg UInt8.toNat hzero
    rw [byte_toNat (hbounds c hc).2] at hnat
    exact absurd hnat (Nat.ne_of_gt (hbounds c hc).1)
  unfold cString
  rw [hfield, append_assoc, takeWhile_append_of_pos hnonzero, cons_append,
    takeWhile_cons_of_neg (by decide), append_nil, textBytes, ← map_take,
    map_map]
  congr 1
  refine (map_congr_left fun c hc => ?_).trans (map_id _)
  change Char.ofNat (UInt8.ofNat c.toNat).toNat = c
  rw [byte_toNat (hbounds c (mem_of_mem_take hc)).2, Char.ofNat_toNat]

theorem cString_nameField_iff (h : checkId name = true) (rest : Bytes) :
    cString (nameField name ++ rest) = name ↔ name.length < fieldSize := by
  rw [cString_nameField h, ← String.toList_inj, String.toList_ofList, take_eq_self_iff,
    String.length_toList]
  exact Nat.lt_succ_iff.symm

end Fields

section Lookup

variable {m : Mesh}

/-- The node that a name leads to, when names are different. -/
theorem lookupNode_iff
    (hnames : ∀ i ∈ m.nodes, ∀ j ∈ m.nodes, (m.node i).name = (m.node j).name → i = j)
    {i : NodeId} (hi : i ∈ m.nodes) (name : String) :
    lookupNode m name = some i ↔ name = (m.node i).name := by
  constructor
  · intro hfound
    have hname := find?_some hfound
    exact (of_decide_eq_true hname).symm
  · intro heq
    cases hfound : lookupNode m name with
    | none =>
      have hnot := find?_eq_none.mp hfound i hi
      exact absurd heq.symm (by simpa using hnot)
    | some j =>
      have hname := find?_some hfound
      have hname : (m.node j).name = name := of_decide_eq_true hname
      rw [hnames j (mem_of_find?_eq_some hfound) i hi (hname.trans heq)]

/-- What route does with a packet once it has looked the destination up. -/
def routeTo (p : Params) (source : NodeId) (packet : Packet) (payload : Bytes) :
    Option NodeId → Command Mesh Unit
  | none => pure ()
  | some j => do
    let m ← gets id
    if j = m.self then deliver source payload
    else if !(m.node j).reachable then pure ()
    else if j = source then pure ()
    else sendPacket p j packet

/-- Of the header, route uses nothing but the node that `destinationOf` finds. -/
theorem route_eq_routeTo (p : Params) (source : NodeId) {packet : VpnPacket} {name : String}
    {data : Bytes} (h : toRoute packet = .full name data) :
    route p source (toRoute packet) m =
      routeTo p source (toRoute packet) data (destinationOf m packet) m := by
  unfold destinationOf
  rw [h]
  cases hfound : lookupNode m name with
  | none => simp [route, routeTo, gets_bind, hfound]
  | some j => simp [route, routeTo, gets_bind, hfound]

end Lookup

section Resolution

variable {jumbograms : Bool} {sender hop : Mesh} {i d : NodeId} {data : Bytes}
  {packet : VpnPacket}

theorem preparePacket_data (h : preparePacket jumbograms sender i data = .ok packet) :
    packet.data =
      nameField (sender.node i).name ++ nameField (sender.node sender.self).name ++ data := by
  unfold preparePacket at h
  split at h
  · cases h
  split at h
  · cases h
  · cases h
    rfl

/-- What route sees of a prepared packet. -/
theorem toRoute_prepared (h : preparePacket jumbograms sender i data = .ok packet) :
    toRoute packet = .full (cString (nameField (sender.node i).name ++
      (nameField (sender.node sender.self).name ++ data))) data := by
  have hdata := preparePacket_data h
  have hdest := nameField_length (sender.node i).name
  have hsource := nameField_length (sender.node sender.self).name
  unfold toRoute
  rw [if_neg]
  · rw [hdata, append_assoc]
    congr 1
    rw [← append_assoc]
    apply drop_left'
    rw [length_append, hdest, hsource]
    rfl
  · rw [hdata, length_append, length_append, hdest, hsource]
    unfold headerSize
    omega

/-- On every hop that knows the destination, the header leads to it exactly when its name
fits into the field. Route acts on the node that the header leads to, and on its own
argument as the source. -/
theorem header_resolves_iff (jumbograms : Bool) (sender hop : Mesh) (i d : NodeId)
    (data : Bytes) (packet : VpnPacket)
    (hprepared : preparePacket jumbograms sender i data = .ok packet)
    (hdest : checkId (sender.node i).name = true)
    (hnames : ∀ a ∈ hop.nodes, ∀ b ∈ hop.nodes, (hop.node a).name = (hop.node b).name → a = b)
    (hd : d ∈ hop.nodes ∧ (hop.node d).name = (sender.node i).name) :
    (destinationOf hop packet = some d ↔ (sender.node i).name.length < fieldSize) ∧
      ∀ p source, route p source (toRoute packet) hop =
        routeTo p source (toRoute packet) data (destinationOf hop packet) hop := by
  have hroute := toRoute_prepared hprepared
  refine ⟨?_, fun p source => route_eq_routeTo p source hroute⟩
  unfold destinationOf
  rw [hroute]
  refine (lookupNode_iff hnames hd.1 _).trans ?_
  rw [hd.2]
  exact cString_nameField_iff hdest _

/-- A mesh with nodes of the given names, seen from one of them. -/
def namedMesh (names : List String) (self : NodeId) : Mesh :=
  { newMesh "" with
    self := self
    nodes := List.range names.length
    node := fun i => newNode (names.getD i "")
    nextNode := names.length
    receiveCb := true }

/-- A long name of the sender does no harm. -/
theorem header_resolves_iff_short :
    let m := namedMesh ["abcdefghijklmnop", "bob"]
    ∃ packet, preparePacket false (m 0) 1 [7] = .ok packet ∧
      destinationOf (m 1) packet = some 1 := by
  intro m
  exact ⟨_, rfl, (header_resolves_iff false (m 0) (m 1) 1 1 [7] _ rfl (by decide) (by decide)
    (by decide)).1.mpr (by decide)⟩

/-- A packet for a name of sixteen characters reaches the application on the node whose
name is its first fifteen. -/
theorem long_name_misdelivered :
    let names := ["alice", "abcdefghijklmnop", "abcdefghijklmno"]
    (∀ name ∈ names, checkId name = true) ∧
      ∃ packet, preparePacket false (namedMesh names 0) 1 [7] = .ok packet ∧
        destinationOf (namedMesh names 0) packet = some 2 ∧
        (after (route plainParams 0 (toRoute packet)) (namedMesh names 2)).log =
          [.received (some 0) (.packet [7])] := by
  refine ⟨by decide +kernel, _, rfl, by decide +kernel, by decide +kernel⟩

end Resolution

end Meshlink.PacketHeaders
