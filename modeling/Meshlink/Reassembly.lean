import Meshlink.SackTable
import Meshlink.SendAtomicity
import Meshlink.Systems
import Meshlink.UtcpProcess

/-!
The receiving half of a reliable connection under the segments of one byte stream.
The stream is counted from its start, and `taken` says how many of its bytes are
before rcv.nxt. What the SACK table records is stored in the receive buffer as long
as no segment in order meets a table that sack_consume leaves out of order: it clears
only the first entry when it consumes more than is stored, and two overlapping
entries that reach across the same point both end up at offset 0.
-/
namespace Meshlink.Reassembly

open SerialNumbers UtcpBuffer UtcpState UtcpSender UtcpReceiver UtcpEndpoint
open UtcpProcess Commands SackTable Systems

/-- What belongs to the receiving half of a connection. -/
structure Receiver where
  nxt : UInt32
  irs : UInt32
  buf : Buffer
  sacks : List Sack
  installed : Bool

def receiver (c : Conn) : Receiver := ⟨c.rcvNxt, c.rcvIrs, c.rcvbuf, c.sacks, c.recv⟩

/-- The byte at an offset from rcv.nxt is stored with the value it has in the stream. -/
def StoredAt (stream : ℕ → UInt8) (taken : ℕ) (buf : Buffer) (o : ℕ) : Prop :=
  o < buf.used ∧ buf.get o = stream (taken + o)

/-- What the SACK table promises: entries in use come first, by increasing offset, and
every byte of their ranges is in the receive buffer. -/
structure Faithful (stream : ℕ → UInt8) (taken : ℕ) (r : Receiver) : Prop where
  ordered : Ordered r.sacks
  covered : Covered (StoredAt stream taken r.buf) r.sacks

/-- A receiver in which that promise can be kept: the table has its four entries and the
buffer does not hold more than it may, which is at most what 32 bits can count. -/
structure Sound (stream : ℕ → UInt8) (taken : ℕ) (r : Receiver) : Prop
    extends Faithful stream taken r where
  entries : r.sacks.length = nsacks
  wf : r.buf.Wf
  used_le : r.buf.used ≤ r.buf.maxsize
  maxsize_lt : r.buf.maxsize < 2 ^ 32

/-- A segment cut from the stream that fits into the receive buffer. -/
def Cut (stream : ℕ → UInt8) (taken : ℕ) (r : Receiver) (i : Incoming) : Prop :=
  ∃ ahead, i.hdr.seq = place r.nxt ahead ∧ ahead + i.data.length ≤ r.buf.maxsize ∧
    ∀ j, j < i.data.length → i.data[j]? = some (stream (taken + ahead + j))

/-- Where data in order of the given length leads: to its end, or to the end of the
first range when it ends inside that one. -/
def frontier (sacks : List Sack) (len : ℕ) : ℕ :=
  match sacks with
  | [] => len
  | s :: _ => if Crosses len s then s.offset + s.len else len

/-- A segment in order leaves the table in order: it is not longer than what is stored
unless only the first entry is in use, and it does not lead into two ranges at once. -/
structure Orderly (r : Receiver) (len : ℕ) : Prop where
  stored : r.buf.used < len → ∀ s ∈ r.sacks.tail, s.len = 0
  apart : OneCrosses (frontier r.sacks len) r.sacks

variable {stream : ℕ → UInt8} {taken : ℕ} {r : Receiver} {c : Conn}

section Table

theorem inUse_length_le (h : r.sacks.length = nsacks) : (inUse r.sacks).length ≤ 2 * nsacks := by
  have hle : (inUse r.sacks).length ≤ r.sacks.length := List.length_filter_le _ _
  omega

/-- A range ends inside the stored bytes. -/
theorem Faithful.range_le (h : Faithful stream taken r) {s : Sack} (hs : s ∈ r.sacks)
    (hlen : s.len ≠ 0) : s.offset + s.len ≤ r.buf.used := by
  have hlast := (h.covered s hs (s.offset + s.len - 1) (by omega) (by omega)).1
  omega

theorem Faithful.empty_of_unused (h : Faithful stream taken r) (hused : r.buf.used = 0) :
    ∀ s ∈ r.sacks, s.len = 0 := by
  intro s hs
  by_contra hne
  have hle := h.range_le hs hne
  omega

theorem faithful_of_empty (h : ∀ s ∈ r.sacks, s.len = 0) : Faithful stream taken r := by
  refine ⟨ordered_of_empty h, ?_⟩
  intro s hs o hlow hhigh
  rw [h s hs] at hhigh
  omega

theorem reachedSack_eq (c : Conn) (len : ℕ) :
    (reachedSack c len).getD len = frontier c.sacks len := by
  unfold reachedSack frontier
  cases c.sacks with
  | nil => rfl
  | cons s rest =>
    by_cases hcross : Crosses len s
    · have hlen : s.len ≠ 0 := by
        unfold Crosses at hcross
        omega
      simp only [if_pos hcross]
      simp only [if_pos (show s.len ≠ 0 ∧ s.offset ≤ len ∧ len < s.offset + s.len from
        ⟨hlen, hcross.1, hcross.2⟩), Option.getD_some]
    · simp only [if_neg hcross]
      simp only [if_neg (show ¬ (s.len ≠ 0 ∧ s.offset ≤ len ∧ len < s.offset + s.len) from
        fun hall => hcross hall.2), Option.getD_none]

/-- Data leads further than its own end only within what is stored. -/
theorem frontier_cases (h : Faithful stream taken r) (len : ℕ) :
    frontier r.sacks len = len ∨
      len < frontier r.sacks len ∧ frontier r.sacks len ≤ r.buf.used := by
  unfold frontier
  cases hsacks : r.sacks with
  | nil => exact Or.inl rfl
  | cons s rest =>
    by_cases hcross : Crosses len s
    · right
      have hmem : s ∈ r.sacks := by
        rw [hsacks]
        exact List.mem_cons_self
      have hle := h.range_le hmem (by unfold Crosses at hcross; omega)
      simp only [if_pos hcross]
      exact ⟨hcross.2, hle⟩
    · left
      simp only [if_neg hcross]

theorem sackConsumeFrom_length (len fuel : ℕ) (sacks : List Sack) :
    (sackConsumeFrom len fuel sacks).length = sacks.length := by
  induction fuel generalizing sacks with
  | zero => rfl
  | succ fuel ih =>
    cases sacks with
    | nil => rfl
    | cons s rest =>
      unfold sackConsumeFrom
      split
      · rfl
      split
      · simp [ih]
      split
      · simp [ih]
      cases hlast : rest.getLast? with
      | none =>
        rw [List.getLast?_eq_none_iff.mp hlast]
        rfl
      | some last => simp [ih]

theorem modifyHead_ordered_iff :
    Ordered (r.sacks.modifyHead fun s => { s with len := 0 }) ↔
      ∀ s ∈ r.sacks.tail, s.len = 0 := by
  cases hsacks : r.sacks with
  | nil => simp [Ordered]
  | cons s rest =>
    rw [List.modifyHead_cons, List.tail_cons]
    constructor
    · intro hordered
      exact ordered_cons_empty hordered rfl
    · intro hempty
      apply ordered_of_empty
      exact List.forall_mem_cons.mpr ⟨rfl, hempty⟩

end Table

section Segments

theorem no_crosses_of_used_lt (h : Faithful stream taken r) {len : ℕ} (hlen : r.buf.used ≤ len) :
    OneCrosses len r.sacks := by
  apply List.pairwise_of_forall_mem_list
  rintro s hs _ _ ⟨hcross, -⟩
  have hle := h.range_le hs (by unfold Crosses at hcross; omega)
  unfold Crosses at hcross
  omega

/-- The table stays in order exactly when the segment is orderly. -/
theorem consumeInOrder_ordered_iff (h : Sound stream taken (receiver c)) (len : ℕ) :
    Ordered (consumeInOrder c (frontier c.sacks len)).sacks ↔ Orderly (receiver c) len := by
  have hfrontier := frontier_cases h.toFaithful len
  change frontier c.sacks len = len ∨ len < frontier c.sacks len ∧
    frontier c.sacks len ≤ c.rcvbuf.used at hfrontier
  unfold consumeInOrder
  by_cases hused : c.rcvbuf.used = 0
  · -- nothing is stored, so no entry is in use
    have hempty := h.toFaithful.empty_of_unused hused
    rw [if_neg (by simpa using hused)]
    refine iff_of_true h.ordered ⟨fun _ s hs => hempty s (List.mem_of_mem_tail hs), ?_⟩
    exact no_crosses_of_used_lt h.toFaithful (hused.trans_le (Nat.zero_le _))
  rw [if_pos hused]
  unfold sackConsume
  by_cases hmore : c.rcvbuf.used < frontier c.sacks len
  · have hlen : frontier c.sacks len = len := by omega
    rw [if_pos hmore]
    change Ordered ((receiver c).sacks.modifyHead _) ↔ _
    rw [modifyHead_ordered_iff]
    constructor
    · intro htail
      exact ⟨fun _ => htail, no_crosses_of_used_lt h.toFaithful (Nat.le_of_lt hmore)⟩
    · intro horderly
      exact horderly.stored (show c.rcvbuf.used < len by omega)
  · rw [if_neg hmore]
    refine (sackConsumeFrom_ordered_iff h.ordered (inUse_length_le h.entries)).trans ?_
    constructor
    · intro hone
      refine ⟨fun hlong => ?_, hone⟩
      change c.rcvbuf.used < len at hlong
      omega
    · intro horderly
      exact horderly.apart

theorem consumeInOrder_sound (h : Sound stream taken (receiver c)) {len : ℕ}
    (horderly : Orderly (receiver c) len) :
    Sound stream (taken + frontier c.sacks len)
      (receiver (consumeInOrder c (frontier c.sacks len))) := by
  have hordered := (consumeInOrder_ordered_iff h len).mpr horderly
  have hfrontier := frontier_cases h.toFaithful len
  change frontier c.sacks len = len ∨ len < frontier c.sacks len ∧
    frontier c.sacks len ≤ c.rcvbuf.used at hfrontier
  set n := frontier c.sacks len with hn
  revert hordered
  unfold consumeInOrder
  by_cases hused : c.rcvbuf.used = 0
  · rw [if_neg (by simpa using hused)]
    intro _
    have hempty : Faithful stream (taken + n) (receiver c) :=
      faithful_of_empty (h.toFaithful.empty_of_unused hused)
    exact ⟨⟨hempty.ordered, hempty.covered⟩, h.entries, h.wf, h.used_le, h.maxsize_lt⟩
  rw [if_pos hused]
  unfold sackConsume
  by_cases hmore : c.rcvbuf.used < n
  · rw [if_pos hmore]
    intro _
    have hempty : ∀ s ∈ c.sacks.modifyHead fun s => { s with len := 0 }, s.len = 0 := by
      have htail := horderly.stored (show c.rcvbuf.used < len by omega)
      change ∀ s ∈ c.sacks.tail, s.len = 0 at htail
      cases hsacks : c.sacks with
      | nil => simp
      | cons s rest =>
        rw [hsacks] at htail
        exact List.forall_mem_cons.mpr ⟨rfl, htail⟩
    refine ⟨faithful_of_empty hempty, ?_, h.wf, h.used_le, h.maxsize_lt⟩
    exact (List.length_modifyHead ..).trans h.entries
  · rw [if_neg hmore]
    intro hordered
    refine ⟨⟨hordered, ?_⟩, ?_, bufferDiscard_wf _ h.wf _, ?_, h.maxsize_lt⟩
    · change Covered (StoredAt stream (taken + n) (bufferDiscard c.rcvbuf n))
        (sackConsumeFrom n (2 * nsacks) c.sacks)
      refine sackConsumeFrom_covered h.covered h.ordered.usedFirst (inUse_length_le h.entries) ?_
      rintro o ⟨hlt, hvalue⟩
      refine ⟨?_, ?_⟩
      · rw [bufferDiscard_used]
        change n + o < c.rcvbuf.used at hlt
        omega
      · rw [bufferDiscard_get c.rcvbuf h.wf n o hlt, Nat.add_assoc]
        exact hvalue
    · exact (sackConsumeFrom_length ..).trans h.entries
    · change (bufferDiscard c.rcvbuf n).used ≤ c.rcvbuf.maxsize
      rw [bufferDiscard_used]
      exact (Nat.sub_le _ _).trans h.used_le

theorem consumeInOrder_same (c : Conn) (n : ℕ) :
    (consumeInOrder c n).rcvNxt = c.rcvNxt + UInt32.ofNat n ∧
      isReliable (consumeInOrder c n) = isReliable c := by
  unfold consumeInOrder sackConsume
  split
  · split
    · exact ⟨rfl, rfl⟩
    · exact ⟨rfl, rfl⟩
  · exact ⟨rfl, rfl⟩

/-- A segment out of order is stored, noted or dropped. -/
theorem handleOutOfOrder_sound (h : Sound stream taken (receiver c)) {e : Env} {ahead : ℕ}
    {data : List UInt8} {c' : Conn} (hfit : ahead + data.length ≤ c.rcvbuf.maxsize)
    (hdata : ∀ j, j < data.length → data[j]? = some (stream (taken + ahead + j)))
    (hc' : handleOutOfOrder e c ahead data = some c') :
    Sound stream taken (receiver c') := by
  unfold handleOutOfOrder at hc'
  split at hc'
  · simp at hc'
  rename_i rxd buf hput
  have hcut : data.take (c.rcvbuf.maxsize - ahead) = data := List.take_of_length_le (by omega)
  rcases bufferPutAt_cases c.rcvbuf h.wf ahead data (e.alloc 3) rxd buf hput with
    ⟨hrxd, rfl, -⟩ | ⟨hrxd, rfl, -⟩ | ⟨hrxd, -, hstored⟩
  · rw [if_pos (by omega)] at hc'
    cases hc'
    exact h
  · rw [if_pos (by omega)] at hc'
    cases hc'
    exact h
  rw [hcut] at hstored
  have hused : buf.used ≤ buf.maxsize := by
    have hle : c.rcvbuf.used ≤ c.rcvbuf.maxsize := h.used_le
    rw [hstored.used, hstored.maxsize]
    omega
  have hnew : ∀ o, ahead ≤ o → o < ahead + data.length → StoredAt stream taken buf o := by
    intro o hlow hhigh
    have hin := hstored.inside (o - ahead) (by omega)
    rw [hdata (o - ahead) (by omega), show ahead + (o - ahead) = o by omega,
      show taken + ahead + (o - ahead) = taken + o by omega] at hin
    refine ⟨?_, (Option.some.inj hin).symm⟩
    rw [hstored.used]
    omega
  have hold : Covered (StoredAt stream taken buf) c.sacks := by
    intro s hs o hlow hhigh
    obtain ⟨hlt, hvalue⟩ := h.covered s hs o hlow hhigh
    change o < c.rcvbuf.used at hlt
    by_cases hin : ahead ≤ o ∧ o < ahead + data.length
    · exact hnew o hin.1 hin.2
    refine ⟨?_, ?_⟩
    · rw [hstored.used]
      omega
    · rw [hstored.outside o hlt (by omega)]
      exact hvalue
  have hmaxsize : buf.maxsize < 2 ^ 32 := hstored.maxsize.trans_lt h.maxsize_lt
  split at hc'
  · cases hc'
    exact ⟨⟨h.ordered, hold⟩, h.entries, hstored.wf, hused, hmaxsize⟩
  rename_i hpos
  cases hc'
  have hlen : rxd.toNat = data.length := by omega
  rw [hlen]
  refine ⟨⟨noteSack_ordered h.ordered (by omega), noteSack_covered hold hnew⟩, ?_, hstored.wf,
    hused, hmaxsize⟩
  exact noteSack_length.trans h.entries

theorem handleOutOfOrder_same {e : Env} {ahead : ℕ} {data : List UInt8} {c' : Conn}
    (hc' : handleOutOfOrder e c ahead data = some c') :
    c'.rcvNxt = c.rcvNxt ∧ isReliable c' = isReliable c := by
  unfold handleOutOfOrder at hc'
  split at hc'
  · simp at hc'
  split at hc'
  · cases hc'
    exact ⟨rfl, rfl⟩
  · cases hc'
    exact ⟨rfl, rfl⟩

end Segments

section Handlers

/-- The receiving half of the connection behind a handle, and whether it is reliable. -/
def half (h : ℕ) (w : World) : Option (Bool × Receiver) :=
  (Handles.find w.utcp.connections h).map fun c => (isReliable c, receiver c)

variable {h : ℕ} {cb : Command World Bool}

theorem half_eq {w : World} {b : Bool} (hw : half h w = some (b, r)) :
    ∃ c, Handles.find w.utcp.connections h = some c ∧ isReliable c = b ∧ receiver c = r := by
  unfold half at hw
  obtain ⟨c, hc, hpair⟩ := Option.map_eq_some_iff.mp hw
  exact ⟨c, hc, congrArg Prod.fst hpair, congrArg Prod.snd hpair⟩

theorem leaves_emitAll (k : ℕ) (evs : List Ev) : Leaves (half h) (emitAll k evs) := fun _ => rfl

theorem leaves_getConn (k : ℕ) : Leaves (half h) (getConn k) := fun _ => rfl

theorem leaves_callRecv (hcb : Leaves (half h) cb) (k : ℕ) (records : List Ev)
    (data : List UInt8) : Leaves (half h) (callRecv cb k records data) := by
  unfold callRecv
  refine Leaves.bind (leaves_emitAll k _) fun _ => ?_
  exact Leaves.bind hcb fun _ => Leaves.pure _

theorem leaves_bufferCall (hcb : Leaves (half h) cb) (k offset len : ℕ) :
    Leaves (half h) (bufferCall cb k offset len) := by
  unfold bufferCall
  refine Leaves.bind (leaves_getConn k) fun c => ?_
  refine Leaves.ite (Leaves.pure _) (Leaves.ite (Leaves.pure _) ?_)
  refine Leaves.ite ?_ (leaves_callRecv hcb k _ _)
  refine Leaves.bind (leaves_callRecv hcb k _ _) fun rx1 => ?_
  refine Leaves.bind (leaves_getConn k) fun c' => ?_
  refine Leaves.ite (Leaves.pure _) (Leaves.ite (Leaves.pure _) ?_)
  exact Leaves.bind (leaves_callRecv hcb k _ _) fun _ => Leaves.pure _

/-- The receiving half is `r`, or has moved on from it with its promise kept. -/
def Kept (stream : ℕ → UInt8) (h taken : ℕ) (r : Receiver) (w : World) : Prop :=
  ∃ r', half h w = some (true, r') ∧ Sound stream (taken + (r'.nxt - r.nxt).toNat) r'

theorem kept_of_same (hr : Sound stream taken r) {w : World} (hw : half h w = some (true, r)) :
    Kept stream h taken r w := by
  refine ⟨r, hw, ?_⟩
  rw [UInt32.sub_self]
  exact hr

theorem triple_getConn {E : World → Prop} :
    Triple E (fun w => half h w = some (true, r)) (getConn h)
      (fun c w => half h w = some (true, r) ∧ receiver c = r ∧ isReliable c = true) := by
  intro w hw
  obtain ⟨c, hc, hrel, hreceiver⟩ := half_eq hw
  unfold getConn
  rw [hc]
  exact ⟨hw, hreceiver, hrel⟩

/-- The command keeps the promise of a connection whose receiving half is `r`. -/
def Serves {α : Type} (stream : ℕ → UInt8) (h taken : ℕ) (r : Receiver) (x : Command World α) :
    Prop :=
  Triple (Kept stream h taken r) (fun w => half h w = some (true, r)) x
    fun _ => Kept stream h taken r

/-- Code without callbacks on such a connection. -/
theorem triple_onConn {α : Type} {f : Utcp → Conn → Option (Step α)} (hr : Sound stream taken r)
    (hf : ∀ u c s, isReliable c = true → receiver c = r → f u c = some s →
      isReliable s.conn = true ∧
        Sound stream (taken + ((receiver s.conn).nxt - r.nxt).toNat) (receiver s.conn)) :
    Serves stream h taken r (onConn h f) := by
  intro w hw
  obtain ⟨c, hc, hrel, hreceiver⟩ := half_eq hw
  unfold onConn
  rw [hc]
  dsimp only
  cases hs : f w.utcp c with
  | none => exact kept_of_same hr hw
  | some s =>
    obtain ⟨hsrel, hsound⟩ := hf w.utcp c s hrel hreceiver hs
    refine ⟨receiver s.conn, ?_, hsound⟩
    unfold half
    rw [Handles.find_put_self w.utcp.connections h s.conn c hc, Option.map_some, hsrel]

theorem triple_consume (hr : Sound stream taken r) {len : ℕ} (horderly : Orderly r len)
    (hlen : len < 2 ^ 32) {n : ℕ} (hn : n = frontier r.sacks len) :
    Serves stream h taken r (modifyConn h fun _ c => consumeInOrder c n) := by
  apply triple_onConn hr
  intro u c s hrel hreceiver hs
  cases hs
  subst hreceiver
  have hlt : n < 2 ^ 32 := by
    have hmax := hr.maxsize_lt
    have hused := hr.used_le
    rcases frontier_cases hr.toFaithful len with heq | hmore
    · omega
    · omega
  obtain ⟨hmoved, hkept⟩ := consumeInOrder_same c n
  have hnxt : ((receiver (consumeInOrder c n)).nxt - (receiver c).nxt).toNat = n := by
    change ((consumeInOrder c n).rcvNxt - c.rcvNxt).toNat = n
    rw [hmoved, UInt32.add_comm, UInt32.add_sub_cancel, UInt32.toNat_ofNat']
    omega
  refine ⟨hkept.trans hrel, ?_⟩
  rw [hnxt, hn]
  exact consumeInOrder_sound hr horderly

/-- handle_in_order with a callback that leaves the receiving half alone. -/
theorem triple_handleInOrder (hcb : Leaves (half h) cb) (hr : Sound stream taken r)
    {data : List UInt8} (horderly : Orderly r data.length) (hlen : data.length < 2 ^ 32) :
    Serves stream h taken r (handleInOrder cb h data) := by
  have hstays : ∀ {α : Type} {x : Command World α}, Leaves (half h) x →
      Triple (Kept stream h taken r) (fun w => half h w = some (true, r)) x
        (fun _ w => half h w = some (true, r)) := fun hx =>
    (hx.keeps fun shown => shown = some (true, r)).stops fun _ hw => kept_of_same hr hw
  have hstop : ∀ {α : Type} {Q : α → World → Prop},
      Triple (Kept stream h taken r) (fun w => half h w = some (true, r)) stop Q :=
    Triple.stop fun _ hw => kept_of_same hr hw
  -- the conn at this point is read again, but its receiving half is still `r`
  have hrest : Serves stream h taken r (reachStored cb h data.length) := by
    apply Triple.bind triple_getConn
    intro c
    apply Triple.assume
    rintro ⟨hreceiver, -⟩
    have hreached := reachedSack_eq c data.length
    have hsacks : c.sacks = r.sacks := congrArg Receiver.sacks hreceiver
    rw [hsacks] at hreached
    cases hstretch : reachedSack c data.length with
    | none =>
      rw [hstretch, Option.getD_none] at hreached
      exact triple_consume hr horderly hlen hreached
    | some stretch =>
      rw [hstretch, Option.getD_some] at hreached
      apply Triple.bind (hstays (leaves_bufferCall hcb h _ _))
      intro rxd
      exact Triple.ite (fun _ => hstop) fun _ => triple_consume hr horderly hlen hreached
  unfold handleInOrder
  apply Triple.bind (hstays (leaves_getConn h))
  intro c
  apply Triple.ite
  · intro _
    apply Triple.bind (hstays (leaves_callRecv hcb h _ _))
    intro rxd
    exact Triple.ite (fun _ => hstop.bind fun _ => hrest) fun _ => hrest
  · intro _
    exact Triple.bind (hstays (leaves_emitAll h _)) fun _ => hrest

/-- handle_incoming_data on a segment of the stream, with such a callback. -/
theorem triple_handleIncomingData (hcb : Leaves (half h) cb) (hr : Sound stream taken r)
    (e : Env) {i : Incoming} (hcut : Cut stream taken r i)
    (horderly : i.hdr.seq = r.nxt → Orderly r i.data.length) :
    Serves stream h taken r (handleIncomingData cb e h i) := by
  obtain ⟨ahead, hseq, hfit, hdata⟩ := hcut
  have hmax := hr.maxsize_lt
  have hahead : (i.hdr.seq - r.nxt).toNat = ahead := by
    rw [hseq, place, UInt32.add_comm, UInt32.add_sub_cancel, UInt32.toNat_ofNat']
    omega
  unfold handleIncomingData
  apply Triple.bind triple_getConn
  intro c
  apply Triple.assume
  rintro ⟨hreceiver, hrel⟩
  have hnxt : c.rcvNxt = r.nxt := congrArg Receiver.nxt hreceiver
  apply Triple.ite
  · intro hunreliable
    rw [hrel] at hunreliable
    exact absurd hunreliable (by decide)
  intro _
  apply Triple.ite
  · intro _
    apply triple_onConn hr
    intro u c' s hrel' hreceiver' hs
    rw [hnxt, hahead] at hs
    obtain ⟨c'', hstored, rfl⟩ := Option.map_eq_some_iff.mp hs
    subst hreceiver'
    have hsame := handleOutOfOrder_same hstored
    refine ⟨hsame.2.trans hrel', ?_⟩
    change Sound stream (taken + (c''.rcvNxt - c'.rcvNxt).toNat) (receiver c'')
    rw [hsame.1, UInt32.sub_self]
    exact handleOutOfOrder_sound hr hfit hdata hstored
  · intro hzero
    have hzero : i.hdr.seq - c.rcvNxt = 0 := not_not.mp hzero
    apply triple_handleInOrder hcb hr (horderly _) (by omega)
    rw [← hnxt]
    exact (distance_eq_zero_iff _ _).mp ((signed_eq_zero_iff _).mpr hzero)

end Handlers

/-- A segment that handle_incoming_data is called with, and the recv callback it meets. -/
structure Arrival where
  cb : Command World Bool
  env : Env
  segment : Incoming

/-- The process, and the length of the stream before rcv.nxt of the connection. -/
structure Progress where
  world : World
  taken : ℕ

/-- How far rcv.nxt has moved. -/
def advanced (h : ℕ) (w w' : World) : ℕ :=
  match half h w, half h w' with
  | some (_, r), some (_, r') => (r'.nxt - r.nxt).toNat
  | _, _ => 0

def receive (h : ℕ) (p : Progress) (a : Arrival) : Progress :=
  let w := after (handleIncomingData a.cb a.env h a.segment) p.world
  ⟨w, p.taken + advanced h p.world w⟩

/-- The segment is cut from the stream within the limit of the receive buffer, and recv
leaves the receiving half alone. -/
structure Arrives (stream : ℕ → UInt8) (h : ℕ) (p : Progress) (a : Arrival) : Prop where
  quiet : Leaves (half h) a.cb
  cut : ∀ r, half h p.world = some (true, r) → Cut stream p.taken r a.segment

/-- A segment in order finds a table that it leaves in order. -/
def ArrivesOrderly (h : ℕ) (p : Progress) (a : Arrival) : Prop :=
  ∀ r, half h p.world = some (true, r) → a.segment.hdr.seq = r.nxt →
    Orderly r a.segment.data.length

/-- A reliable connection is behind the handle, and its receiving half is sound. -/
def Tracks (stream : ℕ → UInt8) (h : ℕ) (p : Progress) : Prop :=
  ∃ r, half h p.world = some (true, r) ∧ Sound stream p.taken r

section Run

variable {h : ℕ} {p : Progress}

theorem receive_sound {a : Arrival} (harrives : Arrives stream h p a)
    (horderly : ArrivesOrderly h p a) (hp : Tracks stream h p) :
    Tracks stream h (receive h p a) := by
  obtain ⟨r, hr, hsound⟩ := hp
  have hkept := Triple.after (triple_handleIncomingData harrives.quiet hsound a.env
    (harrives.cut r hr) (horderly r hr)) p.world hr
  obtain ⟨r', hr', hsound'⟩ := hkept
  refine ⟨r', hr', ?_⟩
  have hmoved : advanced h p.world (receive h p a).world = (r'.nxt - r.nxt).toNat := by
    unfold advanced
    rw [hr, show half h (receive h p a).world = some (true, r') from hr']
  change Sound stream (p.taken + advanced h p.world (receive h p a).world) r'
  rw [hmoved]
  exact hsound'

/-- After each segment the SACK table records only what the receive buffer holds. -/
theorem table_faithful_along (stream : ℕ → UInt8) (h : ℕ) (p : Progress)
    (arrivals : List Arrival) (hstart : Tracks stream h p)
    (harrive : Along (receive h) (fun p a => Arrives stream h p a ∧ ArrivesOrderly h p a) p
      arrivals) :
    ∃ r, half h (arrivals.foldl (receive h) p).world = some (true, r) ∧
      Faithful stream (arrivals.foldl (receive h) p).taken r := by
  have hkept : ∀ p a, Arrives stream h p a ∧ ArrivesOrderly h p a → Tracks stream h p →
      Tracks stream h (receive h p a) := fun p a hmet => receive_sound hmet.1 hmet.2
  obtain ⟨r, hr, hsound⟩ := kept_along hkept harrive hstart
  exact ⟨r, hr, hsound.toFaithful⟩

end Run

section Samples

open SendAtomicity

/-- A new receiver with the default limit, whose next sequence number is 0. -/
def sampleReceiving : Progress :=
  let c := { sampleConn utcpTcp .established 4 with
    rcvbuf := { Buffer.empty with maxsize := defaultMaxrcvbufsize } }
  ⟨⟨{ sampleUtcp with connections := [(1, c)] }, [], []⟩, 0⟩

/-- The stream 0, 1, 2 and so on. -/
def counting (n : ℕ) : UInt8 := UInt8.ofNat n

/-- The bytes of that stream from `start` on, for a callback that does nothing. -/
def countingSegment (start len : ℕ) : Arrival :=
  ⟨pure true, sampleEnv true,
    ⟨⟨7, 0x8000, UInt32.ofNat start, 101, 0, { ack := true }, 0⟩,
      (List.range len).map fun j => counting (start + j), none⟩⟩

theorem sampleReceiving_tracks : Tracks counting 1 sampleReceiving := by
  refine ⟨_, rfl, faithful_of_empty ?_, rfl, ⟨?_, Or.inr rfl, fun _ => rfl, ?_⟩, ?_, ?_⟩
  · decide
  · decide
  · decide
  · decide
  · decide

theorem arrives_of_shown {stream : ℕ → UInt8} {p : Progress} {a : Arrival} {r : Receiver}
    (hquiet : Leaves (half 1) a.cb) (hr : half 1 p.world = some (true, r))
    (hcut : Cut stream p.taken r a.segment) : Arrives stream 1 p a := by
  refine ⟨hquiet, fun r' hr' => ?_⟩
  rw [hr] at hr'
  cases hr'
  exact hcut

theorem arrives_orderly_of_shown {stream : ℕ → UInt8} {p : Progress} {a : Arrival} {r : Receiver}
    (hquiet : Leaves (half 1) a.cb) (hr : half 1 p.world = some (true, r))
    (hcut : Cut stream p.taken r a.segment)
    (horderly : a.segment.hdr.seq = r.nxt → Orderly r a.segment.data.length) :
    Arrives stream 1 p a ∧ ArrivesOrderly 1 p a := by
  refine ⟨arrives_of_shown hquiet hr hcut, fun r' hr' => ?_⟩
  rw [hr] at hr'
  cases hr'
  exact horderly

/-- The byte 2 arrives before the bytes 0 and 1. -/
theorem table_faithful_along_gap :
    Tracks counting 1 sampleReceiving ∧
      ∃ r, half 1 ([countingSegment 2 1, countingSegment 0 2].foldl (receive 1)
          sampleReceiving).world = some (true, r) ∧ r.nxt = 3 ∧ Faithful counting 3 r := by
  refine ⟨sampleReceiving_tracks, ?_⟩
  have hrun := table_faithful_along counting 1 sampleReceiving
    [countingSegment 2 1, countingSegment 0 2] sampleReceiving_tracks ?_
  · obtain ⟨r, hr, hfaithful⟩ := hrun
    refine ⟨r, hr, ?_, hfaithful⟩
    cases hr
    decide
  · refine ⟨arrives_orderly_of_shown (Leaves.pure true) rfl ⟨2, by decide, by decide, by decide⟩ ?_,
      arrives_orderly_of_shown (Leaves.pure true) rfl ⟨0, by decide, by decide, by decide⟩ ?_,
      trivial⟩
    · intro heq
      exact absurd heq (by decide)
    · intro _
      exact ⟨by decide, by decide⟩

/-- The bytes 2 and 4 arrive first, then one segment with the bytes 0 to 5: the second
entry stays behind an empty one and promises the byte 10, which was never sent. -/
theorem stale_entry_left :
    Tracks counting 1 sampleReceiving ∧
      Along (receive 1) (Arrives counting 1) sampleReceiving
        [countingSegment 2 1, countingSegment 4 1, countingSegment 0 6] ∧
      ∃ r, half 1 ([countingSegment 2 1, countingSegment 4 1, countingSegment 0 6].foldl
          (receive 1) sampleReceiving).world = some (true, r) ∧ r.nxt = 6 ∧
        r.sacks = [⟨2, 0⟩, ⟨4, 1⟩, ⟨0, 0⟩, ⟨0, 0⟩] ∧ ¬ Faithful counting 6 r := by
  refine ⟨sampleReceiving_tracks, ?_, _, rfl, by decide, by decide, ?_⟩
  · exact ⟨arrives_of_shown (Leaves.pure true) rfl ⟨2, by decide, by decide, by decide⟩,
      arrives_of_shown (Leaves.pure true) rfl ⟨4, by decide, by decide, by decide⟩,
      arrives_of_shown (Leaves.pure true) rfl ⟨0, by decide, by decide, by decide⟩, trivial⟩
  · intro hfaithful
    exact absurd hfaithful.ordered (by decide)

end Samples

end Meshlink.Reassembly
