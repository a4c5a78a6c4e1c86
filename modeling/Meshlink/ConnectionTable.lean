import Meshlink.SendAtomicity
import Meshlink.UtcpProcess
import Meshlink.Systems

/-!
The connection table of an endpoint: a sorted array of pointers, searched by the
two ports. Only allocate_connection and free_connection change which connections
are in it. Port 0 stands for "choose one" in allocate_connection, whoever asks,
and the search for a free port starts at a random port with the high bit set and
wraps around.
-/
namespace Meshlink.ConnectionTable

open List hiding after
open UtcpBuffer UtcpState Commands UtcpEndpoint UtcpProcess Systems Handles
open SendAtomicity (sampleEnv sampleUtcp)

section Allocation

variable (u : Utcp) (e : Env) (src dst : UInt16)

/-- allocate_connection refuses these ports. -/
def refused : Bool :=
  if src = 0 then decide (u.connections.length ≥ 32767) else (findConnection u src dst).isSome

def localPort : UInt16 :=
  if src = 0 then freePort u dst 65536 ((e.rand 0).toUInt16 ||| 0x8000) else src

/-- The array has to grow before it can take another connection. -/
def mustGrow : Bool := decide (u.connections.length ≥ u.nallocated)

/-- The capacity that is recorded, whether or not the array grows. -/
def capacity : ℕ :=
  if mustGrow u then (if u.nallocated = 0 then 4 else u.nallocated * 2) else u.nallocated

def outOfMemory : Bool := (mustGrow u && !(e.alloc 4).ok) || !(e.alloc 5).ok

def created : Conn :=
  newConn u (localPort u e src dst) dst (e.rand 1)
    { Buffer.empty with maxsize := defaultMaxsndbufsize }
    { Buffer.empty with maxsize := defaultMaxrcvbufsize }

/-- The endpoint with a connection added to its table. -/
def withConn (c : Conn) : Utcp :=
  { u with
    connections := u.connections.orderedInsert portsLe (u.nextHandle, c)
    nallocated := capacity u
    nextHandle := u.nextHandle + 1 }

end Allocation

/-- Buffers of a new connection hold nothing, so they need no memory. -/
theorem allocateConnection_eq (e : Env) (src dst : UInt16) (w : World) :
    allocateConnection e src dst w =
      if refused w.utcp src dst then (some none, w)
      else if outOfMemory w.utcp e then
        (some none, { w with utcp := { w.utcp with nallocated := capacity w.utcp } })
      else
        (some (some w.utcp.nextHandle),
          { w with
            utcp := withConn w.utcp (created w.utcp e src dst)
            trace := w.trace ++ [(w.utcp.nextHandle, .opened (created w.utcp e src dst))] }) := rfl

section Order

/-- The strict order of compare(). -/
def portsLt (a b : ℕ × Conn) : Prop := a.2.src < b.2.src ∨ (a.2.src = b.2.src ∧ a.2.dst < b.2.dst)

instance : DecidableRel portsLt := fun a b =>
  inferInstanceAs (Decidable (a.2.src < b.2.src ∨ (a.2.src = b.2.src ∧ a.2.dst < b.2.dst)))

/-- Strictly sorted by local and then by remote port, so no two entries share both. -/
def Sorted (t : List (ℕ × Conn)) : Prop := t.Pairwise portsLt

instance (t : List (ℕ × Conn)) : Decidable (Sorted t) :=
  inferInstanceAs (Decidable (t.Pairwise portsLt))

theorem portsLt_trans {a b c : ℕ × Conn} (hab : portsLt a b) (hbc : portsLt b c) : portsLt a c := by
  simp only [portsLt, UInt16.lt_iff_toNat_lt, ← UInt16.toNat_inj] at *
  omega

/-- Entries with different ports are in order one way or the other. -/
theorem portsLt_of_portsLe {a b : ℕ × Conn} (h : portsLe a b)
    (hne : ¬(b.2.src = a.2.src ∧ b.2.dst = a.2.dst)) : portsLt a b := by
  simp only [portsLt, portsLe, UInt16.lt_iff_toNat_lt, UInt16.le_iff_toNat_le,
    ← UInt16.toNat_inj] at *
  omega

theorem portsLt_of_not_portsLe {a b : ℕ × Conn} (h : ¬portsLe a b) : portsLt b a := by
  simp only [portsLt, portsLe, UInt16.lt_iff_toNat_lt, UInt16.le_iff_toNat_le,
    ← UInt16.toNat_inj] at *
  omega

theorem sorted_insert {t : List (ℕ × Conn)} {x : ℕ × Conn} (ht : Sorted t)
    (hx : ∀ y ∈ t, ¬(y.2.src = x.2.src ∧ y.2.dst = x.2.dst)) :
    Sorted (t.orderedInsert portsLe x) := by
  induction t with
  | nil => exact pairwise_singleton _ _
  | cons y rest ih =>
    obtain ⟨hy, hrest⟩ := pairwise_cons.mp ht
    rw [orderedInsert_cons]
    split
    case isTrue hle =>
      have hxy : portsLt x y := portsLt_of_portsLe hle (hx y mem_cons_self)
      refine pairwise_cons.mpr ⟨fun z hz => ?_, ht⟩
      rcases mem_cons.mp hz with rfl | hz
      · exact hxy
      · exact portsLt_trans hxy (hy z hz)
    case isFalse hle =>
      have hsorted := ih hrest fun z hz => hx z (mem_cons_of_mem y hz)
      refine pairwise_cons.mpr ⟨fun z hz => ?_, hsorted⟩
      rcases (mem_orderedInsert portsLe).mp hz with rfl | hz
      · exact portsLt_of_not_portsLe hle
      · exact hy z hz

/-- Code that leaves the ports of a connection alone leaves the table in order. -/
theorem sorted_put {t : List (ℕ × Conn)} {h : ℕ} {c : Conn} (ht : Sorted t)
    (hc : ∀ x ∈ t, x.1 = h → x.2.src = c.src ∧ x.2.dst = c.dst) :
    Sorted (put t h c) := by
  refine pairwise_map.mpr (ht.imp_of_mem ?_)
  intro a b ha hb hab
  have hports (x : ℕ × Conn) (hx : x ∈ t) :
      (if x.1 = h then (x.1, c) else x).2.src = x.2.src ∧
        (if x.1 = h then (x.1, c) else x).2.dst = x.2.dst := by
    split
    case isTrue heq => exact ⟨(hc x hx heq).1.symm, (hc x hx heq).2.symm⟩
    case isFalse => exact ⟨rfl, rfl⟩
  unfold portsLt
  rw [(hports a ha).1, (hports a ha).2, (hports b hb).1, (hports b hb).2]
  exact hab

end Order

section Ports

variable {u : Utcp} {src dst : UInt16}

theorem findConnection_eq_none_iff :
    findConnection u src dst = none ↔
      ∀ x ∈ u.connections, ¬(x.2.src = src ∧ x.2.dst = dst) := by
  unfold findConnection
  rw [Option.map_eq_none_iff, find?_eq_none]
  simp only [decide_eq_true_eq]

theorem isSome_findConnection_iff :
    (findConnection u src dst).isSome = true ↔
      ∃ x ∈ u.connections, x.2.src = src ∧ x.2.dst = dst := by
  rw [← Option.ne_none_iff_isSome, Ne, findConnection_eq_none_iff]
  simp only [not_forall, not_not, exists_prop]

/-- The search for a free port stops at one, unless it has seen none but taken ones. -/
theorem freePort_free_or (fuel : ℕ) (src : UInt16) :
    findConnection u (freePort u dst fuel src) dst = none ∨
      ∀ k < fuel, (findConnection u (src + UInt16.ofNat k) dst).isSome = true := by
  induction fuel generalizing src with
  | zero => exact .inr fun k hk => absurd hk (Nat.not_lt_zero k)
  | succ fuel ih =>
    unfold freePort
    split
    case isTrue htaken =>
      rcases ih (src + 1) with hfree | htakens
      · exact .inl hfree
      refine .inr fun k hk => ?_
      cases k with
      | zero => simpa using htaken
      | succ k =>
        have hnext : src + UInt16.ofNat (k + 1) = src + 1 + UInt16.ofNat k := by
          rw [UInt16.ofNat_add, UInt16.add_assoc, UInt16.add_comm (UInt16.ofNat k)]
          rfl
        rw [hnext]
        exact htakens k (Nat.lt_of_succ_lt_succ hk)
    case isFalse hfree => exact .inl (Option.not_isSome_iff_eq_none.mp hfree)

/-- There are more ports than connections, so the search ends at a free one. -/
theorem freePort_free (h : u.connections.length < 32767) (src : UInt16) :
    findConnection u (freePort u dst 65536 src) dst = none := by
  rcases freePort_free_or (u := u) 65536 src with hfree | htaken
  · exact hfree
  -- all the ports would be local ports of connections in the table
  exfalso
  let ports := (List.range 65536).map fun k => src + UInt16.ofNat k
  have hnodup : ports.Nodup := by
    refine List.Nodup.map_on ?_ nodup_range
    intro j hj k hk heq
    rw [mem_range] at hj hk
    have hjk := congrArg UInt16.toNat (UInt16.add_right_inj src |>.mp heq)
    rwa [UInt16.toNat_ofNat_of_lt' hj, UInt16.toNat_ofNat_of_lt' hk] at hjk
  have hsub : ports ⊆ u.connections.map fun x => x.2.src := by
    intro p hp
    obtain ⟨k, hk, rfl⟩ := mem_map.mp hp
    obtain ⟨x, hx, hsrc, -⟩ := isSome_findConnection_iff.mp (htaken k (mem_range.mp hk))
    exact mem_map.mpr ⟨x, hx, hsrc⟩
  have hle := (subperm_of_subset hnodup hsub).length_le
  simp only [ports, length_map, length_range] at hle
  omega

/-- The search does not pass a free port above its start. -/
theorem le_freePort {port : UInt16} (hfree : findConnection u port dst = none) (fuel : ℕ)
    (hle : src ≤ port) (hfuel : port.toNat - src.toNat < fuel) :
    src ≤ freePort u dst fuel src := by
  induction fuel generalizing src with
  | zero => exact absurd hfuel (Nat.not_lt_zero _)
  | succ fuel ih =>
    unfold freePort
    split
    case isTrue htaken =>
      have hne : src ≠ port := by
        rintro rfl
        rw [hfree] at htaken
        exact absurd htaken (by decide)
      rw [UInt16.le_iff_toNat_le] at hle ⊢
      have hlt : src.toNat < port.toNat :=
        Nat.lt_of_le_of_ne hle fun h => hne (UInt16.toNat_inj.mp h)
      have hport := port.toNat_lt
      have hsucc : (src + 1).toNat = src.toNat + 1 := by
        rw [UInt16.toNat_add]
        exact Nat.mod_eq_of_lt (by change src.toNat + 1 < 65536; omega)
      have hstart : src + 1 ≤ port := by
        rw [UInt16.le_iff_toNat_le, hsucc]
        exact hlt
      have hrest := UInt16.le_iff_toNat_le.mp (ih hstart (by omega))
      omega
    case isFalse => exact UInt16.le_refl src

end Ports

section Creation

/-- A table in order whose entries are different connections. -/
structure Ready (w : World) : Prop where
  sorted : Sorted w.utcp.connections
  distinct : (w.utcp.connections.map Prod.fst).Nodup
  below : Below w.utcp.connections w.utcp.nextHandle

/-- The table is in order, and every connection that was not in the table of `w₀` has
ports that satisfy `P`. -/
def Adds (P : UInt16 → UInt16 → Prop) (w₀ w : World) : Prop :=
  Ready w ∧ ∀ x ∈ w.utcp.connections,
    find w₀.utcp.connections x.1 = none → P x.2.src x.2.dst

variable {P : UInt16 → UInt16 → Prop} {w₀ w : World}

theorem find_ne_none_of_mem {t : List (ℕ × Conn)} {x : ℕ × Conn} (hx : x ∈ t) :
    find t x.1 ≠ none := by
  induction t with
  | nil => exact absurd hx not_mem_nil
  | cons y rest ih =>
    unfold find
    split
    case isTrue => exact Option.some_ne_none _
    case isFalse hne =>
      rcases mem_cons.mp hx with rfl | hx
      · exact absurd rfl hne
      · exact ih hx

theorem Ready.adds (hw : Ready w) : Adds P w w :=
  ⟨hw, fun _ hx hnone => absurd hnone (find_ne_none_of_mem hx)⟩

/-- A new connection has a handle of its own. -/
theorem insert_distinct {t : List (ℕ × Conn)} {h : ℕ} (c : Conn) (ht : (t.map Prod.fst).Nodup)
    (hbelow : Below t h) : ((t.orderedInsert portsLe (h, c)).map Prod.fst).Nodup := by
  have hfresh : h ∉ t.map Prod.fst := by
    intro hmem
    obtain ⟨x, hx, heq⟩ := mem_map.mp hmem
    exact absurd (hbelow x hx) (by omega)
  have hperm := (perm_orderedInsert portsLe (h, c) t).map Prod.fst
  refine hperm.nodup_iff.mpr ?_
  exact nodup_cons.mpr ⟨hfresh, ht⟩

/-- A new connection is put under ports that are free. -/
theorem Ready.withConn (hw : Ready w) {c : Conn} (trace : List (ℕ × Ev))
    (hfree : findConnection w.utcp c.src c.dst = none) (hP : P c.src c.dst) :
    Adds P w { w with utcp := withConn w.utcp c, trace := trace } := by
  refine ⟨⟨sorted_insert hw.sorted (findConnection_eq_none_iff.mp hfree),
    insert_distinct c hw.distinct hw.below,
    orderedInsert_below portsLe _ _ _ hw.below⟩, ?_⟩
  intro x hx hnone
  rcases (mem_orderedInsert portsLe).mp hx with rfl | hx
  · exact hP
  · exact absurd hnone (find_ne_none_of_mem hx)

variable {e : Env} {dst : UInt16}

theorem refused_false_free {u : Utcp} {src : UInt16} (h : refused u src dst = false) :
    findConnection u (localPort u e src dst) dst = none := by
  unfold refused at h
  unfold localPort
  split at h
  case isTrue hzero =>
    rw [if_pos hzero]
    exact freePort_free (by simpa using h) _
  case isFalse hzero =>
    rw [if_neg hzero]
    exact Option.isSome_eq_false_iff.mp h |> Option.isNone_iff_eq_none.mp

theorem allocateConnection_adds (hw : Ready w) {src : UInt16}
    (hP : P (localPort w.utcp e src dst) dst) :
    Adds P w (after (allocateConnection e src dst) w) := by
  unfold after
  rw [allocateConnection_eq]
  cases hrefused : refused w.utcp src dst with
  | true => exact hw.adds
  | false =>
    cases outOfMemory w.utcp e with
    | true => exact ⟨⟨hw.sorted, hw.distinct, hw.below⟩, hw.adds.2⟩
    | false => exact hw.withConn _ (refused_false_free hrefused) hP

theorem eq_of_find {t : List (ℕ × Conn)} {c : Conn} {x : ℕ × Conn}
    (ht : (t.map Prod.fst).Nodup) (hfind : find t x.1 = some c) (hx : x ∈ t) : x.2 = c := by
  have hmem := find_mem t x.1 c hfind
  exact congrArg Prod.snd (inj_on_of_nodup_map ht hx hmem rfl)

theorem put_fst (t : List (ℕ × Conn)) (h : ℕ) (c : Conn) :
    (put t h c).map Prod.fst = t.map Prod.fst := by
  unfold put
  rw [map_map]
  refine map_congr_left fun x _ => ?_
  dsimp only [Function.comp]
  split <;> rfl

/-- Code on one connection that leaves its ports alone. -/
theorem onConn_adds {α : Type} {h : ℕ} {f : Utcp → Conn → Option (Step α)}
    (hf : ∀ u c s, f u c = some s → s.conn.src = c.src ∧ s.conn.dst = c.dst) :
    Keeps (Adds P w₀) (onConn h f) := by
  rintro w ⟨hw, hnew⟩
  unfold onConn
  cases hfind : find w.utcp.connections h with
  | none => exact ⟨hw, hnew⟩
  | some c =>
    dsimp only
    cases hstep : f w.utcp c with
    | none => exact ⟨hw, hnew⟩
    | some s =>
      dsimp only
      obtain ⟨hsrc, hdst⟩ := hf _ _ _ hstep
      have hports : ∀ x ∈ w.utcp.connections, x.1 = h →
          x.2.src = s.conn.src ∧ x.2.dst = s.conn.dst := by
        rintro x hx rfl
        rw [eq_of_find hw.distinct hfind hx]
        exact ⟨hsrc.symm, hdst.symm⟩
      refine ⟨⟨sorted_put hw.sorted hports, ?_, put_below _ _ _ _ hw.below⟩, ?_⟩
      · change ((put w.utcp.connections h s.conn).map Prod.fst).Nodup
        rw [put_fst]
        exact hw.distinct
      intro y hy hnone
      obtain ⟨x, hx, rfl⟩ := mem_map.mp hy
      by_cases heq : x.1 = h
      · rw [if_pos heq] at hnone ⊢
        dsimp only
        rw [← (hports x hx heq).1, ← (hports x hx heq).2]
        exact hnew x hx hnone
      · rw [if_neg heq] at hnone ⊢
        exact hnew x hx hnone

theorem sendReset_adds {h : ℕ} {hdr : Hdr} {len : ℕ} : Keeps (Adds P w₀) (sendReset h hdr len) :=
  Keeps.update _ fun _ hw => ⟨⟨hw.1.sorted, hw.1.distinct, hw.1.below⟩, hw.2⟩

theorem allocateConnection_triple (hw : Ready w) {src : UInt16}
    (hP : P (localPort w.utcp e src dst) dst) :
    Triple (Adds P w) (· = w) (allocateConnection e src dst) fun _ => Adds P w := by
  refine Triple.of_after ?_
  rintro _ rfl
  exact allocateConnection_adds hw hP

theorem utcpConnect_adds (hw : Ready w) {recv : Bool} {flags : UInt32}
    (hP : P (localPort w.utcp e 0 dst) dst) :
    Adds P w (after (utcpConnect e dst recv flags) w) := by
  refine Triple.after (P := (· = w)) ?_ w rfl
  refine Triple.bind (allocateConnection_triple hw hP) fun found => ?_
  cases found with
  | none => exact Keeps.pure ()
  | some h =>
    refine Keeps.ite (fun _ => Keeps.stop) fun _ => onConn_adds fun u c s hs => ?_
    cases hs
    exact ⟨rfl, rfl⟩

theorem recvNew_adds (hw : Ready w) {wanted : Bool} {i : Incoming}
    (hP : P (localPort w.utcp e i.hdr.dst i.hdr.src) i.hdr.src) :
    Adds P w (after (recvNew (pure wanted) e i) w) := by
  have hsame {s : World} (hs : s = w) : Adds P w s := by
    rw [hs]
    exact hw.adds
  have hreset (h : ℕ) (len : ℕ) :
      Triple (Adds P w) (· = w) (sendReset h i.hdr len) fun _ => Adds P w :=
    sendReset_adds.mono (fun _ hs => hsame hs) fun _ _ hs => hs
  refine Triple.after (P := (· = w)) ?_ w rfl
  refine Triple.bind (Triple.read _) fun u => ?_
  refine Triple.ite (fun _ => Triple.pure () fun _ hs => hsame hs) fun _ => ?_
  refine Triple.ite (fun _ => hreset 0 1) fun _ => ?_
  have hask : Triple (Adds P w) (· = w) (askListen (pure wanted)) fun _ => (· = w) := by
    refine Triple.bind (Triple.read _) fun u => ?_
    exact Triple.ite (fun _ => Triple.pure wanted fun _ hs => hs)
      fun _ => Triple.pure true fun _ hs => hs
  refine Triple.bind hask fun answer => ?_
  refine Triple.ite (fun _ => hreset 0 1) fun _ => ?_
  refine Triple.bind (allocateConnection_triple hw hP) fun found => ?_
  cases found with
  | none => exact sendReset_adds
  | some h =>
    cases i.init with
    | none =>
      refine onConn_adds fun u c s hs => ?_
      cases hs
      exact ⟨rfl, rfl⟩
    | some init =>
      refine Keeps.ite (fun _ => sendReset_adds) fun _ => onConn_adds fun u c s hs => ?_
      cases hs
      exact ⟨rfl, rfl⟩

end Creation

section Runs

/-- What can change the table. The listen callback, if there is one, answers `wanted`. -/
inductive Event
  | connect (e : Env) (dst : UInt16) (recv : Bool) (flags : UInt32)
  | packet (e : Env) (wanted : Bool) (i : Incoming)
  | free (h : ℕ)

/-- A packet of an existing connection leaves the table to what that connection does. -/
def step (w : World) : Event → World
  | .connect e dst recv flags => after (utcpConnect e dst recv flags) w
  | .packet e wanted i =>
      match findConnection w.utcp i.hdr.dst i.hdr.src with
      | some _ => w
      | none => after (recvNew (pure wanted) e i) w
  | .free h => after (freeConnection h) w

/-- The ports that a connection made in this event should have. -/
def Placed : Event → UInt16 → UInt16 → Prop
  | .connect _ remote _ _, src, dst => src &&& 0x8000 ≠ 0 ∧ dst = remote
  | .packet _ _ i, src, dst => src = i.hdr.dst ∧ dst = i.hdr.src
  | .free _, _, _ => False

instance (ev : Event) (src dst : UInt16) : Decidable (Placed ev src dst) :=
  match ev with
  | .connect _ remote _ _ => inferInstanceAs (Decidable (src &&& 0x8000 ≠ 0 ∧ dst = remote))
  | .packet _ _ i => inferInstanceAs (Decidable (src = i.hdr.dst ∧ dst = i.hdr.src))
  | .free _ => inferInstanceAs (Decidable False)

/-- The event leaves a sorted table, and a connection it has made is in its place. -/
def Proper (w : World) (ev : Event) : Prop :=
  Sorted (step w ev).utcp.connections ∧ ∀ x ∈ (step w ev).utcp.connections,
    find w.utcp.connections x.1 = none → Placed ev x.2.src x.2.dst

instance (w : World) (ev : Event) : Decidable (Proper w ev) := by
  unfold Proper
  infer_instance

/-- The search for a port finds one before it wraps around; a SYN is not for port 0. -/
def Admitted (w : World) : Event → Prop
  | .connect e dst _ _ =>
      ∃ port, (e.rand 0).toUInt16 ||| 0x8000 ≤ port ∧ findConnection w.utcp port dst = none
  | .packet _ _ i => i.hdr.dst ≠ 0
  | .free _ => True

variable {w : World} {evs : List Event}

/-- Whatever ports are asked for, the table stays in order. -/
theorem step_ready (hw : Ready w) (ev : Event) : Ready (step w ev) := by
  cases ev with
  | connect e dst recv flags => exact (utcpConnect_adds (P := fun _ _ => True) hw trivial).1
  | packet e wanted i =>
    simp only [step]
    split
    · exact hw
    · exact (recvNew_adds (P := fun _ _ => True) hw trivial).1
  | free h =>
    refine ⟨List.Pairwise.filter _ hw.sorted, ?_, remove_below _ _ _ hw.below⟩
    exact hw.distinct.sublist (filter_sublist.map Prod.fst)

theorem high_bit_of_le {port : UInt16} (h : 0x8000 ≤ port) : port &&& 0x8000 ≠ 0 := by
  intro hzero
  have hbit : port.toNat.testBit 15 = true :=
    Nat.testBit_of_two_pow_le_and_two_pow_add_one_gt (UInt16.le_iff_toNat_le.mp h) port.toNat_lt
  have hand : port.toNat &&& 2 ^ 15 = 0 := congrArg UInt16.toNat hzero
  have htest := congrArg (Nat.testBit · 15) hand
  simp only [Nat.testBit_and, hbit, Nat.testBit_two_pow_self, Nat.zero_testBit] at htest
  exact absurd htest nofun

/-- The port that a connect gets when its search does not wrap around. -/
theorem localPort_high {e : Env} {dst port : UInt16}
    (hle : (e.rand 0).toUInt16 ||| 0x8000 ≤ port) (hfree : findConnection w.utcp port dst = none) :
    localPort w.utcp e 0 dst &&& 0x8000 ≠ 0 := by
  have hstart : 0x8000 ≤ (e.rand 0).toUInt16 ||| 0x8000 := by
    rw [UInt16.le_iff_toNat_le, UInt16.toNat_or]
    exact Nat.right_le_or
  have hfuel : port.toNat - ((e.rand 0).toUInt16 ||| 0x8000).toNat < 65536 :=
    (Nat.sub_le _ _).trans_lt port.toNat_lt
  exact high_bit_of_le (UInt16.le_trans hstart (le_freePort hfree 65536 hle hfuel))

theorem step_proper (hw : Ready w) (ev : Event) (h : Admitted w ev) : Proper w ev := by
  refine ⟨(step_ready hw ev).sorted, ?_⟩
  cases ev with
  | connect e dst recv flags =>
    obtain ⟨port, hle, hfree⟩ := h
    exact (utcpConnect_adds (P := Placed (.connect e dst recv flags)) hw
      ⟨localPort_high hle hfree, rfl⟩).2
  | packet e wanted i =>
    have hport : localPort w.utcp e i.hdr.dst i.hdr.src = i.hdr.dst := if_neg h
    simp only [step]
    split
    · exact (Ready.adds hw).2
    · exact (recvNew_adds (P := Placed (.packet e wanted i)) hw ⟨hport, rfl⟩).2
  | free h =>
    intro x hx hnone
    exact absurd hnone (find_ne_none_of_mem (mem_of_mem_filter hx))

/-- As long as no SYN is for port 0 and no search for a port wraps around, every
connection is in its place. -/
theorem connections_in_place (hw : Ready w) (h : Along step Admitted w evs) :
    Along step Proper w evs :=
  along_of_kept (fun _ ev _ hw => step_ready hw ev) (fun _ ev h hw => step_proper hw ev h) h hw

/-- The search of the second connect starts at the last port. -/
def lastPort : Env := { sampleEnv true with rand := fun _ => 0xffff }

def emptyWorld : World := ⟨{ sampleUtcp with accept := true }, [], []⟩

theorem emptyWorld_ready : Ready emptyWorld where
  sorted := List.Pairwise.nil
  distinct := nodup_nil
  below := fun _ hx => absurd hx not_mem_nil

def synTo (dst : UInt16) : Incoming := ⟨⟨7, dst, 100, 0, 65535, { syn := true }, 0⟩, [], none⟩

/-- A connect and a SYN for an ordinary port. -/
theorem connections_in_place_two :
    let evs := [.connect lastPort 7 true utcpTcp, .packet (sampleEnv true) true (synTo 5)]
    Ready emptyWorld ∧ Along step Admitted emptyWorld evs ∧
      Along step Proper emptyWorld evs := by
  intro evs
  have hadmitted : Along step Admitted emptyWorld evs :=
    ⟨⟨0xffff, by decide, rfl⟩, (by decide : (5 : UInt16) ≠ 0), trivial⟩
  exact ⟨emptyWorld_ready, hadmitted, connections_in_place emptyWorld_ready hadmitted⟩

/-- The second of two connects gets local port 0; a SYN for port 0 is given some other port. -/
theorem connections_misplaced :
    ¬Along step Proper emptyWorld
        [.connect lastPort 7 true utcpTcp, .connect lastPort 7 true utcpTcp] ∧
      ¬Along step Proper emptyWorld [.packet (sampleEnv true) true (synTo 0)] := by
  constructor <;> decide +kernel

end Runs

section Capacity

/-- The endpoint together with the number of slots of the array it really has. -/
structure Slots where
  world : World
  slots : ℕ

inductive Change
  | create (e : Env) (src dst : UInt16)
  | free (h : ℕ)

/-- The creation of a connection comes to the call of realloc. -/
def reallocates (u : Utcp) (src dst : UInt16) : Bool := !refused u src dst && mustGrow u

/-- The array changes when a reallocation succeeds. -/
def Slots.step (s : Slots) : Change → Slots
  | .create e src dst =>
      { world := after (allocateConnection e src dst) s.world
        slots := if reallocates s.world.utcp src dst && (e.alloc 4).ok then capacity s.world.utcp
          else s.slots }
  | .free h => { s with world := after (freeConnection h) s.world }

/-- No entry is stored beyond the end of the array. -/
def Slots.Within (s : Slots) : Prop := s.world.utcp.connections.length ≤ s.slots

instance (s : Slots) : Decidable s.Within :=
  inferInstanceAs (Decidable (s.world.utcp.connections.length ≤ s.slots))

def ReallocationSucceeds (s : Slots) : Change → Prop
  | .create e src dst => reallocates s.world.utcp src dst = true → (e.alloc 4).ok = true
  | .free _ => True

instance (s : Slots) : DecidablePred (ReallocationSucceeds s)
  | .create e src dst =>
      inferInstanceAs (Decidable (reallocates s.world.utcp src dst = true → (e.alloc 4).ok = true))
  | .free _ => inferInstanceAs (Decidable True)

/-- The recorded capacity is that of the array. -/
structure Slots.Recorded (s : Slots) : Prop where
  within : s.Within
  capacity : s.world.utcp.nallocated = s.slots

theorem length_lt_capacity {u : Utcp} (h : u.connections.length ≤ u.nallocated) :
    u.connections.length < capacity u := by
  unfold capacity mustGrow
  simp only [decide_eq_true_eq]
  split
  · split <;> omega
  · omega

section Creating

variable {w : World} {e : Env} {src dst : UInt16}

theorem allocateConnection_refused (h : refused w.utcp src dst = true) :
    after (allocateConnection e src dst) w = w := by
  unfold after
  rw [allocateConnection_eq, if_pos h]

/-- The new capacity is recorded whether or not there is memory. -/
theorem allocateConnection_capacity (h : refused w.utcp src dst = false) :
    (after (allocateConnection e src dst) w).utcp.nallocated = capacity w.utcp := by
  unfold after
  rw [allocateConnection_eq, h]
  cases outOfMemory w.utcp e <;> rfl

theorem allocateConnection_length (h : refused w.utcp src dst = false) :
    (after (allocateConnection e src dst) w).utcp.connections.length ≤
      w.utcp.connections.length + 1 := by
  unfold after
  rw [allocateConnection_eq, h]
  cases outOfMemory w.utcp e with
  | true => exact Nat.le_succ _
  | false => exact (orderedInsert_length portsLe _ _).le

end Creating

variable {s : Slots} {changes : List Change}

theorem Slots.step_refused {e : Env} {src dst : UInt16}
    (h : refused s.world.utcp src dst = true) : s.step (.create e src dst) = s := by
  have hworld := allocateConnection_refused (e := e) h
  simp only [Slots.step, reallocates, h, hworld, Bool.not_true, Bool.false_and,
    Bool.false_eq_true, if_false]

/-- When no reallocation fails, the array has the capacity that is recorded. -/
theorem Slots.step_slots {e : Env} {src dst : UInt16} (hs : s.Recorded)
    (hrefused : refused s.world.utcp src dst = false)
    (h : ReallocationSucceeds s (.create e src dst)) :
    (s.step (.create e src dst)).slots = ConnectionTable.capacity s.world.utcp := by
  simp only [ReallocationSucceeds, reallocates, hrefused, Bool.not_false, Bool.true_and] at h
  simp only [Slots.step, reallocates, hrefused, Bool.not_false, Bool.true_and]
  cases hgrow : mustGrow s.world.utcp with
  | true => simp only [h hgrow, Bool.and_true, if_true]
  | false =>
    unfold ConnectionTable.capacity
    simp only [hgrow, Bool.false_and, Bool.false_eq_true, if_false]
    exact hs.capacity.symm

theorem Slots.Recorded.step (hs : s.Recorded) (change : Change)
    (h : ReallocationSucceeds s change) : (s.step change).Recorded := by
  cases change with
  | free h => exact ⟨(length_filter_le _ _).trans hs.within, hs.capacity⟩
  | create e src dst =>
    cases hrefused : refused s.world.utcp src dst with
    | true =>
      rw [Slots.step_refused hrefused]
      exact hs
    | false =>
      have hslots := Slots.step_slots hs hrefused h
      have hlength := length_lt_capacity (hs.within.trans hs.capacity.ge)
      refine ⟨?_, (allocateConnection_capacity hrefused).trans hslots.symm⟩
      unfold Slots.Within
      rw [hslots]
      exact (allocateConnection_length hrefused).trans hlength

/-- As long as every reallocation succeeds, all connections are inside the array. -/
theorem connections_within_array (hs : s.Recorded)
    (h : Along Slots.step ReallocationSucceeds s changes) : (changes.foldl Slots.step s).Within :=
  (kept_along (fun _ change h hs => hs.step change h) h hs).within

def noSlots : Slots := ⟨emptyWorld, 0⟩

theorem noSlots_recorded : noSlots.Recorded := ⟨Nat.le_refl 0, rfl⟩

def creations (n : ℕ) : List Change :=
  (List.range n).map fun k => .create (sampleEnv true) 1 (UInt16.ofNat k)

/-- The array grows twice for five connections. -/
theorem connections_within_array_five :
    noSlots.Recorded ∧ Along Slots.step ReallocationSucceeds noSlots (creations 5) ∧
      ((creations 5).foldl Slots.step noSlots).Within := by
  have hsucceeds : Along Slots.step ReallocationSucceeds noSlots (creations 5) := by
    decide +kernel
  exact ⟨noSlots_recorded, hsucceeds, connections_within_array noSlots_recorded hsucceeds⟩

/-- After a failed reallocation the fifth connection is stored beyond four slots. -/
theorem connections_beyond_array :
    ¬((creations 4 ++ [Change.create (sampleEnv false) 1 4,
        Change.create (sampleEnv true) 1 4]).foldl
      Slots.step noSlots).Within := by
  decide +kernel

end Capacity

end Meshlink.ConnectionTable
