import Meshlink.SplayTrees

/-!
The choice of nodes to connect to and to disconnect from in periodic_handler of net.c. Each
choice is the head of a splay tree that the candidates were inserted in, with a comparison
function for the order which the comment above the handler asks for. Of a node that was never
connected and one that was, the comparison by last connection puts each before the other,
hence the choice depends on which of them is inserted first. The comparison for disconnecting
puts low device classes first, where the comment asks for high ones.
-/
namespace Meshlink.Autoconnect

open SplayTrees

/-- What periodic_handler reads of a node, whose address is `place`. A time of zero is that of
something that never happened. -/
structure Peer where
  place : ℕ
  devclass : ℕ
  lastSuccessfullConnection : ℤ
  lastConnectTry : ℤ
  connection : Bool
  reachable : Bool
  blacklisted : Bool
  deriving DecidableEq

structure Connection where
  active : Bool
  outgoing : Bool
  node : Option Peer

/-- The mesh, with the nodes other than our own in the order of mesh->nodes, and the limits
for our own device class. -/
structure Mesh where
  devclass : ℕ
  minConnects : ℕ
  maxConnects : ℕ
  now : ℤ
  nodes : List Peer
  connections : List Connection

section Comparison

def comparePlace (a b : Peer) : ℤ :=
  if a.place < b.place then -1 else if a.place > b.place then 1 else 0

def nodeCompareLscDesc (a b : Peer) : ℤ :=
  if a.lastSuccessfullConnection = b.lastSuccessfullConnection then 0
  else if a.lastSuccessfullConnection = 0 ∨
      a.lastSuccessfullConnection > b.lastSuccessfullConnection then -1
  else if b.lastSuccessfullConnection = 0 ∨
      a.lastSuccessfullConnection < b.lastSuccessfullConnection then 1
  else comparePlace a b

def nodeCompareDevclassAscLscDesc (a b : Peer) : ℤ :=
  if a.devclass < b.devclass then -1
  else if a.devclass > b.devclass then 1
  else nodeCompareLscDesc a b

def nodeCompareDevclassDesc (a b : Peer) : ℤ :=
  if a.devclass < b.devclass then -1
  else if a.devclass > b.devclass then 1
  else comparePlace a b

end Comparison

section Handler

variable (mesh : Mesh)

/-- The head of a tree in which the nodes are inserted one after the other. -/
def first (compare : Peer → Peer → ℤ) (nodes : List Peer) : Option Peer :=
  (insertAll compare nodes .leaf).toList.head?

def curConnects : ℕ := mesh.connections.countP fun c => c.active

-- mesh->nodes->count is one more than the other nodes.
def retryTimeout : ℤ := min ((mesh.nodes.length + 1) * 5) 60

/-- The part of the conditions that all attempts to connect share. -/
def mayTry (n : Peer) : Bool :=
  !n.blacklisted && (n.lastConnectTry == 0 || mesh.now - n.lastConnectTry > retryTimeout mesh)

def mayConnect (n : Peer) : Bool := n.devclass ≤ mesh.devclass && !n.connection && mayTry mesh n

def eligible : List Peer := mesh.nodes.filter (mayConnect mesh)

/-- The number of active connections with nodes of a device class. -/
def connectsOf (devclass : ℕ) : ℕ :=
  mesh.connections.countP fun c => c.active && c.node.any fun n => n.devclass == devclass

/-- The loop over the device classes that looks for better nodes. -/
def betterNode : List ℕ → ℕ → Option Peer
  | [], _ => none
  | devclass :: rest, connects =>
      if connects + connectsOf mesh devclass < mesh.minConnects then
        first nodeCompareLscDesc (mesh.nodes.filter fun n =>
          n.devclass == devclass && !n.connection && mayTry mesh n) <|>
            betterNode rest (connects + connectsOf mesh devclass)
      else none

def healPartition : Option Peer :=
  first nodeCompareDevclassAscLscDesc (mesh.nodes.filter fun n =>
    n.devclass ≤ mesh.devclass && !n.reachable && mayTry mesh n)

def connectTo : Option Peer :=
  if mesh.nodes = [] then none
  else if curConnects mesh < mesh.minConnects then
    first nodeCompareDevclassAscLscDesc (eligible mesh)
  else if curConnects mesh < mesh.maxConnects then
    betterNode mesh (List.range (mesh.devclass + 1)) 0 <|> healPartition mesh
  else none

def outgoingNodes (devclass : ℕ) : List Peer :=
  mesh.connections.filterMap fun c =>
    if c.outgoing then c.node.filter fun n => n.devclass ≥ devclass else none

def activeNodes : List Peer := mesh.connections.filterMap fun c => if c.active then c.node else none

/-- The loop over the device classes that looks for suboptimal connections. -/
def suboptimalNode : List ℕ → ℕ → Option Peer
  | [], _ => none
  | devclass :: rest, connects =>
      if mesh.minConnects < connects + connectsOf mesh devclass then
        first nodeCompareDevclassDesc (outgoingNodes mesh devclass)
      else suboptimalNode rest (connects + connectsOf mesh devclass)

/-- The node to disconnect from. The active connections were counted before the handler made
a new connection, hence their number is an argument. -/
def disconnectFrom (cur : ℕ) : Option Peer :=
  if mesh.nodes = [] then none
  else
    (if mesh.minConnects < cur then suboptimalNode mesh (List.range (mesh.devclass + 1)) 0
      else none) <|>
      if mesh.maxConnects < cur then first nodeCompareDevclassDesc (activeNodes mesh) else none

end Handler

section Connecting

/-- The order by ascending device class and descending time of the last connection. -/
def Better (a b : Peer) : Prop :=
  a.devclass < b.devclass ∨
    a.devclass = b.devclass ∧ b.lastSuccessfullConnection ≤ a.lastSuccessfullConnection

/-- The lowest device class has a node that was never connected, and one that was. -/
def Mixed (nodes : List Peer) : Prop :=
  ∃ a ∈ nodes, ∃ b ∈ nodes, (∀ n ∈ nodes, a.devclass ≤ n.devclass) ∧
    a.devclass = b.devclass ∧ a.lastSuccessfullConnection = 0 ∧ 0 < b.lastSuccessfullConnection

/-- The order that remains if the times are looked at in the lowest device class only. -/
def BetterLow (nodes : List Peer) (a b : Peer) : Prop :=
  a.devclass < b.devclass ∨ a.devclass = b.devclass ∧
    ((∀ n ∈ nodes, a.devclass ≤ n.devclass) →
      b.lastSuccessfullConnection ≤ a.lastSuccessfullConnection)

theorem compareLsc_nonpos {a b : Peer} (h : nodeCompareLscDesc a b ≤ 0) :
    a.lastSuccessfullConnection = 0 ∨
      b.lastSuccessfullConnection ≤ a.lastSuccessfullConnection := by
  unfold nodeCompareLscDesc at h
  split_ifs at h <;> omega

theorem compareLsc_nonneg {a b : Peer} (h : 0 ≤ nodeCompareLscDesc a b) :
    a.lastSuccessfullConnection ≤ b.lastSuccessfullConnection := by
  unfold nodeCompareLscDesc at h
  split_ifs at h <;> omega

theorem betterLow_of_compare {nodes : List Peer} (h : ¬Mixed nodes) {a b : Peer} (ha : a ∈ nodes)
    (hb : b ∈ nodes) :
    (nodeCompareDevclassAscLscDesc a b ≤ 0 → BetterLow nodes a b) ∧
      (0 ≤ nodeCompareDevclassAscLscDesc a b → BetterLow nodes b a) := by
  unfold nodeCompareDevclassAscLscDesc
  split_ifs with hlt hgt
  · exact ⟨fun _ => .inl hlt, by omega⟩
  · exact ⟨by omega, fun _ => .inl hgt⟩
  have hclass : a.devclass = b.devclass := by omega
  constructor
  · intro hle
    refine .inr ⟨hclass, fun hlow => ?_⟩
    rcases compareLsc_nonpos hle with hzero | hle
    · by_contra hpos
      exact h ⟨a, ha, b, hb, hlow, hclass, hzero, by omega⟩
    · exact hle
  · exact fun hge => .inr ⟨hclass.symm, fun _ => compareLsc_nonneg hge⟩

theorem first_better {nodes : List Peer} (h : ¬Mixed nodes) :
    Leads Better nodes (first nodeCompareDevclassAscLscDesc nodes) := by
  have hleads : Leads (BetterLow nodes) nodes (first nodeCompareDevclassAscLscDesc nodes) := by
    refine leads_insertAll (fun a => .inr ⟨rfl, fun _ => Int.le_refl _⟩) ?_ fun a ha b hb => ?_
    · rintro a b c (hab | ⟨hab, htab⟩) (hbc | ⟨hbc, htbc⟩)
      · exact .inl (by omega)
      · exact .inl (by omega)
      · exact .inl (by omega)
      · refine .inr ⟨by omega, fun hlow => ?_⟩
        exact Int.le_trans (htbc (hab ▸ hlow)) (htab hlow)
    · exact betterLow_of_compare h ha hb
  cases hfirst : first nodeCompareDevclassAscLscDesc nodes with
  | none => rwa [hfirst] at hleads
  | some n =>
    rw [hfirst] at hleads
    have hlow : ∀ m ∈ nodes, n.devclass ≤ m.devclass := by
      intro m hm
      have := hleads.2 m hm
      unfold BetterLow at this
      omega
    exact ⟨hleads.1, fun y hy => (hleads.2 y hy).imp_right fun heq => ⟨heq.1, heq.2 hlow⟩⟩

section Mixing

/-- A node of the device class that was never connected. -/
def Never (devclass : ℕ) (n : Peer) : Prop :=
  n.devclass = devclass ∧ n.lastSuccessfullConnection = 0

instance (devclass : ℕ) (n : Peer) : Decidable (Never devclass n) :=
  inferInstanceAs (Decidable (_ ∧ _))

variable {devclass : ℕ} {t : SplayTree Peer}

theorem Never.compare {z y : Peer} (hz : Never devclass z) (hy : devclass ≤ y.devclass) :
    nodeCompareDevclassAscLscDesc z y ≤ 0 ∧
      (nodeCompareDevclassAscLscDesc z y = 0 → Never devclass y) := by
  obtain ⟨rfl, hzero⟩ := hz
  unfold nodeCompareDevclassAscLscDesc nodeCompareLscDesc Never
  constructor
  · split_ifs <;> omega
  · intro heq
    split_ifs at heq <;> omega

/-- A node that was never connected goes to the front, unless there already is another. -/
theorem never_first {z : Peer} (hz : Never devclass z)
    (hlow : ∀ y ∈ t.toList, devclass ≤ y.devclass)
    (hhead : (∃ y ∈ t.toList.head?, Never devclass y) ∨ ∀ y ∈ t.toList, ¬Never devclass y) :
    ∃ y ∈ (splayInsert nodeCompareDevclassAscLscDesc z t).toList.head?, Never devclass y := by
  rcases splayInsert_between nodeCompareDevclassAscLscDesc z t with
    ⟨hsame, y, hy, hzero⟩ | ⟨xs, ys, hlist, hinsert, hlast, -⟩
  · rw [hsame]
    have hnever : Never devclass y := (hz.compare (hlow y hy)).2 hzero
    exact hhead.resolve_right fun hnone => hnone y hy hnever
  rcases List.eq_nil_or_concat xs with rfl | ⟨init, y, rfl⟩
  · exact ⟨z, by simp [hinsert], hz⟩
  · have hle := (hz.compare (hlow y (by simp [hlist]))).1
    have hpos := hlast y (by simp)
    omega

theorem never_first_of_all {zs : List Peer} (hzs : ∀ z ∈ zs, Never devclass z)
    (hlow : ∀ y ∈ t.toList, devclass ≤ y.devclass)
    (hhead : (∃ y ∈ t.toList.head?, Never devclass y) ∨
      zs ≠ [] ∧ ∀ y ∈ t.toList, ¬Never devclass y) :
    ∃ y ∈ (insertAll nodeCompareDevclassAscLscDesc zs t).toList.head?, Never devclass y := by
  induction zs generalizing t with
  | nil => exact hhead.resolve_right (by simp)
  | cons z zs ih =>
    have hz := hzs z (by simp)
    refine ih (fun z' hz' => hzs z' (by simp [hz'])) (fun y hy => ?_)
      (.inl (never_first hz hlow (hhead.imp_right And.right)))
    rcases mem_of_mem_splayInsert hy with rfl | hy
    · exact Nat.le_of_eq hz.1.symm
    · exact hlow y hy

/-- The nodes of the lowest device class that were never connected, inserted last, come first. -/
theorem first_never {nodes : List Peer} (hlow : ∀ n ∈ nodes, devclass ≤ n.devclass)
    (hnever : ∃ z ∈ nodes, Never devclass z) :
    ∃ z ∈ first nodeCompareDevclassAscLscDesc
      (nodes.filter (fun n => !decide (Never devclass n)) ++ nodes.filter (Never devclass ·)),
      Never devclass z := by
  have hranked : Ranked (fun _ _ => True) (nodes.filter fun n => !decide (Never devclass n))
      (insertAll nodeCompareDevclassAscLscDesc _ .leaf) :=
    ranked_insertAll (by simp) (by simp) (by simp)
  have hsubset : ∀ y ∈ (insertAll nodeCompareDevclassAscLscDesc
      (nodes.filter fun n => !decide (Never devclass n)) .leaf).toList,
      y ∈ nodes ∧ ¬Never devclass y := by
    intro y hy
    simpa using hranked.subset y hy
  rw [first, insertAll, List.foldl_append]
  refine never_first_of_all (by simp) (fun y hy => hlow y (hsubset y hy).1)
    (.inr ⟨?_, fun y hy => (hsubset y hy).2⟩)
  simpa using hnever

end Mixing

def Mesh.withNodes (mesh : Mesh) (nodes : List Peer) : Mesh := { mesh with nodes := nodes }

theorem eligible_withNodes (mesh : Mesh) {nodes : List Peer} (h : nodes.Perm mesh.nodes) :
    eligible (mesh.withNodes nodes) = nodes.filter (mayConnect mesh) := by
  have hmay : mayConnect (mesh.withNodes nodes) = mayConnect mesh := by
    unfold mayConnect mayTry retryTimeout Mesh.withNodes
    rw [h.length_eq]
  rw [eligible, hmay]
  rfl

theorem connectTo_few {mesh : Mesh} (hfew : curConnects mesh < mesh.minConnects) :
    connectTo mesh = first nodeCompareDevclassAscLscDesc (eligible mesh) := by
  unfold connectTo
  split_ifs with hnil
  · simp [eligible, hnil, first, insertAll]
  · rfl

/-- With fewer connections than the least number, the handler chooses a node that comes first
by device class and last connection, whatever the order of the nodes, unless some of the
lowest device class were never connected and others were. -/
theorem connectTo_best_iff (mesh : Mesh) :
    (curConnects mesh < mesh.minConnects → ∀ nodes, nodes.Perm mesh.nodes →
      Leads Better (eligible (mesh.withNodes nodes)) (connectTo (mesh.withNodes nodes))) ↔
    (curConnects mesh < mesh.minConnects → ¬Mixed (eligible mesh)) := by
  have hchoice (nodes) (hfew : curConnects mesh < mesh.minConnects) :
      connectTo (mesh.withNodes nodes) =
        first nodeCompareDevclassAscLscDesc (eligible (mesh.withNodes nodes)) :=
    connectTo_few hfew
  constructor
  · rintro hbest hfew ⟨a, ha, b, hb, hlow, hclass, hzero, hpos⟩
    -- The nodes of the lowest class that were never connected are inserted last.
    have hperm := List.filter_append_perm (fun n => !decide (Never a.devclass n)) mesh.nodes
    have hleads := hbest hfew _ hperm
    rw [hchoice _ hfew, eligible_withNodes mesh hperm, List.filter_append, List.filter_comm,
      List.filter_comm (mayConnect mesh) (fun n => !!decide _)] at hleads
    simp only [Bool.not_not, ← eligible.eq_def] at hleads
    obtain ⟨z, hz, hnever⟩ := first_never hlow ⟨a, ha, rfl, hzero⟩
    rw [Option.mem_def.mp hz] at hleads
    have hb : Better z b := by
      refine hleads.2 b ?_
      by_cases h : Never a.devclass b <;> simp [hb, h]
    unfold Better at hb
    unfold Never at hnever
    omega
  · intro hmixed hfew nodes hperm
    rw [hchoice nodes hfew]
    refine first_better fun hmixed' => hmixed hfew ?_
    have hmem : ∀ n, n ∈ eligible (mesh.withNodes nodes) ↔ n ∈ eligible mesh := by
      intro n
      rw [eligible_withNodes mesh hperm, eligible, List.mem_filter, List.mem_filter, hperm.mem_iff]
    simpa only [Mixed, hmem] using hmixed'

end Connecting

/-- We know a node that we were connected to before, and after it in the mesh's order one of
the same device class that we never were. -/
def oneNeverConnected : Mesh where
  devclass := 0
  minConnects := 3
  maxConnects := 10000
  now := 1000
  nodes := [⟨1, 0, 100, 0, false, false, false⟩, ⟨2, 0, 0, 0, false, false, false⟩]
  connections := []

theorem oneNeverConnected_not_best :
    curConnects oneNeverConnected < oneNeverConnected.minConnects ∧
      ¬Leads Better (eligible oneNeverConnected) (connectTo oneNeverConnected) := by
  have hchoice : connectTo oneNeverConnected = some ⟨2, 0, 0, 0, false, false, false⟩ := by decide
  refine ⟨by decide, fun hleads => ?_⟩
  rw [hchoice] at hleads
  have hbetter := hleads.2 ⟨1, 0, 100, 0, false, false, false⟩ (by decide)
  simp [Better] at hbetter

section Disconnecting

variable (mesh : Mesh)

/-- The number of active connections with nodes of the lower device classes. -/
def connectsBelow (devclass : ℕ) : ℕ :=
  mesh.connections.countP fun c => c.active && c.node.any fun n => n.devclass < devclass

/-- The lowest device class up to ours that makes too many connections, with those below. -/
def crowdedClass : Option ℕ :=
  (List.range (mesh.devclass + 1)).find? fun d => mesh.minConnects < connectsBelow mesh (d + 1)

def suboptimalNodes (cur : ℕ) : List Peer :=
  if mesh.minConnects < cur then (crowdedClass mesh).elim [] (outgoingNodes mesh) else []

/-- The nodes of the candidate connections in the step that disconnects: the suboptimal ones,
else all of them if there are too many. -/
def disconnectCandidates (cur : ℕ) : List Peer :=
  if mesh.nodes = [] then []
  else if suboptimalNodes mesh cur ≠ [] then suboptimalNodes mesh cur
  else if mesh.maxConnects < cur then activeNodes mesh
  else []

theorem connectsBelow_succ (devclass : ℕ) :
    connectsBelow mesh (devclass + 1) = connectsBelow mesh devclass + connectsOf mesh devclass := by
  unfold connectsBelow connectsOf
  induction mesh.connections with
  | nil => rfl
  | cons c rest ih =>
    simp only [List.countP_cons, ih]
    cases c.active <;> cases c.node <;> simp
    split_ifs <;> omega

theorem suboptimalNode_eq (d k : ℕ) :
    suboptimalNode mesh (List.range' d k) (connectsBelow mesh d) =
      ((List.range' d k).find? fun e => mesh.minConnects < connectsBelow mesh (e + 1)).elim none
        fun e => first nodeCompareDevclassDesc (outgoingNodes mesh e) := by
  induction k generalizing d with
  | zero => rfl
  | succ k ih =>
    rw [List.range'_succ, suboptimalNode, ← connectsBelow_succ, List.find?_cons]
    split_ifs with h
    · simp [h]
    · simp [h, ih]

theorem first_lowest (nodes : List Peer) :
    Leads (fun a b => a.devclass ≤ b.devclass) nodes (first nodeCompareDevclassDesc nodes) := by
  refine leads_insertAll (fun a => Nat.le_refl _) Nat.le_trans fun a _ b _ => ?_
  unfold nodeCompareDevclassDesc
  constructor
  · intro h
    split_ifs at h <;> omega
  · intro h
    split_ifs at h <;> omega

theorem disconnectFrom_eq (cur : ℕ) :
    disconnectFrom mesh cur = first nodeCompareDevclassDesc (disconnectCandidates mesh cur) := by
  have hnil : first nodeCompareDevclassDesc [] = none := rfl
  have hsuboptimal : (if mesh.minConnects < cur then
      suboptimalNode mesh (List.range (mesh.devclass + 1)) 0 else none) =
        first nodeCompareDevclassDesc (suboptimalNodes mesh cur) := by
    unfold suboptimalNodes crowdedClass
    have hloop := suboptimalNode_eq mesh 0 (mesh.devclass + 1)
    rw [show connectsBelow mesh 0 = 0 by simp [connectsBelow]] at hloop
    rw [List.range_eq_range', hloop]
    split_ifs
    · cases List.find? _ _ with
      | none => rfl
      | some d => rfl
    · rfl
  unfold disconnectFrom disconnectCandidates
  rw [hsuboptimal]
  have hleads := first_lowest (suboptimalNodes mesh cur)
  by_cases hnodes : mesh.nodes = []
  · simp [hnodes, hnil]
  by_cases hnone : suboptimalNodes mesh cur = []
  · simp only [hnodes, hnone, hnil, if_false, ne_eq, not_true_eq_false]
    split_ifs <;> rfl
  cases hfirst : first nodeCompareDevclassDesc (suboptimalNodes mesh cur) with
  | none =>
    rw [hfirst] at hleads
    exact absurd hleads hnone
  | some n => simp [hnodes, hnone, hfirst]

/-- The node to disconnect from has the highest device class of the candidates only if all
candidates have the same. -/
theorem disconnectFrom_highest_iff (cur : ℕ) :
    (∀ n, disconnectFrom mesh cur = some n →
      ∀ m ∈ disconnectCandidates mesh cur, m.devclass ≤ n.devclass) ↔
    ∀ a ∈ disconnectCandidates mesh cur, ∀ b ∈ disconnectCandidates mesh cur,
      a.devclass = b.devclass := by
  have hleads := first_lowest (disconnectCandidates mesh cur)
  rw [← disconnectFrom_eq] at hleads
  cases hfrom : disconnectFrom mesh cur with
  | none =>
    rw [hfrom] at hleads
    simp [show disconnectCandidates mesh cur = [] from hleads]
  | some n =>
    rw [hfrom] at hleads
    constructor
    · intro hhigh a ha b hb
      have := hhigh n rfl
      have hn := hleads.2
      have := hhigh n rfl a ha
      have := hhigh n rfl b hb
      have := hn a ha
      have := hn b hb
      omega
    · rintro hsame _ ⟨⟩ m hm
      exact Nat.le_of_eq (hsame m hm n hleads.1)

/-- Four nodes of the backbone and a portable. -/
def fiveNodes : List Peer :=
  (List.range 5).map fun place =>
    ⟨place, if place = 4 then 2 else 0, 100, 0, true, true, false⟩

/-- A portable node with outgoing connections to all five. -/
def fiveConnects : Mesh where
  devclass := 2
  minConnects := 3
  maxConnects := 3
  now := 1000
  nodes := fiveNodes
  connections := fiveNodes.map fun n => ⟨true, true, some n⟩

theorem fiveConnects_not_highest :
    ¬∀ n, disconnectFrom fiveConnects (curConnects fiveConnects) = some n →
      ∀ m ∈ disconnectCandidates fiveConnects (curConnects fiveConnects),
        m.devclass ≤ n.devclass := by
  intro h
  have hfrom : disconnectFrom fiveConnects (curConnects fiveConnects) =
      some ⟨0, 0, 100, 0, true, true, false⟩ := by decide
  have hclass := h _ hfrom ⟨4, 2, 100, 0, true, true, false⟩ (by decide)
  simp at hclass

end Disconnecting

end Meshlink.Autoconnect
