import Meshlink.HostEntries

/-!
What finalize_join leaves behind. The local node takes on the name that the invitation
gives to it before anything is stored, and the host entries are stored and added one
after another, so that a failure keeps what came before it. An entry with a bad header
ends the loop, but the join goes on as if it had been the last one.
-/
namespace Meshlink.JoinedHosts

open Commands MeshState MeshGraph HostFiles HostEntries MeshRuns
open Packmsg hiding Bytes

section Loop

variable (p : Params)

/-- The loop of finalize_join over entries that have been taken out of the invitation. -/
def joinList (peer : Option Sockaddr) : List Bytes → Command Mesh Hosts
  | [] => pure .complete
  | config :: rest => do
    let m ← gets id
    match hostName config with
    | none => pure .broken
    | some name =>
      if name = m.name then pure .failed
      else
        let nd ← nodeReadFromConfig name config
        match nd with
        | none => pure .failed
        | some nd =>
          let added ← addHost p (withPeer peer nd)
          if !added then pure .failed else joinList none rest

/-- A loop that comes to the end of too few entries has failed. -/
def shorten (short : Bool) (hosts : Hosts) : Hosts :=
  if short && decide (hosts = .complete) then .failed else hosts

theorem joinEntries_eq (peer : Option Sockaddr) (count : ℕ) (input : Input) :
    joinEntries p peer count input =
      (joinList p peer (announced count input).1 >>= fun hosts =>
        pure (shorten (decide ((announced count input).1.length < count)) hosts)) := by
  induction count generalizing input peer with
  | zero => rfl
  | succ count ih =>
    unfold joinEntries announced
    rcases hget : getBinRaw input with ⟨config, rest⟩
    rcases config with _ | _ | ⟨b, bytes⟩
    · rfl
    · rfl
    · dsimp only
      unfold joinList
      rw [bind_assoc]
      congr 1
      funext m
      cases hostName (b :: bytes) with
      | none => simp [shorten]
      | some name =>
        dsimp only
        split
        · simp [shorten]
        rw [bind_assoc]
        congr 1
        funext nd
        cases nd with
        | none => simp [shorten]
        | some nd =>
          dsimp only
          rw [bind_assoc]
          congr 1
          funext added
          cases added with
          | false => simp [shorten]
          | true =>
            simp only [Bool.not_true, Bool.false_eq_true, if_false, List.length_cons,
              Nat.add_lt_add_iff_right]
            exact ih none rest

end Loop

section Steps

variable {p : Params} {m m' : Mesh} {config : Bytes} {es : List Bytes} {name : String} {nd : Node}
  {peer : Option Sockaddr}

theorem withPeer_name (peer : Option Sockaddr) (nd : Node) : (withPeer peer nd).name = nd.name := by
  cases peer with
  | none => rfl
  | some sa => rfl

theorem joinList_unheaded (h : hostName config = none) :
    joinList p peer (config :: es) m = (some .broken, m) := by
  rw [joinList, gets_bind, h]
  rfl

theorem joinList_own (hname : hostName config = some name) (hown : name = m.name) :
    joinList p peer (config :: es) m = (some .failed, m) := by
  rw [joinList, gets_bind, hname]
  dsimp only [id]
  rw [if_pos hown]
  rfl

theorem joinList_read (hname : hostName config = some name) (hown : name ≠ m.name) :
    joinList p peer (config :: es) m = (nodeReadFromConfig name config >>= fun nd =>
      match nd with
      | none => pure .failed
      | some nd => do
        let added ← addHost p (withPeer peer nd)
        if !added then pure .failed else joinList p none es) m := by
  rw [joinList, gets_bind, hname]
  dsimp only [id]
  rw [if_neg hown]

theorem joinList_parsed (p : Params) (peer : Option Sockaddr) (es : List Bytes)
    (hname : hostName config = some name) (hown : name ≠ m.name)
    (hparsed : parsed m config = some nd) :
    ∃ submeshes, joinList p peer (config :: es) m =
      if p.succeeds m.ops (.writeConfig name) then
        joinList p none es (withHost (withPeer peer nd) {m with submeshes := submeshes})
      else (some .failed, {m with submeshes := submeshes, ops := m.ops + 1}) := by
  obtain ⟨submeshes, hread⟩ := read_parsed hname hparsed
  refine ⟨submeshes, ?_⟩
  rw [joinList_read hname hown, bind_of_some hread]
  dsimp only
  rw [addHost_then, withPeer_name, parsed_name hname hparsed]

/-- The name of an entry that is stored, when the local node has some name and some number
of operations have been tried. -/
def storedName (p : Params) (m : Mesh) (own : String) (ops : ℕ) (config : Bytes) : Option String :=
  (hostName config).filter fun name =>
    decide (name ≠ own) && (wellFormed m config && p.succeeds ops (.writeConfig name))

/-- The names of the entries that are stored before the first that is not. -/
def storedNames (p : Params) (m : Mesh) (own : String) : ℕ → List Bytes → List String
  | _, [] => []
  | ops, config :: rest =>
    match storedName p m own ops config with
    | none => []
    | some name => name :: storedNames p m own (ops + 1) rest

theorem storedNames_eq (m m' : Mesh) (own : String) (ops : ℕ) (es : List Bytes) :
    storedNames p m own ops es = storedNames p m' own ops es := by
  induction es generalizing ops with
  | nil => rfl
  | cons config es ih =>
    unfold storedNames storedName
    rw [wellFormed_eq m m', ih]

theorem storedName_some {own : String} {ops : ℕ} (h : storedName p m own ops config = some name) :
    hostName config = some name ∧ name ≠ own ∧ (∃ nd, parsed m config = some nd) ∧
      p.succeeds ops (.writeConfig name) = true := by
  unfold storedName at h
  obtain ⟨hname, hrest⟩ := Option.filter_eq_some_iff.mp h
  simp only [Bool.and_eq_true, decide_eq_true_eq] at hrest
  exact ⟨hname, hrest.1, Option.isSome_iff_exists.mp hrest.2.1, hrest.2.2⟩

/-- The loop at an entry that is stored goes on. -/
theorem joinList_stored (peer : Option Sockaddr) (es : List Bytes)
    (h : storedName p m m.name m.ops config = some name) :
    ∃ submeshes nd, parsed m config = some nd ∧ nd.name = name ∧
      joinList p peer (config :: es) m =
        joinList p none es (withHost (withPeer peer nd) {m with submeshes := submeshes}) := by
  obtain ⟨hname, hown, ⟨nd, hparsed⟩, hwritten⟩ := storedName_some h
  obtain ⟨submeshes, hrun⟩ := joinList_parsed p peer es hname hown hparsed
  rw [if_pos hwritten] at hrun
  exact ⟨submeshes, nd, hparsed, parsed_name hname hparsed, hrun⟩

end Steps

section Runs

variable {p : Params} {m m' : Mesh} {es : List Bytes} {peer : Option Sockaddr} {hosts : Hosts}

theorem storedNames_length_le (m : Mesh) (own : String) (ops : ℕ) (es : List Bytes) :
    (storedNames p m own ops es).length ≤ es.length := by
  induction es generalizing ops with
  | nil => exact Nat.le_refl 0
  | cons config es ih =>
    rw [storedNames]
    split
    · exact Nat.zero_le _
    · exact Nat.succ_le_succ (ih _)

/-- How the loop ends at the first entry that is not stored. -/
def Ends (m m' : Mesh) (stored : ℕ) (hosts : Hosts) : Option Bytes → Prop
  | none => hosts = .complete ∧ m'.ops = m.ops + stored
  | some config =>
    if hostName config = none then hosts = .broken ∧ m'.ops = m.ops + stored
    else hosts = .failed

theorem Ends.shift {m₁ : Mesh} {stored : ℕ} {config : Option Bytes}
    (h : Ends m₁ m' stored hosts config) (hops : m₁.ops = m.ops + 1) :
    Ends m m' (stored + 1) hosts config := by
  unfold Ends at h ⊢
  rw [hops, show m.ops + 1 + stored = m.ops + (stored + 1) by omega] at h
  exact h

/-- What the loop has done when it ends, by the names of the entries that it stored. -/
structure Joined (m : Mesh) (es : List Bytes) (names : List String) (hosts : Hosts)
    (m' : Mesh) : Prop where
  name : m'.name = m.name
  self : m'.self = m.self
  old : ∀ i < m.nextNode, m'.node i = m.node i
  log : m'.log = m.log ++ names.map .stored
  nodes : ∃ ids, m'.nodes = m.nodes ++ ids ∧ ids.length = (newOnes (knows m) names).length
  ends : Ends m m' names.length hosts es[names.length]?

/-- A loop that ends at its first entry, or has none, adds nothing. -/
theorem joined_idle {submeshes : List String} {ops : ℕ}
    (hends : Ends m {m with submeshes := submeshes, ops := ops} 0 hosts es[0]?) :
    Joined m es [] hosts {m with submeshes := submeshes, ops := ops} :=
  ⟨rfl, rfl, fun _ _ => rfl, (List.append_nil _).symm, ⟨[], (List.append_nil _).symm, rfl⟩, hends⟩

theorem joined_of_not_stored {config : Bytes} (h : storedName p m m.name m.ops config = none)
    (hrun : joinList p peer (config :: es) m = (some hosts, m')) :
    Joined m (config :: es) [] hosts m' := by
  cases hname : hostName config with
  | none =>
    rw [joinList_unheaded hname] at hrun
    cases hrun
    refine joined_idle ?_
    simp [Ends, hname]
  | some name =>
    have hends (m' : Mesh) : Ends m m' 0 .failed (config :: es)[0]? := by simp [Ends, hname]
    by_cases hown : name = m.name
    · rw [joinList_own hname hown] at hrun
      cases hrun
      exact joined_idle (hends _)
    cases hparsed : parsed m config with
    | none =>
      rw [joinList_read hname hown] at hrun
      obtain ⟨submeshes, hread | hread⟩ := read_unread hname hparsed
      · exact absurd ((bind_of_none hread).symm.trans hrun) nofun
      · cases (bind_of_some hread).symm.trans hrun
        exact joined_idle (hends _)
    | some nd =>
      obtain ⟨submeshes, hentered⟩ := joinList_parsed p peer es hname hown hparsed
      have hwritten : p.succeeds m.ops (.writeConfig name) = false := by
        unfold storedName at h
        rw [hname, Option.filter_eq_none_iff] at h
        have hall := h name rfl
        simpa [hown, wellFormed, hparsed] using hall
      rw [hentered, if_neg (Bool.eq_false_iff.mp hwritten)] at hrun
      cases hrun
      exact joined_idle (hends _)

/-- A host that was added comes before what the rest of the loop does. -/
theorem Joined.cons {nd : Node} {names : List String} {submeshes : List String}
    (h : Joined (withHost nd {m with submeshes := submeshes}) es names hosts m')
    (config : Bytes) (hm : Allocated m) :
    Joined m (config :: es) (nd.name :: names) hosts m' := by
  have hm' : Allocated {m with submeshes := submeshes} := hm
  refine ⟨h.name, h.self, ?_, ?_, ?_, ?_⟩
  · intro i hi
    rw [h.old i (Nat.lt_succ_of_lt hi), withHost_node]
    exact Function.update_of_ne hi.ne _ _
  · rw [h.log]
    exact List.append_assoc _ _ _
  · obtain ⟨ids, hids, hlength⟩ := h.nodes
    cases hknown : knows m nd.name with
    | true =>
      have hknows : knows (withHost nd {m with submeshes := submeshes}) = knows m := by
        funext other
        rw [hm'.knows_withHost nd other]
        by_cases hother : nd.name = other
        · rw [← hother]
          exact hknown ▸ Bool.or_true _
        · rw [decide_eq_false hother]
          rfl
      rw [withHost_nodes_of_known (m := {m with submeshes := submeshes}) hknown] at hids
      rw [newOnes_of_known hknown, ← hknows]
      exact ⟨ids, hids, hlength⟩
    | false =>
      have hones : newOnes (knows m) (nd.name :: names) = _ := hm'.newOnes_withHost hknown names
      rw [withHost_nodes_of_new (m := {m with submeshes := submeshes}) hknown] at hids
      rw [hones]
      exact ⟨m.nextNode :: ids, by rw [hids]; simp, by simp [hlength]⟩
  · rw [List.length_cons, List.getElem?_cons_succ]
    exact h.ends.shift rfl

theorem joined_of_run (hm : Allocated m) (hrun : joinList p peer es m = (some hosts, m')) :
    Joined m es (storedNames p m m.name m.ops es) hosts m' := by
  induction es generalizing m peer with
  | nil =>
    cases hrun
    exact joined_idle ⟨rfl, rfl⟩
  | cons config es ih =>
    rw [storedNames]
    cases hstored : storedName p m m.name m.ops config with
    | none => exact joined_of_not_stored hstored hrun
    | some name =>
      obtain ⟨submeshes, nd, hparsed, hname, hstep⟩ := joinList_stored peer es hstored
      rw [hstep] at hrun
      have hm' : Allocated {m with submeshes := submeshes} := hm
      have hrest := ih (hm'.withHost (withPeer peer nd)) hrun
      rw [storedNames_eq _ m] at hrest
      have hjoined := hrest.cons config hm
      rw [withPeer_name, hname] at hjoined
      exact hjoined

/-- What the entries of an invitation are as nodes. -/
def joinedNodes (m : Mesh) (peer : Option Sockaddr) : List Bytes → List (Option Node)
  | [] => []
  | config :: rest =>
    (parsed m config).map (fun nd =>
      {withPeer peer nd with lastReachable := 0, lastUnreachable := 0}) :: joinedNodes m none rest

theorem joinedNodes_eq (m m' : Mesh) (peer : Option Sockaddr) (es : List Bytes) :
    joinedNodes m peer es = joinedNodes m' peer es := by
  induction es generalizing peer with
  | nil => rfl
  | cons config es ih =>
    unfold joinedNodes
    rw [parsed_eq m m', ih]

theorem joinedNodes_length (m : Mesh) (peer : Option Sockaddr) (es : List Bytes) :
    (joinedNodes m peer es).length = es.length := by
  induction es generalizing peer with
  | nil => rfl
  | cons config es ih => exact congrArg Nat.succ (ih none)

/-- The new nodes of the mesh are just those of the entries. -/
def Added (m : Mesh) (peer : Option Sockaddr) (es : List Bytes) (m' : Mesh) : Prop :=
  ∃ ids, m'.nodes = m.nodes ++ ids ∧
    ids.map (fun i => some (m'.node i)) = joinedNodes m peer es

theorem added_of_run (hm : Allocated m) (hrun : joinList p peer es m = (some hosts, m'))
    (hall : (storedNames p m m.name m.ops es).length = es.length)
    (hnew : (newOnes (knows m) (storedNames p m m.name m.ops es)).length =
      (storedNames p m m.name m.ops es).length) : Added m peer es m' := by
  induction es generalizing m peer with
  | nil =>
    cases hrun
    exact ⟨[], (List.append_nil _).symm, rfl⟩
  | cons config es ih =>
    rw [storedNames] at hall hnew
    cases hstored : storedName p m m.name m.ops config with
    | none =>
      rw [hstored] at hall
      exact absurd hall nofun
    | some name =>
      rw [hstored] at hall hnew
      obtain ⟨submeshes, nd, hparsed, rfl, hstep⟩ := joinList_stored peer es hstored
      rw [hstep] at hrun
      have hm' : Allocated {m with submeshes := submeshes} := hm
      have hunknown : knows m nd.name = false :=
        (newOnes_length_eq_iff.mp hnew).2 nd.name List.mem_cons_self
      have hname : (withPeer peer nd).name = nd.name := withPeer_name peer nd
      have hones := hm'.newOnes_withHost
        (hname ▸ hunknown : knows m (withPeer peer nd).name = false)
        (storedNames p m m.name (m.ops + 1) es)
      rw [hname] at hones
      rw [show newOnes (knows m) (nd.name :: storedNames p m m.name (m.ops + 1) es) = _ from hones]
        at hnew
      have hlater := joined_of_run (hm'.withHost (withPeer peer nd)) hrun
      obtain ⟨ids, hids, hmap⟩ := ih (hm'.withHost (withPeer peer nd)) hrun
        (by rw [storedNames_eq _ m]; exact Nat.succ.inj hall)
        (by rw [storedNames_eq _ m]; exact Nat.succ.inj hnew)
      rw [withHost_nodes_of_new (m := {m with submeshes := submeshes}) (hname ▸ hunknown)] at hids
      refine ⟨m.nextNode :: ids, by rw [hids]; simp, ?_⟩
      rw [List.map_cons, hmap, hlater.old m.nextNode (Nat.lt_succ_self _), withHost_node,
        Function.update_self, joinedNodes, hparsed, joinedNodes_eq _ m]
      rfl

end Runs

section Parts

variable {p : Params} {m m' : Mesh} {identity : Identity} {b : Bool}

/-- The submesh that lookup_or_create_submesh gives for a name. -/
def submeshOf (name : String) : Option String :=
  if name = coreMesh then none else if !checkId name then none else some name

/-- The local node with its new identity. -/
def identified (m : Mesh) (identity : Identity) : Node :=
  {m.node m.self with
    name := identity.name
    submesh := submeshOf identity.submesh
    devclass := if identity.devclass = devClassUnknown then m.devclass else identity.devclass}

/-- The mesh after the local node took on its new identity. -/
def renamed (m : Mesh) (identity : Identity) (submeshes : List String) : Mesh :=
  {m with
    submeshes := submeshes
    name := identity.name
    node := Function.update m.node m.self (identified m identity)}

theorem lookupOrCreateSubmesh_eq (name : String) (m : Mesh) :
    ∃ submeshes, lookupOrCreateSubmesh name m =
      (some (submeshOf name), {m with submeshes := submeshes}) := by
  unfold lookupOrCreateSubmesh submeshOf
  split
  · exact ⟨m.submeshes, rfl⟩
  split
  · exact ⟨m.submeshes, rfl⟩
  by_cases hmem : name ∈ m.submeshes
  · refine ⟨m.submeshes, ?_⟩
    rw [bind_of_some (by simp [update, hmem] : _ = (some (), m))]
    rfl
  refine ⟨m.submeshes ++ [name], ?_⟩
  rw [bind_of_some
    (by simp [update, hmem] : _ = (some (), {m with submeshes := m.submeshes ++ [name]}))]
  rfl

theorem takeIdentity_eq (identity : Identity) (m : Mesh) :
    ∃ submeshes, takeIdentity identity m = (some (), renamed m identity submeshes) := by
  obtain ⟨submeshes, hsubmesh⟩ := lookupOrCreateSubmesh_eq identity.submesh m
  refine ⟨submeshes, ?_⟩
  unfold takeIdentity
  rw [bind_of_some hsubmesh]
  rfl

/-- The directory, the main configuration and the local host file can be written. -/
def storageReady (p : Params) (ops : ℕ) (name : String) : Bool :=
  p.succeeds ops .initConfig &&
    (p.succeeds (ops + 1) .writeMainConfig && p.succeeds (ops + 2) (.writeConfig name))

theorem initStorage_eq (p : Params) (name : String) (m : Mesh) :
    (storageReady p m.ops name = true → initStorage p name m =
      (some true, {m with ops := m.ops + 3, log := m.log ++ [.stored name]})) ∧
    (storageReady p m.ops name = false →
      ∃ ops, initStorage p name m = (some false, {m with ops := ops})) := by
  unfold storageReady initStorage
  rw [attempt_bind]
  cases hinit : p.succeeds m.ops .initConfig with
  | false => exact ⟨nofun, fun _ => ⟨m.ops + 1, rfl⟩⟩
  | true =>
    simp only [Bool.not_true, Bool.false_eq_true, if_false, Bool.true_and, attempt_bind]
    cases hmain : p.succeeds (m.ops + 1) .writeMainConfig with
    | false => exact ⟨nofun, fun _ => ⟨m.ops + 2, rfl⟩⟩
    | true =>
      simp only [Bool.not_true, Bool.false_eq_true, if_false, Bool.true_and, writeHostFile,
        attempt_bind]
      cases hhost : p.succeeds (m.ops + 2) (.writeConfig name) with
      | false => exact ⟨nofun, fun _ => ⟨m.ops + 3, rfl⟩⟩
      | true => exact ⟨fun _ => rfl, nofun⟩

/-- The metadata of both directories can be synced. -/
def synced (p : Params) (ops : ℕ) : Bool :=
  p.succeeds ops .syncConfig && p.succeeds (ops + 1) .syncBase

theorem syncAll_eq (p : Params) (m : Mesh) :
    ∃ ops, syncAll p m = (some (synced p m.ops), {m with ops := ops}) := by
  unfold syncAll synced
  cases hconfig : p.succeeds m.ops .syncConfig with
  | false =>
    refine ⟨m.ops + 1, ?_⟩
    rw [attempt_bind, hconfig]
    rfl
  | true =>
    refine ⟨m.ops + 2, ?_⟩
    rw [attempt_bind, hconfig]
    rfl

end Parts

section Names

variable {p : Params} {m : Mesh} {own : String} {ops : ℕ} {es : List Bytes}

theorem ne_own_of_mem_storedNames {name : String} (h : name ∈ storedNames p m own ops es) :
    name ≠ own := by
  induction es generalizing ops with
  | nil => exact absurd h List.not_mem_nil
  | cons config es ih =>
    rw [storedNames] at h
    split at h
    · exact absurd h List.not_mem_nil
    rename_i first hfirst
    rcases List.mem_cons.mp h with rfl | hrest
    · exact (storedName_some hfirst).2.1
    · exact ih hrest

/-- When all entries are stored, each one has its name among the stored ones. -/
theorem mem_storedNames (h : (storedNames p m own ops es).length = es.length) {config : Bytes}
    (hconfig : config ∈ es) :
    ∃ name ∈ storedNames p m own ops es, hostName config = some name := by
  induction es generalizing ops with
  | nil => exact absurd hconfig List.not_mem_nil
  | cons first es ih =>
    rw [storedNames] at h ⊢
    split at h
    · exact absurd h nofun
    rename_i name hname
    rcases List.mem_cons.mp hconfig with rfl | hrest
    · exact ⟨name, List.mem_cons_self, (storedName_some hname).1⟩
    · obtain ⟨other, hother, heq⟩ := ih (Nat.succ.inj h) hrest
      exact ⟨other, List.mem_cons_of_mem _ hother, heq⟩

end Names

section Calls

variable (p : Params) (m : Mesh) (peer : Option Sockaddr) (payload : Bytes) (identity : Identity)

/-- The host entries of an invitation. -/
def hostsOf : List Bytes := (announced identity.count identity.rest).1

/-- The names of the entries that are stored. -/
def names : List String := storedNames p m identity.name (m.ops + 3) (hostsOf identity)

/-- What a join that returns some value has to leave behind. -/
def Whole (m' : Mesh) : Bool → Prop
  | true => ∃ identity, readIdentity payload = some identity ∧
      (hostsOf identity).length = identity.count ∧ Added m peer (hostsOf identity) m' ∧
      ∀ config ∈ hostsOf identity, ∃ name, hostName config = some name ∧
        Effect.stored name ∈ m'.log.drop m.log.length
  | false => m'.name = m.name ∧ m'.self = m.self ∧ m'.node m.self = m.node m.self ∧
      m'.nodes = m.nodes

/-- Everything can be stored, all announced entries are there, and their names are new. -/
structure Complete : Prop where
  storage : storageReady p m.ops identity.name = true
  all : (names p m identity).length = identity.count
  distinct : (names p m identity).Nodup
  new : ∀ name ∈ names p m identity, ∀ i ∈ m.nodes, i ≠ m.self → (m.node i).name ≠ name
  synced : synced p (m.ops + 3 + identity.count) = true

/-- The local node already has the identity that the invitation gives to it. -/
def Unchanged : Prop := m.name = identity.name ∧ identified m identity = m.node m.self

/-- All entries are stored, or those before one with a bad header. -/
def Lasts : Prop :=
  (names p m identity).length = identity.count ∨
    ∃ config, (hostsOf identity)[(names p m identity).length]? = some config ∧
      hostName config = none

/-- Nothing can be stored, or only entries for known nodes are before the join fails. -/
def FailsEarly : Prop :=
  storageReady p m.ops identity.name = false ∨
    (∀ name ∈ names p m identity, knows m name = true) ∧
      (Lasts p m identity → synced p (m.ops + 3 + (names p m identity).length) = false)

variable {p m peer payload identity} {m' : Mesh} {b : Bool}

variable (p m identity) in
theorem names_length_le :
    (names p m identity).length ≤ (hostsOf identity).length ∧
      (hostsOf identity).length ≤ identity.count :=
  ⟨storedNames_length_le _ _ _ _, announced_length_le _ _⟩

/-- The join fails in the loop unless it lasts. -/
theorem shorten_cases {m₂ m₃ : Mesh} {hosts : Hosts}
    (h : Ends m₂ m₃ (names p m identity).length hosts
      (hostsOf identity)[(names p m identity).length]?) :
    (shorten (decide ((hostsOf identity).length < identity.count)) hosts = .failed ∧
      ¬Lasts p m identity) ∨
    (shorten (decide ((hostsOf identity).length < identity.count)) hosts ≠ .failed ∧
      Lasts p m identity ∧ m₃.ops = m₂.ops + (names p m identity).length) := by
  obtain ⟨hnames, hhosts⟩ := names_length_le p m identity
  cases hget : (hostsOf identity)[(names p m identity).length]? with
  | none =>
    rw [hget] at h
    obtain ⟨rfl, hops⟩ := h
    have hall := List.getElem?_eq_none_iff.mp hget
    by_cases hshort : (hostsOf identity).length < identity.count
    · refine .inl ⟨by simp [shorten, hshort], ?_⟩
      rintro (hcount | ⟨config, hconfig, -⟩)
      · omega
      · exact absurd (hget.symm.trans hconfig) nofun
    · exact .inr ⟨by simp [shorten, hshort], .inl (by omega), hops⟩
  | some config =>
    rw [hget] at h
    have hlt := (List.getElem?_eq_some_iff.mp hget).1
    unfold Ends at h
    dsimp only at h
    by_cases hname : hostName config = none
    · rw [if_pos hname] at h
      obtain ⟨rfl, hops⟩ := h
      exact .inr ⟨by simp [shorten], .inr ⟨config, hget, hname⟩, hops⟩
    rw [if_neg hname] at h
    subst h
    refine .inl ⟨by simp [shorten], ?_⟩
    rintro (hcount | ⟨other, hother, hnone⟩)
    · omega
    · obtain rfl := Option.some.inj (hget.symm.trans hother)
      exact hname hnone

/-- The loop runs in the renamed mesh, after the local files were written. -/
def readyMesh (m : Mesh) (identity : Identity) (submeshes : List String) : Mesh :=
  {renamed m identity submeshes with
    ops := m.ops + 3
    log := m.log ++ [.stored identity.name]}

theorem finalizeJoin_fails (hidentity : readIdentity payload = some identity)
    (hstorage : storageReady p m.ops identity.name = false)
    (hreturns : finalizeJoin p peer payload m = (some b, m')) :
    b = false ∧ ∃ submeshes ops, m' = {renamed m identity submeshes with ops := ops} := by
  obtain ⟨submeshes, hrenamed⟩ := takeIdentity_eq identity m
  obtain ⟨ops, hinit⟩ := (initStorage_eq p identity.name (renamed m identity submeshes)).2 hstorage
  unfold finalizeJoin at hreturns
  rw [hidentity] at hreturns
  dsimp only at hreturns
  rw [bind_of_some hrenamed, bind_of_some hinit] at hreturns
  cases hreturns
  exact ⟨rfl, submeshes, ops, rfl⟩

/-- With the local files written the call runs the loop, and syncs if that lasts. -/
theorem finalizeJoin_runs (hm : Allocated m) (hidentity : readIdentity payload = some identity)
    (hstorage : storageReady p m.ops identity.name = true)
    (hreturns : finalizeJoin p peer payload m = (some b, m')) :
    ∃ submeshes hosts m₃,
      joinList p peer (hostsOf identity) (readyMesh m identity submeshes) = (some hosts, m₃) ∧
      Joined (readyMesh m identity submeshes) (hostsOf identity) (names p m identity) hosts m₃ ∧
      (b = true ↔
        Lasts p m identity ∧ synced p (m.ops + 3 + (names p m identity).length) = true) ∧
      ∃ ops, m' = {m₃ with ops := ops} := by
  obtain ⟨submeshes, hrenamed⟩ := takeIdentity_eq identity m
  have hinit : initStorage p identity.name (renamed m identity submeshes) =
      (some true, readyMesh m identity submeshes) := (initStorage_eq p identity.name _).1 hstorage
  unfold finalizeJoin at hreturns
  rw [hidentity] at hreturns
  dsimp only at hreturns
  rw [bind_of_some hrenamed, bind_of_some hinit] at hreturns
  simp only [Bool.not_true, Bool.false_eq_true, if_false] at hreturns
  rw [joinEntries_eq, bind_assoc] at hreturns
  simp only [pure_bind] at hreturns
  rcases hrun : joinList p peer (hostsOf identity) (readyMesh m identity submeshes) with ⟨value, m₃⟩
  have hrun' := hrun
  unfold hostsOf at hrun'
  cases value with
  | none =>
    rw [bind_of_none hrun'] at hreturns
    exact absurd hreturns nofun
  | some hosts =>
    rw [bind_of_some hrun'] at hreturns
    have hm' : Allocated (readyMesh m identity submeshes) := hm
    have hjoined := joined_of_run hm' hrun
    rw [storedNames_eq _ m] at hjoined
    refine ⟨submeshes, hosts, m₃, hrun, hjoined, ?_⟩
    rcases shorten_cases hjoined.ends with ⟨hfailed, hlasts⟩ | ⟨hfailed, hlasts, hops⟩
    · unfold hostsOf at hfailed
      rw [if_pos hfailed] at hreturns
      cases hreturns
      exact ⟨⟨nofun, fun h => absurd h.1 hlasts⟩, m'.ops, rfl⟩
    · unfold hostsOf at hfailed
      obtain ⟨ops, hsync⟩ := syncAll_eq p m₃
      rw [if_neg hfailed, hsync, hops] at hreturns
      cases hreturns
      exact ⟨⟨fun h => ⟨hlasts, h⟩, fun h => h.2⟩, ops, rfl⟩

/-- Only a node that keeps its identity is as before after a failure. -/
theorem renamed_self_iff {m₃ : Mesh} (submeshes : List String) (hname : m₃.name = identity.name)
    (hself : m₃.node m.self = (renamed m identity submeshes).node m.self) :
    m₃.name = m.name ∧ m₃.node m.self = m.node m.self ↔ Unchanged m identity := by
  have hnode : (renamed m identity submeshes).node m.self = identified m identity :=
    Function.update_self _ _ _
  unfold Unchanged
  rw [hname, hself, hnode, eq_comm (a := identity.name)]

theorem knows_renamed (submeshes : List String) (h : Unchanged m identity) :
    knows (readyMesh m identity submeshes) = knows m := by
  have hnode : (readyMesh m identity submeshes).node = m.node := by
    change Function.update m.node m.self (identified m identity) = m.node
    rw [h.2]
    exact Function.update_eq_self _ _
  funext name
  unfold knows lookupNode
  rw [hnode]
  rfl

/-- Which names are new to the renamed mesh. -/
theorem not_knows_renamed_iff {submeshes : List String} {name : String}
    (hname : name ≠ identity.name) :
    knows (readyMesh m identity submeshes) name = false ↔
      ∀ i ∈ m.nodes, i ≠ m.self → (m.node i).name ≠ name := by
  have hold (i : NodeId) (hi : i ≠ m.self) :
      (readyMesh m identity submeshes).node i = m.node i := Function.update_of_ne hi _ _
  rw [Bool.eq_false_iff, Ne, knows_iff]
  constructor
  · intro h i hi hself heq
    exact h ⟨i, hi, by rw [hold i hself]; exact heq⟩
  · rintro h ⟨i, hi, heq⟩
    by_cases hself : i = m.self
    · refine hname (heq.symm.trans ?_)
      rw [hself]
      exact congrArg (fun nd : Node => nd.name) (Function.update_self m.self _ m.node)
    · rw [hold i hself] at heq
      exact h i hi hself heq

section Loop

variable {m₃ : Mesh} {submeshes : List String} {hosts : Hosts}
  (hjoined : Joined (readyMesh m identity submeshes) (hostsOf identity) (names p m identity)
    hosts m₃)

include hjoined

theorem whole_false_iff {ops : ℕ} (hself : m.self < m.nextNode) :
    Whole m peer payload {m₃ with ops := ops} false ↔
      Unchanged m identity ∧ ∀ name ∈ names p m identity, knows m name = true := by
  have hidentity := renamed_self_iff submeshes hjoined.name
    (hjoined.old m.self hself)
  obtain ⟨ids, hids, hlength⟩ := hjoined.nodes
  have hnodes : m₃.nodes = m.nodes ↔ ids = [] := by
    rw [hids]
    change m.nodes ++ ids = m.nodes ↔ ids = []
    simp
  have hnew : ids = [] ↔
      ∀ name ∈ names p m identity, knows (readyMesh m identity submeshes) name = true := by
    rw [← newOnes_eq_nil_iff, ← List.length_eq_zero_iff, hlength, List.length_eq_zero_iff]
  constructor
  · rintro ⟨hname, -, hnode, hsame⟩
    have hunchanged := hidentity.mp ⟨hname, hnode⟩
    rw [← knows_renamed submeshes hunchanged]
    exact ⟨hunchanged, hnew.mp (hnodes.mp hsame)⟩
  · rintro ⟨hunchanged, hknown⟩
    obtain ⟨hname, hnode⟩ := hidentity.mpr hunchanged
    rw [← knows_renamed submeshes hunchanged] at hknown
    exact ⟨hname, hjoined.self, hnode, hnodes.mpr (hnew.mpr hknown)⟩

theorem added_iff (hm : Allocated m) (hrun : joinList p peer (hostsOf identity)
      (readyMesh m identity submeshes) = (some hosts, m₃)) :
    (hostsOf identity).length = identity.count ∧ Added m peer (hostsOf identity) m₃ ↔
      (names p m identity).length = identity.count ∧ (names p m identity).Nodup ∧
        ∀ name ∈ names p m identity, ∀ i ∈ m.nodes, i ≠ m.self → (m.node i).name ≠ name := by
  have hm' : Allocated (readyMesh m identity submeshes) := hm
  obtain ⟨hle, hhosts⟩ := names_length_le p m identity
  have hnames : storedNames p (readyMesh m identity submeshes)
      (readyMesh m identity submeshes).name (readyMesh m identity submeshes).ops
      (hostsOf identity) = names p m identity := storedNames_eq _ m _ _ _
  have hnew : (newOnes (knows (readyMesh m identity submeshes)) (names p m identity)).length =
      (names p m identity).length ↔ (names p m identity).Nodup ∧
        ∀ name ∈ names p m identity, ∀ i ∈ m.nodes, i ≠ m.self → (m.node i).name ≠ name := by
    rw [newOnes_length_eq_iff]
    refine and_congr_right fun _ => forall₂_congr fun name hname => ?_
    exact not_knows_renamed_iff (ne_own_of_mem_storedNames hname)
  rw [← hnew]
  constructor
  · rintro ⟨hcount, ids, hids, hmap⟩
    have hmaps := congrArg List.length hmap
    rw [List.length_map, joinedNodes_length] at hmaps
    obtain ⟨ids', hids', hlength⟩ := hjoined.nodes
    obtain rfl : ids' = ids := List.append_cancel_left (hids'.symm.trans hids)
    have hones := newOnes_length_le (knows (readyMesh m identity submeshes)) (names p m identity)
    omega
  · rintro ⟨hcount, hones⟩
    have hall : (names p m identity).length = (hostsOf identity).length := by omega
    refine ⟨by omega, ?_⟩
    have hadded := added_of_run hm' hrun (by rw [hnames, hall]) (by rw [hnames, hones])
    unfold Added at hadded ⊢
    rw [joinedNodes_eq _ m] at hadded
    exact hadded

/-- What is stored while all entries are stored can be seen in the log. -/
theorem stored_in_log (hall : (names p m identity).length = (hostsOf identity).length) :
    ∀ config ∈ hostsOf identity, ∃ name, hostName config = some name ∧
      Effect.stored name ∈ m₃.log.drop m.log.length := by
  intro config hconfig
  obtain ⟨name, hmem, hname⟩ := mem_storedNames hall hconfig
  refine ⟨name, hname, ?_⟩
  have hlog : m₃.log = m.log ++ ([.stored identity.name] ++ (names p m identity).map .stored) :=
    hjoined.log.trans (List.append_assoc _ _ _)
  rw [hlog, List.drop_left]
  exact List.mem_append_right _ (List.mem_map_of_mem hmem)

end Loop

/-- The joins that are right are those of no valid invitation, those that are complete, and
those that change nothing before they fail. -/
theorem join_whole (hm : Allocated m) (hself : m.self < m.nextNode)
    (hreturns : finalizeJoin p peer payload m = (some b, m')) :
    Whole m peer payload m' b ↔ readIdentity payload = none ∨
      ∃ identity, readIdentity payload = some identity ∧
        (Complete p m identity ∨ Unchanged m identity ∧ FailsEarly p m identity) := by
  cases hidentity : readIdentity payload with
  | none =>
    unfold finalizeJoin at hreturns
    rw [hidentity] at hreturns
    cases hreturns
    exact ⟨fun _ => .inl rfl, fun _ => ⟨rfl, rfl, rfl, rfl⟩⟩
  | some identity =>
    have hcond : (some identity = none ∨ ∃ other, some identity = some other ∧
        (Complete p m other ∨ Unchanged m other ∧ FailsEarly p m other)) ↔
        (Complete p m identity ∨ Unchanged m identity ∧ FailsEarly p m identity) := by
      simp
    rw [hcond]
    cases hstorage : storageReady p m.ops identity.name with
    | false =>
      obtain ⟨rfl, submeshes, ops, rfl⟩ := finalizeJoin_fails hidentity hstorage hreturns
      have hunchanged := renamed_self_iff (m := m) submeshes
        (rfl : (renamed m identity submeshes).name = identity.name) rfl
      constructor
      · rintro ⟨hname, -, hnode, -⟩
        exact .inr ⟨hunchanged.mp ⟨hname, hnode⟩, .inl hstorage⟩
      · rintro (hcomplete | ⟨hsame, -⟩)
        · exact absurd (hstorage.symm.trans hcomplete.storage) nofun
        · exact ⟨(hunchanged.mpr hsame).1, rfl, (hunchanged.mpr hsame).2, rfl⟩
    | true =>
      obtain ⟨submeshes, hosts, m₃, hrun, hjoined, hb, ops, rfl⟩ :=
        finalizeJoin_runs hm hidentity hstorage hreturns
      cases b with
      | false =>
        have hfails : ¬(Lasts p m identity ∧
            synced p (m.ops + 3 + (names p m identity).length) = true) := fun h =>
          absurd (hb.mpr h) nofun
        rw [whole_false_iff hjoined hself]
        constructor
        · rintro ⟨hsame, hknown⟩
          refine .inr ⟨hsame, .inr ⟨hknown, fun hlasts => ?_⟩⟩
          exact Bool.eq_false_iff.mpr fun hsync => hfails ⟨hlasts, hsync⟩
        · rintro (hcomplete | ⟨hsame, hfailed | ⟨hknown, -⟩⟩)
          · refine absurd ⟨.inl hcomplete.all, ?_⟩ hfails
            rw [hcomplete.all]
            exact hcomplete.synced
          · exact absurd (hstorage.symm.trans hfailed) nofun
          · exact ⟨hsame, hknown⟩
      | true =>
        obtain ⟨hlasts, hsync⟩ := hb.mp rfl
        have hadded := added_iff hjoined hm hrun
        constructor
        · rintro ⟨other, hother, hcount, hnodes, -⟩
          obtain rfl := Option.some.inj (hidentity.symm.trans hother)
          obtain ⟨hall, hdistinct, hnew⟩ := hadded.mp ⟨hcount, hnodes⟩
          rw [hall] at hsync
          exact .inl ⟨hstorage, hall, hdistinct, hnew, hsync⟩
        · rintro (hcomplete | ⟨-, hfailed | ⟨-, hunsynced⟩⟩)
          · obtain ⟨hcount, hnodes⟩ :=
              hadded.mpr ⟨hcomplete.all, hcomplete.distinct, hcomplete.new⟩
            have hstored := stored_in_log hjoined (hcomplete.all.trans hcount.symm)
            exact ⟨identity, hidentity, hcount, hnodes, hstored⟩
          · exact absurd (hstorage.symm.trans hfailed) nofun
          · exact absurd ((hunsynced hlasts).symm.trans hsync) nofun

end Calls

section Samples

/-- The host file of a node `foo`, of some version. -/
def fooHost (version : UInt8) : Bytes :=
  [version, 163, 102, 111, 111, 161, 46, 1, 194, 196, 0, 160, 144, 0, 0]

/-- An invitation for `me` with a number of announced entries. -/
def invitationFor (count : UInt8) (entries : Bytes) : Bytes :=
  [2, 162, 109, 101, 161, 46, 1, 144 + count] ++ entries

def oneEntry : Bytes := invitationFor 1 ([196, 15] ++ fooHost 2)

/-- The second of two entries has a header of an older version. -/
def oldEntry : Bytes := invitationFor 2 ([196, 15] ++ fooHost 2 ++ [196, 15] ++ fooHost 1)

theorem join_whole_one :
    ∃ m', finalizeJoin plainParams none oneEntry (newMesh "self") = (some true, m') ∧
      m'.nodes = [0, 1] ∧
      (Whole (newMesh "self") none oneEntry m' true ↔ readIdentity oneEntry = none ∨
        ∃ identity, readIdentity oneEntry = some identity ∧
          (Complete plainParams (newMesh "self") identity ∨
            Unchanged (newMesh "self") identity ∧
              FailsEarly plainParams (newMesh "self") identity)) := by
  have hvalue : (finalizeJoin plainParams none oneEntry (newMesh "self")).1 = some true := by
    decide +kernel
  exact ⟨_, eq_of_value hvalue, by decide +kernel,
    join_whole (allocated_newMesh "self") Nat.one_pos (eq_of_value hvalue)⟩

/-- A bad header ends a join that is taken for a success, and a join that stores nothing
has renamed the local node. -/
theorem join_in_part :
    ((finalizeJoin plainParams none oldEntry (newMesh "self")).1 = some true ∧
      (finalizeJoin plainParams none oldEntry (newMesh "self")).2.nodes = [0, 1] ∧
      (readIdentity oldEntry).map (·.count) = some 2) ∧
    ((finalizeJoin {plainParams with succeeds := fun _ _ => false} none oneEntry
        (newMesh "self")).1 = some false ∧
      (finalizeJoin {plainParams with succeeds := fun _ _ => false} none oneEntry
        (newMesh "self")).2.name = "me" ∧ (newMesh "self").name = "self") := by
  decide +kernel

end Samples

end Meshlink.JoinedHosts
