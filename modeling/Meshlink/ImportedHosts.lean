import Meshlink.HostEntries

/-!
What meshlink_import leaves behind. The entries of an import are stored and added one
after another, so that a failure keeps what came before it, and a host file that cannot
be written leaves the mutex locked. An import is all or nothing exactly when it has no
flaw at all, or when it fails before the first node that is new.
-/
namespace Meshlink.ImportedHosts

open Commands MeshState MeshRuns HostFiles HostEntries
open Packmsg hiding Bytes

section Loop

variable (p : Params)

/-- How the loop over the entries ends. -/
inductive Ending
  | returned
  | invalid
  | through

/-- The loop of meshlink_import over entries that have been taken out of the array. -/
def importList : List Bytes → Command Mesh Ending
  | [] => pure .through
  | config :: rest => do
    let m ← gets id
    match hostName config with
    | none => pure .invalid
    | some name =>
      if (lookupNode m name).isSome then importList rest
      else
        let nd ← nodeReadFromConfig name config
        match nd with
        | none => pure .invalid
        | some nd =>
          let added ← addHost p nd
          if !added then pure .returned else importList rest

/-- What is left of the array, as the loop gives it. -/
def Ending.left (rest : Input) : Ending → Option Input
  | .returned => none
  | .invalid => some none
  | .through => some rest

theorem importEntries_eq (count : ℕ) (input : Input) :
    importEntries p count input =
      (importList p (announced count input).1 >>= fun ending =>
        pure (ending.left (announced count input).2)) := by
  induction count generalizing input with
  | zero => rfl
  | succ count ih =>
    unfold importEntries announced
    rcases hget : getBinRaw input with ⟨config, rest⟩
    rcases config with _ | _ | ⟨b, bytes⟩
    · rfl
    · rfl
    · dsimp only
      unfold importList
      rw [bind_assoc]
      congr 1
      funext m
      cases hostName (b :: bytes) with
      | none => rfl
      | some name =>
        dsimp only
        split
        · exact ih rest
        rw [bind_assoc]
        congr 1
        funext nd
        cases nd with
        | none => rfl
        | some nd =>
          dsimp only
          rw [bind_assoc]
          congr 1
          funext added
          cases added with
          | false => rfl
          | true => exact ih rest

end Loop

section Steps

variable {p : Params} {m m' : Mesh} {config : Bytes} {es : List Bytes} {name : String} {nd : Node}

/-- The entry is for a node that is known, and passed over. -/
def isKnown (m : Mesh) (config : Bytes) : Bool :=
  match hostName config with
  | none => false
  | some name => knows m name

theorem isKnown_iff : isKnown m config = true ↔
    ∃ name, hostName config = some name ∧ knows m name = true := by
  unfold isKnown
  split
  · rename_i hname
    simp [hname]
  · rename_i name hname
    simp [hname]

theorem importList_known (h : isKnown m config = true) :
    importList p (config :: es) m = importList p es m := by
  obtain ⟨name, hname, hknows⟩ := isKnown_iff.mp h
  unfold knows at hknows
  rw [importList, gets_bind, hname]
  dsimp only [id]
  rw [if_pos hknows]

theorem importList_unheaded (h : hostName config = none) :
    importList p (config :: es) m = (some .invalid, m) := by
  rw [importList, gets_bind, h]
  rfl

/-- A node that is new is read first. -/
theorem importList_new (hname : hostName config = some name) (hnew : knows m name = false) :
    importList p (config :: es) m = (nodeReadFromConfig name config >>= fun nd =>
      match nd with
      | none => pure .invalid
      | some nd => do
        let added ← addHost p nd
        if !added then pure .returned else importList p es) m := by
  unfold knows at hnew
  rw [importList, gets_bind, hname]
  dsimp only [id]
  rw [if_neg (Bool.eq_false_iff.mp hnew)]

/-- An entry for a new node that cannot be imported. -/
structure Flawed (m : Mesh) (config : Bytes) : Prop where
  new : isKnown m config = false
  unread : parsed m config = none

/-- An entry for a new node that can be read. -/
structure Importable (m : Mesh) (config : Bytes) (name : String) (nd : Node) : Prop where
  named : hostName config = some name
  new : knows m name = false
  read : parsed m config = some nd

/-- The process stops at a flawed entry, or the array is invalid. -/
theorem importList_flawed (p : Params) (es : List Bytes) (h : Flawed m config) :
    ∃ submeshes, (importList p (config :: es) m).2 = {m with submeshes := submeshes} ∧
      ((importList p (config :: es) m).1 = none ∨
        (importList p (config :: es) m).1 = some .invalid) := by
  cases hname : hostName config with
  | none =>
    rw [importList_unheaded hname]
    exact ⟨m.submeshes, rfl, .inr rfl⟩
  | some name =>
    have hnew : knows m name = false := by
      have hknown := h.new
      unfold isKnown at hknown
      rw [hname] at hknown
      exact hknown
    rw [importList_new hname hnew]
    obtain ⟨submeshes, hread | hread⟩ := read_unread hname h.unread
    · rw [bind_of_none hread]
      exact ⟨submeshes, rfl, .inl rfl⟩
    · rw [bind_of_some hread]
      exact ⟨submeshes, rfl, .inr rfl⟩

theorem importList_importable (p : Params) (es : List Bytes) (h : Importable m config name nd) :
    ∃ submeshes, importList p (config :: es) m =
      if p.succeeds m.ops (.writeConfig name) then
        importList p es (withHost nd {m with submeshes := submeshes})
      else (some .returned, {m with submeshes := submeshes, ops := m.ops + 1}) := by
  obtain ⟨submeshes, hread⟩ := read_parsed h.named h.read
  refine ⟨submeshes, ?_⟩
  rw [importList_new h.named h.new, bind_of_some hread]
  dsimp only
  rw [addHost_then, parsed_name h.named h.read]

theorem entry_cases (m : Mesh) (config : Bytes) :
    isKnown m config = true ∨ Flawed m config ∨ ∃ name nd, Importable m config name nd := by
  cases hknown : isKnown m config with
  | true => exact .inl rfl
  | false =>
    refine .inr ?_
    cases hparsed : parsed m config with
    | none => exact .inl ⟨hknown, hparsed⟩
    | some nd =>
      cases hname : hostName config with
      | none =>
        unfold parsed at hparsed
        rw [hname] at hparsed
        exact absurd hparsed nofun
      | some name =>
        unfold isKnown at hknown
        rw [hname] at hknown
        exact .inr ⟨name, nd, hname, hknown, hparsed⟩

end Steps

section Runs

variable {p : Params} {m m' : Mesh} {es : List Bytes} {ending : Ending}

/-- The loop never takes a node away. -/
theorem importList_grows (h : importList p es m = (some ending, m')) :
    m.nodes.length ≤ m'.nodes.length ∧ m'.held = m.held := by
  induction es generalizing m with
  | nil =>
    cases h
    exact ⟨Nat.le_refl _, rfl⟩
  | cons config es ih =>
    rcases entry_cases m config with hknown | hflawed | ⟨name, nd, hentry⟩
    · rw [importList_known hknown] at h
      exact ih h
    · obtain ⟨submeshes, hstate, -⟩ := importList_flawed p es hflawed
      rw [h] at hstate
      obtain rfl : m' = _ := hstate
      exact ⟨Nat.le_refl _, rfl⟩
    · obtain ⟨submeshes, hrun⟩ := importList_importable p es hentry
      rw [hrun] at h
      split at h
      · obtain ⟨hnodes, hheld⟩ := ih h
        refine ⟨Nat.le_trans ?_ hnodes, hheld⟩
        rw [withHost_nodes]
        split
        · exact Nat.le_refl _
        · exact (Nat.le_succ _).trans (Nat.le_of_eq (by simp))
      · cases h
        exact ⟨Nat.le_refl _, rfl⟩

/-- The names of the nodes that are new, in the order of the entries. -/
def newNames (known : String → Bool) (es : List Bytes) : List String :=
  newOnes known (es.filterMap hostName)

/-- The host files of these nodes can be written one after another. -/
def writable (p : Params) : ℕ → List String → Bool
  | _, [] => true
  | ops, name :: rest => p.succeeds ops (.writeConfig name) && writable p (ops + 1) rest

theorem newNames_known {config : Bytes} (h : isKnown m config = true) :
    newNames (knows m) (config :: es) = newNames (knows m) es := by
  obtain ⟨name, hname, hknows⟩ := isKnown_iff.mp h
  unfold newNames
  rw [List.filterMap_cons_some hname, newOnes_of_known hknows]

theorem newNames_importable {config : Bytes} {name : String} {nd : Node} (es : List Bytes)
    (hm : Allocated m) (h : Importable m config name nd) (submeshes : List String) :
    newNames (knows m) (config :: es) =
      name :: newNames (knows (withHost nd {m with submeshes := submeshes})) es := by
  have hm' : Allocated {m with submeshes := submeshes} := hm
  obtain rfl := parsed_name h.named h.read
  unfold newNames
  rw [List.filterMap_cons_some h.named]
  exact hm'.newOnes_withHost h.new _

/-- What a loop that comes to its end has done. -/
structure Imported (p : Params) (m : Mesh) (es : List Bytes) (m' : Mesh) : Prop where
  keeps : ∀ name, knows m name = true → knows m' name = true
  known : ∀ config ∈ es, ∃ name, hostName config = some name ∧ knows m' name = true
  written : writable p m.ops (newNames (knows m) es) = true
  ops : m'.ops = m.ops + (newNames (knows m) es).length

theorem imported_of_through (hm : Allocated m) (h : importList p es m = (some .through, m')) :
    Imported p m es m' := by
  induction es generalizing m with
  | nil =>
    cases h
    exact ⟨fun _ h => h, fun _ h => absurd h List.not_mem_nil, rfl, rfl⟩
  | cons config es ih =>
    rcases entry_cases m config with hknown | hflawed | ⟨name, nd, hentry⟩
    · rw [importList_known hknown] at h
      have hrest := ih hm h
      obtain ⟨name, hname, hknows⟩ := isKnown_iff.mp hknown
      refine ⟨hrest.keeps, ?_, ?_, ?_⟩
      · exact List.forall_mem_cons.mpr ⟨⟨name, hname, hrest.keeps name hknows⟩, hrest.known⟩
      · rw [newNames_known hknown]
        exact hrest.written
      · rw [newNames_known hknown]
        exact hrest.ops
    · obtain ⟨submeshes, -, hvalue⟩ := importList_flawed p es hflawed
      rw [h] at hvalue
      simp at hvalue
    · obtain ⟨submeshes, hrun⟩ := importList_importable p es hentry
      rw [hrun] at h
      split at h
      · rename_i hwritten
        have hm' : Allocated {m with submeshes := submeshes} := hm
        have hrest := ih (hm'.withHost nd) h
        have hknows := hm'.knows_withHost nd
        have hnames := newNames_importable es hm hentry submeshes
        refine ⟨?_, ?_, ?_, ?_⟩
        · intro other hother
          refine hrest.keeps other ?_
          rw [hknows other]
          exact Bool.or_eq_true_iff.mpr (.inr hother)
        · refine List.forall_mem_cons.mpr ⟨⟨name, hentry.named, hrest.keeps name ?_⟩, hrest.known⟩
          rw [hknows name, parsed_name hentry.named hentry.read]
          simp
        · rw [hnames, writable, hwritten]
          exact hrest.written
        · rw [hnames, hrest.ops, withHost_ops, List.length_cons]
          change m.ops + 1 + _ = m.ops + (_ + 1)
          omega
      · cases h

/-- Without a flaw the loop comes to its end. -/
theorem through_of_writable (hm : Allocated m) (hwell : ∀ config ∈ es, wellFormed m config = true)
    (hwritten : writable p m.ops (newNames (knows m) es) = true) :
    ∃ m', importList p es m = (some .through, m') := by
  induction es generalizing m with
  | nil => exact ⟨m, rfl⟩
  | cons config es ih =>
    obtain ⟨hfirst, hrest⟩ := List.forall_mem_cons.mp hwell
    rcases entry_cases m config with hknown | hflawed | ⟨name, nd, hentry⟩
    · rw [importList_known hknown]
      rw [newNames_known hknown] at hwritten
      exact ih hm hrest hwritten
    · unfold wellFormed at hfirst
      rw [hflawed.unread] at hfirst
      exact absurd hfirst nofun
    obtain ⟨submeshes, hrun⟩ := importList_importable p es hentry
    rw [newNames_importable es hm hentry submeshes, writable, Bool.and_eq_true] at hwritten
    rw [hrun, if_pos hwritten.1]
    have hm' : Allocated {m with submeshes := submeshes} := hm
    refine ih (hm'.withHost nd) ?_ hwritten.2
    intro config hconfig
    rw [wellFormed_eq _ m]
    exact hrest config hconfig

/-- Entries for known nodes come to nothing. -/
theorem importList_of_none (h : es.find? (fun config => !isKnown m config) = none) :
    importList p es m = (some .through, m) := by
  induction es with
  | nil => rfl
  | cons config es ih =>
    rw [List.find?_cons] at h
    split at h
    · exact absurd h nofun
    · rename_i hknown
      rw [importList_known (by simpa using hknown)]
      exact ih h

/-- The loop starts with the first entry for a new node. -/
theorem importList_of_some {config : Bytes}
    (h : es.find? (fun config => !isKnown m config) = some config) :
    ∃ rest, importList p es m = importList p (config :: rest) m := by
  induction es with
  | nil => exact absurd h nofun
  | cons first es ih =>
    rw [List.find?_cons] at h
    split at h
    · cases h
      exact ⟨es, rfl⟩
    · rename_i hknown
      rw [importList_known (by simpa using hknown)]
      exact ih h

end Runs

section Calls

variable (p : Params) (m : Mesh) (data : Bytes)

/-- The number of entries that the array announces. -/
def count : ℕ := (getArray (some (b64decode data))).1

def entries : List Bytes := (announced (count data) (getArray (some (b64decode data))).2).1

/-- What follows the entries. -/
def left : Input := (announced (count data) (getArray (some (b64decode data))).2).2

/-- What an import that returns some value has to leave behind. -/
def AllOrNothing (m' : Mesh) : Bool → Prop
  | true => (entries data).length = count data ∧ done (left data) = true ∧
      ∀ config ∈ entries data, wellFormed m config = true ∧
        ∃ name, hostName config = some name ∧ knows m' name = true
  | false => m'.nodes = m.nodes ∧ m'.held = false

/-- The array has just the entries it announces, all of them can be read, and
everything that has to be stored can be. -/
structure Flawless : Prop where
  complete : (entries data).length = count data
  ended : done (left data) = true
  wellFormed : ∀ config ∈ entries data, wellFormed m config = true
  written : writable p m.ops (newNames (knows m) (entries data)) = true
  synced : p.succeeds (m.ops + (newNames (knows m) (entries data)).length) .syncConfig = true

/-- The first entry for a new node cannot be read. Or there is none, and the import fails
after its last entry. -/
def FailsEarly : Prop :=
  match (entries data).find? fun config => !isKnown m config with
  | some config => wellFormed m config = false
  | none => ¬(done (left data) = true ∧ p.succeeds m.ops .syncConfig = true)

variable {p m data} {m' : Mesh} {b : Bool}

theorem meshlinkImport_empty (h : count data = 0) : meshlinkImport p data m = (some false, m) := by
  unfold count at h
  unfold meshlinkImport
  dsimp only
  split
  · rfl
  · rfl

theorem meshlinkImport_eq (h : count data ≠ 0) :
    meshlinkImport p data m = (importList p (entries data) >>= fun ending =>
      finishImport p (ending.left (left data))) {m with held := true} := by
  have hdecoded : b64decode data ≠ [] := by
    intro hnil
    refine h ?_
    unfold count
    rw [hnil]
    rfl
  unfold count at h
  unfold meshlinkImport
  dsimp only
  rw [if_neg hdecoded, if_neg h, importEntries_eq]
  rw [bind_of_some (show update (fun m : Mesh => {m with held := true}) m =
    (some (), {m with held := true}) from rfl), bind_assoc]
  rfl

/-- The end of the call for each way in which the loop can end. -/
theorem finishImport_cases {ending : Ending} {m₁ : Mesh}
    (h : finishImport p (ending.left (left data)) m₁ = (some b, m')) :
    match ending with
    | .returned => b = false ∧ m' = m₁
    | .invalid => b = false ∧ m' = {m₁ with held := false}
    | .through => b = (done (left data) && p.succeeds m₁.ops .syncConfig) ∧
        m'.nodes = m₁.nodes ∧ m'.node = m₁.node ∧ m'.held = false := by
  cases ending with
  | returned =>
    cases h
    exact ⟨rfl, rfl⟩
  | invalid =>
    cases h
    exact ⟨rfl, rfl⟩
  | through =>
    change (if !done (left data) then pure false else attempt p .syncConfig)
      {m₁ with held := false} = _ at h
    cases hdone : done (left data) with
    | false | true =>
      rw [hdone] at h
      cases h
      exact ⟨rfl, rfl, rfl, rfl⟩

/-- A call that returns has run the loop and the end of the function. -/
theorem meshlinkImport_runs (hcount : count data ≠ 0) (h : meshlinkImport p data m = (some b, m')) :
    ∃ ending m₁, importList p (entries data) {m with held := true} = (some ending, m₁) ∧
      finishImport p (ending.left (left data)) m₁ = (some b, m') := by
  rw [meshlinkImport_eq hcount] at h
  exact returned_of_bind h

/-- A loop that has come to its end was without a flaw if the result is right. -/
theorem flawless_of_through {m₁ : Mesh} (hm : Allocated m)
    (hrun : importList p (entries data) {m with held := true} = (some .through, m₁))
    (hfinish : finishImport p (Ending.through.left (left data)) m₁ = (some true, m'))
    (h : AllOrNothing m data m' true) : Flawless p m data := by
  have himported := imported_of_through (m := {m with held := true}) hm hrun
  obtain ⟨hb, -⟩ := finishImport_cases hfinish
  have hsynced := (Bool.and_eq_true_iff.mp hb.symm).2
  rw [himported.ops] at hsynced
  exact ⟨h.1, h.2.1, fun config hconfig => (h.2.2 config hconfig).1, himported.written, hsynced⟩

theorem allOrNothing_of_flawless (hm : Allocated m) (hcount : count data ≠ 0)
    (hreturns : meshlinkImport p data m = (some b, m')) (h : Flawless p m data) :
    AllOrNothing m data m' b := by
  obtain ⟨ending, m₁, hrun, hfinish⟩ := meshlinkImport_runs hcount hreturns
  have hwell : ∀ config ∈ entries data, wellFormed {m with held := true} config = true := by
    intro config hconfig
    rw [wellFormed_eq _ m]
    exact h.wellFormed config hconfig
  obtain ⟨m₂, hthrough⟩ :=
    through_of_writable (p := p) (m := {m with held := true}) hm hwell h.written
  obtain ⟨rfl, rfl⟩ : ending = .through ∧ m₁ = m₂ := by
    rw [hrun] at hthrough
    exact ⟨Option.some.inj (Prod.mk.inj hthrough).1, (Prod.mk.inj hthrough).2⟩
  have himported := imported_of_through (m := {m with held := true}) hm hrun
  obtain ⟨hb, hnodes, hnode, -⟩ := finishImport_cases hfinish
  have hsynced : p.succeeds m₁.ops .syncConfig = true := by
    rw [himported.ops]
    exact h.synced
  rw [h.ended, hsynced] at hb
  subst hb
  refine ⟨h.complete, h.ended, fun config hconfig => ⟨h.wellFormed config hconfig, ?_⟩⟩
  obtain ⟨name, hname, hknown⟩ := himported.known config hconfig
  refine ⟨name, hname, ?_⟩
  unfold knows lookupNode at hknown ⊢
  rw [hnodes, hnode]
  exact hknown

theorem allOrNothing_of_failsEarly (hcount : count data ≠ 0)
    (hreturns : meshlinkImport p data m = (some b, m')) (h : FailsEarly p m data) :
    AllOrNothing m data m' b := by
  obtain ⟨ending, m₁, hrun, hfinish⟩ := meshlinkImport_runs hcount hreturns
  unfold FailsEarly at h
  split at h
  · rename_i config hfind
    have hnew : isKnown m config = false := by
      simpa using List.find?_some hfind
    have hunread : parsed m config = none := by
      simpa [wellFormed] using h
    obtain ⟨rest, hstart⟩ := importList_of_some (p := p) (m := {m with held := true}) hfind
    have hflawed : Flawed {m with held := true} config :=
      ⟨hnew, (parsed_eq _ m config).trans hunread⟩
    obtain ⟨submeshes, hstate, hvalue⟩ := importList_flawed p rest hflawed
    rw [← hstart, hrun] at hstate hvalue
    obtain rfl : ending = .invalid := by simpa using hvalue
    obtain ⟨rfl, rfl⟩ := finishImport_cases hfinish
    obtain rfl : m₁ = _ := hstate
    exact ⟨rfl, rfl⟩
  · rename_i hfind
    rw [importList_of_none (p := p) (m := {m with held := true}) hfind] at hrun
    cases hrun
    obtain ⟨hb, hnodes, -, hheld⟩ := finishImport_cases hfinish
    obtain rfl : b = false := by
      rw [hb]
      exact Bool.eq_false_iff.mpr fun hboth => h (Bool.and_eq_true_iff.mp hboth)
    exact ⟨hnodes, hheld⟩

/-- After a node was added only a flawless import is right. -/
theorem flawless_of_added {nd : Node} {rest submeshes} (hm : Allocated m)
    (hcount : count data ≠ 0) (hreturns : meshlinkImport p data m = (some b, m'))
    (hnew : knows m nd.name = false)
    (hrun : importList p (entries data) {m with held := true} =
      importList p rest (withHost nd {m with submeshes := submeshes, held := true}))
    (h : AllOrNothing m data m' b) : Flawless p m data := by
  obtain ⟨ending, m₁, hloop, hfinish⟩ := meshlinkImport_runs hcount hreturns
  have hmore : m.nodes.length < m₁.nodes.length := by
    refine Nat.lt_of_lt_of_le ?_ (importList_grows (hrun.symm.trans hloop)).1
    rw [withHost_nodes_of_new (m := {m with submeshes := submeshes, held := true}) hnew,
      List.length_append]
    exact Nat.lt_succ_self _
  have hchanged : m₁.nodes ≠ m.nodes := by
    intro heq
    rw [heq] at hmore
    exact Nat.lt_irrefl _ hmore
  cases ending with
  | returned | invalid =>
    obtain ⟨rfl, rfl⟩ := finishImport_cases hfinish
    exact absurd h.1 hchanged
  | through =>
    cases b with
    | false =>
      obtain ⟨-, hnodes, -⟩ := finishImport_cases hfinish
      exact absurd (hnodes.symm.trans h.1) hchanged
    | true => exact flawless_of_through hm hloop hfinish h

theorem flawless_or_failsEarly (hm : Allocated m) (hcount : count data ≠ 0)
    (hreturns : meshlinkImport p data m = (some b, m')) (h : AllOrNothing m data m' b) :
    Flawless p m data ∨ FailsEarly p m data := by
  obtain ⟨ending, m₁, hrun, hfinish⟩ := meshlinkImport_runs hcount hreturns
  unfold FailsEarly
  split
  · rename_i config hfind
    have hnew : isKnown m config = false := by
      simpa using List.find?_some hfind
    obtain ⟨rest, hstart⟩ := importList_of_some (p := p) (m := {m with held := true}) hfind
    rcases entry_cases {m with held := true} config with hknown | hflawed | ⟨name, nd, hentry⟩
    · exact absurd (hnew.symm.trans hknown) nofun
    · refine .inr ?_
      rw [wellFormed_eq _ {m with held := true}]
      unfold wellFormed
      rw [hflawed.unread]
      rfl
    · refine .inl ?_
      obtain ⟨submeshes, hentered⟩ := importList_importable p rest hentry
      rw [← hstart] at hentered
      split at hentered
      · have hname := parsed_name hentry.named hentry.read
        exact flawless_of_added hm hcount hreturns (hname ▸ hentry.new) hentered h
      -- The host file was not written, and the mutex is left locked.
      rw [hentered] at hrun
      cases hrun
      obtain ⟨rfl, rfl⟩ := finishImport_cases hfinish
      exact absurd h.2 nofun
  · rename_i hfind
    rw [importList_of_none (p := p) (m := {m with held := true}) hfind] at hrun
    cases hrun
    cases b with
    | true =>
      exact .inl (flawless_of_through hm (importList_of_none (m := {m with held := true}) hfind)
        hfinish h)
    | false =>
      obtain ⟨hb, -⟩ := finishImport_cases hfinish
      exact .inr fun hboth => absurd (hb.trans (Bool.and_eq_true_iff.mpr hboth)) nofun

/-- The calls that are right are those without entries, those without a flaw, and those
that fail before they add a node. -/
theorem import_all_or_nothing (hm : Allocated m) (hfree : m.held = false)
    (hreturns : meshlinkImport p data m = (some b, m')) :
    AllOrNothing m data m' b ↔ count data = 0 ∨ Flawless p m data ∨ FailsEarly p m data := by
  by_cases hcount : count data = 0
  · rw [meshlinkImport_empty hcount] at hreturns
    cases hreturns
    exact ⟨fun _ => .inl hcount, fun _ => ⟨rfl, hfree⟩⟩
  constructor
  · exact fun h => .inr (flawless_or_failsEarly hm hcount hreturns h)
  · rintro (hzero | hflawless | hfails)
    · exact absurd hzero hcount
    · exact allOrNothing_of_flawless hm hcount hreturns hflawless
    · exact allOrNothing_of_failsEarly hcount hreturns hfails

end Calls

section Samples

/-- The host file of a node `foo`. -/
def oneHost : Bytes := textBytes "RS8DCMqZv9WouEgwEDAoQCAA"

/-- The host files of `foo` and of `bar`. -/
def twoHosts : Bytes := textBytes "SS8DCMqZv9WouEgwEDAoQCAAE/gAjKWYyFqLBIMxAAKkAAA"

/-- The host file of `foo`, and one of an older version. -/
def oldHost : Bytes := textBytes "SS8DCMqZv9WouEgwEDAoQCAAE/QAjKWYyFqLBIMxAAKkAAA"

/-- The host file of `foo`, and an empty one. -/
def emptyHost : Bytes := textBytes "SS8DCMqZv9WouEgwEDAoQCAAEDA"

theorem import_all_or_nothing_two :
    ∃ m', meshlinkImport plainParams twoHosts (newMesh "self") = (some true, m') ∧
      m'.nodes = [0, 1, 2] ∧
      (AllOrNothing (newMesh "self") twoHosts m' true ↔ count twoHosts = 0 ∨
        Flawless plainParams (newMesh "self") twoHosts ∨
          FailsEarly plainParams (newMesh "self") twoHosts) := by
  have hvalue : (meshlinkImport plainParams twoHosts (newMesh "self")).1 = some true := by
    decide +kernel
  exact ⟨_, eq_of_value hvalue, by decide +kernel,
    import_all_or_nothing (allocated_newMesh "self") rfl (eq_of_value hvalue)⟩

/-- A host file that cannot be written leaves the mutex locked, a bad entry keeps the
nodes before it, and an empty entry at the end is taken for a success. -/
theorem import_in_part :
    ((meshlinkImport {plainParams with succeeds := fun _ _ => false} oneHost
        (newMesh "self")).1 = some false ∧
      (meshlinkImport {plainParams with succeeds := fun _ _ => false} oneHost
        (newMesh "self")).2.held = true) ∧
    ((meshlinkImport plainParams oldHost (newMesh "self")).1 = some false ∧
      (meshlinkImport plainParams oldHost (newMesh "self")).2.nodes = [0, 1]) ∧
    ((meshlinkImport plainParams emptyHost (newMesh "self")).1 = some true ∧
      (entries emptyHost).length ≠ count emptyHost) := by
  decide +kernel

end Samples

end Meshlink.ImportedHosts
