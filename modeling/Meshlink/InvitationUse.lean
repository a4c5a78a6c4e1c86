import Meshlink.Histories
import Meshlink.MeshRuns

/-!
The use of invitations by several connections at once. A file is taken away when it
is handed over, so no other connection gets it, and the key of an invitee is only
committed while no node of that name is known.
-/
namespace Meshlink.InvitationUse

open List MeshState MeshEvents MeshView ViewGrowth EventMoves MeshRuns Systems Histories

/-- Whether the effect is the handing over of that invitation file. -/
def handsOver (file : ℕ) : Effect → Bool
  | .handed f _ => f = file
  | _ => false

/-- Whether the effect is that a key is committed for the name. -/
def commitsKey (name : String) : Effect → Bool
  | .committed other _ => other = name
  | _ => false

/-- The commitment of a key for the name has not been followed by forgetting it. -/
def Standing (name : String) (log : List Effect) : Prop :=
  Stands (fun effect => commitsKey name effect = true) (fun effect => effect = .forgotten name) log

/-- A key is only committed for a name without a standing commitment. -/
def CommitsNew (log : List Effect) (effect : Effect) : Prop :=
  ∀ name, commitsKey name effect = true → ¬ Standing name log

structure Exclusive (v : View) : Prop where
  files : (v.invitations.map Invitation.file).Nodup
  file_lt : ∀ inv ∈ v.invitations, inv.file < v.nextFile
  handed : ∀ file, v.log.countP (handsOver file) ≤ 1
  unused : ∀ inv ∈ v.invitations, v.log.countP (handsOver inv.file) = 0
  future : ∀ file, v.nextFile ≤ file → v.log.countP (handsOver file) = 0
  standing : ∀ name, Standing name v.log →
    ∃ i ∈ v.nodes, i ≠ v.self ∧ (v.node i).name = name
  keys : Always CommitsNew v.log

section Moves

variable {v w : View}

theorem count_concat (log : List Effect) {file : ℕ} {effect : Effect}
    (h : handsOver file effect = false) :
    (log ++ [effect]).countP (handsOver file) = log.countP (handsOver file) := by
  rw [countP_append, countP_singleton, h]
  rfl

/-- A key is committed for a node that is there and had none. -/
theorem Exclusive.concat (h : Exclusive v) {effect : Effect}
    (hhand : ∀ file, handsOver file effect = false)
    (hnode : ∀ name, commitsKey name effect = true →
      ∃ i ∈ v.nodes, i ≠ v.self ∧ (v.node i).name = name)
    (hkeys : CommitsNew v.log effect) : Exclusive (v.note effect) := by
  have hcount := fun file => count_concat v.log (hhand file)
  refine ⟨h.files, h.file_lt, ?_, ?_, ?_, ?_, ?_⟩
  · exact fun file => (hcount file).trans_le (h.handed file)
  · exact fun inv hinv => (hcount inv.file).trans (h.unused inv hinv)
  · exact fun file hfile => (hcount file).trans (h.future file hfile)
  · intro name hstanding
    rcases stands_concat hstanding with hnew | hold
    · exact hnode name hnew
    · exact h.standing name hold.1
  · refine (always_append _ _ _).mpr ⟨h.keys, (always_singleton _ _).mpr ?_⟩
    rwa [append_nil]

/-- Effects other than those about invitations do not matter. -/
theorem Exclusive.note (h : Exclusive v) {effect : Effect}
    (hhand : ∀ file, handsOver file effect = false)
    (hcommit : ∀ name, commitsKey name effect = false) : Exclusive (v.note effect) :=
  h.concat hhand (fun name hnew => nomatch (hcommit name).symm.trans hnew)
    fun name hnew => nomatch (hcommit name).symm.trans hnew

/-- The nodes that stand for commitments remain, and nothing else is concerned. -/
theorem Exclusive.of_same (hv : Sane v) (h : Exclusive v) (hgrows : Grows v w)
    (hinvitations : w.invitations = v.invitations) (hfile : w.nextFile = v.nextFile)
    (hlog : w.log = v.log) : Exclusive w := by
  constructor
  · rw [hinvitations]
    exact h.files
  · rw [hinvitations, hfile]
    exact h.file_lt
  · rw [hlog]
    exact h.handed
  · rw [hinvitations, hlog]
    exact h.unused
  · rw [hfile, hlog]
    exact h.future
  · rw [hlog, hgrows.self]
    intro name hstanding
    obtain ⟨i, hi, hself, hname⟩ := h.standing name hstanding
    exact ⟨i, hgrows.nodes i hi, hself, (hgrows.name i (hv.nodes_lt i hi)).trans hname⟩
  · rw [hlog]
    exact h.keys

theorem Exclusive.discard (h : Exclusive v) (cookie : String) : Exclusive (v.discard cookie) :=
  {h with
    files := h.files.sublist (filter_sublist.map _)
    file_lt := fun inv hinv => h.file_lt inv (mem_filter.mp hinv).1
    unused := fun inv hinv => h.unused inv (mem_filter.mp hinv).1}

theorem Exclusive.invite (h : Exclusive v) {inv : Invitation} (hfile : inv.file = v.nextFile) :
    Exclusive (v.invite inv) := by
  have hold := h.discard inv.cookie
  have hmem : ∀ other ∈ (v.invite inv).invitations,
      other ∈ (v.discard inv.cookie).invitations ∨ other = inv := by
    intro other hother
    exact (mem_append.mp hother).imp_right mem_singleton.mp
  refine ⟨?_, ?_, h.handed, ?_, ?_, h.standing, h.keys⟩
  · change (((v.discard inv.cookie).invitations ++ [inv]).map Invitation.file).Nodup
    rw [map_append, nodup_append]
    refine ⟨hold.files, nodup_singleton _, ?_⟩
    intro a ha b hb heq
    obtain ⟨other, hother, rfl⟩ := mem_map.mp ha
    have hlt : other.file < v.nextFile := hold.file_lt other hother
    rw [heq, mem_singleton.mp hb, hfile] at hlt
    exact Nat.lt_irrefl _ hlt
  · intro other hother
    rcases hmem other hother with hkept | rfl
    · exact Nat.lt_succ_of_lt (hold.file_lt other hkept)
    · exact hfile ▸ Nat.lt_succ_self v.nextFile
  · intro other hother
    rcases hmem other hother with hkept | rfl
    · exact hold.unused other hkept
    · exact h.future other.file hfile.ge
  · exact fun file hge => h.future file (Nat.le_of_succ_le hge)

/-- The invitation that is handed over was there, so it had not been before. -/
theorem Exclusive.hand (h : Exclusive v) {inv : Invitation} (hinv : inv ∈ v.invitations)
    (c : ConnId) : Exclusive ((v.discard inv.cookie).note (.handed inv.file c)) := by
  have hold := h.discard inv.cookie
  have hother : ∀ file, inv.file ≠ file →
      (v.log ++ [Effect.handed inv.file c]).countP (handsOver file) =
        v.log.countP (handsOver file) := fun _ hne => count_concat v.log (decide_eq_false hne)
  refine ⟨hold.files, hold.file_lt, ?_, ?_, ?_, ?_, ?_⟩
  · intro file
    by_cases hfile : inv.file = file
    · change (v.log ++ [Effect.handed inv.file c]).countP (handsOver file) ≤ 1
      rw [countP_append, ← hfile, h.unused inv hinv, Nat.zero_add]
      exact countP_le_length
    · exact (hother file hfile).trans_le (h.handed file)
  · intro other hkept
    have hmem := mem_filter.mp hkept
    have hne : inv.file ≠ other.file := by
      intro heq
      have hsame := inj_on_of_nodup_map h.files hinv hmem.1 heq
      exact absurd (congrArg Invitation.cookie hsame.symm) (by simpa using hmem.2)
    exact (hother other.file hne).trans (h.unused other hmem.1)
  · intro file hge
    have hne : inv.file ≠ file := ((h.file_lt inv hinv).trans_le hge).ne
    exact (hother file hne).trans (h.future file hge)
  · intro name hstanding
    rcases stands_concat hstanding with hnew | hkept
    · exact absurd hnew Bool.false_ne_true
    · exact h.standing name hkept.1
  · refine (always_append _ _ _).mpr ⟨h.keys, (always_singleton _ _).mpr ?_⟩
    intro name hnew
    exact absurd hnew Bool.false_ne_true

/-- A key is committed for a name without a node, and then there is one. -/
theorem Exclusive.commit (hv : Sane v) (h : Exclusive v) {core : NodeCore} (key : Bytes)
    (hfresh : v.lookupNode core.name = none) :
    Exclusive ((v.addNode core).note (.committed core.name key)) := by
  have hadd := h.of_same hv (Grows.addNode v core) rfl rfl rfl
  refine hadd.concat (fun _ => rfl) (fun name hnew => ?_) fun name hnew hstanding => ?_
  · refine ⟨v.nextNode, ?_, (hv.self_lt.ne).symm, ?_⟩
    · rw [View.addNode_nodes hfresh]
      exact mem_append_right _ (mem_singleton_self _)
    · rw [View.addNode_node]
      exact of_decide_eq_true hnew
  · obtain ⟨i, hi, -, hi'⟩ := h.standing name hstanding
    exact View.lookupNode_none.mp hfresh i hi (hi'.trans (of_decide_eq_true hnew).symm)

theorem Exclusive.of_move {R : Rules} (hv : Sane v) (h : Exclusive v) (hmove : Move R v w) :
    Exclusive w := by
  have hset : ∀ i core, core.name = (v.node i).name → core.submesh = (v.node i).submesh →
      Exclusive (v.setNode i core) := fun i core hname hsubmesh =>
    h.of_same hv (Grows.setNode v i core hname hsubmesh) rfl rfl rfl
  cases hmove with
  | addNode core => exact h.of_same hv (Grows.addNode v core) rfl rfl rfl
  | commit core key _ _ hfresh => exact h.commit hv key hfresh
  | addEdge e =>
    obtain ⟨hinvitations, hfile, hlog⟩ := View.addEdge_ind (v := v) (e := e)
      (P := fun w => w.invitations = v.invitations ∧ w.nextFile = v.nextFile ∧ w.log = v.log)
      ⟨rfl, rfl, rfl⟩ fun _ _ _ hw => hw
    exact h.of_same hv (Grows.addEdge v e) hinvitations hfile hlog
  | flip i =>
    exact View.flip_ind (hset i _ rfl rfl) fun _ _ hw => hw.note (fun _ => rfl) fun _ => rfl
  | unmark i =>
    exact View.unmark_ind (hset i _ rfl rfl) fun _ _ hw => hw.note (fun _ => rfl) fun _ => rfl
  | delEdge k => exact hset _ _ rfl rfl
  | mark i | detach i => exact hset i _ rfl rfl
  | attach c i =>
    have hnode : Exclusive (v.setNode i {v.node i with connection := some c}) := hset i _ rfl rfl
    exact {hnode with}
  | invite inv _ hfile => exact h.invite hfile
  | discard cookie => exact h.discard cookie
  | hand c inv hinv => exact h.hand hinv c
  | gone | send | received | channel | raw | stored =>
    exact h.note (fun _ => rfl) fun _ => rfl
  | _ => exact {h with}

/-- Forgetting a name ends its commitment, and the local node stands for none. -/
theorem exclusive_of_act {R : Rules} (hv : Ready R v) (h : Exclusive v) (hact : Act R v w) :
    Exclusive w := by
  cases hact with
  | move hmove => exact h.of_move hv.toSane hmove
  | start => exact {h with}
  | forget i =>
    have hnoted : Exclusive (v.note (.forgotten (v.node i).name)) :=
      h.note (fun _ => rfl) fun _ => rfl
    refine {hnoted with standing := ?_}
    intro name hstanding
    rcases stands_concat hstanding with hnew | ⟨hold, hkept⟩
    · exact absurd hnew Bool.false_ne_true
    obtain ⟨j, hj, hself, hname⟩ := h.standing name hold
    refine ⟨j, mem_filter.mpr ⟨hj, decide_eq_true ?_⟩, hself, hname⟩
    intro hsame
    exact hkept (by rw [← hname, hsame])
  | rename name submesh =>
    refine {h with standing := ?_}
    intro name hstanding
    obtain ⟨j, hj, hself, hname⟩ := h.standing name hstanding
    refine ⟨j, hj, hself, ?_⟩
    rw [View.rename, View.setNode_node, if_neg hself]
    exact hname

end Moves

section Runs

theorem allows_any {m : Mesh} {ev : Event} :
    Allows (freeRules (fun _ => True) fun _ _ => trivial) m ev :=
  allows_of_calls ⟨trivial, trivial, fun _ => trivial, trivial, fun _ => trivial⟩
    (calls_of_any (fun _ => trivial) trivial) (fun _ => trivial) (fun _ => trivial) fun _ => trivial

theorem exclusive_of_opened {m : Mesh} (h : Opened m) : Exclusive (view m) := by
  have hlog : (view m).log = [] := h.log
  refine ⟨h.files, h.file_lt, ?_, ?_, ?_, ?_, ?_⟩
  · intro file
    rw [hlog]
    exact Nat.zero_le 1
  · intro inv _
    rw [hlog]
    rfl
  · intro file _
    rw [hlog]
    rfl
  · intro name hstanding
    rw [hlog] at hstanding
    exact absurd hstanding (not_stands_nil _ _)
  · rw [hlog]
    exact Always.nil _

/-- In every run each invitation file is handed over at most once, and a key is only
committed for a name whose last commitment, if any, was followed by forgetting it. -/
theorem invitations_exclusive {p : Params} {m : Mesh} (evs : List Event) (hm : Opened m) :
    (∀ file, (run p m evs).log.countP (handsOver file) ≤ 1) ∧
      Always CommitsNew (run p m evs).log := by
  have hready : Ready (freeRules (fun _ => True) fun _ _ => trivial) (view m) :=
    ⟨sane_of_opened hm, Or.inl trivial⟩
  have hrun : Along (step p) (fun _ _ => True) m evs := along_of_forall fun _ _ => trivial
  have hend := kept_run (fun _ _ => exclusive_of_act) (fun _ _ _ _ _ => allows_any) hready
    (exclusive_of_opened hm) hrun
  exact ⟨hend.2.handed, hend.2.keys⟩

def invitingMesh : Mesh :=
  {newMesh "self" with invitationKey := some (List.replicate 32 5)}

theorem opened_invitingMesh : Opened invitingMesh :=
  {opened_newMesh (show checkId "self" = true by decide) with}

/-- Cookies are told apart by their first byte. -/
def invitingParams : Params :=
  {plainParams with
    decodeKey := fun _ => some (List.replicate 32 9)
    cookieHash := fun cookie => if cookie.head? = some 0 then "first" else "second"}

/-- Connections 0 and 1 use the same invitation, 2 uses another one for the name, and
both that are accepted send a key. -/
def rivals : List Event :=
  [.start, .invite "first" "n" none, .invite "second" "n" none,
    .accept (.inet 0x0a000002 655), .accept (.inet 0x0a000003 655),
    .accept (.inet 0x0a000004 655)] ++
  (List.range 3).flatMap (fun c =>
    [.arrive c false (.line (.id "?key" 17 3 0)), .arrive c false .handshake]) ++
  [.arrive 0 false (.invitation 0 (List.replicate 18 0)),
    .arrive 1 false (.invitation 0 (List.replicate 18 0)),
    .arrive 2 false (.invitation 0 (List.replicate 18 1)),
    .arrive 2 false (.invitation 1 (List.replicate 32 7)),
    .arrive 0 false (.invitation 1 (List.replicate 32 8))]

theorem invitations_exclusive_rivals :
    let log := (run invitingParams invitingMesh rivals).log
    log.filter (handsOver 0) = [.handed 0 0] ∧ log.filter (handsOver 1) = [.handed 1 2] ∧
      log.filter (commitsKey "n") = [.committed "n" (List.replicate 32 7)] ∧
      (∀ file, log.countP (handsOver file) ≤ 1) ∧ Always CommitsNew log :=
  ⟨by decide +kernel, by decide +kernel, by decide +kernel,
    invitations_exclusive rivals opened_invitingMesh⟩

end Runs

end Meshlink.InvitationUse
