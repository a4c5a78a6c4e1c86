import Meshlink.StorageRecovery

/-!
A crash while the storage key is rotated. The base is opened again with the new
key and, if that fails, with the old one. Opening looks only at the main
configuration files, so a copy that was not complete yet can take the place of
the original. What a crash leaves is known from the files that were closed before it.
-/
namespace Meshlink.CrashRecovery

open Function Commands FileTree Storage StorageRules
open DirectoryRemoval DirectoryCopy TreeCopy ConfBase
  KeyRotation StorageRecovery

section Reopening

variable (c : Cipher) (e : Env) (f : Format) (newKey oldKey : Bytes)

/-- Open with the new key and, if that fails, with the old key. -/
def reopen : Command World (Option Bytes) := do
  match ← openWith c e f newKey with
  | .opened => pure (some newKey)
  | .created => pure none
  | .failed =>
    match ← openWith c e f oldKey with
    | .opened => pure (some oldKey)
    | _ => pure none

/-- A new process. -/
def restart (disk : Tree) : World where
  disk := disk
  stream := none
  configKey := none
  ops := 0
  failures := []
  renamed := []
  closed := []

/-- The key that fits in the end, and the table then. -/
def reopening (d : String → Option Tree) : Option Bytes × (String → Option Tree) :=
  match opening c newKey f d with
  | .opened => (some newKey, settled c newKey d)
  | .created => (none, settled c newKey d)
  | .failed =>
    match opening c oldKey f (settled c newKey d) with
    | .opened => (some oldKey, settled c oldKey (settled c newKey d))
    | _ => (none, settled c oldKey (settled c newKey d))

/-- The base can be opened, and current has all files of the original. -/
def Recovers (orig disk : Tree) : Prop :=
  ∃ key w, reopen c e f newKey oldKey (restart disk) = (some (some key), w) ∧
    ∃ cur, get w.disk ["current"] = some cur ∧ Holds c (some oldKey) orig (some key) cur

variable {c e f newKey oldKey} {d : String → Option Tree} {key : Bytes}

theorem subdirs_of (hcurrent : ∀ node, d "current" = some node → Subdir node)
    (hnew : ∀ node, d "new" = some node → Subdir node)
    (hold : ∀ node, d "old" = some node → Subdir node) : Subdirs d := by
  rintro name node (rfl | rfl | rfl) hnode
  · exact hcurrent node hnode
  · exact hnew node hnode
  · exact hold node hnode

theorem cleaned_subdirs (h : ∀ node, d "current" = some node → Subdir node) :
    Subdirs (cleaned d) := by
  unfold cleaned
  exact subdirs_of (by simpa using h) (by simp) (by simp)

theorem settled_subdirs (h : Subdirs d) : Subdirs (settled c key d) := by
  unfold settled
  split
  · exact cleaned_subdirs fun node => h "current" node (Or.inl rfl)
  split
  · refine cleaned_subdirs fun node hnode => ?_
    rw [renamedTo, update_self] at hnode
    exact h "new" node (Or.inr (Or.inl rfl)) hnode
  split
  · refine cleaned_subdirs fun node hnode => ?_
    rw [renamedTo, update_self] at hnode
    exact h "old" node (Or.inr (Or.inr rfl)) hnode
  · exact h

theorem reopen_runs (he : Calm e) (hsub : Subdirs d) :
    Triple (fun _ => False) (fun w => Layout w.disk d) (reopen c e f newKey oldKey)
      fun result w => result = (reopening c f newKey oldKey d).1 ∧
        Layout w.disk (reopening c f newKey oldKey d).2 := by
  refine Triple.bind_eq (openWith_runs he f hsub) ?_
  unfold reopening
  cases opening c newKey f d with
  | opened | created => exact Triple.pure _ fun w hw => ⟨rfl, hw.1⟩
  | failed =>
    refine Triple.bind_eq (Triple.pre (openWith_runs he f (settled_subdirs hsub))
      fun w hw => hw.1) ?_
    cases opening c oldKey f (settled c newKey d) with
    | opened | created | failed => exact Triple.pure _ fun w hw => ⟨rfl, hw.1⟩

theorem recovers_iff (he : Calm e) {orig disk : Tree} (hlayout : Layout disk d) (hsub : Subdirs d) :
    Recovers c e f newKey oldKey orig disk ↔ ∃ key cur,
      (reopening c f newKey oldKey d).1 = some key ∧
        (reopening c f newKey oldKey d).2 "current" = some cur ∧
          Holds c (some oldKey) orig (some key) cur := by
  have hreopen : Triple (fun _ => False) (fun w => Layout w.disk d)
      (reopen c e f newKey oldKey) _ := reopen_runs he hsub
  have hruns := hreopen (restart disk) hlayout
  unfold Recovers
  cases hrun : reopen c e f newKey oldKey (restart disk) with
  | mk result w =>
    rw [hrun] at hruns
    cases result with
    | none => exact hruns.elim
    | some result =>
      obtain ⟨rfl, hafter⟩ := hruns
      constructor
      · intro h
        obtain ⟨key, w', heq, cur, hcur, hholds⟩ := h
        obtain ⟨hkey, rfl⟩ := Prod.mk.inj heq
        exact ⟨key, cur, Option.some.inj hkey, (hafter.entry _).symm.trans hcur, hholds⟩
      · intro h
        obtain ⟨key, cur, hkey, hcur, hholds⟩ := h
        refine ⟨key, w, ?_, cur, (hafter.entry _).trans hcur, hholds⟩
        rw [hkey]

/-- A configuration that can be opened with a key. -/
def Openable (c : Cipher) (f : Format) (key : Bytes) (node : Tree) : Prop :=
  fits c key (some node) = true ∧ valid c key f (some node) = true

section Cases

variable {orig node : Tree}

theorem holds_iff : Holds c (some oldKey) orig (some key) node ↔ ∀ path plain,
    readIn c oldKey (some orig) path = some plain → readIn c key (some node) path = some plain := by
  have hread (key : Bytes) (node : Tree) (path : Path) (plain : Bytes) :
      readIn c key (some node) path = some plain ↔
        plainAt c (some key) node path = some (some plain) := by
    unfold readIn plainAt
    rw [Option.bind_some]
    cases fileAt node path with
    | none => simp
    | some data => simp
  simp only [hread]
  rfl

theorem openable_of_holds (hholds : Holds c (some oldKey) orig (some key) node)
    (h : Openable c f oldKey orig) : Openable c f key node := by
  obtain ⟨hfits, hvalid⟩ := h
  unfold fits at hfits
  unfold valid at hvalid
  obtain ⟨config, hconfig, hversion⟩ := (Option.any_eq_true _ _).mp hfits
  rw [hconfig, Option.any_some] at hvalid
  obtain ⟨name, hname, hhost⟩ := (Option.any_eq_true _ _).mp hvalid
  obtain ⟨host, hread, hok⟩ := (Option.any_eq_true _ _).mp hhost
  have hreads := holds_iff.mp hholds
  have hmain := hreads _ _ hconfig
  refine ⟨?_, ?_⟩
  · unfold fits
    rw [hmain]
    exact hversion
  · unfold valid
    rw [hmain, Option.any_some, hname, Option.any_some, hreads _ _ hread]
    exact hok

theorem fits_false_of_none {sub : Option Tree}
    (h : readIn c key sub ["meshlink.conf"] = none) : fits c key sub = false := by
  unfold fits
  rw [h]
  rfl

theorem valid_false_of_none {sub : Option Tree}
    (h : readIn c key sub ["meshlink.conf"] = none) : valid c key f sub = false := by
  unfold valid
  rw [h]
  rfl

theorem cleaned_current (d : String → Option Tree) : cleaned d "current" = d "current" := by
  unfold cleaned
  rw [update_of_ne (by decide), update_of_ne (by decide)]

theorem found_of_current (hcurrent : d "current" = some node)
    (h : fits c key (some node) = true) : found d = true := by
  unfold found
  rw [hcurrent, hasMain_of_fits h]
  rfl

/-- The configuration in current opens with the key. -/
theorem opening_current (hcurrent : d "current" = some node) (h : Openable c f key node) :
    opening c key f d = .opened ∧ settled c key d "current" = some node := by
  have hsettled : settled c key d "current" = some node := by
    unfold settled
    rw [hcurrent, if_pos h.1, cleaned_current, hcurrent]
  refine ⟨?_, hsettled⟩
  unfold opening
  rw [found_of_current hcurrent h.1, hsettled, h.2]
  rfl

theorem reopening_current (oldKey : Bytes) (hcurrent : d "current" = some node)
    (h : Openable c f newKey node) :
    (reopening c f newKey oldKey d).1 = some newKey ∧
      (reopening c f newKey oldKey d).2 "current" = some node := by
  obtain ⟨hopening, hsettled⟩ := opening_current hcurrent h
  unfold reopening
  rw [hopening]
  exact ⟨rfl, hsettled⟩

/-- Nothing opens with the new key: the original is found with the old one. -/
theorem reopening_old (hcurrent : d "current" = some orig) (h : Openable c f oldKey orig)
    (hnew : readIn c newKey (some orig) ["meshlink.conf"] = none)
    (hnone : fits c newKey (d "new") = false) (hnone' : fits c newKey (d "old") = false) :
    (reopening c f newKey oldKey d).1 = some oldKey ∧
      (reopening c f newKey oldKey d).2 "current" = some orig := by
  have hsettled : settled c newKey d = d := by
    unfold settled
    rw [hcurrent, fits_false_of_none hnew, hnone, hnone']
    rfl
  have hopening : opening c newKey f d = .failed := by
    unfold opening
    rw [found_of_current hcurrent h.1, hsettled, hcurrent, valid_false_of_none hnew]
    rfl
  obtain ⟨hopening', hsettled'⟩ := opening_current hcurrent h
  unfold reopening
  rw [hopening, hsettled, hopening']
  exact ⟨rfl, hsettled'⟩

section Adopting

variable (hcurrent : fits c newKey (d "current") = false) (hnew : d "new" = some node)
  (hfits : fits c newKey (some node) = true)

include hcurrent hnew hfits

/-- Opening with the new key puts the copy in the place of current. -/
theorem settled_adopted : settled c newKey d "current" = some node ∧
    settled c newKey d "new" = none ∧ settled c newKey d "old" = none := by
  have hsettled : settled c newKey d = cleaned (renamedTo d "new" "current") := by
    rw [settled, hcurrent, hnew, hfits]
    rfl
  rw [hsettled, cleaned_current, renamedTo, update_self]
  refine ⟨hnew, ?_, ?_⟩
  · rw [cleaned, update_self]
  · rw [cleaned, update_of_ne (by decide), update_self]

omit hcurrent in
theorem found_adopted : found d = true := by
  have hmain := hasMain_of_fits hfits
  unfold found
  rw [hnew, hmain]
  simp

theorem reopening_adopted (oldKey : Bytes) (hvalid : valid c newKey f (some node) = true) :
    (reopening c f newKey oldKey d).1 = some newKey ∧
      (reopening c f newKey oldKey d).2 "current" = some node := by
  have hcurrent' := (settled_adopted hcurrent hnew hfits).1
  have hopening : opening c newKey f d = .opened := by
    unfold opening
    rw [found_adopted hnew hfits, hcurrent', hvalid]
    rfl
  unfold reopening
  rw [hopening]
  exact ⟨rfl, hcurrent'⟩

/-- The copy cannot be opened with either key. -/
theorem reopening_stuck (hvalid : valid c newKey f (some node) = false)
    (hold : readIn c oldKey (some node) ["meshlink.conf"] = none) :
    (reopening c f newKey oldKey d).1 = none := by
  obtain ⟨hcurrent', hnew', hgone⟩ := settled_adopted hcurrent hnew hfits
  have hopening : opening c newKey f d = .failed := by
    unfold opening
    rw [found_adopted hnew hfits, hcurrent', hvalid]
    rfl
  have hsettled : settled c oldKey (settled c newKey d) = settled c newKey d := by
    have hnone : fits c oldKey none = false := rfl
    rw [settled, hcurrent', hnew', hgone, fits_false_of_none hold, hnone]
    rfl
  have hopening' : opening c oldKey f (settled c newKey d) ≠ .opened := by
    unfold opening
    rw [hsettled, hcurrent', valid_false_of_none hold]
    cases found (settled c newKey d) <;> decide
  unfold reopening
  rw [hopening]
  cases hopening'' : opening c oldKey f (settled c newKey d) with
  | opened => exact absurd hopening'' hopening'
  | created => rfl
  | failed => rfl

end Adopting

end Cases

end Reopening

/-- Nothing opens with the new key yet, and the main configuration under the new key does
not open with the old one. -/
structure Apart (c : Cipher) (key newKey : Bytes) (orig disk : Tree) : Prop where
  fresh : ∀ path data, fileAt disk path = some data → decode c (some newKey) data = none
  rejected : KeyRejected c key newKey orig

section Crashes

variable {c : Cipher} {key newKey : Bytes} {r : Plan} {orig node : Tree} {w : World} {b : Base}
  {path : Path} {plain : Bytes}

def table (disk : Tree) : String → Option Tree := fun name => get disk [name]

theorem layout_table {disk : Tree} {d : String → Option Tree} (h : Layout disk d) :
    d = table disk :=
  funext fun name => (h.entry name).symm

theorem readIn_table (disk : Tree) (name : String) (path : Path) :
    readIn c key (table disk name) path =
      (fileAt disk (name :: path)).bind (decode c (some key)) := by
  unfold readIn table
  congr 1
  cases hnode : get disk [name] with
  | none => exact (fileAt_append_of_none path hnode).symm
  | some node => exact (fileAt_append_of_get path hnode).symm

theorem readIn_fresh (hapart : Apart c key newKey orig w.disk) (name : String) (path : Path) :
    readIn c newKey (table w.disk name) path = none := by
  rw [readIn_table]
  cases hfile : fileAt w.disk (name :: path) with
  | none => rfl
  | some data => exact hapart.fresh _ data hfile

variable (h : Start r.c r.key r.orig r.start)
  (hapart : Apart r.c r.key r.newKey r.orig r.start.disk)

include hapart in
/-- Only a file of the copy that was closed opens with the new key. -/
theorem closed_of_readIn (hledger : Ledger r.job b)
    (hread : readIn r.c r.newKey (table b.disk "new") path = some plain) :
    "new" :: path ∈ b.closed := by
  rw [readIn_table] at hread
  obtain ⟨data, hdata, hplain⟩ := Option.bind_eq_some_iff.mp hread
  by_contra hnot
  rcases hledger.other path data hnot hdata with rfl | hold
  · cases hplain
  · rw [hapart.fresh _ data hold] at hplain
    cases hplain

include h

theorem readIn_of_closed (hledger : Ledger r.job b) (hclosed : "new" :: path ∈ b.closed)
    (hread : readIn r.c r.key (some r.orig) path = some plain) :
    readIn r.c r.newKey (table b.disk "new") path = some plain := by
  obtain ⟨data, plain', data', hfile, hsealed, hfile', hsealed'⟩ := hledger.complete path hclosed
  have hcurrent : table r.start.disk "current" = some r.orig := h.encrypted.current
  have hplain : decode r.c (some r.key) data = some plain' := hsealed.decode
  have hplain' : decode r.c (some r.newKey) data' = some plain' := hsealed'.decode
  rw [← hcurrent, readIn_table, show fileAt r.start.disk ("current" :: path) = some data from hfile,
    Option.bind_some, hplain] at hread
  rw [readIn_table, show fileAt b.disk ("new" :: path) = some data' from hfile', Option.bind_some,
    hplain']
  exact hread

include hapart in
/-- The copy is complete when all of its files were closed. -/
theorem holds_iff_closed (hledger : Ledger r.job b) (hnode : table b.disk "new" = some node) :
    Holds r.c (some r.key) r.orig (some r.newKey) node ↔
      ∀ path, (fileAt r.orig path).isSome = true → "new" :: path ∈ b.closed := by
  rw [holds_iff, ← hnode]
  constructor
  · intro hholds path hpath
    obtain ⟨data, hdata⟩ := Option.isSome_iff_exists.mp hpath
    obtain ⟨plain, hplain⟩ := h.encrypted.sound.written path data hdata
    refine closed_of_readIn hapart hledger (hholds path plain ?_)
    rw [readIn, Option.bind_some, hdata]
    exact hplain.decode
  · intro hall path plain hread
    obtain ⟨data, hdata, -⟩ := Option.bind_eq_some_iff.mp hread
    exact readIn_of_closed h hledger (hall path (Option.isSome_of_eq_some hdata)) hread

include hapart in
/-- The old key does not open what was closed under the new one. -/
theorem readIn_rejected (hledger : Ledger r.job b) (hmain : ["new", "meshlink.conf"] ∈ b.closed) :
    readIn r.c r.key (table b.disk "new") ["meshlink.conf"] = none := by
  obtain ⟨data, plain, data', hfile, hsealed, hfile', hsealed'⟩ :=
    hledger.complete ["meshlink.conf"] hmain
  rw [readIn_table, show fileAt b.disk ["new", "meshlink.conf"] = some data' from hfile']
  refine hapart.rejected data plain data' ?_ hsealed hsealed'
  rw [← fileAt_append_of_get ["meshlink.conf"] h.encrypted.current]
  exact hfile

theorem writing_layout (hwriting : Writing r.job (base w)) :
    Layout w.disk (table w.disk) ∧ Subdirs (table w.disk) := by
  have hlayout := (start_layout h).near (near_new hwriting) hwriting.proper
  have hcurrent : table w.disk "current" = some r.orig := current_kept h hwriting
  have hold : table w.disk "old" = get r.start.disk ["old"] := old_kept hwriting
  refine ⟨?_, subdirs_of (by simpa [hcurrent] using orig_subdir h.encrypted) hwriting.shape ?_⟩
  · rw [layout_table hlayout] at hlayout
    exact hlayout
  · rw [hold]
    exact h.encrypted.old

variable {f : Format} {e₀ : Env} (hopen : Openable r.c f r.key r.orig) (he₀ : Calm e₀)

include hopen he₀

/-- While the original is copied to the same key, it stays where it is. -/
theorem recovers_same (hsame : r.newKey = r.key) (hwriting : Writing r.job (base w)) :
    Recovers r.c e₀ f r.newKey r.key r.orig w.disk := by
  rw [hsame]
  obtain ⟨hlayout, hsub⟩ := writing_layout h hwriting
  have hcurrent : table w.disk "current" = some r.orig := current_kept h hwriting
  have hreopen := reopening_current r.key hcurrent hopen
  exact (recovers_iff he₀ hlayout hsub).mpr
    ⟨r.key, r.orig, hreopen.1, hreopen.2, fun _ _ hplain => hplain⟩

omit h in
/-- A copy whose main configuration opens takes the place of current. -/
theorem recovers_adopted_iff (hlayout : Layout w.disk (table w.disk))
    (hsub : Subdirs (table w.disk)) (hcurrent : fits r.c r.newKey (table w.disk "current") = false)
    (hnode : table w.disk "new" = some node) (hfits : fits r.c r.newKey (some node) = true)
    (hold : readIn r.c r.key (some node) ["meshlink.conf"] = none) :
    Recovers r.c e₀ f r.newKey r.key r.orig w.disk ↔
      Holds r.c (some r.key) r.orig (some r.newKey) node := by
  rw [recovers_iff he₀ hlayout hsub]
  constructor
  · intro hrecovers
    obtain ⟨key', cur, hkey, hcur, hholds⟩ := hrecovers
    cases hvalid : valid r.c r.newKey f (some node) with
    | true =>
      have hreopen := reopening_adopted hcurrent hnode hfits r.key hvalid
      rw [hreopen.1] at hkey
      rw [hreopen.2] at hcur
      cases hkey
      cases hcur
      exact hholds
    | false =>
      rw [reopening_stuck hcurrent hnode hfits hvalid hold] at hkey
      cases hkey
  · intro hholds
    have hvalid := (openable_of_holds hholds hopen).2
    have hreopen := reopening_adopted hcurrent hnode hfits r.key hvalid
    exact ⟨r.newKey, node, hreopen.1, hreopen.2, hholds⟩

include hapart in
/-- The crash came while the original was copied. -/
theorem recovers_copying_iff (he : Faultless r.e) (hwriting : Writing r.job (base w)) :
    Recovers r.c e₀ f r.newKey r.key r.orig w.disk ↔ ["new", "meshlink.conf"] ∉ w.closed ∨
      ∀ path, (fileAt r.orig path).isSome = true → "new" :: path ∈ w.closed := by
  obtain ⟨hlayout, hsub⟩ := writing_layout h hwriting
  have hledger := hwriting.ledger he
  have hcurrent : table w.disk "current" = some r.orig := current_kept h hwriting
  have horig : readIn r.c r.newKey (some r.orig) ["meshlink.conf"] = none := by
    rw [← show table r.start.disk "current" = some r.orig from h.encrypted.current]
    exact readIn_fresh hapart _ _
  have hcurrent' : fits r.c r.newKey (table w.disk "current") = false := by
    rw [hcurrent]
    exact fits_false_of_none horig
  by_cases hmain : ["new", "meshlink.conf"] ∈ w.closed
  · obtain ⟨config, hconfig, hversion⟩ := (Option.any_eq_true _ _).mp hopen.1
    have hread := readIn_of_closed h hledger hmain hconfig
    have hold := readIn_rejected h hapart hledger hmain
    cases hnode : table w.disk "new" with
    | none =>
      rw [show table (base w).disk "new" = none from hnode] at hread
      cases hread
    | some node =>
      rw [show table (base w).disk "new" = some node from hnode] at hread hold
      have hfits : fits r.c r.newKey (some node) = true := by
        rw [fits, hread]
        exact hversion
      rw [or_iff_right (not_not.mpr hmain)]
      exact (recovers_adopted_iff hopen he₀ hlayout hsub hcurrent' hnode hfits hold).trans
        (holds_iff_closed h hapart hledger hnode)
  · have hnone : readIn r.c r.newKey (table w.disk "new") ["meshlink.conf"] = none := by
      rw [Option.eq_none_iff_forall_not_mem]
      exact fun plain hplain => hmain (closed_of_readIn hapart hledger hplain)
    have hnone' : readIn r.c r.newKey (table w.disk "old") ["meshlink.conf"] = none := by
      rw [show table w.disk "old" = table r.start.disk "old" from old_kept hwriting]
      exact readIn_fresh hapart _ _
    have hreopen := reopening_old hcurrent hopen horig (fits_false_of_none hnone)
      (fits_false_of_none hnone')
    exact iff_of_true ((recovers_iff he₀ hlayout hsub).mpr
      ⟨r.key, r.orig, hreopen.1, hreopen.2, fun _ _ hplain => hplain⟩) (Or.inl hmain)

omit h hopen

variable {copy : Tree} {closed : List Path}

/-- The crash came after current was renamed: the copy is complete. -/
theorem recovers_swapped (hsub : Subdir orig) (hcopy : Subdir copy)
    (hopen : Openable c f newKey copy) (hstate : Swapped key orig copy closed b)
    (hholds : Holds c (some key) orig (some newKey) copy) :
    Recovers c e₀ f newKey key orig b.disk := by
  obtain ⟨d, hlayout, hcurrent, hnew, hold⟩ := hstate.layout
  have hsubs : Subdirs d :=
    subdirs_of (by simp [hcurrent]) (by simpa [hnew] using hcopy) (by simpa [hold] using hsub)
  have hnone : fits c newKey (d "current") = false := by
    rw [hcurrent]
    rfl
  have hreopen := reopening_adopted hnone hnew hopen.1 key hopen.2
  exact (recovers_iff he₀ hlayout hsubs).mpr ⟨newKey, copy, hreopen.1, hreopen.2, hholds⟩

theorem recovers_installed (hcopy : Subdir copy) (hopen : Openable c f newKey copy)
    (hstate : Installed key copy closed b) (hholds : Holds c (some key) orig (some newKey) copy) :
    Recovers c e₀ f newKey key orig b.disk := by
  obtain ⟨d, hlayout, hcurrent, hnew, hold⟩ := hstate.layout
  have hsubs : Subdirs d := subdirs_of (by simpa [hcurrent] using hcopy) (by simp [hnew]) hold
  have hreopen := reopening_current key hcurrent hopen
  exact (recovers_iff he₀ hlayout hsubs).mpr ⟨newKey, copy, hreopen.1, hreopen.2, hholds⟩

omit he₀ in
/-- Without failures the copy is complete when it takes the place of the original. -/
theorem holds_of_finished {silent : List Failure} (he : Faultless r.e)
    (hdone : Finished r copy silent closed) :
    Holds r.c (some r.key) r.orig (some r.newKey) copy := by
  refine hdone.part.complete.mp fun f hf => ?_
  obtain ⟨-, -, hfaulty⟩ := hdone.part.unnoticed f hf
  exact absurd he hfaulty

end Crashes

section Sample

/-- The main configuration has the version number and the name of the node. -/
def sampleFormat : Format where
  mainName config := if config = [2, 97] then some "a" else none
  hostOk _ _ := true

def calmEnv : Env := envWith (fun _ => false) fun _ _ => false

/-- A rotation of the sample that is killed after a call. -/
def killedAfter (op : Op) : Option Bool × World :=
  meshlinkEncryptedKeyRotate tagCipher (envWith (fun _ => false) fun _ op' => op' == op) [2]
    sampleWorld

theorem calmEnv_calm : Calm calmEnv := ⟨fun _ _ => rfl, fun _ _ => rfl⟩

theorem sampleConfig_openable : Openable tagCipher sampleFormat [1] (sampleConfig [1]) := by
  refine ⟨?_, ?_⟩ <;> decide +kernel

theorem sampleWorld_apart : Apart tagCipher [1] [2] (sampleConfig [1]) sampleWorld.disk := by
  refine ⟨fun path data hdata => ?_, keyRejected_tagCipher _ (by decide)⟩
  cases path with
  | nil => cases hdata
  | cons name rest =>
    rw [sampleWorld, fileAt_cons, List.lookup_cons] at hdata
    cases hname : name == "current" with
    | false =>
      rw [hname] at hdata
      cases hdata
    | true =>
      rw [hname] at hdata
      obtain ⟨plain, hplain⟩ := (sampleConfig_sound [1]).written rest data hdata
      exact decode_tagCipher (by decide) hplain

theorem sampleConfig_files {key : Bytes} {path : Path}
    (h : (fileAt (sampleConfig key) path).isSome = true) :
    path ∈ [["meshlink.conf"], ["hosts", "a"], ["hosts", "b"]] := by
  cases path with
  | nil => cases h
  | cons name rest =>
    rw [sampleConfig, fileAt_cons, List.lookup_cons, List.lookup_cons] at h
    split at h
    · cases rest with
      | nil => simp_all
      | cons other rest => cases h
    split at h
    · cases rest with
      | nil => cases h
      | cons other rest =>
        rw [Option.bind_some, fileAt_cons, List.lookup_cons, List.lookup_cons] at h
        split at h
        · cases rest with
          | nil => simp_all
          | cons third rest => cases h
        split at h
        · cases rest with
          | nil => simp_all
          | cons third rest => cases h
        · cases h
    · cases h

end Sample

section Again

variable {c : Cipher} {e : Env} {f : Format} {key : Bytes} {d : String → Option Tree}

theorem settled_cases : settled c key d = d ∨ found d = true ∧
    ∃ t, settled c key d = cleaned t ∧ fits c key (t "current") = true := by
  unfold settled found
  split
  · next h => exact Or.inr ⟨by simp [hasMain_of_fits h], d, rfl, h⟩
  split
  · next h => exact Or.inr ⟨by simp [hasMain_of_fits h], _, rfl, by simpa [renamedTo] using h⟩
  split
  · next h => exact Or.inr ⟨by simp [hasMain_of_fits h], _, rfl, by simpa [renamedTo] using h⟩
  · exact Or.inl rfl

/-- Where the base was opened, opening it again finds the same and changes nothing. -/
theorem settled_settled : settled c key (settled c key d) = settled c key d ∧
    found (settled c key d) = found d := by
  rcases settled_cases (c := c) (d := d) with heq | ⟨hfound, t, heq, hfits⟩
  · rw [heq]
    exact ⟨heq, rfl⟩
  have hcurrent : fits c key (cleaned t "current") = true := by simpa [cleaned] using hfits
  rw [heq, hfound, settled, if_pos hcurrent, found, hasMain_of_fits hcurrent]
  simp [cleaned, update_comm]

theorem openWith_returns (he : Calm e) (hsub : Subdirs d) {w : World} (hlayout : Layout w.disk d) :
    ∃ w', openWith c e f key w = (some (opening c key f d), w') ∧
      Layout w'.disk (settled c key d) := by
  have hruns : Yields _ (openWith c e f key) _ _ := openWith_runs he f hsub
  have hw := hruns w hlayout
  cases hrun : openWith c e f key w with
  | mk outcome w' =>
    rw [hrun] at hw
    cases outcome with
    | none => exact hw.elim
    | some outcome => exact ⟨w', by rw [hw.1], hw.2.1⟩

/-- Opening leaves the sub-directories settled, and opening once more has the same
result and leaves them as they are. -/
theorem opening_again (he : Calm e) (hsub : Subdirs d) {w : World} (hlayout : Layout w.disk d) :
    ∃ outcome w₁ w₂, openWith c e f key w = (some outcome, w₁) ∧
      openWith c e f key w₁ = (some outcome, w₂) ∧ ∀ name,
        get w₁.disk [name] = settled c key d name ∧ get w₂.disk [name] = get w₁.disk [name] := by
  obtain ⟨w₁, hfirst, hlayout₁⟩ := openWith_returns (c := c) (f := f) he hsub hlayout
  obtain ⟨w₂, hagain, hlayout₂⟩ :=
    openWith_returns (c := c) (f := f) he (settled_subdirs hsub) hlayout₁
  obtain ⟨hsettled, hfound⟩ := settled_settled (c := c) (d := d)
  rw [opening, hfound, hsettled, ← opening] at hagain
  rw [hsettled] at hlayout₂
  exact ⟨_, w₁, w₂, hfirst, hagain, fun name => ⟨hlayout₁.entry name,
    (hlayout₂.entry name).trans (hlayout₁.entry name).symm⟩⟩

theorem opening_again_sample :
    ∃ w₁ w₂, openWith tagCipher calmEnv sampleFormat [1] sampleWorld = (some .opened, w₁) ∧
      openWith tagCipher calmEnv sampleFormat [1] w₁ = (some .opened, w₂) := by
  have hsub : Subdirs fun name => get sampleWorld.disk [name] := by
    rintro name node (rfl | rfl | rfl) hnode
    · obtain rfl := Option.some.inj (sampleWorld_start.encrypted.current.symm.trans hnode)
      exact orig_subdir sampleWorld_start.encrypted
    · cases hnode
    · cases hnode
  obtain ⟨outcome, w₁, w₂, hfirst, hagain, -⟩ :=
    opening_again calmEnv_calm hsub (start_layout sampleWorld_start)
  have hopened : (openWith tagCipher calmEnv sampleFormat [1] sampleWorld).1 = some .opened := by
    decide +kernel
  rw [hfirst] at hopened
  cases hopened
  exact ⟨w₁, w₂, hfirst, hagain⟩

end Again

end Meshlink.CrashRecovery
