import Meshlink.KeyRotation

/-!
Writing the main configuration. It is written to a temporary file that is then
renamed. Without a storage key the file is flushed before the rename; with one
its contents are still in the buffer of the stream then.
-/
namespace Meshlink.MainConfigWrite

open Commands FileTree Storage DirectoryCopy

def tmpPath (subdir : String) : Path := [subdir, "meshlink.conf.tmp"]

/-- The sub-directory, the open stream and the number of calls made so far. -/
structure At (subdir : String) (entries : Entries) (stream : Option (Path × Bytes)) (n : ℕ)
    (w : World) : Prop where
  dir : get w.disk [subdir] = some (.dir entries)
  stream : w.stream = stream
  ops : w.ops = n

section Calls

variable {e : Env} {subdir : String} {entries entries' : Entries}
  {stream stream' : Option (Path × Bytes)} {n : ℕ} {w : World}

theorem get_entry {disk : Tree} {name : String} (h : get disk [subdir] = some (.dir entries)) :
    get disk [subdir, name] = entries.lookup name :=
  get_child h

theorem hasParent_entry {disk : Tree} {name : String}
    (h : get disk [subdir] = some (.dir entries)) : hasParent disk [subdir, name] = true := by
  unfold hasParent
  rw [show [subdir, name].dropLast = [subdir] from rfl, h]
  rfl

theorem get_put_entry {disk : Tree} {name : String} {value : Option Tree}
    (h : get disk [subdir] = some (.dir entries)) :
    get (put disk [subdir, name] value) [subdir] = some (.dir (assign name value entries)) := by
  have hput : put disk ([subdir] ++ [name]) value =
      put disk [subdir] (some (put (.dir entries) [name] value)) :=
    put_append h (by simp) (by simp)
  change get (put disk ([subdir] ++ [name]) value) [subdir] = _
  rw [hput, get_put_self (room_of_get h (by simp))]
  rfl

/-- A call is followed by a crash or returns. -/
def Ends {α : Type} (e : Env) (n : ℕ) (op : Op) (x : Command World α) (r : α) (w : World)
    (subdir : String) (entries : Entries) (stream : Option (Path × Bytes)) : Prop :=
  ∃ w₁, At subdir entries stream (n + 1) w₁ ∧
    x w = if e.kills n op = true then (none, w₁) else (some r, w₁)

section Ends

variable {α β : Type} {op : Op} {x : Command World α} {f : α → Command World β} {r : α} {w' : World}

theorem Ends.bind {b : β} (h : Ends e n op x r w subdir entries stream)
    (hf : ∀ w, f r w = (some b, w)) : Ends e n op (x >>= f) b w subdir entries stream := by
  obtain ⟨w₁, hw₁, hx⟩ := h
  refine ⟨w₁, hw₁, ?_⟩
  split at hx
  case isTrue hkill =>
    rw [if_pos hkill]
    exact bind_of_none hx
  case isFalse hkill =>
    rw [if_neg hkill]
    exact (bind_of_some hx).trans (hf w₁)

/-- A crash in a program that starts with the call. -/
theorem Ends.crash (h : Ends e n op x r w subdir entries stream)
    (hrun : (x >>= f) w = (none, w')) :
    (e.kills n op = true ∧ At subdir entries stream (n + 1) w') ∨
      e.kills n op = false ∧ ∃ w₁, At subdir entries stream (n + 1) w₁ ∧ f r w₁ = (none, w') := by
  obtain ⟨w₁, hw₁, hx⟩ := h
  split at hx
  case isTrue hkill =>
    obtain ⟨-, rfl⟩ := Prod.mk.inj ((bind_of_none hx).symm.trans hrun)
    exact Or.inl ⟨hkill, hw₁⟩
  case isFalse hkill =>
    exact Or.inr ⟨eq_false_of_ne_true hkill, w₁, hw₁, (bind_of_some hx).symm.trans hrun⟩

theorem Ends.crashed (h : Ends e n op x r w subdir entries stream) (hrun : x w = (none, w')) :
    At subdir entries stream (n + 1) w' := by
  obtain ⟨w₁, hw₁, hx⟩ := h
  rw [hrun] at hx
  split at hx <;> cases hx
  exact hw₁

variable {unread : Entries} {effect : World → Except Errno (Unit × World)} {lost : World → World}

theorem ends_of_outcome {r : Except Errno Unit} (w₁ : World) (hw : w.ops = n)
    (houtcome : outcome e op unread effect lost w = (r, w₁))
    (hw₁ : At subdir entries stream (n + 1) w₁) :
    Ends e n op (syscall e op unread effect lost) r w subdir entries stream := by
  refine ⟨w₁, hw₁, ?_⟩
  unfold syscall
  rw [houtcome, hw]

/-- A call that does not fail. -/
theorem call_ends (hfails : e.fails n op = false) (hw : At subdir entries stream n w)
    (heffect : ∃ w₁, effect w = .ok ((), w₁) ∧ get w₁.disk [subdir] = some (.dir entries') ∧
      w₁.stream = stream') :
    Ends e n op (syscall e op unread effect lost) (.ok ()) w subdir entries' stream' := by
  obtain ⟨w₁, hrun, hdir, hstream⟩ := heffect
  refine ends_of_outcome {w₁ with ops := n + 1} hw.ops ?_ ⟨hdir, hstream, rfl⟩
  unfold outcome
  rw [hrun]
  simp only [hw.ops, hfails]
  rfl

/-- A call that cannot succeed changes nothing. -/
theorem call_error {errno : Errno} (hw : At subdir entries stream n w)
    (heffect : effect w = .error errno) :
    Ends e n op (syscall e op unread effect lost) (.error errno) w subdir entries stream := by
  refine ends_of_outcome {w with ops := n + 1} hw.ops ?_ ⟨hw.dir, hw.stream, rfl⟩
  unfold outcome
  rw [heffect, hw.ops]

theorem succeeds_ends (hfails : e.fails n op = false) (hw : At subdir entries stream n w)
    (heffect : ∃ w₁, effect w = .ok ((), w₁) ∧ get w₁.disk [subdir] = some (.dir entries') ∧
      w₁.stream = stream') :
    Ends e n op (succeeds (syscall e op unread effect lost)) true w subdir entries' stream' :=
  (call_ends hfails hw heffect).bind fun _ => rfl

end Ends

variable (hfails : ∀ n op, e.fails n op = false) {name : String}

include hfails

theorem fopen_ends (hw : At subdir entries stream n w)
    (hname : ∀ sub, entries.lookup name ≠ some (.dir sub)) :
    Ends e n ⟨.fopen, [subdir, name]⟩ (succeeds (fopenWrite e [subdir, name])) true w subdir
      (assign name (some (.file [])) entries) (some ([subdir, name], [])) := by
  refine succeeds_ends (hfails _ _) hw ⟨{w with
    disk := put w.disk [subdir, name] (some (.file []))
    stream := some ([subdir, name], [])}, ?_, get_put_entry hw.dir, rfl⟩
  rw [get_entry hw.dir]
  cases hlookup : entries.lookup name with
  | none => exact if_pos (hasParent_entry hw.dir)
  | some node =>
    cases node with
    | file data => exact if_pos (hasParent_entry hw.dir)
    | dir sub => exact absurd hlookup (hname sub)

variable {buffer : Bytes}

theorem fwrite_ends {path : Path} {data : Bytes} (hdata : data ≠ [])
    (hw : At subdir entries (some (path, buffer)) n w) :
    Ends e n ⟨.fwrite, path⟩ (succeeds (fwrite e path data)) true w subdir entries
      (some (path, buffer ++ data)) := by
  refine succeeds_ends (hfails _ _) hw ⟨{w with stream := some (path, buffer ++ data)}, ?_, hw.dir,
    rfl⟩
  have hempty : ¬ data.isEmpty = true := by simpa using hdata
  rw [if_neg hempty, hw.stream]
  rfl

omit hfails in
theorem flush_full {old : Bytes} (hw : At subdir entries (some ([subdir, name], buffer)) n w)
    (hfile : entries.lookup name = some (.file old)) :
    get (flush none w).disk [subdir] =
        some (.dir (assign name (some (.file (old ++ buffer))) entries)) ∧
      (flush none w).stream = some ([subdir, name], []) := by
  have hget : get w.disk [subdir, name] = some (.file old) := (get_entry hw.dir).trans hfile
  unfold flush
  simp only [hw.stream, appendTo, hget, Option.getD_none, List.take_length]
  exact ⟨get_put_entry hw.dir, trivial⟩

theorem fflush_ends {old : Bytes} (hw : At subdir entries (some ([subdir, name], buffer)) n w)
    (hfile : entries.lookup name = some (.file old)) :
    Ends e n ⟨.fflush, [subdir, name]⟩ (succeeds (fflush e [subdir, name])) true w subdir
      (assign name (some (.file (old ++ buffer))) entries) (some ([subdir, name], [])) :=
  succeeds_ends (hfails _ _) hw ⟨flush none w, rfl, flush_full hw hfile⟩

theorem fclose_ends {path : Path} {old : Bytes}
    (hw : At subdir entries (some ([subdir, name], buffer)) n w)
    (hfile : entries.lookup name = some (.file old)) :
    Ends e n ⟨.fclose, path⟩ (succeeds (fcloseWrite e path)) true w subdir
      (assign name (some (.file (old ++ buffer))) entries) none :=
  succeeds_ends (hfails _ _) hw
    ⟨_, rfl, (flush_full hw hfile).1, rfl⟩

theorem fsync_ends {path : Path} (hw : At subdir entries stream n w) :
    Ends e n ⟨.fsync, path⟩ (succeeds (inspect e .fsync path fun _ => .ok ())) true w subdir
      entries stream :=
  succeeds_ends (hfails _ _) hw ⟨w, rfl, hw.dir, hw.stream⟩

theorem rename_ends {target : String} {data : Bytes}
    (hw : At subdir entries (some ([subdir, name], buffer)) n w)
    (hfile : entries.lookup name = some (.file data))
    (htarget : ∀ sub, entries.lookup target ≠ some (.dir sub)) :
    Ends e n ⟨.rename, [subdir, name]⟩ (succeeds (rename e [subdir, name] [subdir, target])) true w
      subdir (assign target (some (.file data)) (assign name none entries))
      (some ([subdir, target], buffer)) := by
  have hget : get w.disk [subdir, name] = some (.file data) := (get_entry hw.dir).trans hfile
  have hreplace : mayReplace (.file data) (get w.disk [subdir, target]) = true := by
    rw [get_entry hw.dir]
    cases hlookup : entries.lookup target with
    | none => rfl
    | some node =>
      cases node with
      | file data => rfl
      | dir sub => exact absurd hlookup (htarget sub)
  refine succeeds_ends (hfails _ _) hw ⟨{w with
    disk := put (put w.disk [subdir, name] none) [subdir, target] (some (.file data))
    stream := follow [subdir, name] [subdir, target] w.stream
    renamed := w.renamed ++ [[subdir, name]]}, ?_, get_put_entry (get_put_entry hw.dir), ?_⟩
  · rw [hget]
    simp only [hreplace, hasParent_entry hw.dir]
    rfl
  · rw [hw.stream]
    simp [follow]

end Calls

section Crashes

variable {c : Cipher} {e : Env} {subdir : String} {entries : Entries}
  {stream : Option (Path × Bytes)} {n : ℕ} {w w' : World} {config key : Bytes}

/-- The crash comes between the rename and the end of fclose. -/
def KilledAfterRename (e : Env) (subdir : String) (n : ℕ) : Prop :=
  e.kills n ⟨.fopen, tmpPath subdir⟩ = false ∧ e.kills (n + 1) ⟨.fwrite, tmpPath subdir⟩ = false ∧
    e.kills (n + 2) ⟨.fwrite, tmpPath subdir⟩ = false ∧
      e.kills (n + 3) ⟨.rename, tmpPath subdir⟩ = true

theorem not_killed_of_true {a b c d : Bool} (h : a = true ∨ b = true ∨ c = true ∨ d = false) :
    ¬ (a = false ∧ b = false ∧ c = false ∧ d = true) := by
  intro hall
  obtain ⟨ha, hb, hc, hd⟩ := hall
  rw [ha, hb, hc, hd] at h
  simp at h

variable (hfails : ∀ n op, e.fails n op = false) (hw : At subdir entries stream n w)
  (hmain : ∀ sub, entries.lookup "meshlink.conf" ≠ some (.dir sub))
  (htmp : ∀ sub, entries.lookup "meshlink.conf.tmp" ≠ some (.dir sub))

include hfails

/-- Sealing the contents: nothing reaches the disk yet. -/
theorem sealing_crash {f : Bool → Command World Bool}
    (hw : At subdir entries (some (tmpPath subdir, [])) n w)
    (hrun : (configWriteFile c e (tmpPath subdir) config (some key) >>= f) w = (none, w')) :
    ((e.kills n ⟨.fwrite, tmpPath subdir⟩ = true ∨
        e.kills (n + 1) ⟨.fwrite, tmpPath subdir⟩ = true) ∧
        ∃ stream' n', At subdir entries stream' n' w') ∨
      e.kills n ⟨.fwrite, tmpPath subdir⟩ = false ∧
        e.kills (n + 1) ⟨.fwrite, tmpPath subdir⟩ = false ∧ ∃ w₁ data, Sealed c key data config ∧
          At subdir entries (some (tmpPath subdir, data)) (n + 2) w₁ ∧ f true w₁ = (none, w') := by
  have hnonce : (e.nonce n).toList.length = 12 := by simp
  have hnonce' : (e.nonce n).toList ≠ [] := by
    intro hnil
    rw [hnil] at hnonce
    cases hnonce
  have hbody : c.encrypt key (e.nonce n).toList config ≠ [] := by
    intro hnil
    have hlen := c.encrypt_length key (e.nonce n).toList config
    rw [hnil] at hlen
    simp at hlen
  rw [configWriteFile, bind_assoc, gets_bind, hw.ops, bind_assoc] at hrun
  rcases (fwrite_ends hfails hnonce' hw).crash hrun with ⟨hkill, hw'⟩ | ⟨hkill, w₁, hw₁, hrun⟩
  · exact Or.inl ⟨Or.inl hkill, _, _, hw'⟩
  rcases (fwrite_ends hfails hbody hw₁).crash hrun with ⟨hkill', hw'⟩ | ⟨hkill', w₂, hw₂, hrun⟩
  · exact Or.inl ⟨Or.inr hkill', _, _, hw'⟩
  · exact Or.inr ⟨hkill, hkill', w₂, _, ⟨_, hnonce, rfl⟩, hw₂, hrun⟩

include hw hmain htmp

/-- What a crash can leave of the main configuration when there is a key. -/
theorem keyed_crash (hrun : mainConfigWrite c e subdir config (some key) w = (none, w')) :
    (¬ KilledAfterRename e subdir n ∧
        get w'.disk (mainPath subdir) = get w.disk (mainPath subdir)) ∨
      (KilledAfterRename e subdir n ∧ get w'.disk (mainPath subdir) = some (.file [])) ∨
        ¬ KilledAfterRename e subdir n ∧ ∃ data,
          get w'.disk (mainPath subdir) = some (.file data) ∧ Sealed c key data config := by
  have hold : get w.disk (mainPath subdir) = entries.lookup "meshlink.conf" := get_entry hw.dir
  rw [hold]
  unfold mainConfigWrite at hrun
  rcases (fopen_ends hfails hw htmp).crash hrun with ⟨hkill, hw'⟩ | ⟨hkill₀, w₁, hw₁, hrun⟩
  · refine Or.inl ⟨not_killed_of_true (Or.inl hkill), ?_⟩
    exact (get_entry hw'.dir).trans (lookup_assign_ne (by decide))
  rcases sealing_crash hfails hw₁ hrun with
    ⟨hkill, _, _, hw'⟩ | ⟨hkill₁, hkill₂, w₂, data, hsealed, hw₂, hrun⟩
  · refine Or.inl ⟨not_killed_of_true (Or.inr (hkill.imp_right Or.inl)), ?_⟩
    exact (get_entry hw'.dir).trans (lookup_assign_ne (by decide))
  have hmain₂ : ∀ sub, (assign "meshlink.conf.tmp" (some (.file [])) entries).lookup
      "meshlink.conf" ≠ some (.dir sub) := by
    intro sub
    rw [lookup_assign_ne (by decide)]
    exact hmain sub
  rcases (rename_ends hfails hw₂ lookup_assign_self hmain₂).crash hrun with
    ⟨hkill₃, hw'⟩ | ⟨hkill₃, w₃, hw₃, hrun⟩
  · refine Or.inr (Or.inl ⟨⟨hkill₀, hkill₁, hkill₂, hkill₃⟩, ?_⟩)
    exact (get_entry hw'.dir).trans lookup_assign_self
  · have hw' := (fclose_ends hfails hw₃ lookup_assign_self).crashed hrun
    refine Or.inr (Or.inr ⟨not_killed_of_true (Or.inr (Or.inr (Or.inr hkill₃))), data, ?_, hsealed⟩)
    exact (get_entry hw'.dir).trans lookup_assign_self

omit hw hmain htmp

/-- Without a key the contents are on the disk when the write returns. -/
theorem flushing_crash {f : Bool → Command World Bool}
    (hw : At subdir entries (some (tmpPath subdir, [])) n w)
    (hfile : entries.lookup "meshlink.conf.tmp" = some (.file [])) (hconfig : config ≠ [])
    (hrun : (configWriteFile c e (tmpPath subdir) config none >>= f) w = (none, w')) :
    ∃ w₁ entries' stream' n', At subdir entries' stream' n' w₁ ∧
      entries'.lookup "meshlink.conf" = entries.lookup "meshlink.conf" ∧
        (w₁ = w' ∨ f true w₁ = (none, w') ∧ stream' = some (tmpPath subdir, []) ∧
          entries'.lookup "meshlink.conf.tmp" = some (.file config)) := by
  rw [configWriteFile, bind_assoc] at hrun
  rcases (fwrite_ends hfails hconfig hw).crash hrun with ⟨-, hw'⟩ | ⟨-, w₁, hw₁, hrun⟩
  · exact ⟨w', _, _, _, hw', rfl, Or.inl rfl⟩
  replace hrun := (congrFun (bind_assoc _ _ _) w₁).symm.trans hrun
  rcases (fflush_ends hfails hw₁ hfile).crash hrun with ⟨-, hw'⟩ | ⟨-, w₂, hw₂, hrun⟩
  · exact ⟨w', _, _, _, hw', lookup_assign_ne (by decide), Or.inl rfl⟩
  rcases (fsync_ends hfails hw₂).crash hrun with ⟨-, hw'⟩ | ⟨-, w₃, hw₃, hrun⟩
  · exact ⟨w', _, _, _, hw', lookup_assign_ne (by decide), Or.inl rfl⟩
  · exact ⟨w₃, _, _, _, hw₃, lookup_assign_ne (by decide), Or.inr ⟨hrun, rfl, lookup_assign_self⟩⟩

omit hfails in
/-- Empty contents cannot be written. -/
theorem plain_empty (hw : At subdir entries (some (tmpPath subdir, [])) n w) :
    Ends e n ⟨.fwrite, tmpPath subdir⟩ (configWriteFile c e (tmpPath subdir) [] none) false w
      subdir entries (some (tmpPath subdir, [])) := by
  have hwrite : Ends e n _ (fwrite e (tmpPath subdir) []) (.error .other) w subdir entries _ :=
    call_error hw rfl
  exact (hwrite.bind fun _ => rfl).bind fun _ => rfl

include hw hmain htmp

/-- A crash leaves the old contents or the new ones when there is no key. -/
theorem plain_crash (hrun : mainConfigWrite c e subdir config none w = (none, w')) :
    get w'.disk (mainPath subdir) = get w.disk (mainPath subdir) ∨
      get w'.disk (mainPath subdir) = some (.file config) := by
  have hold : get w.disk (mainPath subdir) = entries.lookup "meshlink.conf" := get_entry hw.dir
  rw [hold]
  unfold mainConfigWrite at hrun
  rcases (fopen_ends hfails hw htmp).crash hrun with ⟨-, hw'⟩ | ⟨-, w₁, hw₁, hrun⟩
  · exact Or.inl ((get_entry hw'.dir).trans (lookup_assign_ne (by decide)))
  by_cases hconfig : config = []
  · subst hconfig
    rcases (plain_empty hw₁).crash hrun with ⟨-, hw'⟩ | ⟨-, w₂, hw₂, hrun⟩
    · exact Or.inl ((get_entry hw'.dir).trans (lookup_assign_ne (by decide)))
    have hclose : Ends e _ ⟨.fclose, tmpPath subdir⟩ (fcloseWrite e (tmpPath subdir)) _ w₂ subdir
        _ none :=
      call_ends (hfails _ _) hw₂ ⟨_, rfl, (flush_full hw₂ lookup_assign_self).1, rfl⟩
    rcases hclose.crash hrun with ⟨-, hw'⟩ | ⟨-, w₃, -, hrun⟩
    · refine Or.inl ((get_entry hw'.dir).trans ?_)
      rw [lookup_assign_ne (by decide), lookup_assign_ne (by decide)]
    · cases hrun
  obtain ⟨w₂, entries₂, stream₂, n₂, hw₂, hkept, rfl | ⟨hrun, rfl, hfile⟩⟩ :=
    flushing_crash hfails hw₁ lookup_assign_self hconfig hrun
  · exact Or.inl ((get_entry hw₂.dir).trans (hkept.trans (lookup_assign_ne (by decide))))
  have hmain₂ : ∀ sub, entries₂.lookup "meshlink.conf" ≠ some (.dir sub) := by
    intro sub
    rw [hkept, lookup_assign_ne (by decide)]
    exact hmain sub
  rcases (rename_ends hfails hw₂ hfile hmain₂).crash hrun with ⟨-, hw'⟩ | ⟨-, w₃, hw₃, hrun⟩
  · exact Or.inr ((get_entry hw'.dir).trans lookup_assign_self)
  · have hw' := (fclose_ends hfails hw₃ lookup_assign_self).crashed hrun
    refine Or.inr ((get_entry hw'.dir).trans (lookup_assign_self.trans ?_))
    rw [List.append_nil]

end Crashes

/-- The file holds the old contents or all of the new ones. -/
def Complete (c : Cipher) (key : Option Bytes) (config : Bytes) (subdir : String) (w w' : World) :
    Prop :=
  get w'.disk (mainPath subdir) = get w.disk (mainPath subdir) ∨
    ∃ data, fileAt w'.disk (mainPath subdir) = some data ∧
      match key with
      | none => data = config
      | some key => Sealed c key data config

/-- A crash after any call while the main configuration is written. -/
theorem write_complete_iff {c : Cipher} {e : Env} {subdir : String} {entries : Entries}
    {config : Bytes} {key : Option Bytes} {w w' : World}
    (hdir : get w.disk [subdir] = some (.dir entries))
    (hmain : ∀ sub, entries.lookup "meshlink.conf" ≠ some (.dir sub))
    (htmp : ∀ sub, entries.lookup "meshlink.conf.tmp" ≠ some (.dir sub))
    (hfails : ∀ n op, e.fails n op = false)
    (hrun : mainConfigWrite c e subdir config key w = (none, w')) :
    Complete c key config subdir w w' ↔
      key = none ∨ fileAt w.disk (mainPath subdir) = some [] ∨
        ¬ KilledAfterRename e subdir w.ops := by
  have hw : At subdir entries w.stream w.ops w := ⟨hdir, rfl, rfl⟩
  have hfile (w : World) (data : Bytes) (h : get w.disk (mainPath subdir) = some (.file data)) :
      fileAt w.disk (mainPath subdir) = some data := by
    unfold fileAt
    rw [h]
  cases key with
  | none =>
    refine iff_of_true ?_ (Or.inl rfl)
    rcases plain_crash hfails hw hmain htmp hrun with hold | hnew
    · exact Or.inl hold
    · exact Or.inr ⟨config, hfile w' config hnew, rfl⟩
  | some key =>
    rcases keyed_crash hfails hw hmain htmp hrun with
      ⟨hkill, hold⟩ | ⟨hkill, hempty⟩ | ⟨hkill, data, hnew, hsealed⟩
    · exact iff_of_true (Or.inl hold) (Or.inr (Or.inr hkill))
    · constructor
      · intro hcomplete
        rcases hcomplete with hold | ⟨data, hdata, hsealed⟩
        · exact Or.inr (Or.inl (hfile w [] (hold.symm.trans hempty)))
        rw [hfile w' [] hempty] at hdata
        cases hdata
        have hlen := hsealed.length
        rw [List.length_nil] at hlen
        omega
      · intro hcond
        rcases hcond with hnone | hold | hkill'
        · cases hnone
        · exact Or.inl (hempty.trans (get_of_fileAt hold).symm)
        · exact absurd hkill hkill'
    · exact iff_of_true (Or.inr ⟨data, hfile w' data hnew, hsealed⟩) (Or.inr (Or.inr hkill))

section Sample

open KeyRotation

def crashAt (op : Op) : Env := envWith (fun _ => false) fun _ op' => op' == op

theorem sampleWorld_dir :
    ∃ entries, get sampleWorld.disk ["current"] = some (.dir entries) ∧
      (∀ sub, entries.lookup "meshlink.conf" ≠ some (.dir sub)) ∧
        ∀ sub, entries.lookup "meshlink.conf.tmp" ≠ some (.dir sub) := by
  refine ⟨_, rfl, fun sub h => ?_, fun sub h => ?_⟩
  · cases h
  · cases h

/-- A crash after the file was closed. -/
theorem write_complete_closed :
    let e := crashAt ⟨.fclose, tmpPath "current"⟩
    let result := mainConfigWrite tagCipher e "current" [2, 98] (some [1]) sampleWorld
    result.1 = none ∧ Complete tagCipher (some [1]) [2, 98] "current" sampleWorld result.2 := by
  intro e result
  obtain ⟨entries, hdir, hmain, htmp⟩ := sampleWorld_dir
  have hrun : mainConfigWrite tagCipher e "current" [2, 98] (some [1]) sampleWorld =
      (none, result.2) := Prod.ext (by decide +kernel) rfl
  refine ⟨by decide +kernel, (write_complete_iff hdir hmain htmp (fun _ _ => rfl) hrun).mpr ?_⟩
  exact Or.inr (Or.inr fun hkilled => absurd hkilled.2.2.2 (by decide))

/-- A crash after the rename: the file is empty. -/
theorem write_leaves_empty_file :
    let e := crashAt ⟨.rename, tmpPath "current"⟩
    let result := mainConfigWrite tagCipher e "current" [2, 98] (some [1]) sampleWorld
    result.1 = none ∧ ¬ Complete tagCipher (some [1]) [2, 98] "current" sampleWorld result.2 := by
  intro e result
  have hempty : fileAt result.2.disk (mainPath "current") = some [] := by decide +kernel
  have hold : fileAt sampleWorld.disk (mainPath "current") ≠ some [] := by decide +kernel
  refine ⟨by decide +kernel, fun hcomplete => ?_⟩
  rcases hcomplete with hsame | ⟨data, hdata, hsealed⟩
  · refine hold ?_
    unfold fileAt at hempty ⊢
    rw [← hsame]
    exact hempty
  · rw [hempty] at hdata
    cases hdata
    have hlen := hsealed.length
    rw [List.length_nil] at hlen
    omega

end Sample

end Meshlink.MainConfigWrite
