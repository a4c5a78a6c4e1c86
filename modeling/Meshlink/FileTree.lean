import Mathlib

/-!
Trees of files and directories, with names and contents of any type. A node is
reached by the path of names that leads to it, and a change at a path leaves
everything alone that is not above or below that path.
-/
namespace Meshlink.FileTree

open List

inductive Node (α β : Type)
  | file (data : β)
  | dir (entries : List (α × Node α β))

variable {α β : Type}

mutual

/-- How deeply directories are nested. -/
def Node.height : Node α β → ℕ
  | .file _ => 0
  | .dir entries => heights entries + 1

def heights : List (α × Node α β) → ℕ
  | [] => 0
  | (_, node) :: entries => max node.height (heights entries)

end

theorem height_dir (entries : List (α × Node α β)) :
    (Node.dir entries).height = heights entries + 1 := by
  rw [Node.height]

variable [DecidableEq α]

/-- Give a name a new meaning, or none. -/
def assign (name : α) (value : Option (Node α β)) (entries : List (α × Node α β)) :
    List (α × Node α β) :=
  entries.filter (fun entry => entry.1 ≠ name) ++ value.toList.map fun node => (name, node)

def get : Node α β → List α → Option (Node α β)
  | node, [] => some node
  | .file _, _ :: _ => none
  | .dir entries, name :: rest =>
    match entries.lookup name with
    | none => none
    | some child => get child rest

/-- Replace or remove what a path leads to; the root itself stays. -/
def put : Node α β → List α → Option (Node α β) → Node α β
  | node, [], _ => node
  | .file data, _ :: _, _ => .file data
  | .dir entries, name :: rest, value =>
    .dir (assign name (if rest = [] then value
      else (entries.lookup name).map fun child => put child rest value) entries)

def fileAt (node : Node α β) (path : List α) : Option β :=
  match get node path with
  | some (.file data) => some data
  | _ => none

/-- The path leads to an entry of a directory, present or not. -/
def Room (node : Node α β) (path : List α) : Prop :=
  ∃ parent name entries, path = parent ++ [name] ∧ get node parent = some (.dir entries)

/-- No directory has two entries of one name. -/
def Proper (node : Node α β) : Prop :=
  ∀ path entries, get node path = some (.dir entries) → (entries.map Prod.fst).Nodup

section Entries

variable {name other : α} {value value' : Option (Node α β)} {node : Node α β}
  {entries : List (α × Node α β)}

theorem lookup_eq_none_iff : entries.lookup name = none ↔ name ∉ entries.map Prod.fst := by
  rw [List.lookup_eq_none_iff]
  constructor
  · intro hall hmem
    obtain ⟨entry, hentry, rfl⟩ := mem_map.mp hmem
    exact bne_iff_ne.mp (hall entry hentry) rfl
  · intro hnot entry hentry
    exact bne_iff_ne.mpr fun heq => hnot (heq ▸ mem_map_of_mem hentry)

theorem lookup_filter_self : (entries.filter fun entry => entry.1 ≠ name).lookup name = none :=
  lookup_eq_none_iff.mpr (by simp)

theorem lookup_filter_ne (h : name ≠ other) :
    (entries.filter fun entry => entry.1 ≠ name).lookup other = entries.lookup other := by
  induction entries with
  | nil => rfl
  | cons entry entries ih =>
    obtain ⟨first, node⟩ := entry
    by_cases hname : first = name
    · subst hname
      rw [filter_cons_of_neg (by simp), lookup_cons, ih, beq_false_of_ne h.symm]
    · rw [filter_cons_of_pos (by simp [hname]), lookup_cons, lookup_cons, ih]

theorem lookup_assign_self : (assign name value entries).lookup name = value := by
  rw [assign, lookup_append, lookup_filter_self]
  cases value with
  | none => rfl
  | some node => simp

theorem lookup_assign_ne (h : name ≠ other) :
    (assign name value entries).lookup other = entries.lookup other := by
  rw [assign, lookup_append, lookup_filter_ne h]
  cases value with
  | none => simp
  | some node => simp [lookup_cons, beq_false_of_ne h.symm]

theorem assign_assign :
    assign name value (assign name value' entries) = assign name value entries := by
  unfold assign
  rw [filter_append, filter_filter]
  cases value' with
  | none => simp
  | some node => simp

end Entries

section Paths

variable {node : Node α β} {value value' : Option (Node α β)}

theorem get_append (node : Node α β) (path path' : List α) :
    get node (path ++ path') = (get node path).bind fun child => get child path' := by
  induction path generalizing node with
  | nil => rfl
  | cons name rest ih =>
    cases node with
    | file data => rfl
    | dir entries =>
      simp only [cons_append, get]
      cases entries.lookup name with
      | none => rfl
      | some child => exact ih child

variable {path path' : List α} {child node' node'' : Node α β} {entries : List (α × Node α β)}

theorem get_child {name : α} (h : get node path = some (.dir entries)) :
    get node (path ++ [name]) = entries.lookup name := by
  rw [get_append, h]
  simp only [Option.bind_some, get]
  cases entries.lookup name with
  | none => rfl
  | some child => rfl

theorem room_child (name : α) (h : get node path = some (.dir entries)) :
    Room node (path ++ [name]) :=
  ⟨path, name, entries, rfl, h⟩

/-- What was put somewhere is there. -/
theorem get_put_self (h : Room node path) : get (put node path value) path = value := by
  obtain ⟨parent, name, entries, rfl, hparent⟩ := h
  induction parent generalizing node with
  | nil =>
    cases hparent
    simp only [nil_append, put, get, lookup_assign_self, if_true]
    cases value with
    | none => rfl
    | some child => rfl
  | cons first parent ih =>
    cases node with
    | file data => cases hparent
    | dir others =>
      simp only [get] at hparent
      cases hchild : others.lookup first with
      | none =>
        rw [hchild] at hparent
        cases hparent
      | some child =>
        rw [hchild] at hparent
        have hrest : parent ++ [name] ≠ [] := by simp
        simp only [cons_append, put, if_neg hrest, get, lookup_assign_self, hchild,
          Option.map_some]
        exact ih hparent

theorem put_put_self (node : Node α β) (path : List α) :
    put (put node path value') path value = put node path value := by
  induction path generalizing node with
  | nil => rfl
  | cons name rest ih =>
    cases node with
    | file data => rfl
    | dir entries =>
      simp only [put, lookup_assign_self, assign_assign]
      by_cases hrest : rest = []
      · simp only [if_pos hrest]
      simp only [if_neg hrest, Option.map_map]
      congr 3
      funext child
      exact ih child

/-- A change below a node is a change of that node. -/
theorem put_append (h : get node path = some child) (hpath : path ≠ []) (hpath' : path' ≠ []) :
    put node (path ++ path') value = put node path (some (put child path' value)) := by
  induction path generalizing node with
  | nil => exact absurd rfl hpath
  | cons name rest ih =>
    cases node with
    | file data => cases h
    | dir entries =>
      have hboth : rest ++ path' ≠ [] := by simp [hpath']
      simp only [get] at h
      cases hfirst : entries.lookup name with
      | none =>
        rw [hfirst] at h
        cases h
      | some first =>
        rw [hfirst] at h
        simp only [cons_append, put, hfirst, if_neg hboth, Option.map_some]
        by_cases hrest : rest = []
        · subst hrest
          cases h
          simp only [nil_append, if_true]
        · simp only [if_neg hrest]
          rw [ih h hrest]

theorem room_of_get (h : get node path = some child) (hpath : path ≠ []) : Room node path := by
  obtain ⟨parent, name, rfl⟩ : ∃ parent name, path = parent ++ [name] :=
    ⟨path.dropLast, path.getLast hpath, (dropLast_append_getLast hpath).symm⟩
  rw [get_append] at h
  cases hparent : get node parent with
  | none =>
    rw [hparent] at h
    cases h
  | some middle =>
    rw [hparent] at h
    cases middle with
    | file data => cases h
    | dir entries => exact ⟨parent, name, entries, rfl, hparent⟩

/-- Two paths that part at their first name. -/
theorem get_put_of_ne {first first' : α} (h : first ≠ first') (path path' : List α) :
    get (put node (first :: path) value) (first' :: path') = get node (first' :: path') := by
  cases node with
  | file data => rfl
  | dir entries => simp only [put, get, lookup_assign_ne h]

/-- `node'` differs from `node` at most in what the path leads to. -/
def Near (node : Node α β) (path : List α) (node' : Node α β) : Prop :=
  node' = node ∨ ∃ value, node' = put node path value

theorem Near.put_self (h : Near node path node') : put node' path value = put node path value := by
  rcases h with rfl | ⟨value', rfl⟩
  · rfl
  · exact put_put_self node path

theorem Near.put_below (h : Near node path node') (hget : get node' path = some child)
    (hpath : path ≠ []) (hpath' : path' ≠ []) :
    put node' (path ++ path') value = put node path (some (put child path' value)) := by
  rw [put_append hget hpath hpath', h.put_self]

theorem Near.get_of_ne {first first' : α} (h : Near node (first :: path) node')
    (hne : first ≠ first') (path' : List α) :
    get node' (first' :: path') = get node (first' :: path') := by
  rcases h with rfl | ⟨value, rfl⟩
  · rfl
  · exact get_put_of_ne hne path path'

theorem Near.trans_below (h : Near node path node') (h' : Near node' (path ++ path') node'')
    (hget : get node' (path ++ path') = some child) (hpath : path ≠ []) (hpath' : path' ≠ []) :
    Near node path node'' := by
  rcases h' with rfl | ⟨value, rfl⟩
  · exact h
  rw [get_append] at hget
  cases hmiddle : get node' path with
  | none =>
    rw [hmiddle] at hget
    cases hget
  | some middle => exact Or.inr ⟨_, h.put_below hmiddle hpath hpath'⟩

def Node.contents : Node α β → Option β
  | .file data => some data
  | .dir _ => none

/-- Everything in `node'` is in `node` too, with the same contents if it is a file. -/
def Within (node node' : Node α β) : Prop :=
  ∀ path child', get node' path = some child' →
    ∃ child, get node path = some child ∧ child.contents = child'.contents

theorem Within.refl (node : Node α β) : Within node node := fun _ child' h => ⟨child', h, rfl⟩

theorem Within.trans (h : Within node node') (h' : Within node' node'') : Within node node'' := by
  intro path child'' hchild''
  obtain ⟨child', hchild', hkind'⟩ := h' path child'' hchild''
  obtain ⟨child, hchild, hkind⟩ := h path child' hchild'
  exact ⟨child, hchild, hkind.trans hkind'⟩

theorem within_put_none (node : Node α β) (path : List α) : Within node (put node path none) := by
  induction path generalizing node with
  | nil => exact Within.refl node
  | cons name rest ih =>
    cases node with
    | file data => exact Within.refl _
    | dir entries =>
      intro path' child' h
      cases path' with
      | nil =>
        cases h
        exact ⟨.dir entries, rfl, rfl⟩
      | cons other rest' =>
        by_cases hname : name = other
        · subst hname
          simp only [put, get, lookup_assign_self] at h ⊢
          by_cases hrest : rest = []
          · rw [if_pos hrest] at h
            cases h
          rw [if_neg hrest] at h
          cases hold : entries.lookup name with
          | none =>
            rw [hold] at h
            cases h
          | some old =>
            rw [hold] at h
            exact ih old rest' child' h
        · simp only [put, get, lookup_assign_ne hname] at h ⊢
          exact ⟨child', h, rfl⟩

theorem get_of_fileAt {data : β} (h : fileAt node path = some data) :
    get node path = some (.file data) := by
  unfold fileAt at h
  split at h
  · cases h
    assumption
  · cases h

theorem fileAt_of_within {data : β} (h : Within node node')
    (hdata : fileAt node' path = some data) :
    fileAt node path = some data := by
  obtain ⟨child, hchild, hcontents⟩ := h path _ (get_of_fileAt hdata)
  unfold fileAt
  cases child with
  | dir entries => cases hcontents
  | file data' =>
    cases hcontents
    rw [hchild]

theorem fileAt_cons (entries : List (α × Node α β)) (name : α) (rest : List α) :
    fileAt (.dir entries) (name :: rest) =
      (entries.lookup name).bind fun child => fileAt child rest := by
  unfold fileAt
  simp only [get]
  cases entries.lookup name with
  | none => rfl
  | some child => rfl

theorem fileAt_append_of_get (rest : List α) (h : get node path = some child) :
    fileAt node (path ++ rest) = fileAt child rest := by
  unfold fileAt
  rw [get_append, h]
  rfl

theorem fileAt_append_of_none (rest : List α) (h : get node path = none) :
    fileAt node (path ++ rest) = none := by
  unfold fileAt
  rw [get_append, h]
  rfl

/-- A change at a path leaves the files alone that are not below it. -/
theorem fileAt_put_of_not (h : ¬ path <+: path') :
    fileAt (put node path value) path' = fileAt node path' := by
  induction path generalizing node path' with
  | nil => exact absurd nil_prefix h
  | cons name rest ih =>
    cases node with
    | file data => rfl
    | dir entries =>
      cases path' with
      | nil => rfl
      | cons other rest' =>
        rw [put, fileAt_cons, fileAt_cons]
        by_cases hname : name = other
        · subst hname
          have hrest : ¬ rest <+: rest' := fun hrest => h ((prefix_cons_inj name).mpr hrest)
          have hne : rest ≠ [] := fun hnil => hrest (hnil ▸ nil_prefix)
          rw [lookup_assign_self, if_neg hne]
          cases entries.lookup name with
          | none => rfl
          | some child => exact ih hrest
        · rw [lookup_assign_ne hname]

theorem height_le_of_lookup {name : α} (h : entries.lookup name = some child) :
    child.height ≤ heights entries := by
  induction entries with
  | nil => cases h
  | cons entry entries ih =>
    obtain ⟨first, node⟩ := entry
    rw [lookup_cons] at h
    unfold heights
    cases hname : name == first with
    | true =>
      rw [hname] at h
      cases h
      exact Nat.le_max_left _ _
    | false =>
      rw [hname] at h
      exact (ih h).trans (Nat.le_max_right _ _)

/-- A node is higher than what is in it. -/
theorem height_lt_of_get (h : get node path = some child) (hpath : path ≠ []) :
    child.height < node.height := by
  induction path generalizing node with
  | nil => exact absurd rfl hpath
  | cons name rest ih =>
    cases node with
    | file data => cases h
    | dir entries =>
      simp only [get] at h
      rw [height_dir]
      cases hfirst : entries.lookup name with
      | none =>
        rw [hfirst] at h
        cases h
      | some first =>
        rw [hfirst] at h
        have hfirst' := height_le_of_lookup hfirst
        by_cases hrest : rest = []
        · subst hrest
          cases h
          omega
        · have hlt := ih h hrest
          omega

theorem proper_child (hproper : Proper node) (h : get node path = some child) : Proper child := by
  intro path' entries hentries
  refine hproper (path ++ path') entries ?_
  rw [get_append, h]
  exact hentries

theorem nodup_assign {name : α} (h : (entries.map Prod.fst).Nodup) :
    ((assign name value entries).map Prod.fst).Nodup := by
  rw [assign, map_append, nodup_append]
  refine ⟨?_, ?_, ?_⟩
  · exact h.sublist (List.Sublist.map _ filter_sublist)
  · cases value with
    | none => exact nodup_nil
    | some child => simp
  rintro other hother other' hother' rfl
  obtain ⟨entry, hentry, rfl⟩ := mem_map.mp hother
  have hne := of_decide_eq_true (mem_filter.mp hentry).2
  cases value with
  | none => cases hother'
  | some child => exact hne (mem_singleton.mp hother')

theorem proper_dir :
    Proper (.dir entries) ↔ (entries.map Prod.fst).Nodup ∧
      ∀ name child, entries.lookup name = some child → Proper child := by
  constructor
  · intro h
    refine ⟨h [] entries rfl, fun name child hchild => ?_⟩
    have hget : get (.dir entries) [name] = some child := by
      simp only [get, hchild]
    exact proper_child h hget
  · rintro ⟨hnodup, hchildren⟩ path entries' hentries
    cases path with
    | nil =>
      cases hentries
      exact hnodup
    | cons name rest =>
      simp only [get] at hentries
      cases hchild : entries.lookup name with
      | none =>
        rw [hchild] at hentries
        cases hentries
      | some child =>
        rw [hchild] at hentries
        exact hchildren name child hchild rest entries' hentries

theorem proper_put (h : Proper node) (hvalue : ∀ child, value = some child → Proper child) :
    Proper (put node path value) := by
  induction path generalizing node with
  | nil => exact h
  | cons name rest ih =>
    cases node with
    | file data => exact h
    | dir entries =>
      obtain ⟨hnodup, hchildren⟩ := proper_dir.mp h
      refine proper_dir.mpr ⟨nodup_assign hnodup, fun other child hchild => ?_⟩
      by_cases hname : name = other
      · subst hname
        rw [lookup_assign_self] at hchild
        split at hchild
        · exact hvalue child hchild
        · obtain ⟨old, hold, rfl⟩ := Option.map_eq_some_iff.mp hchild
          exact ih (hchildren name old hold)
      · rw [lookup_assign_ne hname] at hchild
        exact hchildren other child hchild

/-- A part of what is at a path has been removed. -/
structure Pruned (node : Node α β) (path : List α) (node' : Node α β) : Prop where
  near : Near node path node'
  proper : Proper node'
  within : Within node node'

theorem Pruned.refl (h : Proper node) : Pruned node path node := ⟨Or.inl rfl, h, Within.refl node⟩

theorem Pruned.remove (h : Pruned node path node') : Pruned node path (put node' path none) :=
  ⟨Or.inr ⟨none, h.near.put_self⟩, proper_put h.proper nofun,
    h.within.trans (within_put_none node' path)⟩

theorem Pruned.trans (h : Pruned node path node') (h' : Pruned node' path node'') :
    Pruned node path node'' := by
  refine ⟨?_, h'.proper, h.within.trans h'.within⟩
  rcases h'.near with rfl | ⟨value, rfl⟩
  · exact h.near
  · exact Or.inr ⟨value, h.near.put_self⟩

theorem Pruned.trans_below (h : Pruned node path node') (h' : Pruned node' (path ++ path') node'')
    (hget : get node' (path ++ path') = some child) (hpath : path ≠ []) (hpath' : path' ≠ []) :
    Pruned node path node'' :=
  ⟨h.near.trans_below h'.near hget hpath hpath', h'.proper, h.within.trans h'.within⟩

end Paths

end Meshlink.FileTree
