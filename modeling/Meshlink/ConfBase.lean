import Meshlink.TreeCopy

/-!
The configuration base as a table of its entries. Removing or renaming a
sub-directory changes the table in one or two places.
-/
namespace Meshlink.ConfBase

open Commands FileTree Storage StorageRules DirectoryRemoval

/-- The entries at the top of a disk. -/
structure Layout (disk : Tree) (d : String → Option Tree) : Prop where
  top : ∃ entries, disk = .dir entries
  proper : Proper disk
  entry : ∀ name, get disk [name] = d name

section Tables

variable {disk disk' : Tree} {d : String → Option Tree} {name : String} {value : Option Tree}

theorem Layout.room (h : Layout disk d) (name : String) : Room disk [name] := by
  obtain ⟨entries, rfl⟩ := h.top
  exact ⟨[], name, entries, rfl, rfl⟩

theorem Layout.put (h : Layout disk d) (hvalue : ∀ node, value = some node → Proper node) :
    Layout (put disk [name] value) (Function.update d name value) := by
  refine ⟨?_, proper_put h.proper hvalue, fun other => ?_⟩
  · obtain ⟨entries, rfl⟩ := h.top
    exact ⟨_, rfl⟩
  by_cases hother : other = name
  · subst hother
    rw [get_put_self (h.room other), Function.update_self]
  · rw [get_put_of_ne (Ne.symm hother), Function.update_of_ne hother]
    exact h.entry other

theorem Layout.near (h : Layout disk d) (hnear : Near disk [name] disk') (hproper : Proper disk') :
    Layout disk' (Function.update d name (get disk' [name])) := by
  refine ⟨?_, hproper, fun other => ?_⟩
  · obtain ⟨entries, rfl⟩ := h.top
    rcases hnear with rfl | ⟨value, rfl⟩
    · exact ⟨entries, rfl⟩
    · exact ⟨_, rfl⟩
  · by_cases hother : other = name
    · rw [hother, Function.update_self]
    · rw [hnear.get_of_ne (Ne.symm hother), Function.update_of_ne hother]
      exact h.entry other

/-- The table after a sub-directory was renamed. -/
def renamedTo (d : String → Option Tree) (source target : String) : String → Option Tree :=
  Function.update (Function.update d source none) target (d source)

theorem Layout.moved {b : Base} {source target : String} {node : Tree} (h : Layout b.disk d)
    (hnode : d source = some node) :
    Layout (moved b source target node).disk (renamedTo d source target) := by
  have hproper : Proper node := proper_child h.proper ((h.entry source).trans hnode)
  have hgone : Layout (FileTree.put b.disk [source] none) (Function.update d source none) :=
    h.put nofun
  rw [renamedTo, hnode]
  refine hgone.put ?_
  intro node' hnode'
  cases hnode'
  exact hproper

end Tables

end Meshlink.ConfBase
