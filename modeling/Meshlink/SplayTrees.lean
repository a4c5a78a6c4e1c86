import Mathlib

/-!
Splay trees, as in splay_tree.c. Each operation first moves the node where the search for
a key ends to the top of the tree. The list that runs through the nodes is the order of
the tree from left to right, which splaying never changes, whatever the comparison
function does. If the comparison function orders the nodes as the tree does, a search
finds what is there, and insertion keeps the order.
-/
namespace Meshlink.SplayTrees

open List

inductive SplayTree (α : Type)
  | leaf
  | node (left : SplayTree α) (data : α) (right : SplayTree α)
  deriving DecidableEq

variable {α : Type}

section Operations

def SplayTree.isLeaf : SplayTree α → Bool
  | .leaf => true
  | .node _ _ _ => false

/-- The list that runs through the nodes of the tree. -/
def SplayTree.toList : SplayTree α → List α
  | .leaf => []
  | .node l x r => l.toList ++ x :: r.toList

/-- The nodes that were cut off on the left of the search path, without their right children
and with the last one first, are put over a tree. -/
def hangLeft : List (SplayTree α × α) → SplayTree α → SplayTree α
  | [], t => t
  | (l, x) :: rest, t => hangLeft rest (.node l x t)

def hangRight : List (α × SplayTree α) → SplayTree α → SplayTree α
  | [], t => t
  | (x, r) :: rest, t => hangRight rest (.node t x r)

def merge (ls : List (SplayTree α × α)) (rs : List (α × SplayTree α)) (l : SplayTree α) (x : α)
    (r : SplayTree α) : SplayTree α :=
  .node (hangLeft ls l) x (hangRight rs r)

/-- The loop of splay_top_down, where `c` compares the key with a node. -/
def splayFrom (c : α → ℤ) :
    SplayTree α → List (SplayTree α × α) → List (α × SplayTree α) → SplayTree α × ℤ
  | .leaf, _, _ => (.leaf, 0)
  | .node l x r, ls, rs =>
      if c x < 0 then
        match l with
        | .leaf => (merge ls rs .leaf x r, c x)
        | .node cl y cr =>
            if c y < 0 ∧ !cl.isLeaf then splayFrom c cl ls ((y, .node cr x r) :: rs)
            else if 0 < c y ∧ !cr.isLeaf then splayFrom c cr ((cl, y) :: ls) ((x, r) :: rs)
            else (merge ls ((x, r) :: rs) cl y cr, c y)
      else if 0 < c x then
        match r with
        | .leaf => (merge ls rs l x .leaf, c x)
        | .node cl y cr =>
            if 0 < c y ∧ !cr.isLeaf then splayFrom c cr ((.node l x cl, y) :: ls) rs
            else if c y < 0 ∧ !cl.isLeaf then splayFrom c cl ((l, x) :: ls) ((y, cr) :: rs)
            else (merge ((l, x) :: ls) rs cl y cr, c y)
      else (merge ls rs l x r, c x)

def splayTopDown (c : α → ℤ) (t : SplayTree α) : SplayTree α × ℤ := splayFrom c t [] []

/-- The node at the top after splaying, if it is the one that was searched for. -/
def found : SplayTree α × ℤ → Option α
  | (.leaf, _) => none
  | (.node _ x _, result) => if result ≠ 0 then none else some x

def splaySearch (c : α → ℤ) (t : SplayTree α) : Option α × SplayTree α :=
  (found (splayTopDown c t), (splayTopDown c t).1)

/-- The new node goes to the top, next to the node where the search has ended. -/
def insertAtTop (new : α) : SplayTree α × ℤ → SplayTree α
  | (.leaf, _) => .node .leaf new .leaf
  | (.node l x r, result) =>
      if result = 0 then .node l x r
      else if result < 0 then .node l new (.node .leaf x r)
      else .node (.node l x .leaf) new r

def splayInsert (compare : α → α → ℤ) (new : α) (t : SplayTree α) : SplayTree α :=
  insertAtTop new (splayTopDown (compare new) t)

/-- The second tree becomes the right child of the last node of the first. -/
def graft : SplayTree α → SplayTree α → SplayTree α
  | .leaf, t => t
  | .node l x r, t => .node l x (graft r t)

/-- The top node is taken out; the nodes before it, if there are any, keep the top. -/
def unlinkTop : SplayTree α → SplayTree α
  | .leaf => .leaf
  | .node l _ r => graft l r

def splayDelete (compare : α → α → ℤ) (data : α) (t : SplayTree α) : SplayTree α :=
  match splaySearch (compare data) t with
  | (none, t') => t'
  | (some _, t') => unlinkTop t'

end Operations

section Order

/-- The nodes that were cut off on the left, in order. -/
def lefts : List (SplayTree α × α) → List α
  | [] => []
  | (l, x) :: rest => lefts rest ++ (l.toList ++ [x])

def rights : List (α × SplayTree α) → List α
  | [] => []
  | (x, r) :: rest => x :: (r.toList ++ rights rest)

@[simp] theorem toList_leaf : (SplayTree.leaf : SplayTree α).toList = [] := rfl

@[simp] theorem toList_node (l : SplayTree α) (x : α) (r : SplayTree α) :
    (SplayTree.node l x r).toList = l.toList ++ x :: r.toList := rfl

theorem toList_hangLeft (ls : List (SplayTree α × α)) (t : SplayTree α) :
    (hangLeft ls t).toList = lefts ls ++ t.toList := by
  induction ls generalizing t with
  | nil => rfl
  | cons part ls ih =>
    obtain ⟨l, x⟩ := part
    simp [hangLeft, lefts, ih]

theorem toList_hangRight (rs : List (α × SplayTree α)) (t : SplayTree α) :
    (hangRight rs t).toList = t.toList ++ rights rs := by
  induction rs generalizing t with
  | nil => exact (append_nil _).symm
  | cons part rs ih =>
    obtain ⟨x, r⟩ := part
    simp [hangRight, rights, ih]

theorem toList_merge (ls : List (SplayTree α × α)) (rs : List (α × SplayTree α)) (l : SplayTree α)
    (x : α) (r : SplayTree α) :
    (merge ls rs l x r).toList = lefts ls ++ (l.toList ++ x :: r.toList) ++ rights rs := by
  simp [merge, toList_hangLeft, toList_hangRight]

theorem isLeaf_eq_false {t : SplayTree α} : t.isLeaf = false ↔ t ≠ .leaf := by
  cases t with
  | leaf => simp [SplayTree.isLeaf]
  | node l x r => simp [SplayTree.isLeaf]

/-- Splaying does not change the order of the nodes. -/
theorem toList_splayFrom (c : α → ℤ) {t : SplayTree α} (ht : t ≠ .leaf)
    (ls : List (SplayTree α × α)) (rs : List (α × SplayTree α)) :
    (splayFrom c t ls rs).1.toList = lefts ls ++ t.toList ++ rights rs := by
  fun_induction splayFrom c t ls rs with
  | case1 => exact absurd rfl ht
  | case2 => simp [toList_merge]
  | case3 x r ls rs hx cl y cr hy ih =>
    rw [ih (isLeaf_eq_false.mp (by simpa using hy.2))]
    simp [rights]
  | case4 x r ls rs hx cl y cr hy hy' ih =>
    rw [ih (isLeaf_eq_false.mp (by simpa using hy'.2))]
    simp [lefts, rights]
  | case5 => simp [toList_merge, rights]
  | case6 => simp [toList_merge]
  | case7 l x ls rs hx hx' cl y cr hy ih =>
    rw [ih (isLeaf_eq_false.mp (by simpa using hy.2))]
    simp [lefts]
  | case8 l x ls rs hx hx' cl y cr hy hy' ih =>
    rw [ih (isLeaf_eq_false.mp (by simpa using hy'.2))]
    simp [lefts, rights]
  | case9 => simp [toList_merge, lefts]
  | case10 => simp [toList_merge]

end Order

section Search

variable {c : α → ℤ}

variable {xs ys : List α} {t : SplayTree α} {compare : α → α → ℤ}

/-- The key is after some of the nodes, then perhaps equal to one, then before the others. -/
def Sifted (c : α → ℤ) (xs : List α) : Prop := xs.Pairwise fun x y => c x ≤ 0 → c y < 0

/-- Whatever the function does, the search ends at a node that is equal to the key, or where
the key would be: the node on the other side of that place was passed. -/
def Beside (c : α → ℤ) : SplayTree α × ℤ → Prop
  | (.leaf, _) => False
  | (.node l x r, result) => result = c x ∧ (c x < 0 → ∀ y ∈ l.toList.getLast?, 0 < c y) ∧
      (0 < c x → ∀ y ∈ r.toList.head?, c y < 0)

variable {x : α}

theorem Sifted.after (h : Sifted c (xs ++ x :: ys)) (hx : c x ≤ 0) : ∀ y ∈ ys, c y < 0 :=
  fun y hy => (pairwise_cons.mp (pairwise_append.mp h).2.1).1 y hy hx

theorem Sifted.before (h : Sifted c (xs ++ x :: ys)) (hx : 0 ≤ c x) : ∀ y ∈ xs, 0 < c y := by
  intro y hy
  by_contra hle
  have hlt := (pairwise_append.mp h).2.2 y hy x mem_cons_self (by omega)
  omega

theorem beside_merge {ls : List (SplayTree α × α)} {rs : List (α × SplayTree α)} {l : SplayTree α}
    {r : SplayTree α} (hls : ∀ y ∈ (lefts ls).getLast?, 0 < c y)
    (hrs : ∀ y ∈ (rights rs).head?, c y < 0) (hl : c x < 0 → l = .leaf) (hr : 0 < c x → r = .leaf) :
    Beside c (merge ls rs l x r, c x) := by
  refine ⟨rfl, fun hx y hy => ?_, fun hx y hy => ?_⟩
  · rw [toList_hangLeft, hl hx, toList_leaf, append_nil] at hy
    exact hls y hy
  · rw [toList_hangRight, hr hx, toList_leaf, nil_append] at hy
    exact hrs y hy

theorem last_lefts {ls : List (SplayTree α × α)} {l : SplayTree α} (hx : 0 < c x) :
    ∀ y ∈ (lefts ((l, x) :: ls)).getLast?, 0 < c y := by
  rw [lefts, ← append_assoc, getLast?_concat]
  simpa using hx

variable {t : SplayTree α}

theorem leaf_of_not {p : Prop} (hp : p) (h : ¬(p ∧ (!t.isLeaf) = true)) : t = .leaf := by
  cases t with
  | leaf => rfl
  | node l x r => exact absurd ⟨hp, rfl⟩ h

/-- The last node that is cut off on either side was compared with the key. -/
theorem splayFrom_beside (ht : t ≠ .leaf) {ls : List (SplayTree α × α)}
    {rs : List (α × SplayTree α)} (hls : ∀ y ∈ (lefts ls).getLast?, 0 < c y)
    (hrs : ∀ y ∈ (rights rs).head?, c y < 0) : Beside c (splayFrom c t ls rs) := by
  fun_induction splayFrom c t ls rs with
  | case1 => exact absurd rfl ht
  | case2 => exact beside_merge hls hrs (fun _ => rfl) (by omega)
  | case3 x r ls rs hx cl y cr hy ih =>
    exact ih (isLeaf_eq_false.mp (by simpa using hy.2)) hls (by simp [rights, hy.1])
  | case4 x r ls rs hx cl y cr hy hy' ih =>
    exact ih (isLeaf_eq_false.mp (by simpa using hy'.2)) (last_lefts hy'.1)
      (by simp [rights, hx])
  | case5 x r ls rs hx cl y cr hy hy' =>
    exact beside_merge hls (by simp [rights, hx]) (fun hlt => leaf_of_not hlt hy)
      fun hlt => leaf_of_not hlt hy'
  | case6 => exact beside_merge hls hrs (by omega) fun _ => rfl
  | case7 l x ls rs hx hx' cl y cr hy ih =>
    exact ih (isLeaf_eq_false.mp (by simpa using hy.2)) (last_lefts hy.1) hrs
  | case8 l x ls rs hx hx' cl y cr hy hy' ih =>
    exact ih (isLeaf_eq_false.mp (by simpa using hy'.2)) (last_lefts hx')
      (by simp [rights, hy'.1])
  | case9 l x ls rs hx hx' cl y cr hy hy' =>
    exact beside_merge (last_lefts hx') hrs (fun hlt => leaf_of_not hlt hy')
      fun hlt => leaf_of_not hlt hy
  | case10 => exact beside_merge hls hrs (by omega) (by omega)

theorem toList_splayTopDown (c : α → ℤ) (t : SplayTree α) :
    (splayTopDown c t).1.toList = t.toList := by
  cases t with
  | leaf => rfl
  | node l x r =>
    have h := toList_splayFrom c (t := .node l x r) nofun [] []
    rw [show rights [] = ([] : List α) from rfl, append_nil] at h
    exact h

theorem splayTopDown_beside (c : α → ℤ) (t : SplayTree α) :
    t = .leaf ∧ splayTopDown c t = (.leaf, 0) ∨
      ∃ l x r, splayTopDown c t = (.node l x r, c x) ∧ t.toList = l.toList ++ x :: r.toList ∧
        (c x < 0 → ∀ y ∈ l.toList.getLast?, 0 < c y) ∧
        (0 < c x → ∀ y ∈ r.toList.head?, c y < 0) := by
  cases t with
  | leaf => exact .inl ⟨rfl, rfl⟩
  | node l x r =>
    have hlist := toList_splayTopDown c (.node l x r)
    have hbeside : Beside c (splayTopDown c (.node l x r)) :=
      splayFrom_beside (t := .node l x r) nofun (by simp [lefts]) (by simp [rights])
    rw [← hlist]
    rcases hsplay : splayTopDown c (.node l x r) with ⟨t, result⟩
    rw [hsplay] at hbeside
    cases t with
    | leaf => exact hbeside.elim
    | node l' y r' =>
      obtain ⟨rfl, hbefore, hafter⟩ := hbeside
      exact .inr ⟨l', y, r', rfl, rfl, hbefore, hafter⟩

/-- If the function sifts the nodes, those before the top one are before the key, and those
after it are after the key. -/
theorem splayTopDown_cases (hsifted : Sifted c t.toList) :
    t = .leaf ∧ splayTopDown c t = (.leaf, 0) ∨
      ∃ l x r, splayTopDown c t = (.node l x r, c x) ∧ t.toList = l.toList ++ x :: r.toList ∧
        (∀ y ∈ l.toList, 0 < c y) ∧ ∀ y ∈ r.toList, c y < 0 := by
  rcases splayTopDown_beside c t with h | ⟨l, x, r, hsplay, hlist, hbefore, hafter⟩
  · exact .inl h
  rw [hlist] at hsifted
  refine .inr ⟨l, x, r, hsplay, hlist, ?_, ?_⟩
  · by_cases hx : c x < 0
    · rcases eq_nil_or_concat l.toList with hnil | ⟨init, y, hl⟩
      · simp [hnil]
      have hy : 0 < c y := hbefore hx y (by simp [hl])
      rw [hl, concat_eq_append, append_assoc] at hsifted
      rw [hl, concat_eq_append]
      exact forall_mem_append.mpr ⟨hsifted.before (Int.le_of_lt hy),
        forall_mem_singleton.mpr hy⟩
    · exact hsifted.before (by omega)
  · by_cases hx : 0 < c x
    · cases hr : r.toList with
      | nil => simp
      | cons y rest =>
        have hy : c y < 0 := hafter hx y (by simp [hr])
        have hsplit : l.toList ++ x :: r.toList = (l.toList ++ [x]) ++ y :: rest := by simp [hr]
        rw [hsplit] at hsifted
        exact forall_mem_cons.mpr ⟨hy, hsifted.after (Int.le_of_lt hy)⟩
    · exact hsifted.after (by omega)

/-- Whatever the comparison function does, a node that is not found goes between two nodes
that it was compared with. -/
theorem splayInsert_between (compare : α → α → ℤ) (new : α) (t : SplayTree α) :
    ((splayInsert compare new t).toList = t.toList ∧ ∃ y ∈ t.toList, compare new y = 0) ∨
      ∃ xs ys, t.toList = xs ++ ys ∧ (splayInsert compare new t).toList = xs ++ new :: ys ∧
        (∀ y ∈ xs.getLast?, 0 < compare new y) ∧ ∀ y ∈ ys.head?, compare new y < 0 := by
  unfold splayInsert
  rcases splayTopDown_beside (compare new) t with ⟨rfl, hsplay⟩ | ⟨l, x, r, hsplay, hlist, hl, hr⟩
  · rw [hsplay]
    exact .inr ⟨[], [], rfl, rfl, by simp, by simp⟩
  rw [hsplay, hlist]
  dsimp only [insertAtTop]
  split
  case isTrue hzero => exact .inl ⟨by simp, x, by simp, hzero⟩
  split
  case isTrue hlt => exact .inr ⟨l.toList, x :: r.toList, rfl, by simp, hl hlt, by simpa using hlt⟩
  case isFalse hne hlt =>
    have hpos : 0 < compare new x := by omega
    exact .inr ⟨l.toList ++ [x], r.toList, by simp, by simp, by simpa using hpos, hr hpos⟩

/-- Nothing but the new node is added. -/
theorem mem_of_mem_splayInsert {new : α} (h : x ∈ (splayInsert compare new t).toList) :
    x = new ∨ x ∈ t.toList := by
  rcases splayInsert_between compare new t with ⟨hsame, -⟩ | ⟨xs, ys, hlist, hinsert, -⟩
  · exact .inr (hsame ▸ h)
  rw [hinsert] at h
  rw [hlist]
  simp only [mem_append, mem_cons] at h ⊢
  tauto

/-- The nodes stay in an order that the comparisons with the new node agree with. -/
theorem pairwise_splayInsert {rel : α → α → Prop} {new : α}
    (htrans : ∀ {a b c}, rel a b → rel b c → rel a c)
    (hbefore : ∀ y ∈ t.toList, 0 < compare new y → rel y new)
    (hafter : ∀ y ∈ t.toList, compare new y < 0 → rel new y) (h : t.toList.Pairwise rel) :
    (splayInsert compare new t).toList.Pairwise rel := by
  rcases splayInsert_between compare new t with ⟨hsame, -⟩ | ⟨xs, ys, hlist, hinsert, hlast, hfirst⟩
  · rwa [hsame]
  rw [hinsert]
  rw [hlist] at h hbefore hafter
  obtain ⟨hxs, hys, hacross⟩ := pairwise_append.mp h
  have hleft : ∀ x ∈ xs, rel x new := by
    rcases eq_nil_or_concat xs with rfl | ⟨init, p, rfl⟩
    · simp
    have hp : rel p new := hbefore p (by simp) (hlast p (by simp))
    rw [concat_eq_append] at hxs ⊢
    refine forall_mem_append.mpr ⟨fun x hx => ?_, forall_mem_singleton.mpr hp⟩
    exact htrans ((pairwise_append.mp hxs).2.2 x hx p (by simp)) hp
  have hright : ∀ y ∈ ys, rel new y := by
    cases ys with
    | nil => simp
    | cons q rest =>
      have hq : rel new q := hafter q (by simp) (hfirst q rfl)
      exact forall_mem_cons.mpr ⟨hq, fun y hy => htrans hq ((pairwise_cons.mp hys).1 y hy)⟩
  refine pairwise_append.mpr ⟨hxs, pairwise_cons.mpr ⟨hright, hys⟩, fun x hx y hy => ?_⟩
  rcases mem_cons.mp hy with rfl | hy
  · exact hleft x hx
  · exact hacross x hx y hy

theorem toList_graft (t t' : SplayTree α) : (graft t t').toList = t.toList ++ t'.toList := by
  induction t with
  | leaf => rfl
  | node l x r _ ih => simp [graft, ih]

theorem mem_of_mem_splayDelete {y : α} (h : y ∈ (splayDelete compare x t).toList) :
    y ∈ t.toList := by
  have hlist : (splaySearch (compare x) t).2.toList = t.toList := toList_splayTopDown (compare x) t
  unfold splayDelete at h
  rw [← hlist]
  rcases hsearch : splaySearch (compare x) t with ⟨found, t'⟩
  rw [hsearch] at h
  cases found with
  | none => exact h
  | some z =>
    cases t' with
    | leaf => exact h
    | node l w r =>
      simp only [unlinkTop, toList_graft, mem_append] at h
      simp only [toList_node, mem_append, mem_cons]
      tauto

theorem toList_splaySearch (c : α → ℤ) (t : SplayTree α) : (splaySearch c t).2.toList = t.toList :=
  toList_splayTopDown c t

/-- The search finds the node that is equal to the key. -/
theorem splaySearch_eq_some (hsifted : Sifted c t.toList) :
    (splaySearch c t).1 = some x ↔ x ∈ t.toList ∧ c x = 0 := by
  unfold splaySearch
  rcases splayTopDown_cases hsifted with ⟨rfl, hsplay⟩ | ⟨l, y, r, hsplay, hlist, hl, hr⟩
  · rw [hsplay]
    simp [found]
  rw [hsplay, hlist]
  have honly : x ∈ l.toList ++ y :: r.toList → c x = 0 → x = y := by
    intro hx hzero
    rcases mem_append.mp hx with hx | hx
    · have := hl x hx
      omega
    rcases mem_cons.mp hx with hx | hx
    · exact hx
    · have := hr x hx
      omega
  dsimp only [found]
  split
  · rename_i hy
    refine iff_of_false nofun ?_
    rintro ⟨hx, hzero⟩
    exact hy (honly hx hzero ▸ hzero)
  · rename_i hy
    refine ⟨fun h => ?_, fun ⟨hx, hzero⟩ => congrArg some (honly hx hzero).symm⟩
    cases h
    exact ⟨by simp, not_not.mp hy⟩

/-- A node that is equal to itself only is taken out. -/
theorem toList_splayDelete (hsifted : Sifted (compare x) t.toList) (hx : x ∈ t.toList)
    (hzero : compare x x = 0) :
    ∃ xs ys, t.toList = xs ++ x :: ys ∧ (splayDelete compare x t).toList = xs ++ ys := by
  have hfound : (splaySearch (compare x) t).1 = some x :=
    (splaySearch_eq_some hsifted).mpr ⟨hx, hzero⟩
  rcases splayTopDown_cases hsifted with ⟨rfl, -⟩ | ⟨l, y, r, hsplay, hlist, -, -⟩
  · cases hx
  unfold splayDelete splaySearch at *
  rw [hsplay] at hfound ⊢
  have hy : y = x := by
    dsimp only [found] at hfound
    split at hfound
    · cases hfound
    · exact Option.some.inj hfound
  dsimp only at hfound ⊢
  rw [hfound, ← hy, hlist]
  exact ⟨l.toList, r.toList, rfl, toList_graft l r⟩

end Search

section Selection

/-- The elements are inserted one after the other. -/
def insertAll (compare : α → α → ℤ) (xs : List α) (t : SplayTree α) : SplayTree α :=
  xs.foldl (fun t x => splayInsert compare x t) t

/-- The choice among some elements, if there are any, is one that goes before all of them. -/
def Leads (rel : α → α → Prop) (xs : List α) : Option α → Prop
  | none => xs = []
  | some x => x ∈ xs ∧ ∀ y ∈ xs, rel x y

/-- The tree holds some of the elements, in order, and for those it has dropped one that goes
before them. -/
structure Ranked (rel : α → α → Prop) (xs : List α) (t : SplayTree α) : Prop where
  subset : ∀ x ∈ t.toList, x ∈ xs
  ordered : t.toList.Pairwise rel
  covered : ∀ x ∈ xs, ∃ y ∈ t.toList, rel y x

variable {rel : α → α → Prop} {xs : List α} {compare : α → α → ℤ}

theorem Ranked.insert {new : α} {t : SplayTree α} (h : Ranked rel xs t) (hrefl : ∀ a, rel a a)
    (htrans : ∀ {a b c}, rel a b → rel b c → rel a c)
    (hcompare : ∀ y ∈ xs,
      (compare new y ≤ 0 → rel new y) ∧ (0 ≤ compare new y → rel y new)) :
    Ranked rel (xs ++ [new]) (splayInsert compare new t) where
  subset x hx := by
    rcases mem_of_mem_splayInsert hx with rfl | hx
    · simp
    · simp [h.subset x hx]
  ordered := by
    refine pairwise_splayInsert htrans ?_ ?_ h.ordered
    · exact fun y hy hpos => (hcompare y (h.subset y hy)).2 (Int.le_of_lt hpos)
    · exact fun y hy hneg => (hcompare y (h.subset y hy)).1 (Int.le_of_lt hneg)
  covered x hx := by
    rcases splayInsert_between compare new t with ⟨hsame, y, hy, hzero⟩ | ⟨us, vs, hlist, hnew, -⟩
    · rw [hsame]
      rcases mem_append.mp hx with hx | hx
      · exact h.covered x hx
      · rw [mem_singleton.mp hx]
        exact ⟨y, hy, (hcompare y (h.subset y hy)).2 (Int.le_of_eq hzero.symm)⟩
    · rw [hnew]
      rcases mem_append.mp hx with hx | hx
      · obtain ⟨y, hy, hyx⟩ := h.covered x hx
        rw [hlist, mem_append] at hy
        exact ⟨y, by simp only [mem_append, mem_cons]; tauto, hyx⟩
      · rw [mem_singleton.mp hx]
        exact ⟨new, by simp, hrefl new⟩

theorem ranked_insertAll (hrefl : ∀ a, rel a a) (htrans : ∀ {a b c}, rel a b → rel b c → rel a c)
    (hcompare : ∀ a ∈ xs, ∀ b ∈ xs,
      (compare a b ≤ 0 → rel a b) ∧ (0 ≤ compare a b → rel b a)) :
    Ranked rel xs (insertAll compare xs .leaf) := by
  induction xs using List.reverseRecOn with
  | nil => exact ⟨by simp [insertAll], by simp [insertAll], by simp⟩
  | append_singleton xs x ih =>
    rw [insertAll, foldl_append]
    refine (ih fun a ha b hb => ?_).insert hrefl htrans fun y hy => ?_
    · exact hcompare a (by simp [ha]) b (by simp [hb])
    · exact hcompare x (by simp) y (by simp [hy])

/-- If the comparisons of the elements agree with an order, the head of the tree goes before
all elements, also those that were dropped because they compare as equal to another. -/
theorem leads_insertAll (hrefl : ∀ a, rel a a) (htrans : ∀ {a b c}, rel a b → rel b c → rel a c)
    (hcompare : ∀ a ∈ xs, ∀ b ∈ xs,
      (compare a b ≤ 0 → rel a b) ∧ (0 ≤ compare a b → rel b a)) :
    Leads rel xs (insertAll compare xs .leaf).toList.head? := by
  have hranked := ranked_insertAll hrefl htrans hcompare
  cases hlist : (insertAll compare xs .leaf).toList with
  | nil =>
    refine eq_nil_iff_forall_not_mem.mpr fun x hx => ?_
    obtain ⟨y, hy, -⟩ := hranked.covered x hx
    simp [hlist] at hy
  | cons z zs =>
    refine ⟨hranked.subset z (by simp [hlist]), fun x hx => ?_⟩
    obtain ⟨y, hy, hyx⟩ := hranked.covered x hx
    have hordered := hranked.ordered
    rw [hlist] at hy hordered
    rcases mem_cons.mp hy with rfl | hy
    · exact hyx
    · exact htrans ((pairwise_cons.mp hordered).1 y hy) hyx

end Selection

section Keys

variable {K : Type} [LinearOrder K] (key : α → K)

def Ordered (xs : List α) : Prop := xs.Pairwise fun x y => key x < key y

/-- The function compares the key with these nodes as their order does. -/
def Compares (c : α → ℤ) (k : K) (xs : List α) : Prop :=
  ∀ x ∈ xs, (c x < 0 ↔ k < key x) ∧ (c x = 0 ↔ k = key x)

variable {key} {c : α → ℤ} {k : K} {t : SplayTree α}

/-- No two nodes have the same key. -/
theorem Ordered.inj {xs : List α} (h : Ordered key xs) {x y : α} (hx : x ∈ xs) (hy : y ∈ xs)
    (heq : key x = key y) : x = y := by
  have hne : xs.Pairwise fun x y => key x ≠ key y := h.imp fun hlt => ne_of_lt hlt
  have : Std.Symm fun x y => key x ≠ key y := ⟨fun _ _ h => h.symm⟩
  by_contra hxy
  exact hne.forall hx hy hxy heq

theorem sifted_of_compares {xs : List α} (hordered : Ordered key xs)
    (hcompares : Compares key c k xs) : Sifted c xs := by
  refine List.Pairwise.imp_of_mem ?_ hordered
  intro x y hx hy hlt hle
  have hxk : k ≤ key x := by
    rcases Int.lt_or_eq_of_le hle with hlt | heq
    · exact le_of_lt ((hcompares x hx).1.mp hlt)
    · exact le_of_eq ((hcompares x hx).2.mp heq)
  exact (hcompares y hy).1.mpr (lt_of_le_of_lt hxk hlt)

theorem Compares.lt {xs : List α} (h : Compares key c k xs) {x : α} (hx : x ∈ xs) (hpos : 0 < c x) :
    key x < k := by
  obtain ⟨hlt, heq⟩ := h x hx
  rcases lt_trichotomy (key x) k with hless | hequal | hgreater
  · exact hless
  · have := heq.mpr hequal.symm
    omega
  · have := hlt.mpr hgreater
    omega

theorem search_eq_some (hordered : Ordered key t.toList) (hcompares : Compares key c k t.toList)
    {x : α} : (splaySearch c t).1 = some x ↔ x ∈ t.toList ∧ key x = k := by
  rw [splaySearch_eq_some (sifted_of_compares hordered hcompares)]
  constructor
  · rintro ⟨hx, hzero⟩
    exact ⟨hx, ((hcompares x hx).2.mp hzero).symm⟩
  · rintro ⟨hx, heq⟩
    exact ⟨hx, (hcompares x hx).2.mpr heq.symm⟩

variable {compare : α → α → ℤ} {x : α}

theorem ordered_insert (hordered : Ordered key t.toList)
    (hcompares : Compares key (compare x) (key x) t.toList) (hnew : ∀ y ∈ t.toList, key y ≠ key x) :
    Ordered key (splayInsert compare x t).toList ∧
      ∀ y, y ∈ (splayInsert compare x t).toList ↔ y = x ∨ y ∈ t.toList := by
  constructor
  · refine pairwise_splayInsert (fun h h' => lt_trans h h') ?_ ?_ hordered
    · exact fun y hy hpos => hcompares.lt hy hpos
    · exact fun y hy hneg => (hcompares y hy).1.mp hneg
  · intro y
    rcases splayInsert_between compare x t with ⟨-, z, hz, hzero⟩ | ⟨xs, ys, hlist, hinsert, -⟩
    · exact absurd ((hcompares z hz).2.mp hzero).symm (hnew z hz)
    · rw [hinsert, hlist]
      simp only [mem_append, mem_cons]
      tauto

theorem ordered_delete (hordered : Ordered key t.toList)
    (hcompares : Compares key (compare x) (key x) t.toList) (hx : x ∈ t.toList) :
    Ordered key (splayDelete compare x t).toList ∧
      ∀ y, y ∈ (splayDelete compare x t).toList ↔ y ∈ t.toList ∧ y ≠ x := by
  obtain ⟨xs, ys, hlist, hdelete⟩ :=
    toList_splayDelete (sifted_of_compares hordered hcompares) hx ((hcompares x hx).2.mpr rfl)
  rw [hdelete]
  rw [hlist] at hordered ⊢
  have hne : ∀ y ∈ xs ++ ys, y ≠ x := by
    obtain ⟨-, hafter, hacross⟩ := pairwise_append.mp hordered
    rintro y hy rfl
    rcases mem_append.mp hy with hy | hy
    · exact lt_irrefl _ (hacross y hy y mem_cons_self)
    · exact lt_irrefl _ ((pairwise_cons.mp hafter).1 y hy)
  constructor
  · refine hordered.sublist ?_
    exact List.Sublist.append_left (sublist_cons_self x ys) xs
  · intro y
    constructor
    · intro hy
      refine ⟨?_, hne y hy⟩
      simp only [mem_append, mem_cons] at hy ⊢
      tauto
    · rintro ⟨hy, hyx⟩
      simp only [mem_append, mem_cons] at hy ⊢
      tauto

end Keys

end Meshlink.SplayTrees
