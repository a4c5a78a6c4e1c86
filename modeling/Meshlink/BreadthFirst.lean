import Mathlib

/-!
Breadth-first search that prefers light edges: a vertex goes on the list once more
when a lighter edge to it is found from the level before. The list holds at most two
levels at a time, and all that happens to the vertices of a level happens while the
level before it is looked at. What a vertex passes on is therefore final when it is
looked at for the first time, and looking at it again changes nothing.
-/
namespace Meshlink.BreadthFirst

open List

structure Graph (V E W : Type) where
  out : V → List E
  target : E → V
  weight : E → W

/-- What is known of a vertex: how far it is, the edge it was reached by, and the first
vertex after the root on the way to it. -/
structure Label (V E : Type) where
  distance : ℕ
  via : Option E
  next : V

abbrev Labels (V E : Type) := V → Option (Label V E)

variable {V E W : Type}

section Search

variable [DecidableEq V] [LinearOrder W] (G : Graph V E W) (root : V)

/-- The edge does not improve what is known of its target. -/
def useless (L : Labels V E) (a : Label V E) (e : E) : Bool :=
  match L (G.target e) with
  | none => false
  | some b =>
      b.distance ≠ a.distance + 1 || match b.via with
        | none => true
        | some k => G.weight k ≤ G.weight e

/-- The label that an edge from a vertex labelled `a` gives to its target. -/
def along (a : Label V E) (e : E) : Label V E :=
  ⟨a.distance + 1, some e, if a.next = root then G.target e else a.next⟩

/-- The target of the edge gets its label along the edge. -/
def relabel (L : Labels V E) (a : Label V E) (e : E) : Labels V E :=
  Function.update L (G.target e) (some (along G root a e))

def visit (n : V) (e : E) (L : Labels V E) : Bool × Labels V E :=
  match L n with
  | none => (false, L)
  | some a =>
      if useless G L a e then (false, L)
      else (true, relabel G root L a e)

def examine (n : V) : List E → Labels V E → List V × Labels V E
  | [], L => ([], L)
  | e :: rest, L =>
      let (again, L') := visit G root n e L
      let (more, L'') := examine n rest L'
      (if again then G.target e :: more else more, L'')

/-- The search ends after so many vertices, with these labels. -/
inductive Searched : ℕ → List V → Labels V E → Labels V E → Prop
  | done (L : Labels V E) : Searched 0 [] L L
  | next {k : ℕ} {n : V} {todo : List V} {L L' : Labels V E} {a : Label V E} (ha : L n = some a)
      (h : Searched k (todo ++ (examine G root n (G.out n) L).1)
        (examine G root n (G.out n) L).2 L') : Searched (k + 1) (n :: todo) L L'

/-- A path of so many edges leads from the root to the vertex. -/
inductive Hops : ℕ → V → Prop
  | root : Hops 0 root
  | step {k : ℕ} {u : V} {e : E} (h : Hops k u) (he : e ∈ G.out u) : Hops (k + 1) (G.target e)

/-- The vertex was reached by an edge of least weight among those from the vertices that are
one edge nearer to the root. -/
structure Lightest (L : Labels V E) (v : V) (a : Label V E) (u : V) (b : Label V E) (e : E) :
    Prop where
  out : e ∈ G.out u
  target : G.target e = v
  source : L u = some b
  label : a = along G root b e
  least : ∀ u' b' e', e' ∈ G.out u' → G.target e' = v → L u' = some b' →
    b'.distance + 1 = a.distance → G.weight e ≤ G.weight e'

structure Correct (L : Labels V E) : Prop where
  start : L root = some ⟨0, none, root⟩
  reached : ∀ v, (∃ a, L v = some a) ↔ ∃ k, Hops G root k v
  nearest : ∀ v a, L v = some a → Hops G root a.distance v ∧
    ∀ k, Hops G root k v → a.distance ≤ k
  lightest : ∀ v a, L v = some a → v ≠ root → ∃ u b e, Lightest G root L v a u b e
  next_ne : ∀ v a, L v = some a → v ≠ root → a.next ≠ root

end Search

section Marks

variable {G : Graph V E W} {done : V → E → Prop} {n : V} {e : E}

/-- These edges of the vertex have been looked at as well. -/
def mark (done : V → E → Prop) (n : V) (es : List E) (u : V) (e : E) : Prop :=
  done u e ∨ u = n ∧ e ∈ es

theorem mark_mark (es : List E) : mark (mark done n [e]) n es = mark done n (e :: es) := by
  funext u k
  simp only [mark, mem_cons, not_mem_nil, or_false]
  exact propext (by tauto)

theorem sum_map_le {f g : V → ℕ} (h : ∀ v, f v ≤ g v) (vs : List V) :
    (vs.map f).sum ≤ (vs.map g).sum := by
  induction vs with
  | nil => exact Nat.le_refl 0
  | cons v vs ih =>
    simp only [map_cons, sum_cons]
    exact Nat.add_le_add (h v) ih

open Classical in
/-- The edges of the vertices that have not been looked at. -/
noncomputable def pending (G : Graph V E W) (done : V → E → Prop) (vs : List V) : ℕ :=
  (vs.map fun v => if ∀ e ∈ G.out v, done v e then 0 else (G.out v).length).sum

theorem pending_le (vs : List V) : pending G done vs ≤ (vs.map fun v => (G.out v).length).sum := by
  refine sum_map_le (fun v => ?_) vs
  split <;> omega

theorem pending_mark_le (es : List E) (vs : List V) :
    pending G (mark done n es) vs ≤ pending G done vs := by
  refine sum_map_le (fun v => ?_) vs
  by_cases hv : ∀ e ∈ G.out v, done v e
  · have hmark : ∀ e ∈ G.out v, mark done n es v e := fun e he => .inl (hv e he)
    exact Nat.le_of_eq ((if_pos hmark).trans (if_pos hv).symm)
  · rw [if_neg hv]
    split <;> omega

/-- The edges of a vertex that is looked at for the first time are not pending any more. -/
theorem pending_mark {vs : List V} (hn : n ∈ vs) (hfirst : ¬∀ e ∈ G.out n, done n e) :
    pending G (mark done n (G.out n)) vs + (G.out n).length ≤ pending G done vs := by
  induction vs with
  | nil => cases hn
  | cons v vs ih =>
    unfold pending at ih ⊢
    simp only [map_cons, sum_cons]
    by_cases hv : v = n
    · have hle : pending G (mark done n (G.out n)) vs ≤ pending G done vs := pending_mark_le _ vs
      unfold pending at hle
      rw [hv, if_pos fun e he => .inr ⟨rfl, he⟩, if_neg hfirst]
      omega
    · have hrest := ih ((mem_cons.mp hn).resolve_left (Ne.symm hv))
      have hsame : mark done n (G.out n) v = done v := by
        funext e
        simp [mark, hv]
      rw [hsame]
      omega

end Marks

section Invariant

variable [DecidableEq V] [LinearOrder W] (G : Graph V E W) (root : V)

/-- The edge has been looked at from a vertex labelled `b`. -/
def Reached (L : Labels V E) (b : Label V E) (e : E) : Prop :=
  ∃ a, L (G.target e) = some a ∧ a.distance ≤ b.distance + 1 ∧
    (a.distance = b.distance + 1 → ∃ k, a.via = some k ∧ G.weight k ≤ G.weight e)

/-- In the course of the search: the edges that `done` tells have been looked at, the
vertices of level `d` still to be looked at are `now` and those of the next level `later`. -/
structure Inv (done : V → E → Prop) (d : ℕ) (now later : List V) (L : Labels V E) : Prop where
  start : L root = some ⟨0, none, root⟩
  parent : ∀ v a, L v = some a → v ≠ root →
    ∃ u b e, done u e ∧ G.target e = v ∧ L u = some b ∧ a = along G root b e
  next_ne : ∀ v a, L v = some a → v ≠ root → a.next ≠ root
  looked : ∀ u e, done u e → e ∈ G.out u ∧ ∃ b, L u = some b ∧ b.distance ≤ d ∧ Reached G L b e
  current : ∀ v ∈ now, ∃ a, L v = some a ∧ a.distance = d
  upcoming : ∀ v ∈ later, ∃ a, L v = some a ∧ a.distance = d + 1
  waiting : ∀ v a, L v = some a → v ∈ now ∨ v ∈ later ∨ ∀ e ∈ G.out v, done v e
  near : ∀ v a, L v = some a → a.distance ≤ d + 1

variable {G root} {done : V → E → Prop} {d : ℕ} {n : V} {now later : List V} {L : Labels V E}
  {b : Label V E} {e : E}

/-- All that is known when the search begins. -/
def initial (root : V) : Labels V E := fun v => if v = root then some ⟨0, none, root⟩ else none

theorem initial_inv : Inv G root (fun _ _ => False) 0 [root] [] (initial root) := by
  have honly : ∀ v a, (initial root : Labels V E) v = some a → v = root := by
    intro v a h
    unfold initial at h
    split at h
    · assumption
    · cases h
  have hroot : (initial root : Labels V E) root = some ⟨0, none, root⟩ := if_pos rfl
  refine ⟨hroot, fun v a h hne => absurd (honly v a h) hne,
    fun v a h hne => absurd (honly v a h) hne, fun _ _ h => h.elim, ?_, ?_, ?_, ?_⟩
  · intro v hv
    rw [mem_singleton.mp hv]
    exact ⟨_, hroot, rfl⟩
  · intro v hv
    cases hv
  · intro v a h
    exact .inl (mem_singleton.mpr (honly v a h))
  intro v a h
  rw [honly v a h, hroot] at h
  cases h
  exact Nat.zero_le _

/-- When nothing is left of a level the next one begins. -/
theorem Inv.advance (h : Inv G root done d [] later L) : Inv G root done (d + 1) later [] L where
  __ := h
  looked := by
    intro u e hdone
    obtain ⟨hout, b, hb, hle, hreached⟩ := h.looked u e hdone
    exact ⟨hout, b, hb, Nat.le_succ_of_le hle, hreached⟩
  current := h.upcoming
  upcoming := fun v hv => nomatch hv
  waiting := by
    intro v a ha
    rcases h.waiting v a ha with hv | hv | hv
    · cases hv
    · exact .inl hv
    · exact .inr (.inr hv)
  near := fun v a ha => Nat.le_succ_of_le (h.near v a ha)

/-- A vertex whose edges have all been looked at leaves the list. -/
theorem Inv.pop (h : Inv G root done d (n :: now) later L) (hn : ∀ e ∈ G.out n, done n e) :
    Inv G root done d now later L where
  __ := h
  current := fun v hv => h.current v (mem_cons_of_mem n hv)
  waiting := by
    intro v a ha
    rcases h.waiting v a ha with hv | hv
    · rcases mem_cons.mp hv with rfl | hv
      · exact .inr (.inr hn)
      · exact .inl hv
    · exact .inr hv

variable {a : Label V E}

/-- Only the root has no edge it was reached by. -/
theorem Inv.via (h : Inv G root done d now later L) {v : V} (ha : L v = some a)
    (hpos : 0 < a.distance) : ∃ k, a.via = some k := by
  have hne : v ≠ root := by
    rintro rfl
    rw [h.start] at ha
    cases ha
    cases hpos
  obtain ⟨u, b, e, -, -, -, rfl⟩ := h.parent v a ha hne
  exact ⟨e, rfl⟩

theorem Inv.reached_of_useless (h : Inv G root done d now later L) (hb : b.distance = d)
    (huseless : useless G L b e = true) : Reached G L b e := by
  unfold useless at huseless
  split at huseless
  · cases huseless
  rename_i a ha
  have hle := h.near _ a ha
  refine ⟨a, ha, by omega, fun heq => ?_⟩
  obtain ⟨k, hk⟩ := h.via ha (by omega)
  rw [hk] at huseless
  refine ⟨k, hk, ?_⟩
  simpa [heq] using huseless

/-- An edge that is of use leads to a vertex that is new, or that has been reached by a heavier
edge from the same level. -/
theorem Inv.known_of_useful (h : Inv G root done d now later L) (hb : b.distance = d)
    (huseful : useless G L b e = false) (ha : L (G.target e) = some a) :
    a.distance = d + 1 ∧ ∃ k, a.via = some k ∧ G.weight e < G.weight k := by
  unfold useless at huseful
  rw [ha] at huseful
  dsimp only at huseful
  have hdistance : a.distance = d + 1 := by
    by_contra hne
    simp [hb, hne] at huseful
  obtain ⟨k, hk⟩ := h.via ha (by omega)
  refine ⟨hdistance, k, hk, ?_⟩
  rw [hk] at huseful
  simpa [hdistance, hb] using huseful

/-- Looking at an edge that is of no use changes nothing. -/
theorem Inv.skip (h : Inv G root done d now later L) (hb : L n = some b) (hd : b.distance = d)
    (he : e ∈ G.out n) (huseless : useless G L b e = true) :
    Inv G root (mark done n [e]) d now later L where
  __ := h
  parent := by
    intro v a ha hne
    obtain ⟨u, b, k, hdone, hrest⟩ := h.parent v a ha hne
    exact ⟨u, b, k, .inl hdone, hrest⟩
  looked := by
    rintro u k (hdone | ⟨rfl, hk⟩)
    · exact h.looked u k hdone
    · rw [mem_singleton.mp hk]
      exact ⟨he, b, hb, Nat.le_of_eq hd, h.reached_of_useless hd huseless⟩
  waiting := by
    intro v a ha
    rcases h.waiting v a ha with hv | hv | hv
    · exact .inl hv
    · exact .inr (.inl hv)
    · exact .inr (.inr fun k hk => .inl (hv k hk))

omit [LinearOrder W] in
theorem relabel_target : relabel G root L b e (G.target e) = some (along G root b e) :=
  Function.update_self ..

omit [LinearOrder W] in
theorem relabel_cases {v : V} (ha : relabel G root L b e v = some a) :
    v = G.target e ∧ a = along G root b e ∨ v ≠ G.target e ∧ L v = some a := by
  by_cases hv : v = G.target e
  · rw [hv, relabel_target] at ha
    exact .inl ⟨hv, (Option.some.inj ha).symm⟩
  · exact .inr ⟨hv, (Function.update_of_ne hv ..).symm.trans ha⟩

/-- No vertex of this level or an earlier one is touched. -/
theorem Inv.relabel_old (h : Inv G root done d now later L) (hd : b.distance = d)
    (huseful : useless G L b e = false) {v : V} (ha : L v = some a) (hle : a.distance ≤ d) :
    relabel G root L b e v = some a := by
  rw [← ha]
  apply Function.update_of_ne
  rintro rfl
  obtain ⟨hfar, -⟩ := h.known_of_useful hd huseful ha
  omega

/-- The new edge is lighter than the one that its target had been reached by. -/
theorem Inv.reached_relabel (h : Inv G root done d now later L) (hd : b.distance = d)
    (huseful : useless G L b e = false) {b' : Label V E} {k : E} (hk : Reached G L b' k) :
    Reached G (relabel G root L b e) b' k := by
  obtain ⟨a, ha, hnear, hlight⟩ := hk
  by_cases htarget : G.target k = G.target e
  · rw [htarget] at ha
    obtain ⟨hold, j, hj, hlt⟩ := h.known_of_useful hd huseful ha
    have hnew : (along G root b e).distance = a.distance := by
      rw [hold, ← hd]
      rfl
    refine ⟨along G root b e, htarget ▸ relabel_target, hnew ▸ hnear, fun heq => ⟨e, rfl, ?_⟩⟩
    obtain ⟨i, hi, hweight⟩ := hlight (hnew ▸ heq)
    cases hj.symm.trans hi
    exact le_of_lt (lt_of_lt_of_le hlt hweight)
  · exact ⟨a, (Function.update_of_ne htarget ..).trans ha, hnear, hlight⟩

/-- An edge of use labels its target, which goes on the list for the next level. What was
derived from the vertices of this level and the earlier ones still is. -/
theorem Inv.take (h : Inv G root done d now later L) (hb : L n = some b) (hd : b.distance = d)
    (he : e ∈ G.out n) (huseful : useless G L b e = false) :
    Inv G root (mark done n [e]) d now (later ++ [G.target e]) (relabel G root L b e) := by
  have hold : ∀ {v a}, L v = some a → a.distance ≤ d → relabel G root L b e v = some a :=
    h.relabel_old hd huseful
  have hle : b.distance ≤ d := Nat.le_of_eq hd
  have hdistance : (along G root b e).distance = d + 1 := congrArg (· + 1) hd
  refine ⟨hold h.start (Nat.zero_le d), ?_, ?_, ?_, ?_, ?_, ?_, ?_⟩
  · intro v a ha hne
    rcases relabel_cases ha with ⟨rfl, rfl⟩ | ⟨-, ha⟩
    · exact ⟨n, b, e, .inr ⟨rfl, mem_singleton_self e⟩, rfl, hold hb hle, rfl⟩
    obtain ⟨u, b', k, hdone, htarget, hu, ha⟩ := h.parent v a ha hne
    obtain ⟨-, b'', hu', hle', -⟩ := h.looked u k hdone
    cases hu.symm.trans hu'
    exact ⟨u, b', k, .inl hdone, htarget, hold hu hle', ha⟩
  · intro v a ha hne
    rcases relabel_cases ha with ⟨rfl, rfl⟩ | ⟨-, ha⟩
    · unfold along
      dsimp only
      split
      · exact hne
      · assumption
    · exact h.next_ne v a ha hne
  · rintro u k (hdone | ⟨rfl, hk⟩)
    · obtain ⟨hout, b', hu, hle', hreached⟩ := h.looked u k hdone
      exact ⟨hout, b', hold hu hle', hle', h.reached_relabel hd huseful hreached⟩
    · rw [mem_singleton.mp hk]
      refine ⟨he, b, hold hb hle, hle, along G root b e, relabel_target, Nat.le_refl _, ?_⟩
      exact fun _ => ⟨e, rfl, le_rfl⟩
  · intro v hv
    obtain ⟨a, ha, heq⟩ := h.current v hv
    exact ⟨a, hold ha (Nat.le_of_eq heq), heq⟩
  · intro v hv
    by_cases hv' : v = G.target e
    · exact ⟨_, hv' ▸ relabel_target, hdistance⟩
    · obtain ⟨a, ha, heq⟩ := h.upcoming v (by simpa [hv'] using hv)
      exact ⟨a, (Function.update_of_ne hv' ..).trans ha, heq⟩
  · intro v a ha
    rcases relabel_cases ha with ⟨rfl, -⟩ | ⟨-, ha⟩
    · exact .inr (.inl (by simp))
    rcases h.waiting v a ha with hv | hv | hv
    · exact .inl hv
    · exact .inr (.inl (mem_append_left _ hv))
    · exact .inr (.inr fun k hk => .inl (hv k hk))
  · intro v a ha
    rcases relabel_cases ha with ⟨-, rfl⟩ | ⟨-, ha⟩
    · exact Nat.le_of_eq hdistance
    · exact h.near v a ha

theorem visit_of_useless (hb : L n = some b) (h : useless G L b e = true) :
    visit G root n e L = (false, L) := by
  unfold visit
  rw [hb]
  exact if_pos h

theorem visit_of_useful (hb : L n = some b) (h : useless G L b e = false) :
    visit G root n e L = (true, relabel G root L b e) := by
  unfold visit
  rw [hb]
  exact if_neg (ne_true_of_eq_false h)

theorem Inv.after_visit (h : Inv G root done d (n :: now) later L) (he : e ∈ G.out n) :
    Inv G root (mark done n [e]) d (n :: now)
      (later ++ if (visit G root n e L).1 then [G.target e] else []) (visit G root n e L).2 := by
  obtain ⟨b, hb, hd⟩ := h.current n mem_cons_self
  cases huseless : useless G L b e with
  | true =>
    rw [visit_of_useless hb huseless]
    simpa using h.skip hb hd he huseless
  | false =>
    rw [visit_of_useful hb huseless]
    exact h.take hb hd he huseless

theorem Inv.after_examine {es : List E} (h : Inv G root done d (n :: now) later L)
    (hes : ∀ e ∈ es, e ∈ G.out n) :
    Inv G root (mark done n es) d (n :: now) (later ++ (examine G root n es L).1)
      (examine G root n es L).2 := by
  induction es generalizing done later L with
  | nil =>
    have hmark : mark done n [] = done := by
      funext u e
      simp [mark]
    rw [hmark]
    simpa [examine] using h
  | cons e es ih =>
    have hrest := ih (h.after_visit (hes e mem_cons_self))
      fun k hk => hes k (mem_cons_of_mem e hk)
    rw [mark_mark, append_assoc] at hrest
    have hlist : (examine G root n (e :: es) L).1 =
        (if (visit G root n e L).1 then [G.target e] else []) ++
          (examine G root n es (visit G root n e L).2).1 := by
      simp only [examine]
      split <;> rfl
    rw [hlist]
    exact hrest

/-- Looking at the edges of a vertex once more changes nothing. -/
theorem Inv.examine_again {es : List E} (h : Inv G root done d (n :: now) later L)
    (hes : ∀ e ∈ es, done n e) : examine G root n es L = ([], L) := by
  induction es with
  | nil => rfl
  | cons e es ih =>
    have hvisit : visit G root n e L = (false, L) := by
      obtain ⟨-, b, hb, -, a, ha, -, hlight⟩ := h.looked n e (hes e mem_cons_self)
      apply visit_of_useless hb
      unfold useless
      rw [ha]
      dsimp only
      by_cases heq : a.distance = b.distance + 1
      · obtain ⟨k, hk, hle⟩ := hlight heq
        rw [hk]
        simp [hle]
      · simp [heq]
    simp only [examine, hvisit, ih fun k hk => hes k (mem_cons_of_mem e hk)]
    rfl

end Invariant

section Termination

variable [DecidableEq V] [LinearOrder W] {G : Graph V E W} {root : V} {done : V → E → Prop} {d : ℕ}
  {n : V} {now later : List V} {L : Labels V E}

theorem examine_length (es : List E) : (examine G root n es L).1.length ≤ es.length := by
  induction es generalizing L with
  | nil => exact Nat.le_refl 0
  | cons e es ih =>
    have hrest := ih (L := (visit G root n e L).2)
    simp only [examine]
    split
    · exact Nat.succ_le_succ hrest
    · exact Nat.le_succ_of_le hrest

theorem target_of_mem_examine {es : List E} {v : V} (hv : v ∈ (examine G root n es L).1) :
    ∃ e ∈ es, G.target e = v := by
  induction es generalizing L with
  | nil => cases hv
  | cons e es ih =>
    simp only [examine] at hv
    split at hv
    · rcases mem_cons.mp hv with rfl | hv
      · exact ⟨e, mem_cons_self, rfl⟩
      · obtain ⟨k, hk, htarget⟩ := ih hv
        exact ⟨k, mem_cons_of_mem e hk, htarget⟩
    · obtain ⟨k, hk, htarget⟩ := ih hv
      exact ⟨k, mem_cons_of_mem e hk, htarget⟩

/-- Looking at a vertex takes it off the list, and what it puts on the list is not pending any
more. -/
theorem Inv.progress {vs : List V} (h : Inv G root done d (n :: now) later L) (hn : n ∈ vs) :
    (now ++ (later ++ (examine G root n (G.out n) L).1)).length +
        pending G (mark done n (G.out n)) vs <
      (n :: now ++ later).length + pending G done vs := by
  simp only [cons_append, length_cons, length_append]
  by_cases hagain : ∀ e ∈ G.out n, done n e
  · rw [h.examine_again hagain]
    have hle : pending G (mark done n (G.out n)) vs ≤ pending G done vs := pending_mark_le _ vs
    simp only [length_nil]
    omega
  · have hle := pending_mark hn hagain
    have hlength : (examine G root n (G.out n) L).1.length ≤ (G.out n).length :=
      examine_length (G.out n)
    omega

/-- The search ends, and nothing is left on its list. -/
theorem Inv.ends {vs : List V} (hclosed : ∀ v ∈ vs, ∀ e ∈ G.out v, G.target e ∈ vs) {size : ℕ}
    (h : Inv G root done d now later L) (hin : ∀ v ∈ now ++ later, v ∈ vs)
    (hsize : (now ++ later).length + pending G done vs ≤ size) :
    ∃ k ≤ size, ∃ L', Searched G root k (now ++ later) L L' ∧
      ∃ done' d', Inv G root done' d' [] [] L' := by
  induction size generalizing done d now later L with
  | zero =>
    obtain ⟨rfl, rfl⟩ : now = [] ∧ later = [] := by
      rw [← append_eq_nil_iff, ← length_eq_zero_iff]
      omega
    exact ⟨0, Nat.le_refl 0, L, .done L, done, d, h⟩
  | succ size ih =>
    -- when the level is over, the next one is taken up first
    have hnext : ∀ {d n now later}, Inv G root done d (n :: now) later L →
        (∀ v ∈ n :: now ++ later, v ∈ vs) →
        (n :: now ++ later).length + pending G done vs ≤ size + 1 →
        ∃ k ≤ size + 1, ∃ L', Searched G root k (n :: now ++ later) L L' ∧
          ∃ done' d', Inv G root done' d' [] [] L' := by
      intro d n now later h hin hsize
      have hn : n ∈ vs := hin n mem_cons_self
      have hprogress := h.progress hn
      have hin' : ∀ v ∈ now ++ (later ++ (examine G root n (G.out n) L).1),
          v ∈ vs := by
        intro v hv
        simp only [mem_append] at hv
        rcases hv with hv | hv | hv
        · exact hin v (mem_append_left _ (mem_cons_of_mem n hv))
        · exact hin v (mem_append_right _ hv)
        · obtain ⟨e, he, rfl⟩ := target_of_mem_examine hv
          exact hclosed n hn e he
      have hleft := (h.after_examine fun _ he => he).pop fun _ he => .inr ⟨rfl, he⟩
      obtain ⟨k, hk, L', hsearched, hfinal⟩ := ih hleft hin' (by omega)
      rw [← append_assoc] at hsearched
      obtain ⟨a, ha, -⟩ := h.current n mem_cons_self
      exact ⟨k + 1, Nat.succ_le_succ hk, L', .next ha hsearched, hfinal⟩
    cases now with
    | cons n now => exact hnext h hin hsize
    | nil =>
      cases later with
      | nil => exact ⟨0, Nat.zero_le _, L, .done L, done, d, h⟩
      | cons n later =>
        have hlater := hnext h.advance
        rw [append_nil] at hlater
        exact hlater hin hsize

end Termination

section Correctness

variable [DecidableEq V] [LinearOrder W] {G : Graph V E W} {root : V} {done : V → E → Prop} {d : ℕ}
  {L : Labels V E}

theorem Inv.done_of_labelled (h : Inv G root done d [] [] L) {v : V} {a : Label V E}
    (ha : L v = some a) {e : E} (he : e ∈ G.out v) : done v e := by
  rcases h.waiting v a ha with hv | hv | hv
  · cases hv
  · cases hv
  · exact hv e he

theorem Inv.reached_of_hops (h : Inv G root done d [] [] L) {k : ℕ} {v : V}
    (hops : Hops G root k v) : ∃ a, L v = some a ∧ a.distance ≤ k := by
  induction hops with
  | root => exact ⟨_, h.start, Nat.le_refl 0⟩
  | step _ he ih =>
    obtain ⟨b, hb, hle⟩ := ih
    obtain ⟨-, b', hb', -, a, ha, hnear, -⟩ := h.looked _ _ (h.done_of_labelled hb he)
    cases hb.symm.trans hb'
    exact ⟨a, ha, by omega⟩

theorem Inv.hops_of_labelled (h : Inv G root done d [] [] L) {v : V} {a : Label V E}
    (ha : L v = some a) : Hops G root a.distance v := by
  -- by induction on the distance, which is smaller for the vertex it was reached from
  induction hk : a.distance generalizing v a with
  | zero =>
    by_cases hv : v = root
    · rw [hv]
      exact .root
    · obtain ⟨u, b, e, -, -, -, rfl⟩ := h.parent v a ha hv
      cases hk
  | succ k ih =>
    have hv : v ≠ root := by
      rintro rfl
      rw [h.start] at ha
      cases ha
      cases hk
    obtain ⟨u, b, e, hdone, rfl, hb, rfl⟩ := h.parent v a ha hv
    exact .step (ih hb (Nat.succ.inj hk)) (h.looked u e hdone).1

/-- With an empty list the labels are as they should be. -/
theorem Inv.correct (h : Inv G root done d [] [] L) : Correct G root L where
  start := h.start
  reached := by
    intro v
    constructor
    · rintro ⟨a, ha⟩
      exact ⟨a.distance, h.hops_of_labelled ha⟩
    · rintro ⟨k, hops⟩
      obtain ⟨a, ha, -⟩ := h.reached_of_hops hops
      exact ⟨a, ha⟩
  nearest := by
    intro v a ha
    refine ⟨h.hops_of_labelled ha, fun k hops => ?_⟩
    obtain ⟨a', ha', hle⟩ := h.reached_of_hops hops
    cases ha.symm.trans ha'
    exact hle
  lightest := by
    intro v a ha hv
    obtain ⟨u, b, e, hdone, htarget, hb, rfl⟩ := h.parent v a ha hv
    refine ⟨u, b, e, (h.looked u e hdone).1, htarget, hb, rfl, ?_⟩
    intro u' b' e' he' htarget' hb' hnear
    obtain ⟨-, b'', hb'', -, a', ha', -, hlight⟩ := h.looked u' e' (h.done_of_labelled hb' he')
    cases hb'.symm.trans hb''
    rw [htarget'] at ha'
    cases ha.symm.trans ha'
    obtain ⟨k, hk, hle⟩ := hlight hnear.symm
    cases hk
    exact hle
  next_ne := h.next_ne

/-- From a graph with these vertices the search ends with correct labels. -/
theorem search_correct {vs : List V} (hroot : root ∈ vs)
    (hclosed : ∀ v ∈ vs, ∀ e ∈ G.out v, G.target e ∈ vs) :
    ∃ k ≤ (vs.map fun v => (G.out v).length).sum + 1, ∃ L,
      Searched G root k [root] (initial root) L ∧ Correct G root L := by
  have hle : pending G (fun _ _ => False) vs ≤ _ := pending_le vs
  obtain ⟨k, hk, L, hsearched, done, d, hfinal⟩ :=
    initial_inv.ends hclosed (fun v hv => mem_singleton.mp hv ▸ hroot) (Nat.le_refl _)
  refine ⟨k, ?_, L, hsearched, hfinal.correct⟩
  change k ≤ 1 + pending G (fun _ _ => False) vs at hk
  omega

end Correctness

end Meshlink.BreadthFirst
