import Meshlink.MeshRuns

/-!
The order of a node's recent addresses. The list that node_add_recent_address keeps is the
beginning of the list of all distinct addresses that were added, the last used one first.
-/
namespace Meshlink.RecentOrder

open List hiding after
open Commands MeshState MeshRuns

def family : Sockaddr → ℤ
  | .unspec => 0
  | .inet _ _ => 2
  | .inet6 _ _ => 10
  | .unknown _ _ => 255

/-- The addresses are compared before the ports; memcmp is the sign of a difference. -/
def sockaddrcmp (a b : Sockaddr) : ℤ :=
  if family a ≠ family b then family a - family b
  else
    match a, b with
    | .inet x port, .inet y port' | .inet6 x port, .inet6 y port' =>
      if x ≠ y then (x - y : ℤ).sign else (port - port' : ℤ).sign
    | .unknown x port, .unknown y port' => if strcmp x y ≠ 0 then strcmp x y else strcmp port port'
    | _, _ => 0

def IsInet (sa : Sockaddr) : Prop := family sa = 2 ∨ family sa = 10

/-- Addresses of one family are equal when neither hosts nor ports differ. -/
theorem sameFamily_eq_zero (x y port port' : ℕ) :
    (if x ≠ y then (x - y : ℤ).sign else (port - port' : ℤ).sign) = 0 ↔ x = y ∧ port = port' := by
  split <;> rw [Int.sign_eq_zero_iff_zero] <;> omega

theorem sockaddrcmp_eq_zero {a b : Sockaddr} (ha : IsInet a) : sockaddrcmp a b = 0 ↔ a = b := by
  cases a with
  | unspec | unknown address port => simp [IsInet, family] at ha
  | inet x port =>
    cases b with
    | inet y port' => exact (sameFamily_eq_zero x y port port').trans (by simp)
    | _ => simp [sockaddrcmp, family]
  | inet6 x port =>
    cases b with
    | inet6 y port' => exact (sameFamily_eq_zero x y port port').trans (by simp)
    | _ => simp [sockaddrcmp, family]

section Lists

variable {α : Type} [DecidableEq α]

theorem take_erase (l : List α) (a : α) (n : ℕ) :
    ((l.take (n + 1)).erase a).take n = (l.erase a).take n := by
  induction l generalizing n with
  | nil => rfl
  | cons b l ih =>
    rw [take_succ_cons, erase_cons, erase_cons]
    split
    · rw [take_take, min_self]
    cases n with
    | zero => rfl
    | succ n => rw [take_succ_cons, take_succ_cons, ih]

theorem dedup_append_singleton (l : List α) (a : α) :
    (l ++ [a]).dedup = l.dedup.erase a ++ [a] := by
  induction l with
  | nil => rfl
  | cons b l ih =>
    rw [cons_append]
    by_cases hmem : b ∈ l
    · rw [dedup_cons_of_mem (mem_append_left _ hmem), dedup_cons_of_mem hmem, ih]
    rw [dedup_cons_of_notMem hmem]
    by_cases heq : b = a
    · subst heq
      rw [dedup_cons_of_mem (by simp), ih, erase_cons_head,
        erase_of_not_mem (by simpa using hmem)]
    · rw [dedup_cons_of_notMem (by simp [hmem, heq]), ih, erase_cons_tail (by simp [heq])]
      rfl

theorem reverse_dedup_append (l : List α) (a : α) :
    (l ++ [a]).dedup.reverse = a :: l.dedup.reverse.erase a := by
  rw [dedup_append_singleton, reverse_append, l.nodup_dedup.erase_eq_filter,
    (nodup_reverse.mpr l.nodup_dedup).erase_eq_filter, filter_reverse]
  rfl

end Lists

section Adding

variable {recent : List Sockaddr} {sa : Sockaddr}

/-- The address comes first, and the last one is dropped when all places are in use. -/
theorem addRecent_eq (hlen : recent.length ≤ maxRecent) (hused : .unspec ∉ recent) :
    addRecent recent sa = (sa :: recent.erase sa).take maxRecent := by
  have hall : recent.takeWhile (fun known => known ≠ .unspec) = recent := by
    refine takeWhile_eq_self_iff.mpr fun known hknown => decide_eq_true ?_
    rintro rfl
    exact hused hknown
  have hadd : addRecent recent sa = sa :: recent.eraseIdx (min (recent.idxOf sa) 4) := by
    rw [addRecent, recentIndex, hall, eraseIdx_eq_take_drop_succ]
    rfl
  rw [hadd]
  unfold maxRecent at hlen ⊢
  by_cases hmem : sa ∈ recent
  · have hlt := idxOf_lt_length_iff.mpr hmem
    have hshort := length_erase_of_mem hmem
    rw [min_eq_left (by omega), eraseIdx_idxOf_eq_erase, take_of_length_le]
    rw [length_cons]
    omega
  · rw [idxOf_eq_length hmem, erase_of_not_mem hmem, eraseIdx_eq_take_drop_succ,
      take_succ_cons, drop_of_length_le (by omega), append_nil]
    congr 1
    rcases Nat.lt_or_ge 4 recent.length with hfull | hroom
    · rw [min_eq_right hfull.le]
    · rw [min_eq_left hroom, take_length, take_of_length_le hroom]

end Adding

variable (adds : List Sockaddr) {m : Mesh} {i : NodeId}

/-- An address that is first already is also the first of the list made with it. -/
theorem added_recent {sa : Sockaddr} (hlen : (m.node i).recent.length ≤ maxRecent)
    (hused : .unspec ∉ (m.node i).recent) :
    ((after (nodeAddRecentAddress i sa) m).node i).recent =
      (sa :: (m.node i).recent.erase sa).take maxRecent := by
  have hnode : (after (nodeAddRecentAddress i sa) m).node i =
      if sa ≠ .unspec ∧ (m.node i).recent.head? = some sa then m.node i
      else {m.node i with recent := addRecent (m.node i).recent sa, dirty := true} :=
    Function.update_self i _ m.node
  rw [hnode]
  split
  case isTrue hfirst =>
    obtain ⟨rest, hrest⟩ := head?_eq_some_iff.mp hfirst.2
    rw [hrest, erase_cons_head, ← hrest, take_of_length_le hlen]
  case isFalse hother => exact addRecent_eq hlen hused

def addAll (i : NodeId) (adds : List Sockaddr) (m : Mesh) : Mesh :=
  adds.foldl (fun m sa => after (nodeAddRecentAddress i sa) m) m

theorem addAll_recent (hstart : (m.node i).recent = []) (hadds : ∀ sa ∈ adds, IsInet sa) :
    ((addAll i adds m).node i).recent = adds.dedup.reverse.take maxRecent := by
  -- Each call moves one address to the front of both lists.
  induction adds using List.reverseRecOn with
  | nil => exact hstart
  | append_singleton adds sa ih =>
    have hrecent := ih fun sa' h => hadds sa' (mem_append_left [sa] h)
    have hused : .unspec ∉ adds.dedup.reverse.take maxRecent := by
      intro hmem
      have hadded := mem_dedup.mp (mem_reverse.mp (mem_of_mem_take hmem))
      simpa [IsInet, family] using hadds .unspec (mem_append_left [sa] hadded)
    rw [addAll, foldl_append, reverse_dedup_append]
    rw [← hrecent] at hused
    change ((after (nodeAddRecentAddress i sa) (addAll i adds m)).node i).recent = _
    rw [added_recent (hrecent ▸ length_take_le _ _) hused, hrecent]
    exact congrArg (sa :: ·) (take_erase _ sa 4)

/-- Of equal addresses dedup keeps the last one. An address is missing only when five others
come before it in the order of last use. -/
theorem recent_in_order (hstart : (m.node i).recent = []) (hadds : ∀ sa ∈ adds, IsInet sa) :
    let recent := ((addAll i adds m).node i).recent
    recent = adds.dedup.reverse.take maxRecent ∧
      recent.Pairwise (fun a b => sockaddrcmp a b ≠ 0) ∧ .unspec ∉ recent ∧
      ∀ sa ∈ adds, sa ∉ recent → recent.length = maxRecent := by
  intro recent
  have hrecent : recent = adds.dedup.reverse.take maxRecent := addAll_recent adds hstart hadds
  have hinet : ∀ sa ∈ recent, IsInet sa := fun sa hmem => by
    rw [hrecent] at hmem
    exact hadds sa (mem_dedup.mp (mem_reverse.mp (mem_of_mem_take hmem)))
  refine ⟨hrecent, ?_, fun hmem => ?_, fun sa hsa hmem => ?_⟩
  · have hnodup : recent.Nodup :=
      hrecent ▸ (nodup_reverse.mpr adds.nodup_dedup).sublist (take_sublist _ _)
    refine hnodup.imp_of_mem fun ha hb hne => ?_
    rwa [Ne, sockaddrcmp_eq_zero (hinet _ ha)]
  · simpa [IsInet, family] using hinet .unspec hmem
  · rw [hrecent, length_take, min_eq_left]
    by_contra hshort
    rw [hrecent, take_of_length_le (by omega)] at hmem
    exact hmem (mem_reverse.mpr (mem_dedup.mpr hsa))

theorem recent_in_order_returning :
    ((addAll 0 [.inet 1 1, .inet 2 1, .inet 1 1] (newMesh "self")).node 0).recent =
      [.inet 1 1, .inet 2 1] :=
  (recent_in_order [.inet 1 1, .inet 2 1, .inet 1 1] rfl (by simp [IsInet, family])).1

end Meshlink.RecentOrder
