import InvocationTrace.Grouping
import Mathlib.Data.List.Sort

/-!
# Laws of grouping

Keys come once and in increasing order. So a grouping is determined by the members of every key,
whatever the order of the list between different keys.
-/

namespace InvocationTrace.Grouping

variable {α β : Type} {key : α → Option String} {xs ys : List α} {k : String}

private theorem insertKey_pairwise (k : String) {ls : List String} (h : ls.Pairwise (· < ·)) :
    (insertKey k ls).Pairwise (· < ·) := by
  induction ls with
  | nil => simp [insertKey]
  | cons l ls ih =>
    have hl := List.pairwise_cons.mp h
    rw [insertKey]
    split
    · rename_i hk
      refine List.pairwise_cons.mpr ⟨?_, h⟩
      intro m hm
      rcases List.mem_cons.mp hm with rfl | hm
      · exact hk
      · exact String.lt_trans hk (hl.1 m hm)
    split
    · exact h
    · rename_i hk hne
      refine List.pairwise_cons.mpr ⟨?_, ih hl.2⟩
      intro m hm
      rcases mem_insertKey.mp hm with rfl | hm
      · exact Std.lt_of_le_of_ne (Std.not_lt.mp hk) (Ne.symm hne)
      · exact hl.1 m hm

theorem keys_pairwise (key : α → Option String) (xs : List α) :
    (keys key xs).Pairwise (· < ·) := by
  have h : ∀ ks : List String, (ks.foldr insertKey []).Pairwise (· < ·) := fun ks => by
    induction ks with
    | nil => simp
    | cons l ls ih => exact insertKey_pairwise l ih
  exact h _

theorem keys_nodup (key : α → Option String) (xs : List α) : (keys key xs).Nodup := by
  refine (keys_pairwise key xs).imp ?_
  intro k l h he
  exact String.lt_irrefl l (he ▸ h)

/-- Keys in increasing order are determined by which keys there are. -/
theorem keys_eq_of_mem_iff {key' : β → Option String} {zs : List β}
    (h : ∀ k, k ∈ keys key xs ↔ k ∈ keys key' zs) : keys key xs = keys key' zs :=
  (keys_pairwise key xs).eq_of_mem_iff (keys_pairwise key' zs) h

theorem keys_perm (h : xs.Perm ys) : keys key xs = keys key ys :=
  keys_eq_of_mem_iff fun k => by simp only [mem_keys, h.mem_iff]

@[simp] theorem mem_members {x : α} : x ∈ members key k xs ↔ x ∈ xs ∧ key x = some k := by
  simp [members]

theorem members_eq_nil_iff : members key k xs = [] ↔ k ∉ keys key xs := by
  simp [members, mem_keys]

theorem members_perm (h : xs.Perm ys) : (members key k xs).Perm (members key k ys) := h.filter _

theorem members_append : members key k (xs ++ ys) = members key k xs ++ members key k ys :=
  List.filter_append _ _

theorem members_filter (p : α → Bool) :
    members key k (xs.filter p) = (members key k xs).filter p := by
  simp only [members, List.filter_filter, Bool.and_comm]

/-- Only the order within each key matters. -/
theorem groups_congr (h : ∀ k, members key k xs = members key k ys) :
    groups key xs = groups key ys := by
  have hk : keys key xs = keys key ys := keys_eq_of_mem_iff fun k => by
    rw [← not_iff_not, ← members_eq_nil_iff, ← members_eq_nil_iff, h]
  rw [groups, groups, hk]
  exact List.map_congr_left fun k _ => by rw [h]

theorem groups_map (key : α → Option String) (f : β → α) (xs : List β) :
    groups key (xs.map f) =
      (groups (fun x => key (f x)) xs).map fun (k, ys) => (k, ys.map f) := by
  simp only [groups, keys, members, List.filterMap_map, List.filter_map, List.map_map,
    Function.comp_def]

/-- Summaries of the groups can be taken over the keys of a longer list, if a group without any
element has no summary. -/
theorem filterMap_groups_of_subset {f : String × List α → Option β} (hsub : xs ⊆ ys)
    (hnil : ∀ k, f (k, []) = none) : (groups key xs).filterMap f =
      (keys key ys).filterMap fun k => f (k, members key k xs) := by
  have hkeys : keys key xs = (keys key ys).filter fun k => !(members key k xs).isEmpty := by
    refine (keys_pairwise key xs).eq_of_mem_iff ((keys_pairwise key ys).filter _) ?_
    intro k
    simp only [List.mem_filter, Bool.not_eq_true', List.isEmpty_eq_false_iff, ne_eq,
      members_eq_nil_iff, not_not, mem_keys]
    constructor
    · intro h
      obtain ⟨x, hx, hk⟩ := h
      exact ⟨⟨x, hsub hx, hk⟩, x, hx, hk⟩
    · exact fun h => h.2
  simp only [groups, List.filterMap_map, hkeys, List.filterMap_filter]
  apply List.filterMap_congr
  intro k _
  split
  · rfl
  · rename_i he
    simp only [Bool.not_eq_true', Bool.not_eq_false, List.isEmpty_iff] at he
    rw [he, hnil]

/-- Elements that a summary of each group ignores can be removed, if a group without any other
element has no summary. -/
theorem filterMap_groups_filter (p : α → Bool) {f : String × List α → Option β}
    (hnil : ∀ k, f (k, []) = none) (hf : ∀ k zs, f (k, zs.filter p) = f (k, zs)) :
    (groups key (xs.filter p)).filterMap f = (groups key xs).filterMap f := by
  rw [filterMap_groups_of_subset (List.filter_subset_self xs) hnil, groups, List.filterMap_map]
  apply List.filterMap_congr
  intro k _
  rw [Function.comp_apply, members_filter, hf]

private theorem flatMap_members_perm {ks : List String} (h : ks.Nodup) (xs : List α) :
    (ks.flatMap fun k => members key k xs).Perm
      (xs.filter fun x => (key x).any fun k => k ∈ ks) := by
  induction ks with
  | nil => simp
  | cons k ks ih =>
    obtain ⟨hk, hks⟩ := List.nodup_cons.mp h
    have hfirst : members key k xs = (xs.filter fun x => (key x).any fun l => l ∈ k :: ks).filter
        fun x => key x == some k := by
      rw [members, List.filter_filter]
      apply List.filter_congr
      intro x _
      cases hx : key x with
      | none => simp
      | some l => by_cases hl : l = k <;> simp [hl]
    have hrest : (xs.filter fun x => (key x).any fun l => l ∈ ks) =
        (xs.filter fun x => (key x).any fun l => l ∈ k :: ks).filter
          fun x => !(key x == some k) := by
      rw [List.filter_filter]
      apply List.filter_congr
      intro x _
      cases hx : key x with
      | none => simp
      | some l =>
        by_cases hl : l = k
        · simp [hl, hk]
        · simp [hl]
    rw [List.flatMap_cons]
    refine ((ih hks).append_left _).trans ?_
    rw [hfirst, hrest]
    exact List.filter_append_perm _ _

/-- Groups hold every element that has a key, once. -/
theorem flatMap_groups_perm (key : α → Option String) (xs : List α) :
    ((groups key xs).flatMap Prod.snd).Perm (xs.filter fun x => (key x).isSome) := by
  have hkey : (xs.filter fun x => (key x).any fun k => k ∈ keys key xs) =
      xs.filter fun x => (key x).isSome := by
    apply List.filter_congr
    intro x hx
    cases hk : key x with
    | none => rfl
    | some k => simpa [mem_keys] using ⟨x, hx, hk⟩
  rw [groups, List.flatMap_map, ← hkey]
  exact flatMap_members_perm (keys_nodup key xs) xs

private theorem members_flatMap_members {ks : List String} (h : ks.Nodup) (k : String)
    (xs : List α) : members key k (ks.flatMap fun l => members key l xs) =
      if k ∈ ks then members key k xs else [] := by
  induction ks with
  | nil => rfl
  | cons l ls ih =>
    obtain ⟨hl, hls⟩ := List.nodup_cons.mp h
    rw [List.flatMap_cons, members_append, ih hls]
    by_cases hk : k = l
    · subst hk
      have hsame : members key k (members key k xs) = members key k xs :=
        List.filter_eq_self.mpr fun x hx => by simp [(mem_members.mp hx).2]
      simp [hl, hsame]
    · have hnone : members key k (members key l xs) = [] := by
        apply List.filter_eq_nil_iff.mpr
        intro x hx
        simp [(mem_members.mp hx).2, Ne.symm hk]
      simp [hnone, hk]

/-- Each group can be read off from all groups taken together. -/
theorem members_flatMap_groups (key : α → Option String) (k : String) (xs : List α) :
    members key k ((groups key xs).flatMap Prod.snd) = members key k xs := by
  rw [groups, List.flatMap_map, members_flatMap_members (keys_nodup key xs)]
  split
  · rfl
  · rename_i hk
    exact (members_eq_nil_iff.mpr hk).symm

/-- All groups taken together are sorted by their keys. -/
theorem flatMap_groups_pairwise (key : α → Option String) (xs : List α) :
    ((groups key xs).flatMap Prod.snd).Pairwise fun x y =>
      ∀ k ∈ key x, ∀ l ∈ key y, k ≤ l := by
  rw [groups, List.flatMap_map, List.pairwise_flatMap]
  constructor
  · intro k _
    apply List.pairwise_of_forall_mem_list
    intro x hx y hy l hl m hm
    rw [(mem_members.mp hx).2, Option.mem_some] at hl
    rw [(mem_members.mp hy).2, Option.mem_some] at hm
    exact Std.le_of_eq (hl.symm.trans hm)
  · refine (keys_pairwise key xs).imp ?_
    intro k l hkl x hx y hy k' hk' l' hl'
    rw [(mem_members.mp hx).2, Option.mem_some] at hk'
    rw [(mem_members.mp hy).2, Option.mem_some] at hl'
    rw [← hk', ← hl']
    exact Std.le_of_lt hkl

end InvocationTrace.Grouping
