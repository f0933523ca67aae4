import InvocationTrace.Proofs.Index.Contents
import InvocationTrace.Tree
import Mathlib.Data.List.Nodup
import Mathlib.Data.List.Perm.Basic

/-!
# Descent from the root

Steps from an invocation to its children. The root is nobody's child and every other invocation has
one parent, so an invocation is reached on one level only and no descent from the root is longer
than the number of invocations, whatever cycles the parents of other invocations form. What stands
under an invocation is stated without any bound on the levels; the bounded construction gives
exactly that.
-/

namespace InvocationTrace

def TreeItem.invocation? : TreeItem → Option Invocation
  | .run _ => none
  | .invocation i => some i

def TreeItem.run? : TreeItem → Option Run
  | .run r => some r
  | .invocation _ => none

namespace Forest

variable {α : Type}

theorem items_ofList (trees : List (α × Forest α)) :
    (ofList trees).items = trees.flatMap fun tree => tree.1 :: tree.2.items := by
  induction trees with
  | nil => rfl
  | cons tree trees ih => simp [ofList, items, ih]

def invocations (f : Forest TreeItem) : List Invocation := f.items.filterMap TreeItem.invocation?

def runs (f : Forest TreeItem) : List Run := f.items.filterMap TreeItem.run?

end Forest

namespace Index

variable {ix : Index} {withRuns : Bool} {i j p q c x : Invocation} {f g : Forest TreeItem}
  {m n levels : Nat}

theorem mem_childrenOf {id : String} : c ∈ ix.childrenOf id ↔
    c ∈ ix.invocations ∧ c.id ≠ ix.rootId ∧ ix.parentOf c = id := by
  simp [childrenOf]

theorem Keyed.nodup_childrenOf (h : ix.Keyed) (id : String) : (ix.childrenOf id).Nodup :=
  (List.mergeSort_perm _ _).nodup_iff.mpr (h.nodup.filter _)

theorem Keyed.parent_unique (h : ix.Keyed) (hp : p ∈ ix.invocations) (hq : q ∈ ix.invocations)
    (hcp : c ∈ ix.childrenOf p.id) (hcq : c ∈ ix.childrenOf q.id) : p = q := by
  apply h.eq_of_id hp hq
  rw [← (mem_childrenOf.mp hcp).2.2, ← (mem_childrenOf.mp hcq).2.2]

theorem root_notMem_childrenOf (id : String) : ix.root ∉ ix.childrenOf id :=
  fun h => (mem_childrenOf.mp h).2.1 rfl

/-- So many steps, each from an invocation to one of its children, lead from the first invocation to
the second. -/
inductive Descends (ix : Index) : Nat → Invocation → Invocation → Prop
  | here (i : Invocation) : ix.Descends 0 i i
  | step {n : Nat} {i p c : Invocation} :
      ix.Descends n i p → c ∈ ix.childrenOf p.id → ix.Descends (n + 1) i c

namespace Descends

theorem mem_invocations (h : ix.Descends n i x) (hi : i ∈ ix.invocations) :
    x ∈ ix.invocations := by
  cases h with
  | here => exact hi
  | step _ hc => exact (mem_childrenOf.mp hc).1

theorem trans (h : ix.Descends m i p) (h' : ix.Descends n p x) : ix.Descends (m + n) i x := by
  induction h' with
  | here => exact h
  | step _ hc ih => exact .step (ih h) hc

theorem succ_iff : ix.Descends (n + 1) i x ↔ ∃ c ∈ ix.childrenOf i.id, ix.Descends n c x := by
  constructor
  · intro h
    induction n generalizing x with
    | zero =>
      cases h with
      | step h hc =>
        cases h
        exact ⟨x, hc, .here x⟩
    | succ n ih =>
      cases h with
      | step h hc =>
        obtain ⟨d, hd, hdp⟩ := ih h
        exact ⟨d, hd, .step hdp hc⟩
  · intro h
    obtain ⟨c, hc, h⟩ := h
    have hstep : ix.Descends (0 + 1) i c := .step (.here i) hc
    rw [Nat.add_comm]
    simpa using hstep.trans h

theorem start_unique (hk : ix.Keyed) (hi : i ∈ ix.invocations) (hj : j ∈ ix.invocations)
    (h : ix.Descends n i x) (h' : ix.Descends n j x) : i = j := by
  induction n generalizing x with
  | zero =>
    cases h
    cases h'
    rfl
  | succ n ih =>
    cases h with
    | step hp hc =>
      cases h' with
      | step hq hc' =>
        obtain rfl := hk.parent_unique (hp.mem_invocations hi) (hq.mem_invocations hj) hc hc'
        exact ih hp hq

/-- An invocation lies on one level below the root. -/
theorem level_unique (hk : ix.Keyed) (h : ix.Descends m ix.root x)
    (h' : ix.Descends n ix.root x) : m = n := by
  induction m generalizing n x with
  | zero =>
    cases h
    cases h' with
    | here => rfl
    | step _ hc => exact absurd hc (root_notMem_childrenOf _)
  | succ m ih =>
    cases h with
    | step hp hc =>
      cases h' with
      | here => exact absurd hc (root_notMem_childrenOf _)
      | step hq hc' =>
        obtain rfl := hk.parent_unique (hp.mem_invocations hk.root_mem)
          (hq.mem_invocations hk.root_mem) hc hc'
        rw [ih hp hq]

/-- The invocations on the way, which lie on different levels. -/
private theorem exists_path (hk : ix.Keyed) (h : ix.Descends n ix.root x) :
    ∃ path : List Invocation, path.length = n + 1 ∧ path.Nodup ∧
      ∀ y ∈ path, y ∈ ix.invocations ∧ ∃ m ≤ n, ix.Descends m ix.root y := by
  generalize hr : ix.root = r at h
  induction h with
  | here r =>
    subst hr
    refine ⟨[ix.root], rfl, by simp, ?_⟩
    intro y hy
    obtain rfl := List.mem_singleton.mp hy
    exact ⟨hk.root_mem, 0, Nat.le_refl 0, .here _⟩
  | @step n r p c hp hc ih =>
    subst hr
    obtain ⟨path, hlen, hnd, hall⟩ := ih rfl
    have hxc : ix.Descends (n + 1) ix.root c := .step hp hc
    refine ⟨c :: path, by simp [hlen], List.nodup_cons.mpr ⟨?_, hnd⟩, ?_⟩
    · intro hmem
      obtain ⟨-, m, hm, hd⟩ := hall c hmem
      have := hd.level_unique hk hxc
      omega
    · intro y hy
      rcases List.mem_cons.mp hy with rfl | hy
      · exact ⟨(mem_childrenOf.mp hc).1, n + 1, Nat.le_refl _, hxc⟩
      · obtain ⟨hyi, m, hm, hd⟩ := hall y hy
        exact ⟨hyi, m, by omega, hd⟩

theorem lt_length (hk : ix.Keyed) (h : ix.Descends n ix.root x) : n < ix.invocations.length := by
  obtain ⟨path, hlen, hnd, hall⟩ := h.exists_path hk
  have hle := hnd.length_le_of_subset fun y hy => (hall y hy).1
  omega

end Descends

/-- The runs shown under an invocation, and its children with what is given to stand under each. -/
def layer (ix : Index) (withRuns : Bool) (i : Invocation) (sub : Invocation → Forest TreeItem) :
    Forest TreeItem :=
  .ofList
    ((if withRuns then (ix.shownRuns i).map fun r => (.run r, .nil) else []) ++
      (ix.childrenOf i.id).map fun child => (.invocation child, sub child))

/-- What stands under an invocation, with no bound on the levels. An invocation of which a descent
never ends has nothing that stands under it in this sense. -/
inductive Unfolds (ix : Index) (withRuns : Bool) : Invocation → Forest TreeItem → Prop
  | visit (i : Invocation) (sub : Invocation → Forest TreeItem) :
      (∀ c ∈ ix.childrenOf i.id, ix.Unfolds withRuns c (sub c)) →
      ix.Unfolds withRuns i (ix.layer withRuns i sub)

theorem invocations_layer (sub : Invocation → Forest TreeItem) :
    (ix.layer withRuns i sub).invocations =
      (ix.childrenOf i.id).flatMap fun c => c :: (sub c).invocations := by
  have hruns : ((if withRuns then (ix.shownRuns i).map fun r => (TreeItem.run r, Forest.nil)
      else []).flatMap fun tree => tree.1 :: tree.2.items).filterMap TreeItem.invocation? = [] := by
    cases withRuns <;> simp [TreeItem.invocation?, Forest.items, List.filterMap_flatMap]
  simp only [Forest.invocations, layer, Forest.items_ofList, List.flatMap_append,
    List.filterMap_append, hruns, List.nil_append, List.flatMap_map, List.filterMap_flatMap]
  rfl

theorem runs_layer (sub : Invocation → Forest TreeItem) :
    (ix.layer withRuns i sub).runs =
      (if withRuns then ix.shownRuns i else []) ++
        (ix.childrenOf i.id).flatMap fun c => (sub c).runs := by
  have hruns : ((if withRuns then (ix.shownRuns i).map fun r => (TreeItem.run r, Forest.nil)
      else []).flatMap fun tree => tree.1 :: tree.2.items).filterMap TreeItem.run? =
        if withRuns then ix.shownRuns i else [] := by
    cases withRuns with
    | false => rfl
    | true =>
      simp only [if_true, List.flatMap_map, List.filterMap_flatMap]
      exact List.flatMap_singleton' _
  simp only [Forest.runs, layer, Forest.items_ofList, List.flatMap_append,
    List.filterMap_append, hruns, List.flatMap_map, List.filterMap_flatMap]
  rfl

namespace Unfolds

theorem unique (hf : ix.Unfolds withRuns i f) (hg : ix.Unfolds withRuns i g) : f = g := by
  induction hf generalizing g with
  | visit i sub _ ih =>
    cases hg with
    | visit _ sub' h' =>
      have hsub : ∀ c ∈ ix.childrenOf i.id, sub c = sub' c := fun c hc => ih c hc (h' c hc)
      simp only [layer]
      congr 2
      exact List.map_congr_left fun c hc => by rw [hsub c hc]

/-- With as many levels as there are invocations nothing is cut off. -/
theorem of_below (hk : ix.Keyed) (h : ix.Descends n ix.root i)
    (hlevels : ix.invocations.length ≤ n + levels) :
    ix.Unfolds withRuns i (ix.below withRuns levels i) := by
  induction levels generalizing n i with
  | zero =>
    -- The levels never run out: no descent is as long as there are invocations.
    have := h.lt_length hk
    omega
  | succ levels ih =>
    refine .visit i (ix.below withRuns levels) ?_
    intro c hc
    exact ih (.step h hc) (by omega)

theorem root (hk : ix.Keyed) : ix.Unfolds withRuns ix.root (ix.forest withRuns) :=
  of_below hk (.here ix.root) (Nat.le_add_left _ _)

theorem mem_invocations_iff (h : ix.Unfolds withRuns i f) :
    x ∈ f.invocations ↔ ∃ n, ix.Descends (n + 1) i x := by
  induction h with
  | visit i sub _ ih =>
    simp only [invocations_layer, List.mem_flatMap, List.mem_cons, Descends.succ_iff]
    constructor
    · intro h
      obtain ⟨c, hc, hx⟩ := h
      rcases hx with rfl | hx
      · exact ⟨0, x, hc, .here x⟩
      · obtain ⟨n, hn⟩ := (ih c hc).mp hx
        exact ⟨n + 1, c, hc, hn⟩
    · intro h
      obtain ⟨n, c, hc, hx⟩ := h
      refine ⟨c, hc, ?_⟩
      cases n with
      | zero =>
        cases hx
        exact .inl rfl
      | succ n => exact .inr ((ih c hc).mpr ⟨n, hx⟩)

theorem nodup_invocations (hk : ix.Keyed) (h : ix.Unfolds withRuns i f)
    (hi : ix.Descends n ix.root i) : f.invocations.Nodup := by
  induction h generalizing n with
  | visit i sub hsub ih =>
    have hdown : ∀ c ∈ ix.childrenOf i.id, ∀ x ∈ c :: (sub c).invocations,
        ∃ k, ix.Descends k c x := by
      intro c hc x hx
      rcases List.mem_cons.mp hx with rfl | hx
      · exact ⟨0, .here x⟩
      · obtain ⟨k, hk⟩ := (hsub c hc).mem_invocations_iff.mp hx
        exact ⟨k + 1, hk⟩
    rw [invocations_layer, List.nodup_flatMap]
    constructor
    · intro c hc
      have hlevel : ix.Descends (n + 1) ix.root c := .step hi hc
      refine List.nodup_cons.mpr ⟨?_, ih c hc hlevel⟩
      intro hmem
      obtain ⟨k, hcc⟩ := (hsub c hc).mem_invocations_iff.mp hmem
      have := hlevel.level_unique hk (hlevel.trans hcc)
      omega
    · refine (hk.nodup_childrenOf i.id).imp_of_mem ?_
      intro c d hc hd hne x hxc hxd
      obtain ⟨k, hkc⟩ := hdown c hc x hxc
      obtain ⟨l, hld⟩ := hdown d hd x hxd
      have hc' : ix.Descends (n + 1) ix.root c := .step hi hc
      have hd' : ix.Descends (n + 1) ix.root d := .step hi hd
      have hkl := (hc'.trans hkc).level_unique hk (hd'.trans hld)
      obtain rfl : k = l := by omega
      exact hne (hkc.start_unique hk (mem_childrenOf.mp hc).1 (mem_childrenOf.mp hd).1 hld)

theorem runs_perm (h : ix.Unfolds true i f) :
    f.runs.Perm ((i :: f.invocations).flatMap ix.shownRuns) := by
  induction h with
  | visit i sub _ ih =>
    simp only [runs_layer, invocations_layer, if_true, List.flatMap_cons, List.flatMap_assoc]
    exact (List.Perm.flatMap_left _ ih).append_left _

theorem runs_eq_nil (h : ix.Unfolds false i f) : f.runs = [] := by
  induction h with
  | visit i sub _ ih =>
    simp only [runs_layer, Bool.false_eq_true, if_false, List.nil_append, List.flatMap_eq_nil_iff]
    exact ih

end Unfolds

end Index

end InvocationTrace
