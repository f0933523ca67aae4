import InvocationTrace.Forest
import Mathlib.Data.List.Forall2
import Mathlib.Data.List.Lex

/-!
# Paths in a tree

A tree is given by what stands under each item. A path from the top tells at every level down the
position among the items there. In the order of their positions paths run through the tree with every
item above what stands under it, and all that a row shows in front of its item can be read off its
path.
-/

namespace InvocationTrace.Forest

variable {α : Type} {under : α → List α} {top item : α} {items : List α} {f : Forest α}
  {path later : List Nat} {paths before after : List (List Nat)} {n : Nat}

/-- The item to which a path leads from the top. -/
def itemAt? (under : α → List α) (top : α) : List Nat → Option α
  | [] => some top
  | n :: path => (under top)[n]?.bind fun item => itemAt? under item path

/-- Whether a path leads to the last of the items that stand under the same item. -/
def isLastAt (under : α → List α) (top : α) (path : List Nat) : Bool :=
  match itemAt? under top path.dropLast, path.getLast? with
  | some parent, some n => n + 1 == (under parent).length
  | _, _ => false

/-- What stands in front of the row at a path, level by level: blanks under the last of its siblings
and else a pipe, and at the level of the row itself a connector. -/
def segmentsAt (under : α → List α) (top : α) (path : List Nat) : List String :=
  (List.range path.length).map fun k =>
    if k + 1 < path.length then
      if isLastAt under top (path.take (k + 1)) then "   " else "│  "
    else
      if isLastAt under top path then "└─ " else "├─ "

/-- The second of two paths leads to a later sibling. -/
def LaterSibling (path later : List Nat) : Prop :=
  ∃ front m n, path = front ++ [m] ∧ later = front ++ [n] ∧ m < n

/-- The paths to all items, each in front of those that go on from it and those in front of the paths
to later siblings. -/
structure InPreorder (under : α → List α) (top : α) (paths : List (List Nat)) : Prop where
  sorted : paths.Pairwise (· < ·)
  complete : ∀ path, path ∈ paths ↔ (itemAt? under top path).isSome = true

theorem itemAt?_append (path rest : List Nat) : itemAt? under top (path ++ rest) =
    (itemAt? under top path).bind fun item => itemAt? under item rest := by
  induction path generalizing top with
  | nil => rfl
  | cons n path ih =>
    simp only [List.cons_append, itemAt?, ih, Option.bind_assoc]

theorem itemAt?_concat (path : List Nat) (n : Nat) : itemAt? under top (path ++ [n]) =
    (itemAt? under top path).bind fun item => (under item)[n]? := by
  simp [itemAt?_append, itemAt?]

theorem isLastAt_concat (h : itemAt? under top path = some item) (n : Nat) :
    isLastAt under top (path ++ [n]) = (n + 1 == (under item).length) := by
  simp [isLastAt, h]

/-- A path through an item tells of what is below as the rest of it does from that item. -/
theorem isLastAt_cons (h : (under top)[n]? = some item) (hne : path ≠ []) :
    isLastAt under top (n :: path) = isLastAt under item path := by
  rw [isLastAt, isLastAt, List.dropLast_cons_of_ne_nil hne, List.getLast?_cons_of_ne_nil hne,
    itemAt?, h, Option.bind_some]

/-- Above its own level a row shows a pipe for what is not the last of its siblings. -/
theorem segmentsAt_eq_pipe_iff {k : Nat} (hk : k + 1 < path.length) :
    (segmentsAt under top path)[k]? = some "│  " ↔
      isLastAt under top (path.take (k + 1)) = false := by
  have hsegment : (segmentsAt under top path)[k]? =
      some (if isLastAt under top (path.take (k + 1)) then "   " else "│  ") := by
    rw [segmentsAt, List.getElem?_map, List.getElem?_range (Nat.lt_of_succ_lt hk), Option.map_some,
      if_pos hk]
  rw [hsegment]
  cases isLastAt under top (path.take (k + 1)) with
  | false => simp
  | true => simp

/-! ### Preorder -/

theorem append_cons_lt_append_singleton (front rest : List Nat) {m n : Nat} (h : m < n) :
    front ++ m :: rest < front ++ [n] :=
  List.append_left_lt (List.cons_lt_cons_iff.mpr (.inl h))

/-- Between a path and one that goes on from it by one step there are only longer paths. -/
theorem length_lt_of_between {front row : List Nat} (hlow : front < row)
    (hhigh : row < front ++ [n]) : front.length < row.length := by
  induction front generalizing row with
  | nil =>
    cases row with
    | nil => exact absurd hlow (List.lt_irrefl [])
    | cons m row => exact Nat.succ_pos row.length
  | cons a front ih =>
    cases row with
    | nil => exact absurd hlow (List.not_lt_nil _)
    | cons b row =>
      rw [List.cons_append] at hhigh
      rcases List.cons_lt_cons_iff.mp hlow with hab | ⟨hab, hlow⟩
      · rcases List.cons_lt_cons_iff.mp hhigh with hba | ⟨hba, -⟩
        · omega
        · omega
      · rcases List.cons_lt_cons_iff.mp hhigh with hba | ⟨-, hhigh⟩
        · omega
        · exact Nat.succ_lt_succ (ih hlow hhigh)

namespace InPreorder

theorem mem_before (h : InPreorder under top (before ++ path :: after))
    (hmem : (itemAt? under top later).isSome = true) (hlt : later < path) : later ∈ before := by
  obtain ⟨-, hafter, -⟩ := List.pairwise_append.mp h.sorted
  rcases List.mem_append.mp ((h.complete later).mpr hmem) with hbefore | hrest
  · exact hbefore
  · rcases List.mem_cons.mp hrest with rfl | hmem
    · exact absurd hlt (List.lt_irrefl _)
    · exact absurd ((List.pairwise_cons.mp hafter).1 later hmem) (List.lt_asymm hlt)

theorem mem_after (h : InPreorder under top (before ++ path :: after))
    (hmem : (itemAt? under top later).isSome = true) (hlt : path < later) : later ∈ after := by
  obtain ⟨-, -, hbefore⟩ := List.pairwise_append.mp h.sorted
  rcases List.mem_append.mp ((h.complete later).mpr hmem) with hmem | hrest
  · exact absurd (hbefore later hmem path List.mem_cons_self) (List.lt_asymm hlt)
  · rcases List.mem_cons.mp hrest with rfl | hmem
    · exact absurd hlt (List.lt_irrefl _)
    · exact hmem

/-- The item above a row is in the nearest row before it that is one level further out. -/
theorem exists_parent (h : InPreorder under top (before ++ path :: after)) (hne : path ≠ []) :
    ∃ above between, before = above ++ path.dropLast :: between ∧
      ∀ row ∈ between, path.length ≤ row.length := by
  obtain ⟨front, n, rfl⟩ : ∃ front n, path = front ++ [n] :=
    ⟨path.dropLast, path.getLast hne, (List.dropLast_append_getLast hne).symm⟩
  rw [List.dropLast_concat]
  have hpath : (itemAt? under top (front ++ [n])).isSome = true :=
    (h.complete _).mp (List.mem_append_right _ List.mem_cons_self)
  have hfront : (itemAt? under top front).isSome = true := by
    rw [itemAt?_append] at hpath
    exact Option.isSome_of_isSome_bind hpath
  have hlt : front < front ++ [n] := by
    have happend : front ++ [] < front ++ [n] := List.append_left_lt (List.nil_lt_cons n [])
    rwa [List.append_nil] at happend
  obtain ⟨above, between, rfl⟩ := List.mem_iff_append.mp (h.mem_before hfront hlt)
  refine ⟨above, between, rfl, ?_⟩
  intro row hrow
  have hsorted := h.sorted
  rw [List.append_assoc, List.cons_append, List.pairwise_append, List.pairwise_cons,
    List.pairwise_append] at hsorted
  obtain ⟨-, ⟨hlow, -, -, hhigh⟩, -⟩ := hsorted
  have hlength : front.length < row.length :=
    length_lt_of_between (hlow row (List.mem_append_left _ hrow))
      (hhigh row hrow _ List.mem_cons_self)
  rw [List.length_append, List.length_singleton]
  exact hlength

/-- An item on the way to a row is not the last of its siblings exactly if one of these has a row
further down. -/
theorem isLastAt_eq_false_iff (h : InPreorder under top (before ++ path :: after)) {k : Nat}
    (hk : k < path.length) : isLastAt under top (path.take (k + 1)) = false ↔
      ∃ later ∈ after, LaterSibling (path.take (k + 1)) later := by
  have hpath : (itemAt? under top path).isSome = true :=
    (h.complete path).mp (List.mem_append_right _ List.mem_cons_self)
  have hsplit : path = path.take k ++ path[k] :: path.drop (k + 1) := by
    rw [← List.drop_eq_getElem_cons hk, List.take_append_drop]
  have htake : path.take (k + 1) = path.take k ++ [path[k]] := by rw [List.take_append_getElem hk]
  obtain ⟨item, hitem⟩ : ∃ item, itemAt? under top (path.take k) = some item := by
    rw [hsplit, itemAt?_append] at hpath
    exact Option.isSome_iff_exists.mp (Option.isSome_of_isSome_bind hpath)
  have hposition : path[k] < (under item).length := by
    rw [hsplit, itemAt?_append, hitem, Option.bind_some, itemAt?] at hpath
    exact (List.getElem?_eq_some_iff.mp (Option.get_mem (Option.isSome_of_isSome_bind hpath))).1
  have hsibling : ∀ n, (itemAt? under top (path.take k ++ [n])).isSome = true ↔
      n < (under item).length := by
    intro n
    simp [itemAt?_concat, hitem]
  rw [htake, isLastAt_concat hitem, beq_eq_false_iff_ne]
  constructor
  · intro hnext
    have hlt : path < path.take k ++ [path[k] + 1] := by
      conv_lhs => rw [hsplit]
      exact append_cons_lt_append_singleton _ _ (Nat.lt_succ_self _)
    refine ⟨path.take k ++ [path[k] + 1], h.mem_after ((hsibling _).mpr (by omega)) hlt, ?_⟩
    exact ⟨path.take k, path[k], path[k] + 1, rfl, rfl, Nat.lt_succ_self _⟩
  · intro hlater
    obtain ⟨later, hmem, front, m, n, hfront, rfl, hmn⟩ := hlater
    obtain ⟨rfl, hm⟩ := List.append_inj' hfront rfl
    have hn : n < (under item).length := by
      apply (hsibling n).mp
      exact (h.complete _).mp (List.mem_append_right _ (List.mem_cons_of_mem _ hmem))
    have heq : path[k] = m := List.head_eq_of_cons_eq hm
    omega

end InPreorder

/-! ### Rows -/

/-- The forest of the given items with all that stands under them. -/
inductive Grows (under : α → List α) : List α → Forest α → Prop
  | nil : Grows under [] .nil
  | cons {item : α} {items : List α} {below rest : Forest α} : Grows under (under item) below →
      Grows under items rest → Grows under (item :: items) (.cons item below rest)

theorem grows_ofList {trees : List (α × Forest α)}
    (h : ∀ tree ∈ trees, Grows under (under tree.1) tree.2) :
    Grows under (trees.map Prod.fst) (ofList trees) := by
  induction trees with
  | nil => exact .nil
  | cons tree trees ih =>
    obtain ⟨hbelow, hrest⟩ := List.forall_mem_cons.mp h
    exact .cons hbelow (ih hrest)

/-- The paths of a forest whose first item has the given position. -/
def pathsFrom (n : Nat) : Forest α → List (List Nat)
  | .nil => []
  | .cons _ below rest => [n] :: ((pathsFrom 0 below).map (n :: ·) ++ pathsFrom (n + 1) rest)

theorem exists_cons_of_mem_pathsFrom (h : path ∈ f.pathsFrom n) :
    ∃ m rest, path = m :: rest ∧ n ≤ m := by
  induction f generalizing n path with
  | nil => cases h
  | cons item below rest _ ih =>
    rw [pathsFrom, List.mem_cons, List.mem_append, List.mem_map] at h
    rcases h with rfl | ⟨tail, -, rfl⟩ | hrest
    · exact ⟨n, [], rfl, Nat.le_refl n⟩
    · exact ⟨n, tail, rfl, Nat.le_refl n⟩
    · obtain ⟨m, tail, hpath, hm⟩ := ih hrest
      exact ⟨m, tail, hpath, by omega⟩

theorem pathsFrom_pairwise (f : Forest α) (n : Nat) : (f.pathsFrom n).Pairwise (· < ·) := by
  induction f generalizing n with
  | nil => exact .nil
  | cons item below rest ihb ihr =>
    have hright : ∀ front, ∀ path ∈ rest.pathsFrom (n + 1), n :: front < path := by
      intro front path hpath
      obtain ⟨m, tail, rfl, hm⟩ := exists_cons_of_mem_pathsFrom hpath
      exact List.cons_lt_cons_iff.mpr (.inl hm)
    rw [pathsFrom, List.pairwise_cons, List.pairwise_append, List.pairwise_map]
    refine ⟨?_, ?_, ihr (n + 1), ?_⟩
    · intro path hpath
      rcases List.mem_append.mp hpath with hbelow | hrest
      · obtain ⟨tail, htail, rfl⟩ := List.mem_map.mp hbelow
        obtain ⟨m, tail', rfl, -⟩ := exists_cons_of_mem_pathsFrom htail
        exact List.cons_lt_cons_iff.mpr (.inr ⟨rfl, List.nil_lt_cons m tail'⟩)
      · exact hright [] path hrest
    · refine (ihb 0).imp ?_
      intro p q hpq
      exact List.cons_lt_cons_iff.mpr (.inr ⟨rfl, hpq⟩)
    · intro path hpath
      obtain ⟨tail, -, rfl⟩ := List.mem_map.mp hpath
      exact hright tail

/-- The paths of a forest are those that lead to its items. -/
theorem mem_pathsFrom_iff {first : List α} (h : Grows under items f)
    (htop : under top = first ++ items) : path ∈ f.pathsFrom first.length ↔
      ∃ m rest, path = m :: rest ∧ first.length ≤ m ∧
        (itemAt? under top path).isSome = true := by
  induction h generalizing top first path with
  | nil =>
    refine iff_of_false List.not_mem_nil ?_
    rintro ⟨m, rest, rfl, hm, hsome⟩
    have hnone : (under top)[m]? = none := by
      rw [htop, List.append_nil, List.getElem?_eq_none_iff]
      exact hm
    rw [itemAt?, hnone] at hsome
    cases hsome
  | @cons item items below rest _ _ ihb ihr =>
    have hitem : (under top)[first.length]? = some item := by simp [htop]
    have hbelow : ∀ tail, tail ∈ below.pathsFrom 0 ↔
        ∃ m rest, tail = m :: rest ∧ 0 ≤ m ∧ (itemAt? under item tail).isSome = true :=
      fun tail => @ihb item tail [] rfl
    have hrest : ∀ path, path ∈ rest.pathsFrom (first.length + 1) ↔
        ∃ m rest, path = m :: rest ∧ first.length + 1 ≤ m ∧
          (itemAt? under top path).isSome = true := by
      intro path
      have hnext := @ihr top path (first ++ [item]) (by simp [htop])
      rwa [List.length_append, List.length_singleton] at hnext
    rw [pathsFrom, List.mem_cons, List.mem_append, List.mem_map, hrest]
    constructor
    · rintro (rfl | ⟨tail, htail, rfl⟩ | ⟨m, tail, rfl, hm, hsome⟩)
      · exact ⟨first.length, [], rfl, Nat.le_refl _, by simp [itemAt?, hitem]⟩
      · obtain ⟨-, -, -, -, hsome⟩ := (hbelow tail).mp htail
        exact ⟨first.length, tail, rfl, Nat.le_refl _, by simpa [itemAt?, hitem] using hsome⟩
      · exact ⟨m, tail, rfl, Nat.le_of_succ_le hm, hsome⟩
    · rintro ⟨m, tail, rfl, hm, hsome⟩
      rcases Nat.lt_or_eq_of_le hm with hlt | rfl
      · exact .inr (.inr ⟨m, tail, rfl, hlt, hsome⟩)
      · cases tail with
        | nil => exact .inl rfl
        | cons k tail =>
          rw [itemAt?, hitem, Option.bind_some] at hsome
          exact .inr (.inl ⟨k :: tail, (hbelow _).mpr ⟨k, tail, rfl, Nat.zero_le k, hsome⟩, rfl⟩)

/-- For every level down a path, whether the item there is the last of its siblings. -/
def lastsAt (under : α → List α) (top : α) (path : List Nat) : List Bool :=
  (List.range path.length).map fun k => isLastAt under top (path.take (k + 1))

theorem lastsAt_cons (h : (under top)[n]? = some item) (path : List Nat) :
    lastsAt under top (n :: path) =
      (n + 1 == (under top).length) :: lastsAt under item path := by
  rw [lastsAt, List.length_cons, List.range_succ_eq_map, List.map_cons, List.map_map]
  have hfirst : isLastAt under top [n] = (n + 1 == (under top).length) :=
    isLastAt_concat (rfl : itemAt? under top [] = some top) n
  rw [lastsAt, List.take_succ_cons, List.take_zero, hfirst]
  congr 1
  apply List.map_congr_left
  intro k hk
  rw [Function.comp_apply, List.take_succ_cons, isLastAt_cons h]
  have hlength : 0 < path.length := Nat.zero_lt_of_lt (List.mem_range.mp hk)
  simpa using List.ne_nil_of_length_pos hlength

theorem Grows.isEmpty_eq (h : Grows under items f) : f.isEmpty = items.isEmpty := by
  cases h <;> rfl

/-- Row by row, a forest draws the items at its paths, and what is above a row are the levels given
and those down its path. -/
theorem forall₂_rowsUnder {first : List α} (h : Grows under items f)
    (htop : under top = first ++ items) (above : List Bool) :
    List.Forall₂ (fun row path => itemAt? under top path = some row.item ∧
        row.above ++ [row.isLast] = above ++ lastsAt under top path)
      (f.rowsUnder above) (f.pathsFrom first.length) := by
  induction h generalizing top first above with
  | nil => exact .nil
  | @cons item items below rest _ hgrows ihb ihr =>
    have hitem : (under top)[first.length]? = some item := by simp [htop]
    have hlast : (first.length + 1 == (under top).length) = rest.isEmpty := by
      rw [hgrows.isEmpty_eq, htop, Bool.eq_iff_iff, beq_iff_eq, List.isEmpty_iff_length_eq_zero,
        List.length_append, List.length_cons]
      omega
    have hlasts : ∀ path, lastsAt under top (first.length :: path) =
        rest.isEmpty :: lastsAt under item path := by
      intro path
      rw [lastsAt_cons hitem, hlast]
    rw [rowsUnder, pathsFrom]
    refine .cons ⟨by simp [itemAt?, hitem], by rw [hlasts]; rfl⟩ (List.rel_append ?_ ?_)
    · rw [List.forall₂_map_right_iff]
      refine (@ihb item [] rfl (above ++ [rest.isEmpty])).imp ?_
      intro row path hrow
      rw [itemAt?, hitem, Option.bind_some, hlasts, hrow.2, List.append_assoc]
      exact ⟨hrow.1, rfl⟩
    · have hrest := @ihr top (first ++ [item]) (by simp [htop]) above
      rwa [List.length_append, List.length_singleton] at hrest

/-- The levels down its path say what stands in front of a row. -/
theorem front_of_lastsAt {row : Row α} (h : row.above ++ [row.isLast] = lastsAt under top path) :
    row.front = String.join (segmentsAt under top path) := by
  have hlength : path.length = row.above.length + 1 := by
    have hlengths := congrArg List.length h
    simpa [lastsAt] using hlengths.symm
  have hlevels : row.above =
        (List.range row.above.length).map (fun k => isLastAt under top (path.take (k + 1))) ∧
      row.isLast = isLastAt under top path := by
    rw [lastsAt, hlength, List.range_succ, List.map_append, List.map_singleton, ← hlength,
      List.take_length] at h
    obtain ⟨habove, hlast⟩ := List.append_inj' h rfl
    exact ⟨habove, List.head_eq_of_cons_eq hlast⟩
  have hsegments : segmentsAt under top path = row.above.map indent ++ [connector row.isLast] := by
    rw [segmentsAt, hlength, List.range_succ, List.map_append, List.map_singleton, hlevels.2,
      if_neg (Nat.lt_irrefl _), ← connector]
    congr 1
    conv_rhs => rw [hlevels.1, List.map_map]
    apply List.map_congr_left
    intro k hk
    rw [if_pos (Nat.succ_lt_succ (List.mem_range.mp hk)), Function.comp_apply, indent]
  rw [hsegments, String.join_append, Row.front]
  simp

end InvocationTrace.Forest
