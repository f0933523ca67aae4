import InvocationTrace.Report
import Mathlib.Data.List.Nodup
import Mathlib.Data.List.Perm.Basic

/-!
# Rankings

Sorting by an order that tells the elements of a list apart forgets how the list was ordered
before. Sorting by any other order keeps it for those that it cannot tell apart.
-/

namespace InvocationTrace

theorem mergeSort_eq_of_perm {α : Type} {le : α → α → Bool} {xs ys : List α} (hp : xs.Perm ys)
    (trans : ∀ a b c, le a b = true → le b c = true → le a c = true)
    (total : ∀ a b, (le a b || le b a) = true)
    (antisymm : ∀ a ∈ xs, ∀ b ∈ xs, le a b = true → le b a = true → a = b) :
    xs.mergeSort le = ys.mergeSort le := by
  have hsort : (xs.mergeSort le).Perm (ys.mergeSort le) :=
    (List.mergeSort_perm xs le).trans (hp.trans (List.mergeSort_perm ys le).symm)
  refine hsort.eq_of_pairwise ?_ (List.pairwise_mergeSort trans total xs)
    (List.pairwise_mergeSort trans total ys)
  intro a b ha hb hab hba
  have hb' : b ∈ xs := hp.mem_iff.mpr (List.mem_mergeSort.mp hb)
  exact antisymm a (List.mem_mergeSort.mp ha) b hb' hab hba

/-- A list falls in one way only into a part with a property and a part without it. -/
private theorem append_inj_of_property {α : Type} {q : α → Bool} {as bs cs ds : List α}
    (h : as ++ bs = cs ++ ds) (has : ∀ x ∈ as, q x = true) (hbs : ∀ x ∈ bs, q x = false)
    (hcs : ∀ x ∈ cs, q x = true) (hds : ∀ x ∈ ds, q x = false) : as = cs ∧ bs = ds := by
  have hleft : ∀ {xs ys : List α}, (∀ x ∈ xs, q x = true) → (∀ x ∈ ys, q x = false) →
      (xs ++ ys).filter q = xs := by
    intro xs ys hxs hys
    rw [List.filter_append, List.filter_eq_self.mpr hxs,
      List.filter_eq_nil_iff.mpr fun x hx => by simp [hys x hx], List.append_nil]
  have heq : as = cs := by rw [← hleft has hbs, h, hleft hcs hds]
  rw [heq] at h
  exact ⟨heq, List.append_cancel_left h⟩

/-- Sorting puts an element behind what is strictly before it, and in front of the rest. -/
private theorem exists_mergeSort_cons {α : Type} {le : α → α → Bool}
    (trans : ∀ a b c, le a b = true → le b c = true → le a c = true)
    (total : ∀ a b, (le a b || le b a) = true) (x : α) (xs : List α) :
    ∃ before behind, (x :: xs).mergeSort le = before ++ x :: behind ∧
      xs.mergeSort le = before ++ behind ∧ (∀ y ∈ before, (!le x y) = true) ∧
      ∀ y ∈ behind, (!le x y) = false := by
  obtain ⟨before, behind, hsort, hrest, hbefore⟩ := List.mergeSort_cons trans total x xs
  have hsorted := List.pairwise_mergeSort trans total (x :: xs)
  rw [hsort, List.pairwise_append, List.pairwise_cons] at hsorted
  refine ⟨before, behind, hsort, hrest, hbefore, ?_⟩
  intro y hy
  rw [hsorted.2.1.1 y hy, Bool.not_true]

/-- What is left out before sorting may as well be left out afterwards, since sorting keeps the order
of equals. -/
theorem filter_mergeSort {α : Type} {le : α → α → Bool}
    (trans : ∀ a b c, le a b = true → le b c = true → le a c = true)
    (total : ∀ a b, (le a b || le b a) = true) (p : α → Bool) (xs : List α) :
    (xs.mergeSort le).filter p = (xs.filter p).mergeSort le := by
  induction xs with
  | nil => rw [List.mergeSort_nil, List.filter_nil, List.mergeSort_nil]
  | cons x xs ih =>
    obtain ⟨before, behind, hsort, hrest, hbefore, hbehind⟩ :=
      exists_mergeSort_cons trans total x xs
    rw [hrest, List.filter_append] at ih
    cases hx : p x with
    | false =>
      rw [hsort, List.filter_append, List.filter_cons_of_neg (by simp [hx]), ih,
        List.filter_cons_of_neg (by simp [hx])]
    | true =>
      obtain ⟨before', behind', hsort', hrest', hbefore', hbehind'⟩ :=
        exists_mergeSort_cons trans total x (xs.filter p)
      rw [hrest'] at ih
      obtain ⟨hb, hb'⟩ := append_inj_of_property ih
        (fun y hy => hbefore y (List.mem_of_mem_filter hy))
        (fun y hy => hbehind y (List.mem_of_mem_filter hy)) hbefore' hbehind'
      rw [hsort, List.filter_append, List.filter_cons_of_pos hx, List.filter_cons_of_pos hx,
        hsort', hb, hb']

/-- Elements of which none comes before another keep their order. -/
theorem filter_mergeSort_of_tied {α : Type} {le : α → α → Bool}
    (trans : ∀ a b c, le a b = true → le b c = true → le a c = true)
    (total : ∀ a b, (le a b || le b a) = true) {p : α → Bool}
    (hp : ∀ x y, p x = true → p y = true → le x y = true) (xs : List α) :
    (xs.mergeSort le).filter p = xs.filter p := by
  rw [filter_mergeSort trans total]
  apply List.mergeSort_of_pairwise
  apply List.pairwise_of_forall_mem_list
  intro x hx y hy
  exact hp x y (List.mem_filter.mp hx).2 (List.mem_filter.mp hy).2

/-- Sorting what is in order already breaks ties by that order. -/
theorem pairwise_mergeSort_of_pairwise {α : Type} {le : α → α → Bool} {tie : α → α → Prop}
    (trans : ∀ a b c, le a b = true → le b c = true → le a c = true)
    (total : ∀ a b, (le a b || le b a) = true) {xs : List α} (h : xs.Pairwise tie) :
    (xs.mergeSort le).Pairwise fun a b => le a b = true ∧ (le b a = true → tie a b) := by
  rw [List.pairwise_iff_forall_sublist]
  intro a b hab
  have hle : le a b = true :=
    List.pairwise_iff_forall_sublist.mp (List.pairwise_mergeSort trans total xs) hab
  refine ⟨hle, ?_⟩
  intro hba
  have haa : le a a = true := trans a b a hle hba
  -- Both tie with `a`, and what ties with `a` comes in the order that it had before.
  have htied : [a, b].Sublist (xs.filter fun x => le a x && le x a) := by
    have hkept := hab.filter fun x => le a x && le x a
    rw [filter_mergeSort_of_tied trans total] at hkept
    · simpa [haa, hle, hba] using hkept
    · intro x y hx hy
      rw [Bool.and_eq_true] at hx hy
      exact trans x a y hx.2 hy.1
  exact List.pairwise_iff_forall_sublist.mp h (htied.trans List.filter_sublist)

/-- The greatest key first, and equal keys in the order that they had before. -/
theorem pairwise_mergeSort_of_key {α : Type} {tie : α → α → Prop} (key : α → Int) {xs : List α}
    (h : xs.Pairwise tie) : (xs.mergeSort fun a b => decide (key b ≤ key a)).Pairwise
      fun a b => key b < key a ∨ key a = key b ∧ tie a b := by
  refine (pairwise_mergeSort_of_pairwise ?_ ?_ h).imp ?_
  · intro a b c hab hbc
    rw [decide_eq_true_iff] at *
    omega
  · intro a b
    rw [Bool.or_eq_true, decide_eq_true_iff, decide_eq_true_iff]
    omega
  · intro a b hab
    rw [decide_eq_true_iff, decide_eq_true_iff] at hab
    rcases Int.lt_or_eq_of_le hab.1 with hlt | heq
    · exact .inl hlt
    · exact .inr ⟨heq.symm, hab.2 (Int.le_of_eq heq.symm)⟩

private theorem mem_iff_of_filter_eq {α : Type} {le : α → α → Bool} (hrefl : ∀ a, le a a = true)
    {xs ys : List α}
    (h : ∀ a, xs.filter (fun x => le a x && le x a) = ys.filter fun x => le a x && le x a)
    (a : α) : a ∈ xs ↔ a ∈ ys := by
  have ha := congrArg (a ∈ ·) (h a)
  simpa [hrefl a] using ha

private theorem le_head_of_mem {α : Type} {le : α → α → Bool} (hrefl : ∀ a, le a a = true)
    {a x : α} {xs : List α} (h : (x :: xs).Pairwise fun a b => le a b = true) (ha : a ∈ x :: xs) :
    le x a = true := by
  rcases List.mem_cons.mp ha with rfl | ha
  · exact hrefl a
  · exact (List.pairwise_cons.mp h).1 a ha

/-- A sorted list is determined by the order of those that tie with one another. -/
theorem eq_of_pairwise_of_filter_eq {α : Type} {le : α → α → Bool}
    (total : ∀ a b, (le a b || le b a) = true) {xs ys : List α}
    (hxs : xs.Pairwise fun a b => le a b = true) (hys : ys.Pairwise fun a b => le a b = true)
    (h : ∀ a, xs.filter (fun x => le a x && le x a) = ys.filter fun x => le a x && le x a) :
    xs = ys := by
  have hrefl : ∀ a, le a a = true := fun a => by simpa using total a a
  have hmem := mem_iff_of_filter_eq hrefl h
  induction xs generalizing ys with
  | nil => exact (List.eq_nil_iff_forall_not_mem.mpr fun y hy => by cases (hmem y).mpr hy).symm
  | cons x xs ih =>
    cases ys with
    | nil => cases (hmem x).mp List.mem_cons_self
    | cons y ys =>
      -- The heads tie, so each is the first of those that tie with it.
      have hxy : le x y = true := le_head_of_mem hrefl hxs ((hmem y).mpr List.mem_cons_self)
      have hyx : le y x = true := le_head_of_mem hrefl hys ((hmem x).mp List.mem_cons_self)
      have heq : x = y := by
        have hx := h x
        rw [List.filter_cons_of_pos (by simp [hrefl]),
          List.filter_cons_of_pos (by simp [hxy, hyx])] at hx
        exact (List.cons.inj hx).1
      subst heq
      have hrest : ∀ a, xs.filter (fun x => le a x && le x a) =
          ys.filter fun x => le a x && le x a := by
        intro a
        have ha := h a
        rw [List.filter_cons, List.filter_cons] at ha
        split at ha
        · exact (List.cons.inj ha).2
        · exact ha
      rw [ih (List.pairwise_cons.mp hxs).2 (List.pairwise_cons.mp hys).2 hrest
        (mem_iff_of_filter_eq hrefl hrest)]

/-- A list in which what has a property comes last falls into what has it not and what has it. -/
theorem eq_filter_append_filter {α : Type} {p : α → Bool} {xs : List α}
    (h : xs.Pairwise fun x y => p x = true → p y = true) :
    xs = xs.filter (fun x => !p x) ++ xs.filter p := by
  induction xs with
  | nil => rfl
  | cons x xs ih =>
    obtain ⟨hx, hxs⟩ := List.pairwise_cons.mp h
    cases hp : p x with
    | false => simpa [hp] using ih hxs
    | true =>
      have hall : ∀ y ∈ x :: xs, p y = true :=
        List.forall_mem_cons.mpr ⟨hp, fun y hy => hx y hy hp⟩
      have hnone : (x :: xs).filter (fun x => !p x) = [] :=
        List.filter_eq_nil_iff.mpr fun y hy => by simp [hall y hy]
      rw [hnone, List.nil_append, List.filter_eq_self.mpr hall]

/-- In a list in which what has a property comes first, this is what stands before the first that has
it not. -/
theorem takeWhile_eq_filter {α : Type} {p : α → Bool} {xs : List α}
    (h : xs.Pairwise fun x y => p y = true → p x = true) : xs.takeWhile p = xs.filter p := by
  induction xs with
  | nil => rfl
  | cons x xs ih =>
    obtain ⟨hx, hxs⟩ := List.pairwise_cons.mp h
    cases hp : p x with
    | true => rw [List.takeWhile_cons_of_pos hp, List.filter_cons_of_pos hp, ih hxs]
    | false =>
      have hnone : ∀ y ∈ x :: xs, ¬ p y = true := by
        intro y hy hpy
        have hfirst : p x = true := by
          rcases List.mem_cons.mp hy with rfl | hy
          · exact hpy
          · exact hx y hy hpy
        rw [hp] at hfirst
        exact Bool.false_ne_true hfirst
      rw [List.filter_eq_nil_iff.mpr hnone, List.takeWhile_cons_of_neg (by simp [hp])]

/-- What events on different lines report can be told apart by the line. -/
theorem Log.unique_of_line {α : Type} {events : Log} {reported? : Event → Option α} {line : α → Nat}
    (hlines : (events.map Event.line).Nodup)
    (hline : ∀ e a, reported? e = some a → line a = e.line) :
    ∀ a ∈ events.filterMap reported?, ∀ b ∈ events.filterMap reported?, line a = line b → a = b := by
  intro a ha b hb hab
  obtain ⟨e, he, hea⟩ := List.mem_filterMap.mp ha
  obtain ⟨e', he', heb⟩ := List.mem_filterMap.mp hb
  have hsame : e.line = e'.line := by rw [← hline e a hea, ← hline e' b heb, hab]
  have heq : e = e' := List.inj_on_of_nodup_map hlines he he' hsame
  rw [heq, heb] at hea
  exact (Option.some.inj hea).symm

namespace Run

theorem byLine_iff {r s : Run} : byLine r s = true ↔ r.line ≤ s.line := decide_eq_true_iff

theorem byLine_trans (r s t : Run) (hrs : byLine r s = true) (hst : byLine s t = true) :
    byLine r t = true := by
  rw [byLine_iff] at *
  omega

theorem byLine_total (r s : Run) : (byLine r s || byLine s r) = true := by
  rw [Bool.or_eq_true, byLine_iff, byLine_iff]
  omega

theorem line_eq_of_byLine {r s : Run} (hrs : byLine r s = true) (hsr : byLine s r = true) :
    r.line = s.line := by
  rw [byLine_iff] at *
  omega

end Run

namespace Overhead

theorem ranksBefore_iff {a b : Overhead} : a.ranksBefore b = true ↔
    b.overheadMs < a.overheadMs ∨ a.overheadMs = b.overheadMs ∧
      (b.elapsedMs < a.elapsedMs ∨ a.elapsedMs = b.elapsedMs ∧ a.run.line ≤ b.run.line) := by
  rw [ranksBefore]
  split
  · rename_i ho
    split
    · rename_i he
      simp [ho, he]
    · rename_i he
      simp [ho, he]
  · rename_i ho
    simp [ho]

theorem ranksBefore_trans (a b c : Overhead) (hab : a.ranksBefore b = true)
    (hbc : b.ranksBefore c = true) : a.ranksBefore c = true := by
  rw [ranksBefore_iff] at *
  omega

theorem ranksBefore_total (a b : Overhead) : (a.ranksBefore b || b.ranksBefore a) = true := by
  rw [Bool.or_eq_true, ranksBefore_iff, ranksBefore_iff]
  omega

end Overhead

namespace ToolCall

theorem ranksBefore_iff {a b : ToolCall} : a.ranksBefore b = true ↔
    b.elapsedMs < a.elapsedMs ∨ a.elapsedMs = b.elapsedMs ∧ a.line ≤ b.line := by
  rw [ranksBefore]
  split
  · rename_i he
    simp [he]
  · rename_i he
    simp [he]

theorem ranksBefore_trans (a b c : ToolCall) (hab : a.ranksBefore b = true)
    (hbc : b.ranksBefore c = true) : a.ranksBefore c = true := by
  rw [ranksBefore_iff] at *
  omega

theorem ranksBefore_total (a b : ToolCall) : (a.ranksBefore b || b.ranksBefore a) = true := by
  rw [Bool.or_eq_true, ranksBefore_iff, ranksBefore_iff]
  omega

theorem line_eq_of_ranksBefore {a b : ToolCall} (hab : a.ranksBefore b = true)
    (hba : b.ranksBefore a = true) : a.line = b.line := by
  rw [ranksBefore_iff] at *
  omega

end ToolCall

/-- The slowest calls do not depend on the order of the calls, if no two have the same line. -/
theorem Index.slowTools_eq_of_perm {ix ix' : Index} (hp : ix.toolCalls.Perm ix'.toolCalls)
    (hlines : ∀ a ∈ ix.toolCalls, ∀ b ∈ ix.toolCalls, a.line = b.line → a = b)
    (threshold : Int) (limit : Nat) :
    ix.slowTools threshold limit = ix'.slowTools threshold limit := by
  rw [slowTools, slowTools]
  congr 1
  refine mergeSort_eq_of_perm (hp.filter _) ToolCall.ranksBefore_trans
    ToolCall.ranksBefore_total ?_
  intro a ha b hb hab hba
  exact hlines a (List.mem_of_mem_filter ha) b (List.mem_of_mem_filter hb)
    (ToolCall.line_eq_of_ranksBefore hab hba)

end InvocationTrace
