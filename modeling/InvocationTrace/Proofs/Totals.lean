import InvocationTrace.Proofs.Grouping
import InvocationTrace.Index
import Mathlib.Algebra.BigOperators.Group.List.Basic
import Mathlib.Algebra.Ring.Int.Defs

/-!
# Totals

A checked sum that comes out is the sum, and it does not come out exactly if some of its partial sums
leaves the range. So totals by group, where they come out, do not depend on the order of the list;
whether they come out may depend on the order within a group.
-/

namespace InvocationTrace

theorem Signed64.sum?_eq_some {ns : List Int} {t : Int} (h : sum? ns = some t) : t = ns.sum := by
  have hfrom : ∀ start : Int,
      ns.foldlM (fun total n => check (total + n)) start = some t → t = start + ns.sum := by
    clear h
    induction ns with
    | nil =>
      intro start h
      rw [List.foldlM_nil] at h
      have ht := Option.some.inj h
      rw [List.sum_nil, Int.add_zero, ht]
    | cons n ns ih =>
      intro start h
      rw [List.foldlM_cons, Option.bind_eq_bind, Option.bind_eq_some_iff] at h
      obtain ⟨next, hnext, hrest⟩ := h
      rw [← (check_eq_some_iff.mp hnext).2] at hrest
      rw [ih _ hrest, List.sum_cons, Int.add_assoc]
  rw [hfrom 0 h, Int.zero_add]

theorem Signed64.check_eq_none_iff {n : Int} : check n = none ↔ ¬ Fits n := by
  simp [check]

/-- Some partial sum, taken from the left, does not fit. -/
def Signed64.Overruns (ns : List Int) : Prop := ∃ ms, ms <+: ns ∧ ¬ Fits ms.sum

theorem Signed64.sum?_eq_none_iff {ns : List Int} : sum? ns = none ↔ Overruns ns := by
  have hfrom : ∀ start : Int, Fits start →
      (ns.foldlM (fun total n => check (total + n)) start = none ↔
        ∃ ms, ms <+: ns ∧ ¬ Fits (start + ms.sum)) := by
    induction ns with
    | nil =>
      intro start hstart
      simpa using hstart
    | cons n ns ih =>
      intro start hstart
      rw [List.foldlM_cons]
      by_cases hn : Fits (start + n)
      · have hnext : check (start + n) = some (start + n) := check_eq_some_iff.mpr ⟨hn, rfl⟩
        rw [hnext, Option.bind_eq_bind, Option.bind_some, ih _ hn]
        constructor
        · intro h
          obtain ⟨ms, hms, hsum⟩ := h
          refine ⟨n :: ms, List.cons_prefix_cons.mpr ⟨rfl, hms⟩, ?_⟩
          rwa [List.sum_cons, ← Int.add_assoc]
        · intro h
          obtain ⟨ms, hms, hsum⟩ := h
          rcases List.prefix_cons_iff.mp hms with hnil | ⟨rest, hcons, hrest⟩
          · subst hnil
            exact absurd (by simpa using hstart) hsum
          · subst hcons
            rw [List.sum_cons, ← Int.add_assoc] at hsum
            exact ⟨rest, hrest, hsum⟩
      · have hnext : check (start + n) = none := check_eq_none_iff.mpr hn
        simp only [hnext, Option.bind_eq_bind, Option.bind_none, true_iff]
        exact ⟨[n], ⟨ns, rfl⟩, by simpa using hn⟩
  rw [sum?, hfrom 0 (by decide), Overruns]
  simp only [Int.zero_add]

/-- A list of answers that all come out is the list of the results. -/
theorem eq_map_of_mapM_eq_some {α β : Type} {f : α → Option β} {g : α → β}
    (hf : ∀ a b, f a = some b → b = g a) {xs : List α} {ys : List β} (h : xs.mapM f = some ys) :
    ys = xs.map g := by
  induction xs generalizing ys with
  | nil =>
    rw [List.mapM_nil] at h
    exact (Option.some.inj h).symm
  | cons x xs ih =>
    rw [List.mapM_cons, Option.bind_eq_bind, Option.bind_eq_some_iff] at h
    obtain ⟨b, hb, h⟩ := h
    rw [Option.bind_eq_bind, Option.bind_eq_some_iff] at h
    obtain ⟨bs, hbs, h⟩ := h
    have hys : b :: bs = ys := Option.some.inj h
    rw [← hys, List.map_cons, ← hf x b hb, ih hbs]

theorem mapM_eq_none_iff {α β : Type} {f : α → Option β} {xs : List α} :
    xs.mapM f = none ↔ ∃ x ∈ xs, f x = none := by
  induction xs with
  | nil => simp
  | cons x xs ih =>
    cases hx : f x with
    | none => simp [hx]
    | some b =>
      cases hxs : xs.mapM f with
      | none => simpa [hx, hxs] using ih
      | some bs => simpa [hx, hxs] using ih

open Grouping

/-- Totals by group do not come out exactly if one of the groups overruns. -/
theorem mapM_groups_eq_none_iff {α β : Type} {key : α → Option String} {xs : List α}
    {term : α → Int} {entry : String → Int → β} :
    ((groups key xs).mapM fun (k, ys) => (Signed64.sum? (ys.map term)).map (entry k)) = none ↔
      ∃ k, Signed64.Overruns ((members key k xs).map term) := by
  rw [mapM_eq_none_iff]
  simp only [groups, List.mem_map, Option.map_eq_none_iff, Signed64.sum?_eq_none_iff]
  constructor
  · intro h
    obtain ⟨_, ⟨k, -, rfl⟩, hk⟩ := h
    exact ⟨k, hk⟩
  · intro h
    obtain ⟨k, hk⟩ := h
    refine ⟨_, ⟨k, ?_, rfl⟩, hk⟩
    by_contra hnone
    rw [members_eq_nil_iff.mpr hnone] at hk
    obtain ⟨ms, hms, hsum⟩ := hk
    rw [List.map_nil, List.prefix_nil] at hms
    exact hsum (by rw [hms]; decide)

/-- Totals by group that all come out are the sums of the groups. -/
theorem mapM_groups_eq_some {α β : Type} {key : α → Option String} {xs : List α} {term : α → Int}
    {entry : String → Int → β} {totals : List β}
    (h : ((groups key xs).mapM fun (k, ys) => (Signed64.sum? (ys.map term)).map (entry k)) =
      some totals) :
    totals = (groups key xs).map fun (k, ys) => entry k (ys.map term).sum := by
  refine eq_map_of_mapM_eq_some ?_ h
  intro (k, ys) b hb
  obtain ⟨total, htotal, hentry⟩ := Option.map_eq_some_iff.mp hb
  rw [← hentry, Signed64.sum?_eq_some htotal]

/-- The sums of the groups together are the sum of all. -/
theorem sum_groups {α : Type} {key : α → Option String} {xs : List α}
    (hkey : ∀ x ∈ xs, (key x).isSome = true) (term : α → Int) :
    ((groups key xs).map fun (_, ys) => (ys.map term).sum).sum = (xs.map term).sum := by
  have hperm := flatMap_groups_perm key xs
  rw [List.filter_eq_self.mpr hkey] at hperm
  rw [← (hperm.map term).sum_eq, List.map_flatMap, List.flatMap_def, List.sum_flatten,
    List.map_map]
  rfl

namespace Index

/-- The ends of tool calls whose times are summed for a run, in the order of the log. -/
def toolEnds (rootId runId : String) (events : Log) : Log :=
  events.filter fun e =>
    e.kind == .toolEnd && e.belongsTo rootId && e.invocationId.isSome && e.runId == some runId

theorem members_timedRun_scope {rootId runId : String} {events : Log} :
    members Event.timedRun runId (scope rootId events) = toolEnds rootId runId events := by
  rw [members, scope, toolEnds, List.filter_filter]
  apply List.filter_congr
  intro e _
  cases hk : e.kind <;> simp [Event.timedRun, hk, Bool.and_comm]

theorem toolTimes?_eq_none_iff {events : Log} : toolTimes? events = none ↔
    ∃ runId, Signed64.Overruns ((members Event.timedRun runId events).map Event.elapsed) :=
  mapM_groups_eq_none_iff

theorem toolTimes?_eq_some {events : Log} {times : List (String × Int)}
    (h : toolTimes? events = some times) :
    times = (groups Event.timedRun events).map fun (runId, es) =>
      (runId, (es.map Event.elapsed).sum) :=
  mapM_groups_eq_some h

/-- Only the ends of tool calls add to the times spent in tools. -/
theorem toolTimes?_filter {p : Event → Bool} (hp : ∀ e : Event, e.kind = .toolEnd → p e = true)
    (es : Log) : toolTimes? (es.filter p) = toolTimes? es := by
  have hgroup : ∀ runId, members Event.timedRun runId (es.filter p) =
      members Event.timedRun runId es := by
    intro runId
    rw [members_filter]
    refine List.filter_eq_self.mpr ?_
    intro e he
    have htimed : e.timedRun = some runId := (mem_members.mp he).2
    apply hp e
    cases hk : e.kind with
    | toolEnd => rfl
    | invocationStart | singleStart | parallelStart | invocationEnd | runEnd | other =>
      simp [Event.timedRun, hk] at htimed
  rw [toolTimes?, toolTimes?, groups_congr hgroup]

theorem toolCalls_filter {p : Event → Bool} (hp : ∀ e : Event, e.kind = .toolEnd → p e = true)
    (es : Log) : (es.filter p).filterMap ToolCall.ofEvent? = es.filterMap ToolCall.ofEvent? := by
  rw [List.filterMap_filter]
  apply List.filterMap_congr
  intro e _
  by_cases hk : e.kind = .toolEnd
  · rw [if_pos (hp e hk)]
  · have hnone : ToolCall.ofEvent? e = none := by
      rw [ToolCall.ofEvent?]
      split
      · contradiction
      · rfl
    rw [hnone, ite_self]

theorem toolTimes?_unique {es es' : Log} {times times' : List (String × Int)} (hp : es.Perm es')
    (h : toolTimes? es = some times) (h' : toolTimes? es' = some times') : times = times' := by
  rw [toolTimes?_eq_some h, toolTimes?_eq_some h']
  simp only [groups, keys_perm hp, List.map_map]
  apply List.map_congr_left
  intro runId _
  have hgroup : (members Event.timedRun runId es).Perm (members Event.timedRun runId es') :=
    members_perm hp
  simp only [Function.comp_apply, (hgroup.map Event.elapsed).sum_eq]

end Index

end InvocationTrace
