import InvocationTrace.Proofs.Index.Record
import InvocationTrace.Proofs.Tree.Reachable

/-!
# Trees of children

An invocation under a root can be asked for like a root. Its tree is made from another scope, which
its descendants belong to only as far as their events name it as their root. So it shows what
stands under the invocation in the tree of the root exactly if parents lead to the invocation in
both scopes alike.
-/

namespace InvocationTrace

open Grouping

/-- The parent of an invocation in the scope of a root: that of its last start there, or else the
root. -/
def Log.parentIn (events : Log) (rootId id : String) : String :=
  ((Log.lastStart? (members Event.invocationId id (Index.scope rootId events))).bind
    Event.parentInvocationId).getD rootId

/-- In the scope of a root, parents lead from an invocation that is not the root to a given one. -/
inductive Log.LeadsTo (events : Log) (rootId top : String) : String → Prop
  | child {id : String} : (∃ e ∈ Index.scope rootId events, e.invocationId = some id) →
      id ≠ rootId → events.parentIn rootId id = top → Log.LeadsTo events rootId top id
  | step {id : String} : (∃ e ∈ Index.scope rootId events, e.invocationId = some id) →
      id ≠ rootId → Log.LeadsTo events rootId top (events.parentIn rootId id) →
      Log.LeadsTo events rootId top id

namespace Forest

variable {α : Type} [DecidableEq α]

def under (a : α) : Forest α → List α
  | .nil => []
  | .cons item below rest =>
      (if item = a then below.items else []) ++ below.under a ++ rest.under a

theorem under_ofList (a : α) (trees : List (α × Forest α)) :
    (ofList trees).under a =
      trees.flatMap fun tree => (if tree.1 = a then tree.2.items else []) ++ tree.2.under a := by
  induction trees with
  | nil => rfl
  | cons tree trees ih => rw [ofList, under, ih, List.flatMap_cons]

def invocationsUnder (f : Forest TreeItem) (c : Invocation) : List Invocation :=
  (f.under (.invocation c)).filterMap TreeItem.invocation?

end Forest

namespace Index

variable {rootId id : String} {events : Log} {ix sub : Index} {withRuns : Bool}
  {i c x : Invocation} {f : Forest TreeItem}

/-- The invocations of the rows below the row of an invocation. -/
def drawnUnder (ix : Index) (withRuns : Bool) (c : Invocation) : List Invocation :=
  (ix.forest withRuns).invocationsUnder c

theorem parentOf_of_build (h : build rootId events = .ok ix) (hi : i ∈ ix.invocations)
    (hne : i.id ≠ rootId) : ix.parentOf i = events.parentIn rootId i.id := by
  obtain ⟨-, hinv, -, -⟩ := build_eq_ok_iff.mp h
  have hrec := (mem_recordsOf.mp (hinv ▸ hi)).2
  rw [recordOf, if_neg hne] at hrec
  rw [parentOf, rootId_of_build h, Log.parentIn, ← Invocation.parentInvocationId_ofEvents, ← hrec]

theorem mem_childrenOf_of_build (h : build rootId events = .ok ix) : x ∈ ix.childrenOf id ↔
    x ∈ ix.invocations ∧ x.id ≠ rootId ∧ events.parentIn rootId x.id = id := by
  rw [mem_childrenOf, rootId_of_build h]
  constructor
  · intro hx
    obtain ⟨hmem, hne, hparent⟩ := hx
    exact ⟨hmem, hne, by rw [← parentOf_of_build h hmem hne, hparent]⟩
  · intro hx
    obtain ⟨hmem, hne, hparent⟩ := hx
    exact ⟨hmem, hne, by rw [parentOf_of_build h hmem hne, hparent]⟩

/-- In the index of a root, parents lead to an invocation from exactly what descends from it. -/
theorem leadsTo_iff_descends (h : build rootId events = .ok ix) :
    events.LeadsTo rootId c.id id ↔ ∃ n x, ix.Descends (n + 1) c x ∧ x.id = id := by
  constructor
  · intro hlead
    induction hlead with
    | @child id hlogged hne hparent =>
      obtain ⟨x, hx, hid⟩ := (exists_mem_invocations_of_build h).mpr hlogged
      subst hid
      have hchild : x ∈ ix.childrenOf c.id :=
        (mem_childrenOf_of_build h).mpr ⟨hx, hne, hparent⟩
      exact ⟨0, x, .step (.here c) hchild, rfl⟩
    | @step id hlogged hne _ ih =>
      obtain ⟨x, hx, hid⟩ := (exists_mem_invocations_of_build h).mpr hlogged
      subst hid
      obtain ⟨n, p, hp, hpid⟩ := ih
      have hchild : x ∈ ix.childrenOf p.id :=
        (mem_childrenOf_of_build h).mpr ⟨hx, hne, hpid.symm⟩
      exact ⟨n + 1, x, .step hp hchild, rfl⟩
  · intro hdesc
    obtain ⟨n, x, hx, hid⟩ := hdesc
    subst hid
    have hlogged : ∀ y ∈ ix.invocations, ∃ e ∈ scope rootId events, e.invocationId = some y.id :=
      fun y hy => (exists_mem_invocations_of_build h).mp ⟨y, hy, rfl⟩
    induction n generalizing x with
    | zero =>
      cases hx with
      | step hhere hchild =>
        cases hhere
        obtain ⟨hmem, hne, hparent⟩ := (mem_childrenOf_of_build h).mp hchild
        exact .child (hlogged x hmem) hne hparent
    | succ n ih =>
      cases hx with
      | step hp hchild =>
        obtain ⟨hmem, hne, hparent⟩ := (mem_childrenOf_of_build h).mp hchild
        refine .step (hlogged x hmem) hne ?_
        rw [hparent]
        exact ih _ hp

theorem invocationsUnder_layer (below : Invocation → Forest TreeItem) :
    (ix.layer withRuns i below).invocationsUnder c =
      (ix.childrenOf i.id).flatMap fun d =>
        (if d = c then (below d).invocations else []) ++ (below d).invocationsUnder c := by
  have hruns : ((if withRuns then (ix.shownRuns i).map fun r => (TreeItem.run r, Forest.nil)
      else []).flatMap fun tree => (if tree.1 = TreeItem.invocation c then tree.2.items else []) ++
        tree.2.under (TreeItem.invocation c)) = [] := by
    cases withRuns <;> simp [Forest.under]
  have hchild : ∀ d, (if TreeItem.invocation d = .invocation c then (below d).items else
      []).filterMap TreeItem.invocation? = if d = c then (below d).invocations else [] := by
    intro d
    by_cases hd : d = c
    · simp [hd, Forest.invocations]
    · simp [hd]
  simp only [Forest.invocationsUnder, layer, Forest.under_ofList, List.flatMap_append, hruns,
    List.nil_append, List.flatMap_map, List.filterMap_flatMap, List.filterMap_append, hchild]

theorem Unfolds.mem_invocationsUnder_iff (h : ix.Unfolds withRuns i f) :
    x ∈ f.invocationsUnder c ↔
      (∃ m, ix.Descends (m + 1) i c) ∧ ∃ n, ix.Descends (n + 1) c x := by
  induction h with
  | visit i below hbelow ih =>
    simp only [invocationsUnder_layer, List.mem_flatMap, List.mem_append]
    constructor
    · intro hx
      obtain ⟨d, hd, hx⟩ := hx
      rcases hx with hx | hx
      · by_cases hdc : d = c
        · subst hdc
          rw [if_pos rfl] at hx
          exact ⟨⟨0, .step (.here i) hd⟩, (hbelow _ hd).mem_invocations_iff.mp hx⟩
        · rw [if_neg hdc] at hx
          cases hx
      · obtain ⟨⟨m, hm⟩, hn⟩ := (ih d hd).mp hx
        exact ⟨⟨m + 1, Descends.succ_iff.mpr ⟨d, hd, hm⟩⟩, hn⟩
    · intro hx
      obtain ⟨⟨m, hm⟩, hn⟩ := hx
      obtain ⟨d, hd, hdc⟩ := Descends.succ_iff.mp hm
      refine ⟨d, hd, ?_⟩
      cases m with
      | zero =>
        cases hdc
        rw [if_pos rfl]
        exact .inl ((hbelow _ hd).mem_invocations_iff.mpr hn)
      | succ m => exact .inr ((ih d hd).mpr ⟨⟨m, hdc⟩, hn⟩)

theorem mem_ids_drawnUnder_iff (h : build rootId events = .ok ix)
    (hc : c ∈ ix.drawnInvocations withRuns) (hne : c.id ≠ rootId) :
    id ∈ (ix.drawnUnder withRuns c).map Invocation.id ↔ events.LeadsTo rootId c.id id := by
  have hu : ix.Unfolds withRuns ix.root (ix.forest withRuns) := .root (keyed_of_build h)
  have hroot : ∃ m, ix.Descends (m + 1) ix.root c := by
    rcases (mem_drawnInvocations_iff_root_or (keyed_of_build h)).mp hc with rfl | hm
    · exact absurd (rootId_of_build h) hne
    · exact hm
  rw [leadsTo_iff_descends h, List.mem_map]
  constructor
  · intro hid
    obtain ⟨x, hx, hxid⟩ := hid
    obtain ⟨-, n, hn⟩ := hu.mem_invocationsUnder_iff.mp hx
    exact ⟨n, x, hn, hxid⟩
  · intro hid
    obtain ⟨n, x, hn, hxid⟩ := hid
    exact ⟨x, hu.mem_invocationsUnder_iff.mpr ⟨hroot, n, hn⟩, hxid⟩

theorem mem_ids_drawnInvocations_iff (h : build rootId events = .ok ix) :
    id ∈ (ix.drawnInvocations withRuns).map Invocation.id ↔
      id = rootId ∨ events.LeadsTo rootId rootId id := by
  have hroot : ix.root.id = rootId := rootId_of_build h
  have hlead : events.LeadsTo rootId rootId id ↔
      ∃ n x, ix.Descends (n + 1) ix.root x ∧ x.id = id := by
    rw [← leadsTo_iff_descends h, hroot]
  rw [hlead, List.mem_map]
  simp only [mem_drawnInvocations_iff_root_or (keyed_of_build h)]
  constructor
  · intro hid
    obtain ⟨x, hx, hxid⟩ := hid
    rcases hx with rfl | ⟨n, hn⟩
    · exact .inl (hxid.symm.trans hroot)
    · exact .inr ⟨n, x, hn, hxid⟩
  · intro hid
    rcases hid with hid | ⟨n, x, hn, hxid⟩
    · exact ⟨ix.root, .inl rfl, by rw [hroot, hid]⟩
    · exact ⟨x, .inr ⟨n, hn⟩, hxid⟩

/-- Nothing in a tree stands under itself. -/
theorem not_leadsTo_self_of_drawn (h : build rootId events = .ok ix)
    (hc : c ∈ ix.drawnInvocations withRuns) : ¬ events.LeadsTo rootId c.id c.id := by
  intro hlead
  have hk : ix.Keyed := keyed_of_build h
  obtain ⟨m, hm⟩ := (mem_drawnInvocations_iff_descends hk).mp hc
  obtain ⟨n, x, hx, hid⟩ := (leadsTo_iff_descends h).mp hlead
  have hmem : c ∈ ix.invocations := hm.mem_invocations hk.root_mem
  obtain rfl := hk.eq_of_id (hx.mem_invocations hmem) hmem hid
  have := hm.level_unique hk (hm.trans hx)
  omega

/-- The tree of an invocation that no event names as its root shows nothing but itself. -/
theorem drawn_of_unnamed (h : build rootId events = .ok ix)
    (hunnamed : ∀ e ∈ events, e.rootInvocationId ≠ some rootId) :
    (ix.drawnInvocations withRuns).map Invocation.id = [rootId] := by
  have hk : ix.Keyed := keyed_of_build h
  have hall : ∀ i ∈ ix.invocations, i.id = ix.root.id := by
    intro i hi
    obtain ⟨e, he, hid⟩ := (exists_mem_invocations_of_build h).mp ⟨i, hi, rfl⟩
    obtain ⟨hmem, hbelongs, -⟩ := mem_scope.mp he
    rcases hbelongs with hroot | hown
    · exact absurd hroot (hunnamed e hmem)
    · rw [hown] at hid
      rw [← Option.some.inj hid]
      exact (rootId_of_build h).symm
  have hdistinct : ((ix.drawnInvocations withRuns).map Invocation.id).Nodup :=
    nodup_ids_drawnInvocations hk
  rw [drawnInvocations_eq, List.map_cons, List.nodup_cons] at hdistinct
  have hbelow : (ix.forest withRuns).invocations = [] := by
    apply List.eq_nil_iff_forall_not_mem.mpr
    intro i hi
    have hdrawn : i ∈ ix.drawnInvocations withRuns := by
      rw [drawnInvocations_eq]
      exact List.mem_cons_of_mem _ hi
    have hid : i.id = ix.root.id := hall i ((mem_drawnInvocations hk).mp hdrawn).1
    exact hdistinct.1 (hid ▸ List.mem_map_of_mem hi)
  rw [drawnInvocations_eq, hbelow, ← rootId_of_build h]
  rfl

/-- An invocation of a tree is found when it is asked for like a root. What its own tree shows is
itself and what stands under it in the tree of the root exactly if parents lead to it from the same
invocations in its own scope and in that of the root. -/
theorem subtree_iff (h : build rootId events = .ok ix) (withRuns : Bool)
    (hc : c ∈ ix.drawnInvocations withRuns) (hne : c.id ≠ rootId) :
    build c.id events = .error .sumOverflow ∨ ∃ sub, build c.id events = .ok sub ∧
      ((∀ id, id ∈ (sub.drawnInvocations withRuns).map Invocation.id ↔
          id = c.id ∨ id ∈ (ix.drawnUnder withRuns c).map Invocation.id) ↔
        ∀ id, events.LeadsTo c.id c.id id ↔ events.LeadsTo rootId c.id id) := by
  rcases build_cases c.id events with hb | hb | ⟨sub, hb⟩
  · exact .inl hb
  · have hmem : c ∈ ix.invocations := ((mem_drawnInvocations (keyed_of_build h)).mp hc).1
    obtain ⟨e, he, hid⟩ := (exists_mem_invocations_of_build h).mp ⟨c, hmem, rfl⟩
    exact absurd hid ((build_eq_rootNotFound_iff.mp hb).2 e (mem_scope.mp he).1)
  · -- Both trees come down to parents in the log; neither puts the invocation below itself.
    refine .inr ⟨sub, hb, ?_⟩
    have hself : ¬ events.LeadsTo c.id c.id c.id := by
      intro hlead
      cases hlead with
      | child _ hne' _ => exact hne' rfl
      | step _ hne' _ => exact hne' rfl
    have hself' : ¬ events.LeadsTo rootId c.id c.id := not_leadsTo_self_of_drawn h hc
    apply forall_congr'
    intro id
    rw [mem_ids_drawnInvocations_iff hb, mem_ids_drawnUnder_iff h hc hne]
    by_cases hid : id = c.id
    · subst hid
      simp only [true_or, hself, hself']
    · simp only [hid, false_or]

end Index

/-- A root, a child and a grandchild, which all name the one root. -/
def grandchildLog : Log :=
  [{ line := 1, kind := .invocationStart, invocationId := some "r" },
   { line := 2, kind := .invocationStart, invocationId := some "c",
     rootInvocationId := some "r", parentInvocationId := some "r" },
   { line := 3, kind := .invocationStart, invocationId := some "g",
     rootInvocationId := some "r", parentInvocationId := some "c" }]

/-- The child's own row, in both of the logs. -/
def childRow : Invocation :=
  { id := "c", startLine := some 2, depth := some 0, parentInvocationId := some "r" }

theorem grandchildLog_child_alone :
    ∃ ix sub, Index.build "r" grandchildLog = .ok ix ∧
      Index.build childRow.id grandchildLog = .ok sub ∧
      childRow ∈ ix.drawnInvocations false ∧
      (ix.drawnUnder false childRow).map Invocation.id = ["g"] ∧
      (sub.drawnInvocations false).map Invocation.id = [childRow.id] :=
  ⟨_, _, rfl, rfl, List.mem_of_getElem? (i := 1) (by cbv), by cbv, by cbv⟩

/-- The grandchild starts once more and then names the child as its root. -/
def restartedLog : Log :=
  grandchildLog ++
    [{ line := 4, kind := .invocationStart, invocationId := some "g",
       rootInvocationId := some "c" }]

theorem subtree_iff_restartedLog :
    ∃ ix sub, Index.build "r" restartedLog = .ok ix ∧ childRow ∈ ix.drawnInvocations false ∧
      childRow.id ≠ "r" ∧ Index.build childRow.id restartedLog = .ok sub ∧
      ∀ id, Log.LeadsTo restartedLog childRow.id childRow.id id ↔
        Log.LeadsTo restartedLog "r" childRow.id id := by
  have hroot : ∃ ix, Index.build "r" restartedLog = .ok ix ∧
      childRow ∈ ix.drawnInvocations false ∧
      (ix.drawnUnder false childRow).map Invocation.id = ["g"] :=
    ⟨_, rfl, List.mem_of_getElem? (i := 1) (by cbv), by cbv⟩
  have hown : ∃ sub, Index.build childRow.id restartedLog = .ok sub ∧
      (sub.drawnInvocations false).map Invocation.id = ["c", "g"] :=
    ⟨_, rfl, by cbv⟩
  obtain ⟨ix, h, hc, hunder⟩ := hroot
  obtain ⟨sub, hsub, hids⟩ := hown
  have hne : childRow.id ≠ "r" := by decide
  obtain hover | ⟨sub', hsub', hiff⟩ := Index.subtree_iff h false hc hne
  · rw [hsub] at hover
    cases hover
  · obtain rfl : sub = sub' := Except.ok.inj (hsub.symm.trans hsub')
    refine ⟨ix, sub, h, hc, hne, hsub, hiff.mp ?_⟩
    intro id
    rw [hids, hunder]
    simp [childRow]

end InvocationTrace
