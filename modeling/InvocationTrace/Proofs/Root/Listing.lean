import InvocationTrace.Root.Listing
import InvocationTrace.Proofs.Ranking

/-!
# Laws of listings

A listing keeps the roots that the filter accepts and sorts them by their starts, the last one first.
What is done to the roots without touching agents and starts can be done to the listing as well.
-/

namespace InvocationTrace

namespace RootSummary

variable {s t : RootSummary}

theorem laterFirst_iff : laterFirst s t = true ↔ t.startLine ≤ s.startLine := decide_eq_true_iff

theorem laterFirst_trans (s t u : RootSummary) (hst : laterFirst s t = true)
    (htu : laterFirst t u = true) : laterFirst s u = true := by
  rw [laterFirst_iff] at *
  omega

theorem laterFirst_total (s t : RootSummary) : (laterFirst s t || laterFirst t s) = true := by
  rw [Bool.or_eq_true, laterFirst_iff, laterFirst_iff]
  omega

end RootSummary

namespace RootListing

variable {agent : Option String} {roots : List RootSummary} {s : RootSummary}

theorem mem_matching :
    s ∈ matching agent roots ↔ s ∈ roots ∧ s.matchesAgent agent = true := by
  rw [matching, List.mem_mergeSort, List.mem_filter]

theorem matching_pairwise (agent : Option String) (roots : List RootSummary) :
    (matching agent roots).Pairwise fun s t => t.startLine ≤ s.startLine := by
  refine (List.pairwise_mergeSort RootSummary.laterFirst_trans RootSummary.laterFirst_total
    _).imp ?_
  exact fun h => RootSummary.laterFirst_iff.mp h

theorem filter_matching (p : RootSummary → Bool) :
    (matching agent roots).filter p = matching agent (roots.filter p) := by
  rw [matching, filter_mergeSort RootSummary.laterFirst_trans RootSummary.laterFirst_total,
    List.filter_comm, matching]

theorem matching_map {f : RootSummary → RootSummary} (hagent : ∀ s, (f s).agent = s.agent)
    (hline : ∀ s, (f s).startLine = s.startLine) :
    matching agent (roots.map f) = (matching agent roots).map f := by
  have haccepts : RootSummary.matchesAgent agent ∘ f = RootSummary.matchesAgent agent := by
    funext s
    simp only [Function.comp_apply, RootSummary.matchesAgent, hagent]
  rw [matching, matching, List.filter_map, haccepts]
  refine (List.map_mergeSort ?_).symm
  intro s _ t _
  rw [RootSummary.laterFirst, RootSummary.laterFirst, hline, hline]

/-- Roots that were all started later than the rest form the head of the listing. -/
theorem matching_eq_append (agent : Option String) {p : RootSummary → Bool}
    (h : ∀ s ∈ roots, ∀ t ∈ roots, p s = true → p t = false → s.startLine < t.startLine) :
    matching agent roots =
      matching agent (roots.filter fun s => !p s) ++ matching agent (roots.filter p) := by
  rw [← filter_matching, ← filter_matching]
  -- The listing runs from late to early, so behind a root with `p` there are only such roots.
  refine eq_filter_append_filter ((matching_pairwise agent roots).imp_of_mem ?_)
  intro s t hs ht hle hps
  by_contra hpt
  have hpt' : p t = false := by simpa using hpt
  have hlt : s.startLine < t.startLine :=
    h s (mem_matching.mp hs).1 t (mem_matching.mp ht).1 hps hpt'
  omega

end RootListing

end InvocationTrace
