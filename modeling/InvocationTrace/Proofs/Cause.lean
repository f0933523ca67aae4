import InvocationTrace.Cause
import InvocationTrace.Proofs.Text.Lowercase

/-!
# Causes in wider excerpts

A message that stands in an excerpt stands in any wider excerpt too, so more of the error output can
only tell a cause that is looked for earlier.
-/

namespace InvocationTrace.Cause

variable {cs ds : List Char} {message : String × Cause}

/-- The place of a cause in the order in which causes are looked for. -/
def rank : Cause → Nat
  | .missingKey => 0
  | .lockHeld => 1
  | .fetchFailed => 2
  | .unknownTool => 3
  | .unrecognised => 4

theorem rank_le_unrecognised (c : Cause) : c.rank ≤ unrecognised.rank := by
  cases c <;> decide

theorem messages_pairwise : messages.Pairwise fun m n => m.2.rank < n.2.rank := by
  decide

theorem sigma_notMem_messages : ∀ m ∈ messages, 'σ' ∉ m.1.toList ∧ 'ς' ∉ m.1.toList := by
  decide

private theorem exists_find?_of_pairwise {α : Type} {key : α → Nat} {p : α → Bool} {l : List α}
    {a : α} (hl : l.Pairwise fun a b => key a < key b) (ha : a ∈ l) (hp : p a = true) :
    ∃ b, l.find? p = some b ∧ key b ≤ key a := by
  induction l with
  | nil => exact absurd ha List.not_mem_nil
  | cons b l ih =>
    obtain ⟨hfirst, hrest⟩ := List.pairwise_cons.mp hl
    by_cases hb : p b = true
    · refine ⟨b, List.find?_cons_of_pos hb, ?_⟩
      rcases List.mem_cons.mp ha with rfl | hmem
      · exact Nat.le_refl _
      · exact Nat.le_of_lt (hfirst a hmem)
    · have hmem : a ∈ l := by
        refine (List.mem_cons.mp ha).resolve_left ?_
        rintro rfl
        exact hb hp
      rw [List.find?_cons_of_neg hb]
      exact ih hrest hmem

/-- No cause that an excerpt tells is looked for before the one that is found. -/
theorem rank_ofLowercase_le (hmem : message ∈ messages) (h : message.1.toList <:+: cs) :
    (ofLowercase cs).rank ≤ message.2.rank := by
  obtain ⟨found, hfound, hle⟩ := exists_find?_of_pairwise messages_pairwise hmem
    (p := fun m => Text.contains m.1.toList cs) (Text.contains_eq_true_iff.mpr h)
  rw [ofLowercase, hfound]
  exact hle

theorem ofLowercase_cases (cs : List Char) : ofLowercase cs = .unrecognised ∨
    ∃ m ∈ messages, m.1.toList <:+: cs ∧ ofLowercase cs = m.2 := by
  rw [ofLowercase]
  cases hfound : messages.find? fun m => Text.contains m.1.toList cs with
  | none => exact .inl rfl
  | some m =>
    have hcontains := List.find?_some hfound
    refine .inr ⟨m, List.mem_of_find?_eq_some hfound, ?_, rfl⟩
    exact Text.contains_eq_true_iff.mp hcontains

theorem rank_ofLowercase_mono
    (h : ∀ m ∈ messages, m.1.toList <:+: cs → m.1.toList <:+: ds) :
    (ofLowercase ds).rank ≤ (ofLowercase cs).rank := by
  rcases ofLowercase_cases cs with hnone | ⟨m, hmem, hpart, htold⟩
  · rw [hnone]
    exact rank_le_unrecognised _
  · rw [htold]
    exact rank_ofLowercase_le hmem (h m hmem hpart)

/-- Letters around an excerpt may change the form of its sigmas, and no message has a sigma. -/
theorem message_infix_lowercase_append (hmem : message ∈ messages) (p s q : List Char)
    (h : message.1.toList <:+: Text.lowercase s) :
    message.1.toList <:+: Text.lowercase (p ++ s ++ q) := by
  obtain ⟨hmedial, hfinal⟩ := sigma_notMem_messages message hmem
  refine List.IsInfix.trans ?_ (Text.lowercaseWithin_infix p s q)
  rw [Text.lowercase, Text.lowercaseAfter_eq] at h
  rw [← Text.infix_withMedialSigma_iff hmedial hfinal, Text.withMedialSigma_lowercaseWithin] at *
  exact h

theorem ofExcerpt?_of_ne_empty {s : String} (h : s ≠ "") :
    ofExcerpt? (some s) = some (ofLowercase (Text.lowercase s.toList)) := by
  have hlower : Text.lowercase s.toList ≠ [] := by
    rw [Ne, Text.lowercase_eq_nil_iff, String.toList_eq_nil_iff]
    exact h
  rw [ofExcerpt?]
  split
  · rename_i hnil
    exact absurd hnil hlower
  · rfl

theorem ofExcerpt?_empty : ofExcerpt? (some "") = none := rfl

theorem ofExcerpt?_eq_none_iff {excerpt : Option String} :
    ofExcerpt? excerpt = none ↔ excerpt = none ∨ excerpt = some "" := by
  cases excerpt with
  | none => simp [ofExcerpt?]
  | some s =>
    by_cases h : s = ""
    · simp [h, ofExcerpt?_empty]
    · simp [ofExcerpt?_of_ne_empty h, h]

/-- A wider excerpt tells the same cause or one that is looked for earlier. The case of ASCII letters
makes no difference, and only where there is no excerpt, or an empty one, is there no cause. -/
theorem ofExcerpt?_widened :
    (∀ p s q : String, s ≠ "" → ∃ c d, ofExcerpt? (some s) = some c ∧
        ofExcerpt? (some (p ++ s ++ q)) = some d ∧ d.rank ≤ c.rank) ∧
      (∀ s t : String, s.toList.map Char.toLower = t.toList.map Char.toLower →
        ofExcerpt? (some s) = ofExcerpt? (some t)) ∧
      (∀ excerpt, ofExcerpt? excerpt = none ↔ excerpt = none ∨ excerpt = some "") := by
  refine ⟨?_, ?_, fun _ => ofExcerpt?_eq_none_iff⟩
  · intro p s q hs
    have hwider : p ++ s ++ q ≠ "" := by
      simp [hs]
    refine ⟨_, _, ofExcerpt?_of_ne_empty hs, ofExcerpt?_of_ne_empty hwider, ?_⟩
    rw [String.toList_append, String.toList_append]
    refine rank_ofLowercase_mono ?_
    intro m hmem hpart
    exact message_infix_lowercase_append hmem _ _ _ hpart
  · intro s t hst
    have hlower : Text.lowercase s.toList = Text.lowercase t.toList := by
      rw [← Text.lowercase_map_toLower, hst, Text.lowercase_map_toLower]
    rw [ofExcerpt?, ofExcerpt?, hlower]

/-- A message that is completed across the seam comes before the one within the excerpt. -/
theorem ofExcerpt?_widened_seam :
    "KEY found, fetch failed" ≠ "" ∧
      ofExcerpt? (some "KEY found, fetch failed") = some .fetchFailed ∧
      ∃ d, ofExcerpt? (some ("No API " ++ "KEY found, fetch failed" ++ "!")) = some d ∧
        d.rank ≤ fetchFailed.rank ∧ d = .missingKey := by
  have hnonempty : "KEY found, fetch failed" ≠ "" := by decide
  have hnarrow : ofExcerpt? (some "KEY found, fetch failed") = some .fetchFailed := by
    decide +kernel
  have hwide : ofExcerpt? (some ("No API " ++ "KEY found, fetch failed" ++ "!")) =
      some .missingKey := by decide +kernel
  obtain ⟨c, d, hc, hd, hrank⟩ := ofExcerpt?_widened.1 "No API " _ "!" hnonempty
  rw [hnarrow] at hc
  obtain rfl := Option.some.inj hc
  exact ⟨hnonempty, hnarrow, d, hd, hrank, Option.some.inj (hd.symm.trans hwide)⟩

end InvocationTrace.Cause
