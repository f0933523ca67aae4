import InvocationTrace.Proofs.Root.Listing
import InvocationTrace.Proofs.Text.Lowercase

/-!
# Literal parts of an agent's name

The filter brings the text it is given to lowercase on its own, so a capital sigma near an end of that
text may get another form than it has inside the name. These sigmas are all that keeps the filter from
finding a literal part of a name, and each of them does so in some name.
-/

namespace InvocationTrace

namespace Text

variable {before after cs : List Char}

/-- Whether the form of some capital sigma depends on what stands around the text: nothing but
case-ignorable characters lies between it and one end of the text, and a cased character beyond that
end would change its form. -/
def HasOpenSigma (cs : List Char) : Prop :=
  ∃ u v, cs = u ++ 'Σ' :: v ∧
    (u.all isCaseIgnorable = true ∧ casedFirst v = false ∨
      casedFirst u.reverse = true ∧ v.all isCaseIgnorable = true)

theorem lowercaseAt_sigma_append {u v : List Char}
    (h : ¬(u.all isCaseIgnorable = true ∧ casedFirst v = false ∨
      casedFirst u.reverse = true ∧ v.all isCaseIgnorable = true)) (before after : List Char) :
    lowercaseAt (u.reverse ++ before) 'Σ' (v ++ after) = lowercaseAt u.reverse 'Σ' v := by
  rw [lowercaseAt, lowercaseAt, casedFirst_append, casedFirst_append, List.all_reverse]
  by_cases hu : u.all isCaseIgnorable = true
  · have hv : casedFirst v = true := by
      by_contra hcased
      exact h (.inl ⟨hu, by simpa using hcased⟩)
    have hvall : ¬v.all isCaseIgnorable = true := by
      intro hall
      rw [casedFirst_of_all hall] at hv
      cases hv
    simp [hvall, hv]
  · by_cases hv : v.all isCaseIgnorable = true
    · have hcased : casedFirst u.reverse = false := by
        by_contra hcased
        exact h (.inr ⟨by simpa using hcased, hv⟩)
      simp [hu, hcased]
    · simp [hu, hv]

/-- Without an open sigma the surroundings make no difference. -/
theorem lowercaseWithin_of_not_hasOpenSigma (h : ¬HasOpenSigma cs) (before after : List Char) :
    lowercaseWithin before cs after = lowercase cs := by
  have hfrom : ∀ u v, cs = u ++ v →
      lowercaseWithin (u.reverse ++ before) v after = lowercaseWithin u.reverse v [] := by
    intro u v
    induction v generalizing u with
    | nil => exact fun _ => rfl
    | cons c v ih =>
      intro hcs
      have hhead : lowercaseAt (u.reverse ++ before) c (v ++ after) =
          lowercaseAt u.reverse c (v ++ []) := by
        rw [List.append_nil]
        by_cases hc : c = 'Σ'
        · subst hc
          exact lowercaseAt_sigma_append (fun hopen => h ⟨u, v, hcs, hopen⟩) before after
        · rw [lowercaseAt_of_ne hc, lowercaseAt_of_ne hc]
      have htail := ih (u ++ [c]) (by simp [hcs])
      rw [List.reverse_append, List.reverse_singleton, List.singleton_append,
        List.cons_append] at htail
      rw [lowercaseWithin, lowercaseWithin, hhead, htail]
  rw [lowercase, lowercaseAfter_eq]
  exact hfrom [] cs rfl

/-- Between letters other than sigma there is no open one. -/
theorem not_hasOpenSigma_of_ends {c d : Char} (hc : isCaseIgnorable c = false) (hc' : c ≠ 'Σ')
    (hd : isCaseIgnorable d = false) (hd' : d ≠ 'Σ') (cs : List Char) :
    ¬HasOpenSigma (c :: (cs ++ [d])) := by
  rintro ⟨u, v, htext, ⟨hu, -⟩ | ⟨-, hv⟩⟩
  · cases u with
    | nil => exact hc' (List.cons.inj htext).1
    | cons e u =>
      obtain ⟨rfl, -⟩ := List.cons.inj htext
      simp [hc] at hu
  · have hlast : ∀ xs e, c :: cs ++ [d] = xs ++ [e] → d = e := fun xs e h =>
      List.singleton_inj.mp (List.append_inj' h rfl).2
    rcases v.eq_nil_or_concat' with rfl | ⟨v, e, rfl⟩
    · exact hd' (hlast u 'Σ' htext)
    · obtain rfl := hlast (u ++ 'Σ' :: v) e (by simpa using htext)
      simp [hd] at hv

theorem isCased_sigma : isCased 'Σ' = true := by decide +kernel

theorem isCaseIgnorable_sigma : isCaseIgnorable 'Σ' = false := by decide +kernel

theorem casedFirst_sigma (cs : List Char) : casedFirst ('Σ' :: cs) = true := by
  rw [casedFirst_cons, isCaseIgnorable_sigma, isCased_sigma]
  rfl

theorem sigma_notMem_of_all {cs : List Char} (h : cs.all isCaseIgnorable = true) : 'Σ' ∉ cs := by
  intro hmem
  have hsigma := List.all_eq_true.mp h 'Σ' hmem
  rw [isCaseIgnorable_sigma] at hsigma
  cases hsigma

theorem casedFirst_letter : casedFirst ['a'] = true := by decide +kernel

theorem lowercaseWithin_append_sigma (before u v after : List Char) :
    lowercaseWithin before (u ++ 'Σ' :: v) after =
      lowercaseWithin before u ('Σ' :: v ++ after) ++
        (lowercaseAt (u.reverse ++ before) 'Σ' (v ++ after) ++
          lowercaseWithin ('Σ' :: (u.reverse ++ before)) v after) := by
  rw [lowercaseWithin_append, lowercaseWithin]

private theorem not_infix_of_count_lt {xs ys : List Char} {c : Char}
    (h : ys.count c < xs.count c) : ¬xs <:+: ys := by
  intro hpart
  exact absurd (hpart.sublist.count_le c) (Nat.not_le_of_lt h)

/-- A letter in front makes a sigma at the front of a text final. -/
theorem not_infix_lowercase_cons {u v : List Char} (hu : u.all isCaseIgnorable = true)
    (hv : casedFirst v = false) :
    ¬lowercase (u ++ 'Σ' :: v) <:+: lowercase ('a' :: (u ++ 'Σ' :: v)) := by
  have hsigma : lowercaseAt u.reverse 'Σ' v = ['σ'] := by
    rw [lowercaseAt, casedFirst_of_all (by rwa [List.all_reverse])]
    rfl
  have hsigma' : lowercaseAt (u.reverse ++ ['a']) 'Σ' v = ['ς'] := by
    rw [lowercaseAt, casedFirst_append, List.all_reverse, if_pos hu, casedFirst_letter, hv]
    rfl
  have hrest : lowercaseWithin ('Σ' :: (u.reverse ++ ['a'])) v [] =
      lowercaseWithin ('Σ' :: u.reverse) v [] :=
    lowercaseWithin_congr (by rw [casedFirst_sigma, casedFirst_sigma]) rfl v
  have hletter : lowercaseAt [] 'a' (u ++ 'Σ' :: v) = ['a'] := lowercaseAt_of_ne (by decide) _ _
  refine not_infix_of_count_lt (c := 'σ') ?_
  simp only [lowercase, lowercaseAfter_eq, lowercaseWithin, List.append_nil, hletter,
    lowercaseWithin_append_sigma, lowercaseWithin_of_notMem (sigma_notMem_of_all hu), hsigma,
    hsigma', hrest]
  simp

/-- A letter behind keeps a sigma at the end of a text from being final. -/
theorem not_infix_lowercase_concat {u v : List Char} (hu : casedFirst u.reverse = true)
    (hv : v.all isCaseIgnorable = true) :
    ¬lowercase (u ++ 'Σ' :: v) <:+: lowercase (u ++ 'Σ' :: v ++ ['a']) := by
  have hsigma : lowercaseAt u.reverse 'Σ' v = ['ς'] := by
    rw [lowercaseAt, hu, casedFirst_of_all hv]
    rfl
  have hsigma' : lowercaseAt u.reverse 'Σ' (v ++ ['a']) = ['σ'] := by
    rw [lowercaseAt, casedFirst_append, if_pos hv, casedFirst_letter, if_neg (by simp)]
    rfl
  have hfront : lowercaseWithin [] u ('Σ' :: (v ++ ['a'])) = lowercaseWithin [] u ('Σ' :: v) :=
    lowercaseWithin_congr rfl (by rw [casedFirst_sigma, casedFirst_sigma]) u
  have hletter : ∀ before, lowercaseWithin before ['a'] [] = ['a'] := by
    intro before
    exact lowercaseWithin_of_notMem (by decide) before []
  refine not_infix_of_count_lt (c := 'ς') ?_
  simp only [lowercase, lowercaseAfter_eq, lowercaseWithin_append _ _ ['a'], hletter,
    lowercaseWithin_append_sigma, lowercaseWithin_of_notMem (sigma_notMem_of_all hv),
    List.append_nil, List.cons_append, hsigma, hsigma', hfront]
  simp

theorem exists_missed_of_hasOpenSigma (h : HasOpenSigma cs) :
    ∃ text, cs <:+: text ∧ ¬lowercase cs <:+: lowercase text := by
  obtain ⟨u, v, rfl, ⟨hu, hv⟩ | ⟨hu, hv⟩⟩ := h
  · exact ⟨_, (List.suffix_cons 'a' _).isInfix, not_infix_lowercase_cons hu hv⟩
  · exact ⟨_, (List.prefix_append _ ['a']).isInfix, not_infix_lowercase_concat hu hv⟩

end Text

namespace RootSummary

theorem matchesAgent_iff {needle : String} {s : RootSummary} :
    s.matchesAgent (some needle) = true ↔
      Text.lowercase needle.toList <:+: Text.lowercase s.agent.toList :=
  Text.contains_eq_true_iff

theorem matchesAgent_of_infix {needle : String} {s : RootSummary}
    (h : ¬Text.HasOpenSigma needle.toList) (hpart : needle.toList <:+: s.agent.toList) :
    s.matchesAgent (some needle) = true := by
  obtain ⟨p, q, hname⟩ := hpart
  rw [matchesAgent_iff, ← hname, ← Text.lowercaseWithin_of_not_hasOpenSigma h p.reverse q]
  exact Text.lowercaseWithin_infix p needle.toList q

/-- The filter finds a text in every agent's name of which it is a literal part, and so lists the root,
exactly when the text has no capital sigma whose form it leaves open. -/
theorem finds_literal_iff (needle : String) :
    (∀ s : RootSummary, needle.toList <:+: s.agent.toList →
      s.matchesAgent (some needle) = true ∧
        ∀ roots, s ∈ roots → s ∈ (RootListing.ofRoots roots (some needle) none).rows) ↔
      ¬Text.HasOpenSigma needle.toList := by
  constructor
  · intro hfinds hopen
    obtain ⟨name, hpart, hmissed⟩ := Text.exists_missed_of_hasOpenSigma hopen
    let s := opened "r" { line := 1, agent := some (String.ofList name) }
    have hagent : s.agent.toList = name := String.toList_ofList
    have hfound := (hfinds s (by rwa [hagent])).1
    rw [matchesAgent_iff, hagent] at hfound
    exact hmissed hfound
  · intro hclosed s hpart
    have hfound := matchesAgent_of_infix hclosed hpart
    exact ⟨hfound, fun roots hs => RootListing.mem_matching.mpr ⟨hs, hfound⟩⟩

end RootSummary

/-- One root, named by a single word that has sigmas in its midst. -/
def seaLog : Log :=
  [{ line := 1, kind := .invocationStart, invocationId := some "r", agent := some "ΘΑΛΑΣΣΑ" }]

/-- A part whose sigmas have a letter on either side is found. -/
theorem finds_literal_iff_seaLog :
    ¬Text.HasOpenSigma "ΑΣΣΑ".toList ∧
      ∃ s ∈ RootSummary.collect seaLog, "ΑΣΣΑ".toList <:+: s.agent.toList ∧
        s.matchesAgent (some "ΑΣΣΑ") = true := by
  have hclosed : ¬Text.HasOpenSigma "ΑΣΣΑ".toList :=
    Text.not_hasOpenSigma_of_ends (c := 'Α') (d := 'Α') (by decide +kernel) (by decide)
      (by decide +kernel) (by decide) ['Σ', 'Σ']
  have hpart : "ΑΣΣΑ".toList <:+: "ΘΑΛΑΣΣΑ".toList := ⟨"ΘΑΛ".toList, [], by decide⟩
  have hfound := (RootSummary.finds_literal_iff "ΑΣΣΑ").mpr hclosed
  exact ⟨hclosed, _, .head _, hpart, (hfound _ hpart).1⟩

/-- The beginning of the name up to its first sigma is not found. -/
theorem seaLog_misses_beginning :
    ∃ s ∈ RootSummary.collect seaLog, "ΘΑΛΑΣ".toList <:+: s.agent.toList ∧
      s.matchesAgent (some "ΘΑΛΑΣ") = false ∧
      s ∉ (RootListing.ofRoots (RootSummary.collect seaLog) (some "ΘΑΛΑΣ") none).rows := by
  refine ⟨_, .head _, ?_, ?_, ?_⟩
  · exact ⟨[], "ΣΑ".toList, by decide⟩
  · decide +kernel
  · decide +kernel

end InvocationTrace
