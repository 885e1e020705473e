import PackedEdges.EdgeStore
import PackedEdges.Proofs.SuggestionScores

/-! The first of the best candidates. The search for a suggestion goes through the candidates once
and remembers one of them; what it ends with is the earliest candidate with the greatest score.
Candidates that are not like enough never matter, nor does the place of the others, as long as
those with one score stay in their order. -/

namespace PackedEdges.Suggestion

open FloatOrder

/-- `best` is like enough, better than all before it, and nothing after it is better. -/
def FirstBest (score : String → Float) (candidates : List String) (best : String) : Prop :=
  threshold ≤ score best ∧
    ∃ before after, candidates = before ++ best :: after ∧
      (∀ c ∈ before, score c < score best) ∧ ∀ c ∈ after, score c ≤ score best

/-- What the search remembers after it has seen some candidates. -/
inductive Remembers (score : String → Float) (seen : List String) : Option String × Float → Prop
  | nothing (low : ∀ c ∈ seen, score c < threshold) : Remembers score seen (none, 0.0)
  | candidate (best : String) (first : FirstBest score seen best) :
      Remembers score seen (some best, score best)

variable {score : String → Float} {candidates seen others : List String} {best other c : String}
  {state : Option String × Float}

theorem threshold_isNaN : threshold.isNaN = false := by
  decide

theorem zero_lt_threshold : (0.0 : Float) < threshold := by
  decide

theorem FirstBest.mem (h : FirstBest score candidates best) : best ∈ candidates := by
  obtain ⟨-, before, after, rfl, -⟩ := h
  simp

theorem FirstBest.le (h : FirstBest score candidates best)
    (numbers : ∀ c ∈ candidates, (score c).isNaN = false) (hc : c ∈ candidates) :
    score c ≤ score best := by
  have hbest := numbers best h.mem
  obtain ⟨-, before, after, rfl, hbefore, hafter⟩ := h
  rcases List.mem_append.1 hc with hc' | hc'
  · exact le_of_lt_number (numbers c hc) hbest (hbefore c hc')
  · rcases List.mem_cons.1 hc' with rfl | hc'
    · exact le_self hbest
    · exact hafter c hc'

theorem firstBest_concat (hc : threshold ≤ score c) (hseen : ∀ d ∈ seen, score d < score c) :
    FirstBest score (seen ++ [c]) c :=
  ⟨hc, seen, [], rfl, hseen, by simp⟩

theorem FirstBest.concat (h : FirstBest score seen best) (hc : score c ≤ score best) :
    FirstBest score (seen ++ [c]) best := by
  obtain ⟨hbest, before, after, rfl, hbefore, hafter⟩ := h
  refine ⟨hbest, before, after ++ [c], by simp, hbefore, fun d hd => ?_⟩
  rcases List.mem_append.1 hd with hd | hd
  · exact hafter d hd
  · rwa [List.mem_singleton.1 hd]

theorem remembers_better (h : Remembers score seen state)
    (numbers : ∀ d ∈ seen ++ [c], (score d).isNaN = false) :
    Remembers score (seen ++ [c]) (better score state c) := by
  have hc : (score c).isNaN = false := numbers c (by simp)
  have hseen : ∀ d ∈ seen, (score d).isNaN = false := fun d hd => numbers d (by simp [hd])
  cases h with
  | nothing low =>
    simp only [better]
    split_ifs with htake
    · refine .candidate c (firstBest_concat htake.1 fun d hd => ?_)
      exact lt_trans_le (hseen d hd) threshold_isNaN hc (low d hd) htake.1
    · have hlow : score c < threshold := by
        refine (not_le_iff threshold_isNaN hc).1 fun hle => htake ⟨hle, ?_⟩
        exact lt_trans_le (by decide) threshold_isNaN hc zero_lt_threshold hle
      refine .nothing fun d hd => ?_
      rcases List.mem_append.1 hd with hd | hd
      · exact low d hd
      · rwa [List.mem_singleton.1 hd]
  | candidate best first =>
    have hbest := hseen best first.mem
    simp only [better]
    -- The threshold is asked again, but what is better than the best reaches it anyway.
    split_ifs with htake
    · refine .candidate c (firstBest_concat htake.1 fun d hd => ?_)
      exact le_trans_lt (hseen d hd) hbest hc (first.le hseen hd) htake.2
    · refine .candidate best (first.concat ((not_lt_iff hbest hc).1 fun hlt => htake ⟨?_, hlt⟩))
      exact le_of_lt_number threshold_isNaN hc
        (le_trans_lt threshold_isNaN hbest hc first.1 hlt)

theorem remembers_foldl (h : Remembers score seen state)
    (numbers : ∀ d ∈ seen ++ candidates, (score d).isNaN = false) :
    Remembers score (seen ++ candidates) (candidates.foldl (better score) state) := by
  induction candidates generalizing seen state with
  | nil => simpa using h
  | cons c candidates ih =>
    have hstep := remembers_better (c := c) h fun d hd => numbers d (by
      rcases List.mem_append.1 hd with hd | hd
      · simp [hd]
      · simp [List.mem_singleton.1 hd])
    simpa using ih hstep (by simpa using numbers)

theorem best?_cases (numbers : ∀ c ∈ candidates, (score c).isNaN = false) :
    (best? score candidates = none ∧ ∀ c ∈ candidates, score c < threshold) ∨
      ∃ best, best? score candidates = some best ∧ FirstBest score candidates best := by
  have hrun : Remembers score candidates (candidates.foldl (better score) (none, 0.0)) := by
    simpa using remembers_foldl (.nothing (by simp : ∀ c ∈ ([] : List String), _)) numbers
  generalize hstate : candidates.foldl (better score) (none, 0.0) = state at hrun
  have hbest : best? score candidates = state.1 := by rw [best?, hstate]
  cases hrun with
  | nothing low => exact .inl ⟨hbest, low⟩
  | candidate best first => exact .inr ⟨best, hbest, first⟩

/-- The candidates with the score of the best begin with the best. -/
theorem FirstBest.filter_eq (h : FirstBest score candidates best)
    (numbers : ∀ c ∈ candidates, (score c).isNaN = false) :
    ∃ rest, candidates.filter (score · == score best) = best :: rest := by
  have hbest := numbers best h.mem
  obtain ⟨-, before, after, rfl, hbefore, -⟩ := h
  have hnone : before.filter (score · == score best) = [] := by
    refine List.filter_eq_nil_iff.2 fun c hc heq => ?_
    have hcn := numbers c (by simp [hc])
    rw [beq_iff hcn hbest] at heq
    exact absurd ((lt_iff hcn hbest).1 (hbefore c hc)) (by rw [heq]; exact lt_irrefl _)
  have hself : (score best == score best) = true := (beq_iff hbest hbest).2 rfl
  refine ⟨after.filter (score · == score best), ?_⟩
  rw [List.filter_append, hnone, List.nil_append]
  exact List.filter_cons_of_pos hself

theorem FirstBest.unique (h : FirstBest score candidates best)
    (hother : FirstBest score candidates other)
    (numbers : ∀ c ∈ candidates, (score c).isNaN = false) : best = other := by
  have hb := numbers best h.mem
  have ho := numbers other hother.mem
  have hplace : placeOf (score best) = placeOf (score other) :=
    le_antisymm ((le_iff hb ho).1 (hother.le numbers h.mem))
      ((le_iff ho hb).1 (h.le numbers hother.mem))
  have hclass : candidates.filter (score · == score best) =
      candidates.filter (score · == score other) := by
    refine List.filter_congr fun c hc => ?_
    rw [Bool.eq_iff_iff, beq_iff (numbers c hc) hb, beq_iff (numbers c hc) ho, hplace]
  obtain ⟨rest, hrest⟩ := h.filter_eq numbers
  obtain ⟨rest', hrest'⟩ := hother.filter_eq numbers
  rw [hclass, hrest'] at hrest
  exact (List.cons.inj hrest).1.symm

/-- Candidates may be moved as long as those with one score stay in their order. -/
theorem FirstBest.of_perm (h : FirstBest score candidates best)
    (numbers : ∀ c ∈ candidates, (score c).isNaN = false) (hperm : others.Perm candidates)
    (same : ∀ v, others.filter (score · == v) = candidates.filter (score · == v)) :
    FirstBest score others best := by
  have hbest := numbers best h.mem
  obtain ⟨rest, hrest⟩ := h.filter_eq numbers
  rw [← same] at hrest
  obtain ⟨before, after, rfl, hbefore, -⟩ := List.filter_eq_cons_iff.1 hrest
  refine ⟨h.1, before, after, rfl, fun c hc => ?_, fun c hc => ?_⟩
  · have hmem : c ∈ candidates := hperm.subset (by simp [hc])
    have hne := hbefore c hc
    rw [beq_iff (numbers c hmem) hbest] at hne
    rw [lt_iff (numbers c hmem) hbest]
    exact lt_of_le_of_ne ((le_iff (numbers c hmem) hbest).1 (h.le numbers hmem)) hne
  · exact h.le numbers (hperm.subset (by simp [hc]))

theorem FirstBest.not_low (h : FirstBest score candidates best)
    (numbers : ∀ c ∈ candidates, (score c).isNaN = false) :
    ¬∀ c ∈ candidates, score c < threshold := by
  intro hlow
  have hlt := hlow best h.mem
  exact (not_le_iff threshold_isNaN (numbers best h.mem)).2 hlt h.1

theorem best?_eq_none_iff (numbers : ∀ c ∈ candidates, (score c).isNaN = false) :
    best? score candidates = none ↔ ∀ c ∈ candidates, score c < threshold := by
  rcases best?_cases numbers with ⟨hnone, hlow⟩ | ⟨best, hsome, hfirst⟩
  · exact ⟨fun _ => hlow, fun _ => hnone⟩
  · rw [hsome]
    exact ⟨fun h => absurd h (Option.some_ne_none _), fun h => absurd h (hfirst.not_low numbers)⟩

theorem best?_eq_some_iff (numbers : ∀ c ∈ candidates, (score c).isNaN = false) :
    best? score candidates = some best ↔ FirstBest score candidates best := by
  rcases best?_cases numbers with ⟨hnone, hlow⟩ | ⟨first, hsome, hfirst⟩
  · rw [hnone]
    exact ⟨fun h => absurd h.symm (Option.some_ne_none _), fun h => absurd hlow (h.not_low numbers)⟩
  · rw [hsome, Option.some_inj]
    exact ⟨fun h => h ▸ hfirst, fun h => hfirst.unique h numbers⟩

theorem best?_of_perm (numbers : ∀ c ∈ candidates, (score c).isNaN = false)
    (hperm : others.Perm candidates)
    (same : ∀ v, others.filter (score · == v) = candidates.filter (score · == v)) :
    best? score others = best? score candidates := by
  have hothers : ∀ c ∈ others, (score c).isNaN = false := fun c hc => numbers c (hperm.subset hc)
  rcases best?_cases numbers with ⟨hnone, hlow⟩ | ⟨best, hsome, hfirst⟩
  · rw [hnone, best?_eq_none_iff hothers]
    exact fun c hc => hlow c (hperm.subset hc)
  · rw [hsome, best?_eq_some_iff hothers]
    exact hfirst.of_perm numbers hperm same

theorem foldl_better_filter :
    (candidates.filter (threshold ≤ score ·)).foldl (better score) state =
      candidates.foldl (better score) state := by
  induction candidates generalizing state with
  | nil => rfl
  | cons c candidates ih =>
    by_cases hc : threshold ≤ score c
    · rw [List.filter_cons_of_pos (by simpa using hc), List.foldl_cons, List.foldl_cons, ih]
    · have hskip : better score state c = state := if_neg fun h => hc h.1
      rw [List.filter_cons_of_neg (by simpa using hc), List.foldl_cons, hskip, ih]

theorem best?_congr
    (same : others.filter (threshold ≤ score ·) = candidates.filter (threshold ≤ score ·)) :
    best? score others = best? score candidates := by
  rw [best?, best?, ← foldl_better_filter, same, foldl_better_filter]

end PackedEdges.Suggestion

namespace PackedEdges

open Suggestion

variable {name : String} {candidates others : List String}

theorem suggestion?_of_mem (h : name ∈ candidates) : suggestion? name candidates = none :=
  if_pos (by simpa using h)

theorem suggestion?_of_notMem (h : name ∉ candidates) :
    suggestion? name candidates = best? (score name) candidates :=
  if_neg (by simpa using h)

theorem suggestion?_congr (hname : name ∈ others ↔ name ∈ candidates)
    (h : best? (score name) others = best? (score name) candidates) :
    suggestion? name others = suggestion? name candidates := by
  by_cases hmem : name ∈ candidates
  · rw [suggestion?_of_mem hmem, suggestion?_of_mem (hname.2 hmem)]
  · rw [suggestion?_of_notMem hmem, suggestion?_of_notMem fun h => hmem (hname.1 h), h]

theorem mem_iff_of_filter_eq (hname : name.utf8ByteSize ≤ EdgeStore.maxSize)
    (same : others.filter (threshold ≤ score name ·) =
      candidates.filter (threshold ≤ score name ·)) : name ∈ others ↔ name ∈ candidates := by
  -- A name is like itself, so it is never among the candidates with low scores.
  have hself : threshold ≤ score name name :=
    threshold_le_score_self (hname.trans (by decide))
  have hiff (texts : List String) :
      name ∈ texts ↔ name ∈ texts.filter (threshold ≤ score name ·) := by
    simp [List.mem_filter, hself]
  rw [hiff others, same, ← hiff candidates]

/-- The suggestion for a name is the first of the candidates with the greatest score, if that
reaches the threshold and the name is not among them. Candidates below the threshold may come and
go, unless the name itself does, and the others may be moved if those with one score stay in their
order. -/
theorem suggestion_is_first_best
    (numbers : ∀ c ∈ candidates, (score name c).isNaN = false) :
    (name ∈ candidates → suggestion? name candidates = none) ∧
    (name ∉ candidates →
      (suggestion? name candidates = none ↔ ∀ c ∈ candidates, score name c < threshold) ∧
      ∀ best, suggestion? name candidates = some best ↔
        FirstBest (score name) candidates best) ∧
    (∀ others, (name ∈ others ↔ name ∈ candidates) ∨ name.utf8ByteSize ≤ EdgeStore.maxSize →
      others.filter (threshold ≤ score name ·) = candidates.filter (threshold ≤ score name ·) →
      suggestion? name others = suggestion? name candidates) ∧
    ∀ others, others.Perm candidates →
      (∀ v, others.filter (score name · == v) = candidates.filter (score name · == v)) →
      suggestion? name others = suggestion? name candidates := by
  refine ⟨suggestion?_of_mem, fun hname => ?_, fun others hname same => ?_,
    fun others hperm same => ?_⟩
  · rw [suggestion?_of_notMem hname]
    exact ⟨best?_eq_none_iff numbers, fun best => best?_eq_some_iff numbers⟩
  · refine suggestion?_congr ?_ (best?_congr same)
    exact hname.elim id fun hsize => mem_iff_of_filter_eq hsize same
  · exact suggestion?_congr hperm.mem_iff (best?_of_perm numbers hperm same)

theorem suggestion_max_speed :
    (∀ c ∈ ["toll", "max_speed", "max_slope"], (score "max_sped" c).isNaN = false) ∧
    FirstBest (score "max_sped") ["toll", "max_speed", "max_slope"] "max_speed" ∧
    suggestion? "max_sped" ["max_speed", "max_slope"] = some "max_speed" := by
  have sizes : ∀ c ∈ ["toll", "max_speed", "max_slope"], c.utf8ByteSize ≤ 2 ^ 64 := by
    decide
  have numbers : ∀ c ∈ ["toll", "max_speed", "max_slope"], (score "max_sped" c).isNaN = false :=
    fun c hc => score_isNaN (by decide) (sizes c hc)
  have hsome : suggestion? "max_sped" ["toll", "max_speed", "max_slope"] = some "max_speed" := by
    decide +kernel
  obtain ⟨-, hbest, hothers, -⟩ := suggestion_is_first_best numbers
  refine ⟨numbers, ((hbest (by decide)).2 "max_speed").1 hsome, ?_⟩
  rw [hothers _ (.inr (by decide)) (by decide +kernel), hsome]

end PackedEdges
