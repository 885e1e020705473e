import PackedEdges.Proofs.FirstBest

/-! Names that are written in other letters than those of a candidate. The candidate that is the
name in small letters is as like as a candidate can be, and its bonuses for the beginning and the
length are the greatest ones. What can still overtake it is the bonus for the parts of another
candidate. -/

namespace PackedEdges.Suggestion

open Rounding

variable {name input candidate c s : String} {candidates : List String}

/-- The parts of `other` add more to the bonuses of the variant than its own parts do. -/
def PartsAddMore (variant other : String) : Prop :=
  addPartBonuses variant.toList variant.toList (ownBonus variant variant) <
    addPartBonuses variant.toList other.toList (ownBonus variant variant)

theorem bonuses_le (hinput : input.utf8ByteSize ≤ 2 ^ 70)
    (hcandidate : candidate.utf8ByteSize ≤ 2 ^ 70) (hparts : ¬PartsAddMore input candidate) :
    bonuses input candidate ≤ bonuses input input := by
  have ha := length_toList_le hinput
  have hb := length_toList_le hcandidate
  have hother := (atMost_ownBonus hinput hcandidate).mono (by norm_num : (1 : ℚ) ≤ 2 ^ 53)
  have hself := (atMost_ownBonus hinput hinput).mono (by norm_num : (1 : ℚ) ≤ 2 ^ 53)
  have hmono := addPartBonuses_mono ha hb hother hself (ownBonus_le hinput hcandidate)
  obtain ⟨p, hp, -⟩ := atMost_addPartBonuses ha hb hother
  obtain ⟨q, hq, -⟩ := atMost_addPartBonuses ha hb hself
  obtain ⟨r, hr, -⟩ := atMost_addPartBonuses ha ha hself
  rw [PartsAddMore, hr.lt_iff hq, not_lt] at hparts
  rw [hp.le_iff hq] at hmono
  exact (hp.le_iff hr).2 (hmono.trans hparts)

theorem atMost_bonuses_of_count (hinput : input.utf8ByteSize ≤ 2 ^ 70)
    (hcount : input.toList.count '_' ≤ 1) : AtMost (bonuses input input) 3 :=
  atMost_addPartBonuses_of_count (length_toList_le hinput) (length_toList_le hinput) hcount
    (atMost_ownBonus hinput hinput)

theorem scoreLower_le (hinput : input.utf8ByteSize ≤ 2 ^ 70)
    (hcandidate : candidate.utf8ByteSize ≤ 2 ^ 70) (hparts : ¬PartsAddMore input candidate) :
    scoreLower input candidate ≤ scoreLower input input := by
  have ha := length_toList_le hinput
  have hb := length_toList_le hcandidate
  have hlikeness := atMost_likeness ha hb
  rw [scoreLower_eq, scoreLower_eq]
  exact add_mono_of_atMost hlikeness ((isValue_likeness_self ha).atMost le_rfl)
    (atMost_bonuses hinput hcandidate) (atMost_bonuses hinput hinput) (by norm_num)
    (hlikeness.le (isValue_likeness_self ha)) (bonuses_le hinput hcandidate hparts)

theorem abs_rounded_sub_le_of_lt {q : ℚ} (hpos : 0 < q) (hq : q < 8) :
    |rounded q - q| ≤ 1 / 2 ^ 51 := by
  have hlog : Int.log 2 q < 3 := by
    rw [← Int.lt_zpow_iff_log_lt (by norm_num) hpos]
    norm_num
    exact hq
  have hplace : lastPlace q ≤ -50 := by
    unfold lastPlace
    omega
  calc |rounded q - q| ≤ 2 ^ lastPlace q / 2 := abs_rounded_sub_le hpos.le
    _ ≤ 2 ^ (-50 : ℤ) / 2 :=
        div_le_div_of_nonneg_right (zpow_le_zpow_right₀ (by norm_num) hplace) (by norm_num)
    _ = 1 / 2 ^ 51 := by norm_num

theorem scoreLower_lt (hinput : input.utf8ByteSize ≤ 2 ^ 40)
    (hcandidate : candidate.utf8ByteSize ≤ 2 ^ 40) (hcount : input.toList.count '_' ≤ 1)
    (hne : candidate ≠ input) (hparts : ¬PartsAddMore input candidate) :
    scoreLower input candidate < scoreLower input input := by
  have hinputBig : input.utf8ByteSize ≤ 2 ^ 70 := hinput.trans (by norm_num)
  have hcandidateBig : candidate.utf8ByteSize ≤ 2 ^ 70 := hcandidate.trans (by norm_num)
  have hchars : input.toList ≠ candidate.toList := fun h => hne (String.toList_injective h).symm
  have hlikeness := atMost_likeness_of_ne (length_toList_le hinput) (length_toList_le hcandidate)
    hchars
  have hself := isValue_likeness_self (length_toList_le hinputBig)
  have hle := bonuses_le hinputBig hcandidateBig hparts
  obtain ⟨l, hl, hlbound⟩ := hlikeness
  obtain ⟨p, hp, -⟩ := atMost_bonuses hinputBig hcandidateBig
  obtain ⟨r, hr, hrbound⟩ := atMost_bonuses_of_count hinputBig hcount
  rw [hp.le_iff hr] at hle
  have hlpos := hl.nonneg
  have hppos := hp.nonneg
  rw [scoreLower_eq, scoreLower_eq,
    (hl.add hp (by linarith)).lt_iff (hself.add hr (by linarith))]
  have hother := rounded_mono (by linarith : l + p ≤ 1 + r - 1 / 2 ^ 43)
  have hbelow := abs_rounded_sub_le_of_lt (q := 1 + r - 1 / 2 ^ 43) (by linarith) (by linarith)
  have habove := abs_rounded_sub_le_of_lt (q := 1 + r) (by linarith) (by linarith)
  rw [abs_le] at hbelow habove
  norm_num at hother hbelow habove ⊢
  linarith

end PackedEdges.Suggestion

namespace PackedEdges

open Suggestion Rounding

variable {name c s : String} {candidates : List String}

theorem score_eq_scoreLower (hc : isIdentifier c = true) (hs : isIdentifier s = true)
    (hcase : Text.lowerCase name = Text.lowerCase c) : score name s = scoreLower c s := by
  rw [score, hcase, Text.lowerCase_of_isIdentifier hc, Text.lowerCase_of_isIdentifier hs]

/-- Among names, the one that is the given text in small letters is suggested, unless the parts of
another candidate add more than its own, or some names are so long that the other candidate's
score is rounded to the same number. -/
theorem suggests_case_variant (names : ∀ s ∈ candidates, isIdentifier s = true)
    (sizes : ∀ s ∈ candidates, s.utf8ByteSize ≤ EdgeStore.maxSize) (hname : name ∉ candidates)
    (hc : c ∈ candidates) (hcase : Text.lowerCase name = Text.lowerCase c) :
    ∃ s ∈ candidates, suggestion? name candidates = some s ∧ score name c ≤ score name s ∧
      (s = c ∨ PartsAddMore c s ∨
        2 ^ 40 < max c.utf8ByteSize s.utf8ByteSize ∧ score name s = score name c) := by
  have hmax : EdgeStore.maxSize ≤ 2 ^ 70 := by decide
  have hbig : ∀ s ∈ candidates, s.utf8ByteSize ≤ 2 ^ 70 := fun s hs => (sizes s hs).trans hmax
  have hscore : ∀ s ∈ candidates, score name s = scoreLower c s := fun s hs =>
    score_eq_scoreLower (names c hc) (names s hs) hcase
  have numbers : ∀ s ∈ candidates, (score name s).isNaN = false := fun s hs => by
    rw [hscore s hs]
    exact (atMost_scoreLower (hbig c hc) (hbig s hs)).isNaN
  obtain ⟨q, hq, hone⟩ := one_le_scoreLower_self (hbig c hc)
  rw [suggestion?_of_notMem hname]
  rcases best?_cases numbers with ⟨-, hlow⟩ | ⟨s, hsome, hfirst⟩
  · have hlt := hlow c hc
    rw [hscore c hc, hq.lt_iff isValue_threshold] at hlt
    norm_num at hlt
    linarith
  · have hs := hfirst.mem
    have hle := hfirst.le numbers hc
    refine ⟨s, hs, hsome, hle, ?_⟩
    by_cases hsame : s = c
    · exact .inl hsame
    by_cases hparts : PartsAddMore c s
    · exact .inr (.inl hparts)
    rw [hscore c hc, hscore s hs] at hle ⊢
    obtain ⟨p, hp, -⟩ := atMost_scoreLower (hbig c hc) (hbig s hs)
    have hge := scoreLower_le (hbig c hc) (hbig s hs) hparts
    rw [hq.le_iff hp] at hle
    rw [hp.le_iff hq] at hge
    -- The variant is no worse than the candidate that was taken, so both scores are one number.
    obtain rfl := le_antisymm hle hge
    refine .inr (.inr ⟨?_, hp.eq hq (by linarith)⟩)
    by_contra hshort
    have hlt := scoreLower_lt ((le_max_left _ _).trans (not_lt.1 hshort))
      ((le_max_right _ _).trans (not_lt.1 hshort)) (Text.count_underscore_le (names c hc)) hsame
      hparts
    exact lt_irrefl _ ((hp.lt_iff hq).1 hlt)

theorem suggests_max_speed :
    (∀ s ∈ ["toll", "max_speed", "max_slope"], isIdentifier s = true) ∧
    (∀ s ∈ ["toll", "max_speed", "max_slope"], s.utf8ByteSize ≤ EdgeStore.maxSize) ∧
    "MAX_SPEED" ∉ ["toll", "max_speed", "max_slope"] ∧
    Text.lowerCase "MAX_SPEED" = Text.lowerCase "max_speed" ∧
    suggestion? "MAX_SPEED" ["toll", "max_speed", "max_slope"] = some "max_speed" := by
  have names : ∀ s ∈ ["toll", "max_speed", "max_slope"], isIdentifier s = true := by
    decide +kernel
  have sizes : ∀ s ∈ ["toll", "max_speed", "max_slope"],
      s.utf8ByteSize ≤ EdgeStore.maxSize := by
    decide +kernel
  have hname : "MAX_SPEED" ∉ ["toll", "max_speed", "max_slope"] := by decide
  have hcase : Text.lowerCase "MAX_SPEED" = Text.lowerCase "max_speed" := by decide +kernel
  obtain ⟨s, hs, hsome, -, hwhich⟩ :=
    suggests_case_variant names sizes hname (by decide : "max_speed" ∈ _) hcase
  have hothers : ∀ s ∈ ["toll", "max_speed", "max_slope"],
      ¬addPartBonuses "max_speed".toList "max_speed".toList (ownBonus "max_speed" "max_speed") <
        addPartBonuses "max_speed".toList s.toList (ownBonus "max_speed" "max_speed") ∧
      ¬2 ^ 40 < max "max_speed".utf8ByteSize s.utf8ByteSize := by
    decide +kernel
  obtain ⟨hparts, hsize⟩ := hothers s hs
  obtain rfl : s = "max_speed" := hwhich.resolve_right fun h => h.elim hparts fun h => hsize h.1
  exact ⟨names, sizes, hname, hcase, hsome⟩

/-- The first part is the whole word, and both parts resemble it. -/
theorem highway_high_before_highway :
    (∀ s ∈ ["highway", "highway_high"], isIdentifier s = true) ∧
    "HIGHWAY" ∉ ["highway", "highway_high"] ∧ Text.lowerCase "HIGHWAY" = "highway" ∧
    suggestion? "HIGHWAY" ["highway", "highway_high"] ≠ some "highway" ∧
    suggestion? "HIGHWAY" ["highway", "highway_high"] = some "highway_high" := by
  decide +kernel

end PackedEdges
