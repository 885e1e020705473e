import PackedEdges.Suggestion
import PackedEdges.Proofs.LowerCaseText
import PackedEdges.Proofs.WordLikeness

/-! The scores of candidates. Every score is a number, whatever the texts are, and no bonus but that
for parts is greater for a candidate than for the input itself. -/

namespace PackedEdges.Suggestion

open FloatOrder Rounding Similarity

variable {x y bonus bonus' factor : Float} {a b part : List Char} {m n : ℕ}

/-- A share of a likeness that is high enough. -/
def gated (factor likeness : Float) : Float :=
  if likeness > 0.7 then factor * likeness else 0.0

theorem rounded_quarter : rounded (1 / 4) = 1 / 4 := by
  have h := rounded_eq_self (m := 1) (e := -2) (by norm_num) (by norm_num)
  norm_num at h ⊢
  exact h

theorem atMost_gated (hfactor : AtMost factor (1 / 4)) (hx : AtMost x 1) :
    AtMost (gated factor x) (1 / 4) := by
  unfold gated
  split_ifs
  · have h := hfactor.mul hx (by norm_num)
    rwa [mul_one, rounded_quarter] at h
  · exact isValue_zero.atMost (by norm_num)

theorem gated_le (hfactor : AtMost factor (1 / 4)) (hx : AtMost x 1) (hy : IsValue y 1) :
    gated factor x ≤ gated factor y := by
  have hfull : y > 0.7 := (isValue_gate.lt_iff hy).2 (by norm_num)
  have hyone : AtMost y 1 := hy.atMost le_rfl
  obtain ⟨q, hq, -⟩ := atMost_gated hfactor hyone
  unfold gated at hq ⊢
  rw [if_pos hfull] at hq ⊢
  split_ifs
  · exact mul_mono_of_atMost hfactor hfactor hx hyone (by norm_num) (le_self hfactor.isNaN)
      (hx.le hy)
  · exact (isValue_zero.le_iff hq).2 hq.nonneg

theorem isValue_fifth : IsValue 0.2 (7205759403792794 * 2 ^ (-55 : ℤ)) :=
  isValue_of_unpack _ 7205759403792794 (-55) (by decide) rfl

theorem atMost_fifth : AtMost 0.2 (1 / 4) :=
  isValue_fifth.atMost (by norm_num)

theorem atMost_tenth : AtMost 0.1 (1 / 4) :=
  isValue_tenth.atMost (by norm_num)

theorem beginningBonus_eq (a b : List Char) : beginningBonus a b =
    if 4 ≤ min a.length 7 then
      gated 0.2 (editSimilarity (a.take (min a.length 7)) (b.take (min a.length 7)))
    else 0.0 :=
  rfl

theorem length_take_le (a : List Char) : (a.take (min n 7)).length ≤ 2 ^ 70 := by
  rw [List.length_take]
  omega

theorem atMost_beginningBonus (a b : List Char) : AtMost (beginningBonus a b) (1 / 4) := by
  rw [beginningBonus_eq]
  split
  · exact atMost_gated atMost_fifth
      (atMost_editSimilarity (length_take_le a) (length_take_le b))
  · exact isValue_zero.atMost (by norm_num)

theorem beginningBonus_le (a b : List Char) : beginningBonus a b ≤ beginningBonus a a := by
  rw [beginningBonus_eq, beginningBonus_eq]
  split
  · exact gated_le atMost_fifth (atMost_editSimilarity (length_take_le a) (length_take_le b))
      (isValue_editSimilarity_self (length_take_le a))
  · exact le_self isValue_zero.isNaN

def lengthRatio (m n : ℕ) : Float :=
  1.0 - (m.toFloat - n.toFloat).abs / (max m n).toFloat

theorem lengthBonus_eq (input candidate : String) : lengthBonus input candidate =
    if 8 ≤ input.utf8ByteSize ∧ 8 ≤ candidate.utf8ByteSize then
      gated 0.1 (lengthRatio input.utf8ByteSize candidate.utf8ByteSize)
    else 0.0 :=
  rfl

theorem rounded_length_le (hn : n ≤ 2 ^ 70) : rounded n ≤ 2 ^ 100 := by
  have hexact := rounded_eq_self (m := 1) (e := 70) (by norm_num) (by norm_num)
  have h := rounded_mono (by exact_mod_cast hn : (n : ℚ) ≤ 2 ^ 70)
  norm_num at hexact h ⊢
  rw [hexact] at h
  linarith

theorem atMost_lengthRatio (hm : m ≤ 2 ^ 70) (hn : n ≤ 2 ^ 70) (hpos : 0 < max m n) :
    AtMost (lengthRatio m n) 1 := by
  have hmax := isValue_toFloat (max_le hm hn)
  have hdiff := (isValue_toFloat hm).abs_sub (isValue_toFloat hn) (rounded_length_le hm)
    (rounded_length_le hn)
  have hle : |rounded m - rounded n| ≤ rounded (max m n : ℕ) :=
    abs_sub_le_of_nonneg_of_le (rounded_nonneg _)
      (rounded_mono (by exact_mod_cast le_max_left m n)) (rounded_nonneg _)
      (rounded_mono (by exact_mod_cast le_max_right m n))
  have hrounded := rounded_mono hle
  rw [hmax.rounded_eq] at hrounded
  exact atMost_one_sub (atMost_div hdiff hmax (rounded_pos hpos) hrounded)

theorem isValue_lengthRatio_self (hn : n ≤ 2 ^ 70) (hpos : 0 < n) :
    IsValue (lengthRatio n n) 1 := by
  have hvalue := isValue_toFloat hn
  have hdiff := hvalue.abs_sub hvalue (rounded_length_le hn) (rounded_length_le hn)
  rw [sub_self, abs_zero, rounded_of_nonpos le_rfl] at hdiff
  rw [lengthRatio, max_self]
  exact isValue_one_sub_zero (isValue_zero_div hdiff hvalue (rounded_pos hpos))

theorem atMost_lengthBonus {input candidate : String} (hinput : input.utf8ByteSize ≤ 2 ^ 70)
    (hcandidate : candidate.utf8ByteSize ≤ 2 ^ 70) :
    AtMost (lengthBonus input candidate) (1 / 4) := by
  rw [lengthBonus_eq]
  split
  · exact atMost_gated atMost_tenth (atMost_lengthRatio hinput hcandidate (by omega))
  · exact isValue_zero.atMost (by norm_num)

theorem lengthBonus_le {input candidate : String} (hinput : input.utf8ByteSize ≤ 2 ^ 70)
    (hcandidate : candidate.utf8ByteSize ≤ 2 ^ 70) :
    lengthBonus input candidate ≤ lengthBonus input input := by
  obtain ⟨q, hq, -⟩ := atMost_lengthBonus hinput hinput
  rw [lengthBonus_eq] at hq ⊢
  split
  · rename_i hlong
    rw [lengthBonus_eq, if_pos ⟨hlong.1, hlong.1⟩]
    exact gated_le atMost_tenth (atMost_lengthRatio hinput hcandidate (by omega))
      (isValue_lengthRatio_self hinput (by omega))
  · rw [lengthBonus_eq]
    exact (isValue_zero.le_iff hq).2 hq.nonneg

/-- What one part adds. -/
def addPart (input : List Char) (bonus : Float) (part : List Char) : Float :=
  if 4 ≤ (String.ofList part).utf8ByteSize then
    if jaroWinkler input part > 0.85 then bonus + 0.12 * jaroWinkler input part else bonus
  else bonus

theorem addPartBonuses_eq (input candidate : List Char) (bonus : Float) :
    addPartBonuses input candidate bonus =
      if candidate.contains '_' then (parts candidate).foldl (addPart input) bonus else bonus :=
  rfl

theorem parts_ne_nil (b : List Char) : parts b ≠ [] := by
  cases b with
  | nil => simp [parts]
  | cons c b =>
    rw [parts]
    split
    · simp
    · split_ifs <;> simp

theorem length_le_of_mem_parts (hpart : part ∈ parts b) : part.length ≤ b.length := by
  induction b generalizing part with
  | nil => simp_all [parts]
  | cons c b ih =>
    rw [parts] at hpart
    split at hpart
    · simp_all
    · rename_i first rest hparts
      rw [hparts] at ih
      have hfirst := ih List.mem_cons_self
      have hold (hmem : part ∈ first :: rest) : part.length ≤ (c :: b).length :=
        (ih hmem).trans (Nat.le_succ _)
      split_ifs at hpart
      · rcases List.mem_cons.1 hpart with rfl | hmem
        · exact Nat.zero_le _
        · exact hold hmem
      · rcases List.mem_cons.1 hpart with rfl | hmem
        · exact Nat.succ_le_succ hfirst
        · exact hold (List.mem_cons_of_mem _ hmem)

theorem length_parts (b : List Char) : (parts b).length = b.count '_' + 1 := by
  induction b with
  | nil => rfl
  | cons c b ih =>
    rw [parts]
    split
    · exact absurd ‹_› (parts_ne_nil b)
    · rename_i first rest hparts
      rw [hparts, List.length_cons] at ih
      split_ifs with hc
      · rw [List.length_cons, List.length_cons, hc, List.count_cons_self]
        omega
      · rw [List.length_cons, List.count_cons_of_ne hc]
        omega

theorem isValue_partWeight : IsValue 0.12 (8646911284551352 * 2 ^ (-56 : ℤ)) :=
  isValue_of_unpack _ 8646911284551352 (-56) (by decide) rfl

theorem atMost_partWeight_mul (hx : AtMost x 1) : AtMost (0.12 * x) (1 / 4) := by
  have hweight : AtMost 0.12 (1 / 4) := isValue_partWeight.atMost (by norm_num)
  have h := hweight.mul hx (by norm_num)
  rwa [mul_one, rounded_quarter] at h

variable {r t : ℚ}

theorem atMost_addPart (ha : a.length ≤ 2 ^ 70) (hpart : part.length ≤ 2 ^ 70)
    (hbonus : AtMost bonus r) (hsmall : r + 1 / 4 ≤ 2 ^ 100) (hrt : r ≤ t)
    (hsum : rounded (r + 1 / 4) ≤ t) : AtMost (addPart a bonus part) t := by
  unfold addPart
  split_ifs
  · exact (hbonus.add (atMost_partWeight_mul (atMost_jaroWinkler ha hpart)) hsmall).mono hsum
  · exact hbonus.mono hrt
  · exact hbonus.mono hrt

theorem addPart_mono (ha : a.length ≤ 2 ^ 70) (hpart : part.length ≤ 2 ^ 70)
    (hbonus : AtMost bonus r) (hbonus' : AtMost bonus' r) (hsmall : r + 1 / 4 ≤ 2 ^ 100)
    (hle : bonus ≤ bonus') : addPart a bonus part ≤ addPart a bonus' part := by
  have hadded := atMost_partWeight_mul (atMost_jaroWinkler ha hpart)
  unfold addPart
  split_ifs
  · exact add_mono_of_atMost hbonus hbonus' hadded hadded hsmall hle (le_self hadded.isNaN)
  · exact hle
  · exact hle

theorem rounded_limit : rounded (2 ^ 53 + 1 / 4) ≤ 2 ^ 53 := by
  -- So far out the numbers are two apart.
  have hlimit := isValue_of_unpack 9007199254740992.0 (2 ^ 52) (1) (by decide) rfl
  have hquarter := isValue_of_unpack 0.25 (2 ^ 52) (-54) (by decide) rfl
  have hsum := hlimit.add hquarter (by norm_num)
  have hle : (9007199254740992.0 : Float) + 0.25 ≤ 9007199254740992.0 := by decide
  rw [hsum.le_iff hlimit] at hle
  norm_num at hle ⊢
  exact hle

theorem atMost_foldl_addPart {pieces : List (List Char)} (ha : a.length ≤ 2 ^ 70)
    (hpieces : ∀ part ∈ pieces, part.length ≤ 2 ^ 70) (hbonus : AtMost bonus (2 ^ 53)) :
    AtMost (pieces.foldl (addPart a) bonus) (2 ^ 53) := by
  induction pieces generalizing bonus with
  | nil => exact hbonus
  | cons part pieces ih =>
    refine ih (fun piece hmem => hpieces piece (by simp [hmem])) ?_
    exact atMost_addPart ha (hpieces part (by simp)) hbonus (by norm_num) le_rfl rounded_limit

theorem foldl_addPart_mono {pieces : List (List Char)} (ha : a.length ≤ 2 ^ 70)
    (hpieces : ∀ part ∈ pieces, part.length ≤ 2 ^ 70) (hbonus : AtMost bonus (2 ^ 53))
    (hbonus' : AtMost bonus' (2 ^ 53)) (hle : bonus ≤ bonus') :
    pieces.foldl (addPart a) bonus ≤ pieces.foldl (addPart a) bonus' := by
  induction pieces generalizing bonus bonus' with
  | nil => exact hle
  | cons part pieces ih =>
    have hpart := hpieces part (by simp)
    refine ih (fun piece hmem => hpieces piece (by simp [hmem])) ?_ ?_ ?_
    · exact atMost_addPart ha hpart hbonus (by norm_num) le_rfl rounded_limit
    · exact atMost_addPart ha hpart hbonus' (by norm_num) le_rfl rounded_limit
    · exact addPart_mono ha hpart hbonus hbonus' (by norm_num) hle

/-- As long as whole numbers are exact, each part adds at most one. -/
theorem atMost_foldl_addPart_count {pieces : List (List Char)} (ha : a.length ≤ 2 ^ 70)
    (hpieces : ∀ part ∈ pieces, part.length ≤ 2 ^ 70) (hbonus : AtMost bonus n)
    (hcount : n + pieces.length < 2 ^ 53) :
    AtMost (pieces.foldl (addPart a) bonus) ((n + pieces.length : ℕ) : ℚ) := by
  induction pieces generalizing bonus n with
  | nil => exact hbonus
  | cons part pieces ih =>
    rw [List.length_cons] at hcount
    have hnext : rounded ((n : ℚ) + 1 / 4) ≤ (n + 1 : ℕ) := by
      have h := rounded_mono (by push_cast; norm_num : (n : ℚ) + 1 / 4 ≤ (n + 1 : ℕ))
      rwa [rounded_natCast (by omega)] at h
    have hsmall : (n : ℚ) + 1 / 4 ≤ 2 ^ 100 := by
      have : (n : ℚ) ≤ 2 ^ 53 := by exact_mod_cast (by omega : n ≤ 2 ^ 53)
      linarith
    have hstep := atMost_addPart ha (hpieces part (by simp)) hbonus hsmall
      (by push_cast; linarith) hnext
    have h := ih (fun piece hmem => hpieces piece (by simp [hmem])) hstep (by omega)
    have hlength : n + 1 + pieces.length = n + (part :: pieces).length := by
      rw [List.length_cons]
      omega
    rwa [hlength] at h

theorem length_part_le (hb : b.length ≤ 2 ^ 70) : ∀ part ∈ parts b, part.length ≤ 2 ^ 70 :=
  fun _ hpart => (length_le_of_mem_parts hpart).trans hb

theorem atMost_addPartBonuses (ha : a.length ≤ 2 ^ 70) (hb : b.length ≤ 2 ^ 70)
    (hbonus : AtMost bonus (2 ^ 53)) : AtMost (addPartBonuses a b bonus) (2 ^ 53) := by
  rw [addPartBonuses_eq]
  split
  · exact atMost_foldl_addPart ha (length_part_le hb) hbonus
  · exact hbonus

theorem addPartBonuses_mono (ha : a.length ≤ 2 ^ 70) (hb : b.length ≤ 2 ^ 70)
    (hbonus : AtMost bonus (2 ^ 53)) (hbonus' : AtMost bonus' (2 ^ 53)) (hle : bonus ≤ bonus') :
    addPartBonuses a b bonus ≤ addPartBonuses a b bonus' := by
  rw [addPartBonuses_eq, addPartBonuses_eq]
  split
  · exact foldl_addPart_mono ha (length_part_le hb) hbonus hbonus' hle
  · exact hle

theorem atMost_addPartBonuses_of_count (ha : a.length ≤ 2 ^ 70) (hb : b.length ≤ 2 ^ 70)
    (hcount : b.count '_' ≤ 1) (hbonus : AtMost bonus 1) : AtMost (addPartBonuses a b bonus) 3 := by
  have hparts := length_parts b
  rw [addPartBonuses_eq]
  split
  · have h := atMost_foldl_addPart_count (n := 1) ha (length_part_le hb) (by simpa using hbonus)
      (by omega)
    exact h.mono (by exact_mod_cast (by omega : 1 + (parts b).length ≤ 3))
  · exact hbonus.mono (by norm_num)

def likeness (a b : List Char) : Float :=
  jaroWinkler a b * 0.7 + editSimilarity a b * 0.3

theorem isValue_editWeight : IsValue 0.3 (5404319552844595 * 2 ^ (-54 : ℤ)) :=
  isValue_of_unpack _ 5404319552844595 (-54) (by decide) rfl

variable {z : Float}

theorem atMost_weighted (hx : AtMost x 1) (hfactor : AtMost factor 1) :
    AtMost (x * factor) 1 :=
  (hx.mul hfactor (by norm_num)).mono (rounded_le_one (by norm_num))

theorem atMost_jaroWeight : AtMost 0.7 1 :=
  isValue_gate.atMost (by norm_num)

theorem atMost_editWeight : AtMost 0.3 1 :=
  isValue_editWeight.atMost (by norm_num)

/-- The two measures are bounded by numbers, so that a computation bounds their mean. -/
theorem atMost_likeness_of_le (hjaro : AtMost (jaroWinkler a b) 1)
    (hedit : AtMost (editSimilarity a b) r) (hr : r ≤ 1) (hy : IsValue y r) (hz : IsValue z t)
    (hle : 1.0 * 0.7 + y * 0.3 ≤ z) : AtMost (likeness a b) t := by
  have hone : AtMost 1.0 1 := isValue_one.atMost le_rfl
  have hyone : AtMost y 1 := hy.atMost hr
  have heditOne := hedit.mono hr
  have hbelow : likeness a b ≤ 1.0 * 0.7 + y * 0.3 := by
    refine add_mono_of_atMost (atMost_weighted hjaro atMost_jaroWeight)
      (atMost_weighted hone atMost_jaroWeight) (atMost_weighted heditOne atMost_editWeight)
      (atMost_weighted hyone atMost_editWeight) (by norm_num) ?_ ?_
    · exact mul_mono_of_atMost hjaro hone atMost_jaroWeight atMost_jaroWeight (by norm_num)
        (hjaro.le isValue_one) (le_self isValue_gate.isNaN)
    · exact mul_mono_of_atMost heditOne hyone atMost_editWeight atMost_editWeight (by norm_num)
        (hedit.le hy) (le_self isValue_editWeight.isNaN)
  obtain ⟨q, hq, -⟩ := (atMost_weighted hjaro atMost_jaroWeight).add
    (atMost_weighted heditOne atMost_editWeight) (by norm_num)
  obtain ⟨p, hp, -⟩ := (atMost_weighted hone atMost_jaroWeight).add
    (atMost_weighted hyone atMost_editWeight) (by norm_num)
  exact ⟨q, hq, ((hq.le_iff hp).1 hbelow).trans ((hp.le_iff hz).1 hle)⟩

theorem atMost_likeness (ha : a.length ≤ 2 ^ 70) (hb : b.length ≤ 2 ^ 70) :
    AtMost (likeness a b) 1 :=
  atMost_likeness_of_le (atMost_jaroWinkler ha hb) (atMost_editSimilarity ha hb) le_rfl
    isValue_one isValue_one (by decide)

theorem isValue_likeness_self (ha : a.length ≤ 2 ^ 70) : IsValue (likeness a a) 1 := by
  have hjaro : jaroWinkler a a = 1.0 := (isValue_jaroWinkler_self ha).eq isValue_one one_pos
  have hedit : editSimilarity a a = 1.0 := (isValue_editSimilarity_self ha).eq isValue_one one_pos
  have h := isValue_of_unpack (1.0 * 0.7 + 1.0 * 0.3) (2 ^ 52) (-52) (by decide) rfl
  norm_num at h
  rwa [likeness, hjaro, hedit]

theorem atMost_likeness_of_ne (ha : a.length ≤ 2 ^ 40) (hb : b.length ≤ 2 ^ 40) (hab : a ≠ b) :
    AtMost (likeness a b) (1 - 1 / 2 ^ 43) := by
  have hedit := isValue_of_unpack (1.0 - 1.0 / 1099511627776.0) (2 ^ 53 - 2 ^ 13) (-53)
    (by decide) rfl
  have hbound := isValue_of_unpack (1.0 - 1.0 / 8796093022208.0) (2 ^ 53 - 2 ^ 10) (-53)
    (by decide) rfl
  norm_num at hedit hbound
  have h := atMost_likeness_of_le
    (atMost_jaroWinkler (ha.trans (by norm_num)) (hb.trans (by norm_num)))
    ((atMost_editSimilarity_of_ne ha hb hab).mono (by norm_num)) (by norm_num) hedit hbound
    (by decide)
  exact h.mono (by norm_num)

/-- The bonuses for the beginning and for the length. -/
def ownBonus (input candidate : String) : Float :=
  0.0 + beginningBonus input.toList candidate.toList + lengthBonus input candidate

/-- All bonuses of a candidate. -/
def bonuses (input candidate : String) : Float :=
  addPartBonuses input.toList candidate.toList (ownBonus input candidate)

theorem scoreLower_eq (input candidate : String) : scoreLower input candidate =
    likeness input.toList candidate.toList + bonuses input candidate :=
  rfl

variable {name input candidate : String}

theorem length_toList_le (hinput : input.utf8ByteSize ≤ 2 ^ n) : input.toList.length ≤ 2 ^ n := by
  rw [String.length_toList]
  exact (Text.length_le_utf8ByteSize input).trans hinput

theorem atMost_zero_add (hx : AtMost x (1 / 4)) : AtMost (0.0 + x) (1 / 4) := by
  have h := (isValue_zero.atMost le_rfl).add hx (by norm_num)
  rwa [zero_add, rounded_quarter] at h

theorem atMost_ownBonus (hinput : input.utf8ByteSize ≤ 2 ^ 70)
    (hcandidate : candidate.utf8ByteSize ≤ 2 ^ 70) : AtMost (ownBonus input candidate) 1 := by
  have hbeginning := atMost_zero_add (atMost_beginningBonus input.toList candidate.toList)
  have h := hbeginning.add (atMost_lengthBonus hinput hcandidate) (by norm_num)
  exact h.mono (rounded_le_one (by norm_num))

theorem ownBonus_le (hinput : input.utf8ByteSize ≤ 2 ^ 70)
    (hcandidate : candidate.utf8ByteSize ≤ 2 ^ 70) :
    ownBonus input candidate ≤ ownBonus input input := by
  have hzero := isValue_zero.atMost (le_refl 0)
  have hbeginning := atMost_beginningBonus input.toList candidate.toList
  have hself := atMost_beginningBonus input.toList input.toList
  refine add_mono_of_atMost (atMost_zero_add hbeginning) (atMost_zero_add hself)
    (atMost_lengthBonus hinput hcandidate) (atMost_lengthBonus hinput hinput) (by norm_num) ?_
    (lengthBonus_le hinput hcandidate)
  exact add_mono_of_atMost hzero hzero hbeginning hself (by norm_num)
    (hzero.le isValue_zero) (beginningBonus_le _ _)

theorem atMost_bonuses (hinput : input.utf8ByteSize ≤ 2 ^ 70)
    (hcandidate : candidate.utf8ByteSize ≤ 2 ^ 70) :
    AtMost (bonuses input candidate) (2 ^ 53) :=
  atMost_addPartBonuses (length_toList_le hinput) (length_toList_le hcandidate)
    ((atMost_ownBonus hinput hcandidate).mono (by norm_num))

theorem atMost_scoreLower (hinput : input.utf8ByteSize ≤ 2 ^ 70)
    (hcandidate : candidate.utf8ByteSize ≤ 2 ^ 70) :
    AtMost (scoreLower input candidate) (rounded (1 + 2 ^ 53)) :=
  (atMost_likeness (length_toList_le hinput) (length_toList_le hcandidate)).add
    (atMost_bonuses hinput hcandidate) (by norm_num)

theorem one_le_scoreLower_self (hinput : input.utf8ByteSize ≤ 2 ^ 70) :
    ∃ q, IsValue (scoreLower input input) q ∧ 1 ≤ q := by
  -- The likeness of a text to itself is one, and no bonus is negative.
  obtain ⟨r, hr, hle⟩ := atMost_bonuses hinput hinput
  refine ⟨_, (isValue_likeness_self (length_toList_le hinput)).add hr (by linarith), ?_⟩
  have h := rounded_mono (le_add_of_nonneg_right hr.nonneg : (1 : ℚ) ≤ 1 + r)
  rwa [isValue_one.rounded_eq] at h

theorem utf8ByteSize_lowerCase (hname : name.utf8ByteSize ≤ 2 ^ 64) :
    (Text.lowerCase name).utf8ByteSize ≤ 2 ^ 70 := by
  have h := Text.utf8ByteSize_lowerCase_le name
  omega

theorem score_isNaN (hname : name.utf8ByteSize ≤ 2 ^ 64)
    (hcandidate : candidate.utf8ByteSize ≤ 2 ^ 64) : (score name candidate).isNaN = false :=
  (atMost_scoreLower (utf8ByteSize_lowerCase hname) (utf8ByteSize_lowerCase hcandidate)).isNaN

theorem isValue_threshold : IsValue threshold (5854679515581645 * 2 ^ (-53 : ℤ)) :=
  isValue_of_unpack _ 5854679515581645 (-53) (by decide) rfl

theorem threshold_le_score_self (hname : name.utf8ByteSize ≤ 2 ^ 64) :
    threshold ≤ score name name := by
  obtain ⟨q, hq, hle⟩ := one_le_scoreLower_self (utf8ByteSize_lowerCase hname)
  refine (isValue_threshold.le_iff hq).2 ?_
  norm_num
  linarith

end PackedEdges.Suggestion
