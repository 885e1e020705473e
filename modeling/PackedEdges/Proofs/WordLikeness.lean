import PackedEdges.Similarity.EditDistance
import PackedEdges.Similarity.Jaro
import PackedEdges.Proofs.FloatArithmetic

/-! How alike two words are. Both measures are numbers from zero to one, and they are one for a word
and itself. A word that differs has a lower edit similarity, unless the words are so long that the
difference is lost in the rounding. -/

namespace PackedEdges.Similarity

open Rounding

/-- What is known of the distance `n` from `p` to `q`. -/
def Entry (p q : List Char) (n : ℕ) : Prop :=
  n ≤ max p.length q.length ∧ (n = 0 ↔ p = q)

/-- The entries of the row of `p` for the beginnings of a word after its beginning `q`. -/
def Entries (p : List Char) : List Char → List Char → List ℕ → Prop
  | _, [], [] => True
  | q, d :: rest, n :: row => Entry p (q ++ [d]) n ∧ Entries p (q ++ [d]) rest row
  | _, _, _ => False

variable {a b p q rest : List Char} {row : List ℕ} {n left diagonal : ℕ} {c d : Char}

theorem Entry.next (h : Entry p q diagonal) : Entry (p ++ [c]) (q ++ [d])
    (min (min (left + 1) (n + 1)) (if c = d then diagonal else diagonal + 1)) := by
  -- Nothing is asked of the entries before and above: the diagonal bounds the least of the three,
  -- and the other two are never zero.
  obtain ⟨hle, hzero⟩ := h
  have hsame : p ++ [c] = q ++ [d] ↔ p = q ∧ c = d := by
    simp
  constructor
  · simp only [List.length_append, List.length_singleton]
    split_ifs <;> omega
  · rw [hsame, ← hzero]
    split_ifs with hcd
    · simp [hcd]
    · simp [hcd]

theorem rowBelow_entries (hdiagonal : Entry p q diagonal) (habove : Entries p q rest row) :
    Entries (p ++ [c]) q rest (rowBelow c left diagonal (rest.zip row)) := by
  induction rest generalizing q left diagonal row with
  | nil => cases row <;> trivial
  | cons d rest ih =>
    cases row with
    | nil => exact habove.elim
    | cons n row => exact ⟨hdiagonal.next, ih habove.1 habove.2⟩

/-- The row of `p` for all beginnings of `b`. -/
def IsRow (p b : List Char) (row : List ℕ) : Prop :=
  ∃ first above, row = first :: above ∧ Entry p [] first ∧ Entries p [] b above

theorem isRow_nextRow (h : IsRow p b row) : IsRow (p ++ [c]) b (nextRow b row c) := by
  obtain ⟨first, above, rfl, hfirst, habove⟩ := h
  have hnext : Entry (p ++ [c]) [] (first + 1) := by
    have := hfirst.1
    refine ⟨?_, by simp⟩
    simp only [List.length_append, List.length_singleton, List.length_nil] at *
    omega
  exact ⟨_, _, rfl, hnext, rowBelow_entries hfirst habove⟩

theorem isRow_foldl (h : IsRow p b row) : IsRow (p ++ a) b (a.foldl (nextRow b) row) := by
  induction a generalizing p row with
  | nil => simpa using h
  | cons c a ih =>
    simpa using ih (isRow_nextRow h)

theorem entries_range' : Entries [] q rest (List.range' (q.length + 1) rest.length) := by
  induction rest generalizing q with
  | nil => trivial
  | cons d rest ih =>
    refine ⟨⟨by simp, by simp⟩, ?_⟩
    have h := ih (q := q ++ [d])
    rwa [List.length_append] at h

theorem Entries.last (hfirst : Entry p q n) (h : Entries p q rest row) :
    Entry p (q ++ rest) ((n :: row).getLastD 0) := by
  induction rest generalizing q n row with
  | nil =>
    cases row with
    | nil => simpa using hfirst
    | cons n row => exact h.elim
  | cons d rest ih =>
    cases row with
    | nil => exact h.elim
    | cons n' row => simpa using ih h.1 h.2

theorem editDistance_entry (a b : List Char) : Entry a b (editDistance a b) := by
  have hstart : IsRow [] b (List.range (b.length + 1)) := by
    refine ⟨0, List.range' 1 b.length, ?_, ⟨by simp, by simp⟩, entries_range'⟩
    rw [List.range_eq_range', List.range'_succ]
  obtain ⟨first, above, hrow, hfirst, habove⟩ := isRow_foldl (a := a) hstart
  rw [editDistance, hrow]
  exact habove.last hfirst

theorem editDistance_le (a b : List Char) : editDistance a b ≤ max a.length b.length :=
  (editDistance_entry a b).1

theorem editDistance_eq_zero_iff : editDistance a b = 0 ↔ a = b :=
  (editDistance_entry a b).2

variable {m : ℕ}

theorem rounded_pos (hn : 0 < n) : (0 : ℚ) < rounded n := by
  have h := rounded_mono (by exact_mod_cast hn : (1 : ℚ) ≤ n)
  rw [isValue_one.rounded_eq] at h
  exact one_pos.trans_le h

theorem atMost_share (hn : n ≤ 2 ^ 70) (hpos : 0 < n) (hmn : m ≤ n) :
    AtMost (m.toFloat / n.toFloat) 1 :=
  atMost_div (isValue_toFloat (hmn.trans hn)) (isValue_toFloat hn) (rounded_pos hpos)
    (rounded_mono (by exact_mod_cast hmn))

theorem isValue_share_self (hn : n ≤ 2 ^ 70) (hpos : 0 < n) :
    IsValue (n.toFloat / n.toFloat) 1 := by
  have hself := div_self (rounded_pos hpos).ne'
  have h := (isValue_toFloat hn).div (isValue_toFloat hn) (rounded_pos hpos) (by
    rw [hself]
    norm_num)
  rwa [hself, isValue_one.rounded_eq] at h

theorem le_rounded_share (hm : 0 < m) (hpos : 0 < n) (hn : n ≤ 2 ^ 40) :
    1 / 2 ^ 40 ≤ rounded (m / n) := by
  have hleast : (1 : ℚ) / 2 ^ 40 ≤ m / n := by
    rw [div_le_div_iff₀ (by norm_num) (by exact_mod_cast hpos)]
    exact_mod_cast (by omega : 1 * n ≤ m * 2 ^ 40)
  have hexact := rounded_eq_self (m := 1) (e := -40) (by norm_num) (by norm_num)
  have h := rounded_mono hleast
  norm_num at hexact h ⊢
  rwa [hexact] at h

theorem max_length_pos (h : ¬(a.isEmpty && b.isEmpty) = true) : 0 < max a.length b.length := by
  rw [Bool.and_eq_true, List.isEmpty_iff, List.isEmpty_iff, ← List.length_eq_zero_iff,
    ← List.length_eq_zero_iff] at h
  omega

theorem atMost_editSimilarity (ha : a.length ≤ 2 ^ 70) (hb : b.length ≤ 2 ^ 70) :
    AtMost (editSimilarity a b) 1 := by
  unfold editSimilarity
  split_ifs with hempty
  · exact isValue_one.atMost le_rfl
  · exact atMost_one_sub
      (atMost_share (max_le ha hb) (max_length_pos hempty) (editDistance_le a b))

theorem isValue_editSimilarity_self (ha : a.length ≤ 2 ^ 70) : IsValue (editSimilarity a a) 1 := by
  unfold editSimilarity
  split_ifs with hempty
  · exact isValue_one
  · have hzero : IsValue (editDistance a a).toFloat 0 := by
      rw [editDistance_eq_zero_iff.2 rfl]
      exact_mod_cast isValue_toFloat_of_lt (n := 0) (by norm_num)
    exact isValue_one_sub_zero (isValue_zero_div hzero (isValue_toFloat (max_le ha ha))
      (rounded_pos (max_length_pos hempty)))

theorem atMost_editSimilarity_of_ne (ha : a.length ≤ 2 ^ 40) (hb : b.length ≤ 2 ^ 40)
    (hab : a ≠ b) : AtMost (editSimilarity a b) (1 - 1 / 2 ^ 40) := by
  have hempty : ¬(a.isEmpty && b.isEmpty) = true := fun h => hab (by
    rw [Bool.and_eq_true, List.isEmpty_iff, List.isEmpty_iff] at h
    rw [h.1, h.2])
  have hlength : max a.length b.length ≤ 2 ^ 40 := max_le ha hb
  have hpos := max_length_pos hempty
  have hdistance : 1 ≤ editDistance a b :=
    Nat.one_le_iff_ne_zero.2 fun h => hab (editDistance_eq_zero_iff.1 h)
  have hle := editDistance_le a b
  rw [editSimilarity, if_neg hempty]
  generalize editDistance a b = d at hdistance hle
  generalize max a.length b.length = n at hlength hpos hle
  have hn : (0 : ℚ) < n := by exact_mod_cast hpos
  have hdn : (d : ℚ) / n ≤ 1 := (div_le_one hn).2 (by exact_mod_cast hle)
  have hratio := (isValue_toFloat_of_lt (n := d) (by omega)).div
    (isValue_toFloat_of_lt (n := n) (by omega)) hn (hdn.trans (by norm_num))
  refine ⟨_, isValue_one.sub hratio (rounded_le_one hdn) (by norm_num), ?_⟩
  have hexact := rounded_eq_self (m := 2 ^ 40 - 1) (e := -40) (by norm_num) (by norm_num)
  have h := rounded_mono (sub_le_sub_left (le_rounded_share hdistance hpos hlength) 1)
  norm_num at hexact h ⊢
  rwa [hexact] at h

variable {marked marked' : List Marked} {range place low high : ℕ}

theorem mark?_counts (h : mark? c low high place marked = some marked') :
    marked'.length = marked.length ∧ marked'.countP (·.2) = marked.countP (·.2) + 1 := by
  induction marked generalizing place marked' with
  | nil => simp [mark?] at h
  | cons entry rest ih =>
    obtain ⟨d, taken⟩ := entry
    simp only [mark?] at h
    split_ifs at h with hhigh hfree
    · obtain rfl := Option.some.inj h
      simp [hfree.2.2]
    · obtain ⟨rest', hrest, rfl⟩ := Option.map_eq_some_iff.1 h
      obtain ⟨hlength, hcount⟩ := ih hrest
      rw [List.length_cons, List.length_cons, hlength, List.countP_cons, List.countP_cons, hcount]
      exact ⟨rfl, by omega⟩

theorem matchFrom_counts (range place : ℕ) (a : List Char) (marked : List Marked) :
    (matchFrom range place a marked).1.length ≤ a.length ∧
      (matchFrom range place a marked).2.length = marked.length ∧
      (matchFrom range place a marked).2.countP (·.2) =
        marked.countP (·.2) + (matchFrom range place a marked).1.length := by
  induction a generalizing place marked with
  | nil => simp [matchFrom]
  | cons c a ih =>
    simp only [matchFrom]
    split
    · rename_i marked' hmark
      obtain ⟨hlength, hcount⟩ := mark?_counts hmark
      have h := ih (place + 1) marked'
      simp only [List.length_cons]
      omega
    · have h := ih (place + 1) marked
      simp only [List.length_cons]
      omega

theorem length_matchFrom_le (range : ℕ) (a b : List Char) :
    (matchFrom range 0 a (b.map (·, false))).1.length ≤ min a.length b.length := by
  obtain ⟨hle, hlength, hcount⟩ := matchFrom_counts range 0 a (b.map (·, false))
  have hnone : (b.map (·, false) : List Marked).countP (·.2) = 0 := by
    simp
  have hmarked := List.countP_le_length (p := (·.2))
    (l := (matchFrom range 0 a (b.map (·, false))).2)
  rw [List.length_map] at hlength
  omega

/-- The first free place is the one behind those that are taken. -/
theorem mark?_taken {before : List Char} {rest : List Marked} (hlow : low ≤ place + before.length)
    (hhigh : place + before.length < high) :
    mark? c low high place (before.map (·, true) ++ (c, false) :: rest) =
      some (before.map (·, true) ++ (c, true) :: rest) := by
  induction before generalizing place with
  | nil =>
    rw [List.length_nil, add_zero] at hlow hhigh
    simp [mark?, hlow, hhigh]
  | cons d before ih =>
    rw [List.length_cons] at hlow hhigh
    have hplace : ¬high ≤ place := by omega
    have h := @ih (place + 1) (by omega) (by omega)
    simp [mark?, hplace, h]

theorem matchFrom_self (range : ℕ) (before a : List Char) :
    matchFrom range before.length a (before.map (·, true) ++ a.map (·, false)) =
      (a, (before ++ a).map (·, true)) := by
  induction a generalizing before with
  | nil => simp [matchFrom]
  | cons c a ih =>
    have hmark : mark? c (before.length - range) (before.length + range + 1) 0
        (before.map (·, true) ++ (c, false) :: a.map (·, false)) =
          some (before.map (·, true) ++ (c, true) :: a.map (·, false)) :=
      mark?_taken (by omega) (by omega)
    have hnext := ih (before ++ [c])
    simp only [List.length_append, List.length_singleton, List.map_append, List.map_cons,
      List.map_nil, List.append_assoc, List.singleton_append] at hnext
    rw [List.map_cons, matchFrom, hmark]
    simp only [hnext]
    simp

theorem differences_self (a : List Char) : differences a a = 0 := by
  induction a with
  | nil => rfl
  | cons c a ih => simpa [differences] using ih

theorem isValue_three : IsValue 3.0 3 := by
  have h := isValue_of_unpack 3.0 (3 * 2 ^ 51) (-51) (by decide) rfl
  norm_num at h
  exact h

variable {x y z : Float}

theorem rounded_two : rounded (1 + 1) = 2 := by
  have h := rounded_natCast (n := 2) (by norm_num)
  norm_num at h ⊢
  exact h

theorem rounded_three : rounded (2 + 1) = 3 := by
  have h := isValue_three.rounded_eq
  norm_num
  exact h

theorem atMost_mean (hx : AtMost x 1) (hy : AtMost y 1) (hz : AtMost z 1) :
    AtMost ((x + y + z) / 3.0) 1 := by
  have hsum := (hx.add hy (by norm_num)).add hz (by rw [rounded_two]; norm_num)
  rw [rounded_two, rounded_three] at hsum
  obtain ⟨q, hq, hle⟩ := hsum
  exact atMost_div hq isValue_three (by norm_num) hle

theorem isValue_mean (hx : IsValue x 1) (hy : IsValue y 1) (hz : IsValue z 1) :
    IsValue ((x + y + z) / 3.0) 1 := by
  have hsum := (hx.add hy (by norm_num)).add hz (by rw [rounded_two]; norm_num)
  rw [rounded_two, rounded_three] at hsum
  have hquotient := hsum.div isValue_three (by norm_num) (by norm_num)
  rwa [div_self (by norm_num), isValue_one.rounded_eq] at hquotient

theorem atMost_jaro (ha : a.length ≤ 2 ^ 70) (hb : b.length ≤ 2 ^ 70) : AtMost (jaro a b) 1 := by
  have hmatched := length_matchFrom_le (max a.length b.length / 2 - 1) a b
  unfold jaro
  split_ifs with hempty hone
  · exact isValue_one.atMost le_rfl
  · exact isValue_zero.atMost zero_le_one
  · simp only
    split_ifs with hnone
    · exact isValue_zero.atMost zero_le_one
    · have hfound := Nat.pos_of_ne_zero hnone
      refine atMost_mean (atMost_share ha ?_ ?_) (atMost_share hb ?_ ?_)
        (atMost_share ?_ hfound ?_)
      all_goals omega

theorem isValue_jaro_self (ha : a.length ≤ 2 ^ 70) : IsValue (jaro a a) 1 := by
  have hself := matchFrom_self (max a.length a.length / 2 - 1) [] a
  simp only [List.length_nil, List.map_nil, List.nil_append] at hself
  unfold jaro
  split_ifs with hempty hone
  · exact isValue_one
  · simp_all
  · have hpos : 0 < a.length := by
      rw [Bool.or_self, List.isEmpty_iff, ← List.length_eq_zero_iff] at hone
      omega
    have hmarked : ((a.map (·, true) : List Marked).filter (·.2)).map (·.1) = a := by
      simp [List.filter_map, Function.comp_def]
    simp only [hself, hmarked, differences_self, Nat.zero_div, Nat.sub_zero, if_neg hpos.ne']
    exact isValue_mean (isValue_share_self ha hpos) (isValue_share_self ha hpos)
      (isValue_share_self ha hpos)

theorem commonStart_le (a b : List Char) : commonStart a b ≤ 4 := by
  unfold commonStart
  refine (List.takeWhile_prefix _).length_le.trans ?_
  simp

theorem isValue_gate : IsValue 0.7 (6305039478318694 * 2 ^ (-53 : ℤ)) :=
  isValue_of_unpack _ 6305039478318694 (-53) (by decide) rfl

theorem isValue_tenth : IsValue 0.1 (7205759403792794 * 2 ^ (-56 : ℤ)) :=
  isValue_of_unpack _ 7205759403792794 (-56) (by decide) rfl

theorem rounded_half : rounded (1 / 8 * 4) = 1 / 2 := by
  have h := rounded_eq_self (m := 1) (e := -1) (by norm_num) (by norm_num)
  norm_num at h ⊢
  exact h

theorem atMost_favour (a b : List Char) :
    AtMost (0.1 * (commonStart a b).toFloat) (1 / 2) := by
  have hstart := commonStart_le a b
  have htenth : AtMost 0.1 (1 / 8) := isValue_tenth.atMost (by norm_num)
  have hcount : AtMost (commonStart a b).toFloat 4 :=
    (isValue_toFloat_of_lt (by omega)).atMost (by exact_mod_cast hstart)
  have h := htenth.mul hcount (by norm_num)
  rwa [rounded_half] at h

/-- What is missing to one is exact from one half on, and so is one half of it; more than that is
never added. -/
theorem atMost_raised {q : ℚ} (hx : IsValue x q) (hlow : 1 / 2 ≤ q) (hhigh : q ≤ 1)
    (hy : AtMost y (1 / 2)) : AtMost (x + y * (1.0 - x)) 1 := by
  obtain ⟨k, hk, hmissing⟩ := hx.exists_complement hlow hhigh
  have hexact : rounded (1 - q) = 1 - q := by
    rw [hmissing, rounded_eq_self hk (by norm_num)]
  have hhalf : rounded (1 / 2 * (1 - q)) = 1 / 2 * (1 - q) := by
    have h := rounded_eq_self (e := -54) hk (by norm_num)
    have hvalue : 1 / 2 * (1 - q) = k * 2 ^ (-54 : ℤ) := by
      rw [hmissing]
      norm_num
      ring
    rwa [hvalue]
  have hrest : AtMost (1.0 - x) (1 - q) := by
    have h := isValue_one.sub hx hhigh (by norm_num)
    rw [hexact] at h
    exact h.atMost le_rfl
  have hadded := hy.mul hrest (by linarith)
  rw [hhalf] at hadded
  have hsum := (hx.atMost le_rfl).add hadded (by linarith)
  exact hsum.mono (rounded_le_one (by linarith))

theorem atMost_jaroWinkler (ha : a.length ≤ 2 ^ 70) (hb : b.length ≤ 2 ^ 70) :
    AtMost (jaroWinkler a b) 1 := by
  have hjaro := atMost_jaro ha hb
  unfold jaroWinkler
  simp only
  split_ifs with hgate
  · obtain ⟨q, hq, hle⟩ := hjaro
    have hlow := ((isValue_gate.lt_iff hq).1 hgate).le
    exact atMost_raised hq (le_trans (by norm_num) hlow) hle (atMost_favour a b)
  · exact hjaro

theorem isValue_jaroWinkler_self (ha : a.length ≤ 2 ^ 70) : IsValue (jaroWinkler a a) 1 := by
  have hjaro := isValue_jaro_self ha
  unfold jaroWinkler
  simp only
  split_ifs with hgate
  · obtain ⟨t, ht, hle⟩ := atMost_favour a a
    have hrest := isValue_one.sub hjaro le_rfl (by norm_num)
    rw [sub_self, rounded_of_nonpos le_rfl] at hrest
    have hfavour := ht.mul hrest (by norm_num)
    rw [mul_zero, rounded_of_nonpos le_rfl] at hfavour
    have hsum := hjaro.add hfavour (by norm_num)
    rwa [add_zero, isValue_one.rounded_eq] at hsum
  · exact hjaro

end PackedEdges.Similarity
