import Mathlib
import PackedEdges.Proofs.NameGrammar
import PackedEdges.Text.LowerCase

/-! What lower-casing does to the length of a text, and that it leaves names as they are. -/

namespace PackedEdges.Text

theorem length_le_utf8Len (cs : List Char) : cs.length ≤ String.utf8Len cs := by
  induction cs with
  | nil => exact Nat.le_refl _
  | cons c cs ih =>
    have hpos := c.utf8Size_pos
    rw [List.length_cons, String.utf8Len_cons]
    omega

theorem utf8Len_le (cs : List Char) : String.utf8Len cs ≤ 4 * cs.length := by
  induction cs with
  | nil => exact Nat.le_refl _
  | cons c cs ih =>
    have hsize := c.utf8Size_le_four
    rw [List.length_cons, String.utf8Len_cons]
    omega

theorem length_le_utf8ByteSize (text : String) : text.length ≤ text.utf8ByteSize := by
  rw [← String.utf8Len_toList, ← String.length_toList]
  exact length_le_utf8Len _

theorem length_lowerChar_le (c : Char) : (lowerChar c).length ≤ 2 := by
  unfold lowerChar
  split
  · exact le_rfl
  · simp only
    split <;> simp

theorem length_lowerChars_le (before cs : List Char) :
    (lowerChars before cs).length ≤ 2 * cs.length := by
  induction cs generalizing before with
  | nil => simp [lowerChars]
  | cons c cs ih =>
    have hc := length_lowerChar_le c
    have h := ih (c :: before)
    simp only [lowerChars, List.length_append, List.length_cons]
    split_ifs
    · rw [List.length_singleton]
      omega
    · rw [List.length_singleton]
      omega
    · omega

/-- A character may become two, and a character has at most four bytes. -/
theorem utf8ByteSize_lowerCase_le (text : String) :
    (lowerCase text).utf8ByteSize ≤ 8 * text.utf8ByteSize := by
  have hchars := length_lowerChars_le [] text.toList
  have hbytes := utf8Len_le (lowerChars [] text.toList)
  have htext := length_le_utf8ByteSize text
  rw [← String.length_toList] at htext
  rw [← String.utf8Len_toList, lowerCase, String.toList_ofList]
  omega

/-- The code points of the characters of names. -/
def InNames (n : ℕ) : Prop :=
  48 ≤ n ∧ n ≤ 57 ∨ n = 95 ∨ 97 ≤ n ∧ n ≤ 122

instance (n : ℕ) : Decidable (InNames n) :=
  inferInstanceAs (Decidable (_ ∨ _))

theorem lowerChar_of_inNames {c : Char} (h : InNames c.toNat) : lowerChar c = [c] := by
  have htable : ∀ n < 123, InNames n → lowerChar (Char.ofNat n) = [Char.ofNat n] := by
    decide +kernel
  have hlt : c.toNat < 123 := by
    unfold InNames at h
    omega
  have hsame := htable c.toNat hlt h
  rwa [Char.ofNat_toNat] at hsame

theorem lowerChars_eq_self (before cs : List Char) (h : ∀ c ∈ cs, InNames c.toNat) :
    lowerChars before cs = cs := by
  induction cs generalizing before with
  | nil => rfl
  | cons c cs ih =>
    have hc : InNames c.toNat := h c (by simp)
    have hsigma : c ≠ 'Σ' := by
      rintro rfl
      exact absurd hc (by decide)
    rw [lowerChars, ih _ fun d hd => h d (by simp [hd])]
    simp only [if_neg hsigma, lowerChar_of_inNames hc, List.singleton_append]

theorem inNames_of_isIdentifier {name : String} (h : isIdentifier name = true) {c : Char}
    (hc : c ∈ name.toList) : InNames c.toNat := by
  have hword {d : Char} (hd : d ∈ wordChars) : InNames d.toNat := by
    rw [mem_wordChars_iff] at hd
    unfold InNames
    omega
  cases hname : name.toList with
  | nil => simp [hname] at hc
  | cons first rest =>
    obtain ⟨hfirst, -, -, hrest, -⟩ := (isIdentifier_of_toList hname).1 h
    rw [hname] at hc
    rcases List.mem_cons.1 hc with rfl | hc
    · exact hword (.inl hfirst)
    · rcases hrest c hc with hmem | rfl
      · exact hword hmem
      · decide

theorem lowerCase_of_isIdentifier {name : String} (h : isIdentifier name = true) :
    lowerCase name = name := by
  rw [lowerCase, lowerChars_eq_self [] _ fun c hc => inNames_of_isIdentifier h hc,
    String.ofList_toList]

theorem count_underscore_le {name : String} (h : isIdentifier name = true) :
    name.toList.count '_' ≤ 1 := by
  cases hname : name.toList with
  | nil => simp
  | cons first rest =>
    obtain ⟨hfirst, -, -, -, hcount⟩ := (isIdentifier_of_toList hname).1 h
    rw [List.count_cons_of_ne]
    · exact hcount
    · rintro rfl
      exact underscore_notMem_wordChars (.inl hfirst)

end PackedEdges.Text
