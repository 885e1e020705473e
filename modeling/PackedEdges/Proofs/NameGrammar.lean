import Mathlib.Computability.Language
import PackedEdges.NameRules

/-! Names as texts of characters. The check of a name goes over its bytes, and still it follows a
grammar of characters: what lies outside ASCII begins with a byte that no name has. -/

namespace PackedEdges

open Computability

def letters : Set Char :=
  {c | 'a' ≤ c ∧ c ≤ 'z'}

/-- The characters of a name but for the underscore that joins its two words. -/
def wordChars : Set Char :=
  {c | c ∈ letters ∨ '0' ≤ c ∧ c ≤ '9'}

def StartsDerived (name : String) : Prop :=
  "in_".toList <+: name.toList ∨ "backward_".toList <+: name.toList

structure NameForm (name : String) : Prop where
  two_le_length : 2 ≤ name.length
  first (c : Char) : c ∈ name.toList.head? → c ∈ letters
  others (c : Char) : c ∈ name.toList.tail → c ∈ wordChars ∨ c = '_'
  joints_le : name.toList.count '_' ≤ 1
  not_startsDerived : ¬ StartsDerived name

def oneOf (allowed : Set Char) : Language Char :=
  {text | ∃ c ∈ allowed, text = [c]}

/-- A letter, more of a first word, and the underscore with the second word if there is one. Both
words may end here. -/
def nameLanguage : Language Char :=
  oneOf letters * (oneOf wordChars)∗ * (1 + {['_']} * (oneOf wordChars)∗)

theorem mem_kstar_oneOf {allowed : Set Char} {cs : List Char} :
    cs ∈ (oneOf allowed)∗ ↔ ∀ c ∈ cs, c ∈ allowed := by
  constructor
  · rintro ⟨texts, rfl, htexts⟩ c hc
    obtain ⟨text, htext, hmem⟩ := List.mem_flatten.mp hc
    obtain ⟨d, hd, rfl⟩ := htexts text htext
    rwa [List.mem_singleton.mp hmem]
  · intro h
    refine ⟨cs.map fun c => [c], by simp [← List.flatMap_def], fun text htext => ?_⟩
    obtain ⟨c, hc, rfl⟩ := List.mem_map.mp htext
    exact ⟨c, h c hc, rfl⟩

theorem underscore_notMem_wordChars : '_' ∉ wordChars := by
  simp only [wordChars, letters, Set.mem_ofPred_eq]
  decide

theorem count_underscore_eq_zero {cs : List Char} (h : ∀ c ∈ cs, c ∈ wordChars) :
    cs.count '_' = 0 :=
  List.count_eq_zero.mpr fun hmem => underscore_notMem_wordChars (h '_' hmem)

/-- Two words with an underscore between them, or the first of them alone. -/
theorem mem_words_iff {cs : List Char} :
    cs ∈ (oneOf wordChars)∗ * (1 + {['_']} * (oneOf wordChars)∗) ↔
      (∀ c ∈ cs, c ∈ wordChars ∨ c = '_') ∧ cs.count '_' ≤ 1 := by
  constructor
  · intro h
    obtain ⟨front, hfront, back, hback, rfl⟩ := Language.mem_mul.mp h
    rw [mem_kstar_oneOf] at hfront
    have hnone := count_underscore_eq_zero hfront
    rcases (Language.mem_add _ _ _).mp hback with hempty | hjoined
    · obtain rfl := (Language.mem_one back).mp hempty
      exact ⟨fun c hc => .inl (hfront c (by simpa using hc)), by simp [hnone]⟩
    · obtain ⟨joint, hjoint, last, hlast, rfl⟩ := Language.mem_mul.mp hjoined
      obtain rfl : joint = ['_'] := hjoint
      rw [mem_kstar_oneOf] at hlast
      refine ⟨fun c hc => ?_, by simp [hnone, count_underscore_eq_zero hlast]⟩
      simp only [List.singleton_append, List.mem_append, List.mem_cons] at hc
      rcases hc with hc | rfl | hc
      · exact .inl (hfront c hc)
      · exact .inr rfl
      · exact .inl (hlast c hc)
  · rintro ⟨hchars, hcount⟩
    have hword {part : List Char} (hsub : part ⊆ cs) (hnone : part.count '_' = 0) :
        part ∈ (oneOf wordChars)∗ := by
      refine mem_kstar_oneOf.mpr fun c hc => (hchars c (hsub hc)).resolve_right ?_
      rintro rfl
      exact List.count_eq_zero.mp hnone hc
    by_cases hmem : '_' ∈ cs
    · obtain ⟨front, back, rfl⟩ := List.append_of_mem hmem
      simp only [List.count_append, List.count_cons_self] at hcount
      have hfront := hword (List.subset_append_left front _) (by omega)
      have hback : back ∈ (oneOf wordChars)∗ :=
        hword (fun c hc => List.mem_append_right _ (List.mem_cons_of_mem _ hc)) (by omega)
      have hjoined : ['_'] ++ back ∈ {['_']} * (oneOf wordChars)∗ :=
        Language.append_mem_mul (Set.mem_singleton _) hback
      exact Language.append_mem_mul hfront (.inr hjoined)
    · have hall := hword (List.Subset.refl cs) (List.count_eq_zero.mpr hmem)
      rw [← List.append_nil cs]
      exact Language.append_mem_mul hall (.inl rfl)

theorem cons_mem_nameLanguage_iff {first : Char} {rest : List Char} :
    first :: rest ∈ nameLanguage ↔ first ∈ letters ∧
      (∀ c ∈ rest, c ∈ wordChars ∨ c = '_') ∧ rest.count '_' ≤ 1 := by
  rw [nameLanguage, mul_assoc, Language.mem_mul]
  constructor
  · rintro ⟨_, ⟨c, hc, rfl⟩, others, hothers, hcons⟩
    obtain ⟨rfl, rfl⟩ := List.cons.inj hcons
    exact ⟨hc, mem_words_iff.mp hothers⟩
  · rintro ⟨hfirst, hrest⟩
    exact ⟨[first], ⟨first, hfirst, rfl⟩, rest, mem_words_iff.mpr hrest, rfl⟩

theorem mem_letters_iff {c : Char} : c ∈ letters ↔ 97 ≤ c.toNat ∧ c.toNat ≤ 122 :=
  Iff.rfl

theorem mem_wordChars_iff {c : Char} : c ∈ wordChars ↔
    (97 ≤ c.toNat ∧ c.toNat ≤ 122) ∨ 48 ≤ c.toNat ∧ c.toNat ≤ 57 :=
  Iff.rfl

theorem eq_underscore_iff {c : Char} : c = '_' ↔ c.toNat = 95 :=
  Char.toNat_inj.symm

theorem toList_toByteArray (bytes : List UInt8) : bytes.toByteArray.toList = bytes := by
  have hloop (all : ByteArray) (i : Nat) (before : List UInt8) :
      ByteArray.toList.loop all i before = before.reverse ++ all.data.toList.drop i := by
    fun_induction ByteArray.toList.loop all i before with
    | case1 i before hi ih =>
      have hlength : i < all.data.toList.length := by simpa using hi
      have hget : all.get! i = all.data.toList[i] := by
        rw [ByteArray.get!, getElem!_pos all.data i hi, Array.getElem_toList]
      rw [ih, List.drop_eq_getElem_cons hlength, hget]
      simp
    | case2 i before hi =>
      rw [List.drop_eq_nil_of_le (by simpa using hi)]
      simp
  rw [ByteArray.toList, hloop, List.toList_data_toByteArray]
  rfl

theorem toList_toUTF8 (name : String) :
    name.toUTF8.toList = name.toList.flatMap String.utf8EncodeChar := by
  rw [String.toUTF8_eq_toByteArray, ← String.utf8Encode_toList, List.utf8Encode,
    toList_toByteArray]

/-- An ASCII character is one byte, and every other one begins with a byte that is none. -/
theorem utf8EncodeChar_cases (c : Char) : ∃ b bs, String.utf8EncodeChar c = b :: bs ∧
    (b.toNat = c.toNat ∧ bs = [] ∨ 128 ≤ b.toNat ∧ 128 ≤ c.toNat) := by
  have hvalue : c.val.toNat = c.toNat := rfl
  rw [String.utf8EncodeChar, hvalue]
  split_ifs with hone htwo hthree
  · refine ⟨_, _, rfl, .inl ⟨?_, rfl⟩⟩
    exact UInt8.toNat_ofNat_of_lt' (by simp only [UInt8.size]; omega)
  · refine ⟨_, _, rfl, .inr ⟨?_, by omega⟩⟩
    rw [UInt8.toNat_ofNat']
    omega
  · refine ⟨_, _, rfl, .inr ⟨?_, by omega⟩⟩
    rw [UInt8.toNat_ofNat']
    omega
  · refine ⟨_, _, rfl, .inr ⟨?_, by omega⟩⟩
    rw [UInt8.toNat_ofNat']
    omega

theorem isLowerByte_iff {b : UInt8} : isLowerByte b = true ↔ 97 ≤ b.toNat ∧ b.toNat ≤ 122 := by
  simp [isLowerByte, UInt8.le_iff_toNat_le]

theorem isDigitByte_iff {b : UInt8} : isDigitByte b = true ↔ 48 ≤ b.toNat ∧ b.toNat ≤ 57 := by
  simp [isDigitByte, UInt8.le_iff_toNat_le]

/-- What the scan of a name's bytes makes of one character. -/
theorem scanNameTail_char (joined : Bool) (c : Char) (bytes : List UInt8) :
    scanNameTail joined (String.utf8EncodeChar c ++ bytes) = true ↔
      c ∈ wordChars ∧ scanNameTail joined bytes = true ∨
        c = '_' ∧ joined = false ∧ scanNameTail true bytes = true := by
  obtain ⟨b, bs, hbytes, hb⟩ := utf8EncodeChar_cases c
  have hunder : b = 95 ↔ b.toNat = 95 := UInt8.toNat_inj.symm
  rw [hbytes, List.cons_append, scanNameTail, mem_wordChars_iff, eq_underscore_iff]
  rcases hb with ⟨hsame, rfl⟩ | ⟨hb, hc⟩
  · rw [← hsame]
    by_cases hjoint : b.toNat = 95
    · rw [if_pos (hunder.mpr hjoint)]
      simp [hjoint]
    · rw [if_neg (mt hunder.mp hjoint)]
      simp [hjoint, isLowerByte_iff, isDigitByte_iff]
  · rw [if_neg (by rw [hunder]; omega)]
    simp only [Bool.and_eq_true, Bool.or_eq_true, isLowerByte_iff, isDigitByte_iff]
    omega

theorem scanNameTail_utf8 (joined : Bool) (cs : List Char) :
    scanNameTail joined (cs.flatMap String.utf8EncodeChar) = true ↔
      (∀ c ∈ cs, c ∈ wordChars ∨ c = '_') ∧ cs.count '_' + joined.toNat ≤ 1 := by
  induction cs generalizing joined with
  | nil => cases joined <;> simp [scanNameTail]
  | cons c cs ih =>
    rw [List.flatMap_cons, scanNameTail_char, ih, ih, List.forall_mem_cons]
    by_cases hjoint : c = '_'
    · subst hjoint
      simp only [underscore_notMem_wordChars, false_and, false_or, true_and, or_true,
        List.count_cons_self]
      cases joined <;> simp
    · simp [hjoint, List.count_cons_of_ne hjoint, and_assoc]

theorem isIdentifier_of_bytes {name : String} {b : UInt8} {bytes : List UInt8}
    (h : name.toUTF8.toList = b :: bytes) : isIdentifier name = true ↔
      isLowerByte b = true ∧ bytes ≠ [] ∧ ¬ StartsDerived name ∧
        scanNameTail false bytes = true := by
  have hstarts : (derivedNameStarts.any fun start => start.toList.isPrefixOf name.toList) = true ↔
      StartsDerived name := by
    simp only [derivedNameStarts, List.any_cons, List.any_nil, Bool.or_false, Bool.or_eq_true,
      List.isPrefixOf_iff_prefix]
    rfl
  rw [isIdentifier, h]
  cases bytes with
  | nil => simp
  | cons second rest => simp [← hstarts, and_assoc]

theorem isIdentifier_of_toList {name : String} {first : Char} {rest : List Char}
    (h : name.toList = first :: rest) : isIdentifier name = true ↔
      first ∈ letters ∧ rest ≠ [] ∧ ¬ StartsDerived name ∧
        (∀ c ∈ rest, c ∈ wordChars ∨ c = '_') ∧ rest.count '_' ≤ 1 := by
  obtain ⟨b, bs, hbytes, hb⟩ := utf8EncodeChar_cases first
  have hname : name.toUTF8.toList = b :: (bs ++ rest.flatMap String.utf8EncodeChar) := by
    rw [toList_toUTF8, h, List.flatMap_cons, hbytes, List.cons_append]
  rw [isIdentifier_of_bytes hname, isLowerByte_iff, mem_letters_iff]
  rcases hb with ⟨hsame, rfl⟩ | ⟨hb, hc⟩
  · rw [List.nil_append, scanNameTail_utf8, hsame, Bool.toNat_false, Nat.add_zero]
    have hempty : rest.flatMap String.utf8EncodeChar = [] ↔ rest = [] := by
      cases rest <;> simp [String.utf8EncodeChar_ne_nil]
    rw [ne_eq, hempty]
  · omega

theorem isIdentifier_eq_false_of_toList {name : String} (h : name.toList = []) :
    isIdentifier name = false := by
  rw [isIdentifier, toList_toUTF8, h]
  rfl

theorem two_le_length_iff {name : String} {first : Char} {rest : List Char}
    (h : name.toList = first :: rest) : 2 ≤ name.length ↔ rest ≠ [] := by
  rw [← String.length_toList, h, List.length_cons, ← List.length_pos_iff]
  omega

theorem nameForm_of_toList {name : String} {first : Char} {rest : List Char}
    (h : name.toList = first :: rest) : NameForm name ↔
      first ∈ letters ∧ rest ≠ [] ∧ ¬ StartsDerived name ∧
        (∀ c ∈ rest, c ∈ wordChars ∨ c = '_') ∧ rest.count '_' ≤ 1 := by
  have hcount (hfirst : first ∈ letters) : name.toList.count '_' = rest.count '_' := by
    rw [h, List.count_cons_of_ne]
    rintro rfl
    exact underscore_notMem_wordChars (.inl hfirst)
  constructor
  · intro hform
    have hfirst : first ∈ letters := hform.first first (by simp [h])
    refine ⟨hfirst, (two_le_length_iff h).mp hform.two_le_length, hform.not_startsDerived,
      fun c hc => hform.others c (by simpa [h] using hc), ?_⟩
    rw [← hcount hfirst]
    exact hform.joints_le
  · rintro ⟨hfirst, hrest, hstart, hothers, hjoints⟩
    refine ⟨(two_le_length_iff h).mpr hrest, fun c hc => ?_, fun c hc => ?_, ?_, hstart⟩
    · obtain rfl : first = c := by simpa [h] using hc
      exact hfirst
    · exact hothers c (by simpa [h] using hc)
    · rwa [hcount hfirst]

/-- The check of the bytes of a name accepts the names of this form, which are those of this
language, and no other text of any characters. -/
theorem accepted_names_have_form :
    (∀ name : String, isIdentifier name = true ↔ NameForm name) ∧
    (∀ name : String, isIdentifier name = true ↔
      2 ≤ name.length ∧ name.toList ∈ nameLanguage ∧ ¬ StartsDerived name) ∧
    ∀ (rules : NameRules) (name : String),
      rules.accepts name = true ↔ isIdentifier name = true ∧ name ∉ rules.reserved := by
  refine ⟨fun name => ?_, fun name => ?_, fun rules name => ?_⟩
  · cases hname : name.toList with
    | nil =>
      have hshort : ¬ NameForm name := fun h => by
        simpa [← String.length_toList, hname] using h.two_le_length
      simp [isIdentifier_eq_false_of_toList hname, hshort]
    | cons first rest => rw [isIdentifier_of_toList hname, nameForm_of_toList hname]
  · cases hname : name.toList with
    | nil =>
      simp [isIdentifier_eq_false_of_toList hname, ← String.length_toList, hname]
    | cons first rest =>
      rw [isIdentifier_of_toList hname, two_le_length_iff hname, cons_mem_nameLanguage_iff]
      tauto
  · simp [NameRules.accepts, NameRules.isReserved]

/-- A letter with a diacritic lies on two bytes, and both are refused. -/
example : isIdentifier "höhe" = false ∧ isIdentifier "toll_" = true ∧
    isIdentifier "road_class_" = false := by cbv

end PackedEdges
