import Mathlib
import PackedEdges.Proofs.BuiltSchema
import PackedEdges.Proofs.NameGrammar
import PackedEdges.Report

/-! The layout of a schema as a text. Columns may be wider than their headings and lines end as
they like, and still the text can be cut into lines and words that give every number of the schema
back. -/

namespace PackedEdges.Report

/-- What stands between blanks. -/
def words (text : List Char) : List (List Char) :=
  (text.splitOn ' ').filter fun word => word ≠ []

theorem words_append_cons (front back : List Char) :
    words (front ++ ' ' :: back) = words front ++ words back := by
  rw [words, List.splitOn_append_cons_self, List.filter_append]
  rfl

theorem words_eq_singleton {word : List Char} (hblank : ' ' ∉ word) (hne : word ≠ []) :
    words word = [word] := by
  simp [words, List.splitOn_eq_singleton hblank, hne]

theorem words_blanks_append (n : Nat) (text : List Char) :
    words (List.replicate n ' ' ++ text) = words text := by
  induction n with
  | zero => rfl
  | succ n ih => exact (words_append_cons [] _).trans ih

theorem words_append_blanks (text : List Char) (n : Nat) :
    words (text ++ List.replicate n ' ') = words text := by
  cases n with
  | zero => simp
  | succ n =>
    have hnone := words_blanks_append n []
    rw [List.append_nil] at hnone
    rw [List.replicate_succ, words_append_cons, hnone]
    exact List.append_nil _

theorem words_padRight (width : Nat) (column : String) :
    words (padRight width column).toList = words column.toList := by
  rw [padRight, String.toList_append, String.toList_ofList, words_append_blanks]

theorem words_padLeft (width : Nat) (column : String) :
    words (padLeft width column).toList = words column.toList := by
  rw [padLeft, String.toList_append, String.toList_ofList, words_blanks_append]

theorem words_gap (front back : String) :
    words (front ++ "  " ++ back).toList = words front.toList ++ words back.toList := by
  have hgap : (front ++ "  " ++ back).toList = front.toList ++ ' ' :: ([] ++ ' ' :: back.toList) := by
    simp
  rw [hgap, words_append_cons, words_append_cons]
  rfl

theorem words_lineText (nameWidth : Nat) (line : Line) :
    words (line.text nameWidth).toList = words line.name.toList ++ words line.bits.toList ++
      words line.range.toList ++ words line.flags.toList ++ words line.forward.toList ++
        words line.reverse.toList := by
  simp only [Line.text, words_gap, words_padRight, words_padLeft]

theorem words_space (front back : String) :
    words (front ++ " " ++ back).toList = words front.toList ++ words back.toList := by
  have hspace : (front ++ " " ++ back).toList = front.toList ++ ' ' :: back.toList := by simp
  rw [hspace, words_append_cons]

/-- Neither a blank nor the end of a line is in the text. -/
def Solid (text : String) : Prop :=
  ∀ c ∈ text.toList, c ≠ ' ' ∧ c ≠ '\n'

theorem Solid.append {front back : String} (hfront : Solid front) (hback : Solid back) :
    Solid (front ++ back) := by
  intro c hc
  rw [String.toList_append, List.mem_append] at hc
  exact hc.elim (hfront c) (hback c)

theorem Solid.words_eq {text : String} (h : Solid text) (hne : text ≠ "") :
    words text.toList = [text.toList] :=
  words_eq_singleton (fun hmem => (h ' ' hmem).1 rfl) (by simpa using hne)

theorem Solid.newline_notMem {text : String} (h : Solid text) : '\n' ∉ text.toList :=
  fun hmem => (h '\n' hmem).2 rfl

theorem solid_of_digits {text : String} (h : ∀ c ∈ text.toList, c.isDigit = true) :
    Solid text := by
  intro c hc
  constructor
  · rintro rfl
    exact absurd (h ' ' hc) (by decide)
  · rintro rfl
    exact absurd (h '\n' hc) (by decide)

theorem solid_toString (n : Nat) : Solid (toString n) := by
  refine solid_of_digits fun c hc => ?_
  rw [Nat.toString_eq_ofList_toDigits, String.toList_ofList] at hc
  exact Nat.isDigit_of_mem_toDigits (by decide) (by decide) hc

theorem solid_toString_int (n : Int) : Solid (toString n) := by
  rw [Int.toString_eq_repr, Int.repr_eq_if]
  split
  · exact solid_toString _
  · exact Solid.append (by simp [Solid]) (solid_toString _)

theorem exists_digitChar_of_mem_toDigits {n : Nat} {c : Char} (hc : c ∈ Nat.toDigits 16 n) :
    ∃ d < 16, c = d.digitChar := by
  induction n using Nat.strongRecOn with
  | ind n ih =>
    by_cases hlt : n < 16
    · rw [Nat.toDigits_of_lt_base hlt, List.mem_singleton] at hc
      exact ⟨n, hlt, hc⟩
    · rw [Nat.toDigits_of_base_le (by decide) (by omega), List.mem_append] at hc
      rcases hc with hfront | hlast
      · exact ih _ (by omega) hfront
      · exact ⟨n % 16, by omega, List.mem_singleton.mp hlast⟩

theorem solid_hexWord (n : UInt32) : Solid (hexWord n) := by
  have hdigit : ∀ d < 16, d.digitChar ≠ ' ' ∧ d.digitChar ≠ '\n' := by decide
  intro c hc
  rw [hexWord, String.toList_ofList, List.mem_append] at hc
  rcases hc with hzero | hmem
  · rw [List.eq_of_mem_replicate hzero]
    decide
  · obtain ⟨d, hd, rfl⟩ := exists_digitChar_of_mem_toDigits hmem
    exact hdigit d hd

theorem solid_of_isIdentifier {name : String} (h : isIdentifier name = true) :
    Solid name ∧ name ≠ "" := by
  cases hname : name.toList with
  | nil => simp [isIdentifier_eq_false_of_toList hname] at h
  | cons first rest =>
    obtain ⟨hfirst, _, _, hrest, _⟩ := (isIdentifier_of_toList hname).mp h
    have hword : ∀ c ∈ name.toList, c ∈ wordChars ∨ c = '_' := by
      rw [hname]
      exact List.forall_mem_cons.mpr ⟨.inl (.inl hfirst), hrest⟩
    refine ⟨fun c hc => ⟨?_, ?_⟩, fun hempty => by simp [hempty] at hname⟩
    · rintro rfl
      have hblank := hword ' ' hc
      simp only [mem_wordChars_iff] at hblank
      exact absurd hblank (by decide)
    · rintro rfl
      have hend := hword '\n' hc
      simp only [mem_wordChars_iff] at hend
      exact absurd hend (by decide)

/-- The number that hexadecimal digits spell. -/
def hexValue (digits : List Char) : Nat :=
  digits.foldl (fun n c => 16 * n + if c.isDigit then c.toNat - 48 else c.toNat - 87) 0

theorem hexValue_toDigits (n : Nat) : hexValue (Nat.toDigits 16 n) = n := by
  have hdigit : ∀ d < 16, (if d.digitChar.isDigit then d.digitChar.toNat - 48
      else d.digitChar.toNat - 87) = d := by decide
  induction n using Nat.strongRecOn with
  | ind n ih =>
    by_cases hlt : n < 16
    · rw [Nat.toDigits_of_lt_base hlt]
      simpa [hexValue] using hdigit n hlt
    · rw [Nat.toDigits_of_base_le (by decide) (by omega), hexValue, List.foldl_append]
      have hfront : hexValue (Nat.toDigits 16 (n / 16)) = n / 16 := ih _ (by omega)
      rw [hexValue] at hfront
      rw [hfront, List.foldl_cons, List.foldl_nil, hdigit _ (by omega)]
      omega

theorem hexValue_hexWord (n : UInt32) : hexValue (hexWord n).toList = n.toNat := by
  -- The zeros that fill the word up stand in front of the number.
  have hzeros (k : Nat) (digits : List Char) :
      hexValue (List.replicate k '0' ++ digits) = hexValue digits := by
    induction k with
    | zero => rfl
    | succ k ih => exact ih
  rw [hexWord, String.toList_ofList, hzeros, hexValue_toDigits]

theorem hexWord_inj {n m : UInt32} (h : hexWord n = hexWord m) : n = m := by
  rw [← UInt32.toNat_inj, ← hexValue_hexWord n, h, hexValue_hexWord]

def slotWords (slot : Slot) : List String :=
  ["w" ++ toString slot.word.toNat, ">>" ++ toString slot.shift.toNat,
    "mask=0x" ++ hexWord slot.mask,
    "byte=" ++ toString slot.byteIndex.toNat ++ "+" ++ toString slot.byteShift.toNat]

theorem length_slotWords (slot : Slot) : (slotWords slot).length = 4 := rfl

theorem solid_slotWords (slot : Slot) : ∀ word ∈ slotWords slot, Solid word ∧ word ≠ "" := by
  have hnat := fun n : Nat => solid_toString n
  intro word hword
  simp only [slotWords, List.mem_cons, List.not_mem_nil, or_false] at hword
  rcases hword with rfl | rfl | rfl | rfl
  · exact ⟨.append (by simp [Solid]) (hnat _), by simp [← String.toList_inj]⟩
  · exact ⟨.append (by simp [Solid]) (hnat _), by simp [← String.toList_inj]⟩
  · exact ⟨.append (by simp [Solid]) (solid_hexWord _), by simp [← String.toList_inj]⟩
  · exact ⟨.append (.append (.append (by simp [Solid]) (hnat _)) (by simp [Solid])) (hnat _),
      by simp [← String.toList_inj]⟩

theorem words_slotText (slot : Slot) :
    words (slotText slot).toList = (slotWords slot).map String.toList := by
  have htext : slotText slot = "w" ++ toString slot.word.toNat ++ " " ++
      (">>" ++ padRight 2 (toString slot.shift.toNat) ++ " " ++
        ("mask=0x" ++ hexWord slot.mask ++ " " ++ ("byte=" ++ toString slot.byteIndex.toNat ++
          "+" ++ toString slot.byteShift.toNat))) := by
    simp [slotText, ← String.toList_inj]
  -- The blanks that widen the shift stand behind its own word.
  have hshiftWords : words (">>" ++ padRight 2 (toString slot.shift.toNat)).toList =
      words (">>" ++ toString slot.shift.toNat).toList := by
    rw [padRight, ← String.append_assoc, String.toList_append, String.toList_ofList,
      words_append_blanks]
  have hsolid := solid_slotWords slot
  simp only [slotWords, List.forall_mem_cons] at hsolid
  obtain ⟨⟨hword, hword'⟩, ⟨hshift, hshift'⟩, ⟨hmask, hmask'⟩, ⟨hbyte, hbyte'⟩, _⟩ := hsolid
  rw [htext, words_space, words_space, words_space, hshiftWords, hword.words_eq hword',
    hshift.words_eq hshift', hmask.words_eq hmask', hbyte.words_eq hbyte']
  rfl

theorem toString_nat_inj {n m : Nat} : toString n = toString m ↔ n = m := by
  rw [Nat.toString_eq_repr, Nat.toString_eq_repr, Nat.repr_inj]

theorem slotWords_inj {s t : Slot} (h : slotWords s = slotWords t) : s = t := by
  -- The last word says nothing that the word and the shift do not say.
  simp only [slotWords, List.cons.injEq, String.append_right_inj, toString_nat_inj,
    UInt32.toNat_inj] at h
  obtain ⟨hword, hshift, hmask, _⟩ := h
  have hmask := hexWord_inj hmask
  cases s
  cases t
  simp_all

def rangeWords (a : Attribute) : List String :=
  ["[" ++ toString a.minimum.toInt ++ ",", toString a.maximum.toInt ++ "]"]

/-- An attribute without a reverse slot says in words what its reverse direction holds. -/
def reverseWords (a : Attribute) : List String :=
  match a.reverse with
  | some slot => slotWords slot
  | none => if a.negates then ["=", "-forward"] else ["=", "forward"]

def attributeWords (a : Attribute) : List String :=
  [a.name, toString a.bits.toNat] ++ rangeWords a ++ [Line.flagsOf a] ++ slotWords a.forward ++
    reverseWords a

theorem solid_rangeWords (a : Attribute) : ∀ word ∈ rangeWords a, Solid word ∧ word ≠ "" := by
  have hint := fun n : Int => solid_toString_int n
  intro word hword
  simp only [rangeWords, List.mem_cons, List.not_mem_nil, or_false] at hword
  rcases hword with rfl | rfl
  · exact ⟨.append (.append (by simp [Solid]) (hint _)) (by simp [Solid]),
      by simp [← String.toList_inj]⟩
  · exact ⟨.append (hint _) (by simp [Solid]), by simp⟩

theorem solid_flagsOf (a : Attribute) : Solid (Line.flagsOf a) ∧ Line.flagsOf a ≠ "" := by
  refine ⟨fun c hc => ?_, by simp [Line.flagsOf, ← String.toList_inj]⟩
  rw [Line.flagsOf, String.toList_ofList] at hc
  simp only [List.mem_cons, List.not_mem_nil, or_false] at hc
  rcases hc with rfl | rfl | rfl <;> split <;> decide

theorem solid_reverseWords (a : Attribute) : ∀ word ∈ reverseWords a, Solid word ∧ word ≠ "" := by
  unfold reverseWords
  cases a.reverse with
  | some slot => exact solid_slotWords slot
  | none => cases a.negates <;> simp [Solid]

theorem words_range (a : Attribute) :
    words (Line.ofAttribute a).range.toList = (rangeWords a).map String.toList := by
  have hrange : (Line.ofAttribute a).range =
      "[" ++ toString a.minimum.toInt ++ "," ++ " " ++ (toString a.maximum.toInt ++ "]") := by
    simp [Line.ofAttribute, ← String.toList_inj]
  have hsolid := solid_rangeWords a
  simp only [rangeWords, List.forall_mem_cons] at hsolid
  obtain ⟨⟨hmin, hmin'⟩, ⟨hmax, hmax'⟩, _⟩ := hsolid
  rw [hrange, words_space, hmin.words_eq hmin', hmax.words_eq hmax']
  rfl

theorem words_reverseOf (a : Attribute) :
    words (Line.reverseOf a).toList = (reverseWords a).map String.toList := by
  unfold Line.reverseOf reverseWords
  cases a.reverse with
  | some slot => exact words_slotText slot
  | none => cases a.negates <;> cbv

theorem words_attribute_line (width : Nat) (a : Attribute) (hname : isIdentifier a.name = true) :
    words ((Line.ofAttribute a).text width).toList = (attributeWords a).map String.toList := by
  obtain ⟨hsolid, hne⟩ := solid_of_isIdentifier hname
  obtain ⟨hflags, hflags'⟩ := solid_flagsOf a
  have hbits : toString a.bits.toNat ≠ "" := by
    simp [← String.toList_inj, Nat.toDigits_ne_nil]
  rw [words_lineText, words_range]
  simp only [Line.ofAttribute]
  rw [hsolid.words_eq hne, (solid_toString _).words_eq hbits, hflags.words_eq hflags',
    words_slotText, words_reverseOf]
  simp [attributeWords]

theorem flagsOf_inj {a b : Attribute} (h : Line.flagsOf a = Line.flagsOf b) :
    a.twoDirections = b.twoDirections ∧ a.negates = b.negates ∧ a.byBytes = b.byBytes := by
  have hletter (p q : Bool) (c : Char) (hc : c ≠ '-')
      (hpq : (if p then c else '-') = if q then c else '-') : p = q := by
    cases p <;> cases q <;> simp_all [eq_comm]
  simp only [Line.flagsOf, String.ofList_inj, List.cons.injEq] at h
  obtain ⟨htwo, hneg, hbytes, _⟩ := h
  exact ⟨hletter _ _ '2' (by decide) htwo, hletter _ _ 'n' (by decide) hneg,
    hletter _ _ 'b' (by decide) hbytes⟩

theorem rangeWords_inj {a b : Attribute} (h : rangeWords a = rangeWords b) :
    a.minimum = b.minimum ∧ a.maximum = b.maximum := by
  simp only [rangeWords, List.cons.injEq, String.append_left_inj, String.append_right_inj,
    Int.toString_eq_repr, Int.repr_inj, Int32.toInt_inj] at h
  exact ⟨h.1, h.2.1⟩

theorem reverseWords_inj {a b : Attribute} (h : reverseWords a = reverseWords b) :
    a.reverse = b.reverse := by
  -- A slot is four words, its absence two.
  have htwo (negates : Bool) :
      (if negates then ["=", "-forward"] else ["=", "forward"]).length = 2 := by
    cases negates <;> rfl
  unfold reverseWords at h
  cases ha : a.reverse with
  | none =>
    cases hb : b.reverse with
    | none => rfl
    | some t =>
      have hlen := congrArg List.length h
      simp only [ha, hb, length_slotWords, htwo] at hlen
      omega
  | some s =>
    cases hb : b.reverse with
    | none =>
      have hlen := congrArg List.length h
      simp only [ha, hb, length_slotWords, htwo] at hlen
      omega
    | some t =>
      simp only [ha, hb] at h
      rw [slotWords_inj h]

theorem attributeWords_inj {a b : Attribute} (h : attributeWords a = attributeWords b) :
    b = a.withGreatest b.greatest := by
  simp only [attributeWords, List.append_assoc] at h
  obtain ⟨hfront, h⟩ := List.append_inj h (by simp)
  obtain ⟨hrange, h⟩ := List.append_inj h (by simp [rangeWords])
  obtain ⟨hflags, h⟩ := List.append_inj h (by simp)
  obtain ⟨hforward, hreverse⟩ := List.append_inj h (by simp [length_slotWords])
  simp only [List.cons.injEq, toString_nat_inj, UInt32.toNat_inj] at hfront
  obtain ⟨hname, hbits, _⟩ := hfront
  obtain ⟨hmin, hmax⟩ := rangeWords_inj hrange
  simp only [List.cons.injEq, and_true] at hflags
  obtain ⟨htwo, hneg, hbytes⟩ := flagsOf_inj hflags
  have hforward := slotWords_inj hforward
  have hreverse := reverseWords_inj hreverse
  cases a
  cases b
  simp_all [Attribute.withGreatest]

theorem exists_mem_of_mem_intercalate {c sep : Char} {pieces : List (List Char)}
    (hc : c ∈ [sep].intercalate pieces) : c = sep ∨ ∃ piece ∈ pieces, c ∈ piece := by
  induction pieces with
  | nil => simp [List.intercalate] at hc
  | cons piece pieces ih =>
    cases pieces with
    | nil => exact .inr ⟨piece, by simp, by simpa [List.intercalate] using hc⟩
    | cons next pieces =>
      have hc : c ∈ piece ++ ([sep] ++ [sep].intercalate (next :: pieces)) := by
        simpa [List.intercalate] using hc
      rw [List.mem_append, List.mem_append, List.mem_singleton] at hc
      rcases hc with hpiece | hsep | hrest
      · exact .inr ⟨piece, by simp, hpiece⟩
      · exact .inl hsep
      · obtain heq | ⟨piece', hmem, hin⟩ := ih hrest
        · exact .inl heq
        · exact .inr ⟨piece', List.mem_cons_of_mem _ hmem, hin⟩

theorem exists_word_of_mem {c : Char} {text : List Char} (hc : c ∈ text) (hblank : c ≠ ' ') :
    ∃ word ∈ words text, c ∈ word := by
  have hsplit : [' '].intercalate (text.splitOn ' ') = text := List.intercalate_splitOn ' '
  rw [← hsplit] at hc
  obtain heq | ⟨piece, hmem, hin⟩ := exists_mem_of_mem_intercalate hc
  · exact absurd heq hblank
  · exact ⟨piece, List.mem_filter.mpr ⟨hmem, by simp [List.ne_nil_of_mem hin]⟩, hin⟩

theorem newline_notMem_of_words {text : String} {pieces : List String}
    (h : words text.toList = pieces.map String.toList) (hsolid : ∀ piece ∈ pieces, Solid piece) :
    '\n' ∉ text.toList := by
  intro hc
  obtain ⟨word, hword, hin⟩ := exists_word_of_mem hc (by decide)
  rw [h, List.mem_map] at hword
  obtain ⟨piece, hpiece, rfl⟩ := hword
  exact (hsolid piece hpiece '\n' hin).2 rfl

theorem newline_notMem_head (width : Nat) : '\n' ∉ (Line.head.text width).toList := by
  have hwords : words (Line.head.text width).toList =
      ["name", "bits", "range", "flags", "forward", "reverse"].map String.toList := by
    rw [words_lineText]
    cbv
  exact newline_notMem_of_words hwords (by simp [Solid])

theorem newline_notMem_attribute_line (width : Nat) {a : Attribute}
    (hname : isIdentifier a.name = true) :
    '\n' ∉ ((Line.ofAttribute a).text width).toList := by
  refine newline_notMem_of_words (words_attribute_line width a hname) fun piece hpiece => ?_
  have hbits := solid_toString a.bits.toNat
  simp only [attributeWords, List.mem_append, List.mem_cons, List.not_mem_nil, or_false] at hpiece
  rcases hpiece with ((((rfl | rfl) | hrange) | rfl) | hforward) | hreverse
  · exact (solid_of_isIdentifier hname).1
  · exact hbits
  · exact (solid_rangeWords a piece hrange).1
  · exact (solid_flagsOf a).1
  · exact (solid_slotWords a.forward piece hforward).1
  · exact (solid_reverseWords a piece hreverse).1

theorem newline_notMem_summary (schema : Schema) : '\n' ∉ (summary schema).toList := by
  have hcount := (solid_toString schema.attributes.length).newline_notMem
  have hbytes := (solid_toString schema.bytesPerEdge.toNat).newline_notMem
  simp only [summary, String.toList_append, List.mem_append, not_or]
  exact ⟨⟨⟨hcount, by simp⟩, hbytes⟩, by simp⟩

theorem newline_notMem_layoutLines {schema : Schema}
    (hnames : ∀ a ∈ schema.attributes, isIdentifier a.name = true) :
    ∀ line ∈ (layoutLines schema).map String.toList, '\n' ∉ line := by
  intro line hline
  simp only [layoutLines, List.mem_map, List.mem_append, List.mem_cons, List.not_mem_nil,
    or_false] at hline
  obtain ⟨text, (rfl | ⟨a, ha, rfl⟩) | rfl, rfl⟩ := hline
  · exact newline_notMem_head _
  · exact newline_notMem_attribute_line _ (hnames a ha)
  · exact newline_notMem_summary schema

theorem splitOn_layout {schema : Schema}
    (hnames : ∀ a ∈ schema.attributes, isIdentifier a.name = true) :
    (layout schema).toList.splitOn '\n' = (layoutLines schema).map String.toList := by
  rw [layout, String.toList_intercalate]
  exact List.splitOn_intercalate '\n' (newline_notMem_layoutLines hnames) (by simp [layoutLines])

theorem map_toList_injective : Function.Injective (List.map String.toList) :=
  List.map_injective_iff.mpr fun _ _ => String.toList_injective

theorem words_attribute_lines {attributes : List Attribute} (width : Nat)
    (hnames : ∀ a ∈ attributes, isIdentifier a.name = true) :
    (attributes.map fun a => (Line.ofAttribute a).text width).map (words ·.toList) =
      (attributes.map attributeWords).map (List.map String.toList) := by
  simp only [List.map_map, List.map_inj_left, Function.comp_apply]
  exact fun a ha => words_attribute_line width a (hnames a ha)

/-- Two schemas of valid names with the same layout have the same record size and the same
attributes in the same order, up to the greatest values written so far. -/
theorem layout_determines_schema {schema schema' : Schema}
    (hnames : ∀ a ∈ schema.attributes, isIdentifier a.name = true)
    (hnames' : ∀ a ∈ schema'.attributes, isIdentifier a.name = true)
    (h : layout schema = layout schema') :
    schema'.bytesPerEdge = schema.bytesPerEdge ∧
      List.Forall₂ (fun a b => b = a.withGreatest b.greatest) schema.attributes
        schema'.attributes := by
  have hlines : layoutLines schema = layoutLines schema' := by
    apply map_toList_injective
    rw [← splitOn_layout hnames, ← splitOn_layout hnames', h]
  simp only [layoutLines, List.cons_append, List.cons.injEq] at hlines
  obtain ⟨hattributes, hsummary⟩ := List.append_inj' hlines.2 (by simp)
  have hwords : schema.attributes.map attributeWords = schema'.attributes.map attributeWords := by
    apply List.map_injective_iff.mpr map_toList_injective
    rw [← words_attribute_lines _ hnames, ← words_attribute_lines _ hnames', hattributes]
  have hcount : schema.attributes.length = schema'.attributes.length := by
    simpa using congrArg List.length hwords
  constructor
  · simp only [List.cons.injEq, and_true, summary, hcount, String.append_left_inj,
      String.append_right_inj, toString_nat_inj, UInt64.toNat_inj] at hsummary
    exact hsummary.symm
  · rw [← List.forall₂_eq_eq_eq, List.forall₂_map_left_iff, List.forall₂_map_right_iff] at hwords
    exact hwords.imp fun _ _ => attributeWords_inj

/-- A write changes the schema and not its layout. -/
theorem layout_determines_schema_roads :
    let written := (Schema.roads.write "speed" .reverse 1 30 Schema.roadStore).1
    written ≠ Schema.roads ∧ layout Schema.roads = layout written ∧
      written.bytesPerEdge = Schema.roads.bytesPerEdge ∧
      List.Forall₂ (fun a b => b = a.withGreatest b.greatest) Schema.roads.attributes
        written.attributes := by
  intro written
  have hwritten : written =
      { Schema.roads with attributes := [Schema.speed.withGreatest 30, Schema.slope] } := by cbv
  have hlayout : layout Schema.roads = layout written := by
    rw [hwritten]
    rfl
  have hnames : ∀ a ∈ Schema.roads.attributes, isIdentifier a.name = true :=
    List.forall_mem_cons.mpr ⟨by cbv, List.forall_mem_cons.mpr ⟨by cbv, List.forall_mem_nil _⟩⟩
  have hnames' : ∀ a ∈ written.attributes, isIdentifier a.name = true := by
    rw [hwritten]
    exact List.forall_mem_cons.mpr ⟨by cbv, List.forall_mem_cons.mpr ⟨by cbv, List.forall_mem_nil _⟩⟩
  refine ⟨?_, hlayout, layout_determines_schema hnames hnames' hlayout⟩
  rw [hwritten]
  decide

end PackedEdges.Report
