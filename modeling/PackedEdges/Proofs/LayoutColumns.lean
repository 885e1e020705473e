import Mathlib
import PackedEdges.Proofs.LayoutText
import PackedEdges.Proofs.LowerCaseText
import PackedEdges.Proofs.SoundSettings

/-! Where the columns of a layout begin. The column of names is as wide as its longest name needs;
the others have fixed widths, and what is too long for its column moves all columns behind it. -/

namespace PackedEdges.Report

theorem length_padRight (width : Nat) (column : String) :
    (padRight width column).length = max width column.length := by
  simp only [padRight, String.length_append, String.length_ofList, List.length_replicate]
  omega

theorem length_padLeft (width : Nat) (column : String) :
    (padLeft width column).length = max width column.length := by
  simp only [padLeft, String.length_append, String.length_ofList, List.length_replicate]
  omega

theorem le_foldl_width (width : Nat) (attributes : List Attribute) :
    width ≤ attributes.foldl (fun width a => max width a.name.utf8ByteSize) width := by
  induction attributes generalizing width with
  | nil => exact Nat.le_refl _
  | cons a attributes ih => exact (Nat.le_max_left _ _).trans (ih _)

theorem utf8ByteSize_le_foldl_width {a : Attribute} {attributes : List Attribute}
    (ha : a ∈ attributes) (width : Nat) : a.name.utf8ByteSize ≤
      attributes.foldl (fun width a => max width a.name.utf8ByteSize) width := by
  induction attributes generalizing width with
  | nil => cases ha
  | cons b attributes ih =>
    rcases List.mem_cons.mp ha with rfl | hmem
    · exact (Nat.le_max_right _ _).trans (le_foldl_width _ _)
    · exact ih hmem _

theorem length_name_le {schema : Schema} {a : Attribute} (ha : a ∈ schema.attributes) :
    a.name.length ≤ nameWidth schema :=
  (Text.length_le_utf8ByteSize _).trans (utf8ByteSize_le_foldl_width ha 4)

/-- `column` stands in the line from character `start` on. -/
def StandsAt (line column : String) (start : Nat) : Prop :=
  column.toList <+: line.toList.drop start

theorem standsAt_append (front column back : String) :
    StandsAt (front ++ column ++ back) column front.length := by
  rw [StandsAt, String.append_assoc, String.toList_append, ← String.length_toList,
    List.drop_left, String.toList_append]
  exact List.prefix_append _ _

namespace Line

/-- The places at which the last three columns of a line begin. -/
structure Starts where
  flags : Nat
  forward : Nat
  reverse : Nat
deriving DecidableEq

def starts (nameWidth : Nat) (line : Line) : Starts :=
  let flags := max nameWidth line.name.length + 2 + max 4 line.bits.length + 2 +
    max 23 line.range.length + 2
  let forward := flags + max 5 line.flags.length + 2
  { flags, forward, reverse := forward + max 36 line.forward.length + 2 }

theorem standsAt_starts (nameWidth : Nat) (line : Line) :
    StandsAt (line.text nameWidth) line.flags (line.starts nameWidth).flags ∧
      StandsAt (line.text nameWidth) line.forward (line.starts nameWidth).forward ∧
      StandsAt (line.text nameWidth) line.reverse (line.starts nameWidth).reverse := by
  have hgap : "  ".length = 2 := rfl
  let front := padRight nameWidth line.name ++ "  " ++ padLeft 4 line.bits ++ "  " ++
    padLeft 23 line.range ++ "  "
  let middle := front ++ padRight 5 line.flags ++ "  "
  let last := middle ++ padRight 36 line.forward ++ "  "
  have hflags : (line.starts nameWidth).flags = front.length := by
    simp only [front, starts, String.length_append, length_padRight, length_padLeft, hgap]
  have hforward : (line.starts nameWidth).forward = middle.length := by
    simp only [middle, String.length_append, ← hflags, length_padRight, hgap]
    rfl
  have hreverse : (line.starts nameWidth).reverse = last.length := by
    simp only [last, String.length_append, ← hforward, length_padRight, hgap]
    rfl
  rw [hflags, hforward, hreverse]
  refine ⟨?_, ?_, ?_⟩
  · have htext : line.text nameWidth = front ++ line.flags ++
        (String.ofList (List.replicate (5 - line.flags.length) ' ') ++ "  " ++
          padRight 36 line.forward ++ "  " ++ line.reverse) := by
      simp only [text, front, padRight, String.append_assoc]
    exact htext ▸ standsAt_append _ _ _
  · have htext : line.text nameWidth = middle ++ line.forward ++
        (String.ofList (List.replicate (36 - line.forward.length) ' ') ++ "  " ++
          line.reverse) := by
      simp only [text, middle, front, padRight, String.append_assoc]
    exact htext ▸ standsAt_append _ _ _
  · have htext : line.text nameWidth = last ++ line.reverse ++ "" := by
      simp only [text, last, middle, front, String.append_assoc, String.append_empty]
    exact htext ▸ standsAt_append _ _ _

end Line

theorem length_toString_le {n k : Nat} (hk : 0 < k) (hn : n < 10 ^ k) :
    (toString n).length ≤ k := by
  rw [Nat.toString_eq_repr]
  exact (Nat.length_repr_le_iff hk).mpr hn

theorem length_toString_int_le {n : Int} {k : Nat} (hk : 0 < k) (hn : n.natAbs < 10 ^ k) :
    (toString n).length ≤ k + 1 := by
  rw [Int.toString_eq_repr, Int.repr_eq_if]
  split
  · exact (length_toString_le hk (by omega)).trans (Nat.le_succ k)
  · rw [String.length_append, Nat.add_comm]
    exact Nat.add_le_add_right (length_toString_le hk (by omega)) 1

theorem length_range_le (a : Attribute) : (Line.ofAttribute a).range.length ≤ 26 := by
  have hshort (n : Int32) : (toString n.toInt).length ≤ 11 := by
    have hlow := n.le_toInt
    have hhigh := n.toInt_lt
    exact length_toString_int_le (by decide) (by omega)
  have hminimum := hshort a.minimum
  have hmaximum := hshort a.maximum
  have hmarks : "[".length = 1 ∧ ", ".length = 2 ∧ "]".length = 1 := ⟨rfl, rfl, rfl⟩
  simp only [Line.ofAttribute, String.length_append, hmarks]
  omega

theorem length_flagsOf (a : Attribute) : (Line.flagsOf a).length = 3 := by
  rw [Line.flagsOf, String.length_ofList]
  rfl

theorem length_hexWord (n : UInt32) : (hexWord n).length = 8 := by
  have hdigits : (Nat.toDigits 16 n.toNat).length ≤ 8 :=
    (Nat.length_toDigits_le_iff (by decide) (by decide)).mpr n.toNat_lt
  simp only [hexWord, String.length_ofList, List.length_append, List.length_replicate]
  omega

theorem length_toString_digit {n : Nat} (hn : n < 10) : (toString n).length = 1 := by
  rw [Nat.toString_eq_ofList_toDigits, Nat.toDigits_of_lt_base hn, String.length_ofList]
  rfl

/-- The word is the only number of a slot whose length varies. -/
theorem length_slotText {slot : Slot} (hshift : slot.shift.toNat < 32) :
    (slotText slot).length = 31 + (toString slot.word.toNat).length := by
  have hindex : (toString slot.byteIndex.toNat).length = 1 := by
    apply length_toString_digit
    rw [Slot.byteIndex, UInt32.toNat_div]
    exact (Nat.div_lt_of_lt_mul hshift : slot.shift.toNat / 8 < 4).trans (by decide)
  have hbit : (toString slot.byteShift.toNat).length = 1 := by
    apply length_toString_digit
    rw [Slot.byteShift, UInt32.toNat_mod]
    exact (Nat.mod_lt slot.shift.toNat (by decide) : _ < 8).trans (by decide)
  have hdigits : (toString slot.shift.toNat).length ≤ 2 :=
    length_toString_le (by decide) (by omega)
  have hmarks : "w".length = 1 ∧ " >>".length = 3 ∧ " mask=0x".length = 8 ∧
      " byte=".length = 6 ∧ "+".length = 1 := ⟨rfl, rfl, rfl, rfl, rfl⟩
  simp only [slotText, String.length_append, length_padRight, length_hexWord, hindex, hbit, hmarks]
  omega

theorem length_slotText_le_iff {slot : Slot} (hshift : slot.shift.toNat < 32) :
    (slotText slot).length ≤ 36 ↔ slot.word.toNat < 10 ^ 5 := by
  have hdigits : (toString slot.word.toNat).length ≤ 5 ↔ slot.word.toNat < 10 ^ 5 := by
    rw [Nat.toString_eq_repr]
    exact Nat.length_repr_le_iff (by decide)
  rw [length_slotText hshift, ← hdigits]
  omega

/-- The lines of the table, the heading first. -/
def tableLines (schema : Schema) : List Line :=
  Line.head :: schema.attributes.map Line.ofAttribute

/-- All lines of the table, its heading included, have their columns at the same places. -/
def LinesUp (schema : Schema) : Prop :=
  ∀ a ∈ schema.attributes,
    (Line.ofAttribute a).starts (nameWidth schema) = Line.head.starts (nameWidth schema)

/-- How much an attribute is too long for the columns of ranges and of forward slots. -/
def excess (a : Attribute) : Nat × Nat :=
  ((Line.ofAttribute a).range.length - 23, (slotText a.forward).length - 36)

theorem isIdentifier_name {schema : Schema} (h : schema.Built) {a : Attribute}
    (ha : a ∈ schema.attributes) : isIdentifier a.name = true := by
  obtain ⟨rules, name, settings, hdef⟩ := h.defined_withoutSlots ha
  obtain ⟨haccepts, -, hattribute⟩ := Attribute.define?_eq_ok_iff.mp hdef
  have hname : a.name = name := congrArg Attribute.name hattribute
  rw [hname]
  exact ((Bool.and_eq_true _ _).mp haccepts).1

theorem splitOn_layout_tableLines {schema : Schema} (h : schema.Built) :
    (layout schema).toList.splitOn '\n' =
      ((tableLines schema).map (·.text (nameWidth schema)) ++ [summary schema]).map
        String.toList := by
  rw [splitOn_layout fun a ha => isIdentifier_name h ha, layoutLines, tableLines, List.map_cons,
    List.map_map]
  rfl

theorem starts_ofAttribute {schema : Schema} (h : schema.Built) {a : Attribute}
    (ha : a ∈ schema.attributes) :
    let head := Line.head.starts (nameWidth schema)
    (Line.ofAttribute a).starts (nameWidth schema) =
      { flags := head.flags + (excess a).1
        forward := head.forward + (excess a).1
        reverse := head.reverse + (excess a).1 + (excess a).2 } := by
  have hname : (Line.ofAttribute a).name.length ≤ nameWidth schema := length_name_le ha
  have hwidth : 4 ≤ nameWidth schema := le_foldl_width 4 schema.attributes
  have hbits : (Line.ofAttribute a).bits.length ≤ 2 :=
    length_toString_le (by decide) ((h.sound ha).bits_le.trans_lt (by decide))
  have hflags : (Line.ofAttribute a).flags.length = 3 := length_flagsOf a
  have hforward : (Line.ofAttribute a).forward = slotText a.forward := rfl
  have hhead : Line.head.name.length = 4 ∧ Line.head.bits.length = 4 ∧
      Line.head.range.length = 5 ∧ Line.head.flags.length = 5 ∧ Line.head.forward.length = 7 :=
    ⟨rfl, rfl, rfl, rfl, rfl⟩
  simp only [Line.starts, excess, hhead, hflags, hforward, Line.Starts.mk.injEq]
  omega

/-- The layout has the lines of the table and the summary. The columns of a line are where those of
the heading are, but for what its range and its forward slot are too long. So the table lines up
exactly if each range has 23 characters at most and each forward slot lies in one of the first
100000 words. -/
theorem columns_line_up_iff {schema : Schema} (h : schema.Built) :
    (layout schema).toList.splitOn '\n' =
      ((tableLines schema).map (·.text (nameWidth schema)) ++ [summary schema]).map
        String.toList ∧
    (∀ line ∈ tableLines schema,
      let text := line.text (nameWidth schema)
      let starts := line.starts (nameWidth schema)
      StandsAt text line.flags starts.flags ∧ StandsAt text line.forward starts.forward ∧
        StandsAt text line.reverse starts.reverse) ∧
    (∀ a ∈ schema.attributes,
      let head := Line.head.starts (nameWidth schema)
      (Line.ofAttribute a).starts (nameWidth schema) =
        { flags := head.flags + (excess a).1
          forward := head.forward + (excess a).1
          reverse := head.reverse + (excess a).1 + (excess a).2 } ∧
      (excess a).1 ≤ 3) ∧
    (LinesUp schema ↔ ∀ a ∈ schema.attributes,
      (Line.ofAttribute a).range.length ≤ 23 ∧ a.forward.word.toNat < 10 ^ 5) := by
  refine ⟨splitOn_layout_tableLines h, fun line _ => line.standsAt_starts _,
    fun a ha => ⟨starts_ofAttribute h ha, ?_⟩, forall₂_congr fun a ha => ?_⟩
  · have hrange := length_range_le a
    simp only [excess]
    omega
  · have hslot : a.slot? .forward = some a.forward := rfl
    have hrun := (h.placed ha).isRun_of_slot? hslot
    have hhead := starts_ofAttribute h ha
    simp only at hhead
    rw [hhead, ← length_slotText_le_iff hrun.shift_lt]
    simp only [Line.starts, excess, Line.Starts.mk.injEq]
    omega

theorem columns_line_up_roads : Schema.roads.Built ∧ LinesUp Schema.roads := by
  refine ⟨Schema.roads_built, (columns_line_up_iff Schema.roads_built).2.2.2.mpr ?_⟩
  decide

/-- Two values as far below zero as values can be, and a range of 26 characters. -/
def depth : Attribute :=
  { Attribute.ofSettings "depth" { bits := 1, minimum := -2147483647 } with
    forward := { mask := 1 } }

def trench : Schema where
  attributes := [depth]
  bytesPerEdge := 4

theorem trench_built : trench.Built := by
  refine ⟨{ attributes := [depth.withoutSlots] }, fun a ha => ?_, by cbv⟩
  obtain rfl : a = depth.withoutSlots := List.mem_singleton.mp ha
  exact ⟨{}, "depth", { bits := 1, minimum := -2147483647 }, by cbv⟩

theorem columns_askew_trench : trench.Built ∧ ¬ LinesUp trench ∧
    (Line.ofAttribute depth).range = "[-2147483647, -2147483646]" ∧
    Line.head.starts (nameWidth trench) = { flags := 38, forward := 45, reverse := 83 } ∧
    (Line.ofAttribute depth).starts (nameWidth trench) =
      { flags := 41, forward := 48, reverse := 86 } := by
  refine ⟨trench_built, ?_, by decide, by decide, by decide⟩
  rw [LinesUp]
  decide

end PackedEdges.Report
