import PackedEdges.Json.Record
import PackedEdges.Proofs.ValueTokens

/-! Codecs read back what they write, off the front of any tokens. -/

namespace PackedEdges.Json

/-- Reading takes exactly the tokens of what was written. -/
structure Codec.Lawful {α : Type} (codec : Codec α) : Prop where
  read_write (a : α) (rest : List Token) :
    codec.read ((codec.write a).tokens ++ rest) = .ok (a, rest)
  fits (a : α) : (codec.write a).Fits

namespace Value

theorem exists_tokens_eq_cons (v : Value) :
    ∃ token rest, v.tokens = token :: rest ∧ token ≠ .closeArray ∧ (token = .null → v = .null) := by
  cases v <;> simp [tokens]

end Value

namespace Codec.Lawful

open Value

variable {α β : Type} {codec : Codec α}

theorem boolean : Codec.boolean.Lawful where
  read_write b rest := rfl
  fits b := by simp [Codec.boolean, Fits, Value.tokens]

theorem string : Codec.string.Lawful where
  read_write s rest := rfl
  fits s := by simp [Codec.string, Fits, Value.tokens]

/-- Integers between two bounds are read back if the bounds let all of them pass. -/
theorem of_integer (wanted : String) (low high : Int) (ofInt : Int → α) (toInt : α → Int)
    (hread : ∀ tokens, codec.read tokens =
      (Reader.integer wanted low high tokens).map fun r => (ofInt r.1, r.2))
    (hwrite : ∀ a, codec.write a = .integer (toInt a))
    (hbounds : ∀ a, low ≤ toInt a ∧ toInt a ≤ high) (hinverse : ∀ a, ofInt (toInt a) = a)
    (hfits : FitsNumeral low ∧ FitsNumeral high) : codec.Lawful where
  read_write a rest := by
    have hinteger : Reader.integer wanted low high (.number (.ok (.integer (toInt a))) :: rest) =
        .ok (toInt a, rest) := by
      simp [Reader.integer, Reader.single, hbounds a, Except.map]
    rw [hread, hwrite, Value.tokens, List.cons_append, List.nil_append, hinteger, Except.map,
      hinverse]
  fits a := by
    obtain ⟨hle, hge⟩ := hbounds a
    rw [hwrite, fits_integer_iff]
    exact ⟨Int.le_trans hfits.1.1 hle, Int.lt_of_le_of_lt hge hfits.2.2⟩

theorem unsigned32 : Codec.unsigned32.Lawful := by
  refine of_integer "u32" 0 (UInt32.size - 1) (fun n => UInt32.ofNat n.toNat) (fun n => n.toNat)
    (fun tokens => ?_) (fun _ => rfl) (fun n => ?_) (fun n => ?_) (by decide)
  · simp only [Codec.unsigned32]
    cases Reader.integer "u32" 0 (UInt32.size - 1) tokens <;> rfl
  · have hlt := n.toNat_lt
    rw [UInt32.size]
    omega
  · simp

theorem size : Codec.size.Lawful := by
  refine of_integer "usize" 0 (UInt64.size - 1) (fun n => UInt64.ofNat n.toNat) (fun n => n.toNat)
    (fun tokens => ?_) (fun _ => rfl) (fun n => ?_) (fun n => ?_) (by decide)
  · simp only [Codec.size]
    cases Reader.integer "usize" 0 (UInt64.size - 1) tokens <;> rfl
  · have hlt := n.toNat_lt
    rw [UInt64.size]
    omega
  · simp

theorem signed32 : Codec.signed32.Lawful := by
  refine of_integer "i32" Int32.minValue.toInt Int32.maxValue.toInt Int32.ofInt Int32.toInt
    (fun tokens => ?_) (fun _ => rfl) (fun n => ⟨n.minValue_le_toInt, n.toInt_le⟩) (fun n => ?_)
    (by decide)
  · simp only [Codec.signed32]
    cases Reader.integer "i32" Int32.minValue.toInt Int32.maxValue.toInt tokens <;> rfl
  · exact Int32.ofInt_toInt n

theorem map {toTarget : α → β} {ofTarget : β → α} (h : codec.Lawful)
    (hinverse : ∀ b, toTarget (ofTarget b) = b) : (codec.map toTarget ofTarget).Lawful where
  read_write b rest := by
    simp [Codec.map, h.read_write, hinverse, bind, Except.bind, pure, Except.pure]
  fits b := h.fits (ofTarget b)

theorem optional (h : codec.Lawful) (hnull : ∀ a, codec.write a ≠ .null) :
    (Codec.optional codec).Lawful where
  read_write
    | none, rest => rfl
    | some a, rest => by
      obtain ⟨token, more, htokens, -, hne⟩ := (codec.write a).exists_tokens_eq_cons
      have hread := h.read_write a rest
      rw [htokens, List.cons_append] at hread
      have htoken : token ≠ .null := fun he => hnull a (hne he)
      simp only [Codec.optional, htokens, List.cons_append]
      rw [Reader.optional]
      · simp only [hread, bind, Except.bind, pure, Except.pure]
      · intro tokens he
        exact htoken (List.cons.inj he).1
  fits
    | none => by simp [Codec.optional, Fits, Value.tokens]
    | some a => h.fits a

theorem run_text (h : codec.Lawful) {layout : Layout} (hl : layout.IsBlank) (a : α) :
    Reader.run codec.read (symbolsOfText ((codec.write a).text layout)) = .ok a := by
  have hread := h.read_write a []
  rw [List.append_nil] at hread
  rw [Reader.run, (spelled_text hl (h.fits a)).tokens_text, hread]

end Codec.Lawful

end PackedEdges.Json
