import PackedEdges.Proofs.TokenSpelling

/-! The tokens of a value do not depend on its layout, as long as the layout puts only blanks
between them. -/

namespace PackedEdges.Json

namespace Value

def separator (first : Bool) : List Token :=
  if first then [] else [.comma]

mutual

def tokens : Value → List Token
  | null => [.null]
  | boolean b => [.boolean b]
  | integer n => [.number (.ok (.integer n))]
  | string s => [.string (.ok s) (.ok ())]
  | array vs => .openArray :: elementTokens true vs
  | object es => .openObject :: entryTokens true es

/-- The tokens of the elements that are left, with the closing bracket. -/
def elementTokens (first : Bool) : List Value → List Token
  | [] => [.closeArray]
  | v :: vs => separator first ++ (v.tokens ++ elementTokens false vs)

def entryTokens (first : Bool) : List (String × Value) → List Token
  | [] => [.closeObject]
  | (k, v) :: es =>
    separator first ++ .string (.ok k) (.ok ()) :: .colon :: (v.tokens ++ entryTokens false es)

end

/-- All integers in the value fit into 64 bits. -/
def Fits (v : Value) : Prop :=
  ∀ n, .number (.ok (.integer n)) ∈ v.tokens → FitsNumeral n

end Value

def Blank (cs : List Char) : Prop :=
  ∀ c ∈ cs, (Symbol.char c).isBlank = true

theorem Spelled.blanks {gap : List Char} (hgap : Blank gap) {ts : List Token} {cs : List Char}
    (h : Spelled ts cs) : Spelled ts (gap ++ cs) := by
  induction gap with
  | nil => exact h
  | cons c gap ih =>
    have hc : c ∈ [' ', '\n', '\t', '\r'] := by
      simpa [Symbol.isBlank, or_assoc] using hgap c List.mem_cons_self
    exact .blank hc (ih fun d hd => hgap d (List.mem_cons_of_mem _ hd))

theorem EndsNumeral.blank_append {gap : List Char} (h : Blank gap) {rest : List Symbol}
    (hrest : EndsNumeral rest) : EndsNumeral (gap.map .char ++ rest) := by
  cases gap with
  | nil => exact hrest
  | cons c gap =>
    intro s hs
    obtain rfl : Symbol.char c = s := by simpa using hs
    have hc := h c List.mem_cons_self
    simp only [Symbol.isBlank, Bool.or_eq_true, decide_eq_true_eq] at hc
    rcases hc with ((rfl | rfl) | rfl) | rfl <;> decide

theorem endsNumeral_cons {c : Char}
    (h : (Symbol.char c).digit? = none ∧ c ≠ '.' ∧ c ≠ 'e' ∧ c ≠ 'E') (rest : List Symbol) :
    EndsNumeral (.char c :: rest) := by
  intro s hs
  obtain rfl : Symbol.char c = s := by simpa using hs
  simpa using h

structure Layout.IsBlank (layout : Layout) : Prop where
  newLine (depth : Nat) : Blank (layout.newLine depth)
  afterColon : Blank layout.afterColon

theorem Layout.isBlank_compact : compact.IsBlank :=
  ⟨fun _ _ hc => absurd hc List.not_mem_nil, fun _ hc => absurd hc List.not_mem_nil⟩

theorem Layout.isBlank_pretty : pretty.IsBlank := by
  constructor
  · intro depth c hc
    rcases List.mem_cons.mp hc with rfl | hspace
    · rfl
    · rw [List.eq_of_mem_replicate hspace]
      rfl
  · intro c hc
    obtain rfl := List.mem_singleton.mp hc
    rfl

namespace Value

theorem number_mem_elementTokens {x : Except Fault Number} {first : Bool} {vs : List Value} :
    .number x ∈ elementTokens first vs ↔ ∃ v ∈ vs, .number x ∈ v.tokens := by
  induction vs generalizing first with
  | nil => simp [elementTokens]
  | cons v vs ih =>
    have hseparator : .number x ∉ separator first := by cases first <;> simp [separator]
    simp [elementTokens, hseparator, ih]

theorem number_mem_entryTokens {x : Except Fault Number} {first : Bool}
    {es : List (String × Value)} :
    .number x ∈ entryTokens first es ↔ ∃ e ∈ es, .number x ∈ e.2.tokens := by
  induction es generalizing first with
  | nil => simp [entryTokens]
  | cons e es ih =>
    have hseparator : .number x ∉ separator first := by cases first <;> simp [separator]
    simp [entryTokens, hseparator, ih]

theorem fits_array_iff {vs : List Value} : (array vs).Fits ↔ ∀ v ∈ vs, v.Fits := by
  simp only [Fits, tokens, List.mem_cons, reduceCtorEq, false_or, number_mem_elementTokens]
  exact ⟨fun h v hv n hn => h n ⟨v, hv, hn⟩, fun h n ⟨v, hv, hn⟩ => h v hv n hn⟩

theorem fits_object_iff {es : List (String × Value)} :
    (object es).Fits ↔ ∀ e ∈ es, e.2.Fits := by
  simp only [Fits, tokens, List.mem_cons, reduceCtorEq, false_or, number_mem_entryTokens]
  exact ⟨fun h e he n hn => h n ⟨e, he, hn⟩, fun h n ⟨e, he, hn⟩ => h e he n hn⟩

theorem fits_integer_iff {n : Int} : (integer n).Fits ↔ FitsNumeral n := by
  simp [Fits, tokens]

variable {layout : Layout}

theorem endsNumeral_elementChars (layout : Layout) (vs : List Value) (depth : Nat) {gap : List Char}
    (hgap : Blank gap) (cs : List Char) :
    EndsNumeral ((elementChars layout depth vs ++ (gap ++ ']' :: cs)).map .char) := by
  cases vs with
  | nil =>
    rw [elementChars, List.nil_append, List.map_append]
    exact EndsNumeral.blank_append hgap (endsNumeral_cons (by decide) _)
  | cons v vs =>
    rw [elementChars, List.cons_append, List.map_cons]
    exact endsNumeral_cons (by decide) _

theorem endsNumeral_entryChars (layout : Layout) (es : List (String × Value)) (depth : Nat)
    {gap : List Char} (hgap : Blank gap) (cs : List Char) :
    EndsNumeral ((entryChars layout depth es ++ (gap ++ '\x7d' :: cs)).map .char) := by
  cases es with
  | nil =>
    rw [entryChars, List.nil_append, List.map_append]
    exact EndsNumeral.blank_append hgap (endsNumeral_cons (by decide) _)
  | cons e es =>
    rw [entryChars, List.cons_append, List.map_cons]
    exact endsNumeral_cons (by decide) _

mutual

theorem spelled_chars (hl : layout.IsBlank) : ∀ (v : Value) (depth : Nat) {ts : List Token}
    {cs : List Char}, v.Fits → EndsNumeral (cs.map .char) → Spelled ts cs →
      Spelled (v.tokens ++ ts) (v.chars layout depth ++ cs)
  | null, depth, ts, cs, _, _, h => .word rfl h
  | boolean true, depth, ts, cs, _, _, h => .word rfl h
  | boolean false, depth, ts, cs, _, _, h => .word rfl h
  | integer n, depth, ts, cs, hv, hend, h => .integerText (fits_integer_iff.mp hv) hend h
  | string s, depth, ts, cs, _, _, h => .stringText s h
  | array [], depth, ts, cs, _, _, h => .mark rfl (.mark rfl h)
  | array (v :: vs), depth, ts, cs, hv, _, h => by
    have hall := fits_array_iff.mp hv
    have hends := endsNumeral_elementChars layout vs (depth + 1) (hl.newLine depth) cs
    have hmore := spelled_elementChars hl vs (depth + 1)
      (fun w hw => hall w (List.mem_cons_of_mem _ hw)) (hl.newLine depth) h
    have hfirst := spelled_chars hl v (depth + 1) (hall v List.mem_cons_self) hends hmore
    have hopen := Spelled.mark (c := '[') rfl (hfirst.blanks (hl.newLine (depth + 1)))
    simpa [chars, tokens, elementTokens, separator] using hopen
  | object [], depth, ts, cs, _, _, h => .mark rfl (.mark rfl h)
  | object ((k, v) :: es), depth, ts, cs, hv, _, h => by
    have hall := fits_object_iff.mp hv
    have hends := endsNumeral_entryChars layout es (depth + 1) (hl.newLine depth) cs
    have hmore := spelled_entryChars hl es (depth + 1)
      (fun e he => hall e (List.mem_cons_of_mem _ he)) (hl.newLine depth) h
    have hfirst := spelled_chars hl v (depth + 1) (hall (k, v) List.mem_cons_self) hends hmore
    have hcolon := Spelled.mark (c := ':') rfl (hfirst.blanks hl.afterColon)
    have hkey := (Spelled.stringText k hcolon).blanks (hl.newLine (depth + 1))
    have hopen := Spelled.mark (c := '\x7b') rfl hkey
    simpa [chars, tokens, entryTokens, separator] using hopen

theorem spelled_elementChars (hl : layout.IsBlank) : ∀ (vs : List Value) (depth : Nat),
    (∀ v ∈ vs, v.Fits) → ∀ {gap : List Char}, Blank gap → ∀ {ts : List Token} {cs : List Char},
      Spelled ts cs →
        Spelled (elementTokens false vs ++ ts) (elementChars layout depth vs ++ (gap ++ ']' :: cs))
  | [], depth, _, gap, hgap, ts, cs, h => (Spelled.mark rfl h).blanks hgap
  | v :: vs, depth, hvs, gap, hgap, ts, cs, h => by
    have hends := endsNumeral_elementChars layout vs depth hgap cs
    have hmore := spelled_elementChars hl vs depth
      (fun w hw => hvs w (List.mem_cons_of_mem _ hw)) hgap h
    have hfirst := spelled_chars hl v depth (hvs v List.mem_cons_self) hends hmore
    have hcomma := Spelled.mark (c := ',') rfl (hfirst.blanks (hl.newLine depth))
    simpa [elementChars, elementTokens, separator] using hcomma

theorem spelled_entryChars (hl : layout.IsBlank) : ∀ (es : List (String × Value)) (depth : Nat),
    (∀ e ∈ es, e.2.Fits) → ∀ {gap : List Char}, Blank gap → ∀ {ts : List Token} {cs : List Char},
      Spelled ts cs →
        Spelled (entryTokens false es ++ ts) (entryChars layout depth es ++ (gap ++ '\x7d' :: cs))
  | [], depth, _, gap, hgap, ts, cs, h => (Spelled.mark rfl h).blanks hgap
  | (k, v) :: es, depth, hes, gap, hgap, ts, cs, h => by
    have hends := endsNumeral_entryChars layout es depth hgap cs
    have hmore := spelled_entryChars hl es depth
      (fun e he => hes e (List.mem_cons_of_mem _ he)) hgap h
    have hfirst := spelled_chars hl v depth (hes (k, v) List.mem_cons_self) hends hmore
    have hcolon := Spelled.mark (c := ':') rfl (hfirst.blanks hl.afterColon)
    have hkey := (Spelled.stringText k hcolon).blanks (hl.newLine depth)
    have hcomma := Spelled.mark (c := ',') rfl hkey
    simpa [entryChars, entryTokens, separator] using hcomma

end

theorem spelled_text (hl : layout.IsBlank) {v : Value} (hv : v.Fits) :
    Spelled v.tokens (v.text layout).toList := by
  have hend : EndsNumeral (([] : List Char).map .char) := fun s hs => nomatch hs
  have hspelled := spelled_chars hl v 0 hv hend .nil
  rw [List.append_nil, List.append_nil] at hspelled
  rwa [text, String.toList_ofList]

end Value

end PackedEdges.Json
