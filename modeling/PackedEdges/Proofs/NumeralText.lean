import PackedEdges.Json.Token

/-! The text of a numeral, with a fraction and an exponent or without them, is read back as this
numeral if what follows cannot be a part of it. -/

namespace PackedEdges.Json

/-- No numeral goes on with these symbols. -/
def EndsNumeral (rest : List Symbol) : Prop :=
  ∀ s ∈ rest.head?, s.digit? = none ∧ s ≠ .char '.' ∧ s ≠ .char 'e' ∧ s ≠ .char 'E'

/-- One digit or more. -/
def AllDigits (cs : List Char) : Prop :=
  cs ≠ [] ∧ ∀ c ∈ cs, c.isDigit = true

theorem AllDigits.exists_eq_cons {cs : List Char} (h : AllDigits cs) :
    ∃ c cs', cs = c :: cs' ∧ c.isDigit = true := by
  obtain ⟨hne, hdigit⟩ := h
  obtain ⟨c, cs', rfl⟩ := List.exists_cons_of_ne_nil hne
  exact ⟨c, cs', rfl, hdigit c List.mem_cons_self⟩

theorem ne_of_isDigit {c d : Char} (hc : c.isDigit = true) (hd : d.isDigit = false) : c ≠ d := by
  rintro rfl
  rw [hc] at hd
  cases hd

structure ExponentText where
  mark : Char
  sign : List Char
  digits : List Char
  mark_eq : mark = 'e' ∨ mark = 'E'
  sign_eq : sign = [] ∨ sign = ['+'] ∨ sign = ['-']
  allDigits : AllDigits digits

structure NumeralText where
  negative : Bool
  whole : List Char
  /-- The digits after the point; none without a point. -/
  fraction : List Char
  exponent : Option ExponentText
  whole_allDigits : AllDigits whole
  /-- Only zero itself begins with the digit zero. -/
  whole_eq_zero : whole.head? = some '0' → whole = ['0']
  fraction_allDigits : fraction ≠ [] → AllDigits fraction

def digitValues (cs : List Char) : List Nat :=
  cs.map fun c => c.toNat - 48

namespace ExponentText

def chars (e : ExponentText) : List Char :=
  e.mark :: (e.sign ++ e.digits)

def value (e : ExponentText) : Bool × List Nat :=
  (decide (e.sign = ['-']), digitValues e.digits)

end ExponentText

namespace NumeralText

def minus (n : NumeralText) : List Char :=
  if n.negative then ['-'] else []

def fractionChars (n : NumeralText) : List Char :=
  if n.fraction = [] then [] else '.' :: n.fraction

def exponentChars (n : NumeralText) : List Char :=
  match n.exponent with
  | none => []
  | some e => e.chars

def chars (n : NumeralText) : List Char :=
  n.minus ++ (n.whole ++ (n.fractionChars ++ n.exponentChars))

def numeral (n : NumeralText) : Numeral where
  negative := n.negative
  whole := digitValues n.whole
  fraction := digitValues n.fraction
  exponent := n.exponent.map ExponentText.value

end NumeralText

/-- No digit comes first. -/
def EndsDigits (rest : List Symbol) : Prop :=
  ∀ s ∈ rest.head?, s.digit? = none

theorem EndsNumeral.endsDigits {rest : List Symbol} (h : EndsNumeral rest) : EndsDigits rest :=
  fun s hs => (h s hs).1

theorem spanDigits_append {cs : List Char} (hcs : ∀ c ∈ cs, c.isDigit = true)
    {rest : List Symbol} (h : EndsDigits rest) :
    spanDigits (cs.map .char ++ rest) = (digitValues cs, rest) := by
  induction cs with
  | nil =>
    cases rest with
    | nil => rfl
    | cons s rest =>
      have hs : s.digit? = none := h s rfl
      simp [spanDigits, hs, digitValues]
  | cons c cs ih =>
    have hc : c.isDigit = true := hcs c List.mem_cons_self
    have hspan := ih fun d hd => hcs d (List.mem_cons_of_mem _ hd)
    simp [spanDigits, Symbol.digit?, hc, hspan, digitValues]

theorem scanDigits_append {cs : List Char} (hcs : AllDigits cs) {rest : List Symbol}
    (h : EndsDigits rest) : scanDigits (cs.map .char ++ rest) = .ok (digitValues cs, rest) := by
  obtain ⟨c, cs', hcons, -⟩ := hcs.exists_eq_cons
  rw [scanDigits, spanDigits_append hcs.2 h, hcons]
  rfl

theorem scanSign_append {sign cs : List Char} (hsign : sign = [] ∨ sign = ['+'] ∨ sign = ['-'])
    (hcs : AllDigits cs) (rest : List Symbol) :
    scanSign ((sign ++ cs).map .char ++ rest) =
      (decide (sign = ['-']), cs.map .char ++ rest) := by
  obtain ⟨c, cs', rfl, hc⟩ := hcs.exists_eq_cons
  have hplus := ne_of_isDigit (d := '+') hc rfl
  have hminus := ne_of_isDigit (d := '-') hc rfl
  rcases hsign with rfl | rfl | rfl <;> simp [scanSign, hplus, hminus]

namespace NumeralText

variable (n : NumeralText) {rest : List Symbol}

theorem scanMinus_chars (rest : List Symbol) :
    scanMinus (n.chars.map .char ++ rest) =
      (n.negative, (n.whole ++ (n.fractionChars ++ n.exponentChars)).map .char ++ rest) := by
  cases hnegative : n.negative with
  | true => simp [chars, minus, hnegative, scanMinus]
  | false =>
    obtain ⟨c, cs, hwhole, hc⟩ := n.whole_allDigits.exists_eq_cons
    have hminus := ne_of_isDigit (d := '-') hc rfl
    simp [chars, minus, hnegative, hwhole, scanMinus, hminus]

theorem endsDigits_exponentChars (h : EndsNumeral rest) :
    EndsDigits (n.exponentChars.map .char ++ rest) := by
  unfold exponentChars
  cases n.exponent with
  | none => exact h.endsDigits
  | some e =>
    intro s hs
    obtain rfl : Symbol.char e.mark = s := by simpa [ExponentText.chars] using hs
    rcases e.mark_eq with hmark | hmark <;> rw [hmark] <;> rfl

theorem endsDigits_fractionChars (h : EndsNumeral rest) :
    EndsDigits (n.fractionChars.map .char ++ (n.exponentChars.map .char ++ rest)) := by
  unfold fractionChars
  split
  · exact n.endsDigits_exponentChars h
  · intro s hs
    obtain rfl : Symbol.char '.' = s := by simpa using hs
    rfl

theorem digitValues_whole_ne (d : Nat) (ds : List Nat) : digitValues n.whole ≠ 0 :: d :: ds := by
  intro h
  obtain ⟨c, cs, hwhole, hc⟩ := n.whole_allDigits.exists_eq_cons
  rw [hwhole, digitValues, List.map_cons] at h
  obtain ⟨hzero, hmore⟩ := List.cons.inj h
  have hlow : 48 ≤ c.toNat := (Char.isDigit_iff_toNat.mp hc).1
  have hc : c = '0' := Char.toNat_inj.mp (show c.toNat = 48 by omega)
  have hone := n.whole_eq_zero (by rw [hwhole, hc]; rfl)
  rw [hwhole] at hone
  rw [(List.cons.inj hone).2] at hmore
  cases hmore

theorem scanWhole_chars (h : EndsDigits rest) :
    scanWhole (n.whole.map .char ++ rest) = .ok (digitValues n.whole, rest) := by
  rw [scanWhole, scanDigits_append n.whole_allDigits h]
  split
  · next heq =>
    obtain ⟨hzero, -⟩ := Prod.mk.inj (Except.ok.inj heq)
    exact absurd hzero (n.digitValues_whole_ne _ _)
  · rfl

theorem scanFraction_chars (h : EndsNumeral rest) :
    scanFraction (n.fractionChars.map .char ++ (n.exponentChars.map .char ++ rest)) =
      .ok (digitValues n.fraction, n.exponentChars.map .char ++ rest) := by
  by_cases hnone : n.fraction = []
  · have hpoint : ∀ s ∈ (n.exponentChars.map Symbol.char ++ rest).head?, s ≠ .char '.' := by
      unfold exponentChars
      cases n.exponent with
      | none => exact fun s hs => (h s hs).2.1
      | some e =>
        intro s hs
        obtain rfl : Symbol.char e.mark = s := by simpa [ExponentText.chars] using hs
        rcases e.mark_eq with hmark | hmark <;> rw [hmark] <;> decide
    rw [fractionChars, if_pos hnone, hnone, List.map_nil, List.nil_append, scanFraction]
    · rfl
    · intro rest' heq
      exact hpoint (.char '.') (by rw [heq]; rfl) rfl
  · rw [fractionChars, if_neg hnone, List.map_cons, List.cons_append, scanFraction]
    exact scanDigits_append (n.fraction_allDigits hnone) (n.endsDigits_exponentChars h)

theorem scanExponent_chars (h : EndsNumeral rest) :
    scanExponent (n.exponentChars.map .char ++ rest) =
      .ok (n.exponent.map ExponentText.value, rest) := by
  unfold exponentChars
  cases n.exponent with
  | none =>
    cases rest with
    | nil => rfl
    | cons s rest =>
      obtain ⟨-, -, hlower, hupper⟩ := h s rfl
      simp [scanExponent, hlower, hupper]
  | some e =>
    have hmark : Symbol.char e.mark = .char 'e' ∨ Symbol.char e.mark = .char 'E' := by
      simpa using e.mark_eq
    simp only [ExponentText.chars, List.map_cons, List.cons_append, scanExponent, if_pos hmark,
      scanSign_append e.sign_eq e.allDigits, scanDigits_append e.allDigits h.endsDigits]
    rfl

theorem scanNumeral_chars (h : EndsNumeral rest) :
    scanNumeral (n.chars.map .char ++ rest) = .ok (n.numeral, rest) := by
  have hwhole := n.scanWhole_chars (n.endsDigits_fractionChars h)
  simp only [scanNumeral, scanMinus_chars, List.map_append, List.append_assoc, hwhole,
    n.scanFraction_chars h, n.scanExponent_chars h, bind, Except.bind, pure, Except.pure, numeral]

end NumeralText

def BeginsNumeral (c : Char) : Prop :=
  c = '-' ∨ c.isDigit = true

instance (c : Char) : Decidable (BeginsNumeral c) :=
  inferInstanceAs (Decidable (_ ∨ _))

theorem isBlank_of_beginsNumeral {c : Char} (h : BeginsNumeral c) :
    (Symbol.char c).isBlank = false := by
  have hne : ∀ d : Char, ¬ BeginsNumeral d → c ≠ d := fun d hd he => hd (he ▸ h)
  have hspace : c ≠ ' ' := hne ' ' (by decide)
  have hline : c ≠ '\n' := hne '\n' (by decide)
  have htab : c ≠ '\t' := hne '\t' (by decide)
  have hreturn : c ≠ '\r' := hne '\r' (by decide)
  simp [Symbol.isBlank, hspace, hline, htab, hreturn]

theorem ofSymbols_of_beginsNumeral {c : Char} (h : BeginsNumeral c) (rest : List Symbol) :
    Token.ofSymbols (.char c) rest = Token.ofNumeral (.char c :: rest) := by
  have hstart : Symbol.char c = .char '-' ∨ (Symbol.char c).digit?.isSome = true := by
    rcases h with rfl | hdigit
    · exact .inl rfl
    · exact .inr (by simp [Symbol.digit?, hdigit])
  have hne : ∀ d : Char, ¬ BeginsNumeral d → Symbol.char c ≠ .char d := by
    rintro d hd he
    exact hd (Symbol.char.inj he ▸ h)
  unfold Token.ofSymbols
  split
  case h_11 => rw [if_pos hstart]
  all_goals
    next he => exact absurd he (hne _ (by decide))

theorem NumeralText.exists_chars_eq_cons (n : NumeralText) :
    ∃ c cs, n.chars = c :: cs ∧ BeginsNumeral c := by
  obtain ⟨c, cs, hwhole, hc⟩ := n.whole_allDigits.exists_eq_cons
  cases hnegative : n.negative with
  | true => exact ⟨'-', _, by rw [chars, minus, hnegative]; rfl, .inl rfl⟩
  | false => exact ⟨c, _, by rw [chars, minus, hnegative, hwhole]; rfl, .inr hc⟩

theorem NumeralText.tokens_chars (n : NumeralText) {rest : List Symbol} (h : EndsNumeral rest) :
    tokens (n.chars.map .char ++ rest) = .number n.numeral.value :: tokens rest := by
  have hscan := n.scanNumeral_chars h
  obtain ⟨c, cs, hchars, hc⟩ := n.exists_chars_eq_cons
  rw [hchars, List.map_cons, List.cons_append] at hscan
  rw [hchars, List.map_cons, List.cons_append, tokens, isBlank_of_beginsNumeral hc]
  simp only [Bool.false_eq_true, if_false, ofSymbols_of_beginsNumeral hc, Token.ofNumeral, hscan]

end PackedEdges.Json
