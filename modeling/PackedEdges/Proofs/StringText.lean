import Mathlib.Tactic.SplitIfs
import PackedEdges.Json.Token
import PackedEdges.Json.Value

/-! The ways to spell a string. All of them are read back as the string, the written one among them,
and whatever follows the closing quote is left to the next reader. -/

namespace PackedEdges.Json

namespace StringBody

/-- Four hexadecimal digits of either case. -/
def SpellsUnit (unit : Nat) (digits : List Char) : Prop :=
  ∃ w x y z, digits = [w, x, y, z] ∧
    codeUnit? (.char w) (.char x) (.char y) (.char z) = some unit

/-- Bodies that can be skipped: surrogates may be without their other half. -/
inductive Skips : List Char → Prop
  | nil : Skips []
  | plain {c : Char} {body : List Char} (hquote : c ≠ '"') (hslash : c ≠ '\\')
      (hcontrol : ¬ c.toNat < 32) (h : Skips body) : Skips (c :: body)
  | escape {e c : Char} {body : List Char} (he : simpleEscape? (.char e) = some c)
      (h : Skips body) : Skips ('\\' :: e :: body)
  | unit {unit : Nat} {digits body : List Char} (hunit : SpellsUnit unit digits)
      (h : Skips body) : Skips ('\\' :: 'u' :: (digits ++ body))

/-- Bodies with the content that they stand for. -/
inductive Spells : List Char → List Char → Prop
  | nil : Spells [] []
  | plain {c : Char} {content body : List Char} (hquote : c ≠ '"') (hslash : c ≠ '\\')
      (hcontrol : ¬ c.toNat < 32) (h : Spells content body) : Spells (c :: content) (c :: body)
  | escape {e c : Char} {content body : List Char} (he : simpleEscape? (.char e) = some c)
      (h : Spells content body) : Spells (c :: content) ('\\' :: e :: body)
  | unit {unit : Nat} {digits content body : List Char} (hunit : SpellsUnit unit digits)
      (hhigh : isHighSurrogate unit = false) (hlow : isLowSurrogate unit = false)
      (h : Spells content body) :
      Spells (Char.ofNat unit :: content) ('\\' :: 'u' :: (digits ++ body))
  | pair {high low : Nat} {digits digits' content body : List Char}
      (hunit : SpellsUnit high digits) (hunit' : SpellsUnit low digits')
      (hhigh : isHighSurrogate high = true) (hlow : isLowSurrogate low = true)
      (h : Spells content body) :
      Spells (joinSurrogates high low :: content)
        ('\\' :: 'u' :: (digits ++ '\\' :: 'u' :: (digits' ++ body)))

theorem Spells.skips {content body : List Char} (h : Spells content body) : Skips body := by
  induction h with
  | nil => exact .nil
  | plain hquote hslash hcontrol _ ih => exact .plain hquote hslash hcontrol ih
  | escape he _ ih => exact .escape he ih
  | unit hunit _ _ _ ih => exact .unit hunit ih
  | pair hunit hunit' _ _ _ ih => exact .unit hunit (.unit hunit' ih)

theorem ne_u_of_simpleEscape {e c : Char} (he : simpleEscape? (.char e) = some c) : e ≠ 'u' := by
  rintro rfl
  simp [simpleEscape?] at he

theorem Skips.skip_eq {body : List Char} (h : Skips body) (rest : List Symbol) :
    skip (body.map .char ++ .char '"' :: rest) = .ok rest := by
  induction h with
  | nil => simp [skip]
  | plain hquote hslash hcontrol _ ih => simp [skip, hquote, hslash, Symbol.isControl, hcontrol, ih]
  | escape he _ ih => simp [skip, ne_u_of_simpleEscape he, he, ih]
  | unit hunit _ ih =>
    obtain ⟨w, x, y, z, rfl, hcode⟩ := hunit
    simp [skip, hcode, ih]

/-- What follows the closing quote is handed on. -/
theorem Skips.readSymbols_eq {body : List Char} (h : Skips body) (high : Option Nat)
    (rest : List Symbol) :
    readSymbols high (body.map .char ++ .char '"' :: rest) =
      (readSymbols high (body.map .char ++ [.char '"'])).map fun r => (r.1, rest) := by
  have hpush (s : Symbol) (result : Except Fault (List Symbol × List Symbol)) :
      push s (result.map fun r => (r.1, rest)) = (push s result).map fun r => (r.1, rest) := by
    cases result <;> rfl
  have hfault (fault : Fault) : (Except.error fault : Except Fault (List Symbol × List Symbol)).map
      (fun r => (r.1, rest)) = .error fault := rfl
  induction h generalizing high with
  | nil => cases high <;> simp [readSymbols, Except.map]
  | plain hquote hslash hcontrol _ ih =>
    cases high with
    | none => simp [readSymbols, hquote, hslash, Symbol.isControl, hcontrol, ih, hpush]
    | some => simp [readSymbols, hslash, hfault]
  | escape he _ ih =>
    cases high with
    | none => simp [readSymbols, ne_u_of_simpleEscape he, he, ih, hpush]
    | some => simp [readSymbols, ne_u_of_simpleEscape he, hfault]
  | @unit unit _ _ hunit _ ih =>
    obtain ⟨w, x, y, z, rfl, hcode⟩ := hunit
    cases high <;> cases hhigh : isHighSurrogate unit <;> cases hlow : isLowSurrogate unit <;>
      simp [readSymbols, hcode, hhigh, hlow, ih, hpush, hfault]

theorem Spells.readSymbols_eq {content body : List Char} (h : Spells content body)
    (rest : List Symbol) :
    readSymbols none (body.map .char ++ .char '"' :: rest) = .ok (content.map .char, rest) := by
  induction h with
  | nil => simp [readSymbols]
  | plain hquote hslash hcontrol _ ih =>
    simp [readSymbols, hquote, hslash, Symbol.isControl, hcontrol, ih, push, Except.map]
  | escape he _ ih => simp [readSymbols, ne_u_of_simpleEscape he, he, ih, push, Except.map]
  | unit hunit hhigh hlow _ ih =>
    obtain ⟨w, x, y, z, rfl, hcode⟩ := hunit
    simp [readSymbols, hcode, hhigh, hlow, ih, push, Except.map]
  | pair hunit hunit' hhigh hlow _ ih =>
    obtain ⟨w, x, y, z, rfl, hcode⟩ := hunit
    obtain ⟨w', x', y', z', rfl, hcode'⟩ := hunit'
    simp [readSymbols, hcode, hcode', hhigh, hlow, ih, push, Except.map]

theorem mapM_char? (cs : List Char) : (cs.map Symbol.char).mapM Symbol.char? = some cs := by
  induction cs with
  | nil => rfl
  | cons c cs ih => simp [ih, Symbol.char?]

/-- What a body is when read. -/
def contentOf (body : List Char) : Except Fault String :=
  (read (body.map .char ++ [.char '"'])).map (·.1)

theorem Skips.read_eq {body : List Char} (h : Skips body) (rest : List Symbol) :
    (read (body.map .char ++ .char '"' :: rest)).map (·.1) = contentOf body := by
  rw [contentOf, read, read, h.readSymbols_eq none rest]
  cases readSymbols none (body.map .char ++ [.char '"']) with
  | error => rfl
  | ok r =>
    simp only [bind, Except.bind, Except.map]
    cases r.1.mapM Symbol.char? <;> rfl

theorem Spells.contentOf_eq {content body : List Char} (h : Spells content body) :
    contentOf body = .ok (String.ofList content) := by
  simp only [contentOf, read, h.readSymbols_eq, mapM_char?, bind, Except.bind, pure, Except.pure,
    Except.map]

theorem hexDigit?_digitChar {d : Nat} (h : d < 16) :
    (Symbol.char d.digitChar).hexDigit? = some d := by
  revert d
  decide

theorem codeUnit?_of_control {n : Nat} (h : n < 32) :
    codeUnit? (.char '0') (.char '0') (.char (n / 16).digitChar) (.char (n % 16).digitChar) =
      some n := by
  have hzero : (Symbol.char '0').hexDigit? = some 0 := rfl
  rw [codeUnit?, hzero, hexDigit?_digitChar (by omega), hexDigit?_digitChar (by omega)]
  simp only [Option.bind_eq_bind, Option.bind_some, Option.pure_def, Option.some.injEq]
  omega

/-- How a character is written: behind a backslash, as a code unit or as it is. -/
theorem escapedChar_cases (c : Char) :
    (∃ e, escapedChar c = ['\\', e] ∧ e ≠ 'u' ∧ simpleEscape? (.char e) = some c) ∨
      (c.toNat < 32 ∧ escapedChar c =
        ['\\', 'u', '0', '0', (c.toNat / 16).digitChar, (c.toNat % 16).digitChar]) ∨
      (escapedChar c = [c] ∧ c ≠ '"' ∧ c ≠ '\\' ∧ ¬ c.toNat < 32) := by
  unfold escapedChar
  split_ifs with hquote hslash hback hfeed hline hreturn htab hcontrol
  · exact .inl ⟨'"', rfl, by decide, by rw [hquote]; rfl⟩
  · exact .inl ⟨'\\', rfl, by decide, by rw [hslash]; rfl⟩
  · exact .inl ⟨'b', rfl, by decide, by rw [hback]; rfl⟩
  · exact .inl ⟨'f', rfl, by decide, by rw [hfeed]; rfl⟩
  · exact .inl ⟨'n', rfl, by decide, by rw [hline]; rfl⟩
  · exact .inl ⟨'r', rfl, by decide, by rw [hreturn]; rfl⟩
  · exact .inl ⟨'t', rfl, by decide, by rw [htab]; rfl⟩
  · exact .inr (.inl ⟨hcontrol, rfl⟩)
  · exact .inr (.inr ⟨rfl, hquote, hslash, hcontrol⟩)

theorem spells_escapedChars (content : List Char) :
    Spells content (content.flatMap escapedChar) := by
  induction content with
  | nil => exact .nil
  | cons c content ih =>
    rw [List.flatMap_cons]
    rcases escapedChar_cases c with ⟨e, he, -, hsimple⟩ | ⟨hcontrol, he⟩ | ⟨he, hquote, hslash, hc⟩
    · rw [he]
      exact .escape hsimple ih
    · have hhigh : isHighSurrogate c.toNat = false := by
        simp [isHighSurrogate]
        omega
      have hlow : isLowSurrogate c.toNat = false := by
        simp [isLowSurrogate]
        omega
      have hunit := Spells.unit ⟨_, _, _, _, rfl, codeUnit?_of_control hcontrol⟩ hhigh hlow ih
      rw [Char.ofNat_toNat] at hunit
      rw [he]
      exact hunit
    · rw [he]
      exact .plain hquote hslash hc ih

end StringBody

/-- A string that cannot be read may still be skipped. -/
theorem tokens_skippable {body : List Char} (h : StringBody.Skips body) (rest : List Symbol) :
    tokens (.char '"' :: (body.map .char ++ .char '"' :: rest)) =
      .string (StringBody.contentOf body) (.ok ()) :: tokens rest := by
  have htoken : Token.ofString (body.map .char ++ .char '"' :: rest) =
      (.string (StringBody.contentOf body) (.ok ()), rest) := by
    simp only [Token.ofString, h.read_eq, h.skip_eq]
  have hblank : (Symbol.char '"').isBlank = false := rfl
  rw [tokens, hblank]
  simp only [Bool.false_eq_true, if_false, Token.ofSymbols, htoken]

theorem tokens_spelled {content body : List Char} (h : StringBody.Spells content body)
    (rest : List Symbol) : tokens (.char '"' :: (body.map .char ++ .char '"' :: rest)) =
      .string (.ok (String.ofList content)) (.ok ()) :: tokens rest := by
  rw [tokens_skippable h.skips, h.contentOf_eq]

end PackedEdges.Json
