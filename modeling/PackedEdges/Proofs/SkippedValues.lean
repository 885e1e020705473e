import Mathlib
import PackedEdges.Json.Skipping
import PackedEdges.Proofs.ValueTokens

/-! Skipping takes exactly one value, whatever its kind and depth. The brackets that a part of a
value stands in are the stack of the machine that skips it. -/

namespace PackedEdges.Json

/-- A whole value, or what is left of an array or object: its elements or entries with the closing
bracket. -/
inductive Part
  | value
  | elements (first : Bool)
  | entries (first : Bool)

/-- The tokens of a JSON value and of the parts of one. Its numbers may be out of range, its strings
unreadable. -/
inductive IsJson : Part → List Token → Prop
  | null : IsJson .value [.null]
  | boolean (b : Bool) : IsJson .value [.boolean b]
  | number (n : Numeral) : IsJson .value [.number n.value]
  | string (content : Except Fault String) : IsJson .value [.string content (.ok ())]
  | array {ts : List Token} (h : IsJson (.elements true) ts) : IsJson .value (.openArray :: ts)
  | object {ts : List Token} (h : IsJson (.entries true) ts) : IsJson .value (.openObject :: ts)
  | closeArray (first : Bool) : IsJson (.elements first) [.closeArray]
  | element (first : Bool) {ts ts' : List Token} (hv : IsJson .value ts)
      (h : IsJson (.elements false) ts') :
      IsJson (.elements first) (Value.separator first ++ (ts ++ ts'))
  | closeObject (first : Bool) : IsJson (.entries first) [.closeObject]
  | entry (first : Bool) (name : Except Fault String) {ts ts' : List Token}
      (hv : IsJson .value ts) (h : IsJson (.entries false) ts') :
      IsJson (.entries first)
        (Value.separator first ++ .string name (.ok ()) :: .colon :: (ts ++ ts'))

theorem IsJson.exists_eq_cons {ts : List Token} (h : IsJson .value ts) :
    ∃ token more, ts = token :: more ∧ token ≠ .closeArray := by
  cases h <;> exact ⟨_, _, rfl, by simp⟩

/-- Being out of range is all that can be wrong with the value of a numeral. -/
theorem scaleByTen_cases (x : Float) (e : Int) :
    (∃ y, scaleByTen x e = .ok y) ∨ scaleByTen x e = .error .numberOutOfRange := by
  fun_induction scaleByTen x e with
  | case1 | case5 => exact .inr rfl
  | case2 | case3 | case4 => exact .inl ⟨_, rfl⟩
  | case6 _ _ _ _ _ ih => exact ih

open Skipping in
/-- Where the machine stands that has a part before it, inside these brackets. -/
def Part.state (stack : List Bracket) : Part → State
  | value => (.value, stack)
  | elements first => (if first then .first else .next, .array :: stack)
  | entries first => (if first then .first else .next, .object :: stack)

namespace Skipping

theorem skipNumber_value (n : Numeral) : skipNumber n.value = .ok () := by
  unfold Numeral.value
  cases n.integerValue? with
  | some i => rfl
  | none =>
    unfold Numeral.floatValue
    obtain ⟨y, hscale⟩ | hscale := scaleByTen_cases
        (UInt64.ofNat (takeDigits (takeDigits 0 n.whole).1 n.fraction).1).toFloat
        (((n.whole.length - (takeDigits 0 n.whole).2 : Nat) : Int) -
          (takeDigits (takeDigits 0 n.whole).1 n.fraction).2 + n.exponentValue)
    · simp only [hscale]
      rfl
    · simp only [hscale]
      rfl

/-- What happens behind a value inside these brackets. -/
def resume (stack : List Bracket) (rest : List Token) : Except Fault (List Token) :=
  match afterValue stack with
  | none => .ok rest
  | some state => skipFrom state rest

theorem skipFrom_of_last {state : State} {stack : List Bracket} {token : Token}
    (h : step state token = .ok (afterValue stack)) (rest : List Token) :
    skipFrom state (token :: rest) = resume stack rest := by
  rw [skipFrom, h, resume]
  cases afterValue stack <;> rfl

theorem skipFrom_of_step {state next : State} {token : Token}
    (h : step state token = .ok (some next)) (rest : List Token) :
    skipFrom state (token :: rest) = skipFrom next rest := by
  rw [skipFrom, h]

/-- The first element of an array begins as any value does. -/
theorem skipFrom_first_eq {ts : List Token} (h : IsJson .value ts) (stack : List Bracket)
    (rest : List Token) :
    skipFrom (.first, .array :: stack) (ts ++ rest) =
      skipFrom (.value, .array :: stack) (ts ++ rest) := by
  obtain ⟨token, more, rfl, hne⟩ := h.exists_eq_cons
  have hstep : step (.first, .array :: stack) token = step (.value, .array :: stack) token := by
    cases token <;> first | rfl | exact absurd rfl hne
  rw [List.cons_append, skipFrom, skipFrom, hstep]

/-- A part is taken as a whole, and then the brackets around it go on. -/
theorem skipFrom_append {part : Part} {ts : List Token} (h : IsJson part ts)
    (stack : List Bracket) (rest : List Token) :
    skipFrom (part.state stack) (ts ++ rest) = resume stack rest := by
  induction h generalizing stack rest with
  | null | boolean | string => exact skipFrom_of_last rfl rest
  | number n =>
    refine skipFrom_of_last ?_ rest
    change (skipNumber n.value).map _ = _
    rw [skipNumber_value]
    rfl
  | array _ ih => exact (skipFrom_of_step rfl _).trans (ih stack rest)
  | object _ ih => exact (skipFrom_of_step rfl _).trans (ih stack rest)
  | closeArray first => cases first <;> exact skipFrom_of_last rfl rest
  | closeObject first => cases first <;> exact skipFrom_of_last rfl rest
  | @element first ts ts' hv _ ihv ih =>
    have hvalue : skipFrom (.value, .array :: stack) (ts ++ (ts' ++ rest)) = resume stack rest :=
      (ihv (.array :: stack) (ts' ++ rest)).trans (ih stack rest)
    cases first with
    | true =>
      rw [← hvalue, ← skipFrom_first_eq hv]
      simp [Part.state, Value.separator]
    | false =>
      have hcomma : skipFrom (.next, .array :: stack) (.comma :: (ts ++ (ts' ++ rest))) =
          skipFrom (.value, .array :: stack) (ts ++ (ts' ++ rest)) := skipFrom_of_step rfl _
      rw [← hvalue, ← hcomma]
      simp [Part.state, Value.separator]
  | @entry first name ts ts' hv _ ihv ih =>
    have hvalue : skipFrom (.value, .object :: stack) (ts ++ (ts' ++ rest)) = resume stack rest :=
      (ihv (.object :: stack) (ts' ++ rest)).trans (ih stack rest)
    have hkey (state : State)
        (h : step state (.string name (.ok ())) = .ok (some (.colon, .object :: stack))) :
        skipFrom state (.string name (.ok ()) :: .colon :: (ts ++ (ts' ++ rest))) =
          resume stack rest :=
      (skipFrom_of_step h _).trans ((skipFrom_of_step rfl _).trans hvalue)
    cases first with
    | true => simpa [Part.state, Value.separator] using hkey (.first, .object :: stack) rfl
    | false =>
      have hcomma (ts : List Token) : skipFrom (.next, .object :: stack) (.comma :: ts) =
          skipFrom (.key, .object :: stack) ts := skipFrom_of_step rfl _
      rw [← hkey (.key, .object :: stack) rfl, ← hcomma]
      simp [Part.state, Value.separator]

theorem skip_append {ts : List Token} (h : IsJson .value ts) (rest : List Token) :
    skip (ts ++ rest) = .ok rest :=
  skipFrom_append h [] rest

end Skipping

end PackedEdges.Json
