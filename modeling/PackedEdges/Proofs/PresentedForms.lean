import Mathlib
import PackedEdges.Proofs.RecordLaws
import PackedEdges.Proofs.SkippedValues
import PackedEdges.Proofs.TokenSpelling

/-! Ways to present a value other than the one in which it is written: the fields of a record may
come in any order, those with their default may be absent, and there may be fields too many or too
few. A reader's verdict on a presentation depends on what is odd about it and on nothing else. -/

namespace PackedEdges.Json

/-- What can be odd about the fields of an object. -/
inductive Oddity
  | foreign (name : String) (known : List String)
  | repeated (name : String)
  | missing (name : String)

namespace Oddity

def IsForeign (oddity : Oddity) : Prop :=
  ∃ name known, oddity = foreign name known

def fault : Oddity → Fault
  | foreign name known => .unknownField name known
  | repeated name => .duplicateField name
  | missing name => .missingField name

/-- Only closed records refuse a foreign field. -/
def isRefused (closed : Bool) : Oddity → Bool
  | foreign _ _ => closed
  | repeated _ => true
  | missing _ => true

end Oddity

/-- The value, or the fault of the first oddity that is refused. -/
def verdict {α : Type} (closed : Bool) (oddities : List Oddity) (a : α) : Except Fault α :=
  match oddities.find? (·.isRefused closed) with
  | none => .ok a
  | some oddity => .error oddity.fault

/-- The tokens that present a value with the given oddities. -/
abbrev Form (α : Type) :=
  α → List Oddity → List Token → Prop

namespace Form

variable {α : Type}

def written (codec : Codec α) : Form α := fun a oddities ts =>
  oddities = [] ∧ ts = (codec.write a).tokens

/-- The elements of an array that are left, with the closing bracket. -/
inductive Elements (form : Form α) : Bool → List α → List Oddity → List Token → Prop
  | done (first : Bool) : Elements form first [] [] [.closeArray]
  | element (first : Bool) {a : α} {as : List α} {oddities oddities' : List Oddity}
      {ts ts' : List Token} (ha : form a oddities ts) (h : Elements form false as oddities' ts') :
      Elements form first (a :: as) (oddities ++ oddities')
        (Value.separator first ++ (ts ++ ts'))

def list (form : Form α) : Form (List α) := fun as oddities ts =>
  ∃ ts', ts = .openArray :: ts' ∧ Elements form true as oddities ts'

end Form

namespace Shape

variable {Key : Type} {Cell : Key → Type} [DecidableEq Key]

/-- The fields that have to be there and are not among the keys seen. -/
def missing (shape : Shape Key Cell) (seen : List Key) : List Oddity :=
  (shape.keys.filter fun key => key ∉ seen ∧ (shape.field key).default?.isNone).map
    fun key => .missing (shape.field key).name

/-- The entries of an object that are left, with the closing bracket, after fields with the keys
`seen`. A field that does not come at all has its default. -/
inductive Entries (shape : Shape Key Cell) (form : (key : Key) → Form (Cell key))
    (record : (key : Key) → Cell key) : List Key → Bool → List Oddity → List Token → Prop
  | done {seen : List Key} (first : Bool)
      (hdefault : ∀ key ∉ seen, ∀ a ∈ (shape.field key).default?, a = record key) :
      Entries shape form record seen first (shape.missing seen) [.closeObject]
  | field {seen : List Key} (first : Bool) (key : Key) {oddities oddities' : List Oddity}
      {ts ts' : List Token} (hnew : key ∉ seen) (hvalue : form key (record key) oddities ts)
      (h : Entries shape form record (key :: seen) false oddities' ts') :
      Entries shape form record seen first (oddities ++ oddities')
        (Value.separator first ++ .string (.ok (shape.field key).name) (.ok ()) :: .colon ::
          (ts ++ ts'))
  | repeated {seen : List Key} (first : Bool) (key : Key) {oddities : List Oddity}
      {ts ts' : List Token} (hseen : key ∈ seen) (hvalue : IsJson .value ts)
      (h : Entries shape form record seen false oddities ts') :
      Entries shape form record seen first (.repeated (shape.field key).name :: oddities)
        (Value.separator first ++ .string (.ok (shape.field key).name) (.ok ()) :: .colon ::
          (ts ++ ts'))
  | foreign {seen : List Key} (first : Bool) (name : String) {oddities : List Oddity}
      {ts ts' : List Token} (hname : name ∉ shape.names) (hvalue : IsJson .value ts)
      (h : Entries shape form record seen false oddities ts') :
      Entries shape form record seen first (.foreign name shape.names :: oddities)
        (Value.separator first ++ .string (.ok name) (.ok ()) :: .colon :: (ts ++ ts'))

def form (shape : Shape Key Cell) (fields : (key : Key) → Form (Cell key)) :
    Form ((key : Key) → Cell key) := fun record oddities ts =>
  ∃ ts', ts = .openObject :: ts' ∧ shape.Entries fields record [] true oddities ts'

end Shape

/-- The text spells tokens that present the value. -/
def Form.Presents {α : Type} (form : Form α) (a : α) (oddities : List Oddity) (text : String) :
    Prop :=
  ∃ ts, form a oddities ts ∧ Spelled ts text.toList

section Verdict

variable {α β : Type} {closed : Bool} {oddities oddities' : List Oddity} {a : α} {b : β}

theorem find?_isRefused_eq_none (h : ∀ oddity ∈ oddities, oddity.isRefused closed = false) :
    oddities.find? (·.isRefused closed) = none :=
  List.find?_eq_none.mpr fun oddity hmem => by simp [h oddity hmem]

theorem verdict_eq_ok (h : ∀ oddity ∈ oddities, oddity.isRefused closed = false) :
    verdict closed oddities a = .ok a := by
  rw [verdict, find?_isRefused_eq_none h]

theorem verdict_eq_error {oddity : Oddity}
    (h : ∀ oddity ∈ oddities, oddity.isRefused closed = false)
    (hrefused : oddity.isRefused closed = true) :
    verdict closed (oddities ++ oddity :: oddities') a = .error oddity.fault := by
  rw [verdict, List.find?_append, find?_isRefused_eq_none h, Option.none_or,
    List.find?_cons_of_pos hrefused]

/-- What is odd later on matters only if nothing is refused before. -/
theorem verdict_bind {next : α → Except Fault β} (h : next a = verdict closed oddities' b) :
    (verdict closed oddities a >>= next) = verdict closed (oddities ++ oddities') b := by
  cases hfind : oddities.find? (·.isRefused closed) with
  | none =>
    simp only [verdict, List.find?_append, hfind, Option.none_or]
    exact h
  | some oddity =>
    simp only [verdict, List.find?_append, hfind, Option.some_or]
    rfl

theorem verdict_bind_ok {next : α → Except Fault β} (h : next a = .ok b) :
    (verdict closed oddities a >>= next) = verdict closed oddities b := by
  have hbind : (verdict closed oddities a >>= next) = verdict closed (oddities ++ []) b :=
    verdict_bind h
  rwa [List.append_nil] at hbind

end Verdict

/-- The codec gives the verdict on every presentation, whatever comes behind it. -/
structure Codec.Judges {α : Type} (codec : Codec α) (closed : Bool) (form : Form α) : Prop where
  read {a : α} {oddities : List Oddity} {ts : List Token} (h : form a oddities ts)
    (rest : List Token) : codec.read (ts ++ rest) = verdict closed oddities (a, rest)
  exists_eq_cons {a : α} {oddities : List Oddity} {ts : List Token} (h : form a oddities ts) :
    ∃ token more, ts = token :: more ∧ token ≠ .closeArray

namespace Codec.Judges

variable {α β : Type} {codec : Codec α} {closed : Bool} {form : Form α}

theorem written (h : codec.Lawful) : codec.Judges closed (.written codec) where
  read := by
    rintro a oddities ts ⟨rfl, rfl⟩ rest
    exact h.read_write a rest
  exists_eq_cons := by
    rintro a oddities ts ⟨rfl, rfl⟩
    obtain ⟨token, more, heq, hne, -⟩ := (codec.write a).exists_tokens_eq_cons
    exact ⟨token, more, heq, hne⟩

theorem map {toTarget : α → β} {ofTarget : β → α} (h : codec.Judges closed form)
    (hinverse : ∀ b, toTarget (ofTarget b) = b) :
    (codec.map toTarget ofTarget).Judges closed fun b => form (ofTarget b) where
  read {b oddities ts} hform rest := by
    change codec.read (ts ++ rest) >>= _ = _
    rw [h.read hform rest]
    exact verdict_bind_ok (congrArg (fun b => Except.ok (b, rest)) (hinverse b))
  exists_eq_cons hform := h.exists_eq_cons hform

theorem nextElement_separator (first : Bool) {token : Token} (hne : token ≠ .closeArray)
    (rest : List Token) :
    Reader.nextElement first (Value.separator first ++ token :: rest) =
      .ok (some (token :: rest)) := by
  cases first <;> cases token <;> simp_all [Value.separator, Reader.nextElement]

theorem read_elements (h : codec.Judges closed form) {first : Bool} {as : List α}
    {oddities : List Oddity} {ts : List Token} (helements : form.Elements first as oddities ts)
    {bound : Nat} (hbound : ts.length ≤ bound) (rest : List Token) :
    Reader.elements codec.read bound first (ts ++ rest) =
      verdict closed oddities (as, .closeArray :: rest) := by
  induction helements generalizing bound with
  | done first =>
    obtain ⟨bound, rfl⟩ := Nat.exists_eq_succ_of_ne_zero (show bound ≠ 0 by simp at hbound; omega)
    rfl
  | @element first a as oddities oddities' ts ts' ha _ ih =>
    obtain ⟨token, more, htokens, hne⟩ := h.exists_eq_cons ha
    have hlength : ts'.length + 1 ≤ bound := by
      rw [htokens] at hbound
      simp only [List.length_append, List.length_cons] at hbound
      omega
    obtain ⟨bound, rfl⟩ := Nat.exists_eq_succ_of_ne_zero (show bound ≠ 0 by omega)
    have hnext : Reader.nextElement first
        (Value.separator first ++ (ts ++ ts') ++ rest) = .ok (some (ts ++ (ts' ++ rest))) := by
      rw [htokens, List.append_assoc]
      simpa using nextElement_separator first hne (more ++ (ts' ++ rest))
    have hmore := ih (Nat.le_of_succ_le_succ hlength)
    rw [Reader.elements, hnext]
    change codec.read (ts ++ (ts' ++ rest)) >>= _ = _
    rw [h.read ha]
    refine verdict_bind ?_
    change Reader.elements codec.read bound false (ts' ++ rest) >>= _ = _
    rw [hmore]
    exact verdict_bind_ok rfl

theorem list (h : codec.Judges closed form) : (Codec.list codec).Judges closed form.list where
  read := by
    rintro as oddities _ ⟨ts, rfl, helements⟩ rest
    have hbound : ts.length ≤ (ts ++ rest).length + 1 := by
      rw [List.length_append]
      omega
    change Reader.elements codec.read ((ts ++ rest).length + 1) true (ts ++ rest) >>= _ = _
    rw [h.read_elements helements hbound]
    exact verdict_bind_ok rfl
  exists_eq_cons := by
    rintro as oddities _ ⟨ts, rfl, -⟩
    exact ⟨_, _, rfl, by simp⟩

end Codec.Judges

namespace Shape

variable {Key : Type} {Cell : Key → Type} [DecidableEq Key] {shape : Shape Key Cell}

/-- The row after fields with the keys `seen`. -/
def rowOf (record : (key : Key) → Cell key) (seen : List Key) : Row Cell :=
  fun key => if key ∈ seen then some (record key) else none

theorem put_rowOf (record : (key : Key) → Cell key) (seen : List Key) (key : Key) :
    (rowOf record seen).put key (record key) = rowOf record (key :: seen) := by
  funext other
  by_cases he : key = other
  · subst he
    simp [Row.put, rowOf]
  · simp [Row.put, rowOf, he, Ne.symm he]

theorem missing_eq_nil {seen : List Key}
    (h : ∀ key ∉ seen, (shape.field key).default?.isSome) : shape.missing seen = [] := by
  rw [missing, List.map_eq_nil_iff, List.filter_eq_nil_iff]
  intro key _
  by_cases hseen : key ∈ seen
  · simp [hseen]
  · simpa [hseen, Option.isSome_iff_ne_none] using h key hseen

/-- The first required field that never came is the fault. -/
theorem finish_rowOf {record : (key : Key) → Cell key} {seen : List Key} (closed : Bool)
    (hdefault : ∀ key ∉ seen, ∀ a ∈ (shape.field key).default?, a = record key) :
    shape.finish (rowOf record seen) = verdict closed (shape.missing seen) record := by
  have habsent (key : Key) : (shape.fill (rowOf record seen) key).isNone =
      decide (key ∉ seen ∧ (shape.field key).default?.isNone) := by
    cases hd : (shape.field key).default? <;> by_cases hseen : key ∈ seen <;>
      simp [fill, rowOf, hseen, hd]
  cases hfind : shape.keys.find? fun key => (shape.fill (rowOf record seen) key).isNone with
  | none =>
    have hsome : ∀ key ∉ seen, (shape.field key).default?.isSome := by
      intro key hseen
      simpa [habsent, hseen, Option.isSome_iff_ne_none] using
        List.find?_eq_none.mp hfind key (shape.mem_keys key)
    have hfill (key : Key) : shape.fill (rowOf record seen) key = some (record key) := by
      by_cases hseen : key ∈ seen
      · simp [fill, rowOf, hseen]
      · obtain ⟨a, ha⟩ := Option.isSome_iff_exists.mp (hsome key hseen)
        simp [fill, rowOf, hseen, ha, hdefault key hseen a ha]
    rw [finish_eq_ok hfill, missing_eq_nil hsome]
    rfl
  | some key =>
    obtain ⟨others, hmissing⟩ : ∃ others,
        shape.missing seen = .missing (shape.field key).name :: others := by
      simp only [habsent] at hfind
      refine List.head?_eq_some_iff.mp ?_
      rw [missing, List.head?_map, List.head?_filter, hfind]
      rfl
    rw [finish, checkPresent_eq_error hfind, hmissing]
    rfl

theorem exists_bound_of_entry {first : Bool} {name : Token} {ts ts' : List Token} {bound : Nat}
    (h : (Value.separator first ++ name :: .colon :: (ts ++ ts')).length ≤ bound) :
    ∃ n, bound = n + 1 ∧ ts'.length ≤ n := by
  simp only [List.length_append, List.length_cons] at h
  exact ⟨bound - 1, by omega, by omega⟩

theorem Lawful.readRest_entries (h : shape.Lawful) {fields : (key : Key) → Form (Cell key)}
    (hfields : ∀ key, (shape.field key).codec.Judges shape.isClosed (fields key))
    {record : (key : Key) → Cell key} {seen : List Key} {first : Bool} {oddities : List Oddity}
    {ts : List Token} (hentries : shape.Entries fields record seen first oddities ts) {bound : Nat}
    (hbound : ts.length ≤ bound) (rest : List Token) :
    shape.readRest bound first (rowOf record seen) (ts ++ rest) =
      verdict shape.isClosed oddities (record, rest) := by
  have hentry (first : Bool) (name : String) (ts ts' : List Token) :
      Value.separator first ++ .string (.ok name) (.ok ()) :: .colon :: (ts ++ ts') ++ rest =
        Value.separator first ++ .string (.ok name) (.ok ()) :: .colon :: (ts ++ (ts' ++ rest)) := by
    simp
  -- A field enters its key among those seen; a foreign entry leaves the row as it is.
  induction hentries generalizing bound with
  | done first hdefault =>
    obtain ⟨bound, rfl⟩ := Nat.exists_eq_succ_of_ne_zero (Nat.ne_of_gt hbound)
    change shape.finish _ >>= _ = _
    rw [finish_rowOf shape.isClosed hdefault]
    exact verdict_bind_ok rfl
  | @field seen first key oddities oddities' ts ts' hnew hvalue _ ih =>
    obtain ⟨bound, rfl, hlength⟩ := exists_bound_of_entry hbound
    rw [hentry, readRest_field (h.key?_name key) (if_neg hnew), (hfields key).read hvalue]
    refine verdict_bind ?_
    rw [put_rowOf]
    exact ih hlength
  | @repeated seen first key oddities ts ts' hseen _ _ _ =>
    obtain ⟨bound, rfl, -⟩ := exists_bound_of_entry hbound
    have hrow : (rowOf record seen key).isSome := by simp [rowOf, hseen]
    rw [hentry, readRest_repeated (h.key?_name key) hrow]
    rfl
  | @foreign seen first name oddities ts ts' hname hvalue _ ih =>
    obtain ⟨bound, rfl, hlength⟩ := exists_bound_of_entry hbound
    rw [hentry]
    cases hclosed : shape.isClosed with
    | true =>
      rw [readRest_refused (key?_eq_none hname) hclosed]
      rfl
    | false =>
      have hmore := ih hlength
      rw [hclosed] at hmore
      rw [readRest_skipped (key?_eq_none hname) hclosed (Skipping.skip_append hvalue _), hmore]
      rfl

theorem Lawful.judges (h : shape.Lawful) {fields : (key : Key) → Form (Cell key)}
    (hfields : ∀ key, (shape.field key).codec.Judges shape.isClosed (fields key)) :
    shape.codec.Judges shape.isClosed (shape.form fields) where
  read := by
    rintro record oddities _ ⟨ts, rfl, hentries⟩ rest
    have hbound : ts.length ≤ (ts ++ rest).length + 1 := by
      rw [List.length_append]
      omega
    exact h.readRest_entries hfields hentries hbound rest
  exists_eq_cons := by
    rintro record oddities _ ⟨ts, rfl, -⟩
    exact ⟨_, _, rfl, by simp⟩

end Shape

theorem Codec.Judges.run_text {α : Type} {codec : Codec α} {closed : Bool} {form : Form α}
    (h : codec.Judges closed form) {a : α} {oddities : List Oddity} {text : String}
    (htext : form.Presents a oddities text) :
    Reader.run codec.read (symbolsOfText text) = verdict closed oddities a := by
  obtain ⟨ts, hform, hspelled⟩ := htext
  have hread := h.read hform []
  rw [List.append_nil] at hread
  rw [Reader.run, symbolsOfText, hspelled.tokens_eq, hread, verdict, verdict]
  cases oddities.find? (·.isRefused closed) <;> rfl

end PackedEdges.Json
