import Mathlib
import PackedEdges.Proofs.CodecLaws

/-! An object is read entry by entry: what an entry does to the row of the fields read so far, and
what the row gives in the end. -/

namespace PackedEdges.Json.Shape

open Value

variable {Key : Type} {Cell : Key → Type} {shape : Shape Key Cell}

/-- The fields can be told apart and read back, and only a field with its default is left out. -/
structure Lawful (shape : Shape Key Cell) : Prop where
  nodup_names : shape.names.Nodup
  codec (key : Key) : (shape.field key).codec.Lawful
  default_eq (key : Key) (a : Cell key) :
    (shape.field key).isOmitted a = true → (shape.field key).default? = some a

theorem Lawful.nodup_keys (h : shape.Lawful) : shape.keys.Nodup :=
  List.Nodup.of_map _ h.nodup_names

theorem Lawful.key?_name (h : shape.Lawful) (key : Key) :
    shape.key? (shape.field key).name = some key := by
  cases hfind : shape.key? (shape.field key).name with
  | none =>
    have hnone := List.find?_eq_none.mp hfind key (shape.mem_keys key)
    simp at hnone
  | some other =>
    have hname : (shape.field other).name = (shape.field key).name := by
      simpa using List.find?_some hfind
    rw [List.inj_on_of_nodup_map h.nodup_names (shape.mem_keys other) (shape.mem_keys key) hname]

theorem key?_eq_none {name : String} (hname : name ∉ shape.names) : shape.key? name = none := by
  refine List.find?_eq_none.mpr fun key hkey heq => hname ?_
  exact List.mem_map.mpr ⟨key, hkey, by simpa using heq⟩

theorem checkPresent_eq_ok {row : Row Cell} {keys : List Key}
    (h : ∀ key ∈ keys, (row key).isSome) : shape.checkPresent row keys = .ok ⟨h⟩ := by
  induction keys with
  | nil => rfl
  | cons key keys ih =>
    rw [checkPresent, dif_pos (h key List.mem_cons_self),
      ih fun other hother => h other (List.mem_cons_of_mem _ hother)]

theorem finish_eq_ok {row : Row Cell} {record : (key : Key) → Cell key}
    (h : ∀ key, shape.fill row key = some (record key)) : shape.finish row = .ok record := by
  have hpresent : ∀ key ∈ shape.keys, (shape.fill row key).isSome := by
    intro key _
    rw [h key, Option.isSome_some]
  have hrecord : (fun key => (shape.fill row key).get (hpresent key (shape.mem_keys key))) =
      record := by
    funext key
    exact Option.get_of_eq_some _ (h key)
  rw [finish, checkPresent_eq_ok hpresent]
  exact congrArg Except.ok hrecord

theorem checkPresent_eq_error {row : Row Cell} {keys : List Key} {key : Key}
    (h : keys.find? (fun key => (row key).isNone) = some key) :
    shape.checkPresent row keys = .error (.missingField (shape.field key).name) := by
  induction keys with
  | nil => cases h
  | cons other keys ih =>
    by_cases hother : (row other).isSome
    · have hpass : (row other).isNone = false := by simpa using hother
      rw [List.find?_cons, hpass] at h
      rw [checkPresent, dif_pos hother, ih h]
    · have hfound : (row other).isNone = true := by simpa using hother
      rw [List.find?_cons, hfound] at h
      rw [checkPresent, dif_neg hother, Option.some.inj h]

theorem nextKey_separator (first : Bool) (name : String) (rest : List Token) :
    nextKey first (separator first ++ .string (.ok name) (.ok ()) :: rest) =
      .ok (some (name, rest)) := by
  cases first <;> rfl

variable [DecidableEq Key]

/-- Reads an object from behind some of its entries. -/
def readRest (shape : Shape Key Cell) (bound : Nat) (first : Bool) (row : Row Cell) :
    Reader ((key : Key) → Cell key) := fun tokens => do
  let (row, tokens) ← shape.readEntries bound first row tokens
  let record ← shape.finish row
  return (record, tokens)

section Step

variable {bound : Nat} {first : Bool} {row : Row Cell} {name : String} {tokens : List Token}

theorem readRest_field {key : Key} (hkey : shape.key? name = some key) (hrow : row key = none) :
    shape.readRest (bound + 1) first row
        (separator first ++ .string (.ok name) (.ok ()) :: .colon :: tokens) =
      (shape.field key).codec.read tokens >>= fun r =>
        shape.readRest bound false (row.put key r.1) r.2 := by
  simp only [readRest, readEntries, nextKey_separator, bind, Except.bind, hkey, hrow,
    Option.isSome_none, Bool.false_eq_true, if_false, dropColon]
  cases (shape.field key).codec.read tokens <;> rfl

theorem readRest_repeated {key : Key} (hkey : shape.key? name = some key)
    (hrow : (row key).isSome) :
    shape.readRest (bound + 1) first row
        (separator first ++ .string (.ok name) (.ok ()) :: .colon :: tokens) =
      .error (.duplicateField name) := by
  simp only [readRest, readEntries, nextKey_separator, bind, Except.bind, hkey, hrow, if_true]

theorem readRest_refused (hkey : shape.key? name = none) (hclosed : shape.isClosed = true) :
    shape.readRest (bound + 1) first row
        (separator first ++ .string (.ok name) (.ok ()) :: .colon :: tokens) =
      .error (.unknownField name shape.names) := by
  simp only [readRest, readEntries, nextKey_separator, bind, Except.bind, hkey, hclosed, if_true]

theorem readRest_skipped {rest : List Token} (hkey : shape.key? name = none)
    (hopen : shape.isClosed = false) (hskip : Skipping.skip tokens = .ok rest) :
    shape.readRest (bound + 1) first row
        (separator first ++ .string (.ok name) (.ok ()) :: .colon :: tokens) =
      shape.readRest bound false row rest := by
  simp only [readRest, readEntries, nextKey_separator, bind, Except.bind, hkey, hopen,
    Bool.false_eq_true, if_false, dropColon, hskip]

end Step

end PackedEdges.Json.Shape
