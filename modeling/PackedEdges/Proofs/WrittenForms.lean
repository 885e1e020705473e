import Mathlib
import PackedEdges.Proofs.PresentedForms

/-! Lists and records are written in a form without oddities, so their codecs read back what they
write if those of their elements and fields do. -/

namespace PackedEdges.Json

open Value

/-- What the codec writes is in the form, without oddities. -/
def Form.Covers {α : Type} (form : Form α) (codec : Codec α) : Prop :=
  ∀ a, form a [] (codec.write a).tokens

section List

variable {α : Type} {codec : Codec α} {form : Form α}

theorem Form.covers_written (codec : Codec α) : (written codec).Covers codec :=
  fun _ => ⟨rfl, rfl⟩

theorem Form.Covers.elements (h : form.Covers codec) (first : Bool) (as : List α) :
    form.Elements first as [] (elementTokens first (as.map codec.write)) := by
  induction as generalizing first with
  | nil => exact .done first
  | cons a as ih => exact .element first (h a) (ih false)

theorem Form.Covers.list (h : form.Covers codec) : form.list.Covers (Codec.list codec) :=
  fun as => ⟨_, rfl, h.elements true as⟩

theorem Codec.Lawful.list (h : codec.Lawful) : (Codec.list codec).Lawful where
  read_write as rest := by
    have hjudges : codec.Judges true (.written codec) := .written h
    exact hjudges.list.read ((Form.covers_written codec).list as) rest
  fits as := by
    refine fits_array_iff.mpr fun v hv => ?_
    obtain ⟨a, -, rfl⟩ := List.mem_map.mp hv
    exact h.fits a

end List

namespace Shape

variable {Key : Type} {Cell : Key → Type} {shape : Shape Key Cell}

/-- The keys of the entries that are written for a record. -/
def written (shape : Shape Key Cell) (record : (key : Key) → Cell key) : List Key :=
  shape.keys.filter fun key => !(shape.field key).isOmitted (record key)

def entry (shape : Shape Key Cell) (record : (key : Key) → Cell key) (key : Key) :
    String × Value :=
  ((shape.field key).name, (shape.field key).codec.write (record key))

theorem mem_written_iff {record : (key : Key) → Cell key} {key : Key} :
    key ∈ shape.written record ↔ (shape.field key).isOmitted (record key) = false := by
  simp [written, shape.mem_keys]

theorem write_eq (shape : Shape Key Cell) (record : (key : Key) → Cell key) :
    shape.write record = .object ((shape.written record).map (shape.entry record)) := by
  rw [write, written]
  congr 1
  induction shape.keys with
  | nil => rfl
  | cons key keys ih =>
    by_cases homitted : (shape.field key).isOmitted (record key) = true
    · simp [homitted, ih]
    · simp [homitted, ih, entry]

namespace Lawful

variable [DecidableEq Key]

theorem entries_written (h : shape.Lawful) {fields : (key : Key) → Form (Cell key)}
    (hfields : ∀ key, (fields key).Covers (shape.field key).codec) (record : (key : Key) → Cell key)
    {keys seen : List Key} (hkeys : keys.Nodup) (hnew : ∀ key ∈ keys, key ∉ seen)
    (homitted : ∀ key ∉ seen, key ∉ keys → (shape.field key).isOmitted (record key) = true)
    (first : Bool) :
    shape.Entries fields record seen first []
      (entryTokens first (keys.map (shape.entry record))) := by
  induction keys generalizing seen first with
  | nil =>
    have hdefault : ∀ key ∉ seen, (shape.field key).default? = some (record key) :=
      fun key hseen => h.default_eq key _ (homitted key hseen List.not_mem_nil)
    have hmissing : shape.missing seen = [] :=
      missing_eq_nil fun key hseen => by rw [hdefault key hseen]; rfl
    rw [← hmissing]
    exact .done first fun key hseen a ha => Option.some.inj (ha.symm.trans (hdefault key hseen))
  | cons key keys ih =>
    obtain ⟨hfresh, hnodup⟩ := List.nodup_cons.mp hkeys
    have hlater : ∀ other ∈ keys, other ∉ key :: seen := by
      intro other hother hmem
      rcases List.mem_cons.mp hmem with rfl | hseen
      · exact hfresh hother
      · exact hnew other (List.mem_cons_of_mem _ hother) hseen
    have hleft : ∀ other ∉ key :: seen, other ∉ keys →
        (shape.field other).isOmitted (record other) = true := by
      intro other hunseen hother
      obtain ⟨hne, hseen⟩ : other ≠ key ∧ other ∉ seen := by simpa using hunseen
      exact homitted other hseen (by simp [hne, hother])
    exact .field first key (hnew key List.mem_cons_self) (hfields key _) (ih hnodup hlater hleft false)

theorem covers (h : shape.Lawful) {fields : (key : Key) → Form (Cell key)}
    (hfields : ∀ key, (fields key).Covers (shape.field key).codec) :
    (shape.form fields).Covers shape.codec := by
  intro record
  have hnodup : (shape.written record).Nodup := h.nodup_keys.filter _
  have hentries := h.entries_written hfields record hnodup (fun _ _ => List.not_mem_nil)
    (fun key _ hkey => by simpa [mem_written_iff] using hkey) true
  change shape.form fields record [] (shape.write record).tokens
  rw [write_eq]
  exact ⟨_, rfl, hentries⟩

theorem shape_codec (h : shape.Lawful) : shape.codec.Lawful where
  read_write record rest := by
    have hjudges := h.judges fun key => .written (h.codec key)
    exact hjudges.read (h.covers (fun _ => Form.covers_written _) record) rest
  fits record := by
    change (shape.write record).Fits
    rw [write_eq, fits_object_iff]
    intro e he
    obtain ⟨key, -, rfl⟩ := List.mem_map.mp he
    exact (h.codec key).fits (record key)

end Lawful

end Shape

end PackedEdges.Json
