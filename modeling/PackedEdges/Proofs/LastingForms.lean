import PackedEdges.Definition
import PackedEdges.Proofs.FileContent
import PackedEdges.Proofs.WrittenForms
import PackedEdges.Snapshot

/-! Snapshots and definitions are read back from their texts, and a snapshot from its file. -/

namespace PackedEdges

open Json

theorem AttributeSnapshot.lawful_shape : shape.Lawful := by
  refine ⟨by decide, fun key => ?_, fun key a homitted => ?_⟩
  · cases key with
    | name => exact .string
    | bits | forwardWord | reverseWord | forwardShift | reverseShift | forwardMask
    | reverseMask => exact .unsigned32
    | minimum | maximum | greatest => exact .signed32
    | negates | twoDirections | byBytes => exact .boolean
  · cases key <;> cases homitted

theorem AttributeSnapshot.lawful_codec : codec.Lawful :=
  lawful_shape.shape_codec.map ofRecord_toRecord

theorem Snapshot.lawful_shape : shape.Lawful := by
  refine ⟨by decide, fun key => ?_, fun key a homitted => ?_⟩
  · cases key with
    | bytesPerEdge => exact .size
    | attributes => exact AttributeSnapshot.lawful_codec.list
  · cases key <;> cases homitted

theorem Snapshot.lawful_codec : codec.Lawful :=
  lawful_shape.shape_codec.map ofRecord_toRecord

theorem AttributeDefinition.lawful_shape : shape.Lawful := by
  refine ⟨by decide, fun key => ?_, fun key a homitted => ?_⟩
  · cases key with
    | name => exact .string
    | bits => exact .unsigned32
    | minimum => exact .signed32
    | negates | twoDirections | byBytes => exact .boolean
  · cases key <;> cases homitted

theorem AttributeDefinition.lawful_codec : codec.Lawful :=
  lawful_shape.shape_codec.map ofRecord_toRecord

theorem Definition.lawful_shape : shape.Lawful := by
  refine ⟨by decide, fun key => ?_, fun key a homitted => ?_⟩
  · cases key with
    | reservedWords => exact Codec.Lawful.string.list.optional fun _ => Value.noConfusion
    | attributes => exact AttributeDefinition.lawful_codec.list
  · cases key with
    | reservedWords =>
      -- Only the absent list is left out, and it is the default.
      obtain rfl : a = none := Option.isNone_iff_eq_none.mp homitted
      rfl
    | attributes => cases homitted

theorem Definition.lawful_codec : codec.Lawful :=
  lawful_shape.shape_codec.map ofRecord_toRecord

theorem Snapshot.ofFileBytes_eq_parse (text : String) :
    ofFileBytes text.toUTF8 = parse text := by
  rw [ofFileBytes, symbolsOfBytes_toUTF8, parse]

theorem Snapshot.parse_text (s : Snapshot) : parse s.text = .ok s :=
  lawful_codec.run_text Layout.isBlank_pretty s

theorem Definition.parse_text (d : Definition) : parse d.text = .ok d :=
  lawful_codec.run_text Layout.isBlank_compact d

open CommandLine

/-- No lasting form loses anything, whatever names and numbers are in it. -/
theorem lasting_forms_read_back :
    (∀ s : Snapshot, Snapshot.parse s.text = .ok s ∧
      ∀ (disk disk' : Disk) (path : String), disk.write path s.fileBytes = .ok disk' →
        ∃ content, disk'.read path = .ok content ∧ content = s.text.toUTF8 ∧
          Snapshot.ofFileBytes content = .ok s) ∧
    ∀ d : Definition, Definition.parse d.text = .ok d := by
  refine ⟨fun s => ⟨s.parse_text, fun disk disk' path hwrite => ?_⟩, Definition.parse_text⟩
  refine ⟨s.fileBytes, Disk.read_write hwrite, rfl, ?_⟩
  rw [Snapshot.fileBytes, Snapshot.ofFileBytes_eq_parse, s.parse_text]

/-- A snapshot with the greatest numbers and a name that needs every kind of escape. -/
def oddSnapshot : Snapshot where
  bytesPerEdge := 18446744073709551615
  attributes :=
    [{ name := "", bits := 0, minimum := -2147483648, maximum := 2147483647, greatest := 0,
       negates := true, twoDirections := false,
       forward := { word := 4294967295, shift := 4294967295, mask := 4294967295 },
       reverse := {}, byBytes := false },
     { name := "\"\\/\x00\n\x1f\x7fß😀", bits := 7, minimum := 0, maximum := 1, greatest := -1,
       negates := false, twoDirections := true, forward := {}, reverse := { mask := 1 },
       byBytes := true }]

def emptyDisk : Disk where
  node? place := if place = [] then some .directory else none
  workplace := []

theorem lasting_forms_read_back_oddSnapshot :
    emptyDisk.write "/s" oddSnapshot.fileBytes = .ok (emptyDisk.put ["s"] oddSnapshot.fileBytes) ∧
      ∃ content, (emptyDisk.put ["s"] oddSnapshot.fileBytes).read "/s" = .ok content ∧
        content = oddSnapshot.text.toUTF8 ∧ Snapshot.ofFileBytes content = .ok oddSnapshot := by
  have hpath : Path.ofString "/s" = .ok ⟨true, ["s"], false⟩ := by cbv
  have hwrite : emptyDisk.write "/s" oddSnapshot.fileBytes =
      .ok (emptyDisk.put ["s"] oddSnapshot.fileBytes) :=
    Disk.write_eq_ok_iff.mpr ⟨_, _, hpath, rfl, rfl, nofun, rfl⟩
  exact ⟨hwrite, (lasting_forms_read_back.1 oddSnapshot).2 _ _ _ hwrite⟩

end PackedEdges
