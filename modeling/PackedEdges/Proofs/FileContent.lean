import PackedEdges.CommandLine.FileSystem
import PackedEdges.Json.Symbol

/-! A file gives back what was written into it, and the bytes of a text have the symbols of the
text. -/

namespace PackedEdges

namespace Json

theorem symbolsFrom_append (front : ByteArray) (cs : List Char) :
    symbolsFrom (front ++ cs.utf8Encode) front.size = cs.map .char := by
  induction cs generalizing front with
  | nil =>
    rw [symbolsFrom, dif_neg (by simp)]
    rfl
  | cons c cs ih =>
    have hdecode : (front ++ (c :: cs).utf8Encode).utf8DecodeChar? front.size = some c := by
      rw [ByteArray.utf8DecodeChar?_eq_utf8DecodeChar?_extract,
        ByteArray.extract_append_eq_right rfl ByteArray.size_append,
        List.utf8DecodeChar?_utf8Encode_cons]
    have hpos : front.size < (front ++ (c :: cs).utf8Encode).size :=
      ByteArray.lt_size_of_isSome_utf8DecodeChar? (by rw [hdecode, Option.isSome_some])
    have hmore := ih (front ++ [c].utf8Encode)
    have happend : front ++ [c].utf8Encode ++ cs.utf8Encode =
        front ++ (c :: cs).utf8Encode := by
      rw [ByteArray.append_assoc, ← List.utf8Encode_append, List.singleton_append]
    have hsize : (front ++ [c].utf8Encode).size = front.size + c.utf8Size := by
      rw [ByteArray.size_append, List.utf8Encode_singleton, List.size_toByteArray,
        String.length_utf8EncodeChar]
    rw [happend, hsize] at hmore
    rw [symbolsFrom, dif_pos hpos]
    split
    · next d hd =>
      obtain rfl : c = d := Option.some.inj (hdecode.symm.trans hd)
      rw [hmore, List.map_cons]
    · next hnone => rw [hdecode] at hnone; cases hnone

theorem symbolsOfBytes_toUTF8 (text : String) :
    symbolsOfBytes text.toUTF8 = symbolsOfText text := by
  have happend := symbolsFrom_append ByteArray.empty text.toList
  rw [ByteArray.empty_append, String.utf8Encode_toList] at happend
  exact happend

end Json

namespace CommandLine.Disk

variable {disk : Disk} {place : Place} {content : ByteArray}

theorem node?_put_self : (disk.put place content).node? place = some (.file content) :=
  if_pos rfl

theorem node?_put_of_ne {other : Place} (h : other ≠ place) :
    (disk.put place content).node? other = disk.node? other :=
  if_neg h

theorem step_put {other next : Place} {name : String} (hplace : disk.node? place ≠ some .directory)
    (h : disk.step other name = .ok next) :
    (disk.put place content).step other name = .ok next := by
  -- The way leads on from `other`, so a directory stands there and `place` is elsewhere.
  have hne : other ≠ place := by
    rintro rfl
    rw [step] at h
    split at h
    · cases h
    · cases h
    · next hdirectory => exact hplace hdirectory
  rw [step, node?_put_of_ne hne]
  exact h

theorem locate_put {names : List String} {start : Place}
    (hplace : disk.node? place ≠ some .directory)
    (h : names.foldlM disk.step start = .ok place) :
    names.foldlM (disk.put place content).step start = .ok place := by
  induction names generalizing start with
  | nil => exact h
  | cons name names ih =>
    rw [List.foldlM_cons] at h ⊢
    cases hstep : disk.step start name with
    | error fault =>
      rw [hstep] at h
      cases h
    | ok next =>
      rw [hstep] at h
      rw [step_put hplace hstep]
      exact ih h

theorem write_eq_ok_iff {text : String} {disk' : Disk} :
    disk.write text content = .ok disk' ↔
      ∃ path place, Path.ofString text = .ok path ∧ disk.locate path = .ok place ∧
        path.endsInSlash = false ∧ disk.node? place ≠ some .directory ∧
        disk' = disk.put place content := by
  constructor
  · intro h
    rw [write] at h
    cases hpath : Path.ofString text with
    | error fault =>
      rw [hpath] at h
      cases h
    | ok path =>
      cases hplace : disk.locate path with
      | error fault =>
        simp only [hpath, hplace, bind, Except.bind] at h
        cases h
      | ok place =>
        simp only [hpath, hplace, bind, Except.bind] at h
        split at h
        · cases h
        · cases h
        · next hslash hdirectory =>
          exact ⟨path, place, rfl, hplace, by simpa using hslash, hdirectory,
            (Except.ok.inj h).symm⟩
  · rintro ⟨path, place, hpath, hplace, hslash, hdirectory, rfl⟩
    simp only [write, hpath, hplace, bind, Except.bind, hslash]

theorem read_write {text : String} {disk' : Disk} (h : disk.write text content = .ok disk') :
    disk'.read text = .ok content := by
  obtain ⟨path, place, hpath, hlocate, hslash, hplace, rfl⟩ := write_eq_ok_iff.mp h
  have hlocate' : (disk.put place content).locate path = .ok place := locate_put hplace hlocate
  simp only [read, hpath, hlocate', bind, Except.bind, node?_put_self, hslash,
    Bool.false_eq_true, if_false]

end CommandLine.Disk

end PackedEdges
