import Mathlib
import PackedEdges.Proofs.LastingForms
import PackedEdges.Proofs.PresentedForms

/-! The texts that present definitions and snapshots as objects. Definitions are closed: a field of
another name is a fault. Snapshots are open: such a field is skipped with its value. -/

namespace PackedEdges

open Json

def AttributeDefinition.form : Form AttributeDefinition := fun d =>
  shape.form (fun key => .written (shape.field key).codec) d.toRecord

def Definition.fieldForm : (key : Key) → Form key.Cell
  | .reservedWords => .written (shape.field .reservedWords).codec
  | .attributes => .list AttributeDefinition.form

def Definition.form : Form Definition := fun d =>
  shape.form fieldForm d.toRecord

def AttributeSnapshot.form : Form AttributeSnapshot := fun s =>
  shape.form (fun key => .written (shape.field key).codec) s.toRecord

def Snapshot.fieldForm : (key : Key) → Form key.Cell
  | .bytesPerEdge => .written (shape.field .bytesPerEdge).codec
  | .attributes => .list AttributeSnapshot.form

def Snapshot.form : Form Snapshot := fun s =>
  shape.form fieldForm s.toRecord

theorem AttributeDefinition.judges : codec.Judges true form :=
  (lawful_shape.judges fun key => .written (lawful_shape.codec key)).map ofRecord_toRecord

theorem Definition.judges : codec.Judges true form := by
  refine (lawful_shape.judges fun key => ?_).map ofRecord_toRecord
  cases key with
  | reservedWords => exact .written (lawful_shape.codec .reservedWords)
  | attributes => exact AttributeDefinition.judges.list

theorem AttributeSnapshot.judges : codec.Judges false form :=
  (lawful_shape.judges fun key => .written (lawful_shape.codec key)).map ofRecord_toRecord

theorem Snapshot.judges : codec.Judges false form := by
  refine (lawful_shape.judges fun key => ?_).map ofRecord_toRecord
  cases key with
  | bytesPerEdge => exact .written (lawful_shape.codec .bytesPerEdge)
  | attributes => exact AttributeSnapshot.judges.list

theorem AttributeDefinition.covers : form.Covers codec :=
  fun d => lawful_shape.covers (fun _ => Form.covers_written _) d.toRecord

/-- The written text is one of many. -/
theorem Definition.presents_text (d : Definition) : form.Presents d [] d.text := by
  have hfields : ∀ key, (fieldForm key).Covers (shape.field key).codec := by
    intro key
    cases key with
    | reservedWords => exact Form.covers_written _
    | attributes => exact AttributeDefinition.covers.list
  exact ⟨_, lawful_shape.covers hfields d.toRecord,
    Value.spelled_text Layout.isBlank_compact (lawful_codec.fits d)⟩

theorem AttributeSnapshot.covers : form.Covers codec :=
  fun s => lawful_shape.covers (fun _ => Form.covers_written _) s.toRecord

theorem Snapshot.presents_text (s : Snapshot) : form.Presents s [] s.text := by
  have hfields : ∀ key, (fieldForm key).Covers (shape.field key).codec := by
    intro key
    cases key with
    | bytesPerEdge => exact Form.covers_written _
    | attributes => exact AttributeSnapshot.covers.list
  exact ⟨_, lawful_shape.covers hfields s.toRecord,
    Value.spelled_text Layout.isBlank_pretty (lawful_codec.fits s)⟩

theorem Definition.parse_of_text {d : Definition} {oddities : List Oddity} {text : String}
    (h : form.Presents d oddities text) : parse text = verdict true oddities d :=
  judges.run_text h

theorem Snapshot.parse_of_text {s : Snapshot} {oddities : List Oddity} {text : String}
    (h : form.Presents s oddities text) : parse text = verdict false oddities s :=
  judges.run_text h

/-- Neither the order of the fields nor the spelling of the text matters, nor that a field with its
default is there. A definition refuses whatever is odd, a snapshot all but foreign fields. -/
theorem presentations_are_judged :
    (∀ d : Definition, Definition.form.Presents d [] d.text ∧
      ∀ text, Definition.form.Presents d [] text → Definition.parse text = .ok d) ∧
    (∀ (d : Definition) (oddity : Oddity) (oddities : List Oddity) (text : String),
      Definition.form.Presents d (oddity :: oddities) text →
        Definition.parse text = .error oddity.fault) ∧
    (∀ s : Snapshot, Snapshot.form.Presents s [] s.text ∧
      ∀ oddities text, Snapshot.form.Presents s oddities text →
        (∀ oddity ∈ oddities, oddity.IsForeign) → Snapshot.parse text = .ok s) ∧
    ∀ (s : Snapshot) (oddities oddities' : List Oddity) (oddity : Oddity) (text : String),
      Snapshot.form.Presents s (oddities ++ oddity :: oddities') text →
        (∀ oddity ∈ oddities, oddity.IsForeign) → ¬ oddity.IsForeign →
          Snapshot.parse text = .error oddity.fault := by
  have hskipped {oddities : List Oddity} (h : ∀ oddity ∈ oddities, oddity.IsForeign) :
      ∀ oddity ∈ oddities, oddity.isRefused false = false := by
    intro oddity hmem
    obtain ⟨name, known, rfl⟩ := h oddity hmem
    rfl
  refine ⟨fun d => ⟨d.presents_text, fun text h => ?_⟩, fun d oddity oddities text h => ?_,
    fun s => ⟨s.presents_text, fun oddities text h hforeign => ?_⟩,
    fun s oddities oddities' oddity text h hforeign hrefused => ?_⟩
  · exact Definition.parse_of_text h
  · rw [Definition.parse_of_text h]
    change verdict true ([] ++ oddity :: oddities) d = _
    exact verdict_eq_error (List.forall_mem_nil _) (by cases oddity <;> rfl)
  · rw [Snapshot.parse_of_text h]
    exact verdict_eq_ok (hskipped hforeign)
  · rw [Snapshot.parse_of_text h]
    refine verdict_eq_error (hskipped hforeign) ?_
    cases oddity with
    | foreign name known => exact absurd ⟨name, known, rfl⟩ hrefused
    | repeated | missing => rfl

def toll : AttributeDefinition where
  name := "toll"
  settings := { bits := 5 }

/-- Its width first, then its name; everything else has its default. -/
theorem toll_form : AttributeDefinition.form toll []
    [.openObject, .string (.ok "bits") (.ok ()), .colon, .number (.ok (.integer 5)), .comma,
     .string (.ok "name") (.ok ()), .colon, .string (.ok "toll") (.ok ()), .closeObject] := by
  have hdefault : ∀ key ∉ [AttributeDefinition.Key.name, .bits],
      ∀ a ∈ (AttributeDefinition.shape.field key).default?, a = toll.toRecord key := by
    intro key hkey a ha
    cases key with
    | name | bits => simp at hkey
    | minimum | negates | twoDirections | byBytes => exact (Option.some.inj ha).symm
  have hdone : AttributeDefinition.shape.Entries
      (fun key => .written (AttributeDefinition.shape.field key).codec) toll.toRecord
      [.name, .bits] false [] [.closeObject] := .done false hdefault
  have hname := hdone.field false AttributeDefinition.Key.name (by simp) ⟨rfl, rfl⟩
  have hbits := hname.field true AttributeDefinition.Key.bits (by simp) ⟨rfl, rfl⟩
  exact ⟨_, rfl, hbits⟩

/-- The usual words stay reserved if nothing is said about them. -/
theorem Definition.entries_done (attributes : List AttributeDefinition) :
    shape.Entries fieldForm (toRecord { reservedWords := none, attributes }) [.attributes] false []
      [.closeObject] := by
  refine .done false fun key hkey a ha => ?_
  cases key with
  | attributes => simp at hkey
  | reservedWords => exact (Option.some.inj ha).symm

def reorderedText : String :=
  "\x7b\"attributes\" : [\x7b\"bits\":5,\n\"n\\u0061me\":\"toll\"\x7d]\x7d"

theorem reorderedText_presents :
    Definition.form.Presents { reservedWords := none, attributes := [toll] } [] reorderedText := by
  have hattributes := (Definition.entries_done [toll]).field true Definition.Key.attributes (by simp)
    ⟨_, rfl, .element true toll_form (.done false)⟩
  have hname : StringBody.Spells "name".toList "n\\u0061me".toList :=
    .plain (by decide) (by decide) (by decide)
      (.unit ⟨'0', '0', '6', '1', rfl, rfl⟩ rfl rfl
        (.plain (by decide) (by decide) (by decide)
          (.plain (by decide) (by decide) (by decide) .nil)))
  have htext : reorderedText.toList =
      '\x7b' :: (stringText "attributes" ++ ' ' :: ':' :: ' ' :: '[' :: '\x7b' ::
        (stringText "bits" ++ ':' :: (integerText 5 ++ ',' :: '\n' :: '"' ::
          ("n\\u0061me".toList ++ '"' :: ':' ::
            (stringText "toll" ++ ['\x7d', ']', '\x7d']))))) := by cbv
  refine ⟨_, ⟨_, rfl, hattributes⟩, ?_⟩
  rw [htext]
  exact .mark rfl (.stringText "attributes" (.blank (by decide) (.mark rfl (.blank (by decide)
    (.mark rfl (.mark rfl (.stringText "bits" (.mark rfl (.integerText (by decide)
      (endsNumeral_cons (by decide) _) (.mark rfl (.blank (by decide) (.string hname (.mark rfl
        (.stringText "toll" (.mark rfl (.mark rfl (.mark rfl .nil)))))))))))))))))

def foreignText : String :=
  "\x7b\"hue\":[null],\"attributes\":[]\x7d"

theorem foreignText_presents :
    Definition.form.Presents { reservedWords := none, attributes := [] }
      [.foreign "hue" ["reserved_words", "attributes"]] foreignText := by
  have hattributes := (Definition.entries_done []).field false Definition.Key.attributes (by simp)
    ⟨_, rfl, .done true⟩
  have hhue := hattributes.foreign true "hue" (by decide)
    (.array (.element true .null (.closeArray false)))
  have htext : foreignText.toList = '\x7b' :: (stringText "hue" ++ ':' :: '[' ::
      (['n', 'u', 'l', 'l'] ++ ']' :: ',' ::
        (stringText "attributes" ++ [':', '[', ']', '\x7d']))) := by cbv
  refine ⟨_, ⟨_, rfl, hhue⟩, ?_⟩
  rw [htext]
  exact .mark rfl (.stringText "hue" (.mark rfl (.mark rfl (.word rfl (.mark rfl (.mark rfl
    (.stringText "attributes" (.mark rfl (.mark rfl (.mark rfl (.mark rfl .nil)))))))))))

def emptySnapshot : Snapshot where
  bytesPerEdge := 4
  attributes := []

def notedText : String :=
  "\x7b\"note\":[\x7b\"\":-1.5e3\x7d],\"attributes\":[],\"bytes_per_edge\":4\x7d"

theorem allDigits_singleton {c : Char} (h : c.isDigit = true) : AllDigits [c] :=
  ⟨List.cons_ne_nil _ _, List.forall_mem_singleton.mpr h⟩

/-- The number -1.5e3. -/
def noteNumeral : NumeralText where
  negative := true
  whole := ['1']
  fraction := ['5']
  exponent := some ⟨'e', [], ['3'], .inl rfl, .inl rfl, allDigits_singleton rfl⟩
  whole_allDigits := allDigits_singleton rfl
  whole_eq_zero h := by simp at h
  fraction_allDigits _ := allDigits_singleton rfl

theorem notedText_presents :
    Snapshot.form.Presents emptySnapshot [.foreign "note" ["bytes_per_edge", "attributes"]]
      notedText := by
  have hdefault : ∀ key ∉ [Snapshot.Key.bytesPerEdge, .attributes],
      ∀ a ∈ (Snapshot.shape.field key).default?, a = emptySnapshot.toRecord key := by
    intro key hkey
    cases key <;> simp at hkey
  have hdone : Snapshot.shape.Entries Snapshot.fieldForm emptySnapshot.toRecord
      [.bytesPerEdge, .attributes] false [] [.closeObject] := .done false hdefault
  have hbytes := hdone.field false Snapshot.Key.bytesPerEdge (by simp) ⟨rfl, rfl⟩
  have hattributes := hbytes.field false Snapshot.Key.attributes (by simp) ⟨_, rfl, .done true⟩
  have hnote := hattributes.foreign true "note" (by decide)
    (.array (.element true (.object (.entry true (.ok "") (.number noteNumeral.numeral)
      (.closeObject false))) (.closeArray false)))
  have htext : notedText.toList = '\x7b' :: (stringText "note" ++ ':' :: '[' :: '\x7b' ::
      (stringText "" ++ ':' :: (noteNumeral.chars ++ '\x7d' :: ']' :: ',' ::
        (stringText "attributes" ++ ':' :: '[' :: ']' :: ',' ::
          (stringText "bytes_per_edge" ++ ':' :: (integerText 4 ++ ['\x7d'])))))) := by cbv
  refine ⟨_, ⟨_, rfl, hnote⟩, ?_⟩
  rw [htext]
  exact .mark rfl (.stringText "note" (.mark rfl (.mark rfl (.mark rfl (.stringText "" (.mark rfl
    (.numeral noteNumeral (endsNumeral_cons (by decide) _) (.mark rfl (.mark rfl (.mark rfl
      (.stringText "attributes" (.mark rfl (.mark rfl (.mark rfl (.mark rfl
        (.stringText "bytes_per_edge" (.mark rfl (.integerText (by decide)
          (endsNumeral_cons (by decide) _) (.mark rfl .nil)))))))))))))))))))

def shortText : String :=
  "\x7b\"note\":null,\"attributes\":[]\x7d"

theorem shortText_presents :
    Snapshot.form.Presents emptySnapshot
      [.foreign "note" ["bytes_per_edge", "attributes"], .missing "bytes_per_edge"] shortText := by
  have hdefault : ∀ key ∉ [Snapshot.Key.attributes],
      ∀ a ∈ (Snapshot.shape.field key).default?, a = emptySnapshot.toRecord key := by
    intro key _ a ha
    cases key <;> cases ha
  have hdone : Snapshot.shape.Entries Snapshot.fieldForm emptySnapshot.toRecord [.attributes]
      false [.missing "bytes_per_edge"] [.closeObject] := .done false hdefault
  have hattributes := hdone.field false Snapshot.Key.attributes (by simp) ⟨_, rfl, .done true⟩
  have hnote := hattributes.foreign true "note" (by decide) .null
  have htext : shortText.toList = '\x7b' :: (stringText "note" ++ ':' ::
      (['n', 'u', 'l', 'l'] ++ ',' :: (stringText "attributes" ++ [':', '[', ']', '\x7d']))) := by
    cbv
  refine ⟨_, ⟨_, rfl, hnote⟩, ?_⟩
  rw [htext]
  exact .mark rfl (.stringText "note" (.mark rfl (.word rfl (.mark rfl (.stringText "attributes"
    (.mark rfl (.mark rfl (.mark rfl (.mark rfl .nil)))))))))

theorem presentations_are_judged_samples :
    (Definition.form.Presents { reservedWords := none, attributes := [toll] } [] reorderedText ∧
      Definition.parse reorderedText = .ok { reservedWords := none, attributes := [toll] }) ∧
    (Definition.form.Presents { reservedWords := none, attributes := [] }
        [.foreign "hue" ["reserved_words", "attributes"]] foreignText ∧
      Definition.parse foreignText =
        .error (.unknownField "hue" ["reserved_words", "attributes"])) ∧
    (Snapshot.form.Presents emptySnapshot [.foreign "note" ["bytes_per_edge", "attributes"]]
        notedText ∧ Snapshot.parse notedText = .ok emptySnapshot) ∧
    Snapshot.form.Presents emptySnapshot
        [.foreign "note" ["bytes_per_edge", "attributes"], .missing "bytes_per_edge"] shortText ∧
      Snapshot.parse shortText = .error (.missingField "bytes_per_edge") := by
  obtain ⟨hplain, hclosed, hopen, hshort⟩ := presentations_are_judged
  have hnote : ∀ oddity ∈ [Oddity.foreign "note" ["bytes_per_edge", "attributes"]],
      oddity.IsForeign := by
    intro oddity hmem
    exact ⟨_, _, List.mem_singleton.mp hmem⟩
  have hmissing : ¬ (Oddity.missing "bytes_per_edge").IsForeign := by
    rintro ⟨name, known, heq⟩
    cases heq
  exact ⟨⟨reorderedText_presents, (hplain _).2 _ reorderedText_presents⟩,
    ⟨foreignText_presents, hclosed _ _ _ _ foreignText_presents⟩,
    ⟨notedText_presents, (hopen _).2 _ _ notedText_presents hnote⟩,
    shortText_presents, hshort _ _ [] _ _ shortText_presents hnote hmissing⟩

end PackedEdges
