import PackedEdges.CommandLine.Run
import PackedEdges.Proofs.DefinitionFaults
import PackedEdges.Proofs.NameGrammar

/-! The verdicts on names. What the check of names prints for a name is what decides whether an
attribute of this name can be defined, on its own or in a schema definition. -/

namespace PackedEdges

open Report

def acceptingLine (name : String) : String :=
  "✓ " ++ name

def reservedLine (name : String) : String :=
  "✗ " ++ name ++ ": reserved word"

def malformedLine (name : String) : String :=
  "✗ " ++ name ++ ": not a valid attribute name"

theorem lines_distinct (name : String) :
    acceptingLine name ≠ reservedLine name ∧ acceptingLine name ≠ malformedLine name ∧
      reservedLine name ≠ malformedLine name := by
  simp [acceptingLine, reservedLine, malformedLine, ← String.toList_inj]

section

variable {rules : NameRules} {name : String}

theorem accepts_iff : rules.accepts name = true ↔
    isIdentifier name = true ∧ name ∉ rules.reserved := by
  simp [NameRules.accepts, NameRules.isReserved]

/-- A reserved word is reported as such, whatever else is wrong with it. -/
theorem nameCheck_cases (rules : NameRules) (name : String) :
    (rules.accepts name = true ∧ name ∉ rules.reserved ∧
        nameCheck rules name = (true, acceptingLine name)) ∨
      (rules.accepts name = false ∧ name ∈ rules.reserved ∧
        nameCheck rules name = (false, reservedLine name)) ∨
      (rules.accepts name = false ∧ name ∉ rules.reserved ∧
        nameCheck rules name = (false, malformedLine name)) := by
  have hreserved : rules.isReserved name = true ↔ name ∈ rules.reserved := by
    simp [NameRules.isReserved]
  cases haccepts : rules.accepts name with
  | true => exact .inl ⟨rfl, (accepts_iff.mp haccepts).2, by rw [nameCheck, haccepts]; rfl⟩
  | false =>
    rw [nameCheck, haccepts, if_neg (by simp)]
    by_cases hmem : name ∈ rules.reserved
    · exact .inr (.inl ⟨rfl, hmem, if_pos (hreserved.mpr hmem)⟩)
    · exact .inr (.inr ⟨rfl, hmem, if_neg (mt hreserved.mp hmem)⟩)

theorem verdict_eq (rules : NameRules) (name : String) :
    (nameCheck rules name).1 = rules.accepts name := by
  rcases nameCheck_cases rules name with ⟨haccepts, _, h⟩ | ⟨haccepts, _, h⟩ | ⟨haccepts, _, h⟩
  · rw [h, haccepts]
  · rw [h, haccepts]
  · rw [h, haccepts]

theorem line_eq_acceptingLine_iff :
    (nameCheck rules name).2 = acceptingLine name ↔ rules.accepts name = true := by
  obtain ⟨hreserved, hmalformed, _⟩ := lines_distinct name
  rcases nameCheck_cases rules name with ⟨haccepts, _, h⟩ | ⟨haccepts, _, h⟩ | ⟨haccepts, _, h⟩
  · simp [h, haccepts]
  · simp [h, haccepts, hreserved.symm]
  · simp [h, haccepts, hmalformed.symm]

theorem line_eq_reservedLine_iff :
    (nameCheck rules name).2 = reservedLine name ↔ name ∈ rules.reserved := by
  obtain ⟨haccepting, _, hmalformed⟩ := lines_distinct name
  rcases nameCheck_cases rules name with ⟨_, hmem, h⟩ | ⟨_, hmem, h⟩ | ⟨_, hmem, h⟩
  · simp [h, hmem, haccepting]
  · simp [h, hmem]
  · simp [h, hmem, hmalformed.symm]

end

namespace CommandLine

/-- What has been printed, and whether all names so far are valid, after one more name. -/
def checkNext (rules : NameRules) (state : Bool × String) (name : String) : Bool × String :=
  let (valid, line) := nameCheck rules name
  (state.1 && valid, state.2 ++ (line ++ "\n"))

theorem foldl_checkNext (rules : NameRules) (names : List String) (valid : Bool)
    (printed : String) : names.foldl (checkNext rules) (valid, printed) =
      (valid && names.all rules.accepts,
        printed ++ String.join (names.map fun name => (nameCheck rules name).2 ++ "\n")) := by
  induction names generalizing valid printed with
  | nil => simp
  | cons name names ih => simp [checkNext, ih, verdict_eq, Bool.and_assoc, String.append_assoc]

theorem checkNames_eq (rules : NameRules) (names : List String) :
    checkNames rules names =
      let (valid, printed) := names.foldl (checkNext rules) (true, "")
      if valid then .success printed [] else .failure printed [] "invalid attribute names" := by
  have hall : ((names.map (nameCheck rules)).all fun check => check.1) =
      names.all rules.accepts := by
    rw [List.all_map]
    congr 1
    funext name
    exact verdict_eq rules name
  simp only [checkNames, foldl_checkNext, List.map_map, hall, Bool.true_and]
  simp [Function.comp_def]

end CommandLine

/-- The letter `a`, twice and as often again. -/
def plainName (n : Nat) : String :=
  String.ofList ('a' :: 'a' :: List.replicate n 'a')

theorem isIdentifier_plainName (n : Nat) : isIdentifier (plainName n) = true := by
  have hletter : 'a' ∈ letters := by
    rw [mem_letters_iff]
    decide
  have hall : ∀ c ∈ 'a' :: List.replicate n 'a', c = 'a' := by simp
  refine (isIdentifier_of_toList String.toList_ofList).mpr ⟨hletter, by simp, ?_, ?_, ?_⟩
  · simp [StartsDerived]
  · intro c hc
    rw [hall c hc]
    exact .inl (.inl hletter)
  · rw [List.count_eq_zero.mpr fun hmem => absurd (hall _ hmem) (by decide)]
    exact Nat.zero_le 1

theorem plainName_injective : Function.Injective plainName := by
  intro n m h
  simpa [plainName] using congrArg String.length h

/-- No list of reserved words leaves only one name. -/
theorem exists_other_name (rules : NameRules) (name : String) :
    ∃ other, other ≠ name ∧ rules.accepts other = true := by
  obtain ⟨other, ⟨n, rfl⟩, hfresh⟩ := (Set.infinite_range_of_injective
    plainName_injective).exists_notMem_finset (name :: rules.reserved).toFinset
  simp only [List.mem_toFinset, List.mem_cons, not_or] at hfresh
  exact ⟨_, hfresh.1, accepts_iff.mpr ⟨isIdentifier_plainName n, hfresh.2⟩⟩

/-- The settings define an attribute of some other name. -/
def SoundElsewhere (rules : NameRules) (name : String) (settings : Settings) : Prop :=
  ∃ other, other ≠ name ∧ ∃ a, Attribute.define? rules other settings = .ok a

theorem soundElsewhere_iff {rules : NameRules} {name : String} {settings : Settings} :
    SoundElsewhere rules name settings ↔ settings.Acceptable := by
  constructor
  · rintro ⟨other, _, a, ha⟩
    exact (Attribute.define?_eq_ok_iff.mp ha).2.1
  · intro h
    obtain ⟨other, hne, haccepts⟩ := exists_other_name rules name
    exact ⟨other, hne, _, Attribute.define?_eq_ok_iff.mpr ⟨haccepts, h, rfl⟩⟩

theorem acceptable_oneBit : ({ bits := 1 } : Settings).Acceptable :=
  Attribute.settingsFault?_eq_none_iff.mp (by decide)

theorem exists_define_iff {rules : NameRules} {name : String} {settings : Settings}
    (h : settings.Acceptable) :
    (∃ a, Attribute.define? rules name settings = .ok a) ↔ rules.accepts name = true := by
  simp [Attribute.define?_eq_ok_iff, h]

/-- The definition of a schema with one attribute. -/
def Definition.single (reserved : Option (List String)) (name : String) (settings : Settings) :
    Definition where
  reservedWords := reserved
  attributes := [{ name, settings }]

theorem Definition.exists_build_single_iff {reserved : Option (List String)} {name : String}
    {settings : Settings} :
    (∃ schema, (single reserved name settings).build = .done schema) ↔
      ∃ a, Attribute.define? (single reserved name settings).rules name settings = .ok a := by
  constructor
  · rintro ⟨schema, hbuild⟩
    obtain ⟨builder, _, hcollected⟩ := collected_of_build hbuild
    exact hcollected.faultless.exists_define (d := { name, settings }) List.mem_cons_self
  · rintro ⟨a, ha⟩
    have hfaultless : Faultless (single reserved name settings).rules
        (single reserved name settings).attributes := by
      refine ⟨fun hd => ?_, List.nodup_singleton name⟩
      rw [List.mem_singleton.mp hd]
      exact ⟨a, ha⟩
    have hwidth : (single reserved name settings).acceptedWidth = a.storedWidth := by
      have hlist : (single reserved name settings).attributes = [{ name, settings }] := rfl
      simp [acceptedWidth, hlist, ha, Except.toOption]
    have hbits : a.bits.toNat ≤ 32 := (Attribute.Defined.sound ⟨_, _, _, ha⟩).bits_le
    have hroom : a.storedWidth < UInt32.size := by
      simp only [Attribute.storedWidth, UInt32.size]
      split <;> omega
    obtain ⟨builder, hbuilder, hcollected⟩ := exists_collected hfaultless
    rw [build, hbuilder]
    exact hcollected.exists_build (by rwa [sum_storedWidth_eq hcollected, hwidth])

open CommandLine

/-- The rules of a definition or a check with these reserved words, or with the usual ones. -/
def rulesOf (reserved : Option (List String)) : NameRules where
  reserved := reserved.getD defaultReservedWords

theorem rules_single (reserved : Option (List String)) (name : String) (settings : Settings) :
    (Definition.single reserved name settings).rules = rulesOf reserved := by
  cases reserved <;> rfl

/-- A check prints one line for each name, in their order, and it succeeds if all of them are valid.
A name gets the accepting line just when each settings that define any other attribute define the
one of this name, and then a definition of this one attribute builds a schema. The other names are
told to be reserved words just when they are. -/
theorem name_checks_agree (reserved : Option (List String)) :
    (∀ names : List String,
      let ending := checkNames (rulesOf reserved) names
      (∀ (m : Type → Type) [Monad m] (files : FileSystem m),
        (Request.checkName names reserved).run files = pure ending) ∧
      ending.output =
        String.join (names.map fun name => (nameCheck (rulesOf reserved) name).2 ++ "\n") ∧
      names.foldl (checkNext (rulesOf reserved)) (true, "") =
        (ending.exitCode == 0, ending.output) ∧
      ending.exitCode =
        if ∀ name ∈ names, (rulesOf reserved).accepts name = true then 0 else 1) ∧
    ∀ name : String,
      let accepting := (nameCheck (rulesOf reserved) name).2 = acceptingLine name
      (accepting ↔ (rulesOf reserved).accepts name = true) ∧
      (accepting ↔ ∀ settings, SoundElsewhere (rulesOf reserved) name settings →
        ∃ a, Attribute.define? (rulesOf reserved) name settings = .ok a) ∧
      (accepting ↔ ∀ settings, SoundElsewhere (rulesOf reserved) name settings →
        ∃ schema, (Definition.single reserved name settings).build = .done schema) ∧
      (¬ accepting → ((nameCheck (rulesOf reserved) name).2 = reservedLine name ↔
        name ∈ (rulesOf reserved).reserved)) := by
  refine ⟨fun names => ⟨fun m _ files => rfl, ?_⟩, fun name => ?_⟩
  · rw [checkNames_eq, foldl_checkNext]
    by_cases hall : ∀ name ∈ names, (rulesOf reserved).accepts name = true
    · have hvalid : names.all (rulesOf reserved).accepts = true := List.all_eq_true.mpr hall
      rw [if_pos hall]
      simp [hvalid, Ending.success]
    · have hvalid : names.all (rulesOf reserved).accepts = false := by
        rw [Bool.eq_false_iff, ne_eq, List.all_eq_true]
        exact hall
      rw [if_neg hall]
      simp [hvalid, Ending.failure]
  · have hdefines : (∀ settings, SoundElsewhere (rulesOf reserved) name settings →
        ∃ a, Attribute.define? (rulesOf reserved) name settings = .ok a) ↔
          (rulesOf reserved).accepts name = true := by
      constructor
      · intro h
        exact (exists_define_iff acceptable_oneBit).mp (h _ (soundElsewhere_iff.mpr acceptable_oneBit))
      · intro haccepts settings hsound
        exact (exists_define_iff (soundElsewhere_iff.mp hsound)).mpr haccepts
    simp only [line_eq_acceptingLine_iff, Definition.exists_build_single_iff, rules_single, hdefines,
      line_eq_reservedLine_iff, iff_self, implies_true, and_self]

/-- A word that is reserved and no identifier, and later names that are checked all the same. -/
theorem name_checks_agree_mixed :
    let ending := checkNames (rulesOf (some ["Lane", "speed"])) ["Lane", "toll", "_x"]
    (Request.checkName ["Lane", "toll", "_x"] (some ["Lane", "speed"])).run Disk.fileSystem =
        pure ending ∧ ending.exitCode = 1 ∧
      ending.output = "✗ Lane: reserved word\n✓ toll\n✗ _x: not a valid attribute name\n" ∧
      (nameCheck (rulesOf (some ["Lane", "speed"])) "Lane").2 ≠ acceptingLine "Lane" ∧
      (nameCheck (rulesOf (some ["Lane", "speed"])) "Lane").2 = reservedLine "Lane" ∧
      SoundElsewhere (rulesOf (some ["Lane", "speed"])) "toll" { bits := 1 } ∧
      ∃ schema, (Definition.single (some ["Lane", "speed"]) "toll" { bits := 1 }).build =
        .done schema := by
  intro ending
  obtain ⟨hprints, hverdicts⟩ := name_checks_agree (some ["Lane", "speed"])
  obtain ⟨hrun, houtput, _, hcode⟩ := hprints ["Lane", "toll", "_x"]
  have hrefused : (nameCheck (rulesOf (some ["Lane", "speed"])) "Lane").2 ≠ acceptingLine "Lane" := by
    rw [ne_eq, (hverdicts "Lane").1]
    exact Bool.eq_false_iff.mp (by cbv)
  have hsound : SoundElsewhere (rulesOf (some ["Lane", "speed"])) "toll" { bits := 1 } :=
    soundElsewhere_iff.mpr acceptable_oneBit
  have haccepted : (nameCheck (rulesOf (some ["Lane", "speed"])) "toll").2 = acceptingLine "toll" :=
    (hverdicts "toll").1.mpr (by cbv)
  refine ⟨hrun _ _, hcode.trans (by cbv), houtput.trans (by cbv), hrefused, ?_, hsound, ?_⟩
  · exact ((hverdicts "Lane").2.2.2 hrefused).mpr (by simp [rulesOf])
  · exact (hverdicts "toll").2.2.1.mp haccepted _ hsound

end PackedEdges
