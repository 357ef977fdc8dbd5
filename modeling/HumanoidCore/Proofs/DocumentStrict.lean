import HumanoidCore.Proofs.JsonFields
import HumanoidCore.Proofs.MissionLoaded
import HumanoidCore.Proofs.YamlFields

namespace HumanoidCore.Missions
open Documents

section Yaml
variable {convert : Convert}

theorem mission_rounds {b fuel : Nat} {m m' : Mission} {lines rest : List YamlLine}
    (h : readLines (leavesMission b) (missionRound convert b) fuel m lines = .ok (m', rest)) :
    rest = [] := by
  induction fuel generalizing m lines with
  | zero =>
    cases lines with
    | nil => exact (Prod.mk.inj (Except.ok.inj h)).2.symm
    | cons line lines => simp [readLines] at h
  | succ fuel ih =>
    cases lines with
    | nil => exact (Prod.mk.inj (Except.ok.inj h)).2.symm
    | cons line lines =>
      simp only [readLines, bind_ok] at h
      obtain ⟨leaves, hl, h⟩ := h
      obtain ⟨rfl, -⟩ := leaves_mission hl
      simp only [Bool.false_eq_true, if_false, bind_ok] at h
      obtain ⟨_, -, h⟩ := h
      exact ih h

/-- All the lines of a mission are its fields. -/
theorem read_mission {b : Nat} {m : Mission} {lines rest : List YamlLine}
    (h : readWhile (leavesMission b) (missionRound convert b) {} lines = .ok (m, rest)) :
    (∀ l ∈ lines, b ≤ l.indent) ∧ Chain MissionField {} (blockFields (outline lines)) m := by
  obtain ⟨inner, ⟨block, hl, rfl, hb⟩, hc⟩ := read_mapping (fun m x m' => MissionField m x.field m')
    (fun line leaves hl => by
      obtain ⟨rfl, hi⟩ := leaves_mission hl
      exact hi) (fun _ _ _ _ _ hr => read_mission_field hr) h
  rw [mission_rounds h, List.append_nil] at hl
  subst hl
  refine ⟨hb, ?_⟩
  rw [block_fields]
  exact chain_map hc

theorem no_mission_field {fields : List (String × JsonValue)}
    (h : ∀ f ∈ fields, fieldInSchema .mission f = true) :
    has (.object fields) "mission" = false ∧ fields.lookup "mission" = none := by
  have hn : ∀ f ∈ fields, f.1 ≠ "mission" := by
    intro f hf he
    have hs := h f hf
    obtain ⟨name, value⟩ := f
    subst he
    simp [fieldInSchema, membersInSchema, Place.field, Place.fields, List.lookup_cons,
      List.lookup_nil] at hs
  refine ⟨?_, List.lookup_eq_none_iff.mpr (fun f hf => bne_iff_ne.mpr (Ne.symm (hn f hf)))⟩
  rw [← Bool.not_eq_true, has, List.any_eq_true]
  rintro ⟨f, hf, he⟩
  exact hn f hf (of_decide_eq_true he)

/-- A mission under `mission:` is the only field of the document. -/
theorem wrapped_fields {first : YamlLine} {lines : List YamlLine}
    (hfirst : first.indent = 0 ∧ first.content = "mission:".toList)
    (hb : ∀ l ∈ lines, 2 ≤ l.indent)
    (hs : ∀ f ∈ blockFields (outline lines), fieldInSchema .mission f = true) :
    blockFields (outline (first :: lines)) =
        [("mission", .object (blockFields (outline lines)))] ∧
      inSchema .mission (.object (blockFields (outline lines))) = true := by
  have ho : outline (first :: lines) = [.mk first (outline lines)] := by
    have := @outline_cons first lines []
      (fun l hl => by have := hb l hl; omega) (by simp [Shallow])
    simpa [outline] using this
  have hv : valueIn first.content = [] := by
    rw [hfirst.2]
    decide
  obtain ⟨hf, hin⟩ := @mapping_value first .mission (outline lines) hv (by
    intro e he
    refine hs _ ?_
    rw [block_fields]
    exact List.mem_map_of_mem he)
  have hn : nameIn first.content = "mission" := by
    rw [hfirst.2]
    decide
  refine ⟨?_, hin⟩
  rw [ho, block_fields, List.map_cons, List.map_nil, hf, hn]

theorem yaml_read {document : Text} {m : Mission} (h : missionFromYaml convert document = .ok m) :
    ∃ root, documentTree .yaml convert document = .ok root ∧ documentInSchema root = true ∧
      ReadMission (missionPart root) m := by
  simp only [missionFromYaml, bind_ok] at h
  obtain ⟨lines, hlines, h⟩ := h
  split at h
  · simp at h
  · simp only [bind_ok] at h
    obtain ⟨⟨_, rest⟩, hr, he⟩ := h
    obtain rfl := Except.ok.inj he
    obtain ⟨hb, hc⟩ := read_mission hr
    have hs := chain_all hc (fun _ _ _ c => c.schema)
    have read := MissionField.read hc
    refine ⟨.object (blockFields (outline lines)), ?_, ?_⟩
    · simp only [documentTree, hlines]
      rfl
    · cases lines with
      | nil => exact absurd rfl ‹_›
      | cons first lines =>
        simp only [missionLines] at hb hc hs read
        split at hc
        · rename_i hfirst
          simp only [if_pos hfirst] at hb hs read
          obtain ⟨hw, hin⟩ := wrapped_fields hfirst hb hs
          rw [hw]
          refine ⟨?_, ?_⟩
          · simpa [documentInSchema, has, members] using hin
          · simpa [missionPart, members] using read
        · rename_i hfirst
          simp only [if_neg hfirst] at hs read
          obtain ⟨hm, hl⟩ := no_mission_field hs
          refine ⟨?_, ?_⟩
          · rw [documentInSchema, hm]
            simp only [Bool.false_eq_true, if_false, inSchema, Bool.or_eq_true]
            exact .inr ((members_in_schema _).mpr hs)
          · simp only [missionPart, members, hl]
            exact read

end Yaml

/-- What a format leaves to the author: JSON the names of the fields, YAML that no field is
repeated, that there is a description and that commands have a type. -/
def LeftToAuthor (format : Format) (root : JsonValue) : Prop :=
  match format with
  | .json => documentInSchema root = true
  | .yaml => distinct root = true ∧ Given (missionPart root)

/-- A document that is accepted is strict exactly where its author saw to what the reader
of its format does not check. -/
theorem accepted_strict_iff (format : Format) (convert : Convert) (document : Text)
    (accepted : (load format convert document).success = true) :
    ∃ root, documentTree format convert document = .ok root ∧
      (Strict root ↔ LeftToAuthor format root) := by
  cases format with
  | json =>
    obtain ⟨mission, read, valid, -⟩ := loaded accepted
    simp only [bind_ok] at read
    obtain ⟨root, hparse, read⟩ := read
    obtain ⟨hkept, hdistinct⟩ := parse_kept (by simp [missionDialect]) hparse
    have checked := mission_checked valid
    have required := (required_iff (json_read_mission hdistinct read).1 checked).mpr
      (json_given hdistinct read checked)
    exact ⟨root, hkept, fun strict => strict.schema, fun schema => ⟨schema, hdistinct, required⟩⟩
  | yaml =>
    obtain ⟨mission, read, valid, -⟩ := loaded accepted
    obtain ⟨root, htree, schema, hread⟩ := yaml_read read
    have required := required_iff hread (mission_checked valid)
    exact ⟨root, htree,
      fun strict => ⟨strict.distinct, required.mp strict.required⟩,
      fun left => ⟨schema, left.1, required.mpr left.2⟩⟩

def strictDocument : Text :=
  ("mission:\n  id: 1\n  name: Rise\n  description: Get up\n  version: v1\n  author: a\n" ++
    "  steps:\n    - id: 1\n      name: Stand\n      command:\n        id: 7\n" ++
    "        type: Stand\n").toList

theorem accepted_strict_iff_rise :
    ∃ root, documentTree .yaml smallIntegers strictDocument = .ok root ∧
      (Strict root ↔ LeftToAuthor .yaml root) :=
  accepted_strict_iff .yaml smallIntegers strictDocument (by
    have hchars : strictDocument = _ :=
      chars_append (chars_append String.toList_ofList String.toList_ofList) String.toList_ofList
    rw [hchars]
    decide +kernel)

/-- The timeout of the step is misspelt. -/
def misspeltDocument : Text :=
  ("\x7b\"id\":1,\"name\":\"m\",\"description\":\"d\",\"version\":\"v\",\"author\":\"a\"," ++
    "\"steps\":[\x7b\"id\":1,\"name\":\"s\",\"skip\":true,\"timeuot_ms\":5\x7d]\x7d").toList

/-- The identifier of the command stands twice. -/
def repeatedDocument : Text :=
  ("id: 1\nname: m\ndescription: d\nversion: v\nauthor: a\nsteps:\n  - id: 1\n    name: s\n" ++
    "    command:\n      id: 7\n      id: 8\n      type: Stand\n").toList

/-- There is no description, and the command has no type. -/
def sparseDocument : Text :=
  ("id: 1\nname: m\nversion: v\nauthor: a\nsteps:\n  - id: 1\n    name: s\n" ++
    "    command:\n      id: 7\n").toList

def AcceptedNotStrict (format : Format) (document : Text) : Prop :=
  (load format smallIntegers document).success = true ∧
    ∀ root, documentTree format smallIntegers document = .ok root → ¬Strict root

/-- What one computation finds in the tree of a document. -/
theorem not_strict_of {format : Format} {document : Text} {p : JsonValue → Bool}
    (success : (load format smallIntegers document).success = true)
    (found : (documentTree format smallIntegers document).toOption.any p = true)
    (breaks : ∀ root, p root = true → ¬Strict root) : AcceptedNotStrict format document := by
  refine ⟨success, fun root hroot => breaks root ?_⟩
  rw [hroot] at found
  exact found

theorem accepted_not_strict :
    AcceptedNotStrict .json misspeltDocument ∧ AcceptedNotStrict .yaml repeatedDocument ∧
      AcceptedNotStrict .yaml sparseDocument := by
  have hmisspelt : misspeltDocument = _ := chars_append String.toList_ofList String.toList_ofList
  have hrepeated : repeatedDocument = _ := chars_append String.toList_ofList String.toList_ofList
  have hsparse : sparseDocument = _ := chars_append String.toList_ofList String.toList_ofList
  rw [hmisspelt, hrepeated, hsparse]
  refine ⟨?_, ?_, ?_⟩
  · exact not_strict_of (p := fun root => !documentInSchema root) (by decide +kernel)
      (by decide +kernel) (fun root h strict => by simp [strict.schema] at h)
  · exact not_strict_of (p := fun root => !distinct root) (by decide +kernel)
      (by decide +kernel) (fun root h strict => by simp [strict.distinct] at h)
  · exact not_strict_of (p := fun root => !has (missionPart root) "description")
      (by decide +kernel) (by decide +kernel)
      (fun root h strict => by simp [strict.required.fields "description" (by simp)] at h)

end HumanoidCore.Missions
