import HumanoidCore.MissionLoader
import HumanoidCore.Proofs.TreeIndex
import HumanoidCore.Proofs.YamlIndex

namespace HumanoidCore.Missions
open Core Documents Lib

section Json
variable {α β : Type} {value : JsonValue} {key : String} {object : JsonObject}

theorem then_raises {x : Reading α} {f : α → Reading β} (h : Raises IsParseError x)
    (hf : ∀ a, Raises IsParseError (f a)) : Raises IsParseError (x >>= f) :=
  h.bind fun a _ => hf a

theorem object_raises : Raises IsParseError (asObject value key) := by
  unfold asObject
  split
  · exact raises_ok _ _
  · exact fail_raises _

theorem array_raises : Raises IsParseError (asArray value key) := by
  unfold asArray
  split
  · exact raises_ok _ _
  · exact fail_raises _

theorem required_raises : Raises IsParseError (required object key) := by
  unfold required
  split
  · exact raises_ok _ _
  · exact fail_raises _

theorem present_raises {x : α} {read : JsonValue → Reading α}
    (h : ∀ value, Raises IsParseError (read value)) :
    Raises IsParseError (ifPresent object key x read) := by
  unfold ifPresent
  split
  · exact h _
  · exact raises_ok _ _

theorem json_string_raises : Raises IsParseError (jsonString value key) := by
  unfold jsonString
  split
  · exact raises_ok _ _
  · exact fail_raises _

theorem json_uint64_raises : Raises IsParseError (jsonUint64 value key) := by
  unfold jsonUint64
  split
  · split
    · exact fail_raises _
    · exact raises_ok _ _
  · exact fail_raises _

theorem json_uint32_raises : Raises IsParseError (jsonUint32 value key) := by
  refine then_raises json_uint64_raises fun number => ?_
  split
  · exact fail_raises _
  · exact raises_ok _ _

theorem json_int64_raises : Raises IsParseError (jsonInt64 value key) := by
  unfold jsonInt64
  split
  · split
    · exact raises_ok _ _
    · exact fail_raises _
  · exact fail_raises _

theorem json_bool_raises : Raises IsParseError (jsonBool value key) := by
  unfold jsonBool
  split
  · exact raises_ok _ _
  · exact fail_raises _

theorem fold_raises {f : β → α → Reading β} (h : ∀ b a, Raises IsParseError (f b a))
    (items : List α) (b : β) : Raises IsParseError (items.foldlM f b) := by
  induction items generalizing b with
  | nil => exact raises_ok _ _
  | cons item items ih => exact then_raises (h b item) fun b' => ih b'

theorem map_raises {f : α → Reading β} (h : ∀ a, Raises IsParseError (f a)) (items : List α) :
    Raises IsParseError (items.mapM f) := by
  induction items with
  | nil => exact raises_ok _ _
  | cons item items ih =>
    rw [List.mapM_cons]
    exact then_raises (h item) fun b => then_raises ih fun bs => raises_ok _ _

theorem metadata_raises : Raises IsParseError (metadataFromJson value key) :=
  then_raises object_raises fun _ =>
    fold_raises (fun _ _ => stored_raises json_string_raises _) _ _

theorem json_payload_raises : Raises IsParseError (payloadFromJson value key) := by
  refine then_raises object_raises fun object => fold_raises (fun payload member => ?_) _ _
  split
  · exact raises_ok _ _
  · exact raises_ok _ _
  · exact raises_ok _ _
  · exact fail_raises _

theorem named_raises {σ : Type} {values : String → Option α} {what : String} (store : α → σ) :
    Raises IsParseError (do
      let name ← jsonString value key
      let a ← known (values name) (what ++ name)
      return store a) :=
  then_raises json_string_raises fun _ => stored_raises (known_raises _ _) store

theorem json_command_raises : Raises IsParseError (commandFromJson value) := by
  refine then_raises object_raises fun _ => ?_
  refine then_raises required_raises fun _ => then_raises json_uint64_raises fun _ => ?_
  refine then_raises required_raises fun _ => then_raises json_string_raises fun _ => ?_
  refine then_raises (known_raises _ _) fun _ => ?_
  refine then_raises (present_raises fun _ => named_raises _) fun _ => ?_
  refine then_raises (present_raises fun _ => stored_raises json_int64_raises _) fun _ => ?_
  refine then_raises (present_raises fun _ => stored_raises json_payload_raises _) fun _ => ?_
  exact present_raises fun _ => stored_raises metadata_raises _

theorem retry_policy_raises : Raises IsParseError (retryPolicyFromJson value) := by
  refine then_raises object_raises fun _ => ?_
  refine then_raises (present_raises fun _ => stored_raises json_uint32_raises _) fun _ => ?_
  refine then_raises (present_raises fun _ => stored_raises json_int64_raises _) fun _ => ?_
  refine then_raises (present_raises fun _ => stored_raises json_bool_raises _) fun _ => ?_
  exact present_raises fun _ => stored_raises json_bool_raises _

theorem loop_policy_raises : Raises IsParseError (loopPolicyFromJson value) :=
  then_raises object_raises fun _ => present_raises fun _ => stored_raises json_uint32_raises _

theorem timeout_policy_raises : Raises IsParseError (timeoutPolicyFromJson value) := by
  refine then_raises object_raises fun _ => ?_
  refine then_raises (present_raises fun _ => stored_raises json_int64_raises _) fun _ => ?_
  exact present_raises fun _ => stored_raises json_bool_raises _

theorem json_condition_raises : Raises IsParseError (conditionFromJson value) := by
  refine then_raises object_raises fun _ => ?_
  refine then_raises required_raises fun _ => then_raises json_uint64_raises fun _ => ?_
  refine then_raises required_raises fun _ => then_raises json_string_raises fun _ => ?_
  refine then_raises required_raises fun _ => then_raises json_string_raises fun _ => ?_
  refine then_raises (known_raises _ _) fun _ => ?_
  refine then_raises (present_raises fun _ => named_raises _) fun _ => ?_
  refine then_raises (present_raises fun value => ?_) fun _ => ?_
  · cases value with
    | number number => exact raises_ok _ _
    | bool b => exact raises_ok _ _
    | _ => exact fail_raises _
  refine then_raises (present_raises fun _ => stored_raises json_int64_raises _) fun _ => ?_
  refine then_raises (present_raises fun _ => named_raises _) fun _ => ?_
  refine then_raises (present_raises fun _ => named_raises _) fun _ => ?_
  exact present_raises fun _ => stored_raises metadata_raises _

theorem json_step_raises : Raises IsParseError (stepFromJson value) := by
  refine then_raises object_raises fun _ => ?_
  refine then_raises required_raises fun _ => then_raises json_uint64_raises fun _ => ?_
  refine then_raises required_raises fun _ => then_raises json_string_raises fun _ => ?_
  refine then_raises (present_raises fun _ => stored_raises json_command_raises _) fun _ => ?_
  refine then_raises (present_raises fun _ => stored_raises json_int64_raises _) fun _ => ?_
  refine then_raises (present_raises fun _ => stored_raises json_uint32_raises _) fun _ => ?_
  refine then_raises (present_raises fun _ => stored_raises retry_policy_raises _) fun _ => ?_
  refine then_raises (present_raises fun _ => stored_raises loop_policy_raises _) fun _ => ?_
  refine then_raises (present_raises fun _ => stored_raises timeout_policy_raises _) fun _ => ?_
  refine then_raises (present_raises fun _ => then_raises object_raises fun _ =>
    then_raises required_raises fun _ => stored_raises json_int64_raises _) fun _ => ?_
  refine then_raises (present_raises fun _ => then_raises object_raises fun _ =>
    then_raises required_raises fun _ => stored_raises json_int64_raises _) fun _ => ?_
  refine then_raises (present_raises fun _ => stored_raises json_bool_raises _) fun _ => ?_
  refine then_raises (present_raises fun _ => stored_raises json_bool_raises _) fun _ => ?_
  refine then_raises (present_raises fun _ => then_raises array_raises fun _ =>
    stored_raises (map_raises (fun _ => json_condition_raises) _) _) fun _ => ?_
  refine then_raises (present_raises fun _ => stored_raises json_bool_raises _) fun _ => ?_
  exact present_raises fun _ => stored_raises metadata_raises _

theorem json_mission_raises (root : JsonValue) : Raises IsParseError (missionFromJson root) := by
  refine then_raises (then_raises object_raises fun _ => present_raises fun _ => object_raises)
    fun _ => ?_
  refine then_raises required_raises fun _ => then_raises json_uint64_raises fun _ => ?_
  refine then_raises required_raises fun _ => then_raises json_string_raises fun _ => ?_
  refine then_raises required_raises fun _ => then_raises json_string_raises fun _ => ?_
  refine then_raises required_raises fun _ => then_raises json_string_raises fun _ => ?_
  refine then_raises required_raises fun _ => then_raises json_string_raises fun _ => ?_
  refine then_raises (present_raises fun _ => stored_raises metadata_raises _) fun _ => ?_
  refine then_raises required_raises fun _ => then_raises array_raises fun _ => ?_
  exact stored_raises (map_raises (fun _ => json_step_raises) _) _

end Json

end HumanoidCore.Missions

namespace HumanoidCore.BehaviorTrees
open Documents Lib Missions

theorem node_type_raises (object : JsonObject) : Raises IsParseError (nodeTypeFromJson object) := by
  refine then_raises required_raises fun _ => then_raises json_string_raises fun _ => ?_
  split
  · exact fail_raises _
  · exact raises_ok _ _

theorem node_raises (value : JsonValue) (name : String) :
    Raises IsParseError (nodeFromJson value name) := by
  induction value, name using nodeFromJson.induct with
  | case1 name object hchild hchildren =>
    rw [nodeFromJson]
    refine then_raises (node_type_raises object) fun type => ?_
    split
    case h_1 => exact fail_raises _
    case h_2 child found _ => exact stored_raises (hchild child found) _
    case h_3 elements _ found => exact stored_raises (map_raises (hchildren elements found) _) _
    case h_4 => exact fail_raises _
    case h_5 => exact raises_ok _ _
  | case2 value name hother =>
    unfold nodeFromJson
    split
    case h_1 object => exact absurd rfl (hother object)
    case h_2 => exact fail_raises _

theorem tree_raises (value : JsonValue) : Raises IsParseError (documentFromJson value) :=
  then_raises object_raises fun _ => then_raises required_raises fun _ =>
    stored_raises (node_raises _ _) _

end HumanoidCore.BehaviorTrees

namespace HumanoidCore.Documents
open Lib

/-- No access was out of range, and no loop of the model ran out of fuel. -/
def InBounds {α : Type} (x : Reading α) : Prop :=
  x ≠ .error .outOfRange ∧ x ≠ .error .outOfFuel

theorem in_bounds {α : Type} {x : Reading α} (h : Raises IsParseError x) : InBounds x := by
  constructor <;> intro he <;> obtain ⟨message, hm⟩ := h _ he <;> cases hm

/-- Both parsers of JSON documents, with their positions. -/
theorem json_alike {α : Type} {d : Dialect} {convert : JsonValue → Reading α}
    (hnumber : ∀ text, Raises IsParseError (d.number text))
    (hconvert : ∀ value, Raises IsParseError (convert value)) (document : Text) :
    Matches IsParseError (· = ·) (parse d document >>= convert)
      (Positions.parse d document >>= convert) := by
  refine (Positions.parse_alike hnumber document).bind fun value value' he => ?_
  rw [← he]
  cases hvalue : convert value with
  | error e => exact .error e (hconvert value e hvalue)
  | ok a => exact .ok a a rfl

/-- Every parser comes to an end in bounds on every document, and reads what the parser over the
rest of the text reads. -/
theorem parsing_in_bounds (convert : Convert) (document : Text) :
    InBounds (Positions.parse (Missions.missionDialect convert) document >>=
        Missions.missionFromJson) ∧
      InBounds (Missions.Indexed.missionFromYaml convert document) ∧
      InBounds (Positions.parse (BehaviorTrees.treeDialect convert) document >>=
        BehaviorTrees.documentFromJson) ∧
      InBounds (BehaviorTrees.Indexed.documentFromYaml document) ∧
      Missions.parseJson convert document = Missions.parseResult "JSON"
        (Positions.parse (Missions.missionDialect convert) document >>=
          Missions.missionFromJson) ∧
      Missions.parseYaml convert document = Missions.parseResult "YAML"
        (Missions.Indexed.missionFromYaml convert document) ∧
      BehaviorTrees.parseJson convert document = BehaviorTrees.treeParseResult "JSON"
        (Positions.parse (BehaviorTrees.treeDialect convert) document >>=
          BehaviorTrees.documentFromJson) ∧
      BehaviorTrees.parseYaml document = BehaviorTrees.treeParseResult "YAML"
        (BehaviorTrees.Indexed.documentFromYaml document) := by
  have hmission := json_alike (d := Missions.missionDialect convert)
    (fun text => Missions.double_raises convert text "JSON number") Missions.json_mission_raises
    document
  have htree := json_alike (d := BehaviorTrees.treeDialect convert) (fun text => by
    dsimp only [BehaviorTrees.treeDialect]
    split
    · exact raises_ok _ _
    · exact fail_raises _) BehaviorTrees.tree_raises document
  have hmissionYaml := Missions.Indexed.mission_from_yaml_alike convert document
  have htreeYaml := BehaviorTrees.Indexed.document_alike document
  refine ⟨in_bounds hmission.raises, in_bounds hmissionYaml.raises, in_bounds htree.raises,
    in_bounds htreeYaml.raises, ?_, ?_, ?_, ?_⟩
  · rw [Missions.parseJson, hmission.eq]
  · rw [Missions.parseYaml, hmissionYaml.eq]
  · rw [BehaviorTrees.parseJson, htree.eq]
  · rw [BehaviorTrees.parseYaml, htreeYaml.eq]

end HumanoidCore.Documents
