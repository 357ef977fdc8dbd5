import HumanoidCore.MissionValidator
import HumanoidCore.MissionYaml

namespace HumanoidCore.Missions
open Core Documents

structure MissionParseResult where
  mission : Mission
  success : Bool
  message : String
  deriving DecidableEq

structure MissionLoadResult where
  mission : Mission
  success : Bool
  message : String
  deriving DecidableEq

/-- The `catch` of both parsers. -/
def parseResult (format : String) (reading : Reading Mission) : MissionParseResult :=
  match reading with
  | .ok mission => ⟨mission, true, "Mission parsed successfully"⟩
  | .error e => ⟨{}, false, format ++ " mission parse failed: " ++ e.what⟩

def parseJson (convert : Convert) (document : Text) : MissionParseResult :=
  parseResult "JSON" (parse (missionDialect convert) document >>= missionFromJson)

def parseYaml (convert : Convert) (document : Text) : MissionParseResult :=
  parseResult "YAML" (missionFromYaml convert document)

def validateParsedMission (parsed : MissionParseResult) : MissionLoadResult :=
  if !parsed.success then ⟨{}, false, parsed.message⟩
  else if !(validate parsed.mission).valid then
    ⟨parsed.mission, false, (validate parsed.mission).message⟩
  else ⟨parsed.mission, true, "Mission loaded successfully"⟩

def loadJson (convert : Convert) (document : Text) : MissionLoadResult :=
  validateParsedMission (parseJson convert document)

def loadYaml (convert : Convert) (document : Text) : MissionLoadResult :=
  validateParsedMission (parseYaml convert document)

/-- A mission that was loaded was read and validated. -/
theorem loaded {format : String} {reading : Reading Mission}
    (h : (validateParsedMission (parseResult format reading)).success = true) :
    ∃ mission, reading = .ok mission ∧ (validate mission).valid = true ∧
      (validateParsedMission (parseResult format reading)).mission = mission := by
  cases reading with
  | error e => simp [validateParsedMission, parseResult] at h
  | ok mission =>
    refine ⟨mission, rfl, ?_⟩
    simp only [validateParsedMission, parseResult] at h ⊢
    by_cases hv : (validate mission).valid = true
    · simp [hv]
    · simp [hv] at h

end HumanoidCore.Missions
