import HumanoidCore.Command
import HumanoidCore.DocumentText

namespace HumanoidCore.ROS2
open Core Documents

/-- The payload and the metadata are maps: their keys are distinct and in order. -/
structure CommandMessage where
  id : CommandId := 0
  type : String := "Custom"
  priority : String := "Normal"
  timeoutMs : Int := 0
  payload : List (String × String) := []
  metadata : List (String × String) := []
  deriving DecidableEq

def commandTypeFromName (name : String) : CommandType :=
  if name = "Stand" then .stand
  else if name = "Sit" then .sit
  else if name = "Walk" then .walk
  else if name = "Stop" then .stop
  else if name = "Move" then .move
  else if name = "Rotate" then .rotate
  else if name = "Velocity" then .velocity
  else if name = "EmergencyStop" then .emergencyStop
  else if name = "HandOpen" then .handOpen
  else if name = "HandClose" then .handClose
  else if name = "Gesture" then .gesture
  else if name = "PlayAudio" then .playAudio
  else if name = "StopAudio" then .stopAudio
  else if name = "SetVolume" then .setVolume
  else if name = "MuteAudio" then .muteAudio
  else .custom

def commandPriorityFromName (name : String) : CommandPriority :=
  if name = "Low" then .low
  else if name = "High" then .high
  else if name = "Critical" then .critical
  else .normal

def parseBool (value : String) : Option Bool :=
  if value = "true" ∨ value = "1" then some true
  else if value = "false" ∨ value = "0" then some false
  else none

def parseInteger (value : String) : Option Int := fromCharsInt64 value.toList

/-- `convert` also gives some number to the texts that are read as an infinity or as no
number, which are read with success here. -/
def parseDouble (convert : Convert) (value : String) : Option Rat := convert value.toList

def parsePayloadValue (convert : Convert) (value : String) : CommandPayloadValue :=
  match parseBool value with
  | some parsed => .bool parsed
  | none =>
    match parseInteger value with
    | some parsed => .int64 parsed
    | none =>
      match parseDouble convert value with
      | some parsed => .double parsed
      | none => .string value

def toCommand (convert : Convert) (message : CommandMessage) (now : CommandTimestamp) : Command :=
  { id := message.id
    timestamp := now
    type := commandTypeFromName message.type
    priority := commandPriorityFromName message.priority
    timeout := message.timeoutMs
    metadata := message.metadata
    payload := message.payload.map (fun (key, value) => (key, parsePayloadValue convert value)) }

end HumanoidCore.ROS2
