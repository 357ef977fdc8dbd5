import HumanoidCore.DocumentText
import HumanoidCore.LocoAdapter

namespace HumanoidCore.G1
open Documents Sdk

/-- Milliseconds. -/
structure RobotConfig where
  vendor : String := ""
  model : String := ""
  ip : Text := "192.168.123.161".toList
  networkInterface : String := "eth0"
  timeout : Int := 500
  deriving DecidableEq

section Addresses

/-- A `std::istringstream`: what was not extracted yet, and `eofbit`. -/
structure TextStream where
  rest : Text
  eof : Bool := false
  deriving DecidableEq

/-- `std::getline`; `none` where it sets `failbit`, for want of a character. The delimiter is
extracted and not stored. -/
def getline (delimiter : Char) (stream : TextStream) : Option (Text × TextStream) :=
  if stream.eof then none
  else if stream.rest = [] then none
  else
    let token := stream.rest.takeWhile (· ≠ delimiter)
    match stream.rest.dropWhile (· ≠ delimiter) with
    | [] => some (token, ⟨[], true⟩)
    | _ :: rest => some (token, ⟨rest, false⟩)

def isDigits (value : Text) : Bool := value ≠ [] && value.all Char.isDigit

/-- `std::stoi` of digits; `none` where it throws. -/
def stoi (digits : Text) : Option Int :=
  (fromDigits digits).bind (fun n => if n < 2 ^ 31 then some (n : Int) else none)

/-- Whether the octet is valid, and what the reference parameter `octet` holds then. -/
def parseIpv4Octet (value : Text) (octet : Int) : Bool × Int :=
  if !isDigits value then (false, octet)
  else
    match stoi value with
    | none => (false, octet)
    | some octet => (0 ≤ octet && octet ≤ 255, octet)

theorem getline_shorter {delimiter : Char} {stream stream' : TextStream} {token : Text}
    (h : getline delimiter stream = some (token, stream')) :
    stream'.rest.length < stream.rest.length := by
  unfold getline at h
  split_ifs at h with heof hnil
  have hpos := List.length_pos_of_ne_nil hnil
  have hle := (List.dropWhile_sublist (· ≠ delimiter) (l := stream.rest)).length_le
  dsimp only at h
  split at h
  case h_1 =>
    cases h
    exact hpos
  case h_2 c rest hdrop =>
    cases h
    rw [hdrop, List.length_cons] at hle
    exact hle

/-- The loop of `IsValidIpv4Address`; `none` where it returns false. -/
def countOctets (stream : TextStream) (octetCount : Int32) : Option Int32 :=
  match h : getline '.' stream with
  | none => some octetCount
  | some (token, rest) =>
    if !(parseIpv4Octet token 0).1 then none else countOctets rest (octetCount + 1)
termination_by stream.rest.length
decreasing_by exact getline_shorter h

def isValidIpv4Address (ip : Text) : Bool :=
  match countOctets ⟨ip, false⟩ 0 with
  | none => false
  | some octetCount => octetCount = 4

end Addresses

/-- `ValidateConfig`, the first thing that `Initialize` does. -/
def RobotConfig.validate (config : RobotConfig) : SdkResult :=
  if config.vendor ≠ "Unitree" then ⟨.unknown, "robot vendor is not Unitree"⟩
  else if config.model ≠ "G1" then ⟨.unknown, "robot model is not G1"⟩
  else if !isValidIpv4Address config.ip then
    ⟨.connectionFailed, "robot IP address is not a valid IPv4 address"⟩
  else if config.networkInterface = "" then ⟨.connectionFailed, "network interface is empty"⟩
  else if config.timeout ≤ 0 then ⟨.timeout, "timeout must be greater than zero"⟩
  else ⟨.success, "robot configuration is valid"⟩

end HumanoidCore.G1
