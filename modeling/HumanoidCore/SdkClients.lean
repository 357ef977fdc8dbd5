import HumanoidCore.LocoAdapter

namespace HumanoidCore.Sdk

/-- The members of `HandAdapter::Impl` and of `AudioAdapter::Impl`. -/
structure ClientState where
  client : Bool := false
  configuration : SdkConfiguration := {}
  initialized : Bool := false
  connected : Bool := false
  deriving DecidableEq

/-- An adapter of a vendor's client: its name in texts, the call that tells whether the robot
answers, and its commands, which are refused before the lock, never sent, or sent. -/
structure ClientAdapter (γ κ : Type) where
  name : String
  connectCommand : String
  probe : κ
  command : γ → SdkResult ⊕ (String × String × κ)

/-- A public operation with what the vendor answers; each is one section under the lock. -/
inductive ClientOp (γ : Type) where
  | start (configuration : SdkConfiguration) (host : Host)
  | shutdown
  | connect (reply : Reply)
  | command (c : γ) (reply : Reply)

namespace ClientState
variable {γ κ : Type} (adapter : ClientAdapter γ κ) (s : ClientState)

def requireInitialized (command : String) : SdkResult :=
  if !s.initialized || !s.client then
    ⟨.connectionFailed, command ++ " requires initialized " ++ adapter.name ++ " client"⟩
  else ⟨.success, command ++ " precondition satisfied"⟩

def requireConnected (command : String) : SdkResult :=
  if !s.initialized || !s.client || !s.connected then
    ⟨.connectionFailed, command ++ " requires connected " ++ adapter.name ++ " client"⟩
  else ⟨.success, command ++ " precondition satisfied"⟩

/-- `Initialize`. -/
def start (configuration : SdkConfiguration) (host : Host) : ClientState × SdkResult :=
  let unitree := "Unitree " ++ adapter.name ++ " adapter "
  if s.initialized then (s, ⟨.success, unitree ++ "already initialized"⟩)
  else
    let validation := validateSdkConfiguration configuration host
    if !validation.succeeded then (s, validation)
    else
      let released := { s with client := false, initialized := false, connected := false }
      match host.setUp with
      | .error (some what) =>
        (released, ⟨.connectionFailed, unitree ++ "initialization failed: " ++ what⟩)
      | .error none =>
        (released,
          ⟨.connectionFailed, unitree ++ "initialization failed with an unknown exception"⟩)
      | .ok () =>
        ({ client := true, configuration := configuration, initialized := true,
            connected := false }, ⟨.success, unitree ++ "initialized"⟩)

def shutdown : ClientState × SdkResult :=
  ({ s with client := false, initialized := false, connected := false },
    ⟨.success, "Unitree " ++ adapter.name ++ " adapter shut down"⟩)

def connect (reply : Reply) : ClientState × SdkResult × Option κ :=
  let precondition := s.requireInitialized adapter "Connect"
  if !precondition.succeeded then (s, precondition, none)
  else
    let result := invokeSdkCommand adapter.connectCommand .connectionFailed reply
    ({ s with connected := result.succeeded }, result, some adapter.probe)

/-- The body of the commands, with the vendor call that is made. -/
def command (c : γ) (reply : Reply) : SdkResult × Option κ :=
  match adapter.command c with
  | .inl refusal => (refusal, none)
  | .inr (name, vendorName, call) =>
    let precondition := s.requireConnected adapter name
    if !precondition.succeeded then (precondition, none)
    else (invokeSdkCommand vendorName .robotFault reply, some call)

/-- The adapter after an operation, its result and the vendor call it made of the client. -/
def apply : ClientOp γ → ClientState × SdkResult × Option κ
  | .start configuration host =>
    let started := s.start adapter configuration host
    (started.1, started.2, none)
  | .shutdown =>
    let down := s.shutdown adapter
    (down.1, down.2, none)
  | .connect reply => s.connect adapter reply
  | .command c reply => (s, s.command adapter c reply)

def next (op : ClientOp γ) : ClientState := (s.apply adapter op).1

end ClientState

inductive SdkHandGesture where
  | handsUp | clap | highFive | hug | heart | reject | wave | shakeHand
  deriving DecidableEq

def kReleaseArmActionId : Int := 99

def toActionId : SdkHandGesture → Int
  | .handsUp => 15
  | .clap => 17
  | .highFive => 18
  | .hug => 19
  | .heart => 20
  | .reject => 22
  | .wave => 26
  | .shakeHand => 27

inductive HandCommand where
  | «open» | close | grip | release
  | gesture (gesture : SdkHandGesture)
  deriving DecidableEq

inductive HandCall where
  | getActionList
  | executeAction (actionId : Int)
  deriving DecidableEq

def unsupportedFingerCommand (command : String) : SdkResult :=
  ⟨.unknown,
    command ++ " is not exposed by Unitree G1 SDK2 arm action client; command was not sent"⟩

def handAdapter : ClientAdapter HandCommand HandCall where
  name := "hand"
  connectCommand := "Hand.Connect"
  probe := .getActionList
  command
    | .open => .inl (unsupportedFingerCommand "Open")
    | .close => .inl (unsupportedFingerCommand "Close")
    | .grip => .inl (unsupportedFingerCommand "Grip")
    | .release => .inr ("Release", "Hand.Release", .executeAction kReleaseArmActionId)
    | .gesture gesture => .inr ("Gesture", "Hand.Gesture", .executeAction (toActionId gesture))

structure SdkAudioPlayback where
  appName : String := ""
  streamId : String := ""
  pcmData : List UInt8 := []
  deriving DecidableEq

inductive AudioCommand where
  | play (playback : SdkAudioPlayback)
  | stop (appName : String)
  | setVolume (volume : UInt8)
  | mute
  deriving DecidableEq

inductive AudioCall where
  | getVolume
  | playStream (playback : SdkAudioPlayback)
  | playStop (appName : String)
  | setVolume (volume : UInt8)
  deriving DecidableEq

/-- `ValidateVolume` and the rest of `SetVolume`. -/
def setVolume (volume : UInt8) : SdkResult ⊕ (String × String × AudioCall) :=
  if 100 < volume then .inl ⟨.unknown, "audio volume must be in range [0, 100]"⟩
  else .inr ("SetVolume", "Audio.SetVolume", .setVolume volume)

def audioAdapter : ClientAdapter AudioCommand AudioCall where
  name := "audio"
  connectCommand := "Audio.Connect"
  probe := .getVolume
  command
    | .play playback =>
      if playback.appName = "" then .inl ⟨.unknown, "audio playback app_name is empty"⟩
      else if playback.streamId = "" then .inl ⟨.unknown, "audio playback stream_id is empty"⟩
      else if playback.pcmData = [] then .inl ⟨.unknown, "audio playback pcm_data is empty"⟩
      else .inr ("Play", "Audio.Play", .playStream playback)
    | .stop appName =>
      if appName = "" then .inl ⟨.unknown, "audio app_name is empty"⟩
      else .inr ("Stop", "Audio.Stop", .playStop appName)
    | .setVolume volume => setVolume volume
    | .mute => setVolume 0

end HumanoidCore.Sdk
