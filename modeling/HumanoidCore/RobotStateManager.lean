import HumanoidCore.SdkWrapper

namespace HumanoidCore.Sdk

/-- `RobotState{}`. -/
def RobotState.initial : RobotState :=
  { connected := false, standing := false, walking := false, sitting := false, robotMode := 0
    motionMode := 0, emergencyStop := false, faultCode := 0, heartbeatCount := 0
    reconnectAttemptCount := 0, jointCount := 0 }

/-- The cache that the safety gate reads; every operation is one section of its mutex. -/
structure RobotStateManager where
  state : RobotState := .initial
  deriving DecidableEq

namespace RobotStateManager

def updateState (_ : RobotStateManager) (state : RobotState) : RobotStateManager := { state }

def getState (m : RobotStateManager) : RobotState := m.state

def reset (_ : RobotStateManager) : RobotStateManager := { state := .initial }

@[simp] theorem get_updated (m : RobotStateManager) (state : RobotState) :
    (m.updateState state).getState = state := rfl

end RobotStateManager

end HumanoidCore.Sdk
