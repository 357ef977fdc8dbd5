namespace HumanoidCore.Common

inductive StatusCode where
  | ok | cancelled | invalidArgument | unavailable | failedPrecondition | internalError
  deriving DecidableEq

structure Status where
  code : StatusCode := .ok
  message : String := ""
  deriving DecidableEq

def Status.isOk (s : Status) : Bool := s.code = .ok

end HumanoidCore.Common
