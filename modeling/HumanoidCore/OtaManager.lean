import HumanoidCore.Lib.Map

namespace HumanoidCore.OtaManager
open Lib

inductive CloudErrorCode where
  | success | notFound | alreadyExists | invalidInput | unauthorized | unavailable | failed
  deriving DecidableEq

structure CloudResult where
  code : CloudErrorCode := .success
  message : String := ""
  deriving DecidableEq

def CloudResult.ok (r : CloudResult) : Bool := r.code = .success

inductive OtaStatus where
  | planned | verified | applied | rolledBack | rejected
  deriving DecidableEq

structure PackageDescriptor where
  packageId : String
  version : String
  verificationDigest : String := ""
  rollbackSupported : Bool := false
  deriving DecidableEq

/-- The timestamp is the clock's answer, in nanoseconds. -/
structure UpdatePlan where
  robotIds : List String
  package : PackageDescriptor
  status : OtaStatus := .planned
  timestamp : Int := 0
  deriving DecidableEq

structure Manager where
  packages : Map String PackageDescriptor := ∅
  plans : List UpdatePlan := []

def registerPackage (m : Manager) (package : PackageDescriptor) : Manager × CloudResult :=
  if package.packageId = "" || package.version = "" then
    (m, ⟨.invalidInput, "package id and version are required"⟩)
  else
    ({ m with packages := m.packages.insert package.packageId package },
      ⟨.success, "package registered"⟩)

def planUpdate (m : Manager) (packageId : String) (robotIds : List String) (now : Int) :
    Manager × CloudResult :=
  if robotIds = [] then (m, ⟨.invalidInput, "target robots are required"⟩)
  else match m.packages.get? packageId with
    | none => (m, ⟨.notFound, "package is not registered"⟩)
    | some package =>
      ({ m with plans := m.plans ++ [⟨robotIds, package, .planned, now⟩] },
        ⟨.success, "update planned"⟩)

/-- The body of the loop of `VerifyPackage`. -/
def UpdatePlan.verify (packageId : String) (plan : UpdatePlan) : UpdatePlan :=
  if plan.package.packageId = packageId then { plan with status := .verified } else plan

def verifyPackage (m : Manager) (packageId digest : String) : Manager × CloudResult :=
  match m.packages.get? packageId with
  | none => (m, ⟨.notFound, "package is not registered"⟩)
  | some package =>
    if package.verificationDigest ≠ digest then
      (m, ⟨.invalidInput, "package verification digest does not match"⟩)
    else
      ({ m with plans := m.plans.map (·.verify packageId) }, ⟨.success, "package verified"⟩)

/-- The loop of `Rollback`, which leaves at a plan that cannot be rolled back. -/
def rollbackLoop (packageId : String) : Bool → List UpdatePlan → List UpdatePlan × CloudResult
  | found, [] =>
    ([], if found then ⟨.success, "rollback planned"⟩
      else ⟨.notFound, "update plan is not registered"⟩)
  | found, plan :: plans =>
    if plan.package.packageId ≠ packageId then
      let (rest, result) := rollbackLoop packageId found plans
      (plan :: rest, result)
    else if !plan.package.rollbackSupported then
      (plan :: plans, ⟨.invalidInput, "rollback is not supported by package"⟩)
    else
      let (rest, result) := rollbackLoop packageId true plans
      ({ plan with status := .rolledBack } :: rest, result)

def rollback (m : Manager) (packageId : String) : Manager × CloudResult :=
  let (plans, result) := rollbackLoop packageId false m.plans
  ({ m with plans := plans }, result)

/-- A call; each is one section under the mutex. -/
inductive Call where
  | registerPackage (package : PackageDescriptor)
  | planUpdate (packageId : String) (robotIds : List String) (now : Int)
  | verifyPackage (packageId digest : String)
  | rollback (packageId : String)
  deriving DecidableEq

def Manager.call (m : Manager) : Call → Manager × CloudResult
  | .registerPackage package => registerPackage m package
  | .planUpdate packageId robotIds now => planUpdate m packageId robotIds now
  | .verifyPackage packageId digest => verifyPackage m packageId digest
  | .rollback packageId => rollback m packageId

/-- The manager after the calls, in their order. -/
def after (calls : List Call) : Manager := calls.foldl (fun m c => (m.call c).1) {}

@[simp] theorem after_snoc (calls : List Call) (c : Call) :
    after (calls ++ [c]) = ((after calls).call c).1 := by
  simp [after, List.foldl_append]

end HumanoidCore.OtaManager
