import HumanoidCore.ResourceManager

namespace HumanoidCore.ResourceManager

variable {μ : Type}

/-- What `Release` tells leases apart by: the resource, whether it is held exclusively, and
the number. -/
abbrev Lease := ResourceId × Bool × LeaseId

def ResourceHandle.lease (h : ResourceHandle) : Lease :=
  (h.resourceId, decide (h.mode = .exclusive), h.leaseId)

/-- A `ResourceHandle` in the hands of a user, with the manager whose call returned it. The
program keeps only `handle`. -/
structure HandleObject (μ : Type) where
  issuer : Option μ := none
  handle : ResourceHandle := {}
  deriving DecidableEq

/-- `manager` is `state_`. -/
structure ResourceLock (μ : Type) where
  manager : Option μ := none
  object : HandleObject μ := {}
  ownsLock : Bool := false
  deriving DecidableEq

/-- What is left of a lock that was moved from: the moved string is empty. -/
def ResourceLock.movedFrom (lock : ResourceLock μ) : ResourceLock μ :=
  { object := { handle := { lock.object.handle with resourceId := "" } } }

/-- The call that `ResourceLock::Release` makes; `none` if it returns false at once. -/
def ResourceLock.call (lock : ResourceLock μ) : Option (μ × HandleObject μ) :=
  if lock.ownsLock then lock.manager.map (·, lock.object) else none

/-- The lock a manager returns; the one without a lease has no manager. -/
def ResourceLock.make (m : μ) (h : ResourceHandle) : ResourceLock μ :=
  if h.isValid then { manager := some m, object := { issuer := some m, handle := h }, ownsLock := true }
  else {}

/-- Managers, and the locks and copied handles of their users. `issuers` has, for each call of
`Release`, the issuer of the handle it was given; `issued` are the handles with a lease that
a manager has returned, `outstanding` those of them that it was not yet asked to release. -/
structure Managers (μ : Type) where
  managers : μ → State := fun _ => {}
  locks : List (ResourceLock μ) := []
  handles : List (HandleObject μ) := []
  issuers : μ → Nat → Option μ := fun _ _ => none
  issued : μ → List ResourceHandle := fun _ => []
  outstanding : μ → List ResourceHandle := fun _ => []

namespace Managers

variable [DecidableEq μ]

/-- A call by any thread, of `Release` with a handle from `issuer`. -/
def enter (s : Managers μ) (m : μ) (c : Call) (issuer : Option μ) : Managers μ :=
  { s with
    managers := Function.update s.managers m
      { s.managers m with clients := (s.managers m).clients ++ [c.enter] }
    issuers := Function.update s.issuers m
      (Function.update (s.issuers m) (s.managers m).clients.length issuer) }

def release (s : Managers μ) (m : μ) (x : HandleObject μ) : Managers μ :=
  s.enter m (.release x.handle) x.issuer

/-- `static_cast<void>(Release())` of a lock, without what becomes of the lock. -/
def releaseThrough (s : Managers μ) (lock : ResourceLock μ) : Managers μ :=
  match lock.call with
  | none => s
  | some (m, x) => s.release m x

/-- A lock that a manager has returned. -/
def own (s : Managers μ) (m : μ) (h : ResourceHandle) : Managers μ :=
  let t := { s with locks := s.locks ++ [ResourceLock.make m h] }
  if h.isValid then
    { t with
      issued := Function.update s.issued m (s.issued m ++ [h])
      outstanding := Function.update s.outstanding m (s.outstanding m ++ [h]) }
  else t

/-- Call `i` has asked the issuer of `h` to release it. -/
def settle (s : Managers μ) (m : μ) (i : Nat) (h : ResourceHandle) : Managers μ :=
  if s.issuers m i = some m then
    { s with outstanding := Function.update s.outstanding m ((s.outstanding m).erase h) }
  else s

/-- What the users and the books have after a section that took `c` to `c'`. -/
def account (s : Managers μ) (m : μ) (i : Nat) : Client → Client → Managers μ
  | .release h, _ => s.settle m i h
  | _, .returned (.lock h) => s.own m h
  | _, _ => s

def clientStep (s : Managers μ) (m : μ) (i : Nat) (expired : Bool) : Option (Managers μ) :=
  match (s.managers m).clients[i]? with
  | none => none
  | some c =>
    (ResourceManager.clientStep (s.managers m) expired c).map (fun (t, c') =>
      { s with
        managers := Function.update s.managers m { t with clients := t.clients.set i c' } }.account
          m i c c')

/-- A call of a manager, the next section of one, or something that a user does with a handle
or a lock. A lock is used by one thread, which does nothing else with it before its `Release`
has returned. -/
inductive Action (μ : Type) where
  | acquire (m : μ) (r : ResourceId) (mode : ResourceLockMode)
  | acquireFor (m : μ) (r : ResourceId) (mode : ResourceLockMode) (timeout : Int)
  | tryAcquire (m : μ) (r : ResourceId) (mode : ResourceLockMode)
  | release (m : μ) (k : Nat)
  | client (m : μ) (i : Nat) (expired : Bool)
  | copyHandle (j : Nat)
  | moveLock (j : Nat)
  | assignLock (j k : Nat)
  | releaseLock (j : Nat)
  | destroyLock (j : Nat)
  deriving DecidableEq

/-- `locks[j] = std::move(locks[k])`. -/
def assignLock (s : Managers μ) (j k : Nat) : Option (Managers μ) :=
  match s.locks[j]?, s.locks[k]? with
  | some target, some source =>
    if j = k then some s
    else some
      { s.releaseThrough target with locks := (s.locks.set j source).set k source.movedFrom }
  | _, _ => none

def step (s : Managers μ) : Action μ → Option (Managers μ)
  | .acquire m r mode => some (s.enter m (.acquire r mode) none)
  | .acquireFor m r mode timeout => some (s.enter m (.acquireFor r mode timeout) none)
  | .tryAcquire m r mode => some (s.enter m (.tryAcquire r mode) none)
  | .release m k => (s.handles[k]?).map (s.release m)
  | .client m i expired => s.clientStep m i expired
  | .copyHandle j =>
    (s.locks[j]?).map (fun lock => { s with handles := s.handles ++ [lock.object] })
  | .moveLock j =>
    (s.locks[j]?).map (fun lock => { s with locks := s.locks.set j lock.movedFrom ++ [lock] })
  | .assignLock j k => s.assignLock j k
  | .releaseLock j =>
    (s.locks[j]?).map (fun lock =>
      if lock.call.isNone then s
      else { s.releaseThrough lock with locks := s.locks.set j { lock with ownsLock := false } })
  | .destroyLock j =>
    (s.locks[j]?).map (fun lock => { s.releaseThrough lock with locks := s.locks.eraseIdx j })

end Managers

end HumanoidCore.ResourceManager
