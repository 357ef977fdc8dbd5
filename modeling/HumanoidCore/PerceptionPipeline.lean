import HumanoidCore.Lib.Prog
import HumanoidCore.Status
import Mathlib.Algebra.GroupWithZero.Nat

namespace HumanoidCore.Perception
open Lib Common

abbrev StageId := String

structure PerceptionStageDescriptor where
  stageId : StageId := ""
  name : String := ""
  enabled : Bool := true
  dependencies : List StageId := []
  deriving DecidableEq

def PerceptionStageDescriptor.isValid (d : PerceptionStageDescriptor) : Bool :=
  d.stageId ≠ "" && d.name ≠ ""

/-- An injected `IPerceptionStage`. -/
abbrev Stage := Nat

structure StageEntry where
  descriptor : PerceptionStageDescriptor
  stage : Stage
  deriving DecidableEq

def StageEntry.stageId (e : StageEntry) : StageId := e.descriptor.stageId

/-- `stages_`, in the order of its keys, which are the identifiers of the descriptors. -/
structure PerceptionPipeline where
  stages : List StageEntry := []
  deriving DecidableEq

/-- `stages_.contains`. -/
def isRegistered (stages : List StageEntry) (stageId : StageId) : Bool :=
  stages.any (fun entry => entry.stageId = stageId)

/-- `stages_.emplace` with a new key. -/
def emplaceStage (entry : StageEntry) : List StageEntry → List StageEntry
  | [] => [entry]
  | next :: stages =>
    if entry.stageId < next.stageId then entry :: next :: stages
    else next :: emplaceStage entry stages

/-- `stage` is `none` for a null pointer. -/
def registerStage (p : PerceptionPipeline) (descriptor : PerceptionStageDescriptor)
    (stage : Option Stage) : PerceptionPipeline × Status :=
  if !descriptor.isValid then
    (p, ⟨.invalidArgument, "stage descriptor requires non-empty id and name"⟩)
  else match stage with
    | none => (p, ⟨.invalidArgument, "stage is null"⟩)
    | some stage =>
      if isRegistered p.stages descriptor.stageId then
        (p, ⟨.failedPrecondition, "stage id is already registered"⟩)
      else if descriptor.dependencies.any (· = "") then
        (p, ⟨.invalidArgument, "stage dependency id is empty"⟩)
      else ({ stages := emplaceStage ⟨descriptor, stage⟩ p.stages }, {})

/-- The dependency on a stage that is gone. -/
def StageEntry.forget (stageId : StageId) (e : StageEntry) : StageEntry :=
  { e with descriptor.dependencies := e.descriptor.dependencies.filter (· ≠ stageId) }

def unregisterStage (p : PerceptionPipeline) (stageId : StageId) : PerceptionPipeline × Status :=
  if stageId = "" then (p, ⟨.invalidArgument, "stage id is empty"⟩)
  else if !isRegistered p.stages stageId then
    (p, ⟨.unavailable, "stage id is not registered"⟩)
  else
    ({ stages := (p.stages.filter (·.stageId ≠ stageId)).map (StageEntry.forget stageId) }, {})

def StageEntry.setEnabled (enabled : Bool) (e : StageEntry) : StageEntry :=
  { e with descriptor.enabled := enabled }

def setStageEnabled (p : PerceptionPipeline) (stageId : StageId) (enabled : Bool) :
    PerceptionPipeline × Status :=
  if !isRegistered p.stages stageId then (p, ⟨.unavailable, "stage id is not registered"⟩)
  else
    ({ stages := p.stages.map (fun e => if e.stageId = stageId then e.setEnabled enabled else e) },
      {})

def clear (_ : PerceptionPipeline) : PerceptionPipeline := {}

inductive Call where
  | registerStage (descriptor : PerceptionStageDescriptor) (stage : Option Stage)
  | unregisterStage (stageId : StageId)
  | setStageEnabled (stageId : StageId) (enabled : Bool)
  | clear
  deriving DecidableEq

def PerceptionPipeline.apply (p : PerceptionPipeline) : Call → PerceptionPipeline
  | .registerStage descriptor stage => (Perception.registerStage p descriptor stage).1
  | .unregisterStage stageId => (Perception.unregisterStage p stageId).1
  | .setStageEnabled stageId enabled => (Perception.setStageEnabled p stageId enabled).1
  | .clear => Perception.clear p

def after (calls : List Call) : PerceptionPipeline := calls.foldl PerceptionPipeline.apply {}

/-- `incoming_edges`, and `dependents` as pairs of a key and an element of its vector, in the
order of the calls of `push_back`. -/
structure Edges where
  incoming : List (StageId × Nat) := []
  dependents : List (StageId × StageId) := []
  deriving DecidableEq

/-- Changes the number under a key. -/
def adjust (f : Nat → Nat) (key : StageId) : List (StageId × Nat) → List (StageId × Nat)
  | [] => []
  | (id, count) :: rest =>
    if id = key then (id, f count) :: rest else (id, count) :: adjust f key rest

/-- The loop over the dependencies of a stage; `none` if one is not registered. -/
def addDependencies (snapshot : List StageEntry) (stageId : StageId) (edges : Edges) :
    List StageId → Option Edges
  | [] => some edges
  | dependency :: rest =>
    if !isRegistered snapshot dependency then none
    else addDependencies snapshot stageId
      { incoming := adjust (· + 1) stageId edges.incoming
        dependents := edges.dependents ++ [(dependency, stageId)] } rest

/-- The loop over the stages. -/
def addStages (snapshot : List StageEntry) (edges : Edges) : List StageEntry → Option Edges
  | [] => some edges
  | entry :: rest =>
    (addDependencies snapshot entry.stageId
      { edges with incoming := edges.incoming ++ [(entry.stageId, 0)] }
      entry.descriptor.dependencies).bind (fun edges => addStages snapshot edges rest)

def Edges.dependentsOf (edges : Edges) (stageId : StageId) : List StageId :=
  (edges.dependents.filter (·.1 = stageId)).map Prod.snd

/-- The loop over the dependents of a stage that is done: the numbers and the queue. -/
def release : List StageId → List (StageId × Nat) → List StageId →
    List (StageId × Nat) × List StageId
  | [], incoming, ready => (incoming, ready)
  | dependent :: rest, incoming, ready =>
    match incoming.lookup dependent with
    | some (count + 1) =>
      release rest (adjust (· - 1) dependent incoming)
        (if count = 0 then ready ++ [dependent] else ready)
    | some 0 | none => release rest incoming ready

def total (incoming : List (StageId × Nat)) : Nat := (incoming.map Prod.snd).sum

theorem total_decrement {incoming : List (StageId × Nat)} {key : StageId} {count : Nat}
    (h : incoming.lookup key = some (count + 1)) :
    total (adjust (· - 1) key incoming) + 1 = total incoming := by
  induction incoming with
  | nil => cases h
  | cons entry rest ih =>
    obtain ⟨id, value⟩ := entry
    by_cases hid : id = key
    · rw [List.lookup_cons, hid, beq_self_eq_true] at h
      obtain rfl := Option.some.inj h
      simp only [adjust, if_pos hid, total, List.map_cons, List.sum_cons]
      omega
    · rw [List.lookup_cons, beq_false_of_ne (Ne.symm hid)] at h
      have := ih h
      simp only [adjust, if_neg hid, total, List.map_cons, List.sum_cons] at this ⊢
      omega

/-- Each stage that enters the queue has lost an edge. -/
theorem release_total (dependents : List StageId) (incoming : List (StageId × Nat))
    (ready : List StageId) :
    total (release dependents incoming ready).1 + (release dependents incoming ready).2.length ≤
      total incoming + ready.length := by
  induction dependents generalizing incoming ready with
  | nil => exact Nat.le_refl _
  | cons dependent rest ih =>
    unfold release
    split
    · rename_i count hcount
      have hless := total_decrement hcount
      refine Nat.le_trans (ih _ _) ?_
      split
      · rw [List.length_append, List.length_singleton]
        omega
      · omega
    · exact ih incoming ready
    · exact ih incoming ready

/-- The loop over the queue. `none` stands for the exception of `snapshot.at`. -/
def drain (snapshot : List StageEntry) (edges : Edges) (incoming : List (StageId × Nat))
    (order : List StageEntry) : List StageId → Option (List StageEntry)
  | [] => some order
  | stageId :: ready =>
    match snapshot.find? (fun entry => entry.stageId = stageId) with
    | none => none
    | some entry =>
      drain snapshot edges (release (edges.dependentsOf stageId) incoming ready).1
        (order ++ [entry]) (release (edges.dependentsOf stageId) incoming ready).2
termination_by ready => total incoming + ready.length
decreasing_by
  have := release_total (edges.dependentsOf stageId) incoming ready
  simp only [List.length_cons]
  omega

/-- The status and `execution_order`, which a failure may leave incomplete. -/
def buildExecutionOrder (p : PerceptionPipeline) : Option (Status × List StageEntry) :=
  let snapshot := p.stages
  match addStages snapshot {} snapshot with
  | none => some (⟨.failedPrecondition, "pipeline stage dependency is not registered"⟩, [])
  | some edges =>
    let ready := (edges.incoming.filter (·.2 = 0)).map Prod.fst
    (drain snapshot edges edges.incoming [] ready).map (fun order =>
      if order.length ≠ snapshot.length then
        (⟨.failedPrecondition, "pipeline graph contains a cycle"⟩, order)
      else ({}, order))

section Execute
variable {Context : Type}

/-- The only thing that is asked of a stage. -/
inductive Request (Context : Type) where
  | process (stage : Stage) (context : Context)

/-- The status, or `none` for an exception, and what has become of the context. -/
abbrev Answer : Request Context → Type
  | .process _ _ => Option Status × Context

structure PerceptionPipelineResult (Context : Type) where
  status : Status := {}
  context : Context
  executedStages : List StageId := []

/-- Nothing is thrown out of `Execute`, except for what `snapshot.at` would throw. -/
abbrev Program (Context : Type) := Prog (Request Context) Answer Unit

/-- The loop of `Execute`. -/
def runStages (context : Context) (executed : List StageId) :
    List StageEntry → Program Context (PerceptionPipelineResult Context)
  | [] => return ⟨{}, context, executed⟩
  | entry :: rest =>
    if !entry.descriptor.enabled then runStages context executed rest
    else do
      match ← Prog.request (.process entry.stage context) with
      | (none, context) =>
        return ⟨⟨.internalError, "perception stage threw an exception"⟩, context, executed⟩
      | (some status, context) =>
        if !status.isOk then return ⟨status, context, executed⟩
        else runStages context (executed ++ [entry.stageId]) rest

/-- The context holds the frame. -/
def execute (p : PerceptionPipeline) (context : Context) :
    Program Context (PerceptionPipelineResult Context) :=
  match buildExecutionOrder p with
  | none => .throw ()
  | some (orderStatus, executionOrder) =>
    if !orderStatus.isOk then return ⟨orderStatus, context, []⟩
    else runStages context [] executionOrder

end Execute

end HumanoidCore.Perception
