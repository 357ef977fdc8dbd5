import HumanoidCore.Lib.History
import HumanoidCore.ModelManager

namespace HumanoidCore.Proofs.InferenceRuns
open Lib Common Models

/-- A call has asked the engine, which answered this. -/
def Asked (e : Engine) (c : InferenceEngineCapabilities) (u : State) (a : Action) : Prop :=
  ∃ i input, a = .move i input ∧ u.clients[i]? = some (.registerEngine (some e)) ∧
    input.capabilities = some c

/-- A call has registered the model, whose engine was registered. -/
def Placed (d : ModelDescriptor) (u : State) (a : Action) : Prop :=
  ∃ i input given, a = .move i input ∧ u.clients[i]? = some (.registerModel given) ∧
    d = { given with timestamp := d.timestamp } ∧ d.engineId ∈ u.engines

/-- The call has found the engine under the identifier that the model it asks for names. -/
def Found (i : Nat) (r : InferenceRequest) (e : Engine) (u : State) (a : Action) : Prop :=
  ∃ input d, a = .move i input ∧ u.clients[i]? = some (.runInference r) ∧
    u.models.get? r.modelId = some d ∧ u.engines.get? d.engineId = some e

/-- What the progress of a call says about the run. -/
def Grounded (as : List Action) (i : Nat) : Client → Prop
  | .emplacing e c => c.isValid = true ∧ Happened step {} (Asked e c) as
  | .running r e => Happened step {} (Found i r e) as
  | .inferred r result => result.modelId = "" → r.modelId = ""
  | _ => True

/-- What the tables say about the run. -/
structure Tables (as : List Action) (s : State) : Prop where
  paired : ∀ id, id ∈ s.engines ↔ id ∈ s.engineCapabilities
  engines : ∀ id e, s.engines.get? id = some e → ∃ c, s.engineCapabilities.get? id = some c ∧
    c.engineId = id ∧ c.isValid = true ∧ Happened step {} (Asked e c) as
  models : ∀ id d, s.models.get? id = some d →
    d.modelId = id ∧ d.isValid = true ∧ Happened step {} (Placed d) as

structure Kept (as : List Action) (s : State) : Prop where
  tables : Tables as s
  clients : ∀ i c, s.clients[i]? = some c → Grounded as i c

theorem Grounded.later {as : List Action} {i : Nat} {c : Client} (h : Grounded as i c)
    (bs : List Action) : Grounded (as ++ bs) i c := by
  cases c with
  | emplacing e c => exact ⟨h.1, h.2.later bs⟩
  | running r e => exact Happened.later h bs
  | inferred r result => exact h
  | _ => trivial

theorem Tables.later {as : List Action} {s : State} (h : Tables as s) (bs : List Action) :
    Tables (as ++ bs) s where
  paired := h.paired
  engines id e he := by
    obtain ⟨c, hc, hid, hvalid, hasked⟩ := h.engines id e he
    exact ⟨c, hc, hid, hvalid, hasked.later bs⟩
  models id d hd := by
    obtain ⟨hid, hvalid, hplaced⟩ := h.models id d hd
    exact ⟨hid, hvalid, hplaced.later bs⟩

theorem tables_empty : Tables [] {} where
  paired id := by simp
  engines id e h := by simp at h
  models id d h := by simp at h

theorem tables_emplace {as : List Action} {s : State} (h : Tables as s) {e : Engine}
    {c : InferenceEngineCapabilities} (hc : c.isValid = true ∧ Happened step {} (Asked e c) as) :
    Tables as (emplaceEngine s e c).1 := by
  unfold emplaceEngine
  by_cases hin : c.engineId ∈ s.engines
  · rwa [if_pos hin]
  · have hfree : c.engineId ∉ s.engineCapabilities := by rwa [← h.paired]
    rw [if_neg hin, Map.emplace, if_neg hfree]
    refine ⟨?_, ?_, h.models⟩
    · intro id
      simp [h.paired]
    · intro id e' he
      simp only [Map.get?_insert] at he ⊢
      by_cases hid : id = c.engineId
      · rw [if_pos hid] at he ⊢
        cases he
        exact ⟨c, rfl, hid.symm, hc⟩
      · rw [if_neg hid] at he ⊢
        exact h.engines id e' he

theorem tables_unregister_engine {as : List Action} {s : State} (h : Tables as s) (id : String) :
    Tables as (unregisterEngine s id).1 := by
  unfold unregisterEngine
  split
  · exact h
  · split
    · exact h
    · refine ⟨?_, ?_, h.models⟩
      · intro id'
        simp [h.paired]
      · intro id' e he
        simp only [Map.get?_erase] at he ⊢
        by_cases hid : id' = id
        · rw [if_pos hid] at he
          cases he
        · rw [if_neg hid] at he ⊢
          exact h.engines id' e he

theorem tables_register_model {as : List Action} {s : State} (h : Tables as s)
    (hrun : run step {} as = some s) {i : Nat} {given : ModelDescriptor}
    (hi : s.clients[i]? = some (.registerModel given)) (input : Input) :
    Tables (as ++ [.move i input]) (registerModel s given input.now).1 := by
  have hlater := h.later [.move i input]
  unfold registerModel
  by_cases hvalid : given.isValid = true
  · rw [hvalid, if_neg (by simp)]
    simp only
    generalize hd : (if given.timestamp = 0 then { given with timestamp := input.now }
      else given) = d
    have hsame : d = { given with timestamp := d.timestamp } := by
      rw [← hd]
      split <;> rfl
    split
    · exact hlater
    · rename_i hengine
      split
      · exact hlater
      · refine ⟨hlater.paired, hlater.engines, ?_⟩
        intro id d' hd'
        rw [Map.get?_insert] at hd'
        split at hd'
        · rename_i hid
          cases hd'
          refine ⟨hid.symm, by rw [hsame]; exact hvalid, ?_⟩
          exact happened_now hrun ⟨i, input, given, rfl, hi, hsame, not_not.mp hengine⟩
        · exact hlater.models id d' hd'
  · simpa [hvalid] using hlater

theorem tables_unregister_model {as : List Action} {s : State} (h : Tables as s) (id : String) :
    Tables as (unregisterModel s id).1 := by
  unfold unregisterModel
  split
  · exact h
  · split
    · exact h
    · refine ⟨h.paired, h.engines, ?_⟩
      intro id' d hd
      rw [Map.get?_erase] at hd
      split at hd
      · cases hd
      · exact h.models id' d hd

theorem grounded_register {as : List Action} {s : State} (hrun : run step {} as = some s) {i : Nat}
    {engine : Option Engine} (hi : s.clients[i]? = some (.registerEngine engine)) (input : Input) :
    Grounded (as ++ [.move i input]) i (registerEngine engine input) := by
  unfold registerEngine
  cases engine with
  | none => trivial
  | some e =>
    cases hc : input.capabilities with
    | none => trivial
    | some c =>
      by_cases hvalid : c.isValid = true
      · simp only [hvalid, Bool.not_true, Bool.false_eq_true, if_false]
        exact ⟨hvalid, happened_now hrun ⟨i, input, rfl, hi, hc⟩⟩
      · simp only [hvalid, Bool.not_false, if_true]
        trivial

theorem grounded_find {as : List Action} {s : State} (hrun : run step {} as = some s) {i : Nat}
    {r : InferenceRequest} (hi : s.clients[i]? = some (.runInference r)) (input : Input) :
    Grounded (as ++ [.move i input]) i (findEngine s r) := by
  unfold findEngine
  by_cases hmodel : r.hasModel = true
  · simp only [hmodel, Bool.not_true, Bool.false_eq_true, if_false]
    cases hd : s.models.get? r.modelId with
    | none => exact id
    | some d =>
      cases he : s.engines.get? d.engineId with
      | none =>
        simp only [he]
        exact id
      | some e =>
        simp only [he]
        exact happened_now hrun ⟨input, d, rfl, hi, hd, he⟩
  · simp only [hmodel, Bool.not_false, if_true]
    intro _
    simpa [InferenceRequest.hasModel] using hmodel

theorem run_engine_named (r : InferenceRequest) (input : Input) :
    (runEngine r input).modelId = "" → r.modelId = "" := by
  unfold runEngine
  cases input.result with
  | none => exact id
  | some result =>
    simp only
    split
    · exact id
    · exact fun h => absurd h (by assumption)

/-- What a section does to the tables, and where it leaves its call. -/
theorem section_kept {as : List Action} {s t : State} (hrun : run step {} as = some s)
    (h : Kept as s) {i : Nat} {input : Input} {c next : Client} (hi : s.clients[i]? = some c)
    (hstep : clientStep s input c = some (t, next)) :
    Tables (as ++ [.move i input]) t ∧ t.clients = s.clients ∧
      Grounded (as ++ [.move i input]) i next := by
  have hlater := h.tables.later [.move i input]
  have hmine := (h.clients i c hi).later [.move i input]
  cases c with
  | registerEngine engine =>
    cases hstep
    exact ⟨hlater, rfl, grounded_register hrun hi input⟩
  | emplacing e c =>
    cases hstep
    refine ⟨tables_emplace hlater hmine, ?_, trivial⟩
    unfold emplaceEngine
    split <;> rfl
  | unregisterEngine id =>
    cases hstep
    refine ⟨tables_unregister_engine hlater id, ?_, trivial⟩
    unfold unregisterEngine
    split
    · rfl
    · split <;> rfl
  | registerModel given =>
    cases hstep
    refine ⟨tables_register_model h.tables hrun hi input, ?_, trivial⟩
    unfold registerModel
    split
    · rfl
    · simp only
      split <;> split <;> first | rfl | split <;> rfl
  | unregisterModel id =>
    cases hstep
    refine ⟨tables_unregister_model hlater id, ?_, trivial⟩
    unfold unregisterModel
    split
    · rfl
    · split <;> rfl
  | runInference r =>
    cases hstep
    exact ⟨hlater, rfl, grounded_find hrun hi input⟩
  | running r e =>
    cases hstep
    exact ⟨hlater, rfl, run_engine_named r input⟩
  | returned status => cases hstep
  | inferred r result => cases hstep

theorem grounded_fresh {as : List Action} {i : Nat} {c : Client} (h : c.isFresh = true) :
    Grounded as i c := by
  cases c with
  | emplacing e c => cases h
  | running r e => cases h
  | inferred r result => cases h
  | _ => trivial

/-- Whatever the calls do next. -/
theorem Kept.step {as : List Action} {s t : State} {a : Action} (h : Kept as s)
    (hrun : run step {} as = some s) (hstep : Models.step s a = some t) : Kept (as ++ [a]) t := by
  cases a with
  | call c =>
    simp only [Models.step, Option.ite_none_right_eq_some, Option.some.injEq] at hstep
    obtain ⟨hfresh, rfl⟩ := hstep
    have hlater := h.tables.later [.call c]
    refine ⟨⟨hlater.paired, hlater.engines, hlater.models⟩, ?_⟩
    intro j d hd
    rcases get_of_get_snoc hd with ⟨-, rfl⟩ | hd
    · exact grounded_fresh hfresh
    · exact (h.clients j d hd).later [.call c]
  | move i input =>
    simp only [Models.step] at hstep
    cases hi : s.clients[i]? with
    | none => simp [hi] at hstep
    | some c =>
      cases hc : clientStep s input c with
      | none => simp [hi, hc] at hstep
      | some moved =>
        obtain ⟨u, next⟩ := moved
        simp only [hi, hc, Option.some.injEq] at hstep
        subst t
        obtain ⟨htables, hclients, hnext⟩ := section_kept hrun h hi hc
        refine ⟨⟨htables.paired, htables.engines, htables.models⟩, ?_⟩
        intro j d hd
        simp only [hclients] at hd
        by_cases hij : i = j
        · subst j
          obtain ⟨hlt, -⟩ := List.getElem?_eq_some_iff.mp hi
          rw [List.getElem?_set_self hlt] at hd
          cases hd
          exact hnext
        · rw [List.getElem?_set_ne hij] at hd
          exact (h.clients j d hd).later [.move i input]

theorem kept {as : List Action} {s : State} (h : run step {} as = some s) : Kept as s := by
  induction as using List.reverseRecOn generalizing s with
  | nil =>
    cases h
    exact ⟨tables_empty, fun i c hc => by simp at hc⟩
  | append_singleton as a ih =>
    rw [run_append] at h
    obtain ⟨u, hu, hlast⟩ := Option.bind_eq_some_iff.mp h
    obtain ⟨v, hv, hnil⟩ := run_cons hlast
    cases hnil
    exact (ih hu).step hu hv

/-- However the calls interleave: an engine is registered with what it answered, a model was
registered while its engine was, a call runs the engine that the model named at one moment
of the call, when both were registered, and what it returns names a model. -/
theorem inference_grounded {as : List Action} {s : State} (h : run step {} as = some s) :
    (∀ id, id ∈ s.engines ↔ id ∈ s.engineCapabilities) ∧
    (∀ id e, s.engines.get? id = some e → ∃ c, s.engineCapabilities.get? id = some c ∧
      c.engineId = id ∧ c.isValid = true ∧ Happened step {} (Asked e c) as) ∧
    (∀ id d, s.models.get? id = some d →
      d.modelId = id ∧ d.isValid = true ∧ Happened step {} (Placed d) as) ∧
    (∀ i r e, s.clients[i]? = some (.running r e) → Happened step {} (Found i r e) as) ∧
    ∀ (i : Nat) r result, s.clients[i]? = some (.inferred r result) → result.modelId = "" →
      r.modelId = "" := by
  have hk := kept h
  refine ⟨hk.tables.paired, hk.tables.engines, hk.tables.models, ?_, ?_⟩
  · exact fun i r e hi => hk.clients i _ hi
  · exact fun i r result hi => hk.clients i _ hi

/-- An engine that is replaced between the two sections of a call still runs it. -/
def replaced : List Action :=
  let capabilities : InferenceEngineCapabilities := { engineId := "cpu", name := "CPU" }
  let model : ModelDescriptor :=
    { modelId := "pose", name := "Pose", format := "onnx", engineId := "cpu" }
  [.call (.registerEngine (some 1)), .call (.registerModel model),
    .call (.runInference { modelId := "pose" }), .call (.unregisterEngine "cpu"),
    .call (.registerEngine (some 2)), .move 0 { capabilities := some capabilities }, .move 0 {},
    .move 1 {}, .move 2 {}, .move 3 {}, .move 4 { capabilities := some capabilities }, .move 4 {}]

theorem inference_grounded_replaced : ∃ s, run step {} replaced = some s ∧
    s.clients[2]? = some (.running { modelId := "pose" } 1) ∧ s.engines.get? "cpu" = some 2 ∧
    Happened step {} (Found 2 { modelId := "pose" } 1) replaced := by
  refine ⟨_, rfl, rfl, rfl, ?_⟩
  exact (inference_grounded rfl).2.2.2.1 2 _ 1 rfl

end HumanoidCore.Proofs.InferenceRuns
