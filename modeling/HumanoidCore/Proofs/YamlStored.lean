import HumanoidCore.Proofs.DocumentStrict
import HumanoidCore.Proofs.YamlIntegers

namespace HumanoidCore.Missions
open Core Documents

section Appended
variable {α : Type} {R : JsonValue → α → Prop} {xs ys zs : List α}

/-- A reader of a sequence adds what it reads of each entry. -/
def Appended (R : JsonValue → α → Prop) (xs : List α) (ws : List JsonValue) (ys : List α) : Prop :=
  ∃ read, ys = xs ++ read ∧ List.Forall₂ R ws read

theorem Appended.nil (xs : List α) : Appended R xs [] xs :=
  ⟨[], (List.append_nil xs).symm, .nil⟩

theorem Appended.append {fs gs : List JsonValue} (h : Appended R xs fs ys)
    (h' : Appended R ys gs zs) : Appended R xs (fs ++ gs) zs := by
  obtain ⟨read, rfl, hf⟩ := h
  obtain ⟨more, rfl, hg⟩ := h'
  exact ⟨read ++ more, by rw [List.append_assoc], List.rel_append hf hg⟩

end Appended

section Steps
variable (convert : Convert)

def DurationSet (name : String) (f : String × JsonValue) (d d' : Option Int) : Prop :=
  Sets name (fun v d => ∃ n, d = some n ∧ Chain (DurationTakes convert) 0 (members v) n) f d d'

def ConditionStored (w : JsonValue) (condition : MissionCondition) : Prop :=
  ∀ field : ConditionInteger,
    Takes .yaml convert field.kind (field.written w) (field.stored condition)

/-- What a field of a step does to the integers of the step. -/
structure StepTakes (s : MissionStep) (f : String × JsonValue) (s' : MissionStep) : Prop where
  id : SetsInteger convert .uint64 "id" f (some s.id) (some s'.id)
  timeout : SetsInteger convert .int64 "timeout_ms" f (some s.timeout) (some s'.timeout)
  retry : SetsInteger convert .uint32 "retry" f (some s.retry.toNat) (some s'.retry.toNat)
  retryPolicy : Chain (RetryTakes convert) s.retryPolicy
    (if f.1 = "retry_policy" then members f.2 else []) s'.retryPolicy
  loopPolicy : Chain (LoopTakes convert) s.loopPolicy
    (if f.1 = "loop_policy" then members f.2 else []) s'.loopPolicy
  timeoutPolicy : Chain (TimeoutTakes convert) s.timeoutPolicy
    (if f.1 = "timeout_policy" then members f.2 else []) s'.timeoutPolicy
  command : Chain (CommandTakes convert) s.command
    (if f.1 = "command" then members f.2 else []) s'.command
  wait : DurationSet convert "wait" f s.wait s'.wait
  delay : DurationSet convert "delay" f s.delay s'.delay
  conditions : Appended (ConditionStored convert) s.conditions
    (if f.1 = "conditions" then elements f.2 else []) s'.conditions

end Steps

section Readers
variable {convert : Convert} {e b : Nat} {lines rest : List YamlLine} {s s' : MissionStep}

theorem retry_taken (convert : Convert) {p p' : RetryPolicy} (h : parseYamlRetryPolicy e b p lines = .ok (p', rest)) :
    ∃ inner, Went (e + b) lines inner rest ∧
      Chain (RetryTakes convert) p (literalFields inner) p' :=
  scalars_taken (fun _ _ _ _ _ ha => retry_applied ha) h

theorem timeout_taken (convert : Convert) {p p' : TimeoutPolicy}
    (h : parseYamlTimeoutPolicy e b p lines = .ok (p', rest)) :
    ∃ inner, Went (e + b) lines inner rest ∧
      Chain (TimeoutTakes convert) p (literalFields inner) p' :=
  scalars_taken (fun _ _ _ _ _ ha => timeout_applied ha) h

theorem loop_taken (convert : Convert) {p p' : LoopPolicy} (h : parseYamlLoopPolicy e b p lines = .ok (p', rest)) :
    ∃ inner, Went (e + b) lines inner rest ∧
      Chain (LoopTakes convert) p (literalFields inner) p' := by
  refine only_taken (fun p value p' hp => ?_) h
  obtain ⟨iterations, hread, rfl⟩ := stored_ok.mp hp
  exact sets_literal ⟨_, iterations, hread, rfl⟩

theorem wait_taken (convert : Convert) {d d' : Int} (h : parseYamlWaitStep e b d lines = .ok (d', rest)) :
    ∃ inner, Went (e + b) lines inner rest ∧
      Chain (DurationTakes convert) d (literalFields inner) d' := by
  have happly : ∀ (d : Int) (value : Text) (d' : Int),
      parseInt64 value "wait.duration_ms" = .ok d' →
        DurationTakes convert d ("duration_ms", literal value) d' :=
    fun _ _ d' hread => sets_literal ⟨_, d', hread, rfl⟩
  exact only_taken happly h

theorem delay_taken (convert : Convert) {d d' : Int} (h : parseYamlDelayStep e b d lines = .ok (d', rest)) :
    ∃ inner, Went (e + b) lines inner rest ∧
      Chain (DurationTakes convert) d (literalFields inner) d' := by
  have happly : ∀ (d : Int) (value : Text) (d' : Int),
      parseInt64 value "delay.duration_ms" = .ok d' →
        DurationTakes convert d ("duration_ms", literal value) d' :=
    fun _ _ d' hread => sets_literal ⟨_, d', hread, rfl⟩
  exact only_taken happly h

theorem conditions_taken {conditions conditions' : List MissionCondition}
    (h : parseYamlConditions convert e b conditions lines = .ok (conditions', rest)) :
    ∃ inner, Went (e + b) lines inner rest ∧
      Appended (ConditionStored convert) conditions (literalItems inner) conditions' := by
  obtain ⟨inner, hw, -, read, he, hf⟩ := read_sequence
    (fun x condition => ConditionStored convert x.literalItem condition)
    (fun line lines condition rest _ hi => by
      obtain ⟨inner, hw, hx⟩ := condition_taken hi
      exact ⟨inner, hw.mono (by omega), hx⟩) h
  refine ⟨inner, hw, read, he, ?_⟩
  rw [literal_items]
  exact List.forall₂_map_left_iff.mpr hf

theorem step_applied {key : String} {value : Text} {n : Nat}
    (h : applyYamlStepField s key value n = .ok s') :
    StepTakes convert s (key, literal value) s' := by
  unfold applyYamlStepField at h
  rw [ite_eq_iff] at h
  obtain ⟨rfl, h⟩ | ⟨-, h⟩ := h
  · obtain ⟨id, hread, rfl⟩ := stored_ok.mp h
    constructor
    case id => exact sets_literal ⟨_, id, hread, rfl⟩
    all_goals simp [SetsInteger, DurationSet, Sets, Chain, Appended.nil]
  rw [ite_eq_iff] at h
  obtain ⟨rfl, h⟩ | ⟨-, h⟩ := h
  · obtain rfl := Except.ok.inj h
    constructor <;> simp [SetsInteger, DurationSet, Sets, Chain, Appended.nil]
  rw [ite_eq_iff] at h
  obtain ⟨rfl, h⟩ | ⟨-, h⟩ := h
  · obtain ⟨timeout, hread, rfl⟩ := stored_ok.mp h
    constructor
    case timeout => exact sets_literal ⟨_, timeout, hread, rfl⟩
    all_goals simp [SetsInteger, DurationSet, Sets, Chain, Appended.nil]
  rw [ite_eq_iff] at h
  obtain ⟨rfl, h⟩ | ⟨-, h⟩ := h
  · obtain ⟨retry, hread, rfl⟩ := stored_ok.mp h
    constructor
    case retry => exact sets_literal ⟨_, retry, hread, rfl⟩
    all_goals simp [SetsInteger, DurationSet, Sets, Chain, Appended.nil]
  iterate 3
    rw [ite_eq_iff] at h
    obtain ⟨rfl, h⟩ | ⟨-, h⟩ := h
    · obtain ⟨_, -, rfl⟩ := stored_ok.mp h
      constructor <;> simp [SetsInteger, DurationSet, Sets, Chain, Appended.nil]
  simp at h

theorem step_round {line : YamlLine} (h : stepRound convert b s line lines = .ok (s', rest)) :
    ∃ inner, Went (4 + b + 1) lines inner rest ∧
      StepTakes convert s (Entry.mk line inner).literalField s' := by
  simp only [stepRound, bind_ok] at h
  obtain ⟨⟨key, value⟩, hs, h⟩ := h
  obtain ⟨rfl, rfl⟩ := split_parts hs
  dsimp only at h
  rw [ite_eq_iff] at h
  obtain ⟨command, h⟩ | ⟨-, h⟩ := h
  · obtain ⟨hv, _, hr, ⟨⟩⟩ := nested_read h
    obtain ⟨inner, hw, hc⟩ := command_taken hr
    refine ⟨inner, hw.mono (by omega), ?_⟩
    rw [literal_block command (by decide) hv]
    constructor
    case command => simpa [members] using hc
    all_goals simp [SetsInteger, DurationSet, Sets, Chain, Appended.nil]
  rw [ite_eq_iff] at h
  obtain ⟨retry, h⟩ | ⟨-, h⟩ := h
  · obtain ⟨hv, _, hr, ⟨⟩⟩ := nested_read h
    obtain ⟨inner, hw, hc⟩ := retry_taken convert hr
    refine ⟨inner, hw.mono (by omega), ?_⟩
    rw [literal_block retry (by decide) hv]
    constructor
    case retryPolicy => simpa [members] using hc
    all_goals simp [SetsInteger, DurationSet, Sets, Chain, Appended.nil]
  rw [ite_eq_iff] at h
  obtain ⟨loop, h⟩ | ⟨-, h⟩ := h
  · obtain ⟨hv, _, hr, ⟨⟩⟩ := nested_read h
    obtain ⟨inner, hw, hc⟩ := loop_taken convert hr
    refine ⟨inner, hw.mono (by omega), ?_⟩
    rw [literal_block loop (by decide) hv]
    constructor
    case loopPolicy => simpa [members] using hc
    all_goals simp [SetsInteger, DurationSet, Sets, Chain, Appended.nil]
  rw [ite_eq_iff] at h
  obtain ⟨timeout, h⟩ | ⟨-, h⟩ := h
  · obtain ⟨hv, _, hr, ⟨⟩⟩ := nested_read h
    obtain ⟨inner, hw, hc⟩ := timeout_taken convert hr
    refine ⟨inner, hw.mono (by omega), ?_⟩
    rw [literal_block timeout (by decide) hv]
    constructor
    case timeoutPolicy => simpa [members] using hc
    all_goals simp [SetsInteger, DurationSet, Sets, Chain, Appended.nil]
  rw [ite_eq_iff] at h
  obtain ⟨wait, h⟩ | ⟨-, h⟩ := h
  · obtain ⟨hv, ⟨d, _⟩, hr, ⟨⟩⟩ := nested_read h
    obtain ⟨inner, hw, hc⟩ := wait_taken convert hr
    refine ⟨inner, hw.mono (by omega), ?_⟩
    rw [literal_block wait (by decide) hv]
    constructor
    case wait => exact ⟨d, rfl, hc⟩
    all_goals simp [SetsInteger, DurationSet, Sets, Chain, Appended.nil]
  rw [ite_eq_iff] at h
  obtain ⟨delay, h⟩ | ⟨-, h⟩ := h
  · obtain ⟨hv, ⟨d, _⟩, hr, ⟨⟩⟩ := nested_read h
    obtain ⟨inner, hw, hc⟩ := delay_taken convert hr
    refine ⟨inner, hw.mono (by omega), ?_⟩
    rw [literal_block delay (by decide) hv]
    constructor
    case delay => exact ⟨d, rfl, hc⟩
    all_goals simp [SetsInteger, DurationSet, Sets, Chain, Appended.nil]
  rw [ite_eq_iff] at h
  obtain ⟨conditions, h⟩ | ⟨-, h⟩ := h
  · obtain ⟨hv, _, hr, ⟨⟩⟩ := nested_read h
    obtain ⟨inner, hw, hread⟩ := conditions_taken hr
    refine ⟨inner, hw.mono (by omega), ?_⟩
    rw [literal_list conditions (by decide) hv]
    constructor
    case conditions => simpa [elements] using hread
    all_goals simp [SetsInteger, DurationSet, Sets, Chain]
  rw [ite_eq_iff] at h
  obtain ⟨metadata, h⟩ | ⟨-, h⟩ := h
  · obtain ⟨hv, _, hr, ⟨⟩⟩ := nested_read h
    obtain ⟨inner, hw⟩ := read_string_map hr
    refine ⟨inner, hw.mono (by omega), ?_⟩
    rw [literal_block metadata (by decide) hv]
    constructor <;> simp [SetsInteger, DurationSet, Sets, Chain, Appended.nil]
  obtain ⟨rfl, hv, ha⟩ := scalar_round h
  refine ⟨[], Went.nothing _ _, ?_⟩
  rw [literal_scalar hv]
  exact step_applied ha

/-- The blocks of one name, taken together. -/
theorem chain_gathered {σ τ : Type} {P : σ → String × JsonValue → σ → Prop}
    {taken : τ → String × JsonValue → τ → Prop} {g : σ → τ} {name : String} {x x' : σ}
    {fields : List (String × JsonValue)} (h : Chain P x fields x')
    (hpart : ∀ x f x', P x f x' →
      Chain taken (g x) (if f.1 = name then members f.2 else []) (g x')) :
    Chain taken (g x) (members (gathered (.object fields) name)) (g x') :=
  chain_parts (P := Chain taken) (fun _ => rfl) (fun _ _ _ _ _ => chain_append) h hpart

theorem duration_set {fields : List (String × JsonValue)} {name : String}
    {g : MissionStep → Option Int} (h : Chain (StepTakes convert) s fields s')
    (hset : ∀ s f s', StepTakes convert s f s' → DurationSet convert name f (g s) (g s')) :
    Takes .yaml convert .int64
      ((finalMember (.object fields) name).bind (finalMember · "duration_ms")) (g s') := by
  rcases chain_final h hset with ⟨hnone, -⟩ | ⟨v, hsome, n, hn, hc⟩
  · rw [hnone]
    exact takes_none
  · rw [hsome, hn]
    exact chain_takes .int64 some hc (fun _ _ _ ht => ht)

/-- The integers of a step, all its fields taken together. -/
theorem step_integers {fields : List (String × JsonValue)}
    (h : Chain (StepTakes convert) {} fields s) (field : StepInteger) :
    Takes .yaml convert field.kind (field.written (.object fields)) (field.stored s) := by
  have hretry := chain_gathered (g := MissionStep.retryPolicy) h (fun _ _ _ ht => ht.retryPolicy)
  have hloop := chain_gathered (g := MissionStep.loopPolicy) h (fun _ _ _ ht => ht.loopPolicy)
  have htimeout := chain_gathered (g := MissionStep.timeoutPolicy) h
    (fun _ _ _ ht => ht.timeoutPolicy)
  have hcommand := chain_gathered (g := MissionStep.command) h (fun _ _ _ ht => ht.command)
  have hconditions : Appended (ConditionStored convert) [] (listed (.object fields) "conditions")
      s.conditions :=
    chain_parts (g := MissionStep.conditions) .nil (fun _ _ _ _ _ => .append) h
      (fun _ _ _ ht => ht.conditions)
  cases field with
  | id =>
    exact chain_takes .uint64 (fun s : MissionStep => some (s.id : Int)) h (fun _ _ _ ht => ht.id)
  | timeout =>
    exact chain_takes .int64 (fun s : MissionStep => some s.timeout) h (fun _ _ _ ht => ht.timeout)
  | retry =>
    exact chain_takes .uint32 (fun s : MissionStep => some (s.retry.toNat : Int)) h
      (fun _ _ _ ht => ht.retry)
  | maxAttempts =>
    exact chain_takes .uint32 (fun p : RetryPolicy => some (p.maxAttempts.toNat : Int)) hretry
      (fun _ _ _ ht => ht.maxAttempts)
  | delayBetweenAttempts =>
    exact chain_takes .int64 (fun p : RetryPolicy => some p.delayBetweenAttempts) hretry
      (fun _ _ _ ht => ht.delay)
  | iterations =>
    exact chain_takes .uint32 (fun p : LoopPolicy => some (p.iterations.toNat : Int)) hloop
      (fun _ _ _ ht => ht)
  | policyTimeout =>
    exact chain_takes .int64 (fun p : TimeoutPolicy => some p.timeout) htimeout
      (fun _ _ _ ht => ht)
  | wait => exact duration_set h (fun _ _ _ ht => ht.wait)
  | delay => exact duration_set h (fun _ _ _ ht => ht.delay)
  | command field => exact command_integers rfl hcommand field
  | condition index field =>
    obtain ⟨read, hread, hf⟩ := hconditions
    rw [List.nil_append] at hread
    subst hread
    exact takes_index hf (fun w condition hw => hw field) index

def StepStored (convert : Convert) (w : JsonValue) (step : MissionStep) : Prop :=
  ∀ field : StepInteger, Takes .yaml convert field.kind (field.written w) (field.stored step)

theorem step_taken {line : YamlLine} (h : parseYamlStep convert b (line :: lines) = .ok (s, rest)) :
    ∃ inner, Went (4 + b) lines inner rest ∧
      StepStored convert (Entry.mk line inner).literalItem s := by
  simp only [parseYamlStep, bind_ok] at h
  obtain ⟨start, hstart, h⟩ := h
  have hfirst : Chain (StepTakes convert) {} (entryLiterals line) start :=
    first_taken (fun _ _ _ _ _ ha => step_applied ha) hstart
  obtain ⟨inner, hw, hc⟩ := read_mapping (fun s x s' => StepTakes convert s x.literalField s')
    (fun line leaves => leaves_step) (fun _ _ _ _ _ hr => step_round hr) h
  have hall : Chain (StepTakes convert) {} (entryLiterals line ++ literalFields inner) s := by
    rw [literal_fields]
    exact chain_append hfirst (chain_map hc)
  exact ⟨inner, hw, step_integers hall⟩

theorem steps_taken {steps steps' : List MissionStep}
    (h : parseYamlSteps convert b steps lines = .ok (steps', rest)) :
    ∃ inner, Went (2 + b) lines inner rest ∧
      Appended (StepStored convert) steps (literalItems inner) steps' := by
  obtain ⟨inner, hw, -, read, he, hf⟩ := read_sequence
    (fun x step => StepStored convert x.literalItem step)
    (fun line lines step rest _ hi => by
      obtain ⟨inner, hw, hx⟩ := step_taken hi
      exact ⟨inner, hw.mono (by omega), hx⟩) h
  refine ⟨inner, hw, read, he, ?_⟩
  rw [literal_items]
  exact List.forall₂_map_left_iff.mpr hf

end Readers

section Missions
variable {convert : Convert} {b : Nat} {lines rest : List YamlLine} {m m' : Mission}

/-- What a field of a mission does to the integers of the mission. -/
structure MissionTakes (convert : Convert) (m : Mission) (f : String × JsonValue) (m' : Mission) :
    Prop where
  id : SetsInteger convert .uint64 "id" f (some m.id) (some m'.id)
  steps : Appended (StepStored convert) m.steps
    (if f.1 = "steps" then elements f.2 else []) m'.steps
  known : f.1 ≠ "mission"

theorem mission_applied {key : String} {value : Text} {n : Nat}
    (h : applyYamlMissionField m key value n = .ok m') :
    MissionTakes convert m (key, literal value) m' := by
  unfold applyYamlMissionField at h
  rw [ite_eq_iff] at h
  obtain ⟨rfl, h⟩ | ⟨-, h⟩ := h
  · obtain ⟨id, hread, rfl⟩ := stored_ok.mp h
    exact ⟨sets_literal ⟨_, id, hread, rfl⟩, .nil _, by simp⟩
  rw [ite_eq_iff] at h
  obtain ⟨rfl, h⟩ | ⟨-, h⟩ := h
  · obtain rfl := Except.ok.inj h
    exact ⟨sets_other (by simp) rfl, .nil _, by simp⟩
  rw [ite_eq_iff] at h
  obtain ⟨rfl, h⟩ | ⟨-, h⟩ := h
  · obtain rfl := Except.ok.inj h
    exact ⟨sets_other (by simp) rfl, .nil _, by simp⟩
  rw [ite_eq_iff] at h
  obtain ⟨rfl, h⟩ | ⟨-, h⟩ := h
  · obtain rfl := Except.ok.inj h
    exact ⟨sets_other (by simp) rfl, .nil _, by simp⟩
  rw [ite_eq_iff] at h
  obtain ⟨rfl, h⟩ | ⟨-, h⟩ := h
  · obtain rfl := Except.ok.inj h
    exact ⟨sets_other (by simp) rfl, .nil _, by simp⟩
  simp at h

theorem mission_round {line : YamlLine}
    (h : missionRound convert b m line lines = .ok (m', rest)) :
    ∃ inner, Went (b + 1) lines inner rest ∧
      MissionTakes convert m (Entry.mk line inner).literalField m' := by
  simp only [missionRound, bind_ok] at h
  obtain ⟨⟨key, value⟩, hs, h⟩ := h
  obtain ⟨rfl, rfl⟩ := split_parts hs
  dsimp only at h
  split_ifs at h with metadata steps
  · obtain ⟨hv, _, hr, ⟨⟩⟩ := nested_read h
    obtain ⟨inner, hw⟩ := read_string_map hr
    refine ⟨inner, hw.mono (by omega), ?_⟩
    rw [literal_block metadata (by decide) hv]
    exact ⟨sets_other (by simp) rfl, .nil _, by simp⟩
  · obtain ⟨hv, _, hr, ⟨⟩⟩ := nested_read h
    obtain ⟨inner, hw, hread⟩ := steps_taken hr
    refine ⟨inner, hw.mono (by omega), ?_⟩
    rw [literal_list steps (by decide) hv]
    exact ⟨sets_other (by simp) rfl, by simpa [elements] using hread, by simp⟩
  · obtain ⟨rfl, hv, ha⟩ := scalar_round h
    refine ⟨[], Went.nothing _ _, ?_⟩
    rw [literal_scalar hv]
    exact mission_applied ha

theorem mission_integers {fields : List (String × JsonValue)}
    (h : Chain (MissionTakes convert) {} fields m) (field : MissionInteger) :
    Takes .yaml convert field.kind (field.written (.object fields)) (field.stored m) := by
  cases field with
  | id =>
    exact chain_takes .uint64 (fun m : Mission => some (m.id : Int)) h (fun _ _ _ ht => ht.id)
  | step index field =>
    have hsteps : Appended (StepStored convert) [] (listed (.object fields) "steps") m.steps :=
      chain_parts (g := Mission.steps) .nil (fun _ _ _ _ _ => .append) h
        (fun _ _ _ ht => ht.steps)
    obtain ⟨read, hread, hf⟩ := hsteps
    rw [List.nil_append] at hread
    subst hread
    exact takes_index hf (fun w step hw => hw field) index

/-- All the lines of a mission are its fields. -/
theorem mission_taken
    (h : readWhile (leavesMission b) (missionRound convert b) {} lines = .ok (m, rest)) :
    (∀ l ∈ lines, b ≤ l.indent) ∧
      Chain (MissionTakes convert) {} (literalFields (outline lines)) m := by
  obtain ⟨inner, ⟨block, hl, rfl, hb⟩, hc⟩ := read_mapping
    (fun m x m' => MissionTakes convert m x.literalField m')
    (fun line leaves hl => by
      obtain ⟨rfl, hi⟩ := leaves_mission hl
      exact hi) (fun _ _ _ _ _ hr => mission_round hr) h
  rw [mission_rounds h, List.append_nil] at hl
  subst hl
  refine ⟨hb, ?_⟩
  rw [literal_fields]
  exact chain_map hc

/-- A mission under `mission:` is the only field of the document. -/
theorem wrapped_literals {first : YamlLine} {lines : List YamlLine}
    (hfirst : first.indent = 0 ∧ first.content = "mission:".toList)
    (hb : ∀ l ∈ lines, 2 ≤ l.indent) :
    literalFields (outline (first :: lines)) =
      [("mission", .object (literalFields (outline lines)))] := by
  have ho : outline (first :: lines) = [.mk first (outline lines)] := by
    have := @outline_cons first lines []
      (fun l hl => by have := hb l hl; omega) (by simp [Shallow])
    simpa [outline] using this
  have hn : nameIn first.content = "mission" := by
    rw [hfirst.2]
    decide
  have hv : valueIn first.content = [] := by
    rw [hfirst.2]
    decide
  rw [ho, literal_fields, List.map_cons, List.map_nil, literal_block hn (by decide) hv]

theorem yaml_took {document : Text} (h : missionFromYaml convert document = .ok m) :
    ∃ root, literalTree .yaml document = .ok root ∧ ∀ field : MissionInteger,
      Takes .yaml convert field.kind (field.written (missionPart root)) (field.stored m) := by
  simp only [missionFromYaml, bind_ok] at h
  obtain ⟨lines, hlines, h⟩ := h
  split at h
  · simp at h
  · rename_i hlines'
    simp only [bind_ok] at h
    obtain ⟨⟨_, rest⟩, hr, he⟩ := h
    obtain rfl := Except.ok.inj he
    obtain ⟨hb, hc⟩ := mission_taken hr
    refine ⟨.object (literalFields (outline lines)), ?_, fun field => ?_⟩
    · simp only [literalTree, hlines]
      rfl
    · cases lines with
      | nil => exact absurd rfl hlines'
      | cons first lines =>
        simp only [missionLines] at hb hc
        split at hc
        · rename_i hfirst
          rw [if_pos hfirst] at hb
          rw [wrapped_literals hfirst hb]
          exact mission_integers hc field
        · have hnone : (literalFields (outline (first :: lines))).lookup "mission" = none :=
            List.lookup_eq_none_iff.mpr (fun f hf => bne_iff_ne.mpr
              (Ne.symm (chain_all hc (fun _ _ _ ht => ht.known) f hf)))
          rw [missionPart, members, hnone]
          exact mission_integers hc field

end Missions

end HumanoidCore.Missions
