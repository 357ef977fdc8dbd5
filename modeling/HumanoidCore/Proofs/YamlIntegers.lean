import HumanoidCore.Proofs.LiteralKinds
import HumanoidCore.Proofs.YamlFields

namespace HumanoidCore.Missions
open Core Documents

section Chains
variable {σ τ β : Type} {changes : σ → String × JsonValue → σ → Prop} {s s' : σ} {name : String}
  {fields : List (String × JsonValue)}

/-- A field of one name sets a part of the state, any other leaves it. -/
def Sets (name : String) (took : JsonValue → τ → Prop) (f : String × JsonValue) (x x' : τ) : Prop :=
  if f.1 = name then took f.2 x' else x' = x

/-- The last field of the name has its way. -/
theorem chain_final {took : JsonValue → τ → Prop} {g : σ → τ} (h : Chain changes s fields s')
    (hsets : ∀ s f s', changes s f s' → Sets name took f (g s) (g s')) :
    finalMember (.object fields) name = none ∧ g s' = g s ∨
      ∃ v, finalMember (.object fields) name = some v ∧ took v (g s') := by
  have hfold : ∀ found, (∀ v, found = some v → took v (g s)) →
      fields.foldl (fun found m => if m.1 = name then some m.2 else found) found = found ∧
          g s' = g s ∨
        ∃ v, fields.foldl (fun found m => if m.1 = name then some m.2 else found) found = some v ∧
          took v (g s') := by
    induction fields generalizing s with
    | nil => exact fun found _ => .inl ⟨rfl, congrArg g h⟩
    | cons f fields ih =>
      intro found hfound
      obtain ⟨m, hm, h⟩ := h
      have hset := hsets s f m hm
      unfold Sets at hset
      rw [List.foldl_cons]
      by_cases hname : f.1 = name
      · rw [if_pos hname] at hset ⊢
        rcases ih h (some f.2) (fun v hv => by rwa [← Option.some.inj hv]) with ⟨hfold, hg⟩ | hlast
        · exact .inr ⟨f.2, hfold, by rwa [hg]⟩
        · exact .inr hlast
      · rw [if_neg hname] at hset ⊢
        rw [← hset]
        exact ih h found (fun v hv => by rw [hset]; exact hfound v hv)
  exact hfold none (fun v hv => by cases hv)

theorem chain_takes {convert : Convert} (kind : IntegerKind) (stored : σ → Option Int)
    (h : Chain changes s fields s')
    (hsets : ∀ s f s', changes s f s' →
      Sets name (fun v x => Takes .yaml convert kind (some v) x) f (stored s) (stored s')) :
    Takes .yaml convert kind (finalMember (.object fields) name) (stored s') := by
  rcases chain_final h hsets with ⟨hnone, -⟩ | ⟨v, hsome, htakes⟩
  · rw [hnone]
    exact takes_none
  · rw [hsome]
    exact htakes

/-- What the blocks of one name do to a part of the state, taken together. -/
theorem chain_parts {P : τ → List β → τ → Prop} {part : JsonValue → List β} {g : σ → τ}
    (hnil : ∀ x, P x [] x) (happend : ∀ x y z fs gs, P x fs y → P y gs z → P x (fs ++ gs) z)
    (h : Chain changes s fields s')
    (hpart : ∀ s f s', changes s f s' → P (g s) (if f.1 = name then part f.2 else []) (g s')) :
    P (g s) (fields.flatMap (fun f => if f.1 = name then part f.2 else [])) (g s') := by
  induction fields generalizing s with
  | nil =>
    rw [show s' = s from h]
    exact hnil _
  | cons f fields ih =>
    obtain ⟨m, hm, h⟩ := h
    rw [List.flatMap_cons]
    exact happend _ _ _ _ _ (hpart _ _ _ hm) (ih h)

theorem took_literal {convert : Convert} {kind : IntegerKind} {text : Text} {stored : Option Int}
    (h : TookYaml convert kind text stored) :
    Takes .yaml convert kind (some (literal text)) stored := by
  intro text' he
  rw [literal_inj (Option.some.inj he)] at h
  exact h

end Chains

section Entries
variable {line : YamlLine} {inner : List Entry}

theorem literal_fields (inner : List Entry) :
    literalFields inner = inner.map Entry.literalField := by
  induction inner with
  | nil => rfl
  | cons e inner ih => exact congrArg (e.literalField :: ·) ih

theorem literal_items (inner : List Entry) : literalItems inner = inner.map Entry.literalItem := by
  induction inner with
  | nil => rfl
  | cons e inner ih => exact congrArg (e.literalItem :: ·) ih

theorem literal_field (line : YamlLine) (inner : List Entry) :
    (Entry.mk line inner).literalField =
      (nameIn line.content,
        if inner.isEmpty && !(valueIn line.content).isEmpty then literal (valueIn line.content)
        else if nameIn line.content = "steps" ∨ nameIn line.content = "conditions" then
          .array (literalItems inner)
        else .object (literalFields inner)) := rfl

theorem literal_scalar (hv : valueIn line.content ≠ []) :
    (Entry.mk line []).literalField = (nameIn line.content, literal (valueIn line.content)) := by
  have hv' : (valueIn line.content).isEmpty = false := by
    rw [← Bool.not_eq_true, List.isEmpty_iff]
    exact hv
  simp only [literal_field, List.isEmpty_nil, hv', Bool.not_false, Bool.and_self, if_true]

theorem literal_block {name : String} (hname : nameIn line.content = name)
    (hblock : name ≠ "steps" ∧ name ≠ "conditions") (hv : valueIn line.content = []) :
    (Entry.mk line inner).literalField = (name, .object (literalFields inner)) := by
  simp [literal_field, hname, hv, hblock.1, hblock.2]

theorem literal_list {name : String} (hname : nameIn line.content = name)
    (hlist : name = "steps" ∨ name = "conditions") (hv : valueIn line.content = []) :
    (Entry.mk line inner).literalField = (name, .array (literalItems inner)) := by
  simp only [literal_field, hname, hv, List.isEmpty_nil, Bool.not_true, Bool.and_false,
    Bool.false_eq_true, if_false, if_pos hlist]

end Entries

section Blocks
variable {σ : Type} {convert : Convert} {e b : Nat} {lines rest : List YamlLine}
  {changes : σ → String × JsonValue → σ → Prop} {s s' : σ}

/-- What a reader of scalar fields consumes changes the state field by field. -/
theorem scalars_taken {unexpected missing : String}
    {apply : σ → String → Text → Nat → Reading σ}
    (happly : ∀ s key value n s', apply s key value n = .ok s' → changes s (key, literal value) s')
    (h : readWhile (leavesBlock unexpected e b) (scalarRound missing apply) s lines =
      .ok (s', rest)) :
    ∃ inner, Went (e + b) lines inner rest ∧ Chain changes s (literalFields inner) s' := by
  obtain ⟨inner, hw, hc⟩ := read_mapping (fun s x s' => changes s x.literalField s')
    (fun line leaves => leaves_block) (fun s line lines s' rest hr => by
      obtain ⟨rfl, hv, ha⟩ := scalar_round hr
      refine ⟨[], Went.nothing _ _, ?_⟩
      rw [literal_scalar hv]
      exact happly _ _ _ _ _ ha) h
  refine ⟨inner, hw, ?_⟩
  rw [literal_fields]
  exact chain_map hc

/-- As `scalars_taken`, for the readers that know one field. -/
theorem only_taken {unexpected field path : String} {apply : σ → Text → Reading σ}
    (happly : ∀ s value s', apply s value = .ok s' → changes s (field, literal value) s')
    (h : readWhile (leavesBlock unexpected e b) (fun s => onlyField field path (apply s)) s lines =
      .ok (s', rest)) :
    ∃ inner, Went (e + b) lines inner rest ∧ Chain changes s (literalFields inner) s' := by
  obtain ⟨inner, hw, hc⟩ := read_mapping (fun s x s' => changes s x.literalField s')
    (fun line leaves => leaves_block) (fun s line lines s' rest hr => by
      obtain ⟨rfl, hv, hname⟩ := only_round hr
      refine ⟨[], Went.nothing _ _, ?_⟩
      rw [literal_scalar hv, hname]
      simp only [onlyField, bind_ok] at hr
      obtain ⟨⟨key, value⟩, hs, hr⟩ := hr
      obtain ⟨rfl, rfl⟩ := split_parts hs
      dsimp only at hr
      split at hr
      · simp at hr
      · simp only [bind_ok, pure_eq, Except.ok.injEq, Prod.mk.injEq] at hr
        obtain ⟨_, ha, rfl, -⟩ := hr
        exact happly _ _ _ ha) h
  refine ⟨inner, hw, ?_⟩
  rw [literal_fields]
  exact chain_map hc

/-- The field on the line of a sequence entry is read as one of the entry's fields. -/
theorem first_taken {message : String} {apply : σ → String → Text → Nat → Reading σ}
    (happly : ∀ s key value n s', apply s key value n = .ok s' → changes s (key, literal value) s')
    {line : YamlLine} (h : firstField message apply s line = .ok s') :
    Chain changes s (entryLiterals line) s' := by
  simp only [firstField, bind_ok] at h
  obtain ⟨content, hc, h⟩ := h
  have hd : content = line.content.drop 2 := by
    unfold afterDash at hc
    split at hc
    · simp at hc
    · exact (Except.ok.inj hc).symm
  subst hd
  split at h
  · rename_i hn
    obtain rfl := Except.ok.inj h
    simp only [entryLiterals, if_pos hn]
    rfl
  · rename_i hn
    simp only [bind_ok] at h
    obtain ⟨⟨key, value⟩, hs, h⟩ := h
    obtain ⟨rfl, rfl⟩ := split_parts hs
    dsimp only at h
    split at h
    · simp at h
    · simp only [entryLiterals, if_neg hn]
      exact ⟨_, happly _ _ _ _ _ h, rfl⟩

end Blocks

section Fields
variable (convert : Convert)

/-- A scalar field of one name is taken into a part of the state. -/
def SetsInteger (kind : IntegerKind) (name : String) (f : String × JsonValue)
    (x x' : Option Int) : Prop :=
  Sets name (fun v x => Takes .yaml convert kind (some v) x) f x x'

/-- The scalars of a payload, put in one after the other. -/
def Emplaced (p : List (String × CommandPayloadValue)) (fields : List (String × JsonValue))
    (p' : List (String × CommandPayloadValue)) : Prop :=
  ∃ texts : List (String × Text), fields = texts.map (fun x => (x.1, literal x.2)) ∧
    p' = texts.foldl (fun p x => emplace p x.1 (yamlPayloadValue convert x.2)) p

def PayloadTakes (p : List (String × CommandPayloadValue)) (f : String × JsonValue)
    (p' : List (String × CommandPayloadValue)) : Prop := Emplaced convert p [f] p'

/-- What a field of a command does to the integers of the command. -/
structure CommandTakes (c : Command) (f : String × JsonValue) (c' : Command) : Prop where
  id : SetsInteger convert .uint64 "id" f (some c.id) (some c'.id)
  timeout : SetsInteger convert .int64 "timeout_ms" f (some c.timeout) (some c'.timeout)
  payload : Emplaced convert c.payload (if f.1 = "payload" then members f.2 else []) c'.payload

structure RetryTakes (p : RetryPolicy) (f : String × JsonValue) (p' : RetryPolicy) : Prop where
  maxAttempts : SetsInteger convert .uint32 "max_attempts" f (some p.maxAttempts.toNat)
    (some p'.maxAttempts.toNat)
  delay : SetsInteger convert .int64 "delay_ms" f (some p.delayBetweenAttempts)
    (some p'.delayBetweenAttempts)

def LoopTakes (p : LoopPolicy) (f : String × JsonValue) (p' : LoopPolicy) : Prop :=
  SetsInteger convert .uint32 "iterations" f (some p.iterations.toNat) (some p'.iterations.toNat)

def TimeoutTakes (p : TimeoutPolicy) (f : String × JsonValue) (p' : TimeoutPolicy) : Prop :=
  SetsInteger convert .int64 "timeout_ms" f (some p.timeout) (some p'.timeout)

def DurationTakes (d : Int) (f : String × JsonValue) (d' : Int) : Prop :=
  SetsInteger convert .int64 "duration_ms" f (some d) (some d')

structure ConditionTakes (c : MissionCondition) (f : String × JsonValue) (c' : MissionCondition) :
    Prop where
  id : SetsInteger convert .uint64 "id" f (some c.id) (some c'.id)
  faultCode : SetsInteger convert .int32 "fault_code" f (some c.faultCode) (some c'.faultCode)

variable {convert}

theorem Emplaced.nil (p : List (String × CommandPayloadValue)) : Emplaced convert p [] p :=
  ⟨[], rfl, rfl⟩

theorem Emplaced.append {p p' p'' : List (String × CommandPayloadValue)}
    {fs gs : List (String × JsonValue)} (h : Emplaced convert p fs p')
    (h' : Emplaced convert p' gs p'') : Emplaced convert p (fs ++ gs) p'' := by
  obtain ⟨texts, rfl, rfl⟩ := h
  obtain ⟨texts', rfl, rfl⟩ := h'
  exact ⟨texts ++ texts', by rw [List.map_append], by rw [List.foldl_append]⟩

theorem emplaced_lookup (texts : List (String × Text)) {p : List (String × CommandPayloadValue)}
    (h : InOrder p) (key : String) :
    (texts.foldl (fun p x => emplace p x.1 (yamlPayloadValue convert x.2)) p).lookup key =
      (p.lookup key).or ((texts.lookup key).map (yamlPayloadValue convert)) := by
  induction texts generalizing p with
  | nil => simp
  | cons x texts ih =>
    rw [List.foldl_cons, ih (emplace_in_order h), lookup_emplace h, lookup_cons_if,
      Option.or_assoc]
    by_cases hname : key = x.1 <;> simp [hname]

/-- Under every key the first scalar is found. -/
theorem Emplaced.takes {p : List (String × CommandPayloadValue)}
    {fields : List (String × JsonValue)} (h : Emplaced convert [] fields p) (key : String) :
    Takes .yaml convert .payload (fields.lookup key) ((p.lookup key).bind payloadInteger) := by
  obtain ⟨texts, rfl, rfl⟩ := h
  intro text hwritten
  have hnil : InOrder ([] : List (String × CommandPayloadValue)) := List.Pairwise.nil
  have htext : texts.lookup key = some text := by
    clear hnil
    induction texts with
    | nil => cases hwritten
    | cons x texts ih =>
      rw [List.map_cons, lookup_cons_if] at hwritten
      rw [lookup_cons_if]
      by_cases hname : key = x.1
      · rw [if_pos hname] at hwritten ⊢
        rw [literal_inj (Option.some.inj hwritten)]
      · rw [if_neg hname] at hwritten ⊢
        exact ih hwritten
  rw [emplaced_lookup texts hnil, htext, List.lookup_nil, Option.none_or]
  rfl

/-- Another field leaves the part alone. -/
theorem sets_other {kind : IntegerKind} {name : String} {f : String × JsonValue}
    {x x' : Option Int} (hname : f.1 ≠ name) (hx : x' = x) : SetsInteger convert kind name f x x' := by
  rw [SetsInteger, Sets, if_neg hname]
  exact hx

theorem sets_literal {kind : IntegerKind} {name : String} {text : Text} {x x' : Option Int}
    (h : TookYaml convert kind text x') :
    SetsInteger convert kind name (name, literal text) x x' := by
  rw [SetsInteger, Sets, if_pos rfl]
  exact took_literal h

theorem command_applied {c c' : Command} {key : String} {value : Text} {n : Nat}
    (h : applyYamlCommandField c key value n = .ok c') :
    CommandTakes convert c (key, literal value) c' := by
  have hpayload : ∀ key : String, key ≠ "payload" → ∀ p, Emplaced convert p
      (if (key, literal value).1 = "payload" then members (key, literal value).2 else []) p := by
    intro key hkey p
    rw [if_neg hkey]
    exact .nil p
  unfold applyYamlCommandField at h
  rw [ite_eq_iff] at h
  obtain ⟨rfl, h⟩ | ⟨-, h⟩ := h
  · obtain ⟨id, hread, rfl⟩ := stored_ok.mp h
    exact ⟨sets_literal ⟨_, id, hread, rfl⟩, sets_other (by simp) rfl, hpayload _ (by decide) _⟩
  iterate 2
    rw [ite_eq_iff] at h
    obtain ⟨rfl, h⟩ | ⟨-, h⟩ := h
    · obtain ⟨_, -, rfl⟩ := stored_ok.mp h
      exact ⟨sets_other (by simp) rfl, sets_other (by simp) rfl, hpayload _ (by decide) _⟩
  rw [ite_eq_iff] at h
  obtain ⟨rfl, h⟩ | ⟨-, h⟩ := h
  · obtain ⟨timeout, hread, rfl⟩ := stored_ok.mp h
    exact ⟨sets_other (by simp) rfl, sets_literal ⟨_, timeout, hread, rfl⟩,
      hpayload _ (by decide) _⟩
  simp at h

theorem retry_applied {p p' : RetryPolicy} {key : String} {value : Text} {n : Nat}
    (h : applyYamlRetryPolicyField p key value n = .ok p') :
    RetryTakes convert p (key, literal value) p' := by
  unfold applyYamlRetryPolicyField at h
  rw [ite_eq_iff] at h
  obtain ⟨rfl, h⟩ | ⟨-, h⟩ := h
  · obtain ⟨attempts, hread, rfl⟩ := stored_ok.mp h
    exact ⟨sets_literal ⟨_, attempts, hread, rfl⟩, sets_other (by simp) rfl⟩
  rw [ite_eq_iff] at h
  obtain ⟨rfl, h⟩ | ⟨-, h⟩ := h
  · obtain ⟨delay, hread, rfl⟩ := stored_ok.mp h
    exact ⟨sets_other (by simp) rfl, sets_literal ⟨_, delay, hread, rfl⟩⟩
  iterate 2
    rw [ite_eq_iff] at h
    obtain ⟨rfl, h⟩ | ⟨-, h⟩ := h
    · obtain ⟨_, -, rfl⟩ := stored_ok.mp h
      exact ⟨sets_other (by simp) rfl, sets_other (by simp) rfl⟩
  simp at h

theorem timeout_applied {p p' : TimeoutPolicy} {key : String} {value : Text} {n : Nat}
    (h : applyYamlTimeoutPolicyField p key value n = .ok p') :
    TimeoutTakes convert p (key, literal value) p' := by
  unfold applyYamlTimeoutPolicyField at h
  rw [ite_eq_iff] at h
  obtain ⟨rfl, h⟩ | ⟨-, h⟩ := h
  · obtain ⟨timeout, hread, rfl⟩ := stored_ok.mp h
    exact sets_literal ⟨_, timeout, hread, rfl⟩
  rw [ite_eq_iff] at h
  obtain ⟨rfl, h⟩ | ⟨-, h⟩ := h
  · obtain ⟨_, -, rfl⟩ := stored_ok.mp h
    exact sets_other (by simp) rfl
  simp at h

theorem condition_applied {c c' : MissionCondition} {key : String} {value : Text} {n : Nat}
    (h : applyYamlConditionField convert c key value n = .ok c') :
    ConditionTakes convert c (key, literal value) c' := by
  unfold applyYamlConditionField at h
  rw [ite_eq_iff] at h
  obtain ⟨rfl, h⟩ | ⟨-, h⟩ := h
  · obtain ⟨id, hread, rfl⟩ := stored_ok.mp h
    exact ⟨sets_literal ⟨_, id, hread, rfl⟩, sets_other (by simp) rfl⟩
  rw [ite_eq_iff] at h
  obtain ⟨rfl, h⟩ | ⟨-, h⟩ := h
  · obtain rfl := Except.ok.inj h
    exact ⟨sets_other (by simp) rfl, sets_other (by simp) rfl⟩
  iterate 2
    rw [ite_eq_iff] at h
    obtain ⟨rfl, h⟩ | ⟨-, h⟩ := h
    · obtain ⟨_, -, rfl⟩ := stored_ok.mp h
      exact ⟨sets_other (by simp) rfl, sets_other (by simp) rfl⟩
  rw [ite_eq_iff] at h
  obtain ⟨rfl, h⟩ | ⟨-, h⟩ := h
  · split at h
    all_goals
      obtain ⟨_, -, rfl⟩ := stored_ok.mp h
      exact ⟨sets_other (by simp) rfl, sets_other (by simp) rfl⟩
  rw [ite_eq_iff] at h
  obtain ⟨rfl, h⟩ | ⟨-, h⟩ := h
  · obtain ⟨code, hread, rfl⟩ := stored_ok.mp h
    exact ⟨sets_other (by simp) rfl, sets_literal ⟨_, code, hread, rfl⟩⟩
  iterate 2
    rw [ite_eq_iff] at h
    obtain ⟨rfl, h⟩ | ⟨-, h⟩ := h
    · obtain ⟨_, -, rfl⟩ := stored_ok.mp h
      exact ⟨sets_other (by simp) rfl, sets_other (by simp) rfl⟩
  simp at h

end Fields

section Readers
variable {convert : Convert} {e b : Nat} {lines rest : List YamlLine}

theorem payload_taken {p p' : List (String × CommandPayloadValue)}
    (h : parseYamlPayload convert e b p lines = .ok (p', rest)) :
    ∃ inner, Went (e + b) lines inner rest ∧ Emplaced convert p (literalFields inner) p' := by
  have happly : ∀ (p : List (String × CommandPayloadValue)) key value (n : Nat) p',
      (.ok (emplace p key (yamlPayloadValue convert value)) : Reading _) = .ok p' →
        PayloadTakes convert p (key, literal value) p' :=
    fun p key value n p' hp => ⟨[(key, value)], rfl, (Except.ok.inj hp).symm⟩
  obtain ⟨inner, hw, hc⟩ := scalars_taken happly h
  refine ⟨inner, hw, ?_⟩
  clear hw h
  generalize literalFields inner = fields at hc
  induction fields generalizing p with
  | nil =>
    rw [show p' = p from hc]
    exact .nil p
  | cons f fields ih =>
    obtain ⟨m, hm, hc⟩ := hc
    exact Emplaced.append hm (ih hc)

theorem command_round {c c' : Command} {line : YamlLine}
    (h : (do
      let (key, value) ← splitYamlKeyValue line
      if key = "payload" then
        nested value "command.payload must be a nested mapping" (do
          let (payload, rest) ← parseYamlPayload convert (e + 2) b c.payload lines
          return ({ c with payload := payload }, rest))
      else if key = "metadata" then
        nested value "command.metadata must be a nested mapping" (do
          let (metadata, rest) ← parseYamlStringMap (e + 2) b c.metadata lines
          return ({ c with metadata := metadata }, rest))
      else
        scalarRound "Command field requires a scalar value at YAML line "
          applyYamlCommandField c line lines) = (.ok (c', rest) : Reading _)) :
    ∃ inner, Went (e + b + 1) lines inner rest ∧
      CommandTakes convert c (Entry.mk line inner).literalField c' := by
  simp only [bind_ok] at h
  obtain ⟨⟨key, value⟩, hs, h⟩ := h
  obtain ⟨rfl, rfl⟩ := split_parts hs
  dsimp only at h
  split_ifs at h with hpayload hmetadata
  · obtain ⟨hv, ⟨payload, _⟩, hr, ⟨⟩⟩ := nested_read h
    obtain ⟨inner, hw, htaken⟩ := payload_taken hr
    refine ⟨inner, hw.mono (by omega), ?_⟩
    rw [literal_block hpayload (by decide) hv]
    exact ⟨sets_other (by simp) rfl, sets_other (by simp) rfl, htaken⟩
  · obtain ⟨hv, _, hr, ⟨⟩⟩ := nested_read h
    obtain ⟨inner, hw⟩ := read_string_map hr
    refine ⟨inner, hw.mono (by omega), ?_⟩
    rw [literal_block hmetadata (by decide) hv]
    exact ⟨sets_other (by simp) rfl, sets_other (by simp) rfl, .nil _⟩
  · obtain ⟨rfl, hv, ha⟩ := scalar_round h
    refine ⟨[], Went.nothing _ _, ?_⟩
    rw [literal_scalar hv]
    exact command_applied ha

theorem command_taken {c c' : Command} (h : parseYamlCommand convert e b c lines = .ok (c', rest)) :
    ∃ inner, Went (e + b) lines inner rest ∧
      Chain (CommandTakes convert) c (literalFields inner) c' := by
  obtain ⟨inner, hw, hc⟩ := read_mapping
    (fun c x c' => CommandTakes convert c x.literalField c') (fun line leaves => leaves_block)
    (fun c line lines c' rest hr => command_round hr) h
  refine ⟨inner, hw, ?_⟩
  rw [literal_fields]
  exact chain_map hc

/-- The integers of a command, all its fields taken together. -/
theorem command_integers {fields : List (String × JsonValue)} {c c' : Command}
    (hc : c.payload = []) (h : Chain (CommandTakes convert) c fields c')
    (field : CommandInteger) :
    Takes .yaml convert field.kind (field.written (.object fields)) (field.stored c') := by
  cases field with
  | id => exact chain_takes .uint64 (fun c : Command => some (c.id : Int)) h (fun _ _ _ ht => ht.id)
  | timeout => exact chain_takes .int64 (fun c : Command => some c.timeout) h (fun _ _ _ ht => ht.timeout)
  | payload key =>
    have hall : Emplaced convert c.payload
        (fields.flatMap (fun f => if f.1 = "payload" then members f.2 else [])) c'.payload :=
      chain_parts (g := Command.payload) .nil (fun _ _ _ _ _ => .append) h
        (fun _ _ _ ht => ht.payload)
    rw [hc] at hall
    exact hall.takes key

theorem condition_taken {line : YamlLine} {condition : MissionCondition}
    (h : parseYamlCondition convert e b (line :: lines) = .ok (condition, rest)) :
    ∃ inner, Went (e + 2 + b) lines inner rest ∧ ∀ field : ConditionInteger,
      Takes .yaml convert field.kind (field.written (Entry.mk line inner).literalItem)
        (field.stored condition) := by
  simp only [parseYamlCondition, bind_ok] at h
  obtain ⟨start, hstart, h⟩ := h
  have hfirst : Chain (ConditionTakes convert) {} (entryLiterals line) start :=
    first_taken (fun _ _ _ _ _ ha => condition_applied ha) hstart
  obtain ⟨inner, hw, hc⟩ : ∃ inner, Went (e + 2 + b) lines inner rest ∧
      Chain (fun s x s' => ConditionTakes convert s x.literalField s') start inner condition := by
    refine read_mapping _ (fun line leaves => leaves_condition) ?_ h
    intro s l ls s' r hr
    simp only [bind_ok] at hr
    obtain ⟨⟨key, value⟩, hs, hr⟩ := hr
    obtain ⟨rfl, rfl⟩ := split_parts hs
    dsimp only at hr
    split at hr
    · rename_i hk
      obtain ⟨hv, _, hp, ⟨⟩⟩ := nested_read hr
      obtain ⟨inner, hw⟩ := read_string_map hp
      refine ⟨inner, hw.mono (by omega), ?_⟩
      rw [literal_block hk (by decide) hv]
      exact ⟨sets_other (by simp) rfl, sets_other (by simp) rfl⟩
    · obtain ⟨rfl, hv, ha⟩ := scalar_round hr
      refine ⟨[], Went.nothing _ _, ?_⟩
      rw [literal_scalar hv]
      exact condition_applied ha
  have hall : Chain (ConditionTakes convert) {} (entryLiterals line ++ literalFields inner)
      condition := by
    rw [literal_fields]
    exact chain_append hfirst (chain_map hc)
  refine ⟨inner, hw, fun field => ?_⟩
  cases field with
  | id =>
    exact chain_takes .uint64 (fun c : MissionCondition => some (c.id : Int)) hall
      (fun _ _ _ ht => ht.id)
  | faultCode =>
    exact chain_takes .int32 (fun c : MissionCondition => some c.faultCode) hall
      (fun _ _ _ ht => ht.faultCode)

end Readers

end HumanoidCore.Missions
