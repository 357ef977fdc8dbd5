import HumanoidCore.Proofs.DocumentFields
import HumanoidCore.Proofs.YamlOutline

namespace HumanoidCore.Missions
open Documents

section Leaves
variable {e b : Nat} {line : YamlLine}

theorem logical_indent {n : Nat} (h : logicalIndent line b = .ok n) : line.indent = n + b := by
  unfold logicalIndent at h
  split at h
  · simp at h
  · rename_i hb
    obtain rfl := Except.ok.inj h
    omega

theorem leaves_block {unexpected : String} {leaves : Bool}
    (h : leavesBlock unexpected e b line = .ok leaves) :
    if leaves then line.indent ≤ e + b else line.indent = e + b := by
  simp only [leavesBlock, bind_ok] at h
  obtain ⟨n, hn, h⟩ := h
  have hi := logical_indent hn
  split at h
  · obtain rfl := Except.ok.inj h
    simp only [if_true]
    omega
  · split at h
    · simp at h
    · obtain rfl := Except.ok.inj h
      simp only [Bool.false_eq_true, if_false]
      omega

theorem leaves_string_map {leaves : Bool} (h : leavesStringMap e b line = .ok leaves) :
    if leaves then line.indent ≤ e + b else line.indent = e + b := by
  simp only [leavesStringMap, bind_ok] at h
  obtain ⟨left, hl, h⟩ := h
  have hi := leaves_block hl
  cases left with
  | true =>
    obtain rfl := Except.ok.inj h
    exact hi
  | false =>
    simp only [Bool.false_eq_true, if_false] at hi
    cases leaves with
    | true => exact Nat.le_of_eq hi
    | false => exact hi

theorem leaves_sequence {expected : String} {leaves : Bool}
    (h : leavesSequence expected e b line = .ok leaves) :
    if leaves then line.indent ≤ e + b else line.indent = e + b ∧ startsEntry line = true := by
  simp only [leavesSequence, bind_ok] at h
  obtain ⟨n, hn, h⟩ := h
  have hi := logical_indent hn
  split at h
  · obtain rfl := Except.ok.inj h
    simp only [if_true]
    omega
  · split at h
    · simp at h
    · rename_i hs
      obtain rfl := Except.ok.inj h
      simp only [not_or, Decidable.not_not, Bool.not_eq_false] at hs
      simp only [Bool.false_eq_true, if_false]
      exact ⟨by omega, hs.2⟩

theorem leaves_condition {leaves : Bool} (h : leavesCondition e b line = .ok leaves) :
    if leaves then line.indent ≤ e + 2 + b else line.indent = e + 2 + b := by
  simp only [leavesCondition, bind_ok] at h
  obtain ⟨n, hn, h⟩ := h
  have hi := logical_indent hn
  split at h
  · obtain rfl := Except.ok.inj h
    simp only [if_true]
    omega
  · split at h
    · simp at h
    · obtain rfl := Except.ok.inj h
      simp only [Bool.false_eq_true, if_false]
      omega

theorem leaves_step {leaves : Bool} (h : leavesStep b line = .ok leaves) :
    if leaves then line.indent ≤ 4 + b else line.indent = 4 + b := by
  simp only [leavesStep, bind_ok] at h
  obtain ⟨n, hn, h⟩ := h
  have hi := logical_indent hn
  split at h
  · obtain rfl := Except.ok.inj h
    simp only [if_true]
    omega
  · split at h
    · simp at h
    · obtain rfl := Except.ok.inj h
      simp only [Bool.false_eq_true, if_false]
      omega

theorem leaves_mission {leaves : Bool} (h : leavesMission b line = .ok leaves) :
    leaves = false ∧ line.indent = b := by
  simp only [leavesMission, bind_ok] at h
  obtain ⟨n, hn, h⟩ := h
  have hi := logical_indent hn
  split at h
  · simp at h
  · obtain rfl := Except.ok.inj h
    exact ⟨rfl, by omega⟩

end Leaves

section Fields
variable {line : YamlLine} {p : Place}

theorem split_parts {key : String} {value : Text}
    (h : splitYamlKeyValue line = .ok (key, value)) :
    key = nameIn line.content ∧ value = valueIn line.content := by
  unfold splitYamlKeyValue at h
  split at h
  · obtain ⟨rfl, rfl⟩ := Prod.mk.inj (Except.ok.inj h)
    exact ⟨rfl, rfl⟩
  · simp at h

theorem nested_ok {σ : Type} {value : Text} {message : String}
    {read : Reading (σ × List YamlLine)} {r : σ × List YamlLine}
    (h : nested value message read = .ok r) : value = [] ∧ read = .ok r := by
  unfold nested at h
  split at h
  · simp at h
  · rename_i hv
    exact ⟨Decidable.not_not.mp hv, h⟩

/-- A nested block that was read into a part of the state. -/
theorem nested_read {α σ : Type} {value : Text} {message : String} {read : Reading α}
    {set : α → σ × List YamlLine} {r : σ × List YamlLine}
    (h : nested value message (read >>= fun x => pure (set x)) = .ok r) :
    value = [] ∧ ∃ x, read = .ok x ∧ set x = r := by
  obtain ⟨hv, h⟩ := nested_ok h
  simp only [bind_ok, pure_eq, Except.ok.injEq] at h
  exact ⟨hv, h⟩

theorem scalar_round {σ : Type} {missing : String} {apply : σ → String → Text → Nat → Reading σ}
    {s s' : σ} {lines rest : List YamlLine}
    (h : scalarRound missing apply s line lines = .ok (s', rest)) :
    rest = lines ∧ valueIn line.content ≠ [] ∧
      apply s (nameIn line.content) (valueIn line.content) line.number = .ok s' := by
  simp only [scalarRound, bind_ok] at h
  obtain ⟨⟨key, value⟩, hs, h⟩ := h
  obtain ⟨rfl, rfl⟩ := split_parts hs
  dsimp only at h
  split at h
  · simp at h
  · rename_i hv
    simp only [bind_ok, pure_eq, Except.ok.injEq, Prod.mk.injEq] at h
    obtain ⟨_, ha, rfl, rfl⟩ := h
    exact ⟨rfl, hv, ha⟩

/-- The field belongs to the schema of the mapping, with all that is under it. -/
def fieldInSchema (p : Place) (field : String × JsonValue) : Bool := membersInSchema p [field]

theorem members_in_schema (ms : List (String × JsonValue)) :
    membersInSchema p ms = true ↔ ∀ m ∈ ms, fieldInSchema p m = true := by
  induction ms with
  | nil => simp [membersInSchema]
  | cons m ms ih =>
    obtain ⟨name, value⟩ := m
    simp only [membersInSchema, Bool.and_eq_true, ih, List.forall_mem_cons, fieldInSchema,
      and_true]

theorem elements_in_schema (es : List JsonValue) :
    elementsInSchema p es = true ↔ ∀ e ∈ es, inSchema p e = true := by
  induction es with
  | nil => simp [elementsInSchema]
  | cons e es ih => simp only [elementsInSchema, Bool.and_eq_true, ih, List.forall_mem_cons]

theorem field_in_schema {name : String} {q : Place} {value : JsonValue}
    (hf : p.field name = some q) (hv : inSchema q value = true) :
    fieldInSchema p (name, value) = true := by
  simp only [fieldInSchema, membersInSchema, hf, hv, Bool.and_true]

theorem scalar_in_schema {name : String} (hf : p.field name = some .scalar) (text : String) :
    fieldInSchema p (name, .string text) = true :=
  field_in_schema hf (by simp only [inSchema])

theorem free_in_schema (value : JsonValue) : inSchema .free value = true := by
  cases value <;> simp [inSchema]

theorem field_scalar (hv : valueIn line.content ≠ []) :
    (Entry.mk line []).field =
      (nameIn line.content, .string (yamlString (valueIn line.content))) := by
  have hv' : (valueIn line.content).isEmpty = false := by
    rw [← Bool.not_eq_true, List.isEmpty_iff]
    exact hv
  simp only [Entry.field, List.isEmpty_nil, hv', Bool.not_false, Bool.and_self, if_true]

theorem block_fields (inner : List Entry) : blockFields inner = inner.map Entry.field := by
  induction inner with
  | nil => rfl
  | cons e inner ih => rw [blockFields, ih, List.map_cons]

theorem block_items (inner : List Entry) : blockItems inner = inner.map Entry.item := by
  induction inner with
  | nil => rfl
  | cons e inner ih => rw [blockItems, ih, List.map_cons]

theorem trim_dash (rest : Text) : ∃ tail, trim ('-' :: rest) = '-' :: tail := by
  have keep : ('-' :: rest).dropWhile isSpace = '-' :: rest := rfl
  obtain ⟨cut, hc⟩ := List.rdropWhile_prefix isSpace ('-' :: rest)
  cases ht : ('-' :: rest).rdropWhile isSpace with
  | nil => exact absurd (List.rdropWhile_eq_nil_iff.mp ht '-' List.mem_cons_self) (by decide)
  | cons c tail =>
    rw [ht, List.cons_append] at hc
    obtain ⟨rfl, -⟩ := List.cons.inj hc
    exact ⟨tail, by rw [trim, keep, ht]⟩

theorem no_dash (p : Place) : ∀ field ∈ p.fields, field.1.toList.head? ≠ some '-' := by
  cases p <;> decide +kernel

/-- A sequence entry has a name that no mapping of the schema knows. -/
theorem dash_unknown (hs : startsEntry line = true) (p : Place) :
    p.field (nameIn line.content) = none := by
  obtain ⟨rest, hr⟩ := List.isPrefixOf_iff_prefix.mp hs
  have head : (nameIn line.content).toList.head? = some '-' := by
    obtain ⟨tail, ht⟩ := trim_dash (' ' :: rest.takeWhile (· ≠ ':'))
    have hcut : ("- ".toList ++ rest).takeWhile (· ≠ ':') =
        '-' :: ' ' :: rest.takeWhile (· ≠ ':') := rfl
    rw [nameIn, ← hr, String.toList_ofList, hcut, ht, List.head?_cons]
  refine List.lookup_eq_none_iff.mpr (fun field hf => ?_)
  rw [bne_iff_ne]
  rintro he
  exact no_dash p field hf (he ▸ head)

/-- A nested mapping whose fields are all known is no sequence. -/
theorem mapping_value {q : Place} {inner : List Entry} (hv : valueIn line.content = [])
    (hi : ∀ e ∈ inner, fieldInSchema q e.field = true) :
    (Entry.mk line inner).field = (nameIn line.content, .object (blockFields inner)) ∧
      inSchema q (.object (blockFields inner)) = true := by
  have hs : startsSequence inner = false := by
    cases inner with
    | nil => rfl
    | cons e inner =>
      obtain ⟨l, block⟩ := e
      by_contra hd
      have hu := dash_unknown ((Bool.not_eq_false _).mp hd) q
      have hk := hi _ List.mem_cons_self
      simp only [Entry.field, fieldInSchema, membersInSchema, Entry.line] at hk hu
      rw [hu] at hk
      simp at hk
  refine ⟨by simp [Entry.field, hv, hs], ?_⟩
  simp only [inSchema, block_fields, Bool.or_eq_true]
  refine .inr ((members_in_schema _).mpr ?_)
  simpa using hi

theorem mapping_field {name : String} {q : Place} {inner : List Entry} (hn : p.field name = some q)
    (hname : nameIn line.content = name) (hv : valueIn line.content = [])
    (hi : ∀ e ∈ inner, fieldInSchema q e.field = true) :
    (Entry.mk line inner).field = (name, .object (blockFields inner)) ∧
      fieldInSchema p (Entry.mk line inner).field = true := by
  obtain ⟨hf, hs⟩ := mapping_value hv hi
  rw [hname] at hf
  exact ⟨hf, hf ▸ field_in_schema hn hs⟩

theorem sequence_field {name : String} {q : Place} {inner : List Entry} (hn : p.field name = some q)
    (hname : nameIn line.content = name) (hv : valueIn line.content = [])
    (hi : ∀ e ∈ inner, startsEntry e.line = true ∧ inSchema q.element e.item = true) :
    fieldInSchema p (Entry.mk line inner).field = true ∧
      elements (Entry.mk line inner).field.2 = inner.map Entry.item := by
  cases inner with
  | nil =>
    have hf : (Entry.mk line []).field = (name, .object []) := by
      simp [Entry.field, hname, hv, startsSequence, blockFields]
    exact ⟨hf ▸ field_in_schema hn (by simp [inSchema, membersInSchema]), by rw [hf]; rfl⟩
  | cons e inner =>
    have hs : startsSequence (e :: inner) = true := (hi e List.mem_cons_self).1
    have hf : (Entry.mk line (e :: inner)).field =
        (name, .array (blockItems (e :: inner))) := by
      simp [Entry.field, hname, hs]
    refine ⟨hf ▸ field_in_schema hn ?_, by rw [hf, block_items]; rfl⟩
    simp only [inSchema, block_items, Bool.or_eq_true]
    refine .inr ((elements_in_schema _).mpr ?_)
    intro v hv
    obtain ⟨e', he, rfl⟩ := List.mem_map.mp hv
    exact (hi e' he).2

end Fields

section Blocks
variable {convert : Convert} {e b : Nat} {lines rest : List YamlLine}

/-- The loop lemma for the readers of mappings. -/
theorem read_mapping {σ : Type} (changes : σ → Entry → σ → Prop)
    {stops : YamlLine → Reading Bool}
    {round : σ → YamlLine → List YamlLine → Reading (σ × List YamlLine)} {i : Nat}
    (hstops : ∀ line leaves, stops line = .ok leaves →
      if leaves then line.indent ≤ i else line.indent = i)
    (hround : ∀ s line lines s' rest, round s line lines = .ok (s', rest) →
      ∃ inner, Went (i + 1) lines inner rest ∧ changes s (.mk line inner) s')
    {s s' : σ} (h : readWhile stops round s lines = .ok (s', rest)) :
    ∃ inner, Went i lines inner rest ∧ Chain changes s inner s' :=
  (read_lines changes (fun line hl => by simpa using hstops line true hl)
    (fun line hl => by simpa using hstops line false hl)
    (fun s line lines s' rest _ hr => hround s line lines s' rest hr) h).2

/-- What a reader of scalar fields consumes is a mapping of scalars that it knows. -/
theorem read_scalars {σ : Type} {p : Place} {unexpected : String}
    {round : σ → YamlLine → List YamlLine → Reading (σ × List YamlLine)}
    (hround : ∀ s line lines s' rest, round s line lines = .ok (s', rest) →
      rest = lines ∧ valueIn line.content ≠ [] ∧ p.field (nameIn line.content) = some .scalar)
    {s s' : σ} (h : readWhile (leavesBlock unexpected e b) round s lines = .ok (s', rest)) :
    ∃ inner, Went (e + b) lines inner rest ∧ ∀ x ∈ inner, fieldInSchema p x.field = true := by
  have hscalar : ∀ s line lines s' rest, round s line lines = .ok (s', rest) →
      ∃ inner, Went (e + b + 1) lines inner rest ∧
        fieldInSchema p (Entry.mk line inner).field = true := by
    intro s line lines s' rest hr
    obtain ⟨rfl, hv, hk⟩ := hround s line lines s' rest hr
    exact ⟨[], Went.nothing _ _, by rw [field_scalar hv]; exact scalar_in_schema hk _⟩
  obtain ⟨inner, hw, hc⟩ := read_mapping (fun _ x _ => fieldInSchema p x.field = true)
    (fun line leaves => leaves_block) hscalar h
  exact ⟨inner, hw, chain_all hc (fun _ _ _ hx => hx)⟩

theorem free_round {σ : Type} {missing : String} {apply : σ → String → Text → Nat → Reading σ}
    {i : Nat} (s : σ) (line : YamlLine) (lines : List YamlLine) (s' : σ) (rest : List YamlLine)
    (h : scalarRound missing apply s line lines = .ok (s', rest)) :
    ∃ inner, Went i lines inner rest ∧ True := by
  obtain ⟨rfl, -, -⟩ := scalar_round h
  exact ⟨[], Went.nothing _ _, trivial⟩

theorem read_string_map {output output' : MissionMetadata}
    (h : parseYamlStringMap e b output lines = .ok (output', rest)) :
    ∃ inner, Went (e + b) lines inner rest := by
  obtain ⟨inner, hw, -⟩ := read_mapping (fun _ _ _ => True)
    (fun line leaves => leaves_string_map) free_round h
  exact ⟨inner, hw⟩

theorem read_payload {output output' : List (String × Core.CommandPayloadValue)}
    (h : parseYamlPayload convert e b output lines = .ok (output', rest)) :
    ∃ inner, Went (e + b) lines inner rest := by
  obtain ⟨inner, hw, -⟩ := read_mapping (fun _ _ _ => True)
    (fun line leaves => leaves_block) free_round h
  exact ⟨inner, hw⟩

theorem free_field {p : Place} {line : YamlLine} {name : String} (inner : List Entry)
    (hname : nameIn line.content = name) (hp : p.field name = some .free) :
    (Entry.mk line inner).field.1 = name ∧ fieldInSchema p (Entry.mk line inner).field = true := by
  refine ⟨hname, ?_⟩
  have : (Entry.mk line inner).field = (name, (Entry.mk line inner).field.2) := by
    rw [← hname]; rfl
  rw [this]
  exact field_in_schema hp (free_in_schema _)

/-- What a field of a command does to the command. -/
def CommandField (c : Core.Command) (x : Entry) (c' : Core.Command) : Prop :=
  fieldInSchema .command x.field = true ∧ (c'.id ≠ c.id → x.field.1 = "id")

theorem apply_command {c c' : Core.Command} {key : String} {value : Text} {n : Nat}
    (h : applyYamlCommandField c key value n = .ok c') :
    Place.field .command key = some .scalar ∧ (c'.id ≠ c.id → key = "id") := by
  unfold applyYamlCommandField at h
  split at h
  · rename_i hk
    exact ⟨hk ▸ rfl, fun _ => hk⟩
  · split at h
    · rename_i hk
      obtain ⟨_, -, rfl⟩ := stored_ok.mp h
      exact ⟨hk ▸ rfl, fun hc => absurd rfl hc⟩
    · split at h
      · rename_i hk
        obtain ⟨_, -, rfl⟩ := stored_ok.mp h
        exact ⟨hk ▸ rfl, fun hc => absurd rfl hc⟩
      · split at h
        · rename_i hk
          obtain ⟨_, -, rfl⟩ := stored_ok.mp h
          exact ⟨hk ▸ rfl, fun hc => absurd rfl hc⟩
        · simp at h

theorem read_command {c c' : Core.Command}
    (h : parseYamlCommand convert e b c lines = .ok (c', rest)) :
    ∃ inner, Went (e + b) lines inner rest ∧ Chain CommandField c inner c' := by
  refine read_mapping CommandField (fun line leaves => leaves_block) ?_ h
  intro s line lines s' rest hr
  simp only [bind_ok] at hr
  obtain ⟨⟨key, value⟩, hs, hr⟩ := hr
  obtain ⟨rfl, rfl⟩ := split_parts hs
  dsimp only at hr
  split at hr
  · rename_i hk
    obtain ⟨-, _, hp, ⟨⟩⟩ := nested_read hr
    obtain ⟨inner, hw⟩ := read_payload hp
    obtain ⟨-, hf⟩ := free_field (p := .command) inner hk rfl
    exact ⟨inner, hw.mono (by omega), hf, fun hc => absurd rfl hc⟩
  · split at hr
    · rename_i hk
      obtain ⟨-, _, hp, ⟨⟩⟩ := nested_read hr
      obtain ⟨inner, hw⟩ := read_string_map hp
      obtain ⟨-, hf⟩ := free_field (p := .command) inner hk rfl
      exact ⟨inner, hw.mono (by omega), hf, fun hc => absurd rfl hc⟩
    · obtain ⟨rfl, hv, ha⟩ := scalar_round hr
      obtain ⟨hk, hid⟩ := apply_command ha
      refine ⟨[], Went.nothing _ _, ?_⟩
      rw [CommandField, field_scalar hv]
      exact ⟨scalar_in_schema hk _, hid⟩

theorem apply_retry_policy {policy policy' : RetryPolicy} {key : String} {value : Text} {n : Nat}
    (h : applyYamlRetryPolicyField policy key value n = .ok policy') :
    Place.field .retryPolicy key = some .scalar := by
  unfold applyYamlRetryPolicyField at h
  iterate 4
    rw [ite_eq_iff] at h
    obtain ⟨rfl, -⟩ | ⟨-, h⟩ := h
    · rfl
  exact absurd h fail_ne_ok

theorem apply_timeout_policy {policy policy' : TimeoutPolicy} {key : String} {value : Text}
    {n : Nat} (h : applyYamlTimeoutPolicyField policy key value n = .ok policy') :
    Place.field .timeoutPolicy key = some .scalar := by
  unfold applyYamlTimeoutPolicyField at h
  iterate 2
    rw [ite_eq_iff] at h
    obtain ⟨rfl, -⟩ | ⟨-, h⟩ := h
    · rfl
  exact absurd h fail_ne_ok

theorem apply_condition {condition condition' : MissionCondition} {key : String} {value : Text}
    {n : Nat} (h : applyYamlConditionField convert condition key value n = .ok condition') :
    Place.field .condition key = some .scalar := by
  unfold applyYamlConditionField at h
  iterate 8
    rw [ite_eq_iff] at h
    obtain ⟨rfl, -⟩ | ⟨-, h⟩ := h
    · rfl
  exact absurd h fail_ne_ok

theorem read_retry_policy {policy policy' : RetryPolicy}
    (h : parseYamlRetryPolicy e b policy lines = .ok (policy', rest)) :
    ∃ inner, Went (e + b) lines inner rest ∧
      ∀ x ∈ inner, fieldInSchema .retryPolicy x.field = true := by
  refine read_scalars (fun s line lines s' rest hr => ?_) h
  obtain ⟨hl, hv, ha⟩ := scalar_round hr
  exact ⟨hl, hv, apply_retry_policy ha⟩

theorem read_timeout_policy {policy policy' : TimeoutPolicy}
    (h : parseYamlTimeoutPolicy e b policy lines = .ok (policy', rest)) :
    ∃ inner, Went (e + b) lines inner rest ∧
      ∀ x ∈ inner, fieldInSchema .timeoutPolicy x.field = true := by
  refine read_scalars (fun s line lines s' rest hr => ?_) h
  obtain ⟨hl, hv, ha⟩ := scalar_round hr
  exact ⟨hl, hv, apply_timeout_policy ha⟩

theorem only_round {σ : Type} {field path : String} {apply : Text → Reading σ} {s' : σ}
    {line : YamlLine} (h : onlyField field path apply line lines = .ok (s', rest)) :
    rest = lines ∧ valueIn line.content ≠ [] ∧ nameIn line.content = field := by
  simp only [onlyField, bind_ok] at h
  obtain ⟨⟨key, value⟩, hs, h⟩ := h
  obtain ⟨rfl, rfl⟩ := split_parts hs
  dsimp only at h
  split at h
  · simp at h
  · rename_i hk
    simp only [bind_ok, pure_eq, Except.ok.injEq, Prod.mk.injEq] at h
    obtain ⟨_, -, -, rfl⟩ := h
    exact ⟨rfl, fun hv => hk (.inr hv), Decidable.not_not.mp (fun hn => hk (.inl hn))⟩

theorem read_loop_policy {policy policy' : LoopPolicy}
    (h : parseYamlLoopPolicy e b policy lines = .ok (policy', rest)) :
    ∃ inner, Went (e + b) lines inner rest ∧
      ∀ x ∈ inner, fieldInSchema .loopPolicy x.field = true := by
  refine read_scalars (fun s line lines s' rest hr => ?_) h
  obtain ⟨hl, hv, hk⟩ := only_round hr
  exact ⟨hl, hv, hk ▸ rfl⟩

theorem read_wait_step {wait wait' : Int}
    (h : parseYamlWaitStep e b wait lines = .ok (wait', rest)) :
    ∃ inner, Went (e + b) lines inner rest ∧
      ∀ x ∈ inner, fieldInSchema .flowWait x.field = true := by
  refine read_scalars (fun s line lines s' rest hr => ?_) h
  obtain ⟨hl, hv, hk⟩ := only_round hr
  exact ⟨hl, hv, hk ▸ rfl⟩

theorem read_delay_step {delay delay' : Int}
    (h : parseYamlDelayStep e b delay lines = .ok (delay', rest)) :
    ∃ inner, Went (e + b) lines inner rest ∧
      ∀ x ∈ inner, fieldInSchema .flowWait x.field = true := by
  refine read_scalars (fun s line lines s' rest hr => ?_) h
  obtain ⟨hl, hv, hk⟩ := only_round hr
  exact ⟨hl, hv, hk ▸ rfl⟩

/-- The field on the line of a sequence entry is read as one of the entry's fields. -/
theorem first_field {σ : Type} {message : String} {apply : σ → String → Text → Nat → Reading σ}
    {changes : σ → String × JsonValue → σ → Prop}
    (happly : ∀ s key value n s', value ≠ [] → apply s key value n = .ok s' →
      changes s (key, .string (yamlString value)) s')
    {s s' : σ} {line : YamlLine} (h : firstField message apply s line = .ok s') :
    Chain changes s (entryFields line) s' := by
  simp only [firstField, bind_ok] at h
  obtain ⟨content, hc, h⟩ := h
  have hd : content = line.content.drop 2 := by
    unfold afterDash at hc
    split at hc
    · simp at hc
    · exact (Except.ok.inj hc).symm
  subst hd
  split at h
  · rename_i hn
    obtain rfl := Except.ok.inj h
    simp only [entryFields, if_pos hn]
    rfl
  · rename_i hn
    simp only [bind_ok] at h
    obtain ⟨⟨key, value⟩, hs, h⟩ := h
    obtain ⟨rfl, rfl⟩ := split_parts hs
    dsimp only at h
    split at h
    · simp at h
    · rename_i hv
      simp only [entryFields, if_neg hn]
      exact ⟨_, happly _ _ _ _ _ hv h, rfl⟩

theorem read_condition {line : YamlLine} {condition : MissionCondition}
    (h : parseYamlCondition convert e b (line :: lines) = .ok (condition, rest)) :
    ∃ inner, Went (e + 2 + b) lines inner rest ∧
      inSchema .condition (Entry.mk line inner).item = true := by
  simp only [parseYamlCondition, bind_ok] at h
  obtain ⟨start, hstart, h⟩ := h
  have first : Chain (fun _ x _ => fieldInSchema .condition x = true) {} (entryFields line) start :=
    first_field (fun s key value n s' _ ha => scalar_in_schema (apply_condition ha) _) hstart
  obtain ⟨inner, hw, hc⟩ : ∃ inner, Went (e + 2 + b) lines inner rest ∧
      Chain (fun _ x _ => fieldInSchema .condition x.field = true) start inner condition := by
    refine read_mapping _ (fun line leaves => leaves_condition) ?_ h
    intro s l ls s' r hr
    simp only [bind_ok] at hr
    obtain ⟨⟨key, value⟩, hs, hr⟩ := hr
    obtain ⟨rfl, rfl⟩ := split_parts hs
    dsimp only at hr
    split at hr
    · rename_i hk
      obtain ⟨-, _, hp, ⟨⟩⟩ := nested_read hr
      obtain ⟨inner, hw⟩ := read_string_map hp
      exact ⟨inner, hw.mono (by omega), (free_field (p := .condition) inner hk rfl).2⟩
    · obtain ⟨rfl, hv, ha⟩ := scalar_round hr
      refine ⟨[], Went.nothing _ _, ?_⟩
      rw [field_scalar hv]
      exact scalar_in_schema (apply_condition ha) _
  refine ⟨inner, hw, ?_⟩
  have all : ∀ x ∈ entryFields line ++ blockFields inner, fieldInSchema .condition x = true := by
    refine List.forall_mem_append.mpr ⟨chain_all first (fun _ _ _ hx => hx), ?_⟩
    simpa [block_fields] using chain_all hc (fun _ _ _ hx => hx)
  simp only [Entry.item, inSchema, Bool.or_eq_true]
  exact .inr ((members_in_schema _).mpr all)

/-- A reader of a sequence adds what it reads of each entry. -/
theorem read_sequence {α : Type} (R : Entry → α → Prop) {expected : String}
    {item : List YamlLine → Reading (α × List YamlLine)}
    (hitem : ∀ line lines a rest, startsEntry line = true →
      item (line :: lines) = .ok (a, rest) →
      ∃ inner, Went (e + b + 1) lines inner rest ∧ R (.mk line inner) a)
    {xs xs' : List α}
    (h : readWhile (leavesSequence expected e b)
      (fun xs line lines => do
        let (a, rest) ← item (line :: lines)
        return (xs ++ [a], rest)) xs lines = .ok (xs', rest)) :
    ∃ inner, Went (e + b) lines inner rest ∧ (∀ x ∈ inner, startsEntry x.line = true) ∧
      ∃ read, xs' = xs ++ read ∧ List.Forall₂ R inner read := by
  have hround : ∀ s line ls s' r, leavesSequence expected e b line = .ok false →
      (do
        let (a, rest) ← item (line :: ls)
        return (s ++ [a], rest)) = (.ok (s', r) : Reading _) →
      ∃ inner, Went (e + b + 1) ls inner r ∧
        (startsEntry line = true ∧ ∃ a, s' = s ++ [a] ∧ R (.mk line inner) a) := by
    intro s line ls s' r hl hr
    simp only [bind_ok] at hr
    obtain ⟨⟨a, r'⟩, hi, hr⟩ := hr
    obtain ⟨rfl, rfl⟩ := Prod.mk.inj (Except.ok.inj hr)
    have hs := (leaves_sequence hl).2
    obtain ⟨inner, hw, ha⟩ := hitem line ls a _ hs hi
    exact ⟨inner, hw, hs, a, rfl, ha⟩
  obtain ⟨-, inner, hw, hc⟩ := read_lines
    (fun s x s' => startsEntry x.line = true ∧ ∃ a, s' = s ++ [a] ∧ R x a)
    (fun line hl => by simpa using leaves_sequence hl)
    (fun line hl => (leaves_sequence hl).1) hround h
  refine ⟨inner, hw, chain_all hc (fun _ _ _ hx => hx.1), ?_⟩
  clear hw h
  induction inner generalizing xs with
  | nil => exact ⟨[], by rw [hc, List.append_nil], .nil⟩
  | cons x inner ih =>
    obtain ⟨_, ⟨-, a, rfl, ha⟩, hc⟩ := hc
    obtain ⟨read, rfl, hf⟩ := ih hc
    exact ⟨a :: read, by rw [List.append_assoc, List.singleton_append], .cons ha hf⟩

theorem read_conditions {conditions conditions' : List MissionCondition}
    (h : parseYamlConditions convert e b conditions lines = .ok (conditions', rest)) :
    ∃ inner, Went (e + b) lines inner rest ∧
      ∀ x ∈ inner, startsEntry x.line = true ∧ inSchema .condition x.item = true := by
  obtain ⟨inner, hw, hs, read, -, hf⟩ := read_sequence
    (fun x _ => inSchema .condition x.item = true)
    (fun line lines condition rest _ hi => by
      obtain ⟨inner, hw, hx⟩ := read_condition hi
      exact ⟨inner, hw.mono (by omega), hx⟩) h
  refine ⟨inner, hw, fun x hx => ⟨hs x hx, ?_⟩⟩
  obtain ⟨_, -, hr⟩ := exists_related hf hx
  exact hr

end Blocks

/-- What a field of a step does to the step. -/
structure StepField (s : MissionStep) (f : String × JsonValue) (s' : MissionStep) : Prop where
  schema : fieldInSchema .step f = true
  id : s'.id ≠ s.id → f.1 = "id"
  name : s'.name ≠ s.name → f.1 = "name"
  enabled : s'.enabled = if f.1 = "enabled" then isTrue f.2 else s.enabled
  skip : s'.skip = if f.1 = "skip" then isTrue f.2 else s.skip
  abort : s'.abort = if f.1 = "abort" then isTrue f.2 else s.abort
  wait : s'.wait.isSome = (s.wait.isSome || decide (f.1 = "wait"))
  delay : s'.delay.isSome = (s.delay.isSome || decide (f.1 = "delay"))
  command : s'.command.id ≠ s.command.id → f.1 = "command" ∧ has f.2 "id" = true

section Steps
variable {convert : Convert} {b : Nat} {lines rest : List YamlLine} {s s' : MissionStep}

/-- A field that is no part of what decides which fields a step needs. -/
theorem StepField.other {f : String × JsonValue} (schema : fieldInSchema .step f = true)
    (hf : f.1 ∉ ["id", "name", "enabled", "skip", "abort", "wait", "delay", "command"])
    (he : (s'.id, s'.name, s'.enabled, s'.skip, s'.abort, s'.wait, s'.delay, s'.command) =
      (s.id, s.name, s.enabled, s.skip, s.abort, s.wait, s.delay, s.command)) :
    StepField s f s' := by
  simp only [Prod.mk.injEq] at he
  obtain ⟨id, name, enabled, skip, abort, wait, delay, command⟩ := he
  simp only [List.mem_cons, List.not_mem_nil, or_false, not_or] at hf
  obtain ⟨-, -, henabled, hskip, habort, hwait, hdelay, -⟩ := hf
  exact
    { schema := schema
      id := fun h => absurd id h
      name := fun h => absurd name h
      enabled := by rw [if_neg henabled, enabled]
      skip := by rw [if_neg hskip, skip]
      abort := by rw [if_neg habort, abort]
      wait := by rw [wait, decide_eq_false hwait, Bool.or_false]
      delay := by rw [delay, decide_eq_false hdelay, Bool.or_false]
      command := fun h => absurd (congrArg Core.Command.id command) h }

theorem yaml_bool {value : Text} {field : String} {v : Bool} (h : yamlBool value field = .ok v) :
    v = isTrue (.string (yamlString value)) := by
  unfold yamlBool at h
  split at h
  · rename_i ht
    simp only [isTrue, ht, decide_true]
    exact (Except.ok.inj h).symm
  · rename_i ht
    split at h
    · simp only [isTrue, ht, decide_false]
      exact (Except.ok.inj h).symm
    · simp at h

theorem apply_step_known {key : String} {value : Text} {n : Nat}
    (h : applyYamlStepField s key value n = .ok s') : Place.field .step key = some .scalar := by
  unfold applyYamlStepField at h
  iterate 7
    rw [ite_eq_iff] at h
    obtain ⟨rfl, -⟩ | ⟨-, h⟩ := h
    · rfl
  exact absurd h fail_ne_ok

theorem apply_step {key : String} {value : Text} {n : Nat}
    (h : applyYamlStepField s key value n = .ok s') :
    StepField s (key, .string (yamlString value)) s' := by
  have schema := scalar_in_schema (apply_step_known h) (yamlString value)
  unfold applyYamlStepField at h
  rw [ite_eq_iff] at h
  obtain ⟨rfl, h⟩ | ⟨-, h⟩ := h
  · obtain ⟨_, -, rfl⟩ := stored_ok.mp h
    constructor <;> simp [schema]
  rw [ite_eq_iff] at h
  obtain ⟨rfl, h⟩ | ⟨-, h⟩ := h
  · obtain rfl := Except.ok.inj h
    constructor <;> simp [schema]
  iterate 2
    rw [ite_eq_iff] at h
    obtain ⟨rfl, h⟩ | ⟨-, h⟩ := h
    · obtain ⟨_, -, rfl⟩ := stored_ok.mp h
      exact .other schema (by simp) rfl
  iterate 3
    rw [ite_eq_iff] at h
    obtain ⟨rfl, h⟩ | ⟨-, h⟩ := h
    · obtain ⟨v, hv, rfl⟩ := stored_ok.mp h
      constructor <;> simp [schema, yaml_bool hv]
  simp at h

/-- A nested mapping that is read into a part of a step that decides nothing. -/
theorem StepField.block {line : YamlLine} {name : String} {q : Place} {inner : List Entry}
    (hn : Place.field .step name = some q) (hname : nameIn line.content = name)
    (hv : valueIn line.content = []) (hi : ∀ x ∈ inner, fieldInSchema q x.field = true)
    (hf : name ∉ ["id", "name", "enabled", "skip", "abort", "wait", "delay", "command"])
    (he : (s'.id, s'.name, s'.enabled, s'.skip, s'.abort, s'.wait, s'.delay, s'.command) =
      (s.id, s.name, s.enabled, s.skip, s.abort, s.wait, s.delay, s.command)) :
    StepField s (Entry.mk line inner).field s' := by
  obtain ⟨hfield, schema⟩ := mapping_field hn hname hv hi
  exact .other schema (by rw [hfield]; exact hf) he

theorem command_given {c c' : Core.Command} {inner : List Entry}
    (hc : Chain CommandField c inner c') (hne : c'.id ≠ c.id) :
    has (.object (blockFields inner)) "id" = true := by
  obtain ⟨x, hx, hid⟩ := chain_changed (f := Core.Command.id) hc (fun _ _ _ h => h.2) hne
  refine List.any_eq_true.mpr ⟨x.field, ?_, by simpa using hid⟩
  rw [members, block_fields]
  exact List.mem_map_of_mem hx

theorem read_step_field {line : YamlLine}
    (h : stepRound convert b s line lines = .ok (s', rest)) :
    ∃ inner, Went (4 + b + 1) lines inner rest ∧ StepField s (Entry.mk line inner).field s' := by
  simp only [stepRound, bind_ok] at h
  obtain ⟨⟨key, value⟩, hs, h⟩ := h
  obtain ⟨rfl, rfl⟩ := split_parts hs
  dsimp only at h
  rw [ite_eq_iff] at h
  obtain ⟨command, h⟩ | ⟨-, h⟩ := h
  · obtain ⟨hv, ⟨c, _⟩, hr, ⟨⟩⟩ := nested_read h
    obtain ⟨inner, hw, hc⟩ := read_command hr
    obtain ⟨hfield, schema⟩ := mapping_field (p := .step) (q := .command) rfl command hv
      (chain_all hc (fun _ _ _ hx => hx.1))
    refine ⟨inner, hw.mono (by omega), ?_⟩
    constructor <;> first | exact schema | (rw [hfield]; simp)
    exact command_given hc
  rw [ite_eq_iff] at h
  obtain ⟨retry, h⟩ | ⟨-, h⟩ := h
  · obtain ⟨hv, _, hr, ⟨⟩⟩ := nested_read h
    obtain ⟨inner, hw, hi⟩ := read_retry_policy hr
    exact ⟨inner, hw.mono (by omega), .block rfl retry hv hi (by decide) rfl⟩
  rw [ite_eq_iff] at h
  obtain ⟨loop, h⟩ | ⟨-, h⟩ := h
  · obtain ⟨hv, _, hr, ⟨⟩⟩ := nested_read h
    obtain ⟨inner, hw, hi⟩ := read_loop_policy hr
    exact ⟨inner, hw.mono (by omega), .block rfl loop hv hi (by decide) rfl⟩
  rw [ite_eq_iff] at h
  obtain ⟨timeout, h⟩ | ⟨-, h⟩ := h
  · obtain ⟨hv, _, hr, ⟨⟩⟩ := nested_read h
    obtain ⟨inner, hw, hi⟩ := read_timeout_policy hr
    exact ⟨inner, hw.mono (by omega), .block rfl timeout hv hi (by decide) rfl⟩
  rw [ite_eq_iff] at h
  obtain ⟨wait, h⟩ | ⟨-, h⟩ := h
  · obtain ⟨hv, _, hr, ⟨⟩⟩ := nested_read h
    obtain ⟨inner, hw, hi⟩ := read_wait_step hr
    obtain ⟨hfield, schema⟩ := mapping_field (p := .step) rfl wait hv hi
    refine ⟨inner, hw.mono (by omega), ?_⟩
    constructor <;> first | exact schema | (rw [hfield]; simp)
  rw [ite_eq_iff] at h
  obtain ⟨delay, h⟩ | ⟨-, h⟩ := h
  · obtain ⟨hv, _, hr, ⟨⟩⟩ := nested_read h
    obtain ⟨inner, hw, hi⟩ := read_delay_step hr
    obtain ⟨hfield, schema⟩ := mapping_field (p := .step) rfl delay hv hi
    refine ⟨inner, hw.mono (by omega), ?_⟩
    constructor <;> first | exact schema | (rw [hfield]; simp)
  rw [ite_eq_iff] at h
  obtain ⟨conditions, h⟩ | ⟨-, h⟩ := h
  · obtain ⟨hv, _, hr, ⟨⟩⟩ := nested_read h
    obtain ⟨inner, hw, hi⟩ := read_conditions hr
    have schema := (sequence_field (p := .step) (q := .conditions) rfl conditions hv hi).1
    have hname : (Entry.mk line inner).field.1 = "conditions" := conditions
    exact ⟨inner, hw.mono (by omega), .other schema (by rw [hname]; decide) rfl⟩
  rw [ite_eq_iff] at h
  obtain ⟨metadata, h⟩ | ⟨-, h⟩ := h
  · obtain ⟨hv, _, hr, ⟨⟩⟩ := nested_read h
    obtain ⟨inner, hw⟩ := read_string_map hr
    obtain ⟨hname, schema⟩ := free_field (p := .step) inner metadata rfl
    exact ⟨inner, hw.mono (by omega), .other schema (by rw [hname]; decide) rfl⟩
  obtain ⟨rfl, hv, ha⟩ := scalar_round h
  refine ⟨[], Went.nothing _ _, ?_⟩
  rw [field_scalar hv]
  exact apply_step ha

/-- A field that changed a part of the state is there. -/
theorem has_chain {σ τ : Type} {changes : σ → String × JsonValue → σ → Prop} {f : σ → τ}
    {name : String} {s s' : σ} {fields : List (String × JsonValue)} (h : Chain changes s fields s')
    (hp : ∀ s x s', changes s x s' → f s' ≠ f s → x.1 = name) (hne : f s' ≠ f s) :
    has (.object fields) name = true := by
  obtain ⟨x, hx, hn⟩ := chain_changed h hp hne
  exact List.any_eq_true.mpr ⟨x, hx, decide_eq_true hn⟩

theorem flag_chain {σ : Type} {changes : σ → String × JsonValue → σ → Prop} {f : σ → Bool}
    {name : String} {s s' : σ} {fields : List (String × JsonValue)} (h : Chain changes s fields s')
    (hp : ∀ s x s', changes s x s' → f s' = if x.1 = name then isTrue x.2 else f s) :
    f s' = flag (.object fields) name (f s) :=
  chain_foldl (g := fun v (x : String × JsonValue) => if x.1 = name then isTrue x.2 else v) h hp

/-- What the fields of a step did to it, taken together. -/
theorem StepField.read {fields : List (String × JsonValue)}
    (h : Chain StepField {} fields s) : ReadStep (.object fields) s where
  id := has_chain (f := MissionStep.id) h (fun _ _ _ c => c.id)
  name := has_chain (f := MissionStep.name) h (fun _ _ _ c => c.name)
  enabled := flag_chain (f := MissionStep.enabled) h (fun _ _ _ c => c.enabled)
  skip := flag_chain (f := MissionStep.skip) h (fun _ _ _ c => c.skip)
  abort := flag_chain (f := MissionStep.abort) h (fun _ _ _ c => c.abort)
  wait := (chain_any (f := fun s => s.wait.isSome) h (fun _ _ _ c => c.wait)).trans
    (Bool.false_or _)
  delay := (chain_any (f := fun s => s.delay.isSome) h (fun _ _ _ c => c.delay)).trans
    (Bool.false_or _)
  command := fun hne => by
    obtain ⟨f, hf, hc, hid⟩ := chain_changed (f := fun s => s.command.id) h
      (fun _ _ _ c => c.command) hne
    exact List.any_eq_true.mpr ⟨f, hf, by simp [hc, hid]⟩

theorem read_step {line : YamlLine} (h : parseYamlStep convert b (line :: lines) = .ok (s, rest)) :
    ∃ inner, Went (4 + b) lines inner rest ∧
      inSchema .step (Entry.mk line inner).item = true ∧ ReadStep (Entry.mk line inner).item s := by
  simp only [parseYamlStep, bind_ok] at h
  obtain ⟨start, hstart, h⟩ := h
  have first : Chain StepField {} (entryFields line) start :=
    first_field (fun _ _ _ _ _ _ ha => apply_step ha) hstart
  obtain ⟨inner, hw, hc⟩ := read_mapping (fun s x s' => StepField s x.field s')
    (fun line leaves => leaves_step) (fun _ _ _ _ _ hr => read_step_field hr) h
  have fields : Chain StepField {} (entryFields line ++ blockFields inner) s := by
    rw [block_fields]
    exact chain_append first (chain_map hc)
  refine ⟨inner, hw, ?_, StepField.read fields⟩
  simp only [Entry.item, inSchema, Bool.or_eq_true]
  exact .inr ((members_in_schema _).mpr (chain_all fields (fun _ _ _ c => c.schema)))

theorem read_steps {steps steps' : List MissionStep}
    (h : parseYamlSteps convert b steps lines = .ok (steps', rest)) :
    ∃ inner, Went (2 + b) lines inner rest ∧
      (∀ x ∈ inner, startsEntry x.line = true ∧ inSchema .step x.item = true) ∧
      ∃ read, steps' = steps ++ read ∧ List.Forall₂ ReadStep (inner.map Entry.item) read := by
  obtain ⟨inner, hw, hs, read, he, hf⟩ := read_sequence
    (fun x s => inSchema .step x.item = true ∧ ReadStep x.item s)
    (fun line lines s rest _ hi => by
      obtain ⟨inner, hw, hx⟩ := read_step hi
      exact ⟨inner, hw.mono (by omega), hx⟩) h
  refine ⟨inner, hw, fun x hx => ⟨hs x hx, ?_⟩, read, he, ?_⟩
  · obtain ⟨_, -, hr⟩ := exists_related hf hx
    exact hr.1
  · exact List.forall₂_map_left_iff.mpr (hf.imp (fun _ _ hr => hr.2))

end Steps

/-- What a field of a mission does to the mission. -/
structure MissionField (m : Mission) (f : String × JsonValue) (m' : Mission) : Prop where
  schema : fieldInSchema .mission f = true
  id : m'.id ≠ m.id → f.1 = "id"
  name : m'.name ≠ m.name → f.1 = "name"
  version : m'.version ≠ m.version → f.1 = "version"
  author : m'.author ≠ m.author → f.1 = "author"
  present : m'.steps ≠ m.steps → f.1 = "steps"
  steps : ∃ read, m'.steps = m.steps ++ read ∧
    List.Forall₂ ReadStep (if f.1 = "steps" then elements f.2 else []) read

section Missions
variable {convert : Convert} {b : Nat} {lines rest : List YamlLine} {m m' : Mission}

theorem apply_mission_known {key : String} {value : Text} {n : Nat}
    (h : applyYamlMissionField m key value n = .ok m') :
    Place.field .mission key = some .scalar ∧ key ≠ "steps" ∧ m'.steps = m.steps := by
  unfold applyYamlMissionField at h
  rw [ite_eq_iff] at h
  obtain ⟨rfl, h⟩ | ⟨-, h⟩ := h
  · obtain ⟨_, -, rfl⟩ := stored_ok.mp h
    exact ⟨rfl, by decide, rfl⟩
  iterate 4
    rw [ite_eq_iff] at h
    obtain ⟨rfl, h⟩ | ⟨-, h⟩ := h
    · obtain rfl := Except.ok.inj h
      exact ⟨rfl, by decide, rfl⟩
  exact absurd h fail_ne_ok

theorem apply_mission {key : String} {value : Text} {n : Nat}
    (h : applyYamlMissionField m key value n = .ok m') :
    MissionField m (key, .string (yamlString value)) m' := by
  obtain ⟨known, other, steps⟩ := apply_mission_known h
  have schema := scalar_in_schema known (yamlString value)
  have none : ∃ read, m'.steps = m.steps ++ read ∧
      List.Forall₂ ReadStep (if key = "steps" then elements (.string (yamlString value)) else [])
        read := ⟨[], by rw [steps, List.append_nil], by rw [if_neg other]; exact .nil⟩
  unfold applyYamlMissionField at h
  rw [ite_eq_iff] at h
  obtain ⟨rfl, h⟩ | ⟨-, h⟩ := h
  · obtain ⟨_, -, rfl⟩ := stored_ok.mp h
    refine ⟨schema, ?_, ?_, ?_, ?_, fun hs => absurd steps hs, none⟩ <;> simp
  iterate 4
    rw [ite_eq_iff] at h
    obtain ⟨rfl, h⟩ | ⟨-, h⟩ := h
    · obtain rfl := Except.ok.inj h
      refine ⟨schema, ?_, ?_, ?_, ?_, fun hs => absurd steps hs, none⟩ <;> simp
  exact absurd h fail_ne_ok

theorem read_mission_field {line : YamlLine}
    (h : missionRound convert b m line lines = .ok (m', rest)) :
    ∃ inner, Went (b + 1) lines inner rest ∧ MissionField m (Entry.mk line inner).field m' := by
  simp only [missionRound, bind_ok] at h
  obtain ⟨⟨key, value⟩, hs, h⟩ := h
  obtain ⟨rfl, rfl⟩ := split_parts hs
  dsimp only at h
  rw [ite_eq_iff] at h
  obtain ⟨metadata, h⟩ | ⟨-, h⟩ := h
  · obtain ⟨hv, _, hr, ⟨⟩⟩ := nested_read h
    obtain ⟨inner, hw⟩ := read_string_map hr
    obtain ⟨hname, schema⟩ := free_field (p := .mission) inner metadata rfl
    refine ⟨inner, hw.mono (by omega), schema, fun hc => absurd rfl hc, fun hc => absurd rfl hc,
      fun hc => absurd rfl hc, fun hc => absurd rfl hc, fun hc => absurd rfl hc, [], ?_, ?_⟩
    · rw [List.append_nil]
    · rw [hname]
      exact .nil
  rw [ite_eq_iff] at h
  obtain ⟨steps, h⟩ | ⟨-, h⟩ := h
  · obtain ⟨hv, ⟨read', _⟩, hr, ⟨⟩⟩ := nested_read h
    obtain ⟨inner, hw, hi, read, hread, hf⟩ := read_steps hr
    obtain ⟨schema, he⟩ := sequence_field (p := .mission) (q := .steps) rfl steps hv hi
    have hname : (Entry.mk line inner).field.1 = "steps" := steps
    refine ⟨inner, hw.mono (by omega), schema, fun hc => absurd rfl hc, fun hc => absurd rfl hc,
      fun hc => absurd rfl hc, fun hc => absurd rfl hc, fun _ => hname, read, hread, ?_⟩
    rw [if_pos hname, he]
    exact hf
  obtain ⟨rfl, hv, ha⟩ := scalar_round h
  refine ⟨[], Went.nothing _ _, ?_⟩
  rw [field_scalar hv]
  exact apply_mission ha

theorem read_entries {fields : List (String × JsonValue)} (h : Chain MissionField m fields m') :
    ∃ read, m'.steps = m.steps ++ read ∧
      List.Forall₂ ReadStep (stepEntries (.object fields)) read := by
  induction fields generalizing m with
  | nil => exact ⟨[], by rw [h, List.append_nil], .nil⟩
  | cons f fields ih =>
    obtain ⟨n, hn, h⟩ := h
    obtain ⟨read, hr, hf⟩ := hn.steps
    obtain ⟨more, hm, hf'⟩ := ih h
    exact ⟨read ++ more, by rw [hm, hr, List.append_assoc], List.rel_append hf hf'⟩

theorem MissionField.read {fields : List (String × JsonValue)}
    (h : Chain MissionField {} fields m) : ReadMission (.object fields) m where
  id := has_chain (f := Mission.id) h (fun _ _ _ c => c.id)
  name := has_chain (f := Mission.name) h (fun _ _ _ c => c.name)
  version := has_chain (f := Mission.version) h (fun _ _ _ c => c.version)
  author := has_chain (f := Mission.author) h (fun _ _ _ c => c.author)
  present := has_chain (f := Mission.steps) h (fun _ _ _ c => c.present)
  steps := by
    obtain ⟨read, hr, hf⟩ := read_entries h
    rw [hr]
    exact hf

end Missions

end HumanoidCore.Missions
