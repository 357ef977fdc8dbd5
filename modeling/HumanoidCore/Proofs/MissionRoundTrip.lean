import HumanoidCore.Proofs.MissionValues

namespace HumanoidCore.Missions
open Core Documents

section Rows
variable {σ : Type} {stops : YamlLine → Reading Bool}
  {round : σ → YamlLine → List YamlLine → Reading (σ × List YamlLine)} {b e n : Nat} {s s' : σ}
  {key : String} {value : Text} {rows : List Row} {rest : List YamlLine} {missing message : String}
  {apply : σ → String → Text → Nat → Reading σ} {Follows : List YamlLine → Prop}

def KeyText (key : String) : Prop := ':' ∉ key.toList ∧ trim key.toList = key.toList

instance (key : String) : Decidable (KeyText key) := inferInstanceAs (Decidable (_ ∧ _))

theorem split_at {indent : Nat} {content tail : Text} (hkey : KeyText key)
    (h : content = key.toList ++ ':' :: tail) :
    splitYamlKeyValue ⟨indent, content, n⟩ = .ok (key, trim tail) := by
  subst h
  have htake : ∀ c ∈ key.toList, (c ≠ ':') = true := by
    rintro c hc
    simp only [eq_iff_iff, iff_true]
    rintro rfl
    exact hkey.1 hc
  simp only [splitYamlKeyValue, List.mem_append, List.mem_cons, true_or, or_true, if_true]
  rw [List.takeWhile_append_of_pos (by simpa using htake),
    List.dropWhile_append_of_pos (by simpa using htake)]
  simp [hkey.2]

theorem split_row (hkey : KeyText key) (hvalue : ValueText value) :
    splitYamlKeyValue ⟨e + b, key.toList ++ ':' :: ' ' :: value, n⟩ = .ok (key, value) := by
  rw [split_at hkey rfl, trim_space, hvalue.bare.trim]

theorem split_block (hkey : KeyText key) :
    splitYamlKeyValue ⟨e + b, key.toList ++ [':'], n⟩ = .ok (key, []) :=
  split_at hkey rfl

theorem scalar_round_at (hkey : KeyText key) (hvalue : ValueText value)
    (happly : apply s key value n = .ok s') :
    scalarRound missing apply s ⟨e + b, key.toList ++ ':' :: ' ' :: value, n⟩ rest =
      .ok (s', rest) := by
  simp only [scalarRound, split_row hkey hvalue, ok_bind, hvalue.nonempty, if_false, happly,
    pure_eq]

theorem only_field_at {field path : String} {apply : Text → Reading σ} (hkey : KeyText field)
    (hvalue : ValueText value) (happly : apply value = .ok s') :
    onlyField field path apply ⟨e + b, field.toList ++ ':' :: ' ' :: value, n⟩ rest =
      .ok (s', rest) := by
  simp only [onlyField, split_row hkey hvalue, ok_bind, ne_eq, not_true_eq_false, hvalue.nonempty,
    or_self, if_false, happly, pure_eq]

theorem row_bare (hkey : KeyText key) (hne : key ≠ "") (hvalue : ValueText value) :
    Bare (key.toList ++ ':' :: ' ' :: value) := by
  have hkeyed : Bare key.toList := bare_iff.mpr hkey.2
  refine ⟨fun c hc => ?_, fun c hc => ?_⟩
  · cases htext : key.toList with
    | nil => exact absurd (String.toList_eq_nil_iff.mp htext) hne
    | cons d tail =>
      rw [htext] at hc
      refine hkeyed.1 c ?_
      rw [htext]
      exact hc
  · refine hvalue.bare.2 c ?_
    rwa [show key.toList ++ ':' :: ' ' :: value = (key.toList ++ [':', ' ']) ++ value by simp,
      List.getLast?_append_of_ne_nil _ hvalue.nonempty] at hc

/-- The field on the line of the dash is read like any other. -/
theorem first_field_at (hkey : KeyText key) (hne : key ≠ "") (hvalue : ValueText value) :
    firstField message apply s ⟨e + b, '-' :: ' ' :: (key.toList ++ ':' :: ' ' :: value), n⟩ =
      apply s key value n := by
  have htrim := (row_bare hkey hne hvalue).trim
  have htext : key.toList ++ ':' :: ' ' :: value ≠ [] := by simp
  have hlength : ¬ ('-' :: ' ' :: (key.toList ++ ':' :: ' ' :: value)).length < 2 := by
    simp only [List.length_cons]
    omega
  simp only [firstField, afterDash, hlength, if_false, ok_bind, List.drop_succ_cons,
    List.drop_zero, htrim, htext, split_row hkey hvalue, hvalue.nonempty]

theorem starts_entry (text : Text) : startsEntry ⟨e + b, '-' :: ' ' :: text, n⟩ = true := by
  cases text <;> rfl

/-- A block that is left out changes nothing. -/
theorem Reads.optional (hempty : rows = [] → s = s')
    (h : Reads stops round Follows b s ((e, key.toList ++ [':']) :: rows) s') :
    Reads stops round Follows b s (blockRows e key rows) s' := by
  unfold blockRows
  split
  · rename_i hrows
    rw [hempty hrows]
    exact .nil
  · exact h

end Rows

section Maps
variable {α : Type} {plain : α → Prop}

theorem emplace_last {entries : List (String × α)} {key : String} {value : α}
    (h : ∀ x ∈ entries, x.1 < key) : emplace entries key value = entries ++ [(key, value)] := by
  induction entries with
  | nil => rfl
  | cons x entries ih =>
    obtain ⟨k, v⟩ := x
    have hlt : k < key := h (k, v) (by simp)
    have hne : key ≠ k := fun he => String.lt_irrefl k (he ▸ hlt)
    have hnot : ¬ key < k := String.lt_asymm hlt
    rw [emplace, if_neg hne, if_neg hnot, ih (fun y hy => h y (List.mem_cons_of_mem _ hy))]
    rfl

/-- Entries that come in order are kept as they come. -/
theorem foldl_emplace {entries acc : List (String × α)}
    (h : ((acc ++ entries).map Prod.fst).Pairwise (· < ·)) :
    entries.foldl (fun acc x => emplace acc x.1 x.2) acc = acc ++ entries := by
  induction entries generalizing acc with
  | nil => simp
  | cons x entries ih =>
    have hlast : ∀ y ∈ acc, y.1 < x.1 := by
      intro y hy
      rw [List.map_append, List.pairwise_append] at h
      exact h.2.2 y.1 (List.mem_map_of_mem hy) x.1 (by simp)
    rw [List.foldl_cons, emplace_last hlast, ih (by simpa using h)]
    simp

theorem PlainMap.kept {entries : List (String × α)} (h : PlainMap plain entries) :
    entries.foldl (fun acc x => emplace acc x.1 x.2) [] = entries := by
  rw [foldl_emplace (by simpa using h.sorted), List.nil_append]

theorem PlainKey.key {key : String} (h : PlainKey key) : KeyText key := ⟨h.colon, h.trimmed⟩

/-- A key does not begin as a sequence entry does, nor does a line that begins with it. -/
theorem key_no_dash {key : String} {tail : Text} (h : "- ".toList.isPrefixOf key.toList = false) :
    "- ".toList.isPrefixOf (key.toList ++ ':' :: tail) = false := by
  generalize key.toList = text at h
  match text with
  | [] => rfl
  | [c] =>
    cases hc : ('-' == c)
    · simp [List.isPrefixOf, hc]
    · simp [List.isPrefixOf]
  | c :: d :: rest => simpa [List.isPrefixOf] using h

end Maps

section Blocks
variable {convert : Convert} {b e e' : Nat} {lines more : List YamlLine}

/-- The two readers of maps take every entry as it was. -/
theorem map_reads {α : Type} {plain : α → Prop} {text : α → Text} {read : Text → α}
    {stops : YamlLine → Reading Bool} {missing : String} {entries : List (String × α)}
    (h : PlainMap plain entries)
    (hvalue : ∀ v, plain v → ValueText (text v) ∧ read (text v) = v)
    (hgoes : ∀ n content, "- ".toList.isPrefixOf content = false →
      stops ⟨e + b, content, n⟩ = .ok false) :
    Reads stops (scalarRound missing (fun output key value _ =>
      .ok (emplace output key (read value)))) (Near b e) b []
      (entries.map (fun x => scalarRow e x.1 (text x.2))) entries := by
  have hentries : Reads stops (scalarRound missing (fun output key value _ =>
      .ok (emplace output key (read value)))) (Near b e) b []
      (entries.flatMap (fun x => [scalarRow e x.1 (text x.2)]))
      (entries.foldl (fun acc x => emplace acc x.1 x.2) []) := by
    refine Reads.entries entries ?_
    intro acc x hx
    obtain ⟨hkey, hplain⟩ := h.plain x hx
    obtain ⟨hfits, hread⟩ := hvalue x.2 hplain
    refine .row (fun n => hgoes n _ (key_no_dash hkey.dash)) (fun n rest => ?_)
    exact scalar_round_at hkey.key hfits (by rw [hread])
  rwa [h.kept, ← List.map_eq_flatMap] at hentries

theorem metadata_read {metadata : MissionMetadata} (h : PlainMap PlainText metadata)
    (hlines : Shown b (metadataRows e metadata) lines) (hmore : Near b e' more) (he : e' < e) :
    parseYamlStringMap e b [] (lines ++ more) = .ok (metadata, more) :=
  Reads.read (map_reads h (fun _ hv => ⟨hv.fits, hv.read⟩) (fun n _ hd => leaves_map_here n hd))
    hlines (hmore.mono (Nat.le_of_lt he)) (leaves_map_outside hmore he)

theorem payload_reads {payload : List (String × CommandPayloadValue)}
    (h : PlainMap (PlainPayload convert) payload) (hlines : Shown b (payloadRows e payload) lines)
    (hmore : Near b e' more) (he : e' < e) :
    parseYamlPayload convert e b [] (lines ++ more) = .ok (payload, more) :=
  Reads.read (map_reads h (fun _ hv => ⟨payload_value hv, payload_read hv⟩)
    (fun n _ _ => leaves_block_here n)) hlines (hmore.mono (Nat.le_of_lt he))
    (leaves_block_outside hmore he)

/-- What the rounds of a command do: scalar fields, its payload, its metadata. -/
theorem command_rounds (convert : Convert) (b e : Nat) :
    ∃ stops round, parseYamlCommand convert e b = readWhile stops round ∧
      (∀ e' more, Near b e' more → e' < e → Stops stops more) ∧
      (∀ key value c c', key ≠ "payload" ∧ key ≠ "metadata" ∧ KeyText key → ValueText value →
        (∀ n, applyYamlCommandField c key value n = .ok c') →
        Reads stops round (Near b e) b c [scalarRow e key value] c') ∧
      (∀ c payload, PlainMap (PlainPayload convert) payload → c.payload = [] →
        Reads stops round (Near b e) b c (blockRows e "payload" (payloadRows (e + 2) payload))
          { c with payload := payload }) ∧
      (∀ c metadata, PlainMap PlainText metadata → c.metadata = [] →
        Reads stops round (Near b e) b c (blockRows e "metadata" (metadataRows (e + 2) metadata))
          { c with metadata := metadata }) := by
  refine ⟨_, _, rfl, fun e' more => leaves_block_outside, ?_, ?_, ?_⟩
  · rintro key value c c' ⟨hpayload, hmetadata, hkey⟩ hvalue happly
    refine .row (fun n => leaves_block_here n) (fun n rest => ?_)
    simp only [split_row hkey hvalue, ok_bind, hpayload, hmetadata, if_false,
      scalar_round_at hkey hvalue (happly n)]
  · intro c payload h hc
    refine .optional (fun hrows => ?_) (.fields (fun n => leaves_block_here n) ?_)
    · rw [List.map_eq_nil_iff.mp hrows, ← hc]
    · intro n inner more hinner hmore
      simp only [split_block (show KeyText "payload" by decide), ok_bind, if_true, nested, ne_eq,
        not_true_eq_false, if_false, hc, payload_reads h hinner hmore (by omega), pure_eq]
  · intro c metadata h hc
    refine .optional (fun hrows => ?_) (.fields (fun n => leaves_block_here n) ?_)
    · rw [List.map_eq_nil_iff.mp hrows, ← hc]
    · intro n inner more hinner hmore
      simp only [split_block (show KeyText "metadata" by decide), ok_bind, if_true, nested, ne_eq,
        not_true_eq_false, String.reduceEq, if_false, hc,
        metadata_read h hinner hmore (by omega), pure_eq]

theorem command_read {c : Command} (h : PlainCommand convert c)
    (hlines : Shown b (commandRows e c) lines) (hmore : Near b e' more) (he : e' < e) :
    parseYamlCommand convert e b { id := 0 } (lines ++ more) =
      .ok ({ c with timestamp := 0 }, more) := by
  obtain ⟨stops, round, hloop, hstops, hscalar, hpayload, hmetadata⟩ := command_rounds convert b e
  rw [hloop]
  refine Reads.read ?_ hlines (hmore.mono (Nat.le_of_lt he)) (hstops e' more hmore he)
  have hid : ∀ d n, applyYamlCommandField d "id" (natText c.id) n = .ok { d with id := c.id } := by
    intro d n
    simp only [applyYamlCommandField, if_true, read_uint64 h.id, ok_bind, pure_eq]
  have htype : ∀ d n, applyYamlCommandField d "type" (commandTypeName c.type).toList n =
      .ok { d with type := c.type } := by
    intro d n
    simp [applyYamlCommandField, (command_type_word c.type).read, command_type_found h.type, known]
  have hpriority : ∀ d n, applyYamlCommandField d "priority" (priorityName c.priority).toList n =
      .ok { d with priority := c.priority } := by
    intro d n
    simp [applyYamlCommandField, (priority_word c.priority).read, priority_found h.priority, known]
  have htimeout : ∀ d n, applyYamlCommandField d "timeout_ms" (intText c.timeout) n =
      .ok { d with timeout := c.timeout } := by
    intro d n
    simp [applyYamlCommandField, read_int64 h.timeout]
  refine .append (.cons (hscalar "id" _ _ _ (by decide) (nat_value _) (hid _)) <|
    .cons (hscalar "type" _ _ _ (by decide) (command_type_word _).fits (htype _)) <|
    .cons (hscalar "priority" _ _ _ (by decide) (priority_word _).fits (hpriority _)) <|
    hscalar "timeout_ms" _ _ _ (by decide) (int_value _) (htimeout _)) <|
    .append (hpayload _ c.payload h.payload rfl) (hmetadata _ c.metadata h.metadata rfl)

theorem scalar_reads {σ : Type} {s s' : σ} {unexpected missing key : String} {value : Text}
    {apply : σ → String → Text → Nat → Reading σ} (hkey : KeyText key) (hvalue : ValueText value)
    (happly : ∀ n, apply s key value n = .ok s') :
    Reads (leavesBlock unexpected e b) (scalarRound missing apply) (Near b e) b s
      [scalarRow e key value] s' :=
  .row (fun n => leaves_block_here n) (fun n _ => scalar_round_at hkey hvalue (happly n))

theorem retry_policy_read {p : RetryPolicy} (h : IsInt64 p.delayBetweenAttempts)
    (hlines : Shown b (retryPolicyRows e p) lines) (hmore : Near b e' more) (he : e' < e) :
    parseYamlRetryPolicy e b {} (lines ++ more) = .ok (p, more) := by
  unfold parseYamlRetryPolicy
  refine Reads.read ?_ hlines (hmore.mono (Nat.le_of_lt he)) (leaves_block_outside hmore he)
  have hattempts : ∀ q n, applyYamlRetryPolicyField q "max_attempts"
      (natText p.maxAttempts.toNat) n = .ok { q with maxAttempts := p.maxAttempts } := by
    intro q n
    simp [applyYamlRetryPolicyField, read_uint32]
  have hdelay : ∀ q n, applyYamlRetryPolicyField q "delay_ms" (intText p.delayBetweenAttempts) n =
      .ok { q with delayBetweenAttempts := p.delayBetweenAttempts } := by
    intro q n
    simp [applyYamlRetryPolicyField, read_int64 h]
  have hfailure : ∀ q n, applyYamlRetryPolicyField q "retry_on_failure"
      (boolText p.retryOnFailure) n = .ok { q with retryOnFailure := p.retryOnFailure } := by
    intro q n
    simp [applyYamlRetryPolicyField, read_bool]
  have htimeout : ∀ q n, applyYamlRetryPolicyField q "retry_on_timeout"
      (boolText p.retryOnTimeout) n = .ok { q with retryOnTimeout := p.retryOnTimeout } := by
    intro q n
    simp [applyYamlRetryPolicyField, read_bool]
  exact .cons (scalar_reads (by decide) (nat_value _) (hattempts _)) <|
    .cons (scalar_reads (by decide) (int_value _) (hdelay _)) <|
    .cons (scalar_reads (by decide) (bool_value _) (hfailure _)) <|
    scalar_reads (by decide) (bool_value _) (htimeout _)

theorem timeout_policy_read {p : TimeoutPolicy} (h : IsInt64 p.timeout)
    (hlines : Shown b (timeoutPolicyRows e p) lines) (hmore : Near b e' more) (he : e' < e) :
    parseYamlTimeoutPolicy e b {} (lines ++ more) = .ok (p, more) := by
  unfold parseYamlTimeoutPolicy
  refine Reads.read ?_ hlines (hmore.mono (Nat.le_of_lt he)) (leaves_block_outside hmore he)
  have htimeout : ∀ q n, applyYamlTimeoutPolicyField q "timeout_ms" (intText p.timeout) n =
      .ok { q with timeout := p.timeout } := by
    intro q n
    simp [applyYamlTimeoutPolicyField, read_int64 h]
  have habort : ∀ q n, applyYamlTimeoutPolicyField q "abort_on_timeout"
      (boolText p.abortOnTimeout) n = .ok { q with abortOnTimeout := p.abortOnTimeout } := by
    intro q n
    simp [applyYamlTimeoutPolicyField, read_bool]
  exact .cons (scalar_reads (by decide) (int_value _) (htimeout _)) <|
    scalar_reads (by decide) (bool_value _) (habort _)

/-- The three readers that know one field. -/
theorem only_reads {σ : Type} {s s' : σ} {unexpected field path : String} {value : Text}
    {apply : σ → Text → Reading σ} (hkey : KeyText field) (hvalue : ValueText value)
    (happly : apply s value = .ok s')
    (hlines : Shown b [scalarRow e field value] lines) (hmore : Near b e' more) (he : e' < e) :
    readWhile (leavesBlock unexpected e b) (fun s => onlyField field path (apply s)) s
      (lines ++ more) = .ok (s', more) :=
  Reads.read (.row (fun n => leaves_block_here n)
      (fun _ _ => only_field_at hkey hvalue happly)) hlines
    (hmore.mono (Nat.le_of_lt he)) (leaves_block_outside hmore he)

theorem loop_policy_read {p : LoopPolicy} (hlines : Shown b (loopPolicyRows e p) lines)
    (hmore : Near b e' more) (he : e' < e) :
    parseYamlLoopPolicy e b {} (lines ++ more) = .ok (p, more) :=
  only_reads (by decide) (nat_value _) (by simp [read_uint32]) hlines hmore he

theorem wait_step_read {duration : Int} (h : IsInt64 duration)
    (hlines : Shown b (durationRows e (some duration)) lines) (hmore : Near b e' more)
    (he : e' < e) : parseYamlWaitStep e b 0 (lines ++ more) = .ok (duration, more) :=
  only_reads (by decide) (int_value _) (read_int64 h) hlines hmore he

theorem delay_step_read {duration : Int} (h : IsInt64 duration)
    (hlines : Shown b (durationRows e (some duration)) lines) (hmore : Near b e' more)
    (he : e' < e) : parseYamlDelayStep e b 0 (lines ++ more) = .ok (duration, more) :=
  only_reads (by decide) (int_value _) (read_int64 h) hlines hmore he

theorem leaves_condition_here (text : Text) (n : Nat) :
    leavesCondition e b ⟨e + 2 + b, text, n⟩ = .ok false := by
  simp [leavesCondition, logical_indent_at]

theorem leaves_condition_outside (h : Ended b e more) : Stops (leavesCondition e b) more := by
  intro l hl
  obtain ⟨hlow, hhigh⟩ := h l hl
  have hin : ¬ l.indent < b := by omega
  have hout : l.indent - b < e ∨ l.indent - b = e ∧ startsEntry l = true := by
    rcases hhigh with hhigh | ⟨heq, hdash⟩
    · exact .inl (by omega)
    · exact .inr ⟨by omega, hdash⟩
  simp only [leavesCondition, logicalIndent, hin, if_false, ok_bind, hout, if_true, pure_eq]

/-- What the rounds of a condition do: scalar fields, and its metadata. -/
theorem condition_rounds (convert : Convert) (b e : Nat) :
    ∃ stops round,
      (∀ first rest, parseYamlCondition convert e b (first :: rest) = (do
        let condition ← firstField "YAML condition sequence entry requires a scalar first field"
          (applyYamlConditionField convert) {} first
        readWhile stops round condition rest)) ∧
      (∀ more, Ended b e more → Stops stops more) ∧
      (∀ key value c c', key ≠ "metadata" ∧ KeyText key → ValueText value →
        (∀ n, applyYamlConditionField convert c key value n = .ok c') →
        Reads stops round (Near b (e + 2)) b c [scalarRow (e + 2) key value] c') ∧
      (∀ c metadata, PlainMap PlainText metadata → c.metadata = [] →
        Reads stops round (Near b (e + 2)) b c
          (blockRows (e + 2) "metadata" (metadataRows (e + 4) metadata))
          { c with metadata := metadata }) := by
  refine ⟨leavesCondition e b, _, fun first rest => rfl, fun _ => leaves_condition_outside, ?_, ?_⟩
  · rintro key value c c' ⟨hmetadata, hkey⟩ hvalue happly
    refine .row (leaves_condition_here _) (fun n rest => ?_)
    simp only [split_row hkey hvalue, ok_bind, hmetadata, if_false,
      scalar_round_at hkey hvalue (happly n)]
  · intro c metadata h hc
    refine .optional (fun hrows => ?_) (.fields (leaves_condition_here _) ?_)
    · rw [List.map_eq_nil_iff.mp hrows, ← hc]
    · intro n inner more hinner hmore
      simp only [split_block (show KeyText "metadata" by decide), ok_bind, if_true, nested, ne_eq,
        not_true_eq_false, if_false, hc, metadata_read h hinner hmore (by omega), pure_eq]

theorem wrap32_of_fits {n : Int} (h : -(2 ^ 31) ≤ n ∧ n < 2 ^ 31) : wrap32 n = n := by
  obtain ⟨hlow, hhigh⟩ := h
  apply Int.bmod_eq_of_le <;> omega

theorem condition_read {c : MissionCondition} (h : PlainCondition c) {n : Nat}
    {inner : List YamlLine} {r : Row} {rows : List Row} (hrows : conditionRows e c = r :: rows)
    (hinner : Shown b rows inner) (hmore : Ended b e more) :
    parseYamlCondition convert e b (⟨r.1 + b, r.2, n⟩ :: (inner ++ more)) = .ok (c, more) := by
  cases hrows
  obtain ⟨stops, round, hloop, hstops, hscalar, hmetadata⟩ := condition_rounds convert b e
  have hid : ∀ d n, applyYamlConditionField convert d "id" (natText c.id) n =
      .ok { d with id := c.id } := by
    intro d n
    simp only [applyYamlConditionField, if_true, read_uint64 h.id, ok_bind, pure_eq]
  have hname : ∀ d n, applyYamlConditionField convert d "name" c.name.toList n =
      .ok { d with name := c.name } := by
    intro d n
    simp [applyYamlConditionField, h.name.read]
  have htype : ∀ d n, applyYamlConditionField convert d "type" (conditionTypeName c.type).toList n =
      .ok { d with type := c.type } := by
    intro d n
    simp [applyYamlConditionField, (condition_type_word c.type).read, condition_type_found, known]
  have hcomparison : ∀ d n, applyYamlConditionField convert d "comparison"
      (comparisonName c.comparison).toList n = .ok { d with comparison := c.comparison } := by
    intro d n
    simp [applyYamlConditionField, (comparison_word c.comparison).read, comparison_found, known]
  have hbool : yamlString (boolText c.boolValue) = "true" ∨
      yamlString (boolText c.boolValue) = "false" := by
    rw [yamlString, (bool_value c.boolValue).scalar]
    cases c.boolValue
    · exact .inr rfl
    · exact .inl rfl
  have hvalue : ∀ d n, applyYamlConditionField convert d "value" (boolText c.boolValue) n =
      .ok { d with boolValue := c.boolValue } := by
    intro d n
    simp [applyYamlConditionField, hbool, read_bool]
  have hfault : ∀ d n, applyYamlConditionField convert d "fault_code" (intText c.faultCode) n =
      .ok { d with faultCode := c.faultCode } := by
    intro d n
    have hfits : IsInt64 c.faultCode := by
      have hcode := h.faultCode
      unfold IsInt64
      omega
    simp [applyYamlConditionField, read_int64 hfits, wrap32_of_fits h.faultCode]
  have hcommand : ∀ d n, applyYamlConditionField convert d "command_type"
      (commandTypeName c.commandType).toList n = .ok { d with commandType := c.commandType } := by
    intro d n
    simp [applyYamlConditionField, (command_type_word c.commandType).read,
      command_type_found h.commandType, known]
  have haction : ∀ d n, applyYamlConditionField convert d "on_failure"
      (failureActionName c.failureAction).toList n =
        .ok { d with failureAction := c.failureAction } := by
    intro d n
    simp [applyYamlConditionField, (failure_action_word c.failureAction).read,
      failure_action_found, known]
  rw [hloop, scalarRow, first_field_at (by decide) (by decide) (nat_value c.id), hid, ok_bind]
  refine Reads.read ?_ hinner (hmore.near.mono (Nat.le_add_right e 2)) (hstops more hmore)
  refine .append (.cons (hscalar "name" _ _ _ (by decide) h.name.fits (hname _)) <|
    .cons (hscalar "type" _ _ _ (by decide) (condition_type_word _).fits (htype _)) <|
    .cons (hscalar "comparison" _ _ _ (by decide) (comparison_word _).fits (hcomparison _)) <|
    .cons (hscalar "value" _ _ _ (by decide) (bool_value _) (hvalue _)) <|
    .cons (hscalar "fault_code" _ _ _ (by decide) (int_value _) (hfault _)) <|
    .cons (hscalar "command_type" _ _ _ (by decide) (command_type_word _).fits (hcommand _)) <|
    hscalar "on_failure" _ _ _ (by decide) (failure_action_word _).fits (haction _)) ?_
  have hlast := hmetadata { c with numericValue := 0, metadata := [] } c.metadata h.metadata rfl
  have hsame : { c with numericValue := 0 } = c := by
    cases c
    cases h.boolean
    rfl
  rwa [show { c with numericValue := 0, metadata := c.metadata } = c from hsame] at hlast

end Blocks

end HumanoidCore.Missions
