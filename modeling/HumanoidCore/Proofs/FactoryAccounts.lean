import HumanoidCore.PlannerFactory
import HumanoidCore.PluginFactory

namespace HumanoidCore.Proofs.FactoryAccounts
open Lib Common Factory

variable {ρ μ : Type} {s t : State ρ μ} {c c' : Client μ} {input : Input μ} {x : Instance}
  {k id : String} {i : Nat} {status : Status} {strict : Bool}

/-- The registration that the factory has made the instance under. -/
def own (x : Instance) : List String := if x.created then [x.id] else []

/-- The registration of a creation that has raised its counter and not yet lowered it. -/
def creating : Client μ → List String
  | .creating key | .releasing key _ _ | .loading key => [key]
  | _ => []

/-- The instance that a `Destroy` has been given and has not destroyed. -/
def target : Client μ → Option Instance
  | .destroy x => x
  | .shuttingDown x | .refusing x _ | .lowering x | .closing x | .resetting x _ => some x
  | _ => none

/-- The `Destroy` has lowered a counter, and the instance still lives. -/
def gaveUp : Client μ → Bool
  | .closing _ | .resetting _ _ => true
  | _ => false

def destroying (c : Client μ) : List String := ((target c).map own).getD []

def givenUp (c : Client μ) : List String := if gaveUp c then destroying c else []

/-- The registration whose counter stands for this operation. -/
def counted (c : Client μ) : List String := creating c ++ if gaveUp c then [] else destroying c

/-- How many instances made under the registration live, with callers and inside a `Destroy`. -/
def live (s : State ρ μ) (k : String) : Nat :=
  tally own s.instances k + tally destroying s.clients k

def creations (s : State ρ μ) (k : String) : Nat := tally creating s.clients k

/-- How many of the living ones are no longer counted. -/
def leaving (s : State ρ μ) (k : String) : Nat := tally givenUp s.clients k

/-- What the counter of the registration should be but for the ones that are leaving. -/
def claims (s : State ρ μ) (k : String) : Nat :=
  tally own s.instances k + tally counted s.clients k

def active (s : State ρ μ) (k : String) : Nat := (s.factories.get? k).getD 0

/-- Every counter is the number of living instances and of creations in progress, less the
ones that `slack` allows. -/
def Accounted (slack : State ρ μ → String → Nat) (s : State ρ μ) : Prop :=
  ∀ k n, s.factories.get? k = some n → n + slack s k = live s k + creations s k

/-- No `Destroy` that has given its instance up is going to answer with an error. -/
def Answers (s : State ρ μ) : Prop :=
  ∀ c ∈ s.clients, ∀ x status, c = .resetting x status → status.isOk = true

/-- A step that ends `Unregister` with success finds nothing alive or in progress, and one that
ends `Destroy` with an error gives the instance back, still counted. -/
def Clean (s : State ρ μ) (a : Action μ) (t : State ρ μ) : Prop :=
  ∀ i input c status, a = .client i input → s.clients[i]? = some c →
    t.clients[i]? = some (.returned status) →
      (∀ id, c = .unregister id → status.isOk = true → live s id = 0 ∧ creations s id = 0) ∧
      (∀ x, target c = some x → status.isOk = false →
        x ∈ t.instances ∧ t.factories = s.factories ∧ gaveUp c = false)

/-- The `Unregister` that succeeds next. -/
def closes (hasRegistry : Bool) (s : State ρ μ) : Client μ → Option String
  | .unregister id =>
    if hasRegistry ∧ id ≠ "" ∧ s.factories.get? id = some 0 ∧ id ∈ s.registry then some id else none
  | _ => none

/-- The condition on one operation: it lowers no counter for an instance that the factory has
not made (if `strict`, none at all), unregisters nothing that a `Destroy` has given up but not
destroyed, and finds the record of what it destroys. -/
def allowed (lowers : Client μ → Input μ → Option Instance) (hasRegistry strict : Bool)
    (s : State ρ μ) (c : Client μ) (input : Input μ) : Prop :=
  (∀ x, lowers c input = some x → (strict = false ∧ x.created = true) ∨ active s x.id = 0) ∧
    (∀ id, closes hasRegistry s c = some id → leaving s id = 0) ∧
    ∀ x, c = .closing x → x.id ≠ "" ∧ x.id ∈ s.registry

def permitted (lowers : Client μ → Input μ → Option Instance) (hasRegistry strict : Bool)
    (s : State ρ μ) : Action μ → Prop
  | .client i input => ∀ c, s.clients[i]? = some c → allowed lowers hasRegistry strict s c input
  | _ => True

/-- What a section of an operation does to the books. -/
inductive Section (lowered : Option Instance) (s : State ρ μ) (c : Client μ) :
    State ρ μ → Client μ → Prop where
  | still (registry : Map String ρ) (c' : Client μ) (claims : counted c' = counted c)
      (leaving : givenUp c' = givenUp c) : Section lowered s c { s with registry } c'
  | opens (registry : Map String ρ) (status : Status) (k : String) (fresh : k ∉ s.factories)
      (idle : counted c = [] ∧ givenUp c = []) :
      Section lowered s c { s with registry, factories := s.factories.insert k 0 }
        (.returned status)
  | closes (registry : Map String ρ) (status : Status) (k : String)
      (zero : s.factories.get? k = some 0) (idle : counted c = [] ∧ givenUp c = []) :
      Section lowered s c { s with registry, factories := s.factories.erase k } (.returned status)
  | raises (k : String) (n : Nat) (entry : s.factories.get? k = some n)
      (idle : counted c = [] ∧ givenUp c = []) :
      Section lowered s c { s with factories := s.factories.insert k (n + 1) } (.creating k)
  | releases (k : String) (c' : Client μ) (before : counted c = [k] ∧ givenUp c = [])
      (after : counted c' = [] ∧ givenUp c' = []) :
      Section lowered s c { s with factories := releaseActiveInstance s.factories k } c'
  | hands (registry : Map String ρ) (x : Instance) (status : Status)
      (before : counted c = own x ∧ givenUp c = []) :
      Section lowered s c ({ s with registry }.giveBack x) (.returned status)
  | lowers (x : Instance) (c' : Client μ) (which : lowered = some x)
      (before : counted c = own x ∧ givenUp c = []) (after : counted c' = [] ∧ givenUp c' = own x) :
      Section lowered s c { s with factories := releaseActiveInstance s.factories x.id } c'
  | ends (status : Status) (before : counted c = []) : Section lowered s c s (.returned status)

/-- What the books rely on of a factory. -/
structure Keeps (clientStep : State ρ μ → Client μ → Input μ → Option (State ρ μ × Client μ))
    (lowers : Client μ → Input μ → Option Instance) (hasRegistry : Bool) : Prop where
  turn : ∀ {s t c c' input}, clientStep s c input = some (t, c') →
    Section (lowers c input) s c t c'
  lowered : ∀ {s t c c' input x}, clientStep s c input = some (t, c') → lowers c input = some x →
    active s x.id = 0 ∨ (t = { s with factories := releaseActiveInstance s.factories x.id } ∧
      (counted c = own x ∧ givenUp c = []) ∧ counted c' = [] ∧ givenUp c' = own x)
  unregistered : ∀ {s t id input status},
    clientStep s (.unregister id) input = some (t, .returned status) → status.isOk = true →
      closes hasRegistry s (.unregister id : Client μ) = some id
  closed : ∀ {s t c c' input id}, clientStep s c input = some (t, c') →
    closes hasRegistry s c = some id →
      c = .unregister id ∧ ∃ status, c' = .returned status ∧ status.isOk = true
  refused : ∀ {s t c input x status}, clientStep s c input = some (t, .returned status) →
    target c = some x → status.isOk = false →
      (x ∈ t.instances ∧ t.factories = s.factories ∧ gaveUp c = false) ∨ c = .resetting x status
  resetting : ∀ {s t c input x status}, clientStep s c input = some (t, .resetting x status) →
    status.isOk = true ∨ c = .closing x
  closing : ∀ {s t c' input x}, clientStep s (.closing x) input = some (t, c') →
    ∃ status, c' = .resetting x status ∧
      (status.isOk = true ↔ x.id ≠ "" ∧ x.id ∈ s.registry)

section Books

theorem counted_split (c : Client μ) (k : String) :
    (counted c).count k + (givenUp c).count k = (creating c).count k + (destroying c).count k := by
  unfold counted givenUp
  split
  · simp
  · simp

theorem claims_leaving (s : State ρ μ) (k : String) :
    claims s k + leaving s k = live s k + creations s k := by
  have hsplit : tally counted s.clients k + tally givenUp s.clients k =
      tally creating s.clients k + tally destroying s.clients k :=
    tally_split (fun c => counted_split c k)
  unfold claims leaving live creations
  omega

theorem get_release (factories : Map String Nat) (j : String) :
    ((releaseActiveInstance factories k).get? j).getD 0 =
      if j = k then (factories.get? k).getD 0 - 1 else (factories.get? j).getD 0 := by
  unfold releaseActiveInstance
  split
  case h_1 n hn =>
    rw [Map.get?_insert, hn]
    split <;> rfl
  case h_2 hother =>
    split
    case isTrue hj =>
      subst hj
      cases hget : factories.get? j with
      | none => rfl
      | some n =>
        cases n with
        | zero => rfl
        | succ n => exact absurd hget (hother n)
    case isFalse => rfl

/-- Every counter is exactly the number of what it stands for. -/
def Balanced (s : State ρ μ) : Prop := ∀ k, claims s k = active s k

/-- What stands on the operation is part of the claims. -/
theorem counted_le (hc : s.clients[i]? = some c) (k : String) :
    (counted c).count k ≤ claims s k := by
  have hle : (counted c).count k ≤ tally counted s.clients k :=
    tally_mem_le (List.mem_of_getElem? hc)
  unfold claims
  omega

theorem own_count (x : Instance) (k : String) :
    (own x).count k = if x.created = true ∧ k = x.id then 1 else 0 := by
  unfold own
  split
  case isTrue h =>
    by_cases hk : k = x.id
    · simp [h, hk]
    · simp [h, hk, Ne.symm hk]
  case isFalse h => simp [h]

/-- The claims after a section, by what the operation and the callers hold. -/
theorem claims_turn {u : State ρ μ} (hc : s.clients[i]? = some c) (hclients : u.clients = s.clients)
    (c' : Client μ) (k : String) :
    claims { u with clients := u.clients.set i c' } k + (counted c).count k +
      tally own s.instances k =
    claims s k + (counted c').count k + tally own u.instances k := by
  have hset := tally_set counted hc c' k
  unfold claims
  simp only [hclients]
  omega

theorem turn_balanced {lowered : Option Instance} {u : State ρ μ} (hb : Balanced s)
    (hc : s.clients[i]? = some c) (hm : Section lowered s c u c')
    (hok : ∀ x, lowered = some x → x.created = true ∨ active s x.id = 0) :
    Balanced { u with clients := u.clients.set i c' } := by
  intro j
  have hj := hb j
  have hle := counted_le hc j
  cases hm with
  | still registry _ hclaims _ =>
    have hturn := claims_turn hc (u := { s with registry }) rfl c' j
    rw [hclaims] at hturn
    simp only [active] at hj hturn ⊢
    omega
  | opens registry status k fresh idle =>
    have hturn := claims_turn hc (u := { s with registry, factories := s.factories.insert k 0 }) rfl
      (.returned status) j
    rw [idle.1, show counted (.returned status : Client μ) = [] from rfl] at hturn
    simp only [List.count_nil, active, Map.get?_insert] at hj hturn ⊢
    split
    case isTrue he =>
      subst he
      rw [Map.get?_eq_none.mpr fresh] at hj
      simp only [Option.getD_none, Option.getD_some] at hj ⊢
      omega
    case isFalse => omega
  | closes registry status k zero idle =>
    have hturn := claims_turn hc (u := { s with registry, factories := s.factories.erase k }) rfl
      (.returned status) j
    rw [idle.1, show counted (.returned status : Client μ) = [] from rfl] at hturn
    simp only [List.count_nil, active, Map.get?_erase] at hj hturn ⊢
    split
    case isTrue he =>
      subst he
      rw [zero] at hj
      simp only [Option.getD_none, Option.getD_some] at hj ⊢
      omega
    case isFalse => omega
  | raises k n entry idle =>
    have hturn := claims_turn hc (u := { s with factories := s.factories.insert k (n + 1) }) rfl
      (.creating k) j
    rw [idle.1, show counted (.creating k : Client μ) = [k] from rfl] at hturn
    simp only [List.count_nil, active, Map.get?_insert] at hj hturn ⊢
    split
    case isTrue he =>
      subst he
      rw [entry] at hj
      simp only [Option.getD_some, List.count_singleton_self] at hj hturn ⊢
      omega
    case isFalse he =>
      rw [List.count_eq_zero.mpr (by simpa using he)] at hturn
      omega
  | releases k _ before after =>
    have hturn := claims_turn hc
      (u := { s with factories := releaseActiveInstance s.factories k }) rfl c' j
    rw [before.1, after.1] at hturn
    rw [before.1] at hle
    simp only [active, get_release] at hj ⊢
    split
    case isTrue he =>
      subst he
      simp only [List.count_nil, List.count_singleton_self] at hturn hle
      omega
    case isFalse he =>
      rw [List.count_eq_zero.mpr (by simpa using he)] at hturn
      simp only [List.count_nil] at hturn
      omega
  | hands registry x status before =>
    have hturn := claims_turn hc (u := { s with registry }.giveBack x) rfl (.returned status) j
    rw [before.1, show counted (.returned status : Client μ) = [] from rfl] at hturn
    simp only [active, State.giveBack, tally_append, tally_singleton, List.count_nil] at hj hturn ⊢
    omega
  | lowers x _ which before after =>
    have hturn := claims_turn hc
      (u := { s with factories := releaseActiveInstance s.factories x.id }) rfl c' j
    rw [before.1, after.1, own_count] at hturn
    rw [before.1, own_count] at hle
    simp only [active, get_release, List.count_nil] at hj hturn ⊢
    split
    case isTrue he =>
      subst he
      -- the counter of an own instance is at least one, that of another one is zero
      rcases hok x which with hcreated | hzero
      · simp only [hcreated, and_self, if_true] at hturn hle
        omega
      · simp only [active] at hzero
        omega
    case isFalse he =>
      simp only [he, and_false, if_false] at hturn
      omega
  | ends status before =>
    have hturn := claims_turn hc (u := s) rfl (.returned status) j
    rw [before, show counted (.returned status : Client μ) = [] from rfl] at hturn
    simp only [active] at hj ⊢
    omega

theorem enter_balanced (hb : Balanced s) (hc : counted c = []) : Balanced (s.enter c) := by
  intro j
  have hj := hb j
  simp only [claims, State.enter, tally_append, tally_singleton, hc, List.count_nil] at hj ⊢
  exact hj

theorem enter_leaving (hc : givenUp c = []) (j : String) : leaving (s.enter c) j = leaving s j := by
  simp [leaving, State.enter, hc]

end Books

section Steps
variable {clientStep : State ρ μ → Client μ → Input μ → Option (State ρ μ × Client μ)}
  {lowers : Client μ → Input μ → Option Instance} {hasRegistry : Bool} {a : Action μ}

/-- A step is the section of an operation, or it begins one or brings a foreign instance. -/
theorem step_cases (h : step clientStep s a = some t) :
    (∃ i input c u c', a = .client i input ∧ s.clients[i]? = some c ∧
      clientStep s c input = some (u, c') ∧ t = { u with clients := u.clients.set i c' }) ∨
    ((∀ i input, a ≠ .client i input) ∧ (Balanced s → Balanced t) ∧
      (∀ j, leaving t j = leaving s j) ∧ ∀ c ∈ t.clients, c ∈ s.clients ∨ gaveUp c = false) := by
  have hplain : ∀ c : Client μ, counted c = [] → givenUp c = [] → gaveUp c = false →
      t = s.enter c → (Balanced s → Balanced t) ∧ (∀ j, leaving t j = leaving s j) ∧
        ∀ c ∈ t.clients, c ∈ s.clients ∨ gaveUp c = false := by
    rintro c hc hg hup rfl
    refine ⟨fun hb => enter_balanced hb hc, enter_leaving hg, fun d hd => ?_⟩
    rcases List.mem_append.mp hd with hd | hd
    · exact .inl hd
    · exact .inr (List.mem_singleton.mp hd ▸ hup)
  cases a with
  | client i input =>
    simp only [step] at h
    split at h
    case h_1 => cases h
    case h_2 c hc =>
      obtain ⟨⟨u, c'⟩, hu, rfl⟩ := Option.map_eq_some_iff.mp h
      exact .inl ⟨i, input, c, u, c', rfl, hc, hu, rfl⟩
  | foreign id =>
    cases h
    refine .inr ⟨by simp, fun hb j => ?_, fun _ => rfl, fun c hc => .inl hc⟩
    have hj := hb j
    simp only [claims, State.giveBack, tally_append, tally_singleton, own, Bool.false_eq_true,
      if_false, List.count_nil] at hj ⊢
    exact hj
  | call e =>
    refine .inr ⟨by simp, ?_⟩
    cases e with
    | register metadata hasCreator => exact hplain _ rfl rfl rfl (Option.some.inj h).symm
    | unregister id => exact hplain _ rfl rfl rfl (Option.some.inj h).symm
    | create id => exact hplain _ rfl rfl rfl (Option.some.inj h).symm
    | destroyNull => exact hplain _ rfl rfl rfl (Option.some.inj h).symm
    | destroy q =>
      simp only [step] at h
      split at h
      case h_1 => cases h
      case h_2 x hx =>
        cases h
        refine ⟨fun hb j => ?_, enter_leaving rfl, fun c hc => ?_⟩
        · -- the instance moves from its caller into the operation
          have hj := hb j
          have hmoved := tally_eraseIdx own hx j
          have hcount : counted (.destroy (some x) : Client μ) = own x := by
            simp [counted, creating, gaveUp, destroying, target]
          simp only [claims, State.enter, tally_append, tally_singleton, hcount, active] at hj ⊢
          omega
        · rcases List.mem_append.mp hc with hc | hc
          · exact .inl hc
          · exact .inr (List.mem_singleton.mp hc ▸ rfl)

/-- The instances that a literal reading of the counters leaves out. -/
def slack (strict : Bool) (s : State ρ μ) (k : String) : Nat := if strict then 0 else leaving s k

/-- What the condition keeps along a run. -/
structure Booked (strict : Bool) (s : State ρ μ) : Prop where
  balanced : Balanced s
  answers : Answers s
  none_leaving : strict = true → ∀ k, leaving s k = 0

theorem Booked.accounted (h : Booked strict s) : Accounted (slack strict) s := by
  intro k n hn
  have hclaims := claims_leaving s k
  have hactive : claims s k = n := by rw [h.balanced k, active, hn, Option.getD_some]
  unfold slack
  split
  case isTrue hstrict =>
    have hnone := h.none_leaving hstrict k
    omega
  case isFalse => omega

/-- An own instance has its counter, so a counter of zero lets nothing of it be lowered. -/
theorem own_nil (hb : Balanced s) (hc : s.clients[i]? = some c) (hcount : counted c = own x)
    (hzero : active s x.id = 0) : own x = [] := by
  have hle := counted_le hc x.id
  rw [hcount, own_count, hb x.id, hzero] at hle
  unfold own
  split
  case isTrue hcreated => simp [hcreated] at hle
  case isFalse => rfl

theorem turn_leaving {u : State ρ μ} (hc : s.clients[i]? = some c) (hclients : u.clients = s.clients)
    (hgiven : givenUp c' = [] ∨ givenUp c' = givenUp c) {k : String} (hk : leaving s k = 0) :
    leaving { u with clients := u.clients.set i c' } k = 0 := by
  have hset := tally_set givenUp hc c' k
  unfold leaving at hk ⊢
  simp only [hclients]
  rcases hgiven with hgiven | hgiven
  · rw [hgiven, List.count_nil] at hset
    omega
  · rw [hgiven] at hset
    omega

theorem Section.clients {lowered : Option Instance} {u : State ρ μ}
    (h : Section lowered s c u c') : u.clients = s.clients := by
  cases h <;> rfl

variable (hkeeps : Keeps clientStep lowers hasRegistry)
include hkeeps

theorem step_booked (h : Booked strict s) (hstep : step clientStep s a = some t)
    (hok : permitted lowers hasRegistry strict s a) : Booked strict t ∧ Clean s a t := by
  rcases step_cases hstep with ⟨i, input, c, u, c', rfl, hc, hu, rfl⟩ | ⟨hne, hb, hl, hnew⟩
  · obtain ⟨hlowers, hcloses, hclosing⟩ := hok c hc
    have hturn := hkeeps.turn hu
    refine ⟨⟨?_, ?_, ?_⟩, ?_⟩
    · apply turn_balanced h.balanced hc hturn
      intro x hx
      rcases hlowers x hx with ⟨-, hcreated⟩ | hzero
      · exact .inl hcreated
      · exact .inr hzero
    · intro d hd x status hdx
      simp only [hturn.clients] at hd
      rcases mem_of_mem_set hd with rfl | hd
      · subst hdx
        rcases hkeeps.resetting hu with hanswers | rfl
        · exact hanswers
        · obtain ⟨status', hd, hanswers⟩ := hkeeps.closing hu
          cases hd
          exact hanswers.mpr (hclosing _ rfl)
      · exact h.answers d hd x status hdx
    · intro hstrict k
      have hzero := h.none_leaving hstrict k
      have hmoved : (givenUp c' = [] ∨ givenUp c' = givenUp c) → leaving s k = 0 →
          leaving { u with clients := u.clients.set i c' } k = 0 :=
        fun hgiven hnone => turn_leaving hc hturn.clients hgiven hnone
      cases hturn with
      | still registry _ _ hleaving => exact hmoved (.inr hleaving) hzero
      | opens => exact hmoved (.inl rfl) hzero
      | closes => exact hmoved (.inl rfl) hzero
      | raises => exact hmoved (.inl rfl) hzero
      | releases k _ _ after => exact hmoved (.inl after.2) hzero
      | hands => exact hmoved (.inl rfl) hzero
      | lowers x _ which before after =>
        -- nothing was counted, so nothing has been given up
        have hempty : active s x.id = 0 := by
          rcases hlowers x which with ⟨hnot, -⟩ | hempty
          · rw [hstrict] at hnot
            cases hnot
          · exact hempty
        have hnone := own_nil h.balanced hc before.1 hempty
        exact hmoved (.inl (after.2.trans hnone)) hzero
      | ends => exact hmoved (.inl rfl) hzero
    · intro j input' d status hj hd ht
      cases hj
      obtain rfl : c = d := Option.some.inj (hc.symm.trans hd)
      have hlt := (List.getElem?_eq_some_iff.mp hc).1
      simp only [hturn.clients, List.getElem?_set_self hlt, Option.some.injEq] at ht
      subst ht
      refine ⟨?_, fun x hx hbad => ?_⟩
      · rintro id rfl hgood
        have hclosed := hkeeps.unregistered hu hgood
        have hleaving := hcloses id hclosed
        have hactive : active s id = 0 := by
          simp only [closes] at hclosed
          split at hclosed
          case isTrue hall => rw [active, hall.2.2.1, Option.getD_some]
          case isFalse => cases hclosed
        have hclaims := claims_leaving s id
        rw [h.balanced id, hactive, hleaving] at hclaims
        omega
      · rcases hkeeps.refused hu hx hbad with hkept | rfl
        · exact hkept
        · rw [h.answers _ (List.mem_of_getElem? hc) x status rfl] at hbad
          cases hbad
  · refine ⟨⟨hb h.balanced, ?_, fun hstrict k => (hl k).trans (h.none_leaving hstrict k)⟩, ?_⟩
    · intro c hc x status hcx
      rcases hnew c hc with hc | hc
      · exact h.answers c hc x status hcx
      · subst hcx
        cases hc
    · intro i input c status ha
      exact absurd ha (hne i input)

/-- A step that is not permitted breaks the books, an answer or a promise. -/
theorem permitted_of_clean (h : Booked strict s) (hstep : step clientStep s a = some t)
    (haccounted : Accounted (slack strict) t) (hanswers : Answers t) (hclean : Clean s a t) :
    permitted lowers hasRegistry strict s a := by
  rcases step_cases hstep with ⟨i, input, c, u, c', rfl, hc, hu, rfl⟩ | ⟨hne, -⟩
  · have hlt := (List.getElem?_eq_some_iff.mp hc).1
    have hclients := (hkeeps.turn hu).clients
    have hget : (u.clients.set i c')[i]? = some c' := by
      rw [hclients]
      exact List.getElem?_set_self hlt
    intro d hd
    obtain rfl : c = d := Option.some.inj (hc.symm.trans hd)
    refine ⟨fun x hx => ?_, fun id hid => ?_, ?_⟩
    · by_contra hnot
      rw [not_or] at hnot
      rcases hkeeps.lowered hu hx with hzero | ⟨rfl, hbefore, hafter⟩
      · exact hnot.2 hzero
      · -- the counter has gone down by one, and the instance still lives
        obtain ⟨n, hn⟩ : ∃ n, s.factories.get? x.id = some (n + 1) := by
          cases hf : s.factories.get? x.id with
          | none => exact absurd (by simp [active, hf]) hnot.2
          | some m =>
            cases m with
            | zero => exact absurd (by simp [active, hf]) hnot.2
            | succ n => exact ⟨n, rfl⟩
        have hacc := haccounted x.id n (by simp [releaseActiveInstance, hn])
        have hbalanced := h.balanced x.id
        have hsplit := claims_leaving { s with
          factories := releaseActiveInstance s.factories x.id
          clients := s.clients.set i c' } x.id
        have hclaims := claims_turn hc
          (u := { s with factories := releaseActiveInstance s.factories x.id }) rfl c' x.id
        have hleaving : leaving { s with
            factories := releaseActiveInstance s.factories x.id
            clients := s.clients.set i c' } x.id + (givenUp c).count x.id =
            leaving s x.id + (givenUp c').count x.id := tally_set givenUp hc c' x.id
        rw [hbefore.1, hafter.1, own_count] at hclaims
        rw [hbefore.2, hafter.2, own_count] at hleaving
        rw [active, hn, Option.getD_some] at hbalanced
        simp only [List.count_nil, and_true] at hclaims hleaving hacc hsplit
        cases hs : strict with
        | true =>
          have hnone := h.none_leaving hs x.id
          simp only [hs, slack, if_true] at hacc
          split at hclaims
          case isTrue hcreated =>
            simp only [hcreated, if_true] at hleaving
            omega
          case isFalse hcreated =>
            simp only [hcreated] at hleaving
            omega
        | false =>
          have hcreated : x.created = false := by simpa [hs] using hnot.1
          simp only [hs, hcreated, slack, Bool.false_eq_true, if_false] at hacc hclaims hleaving
          omega
    · have hreturned := hkeeps.closed hu hid
      obtain ⟨rfl, status, rfl, hgood⟩ := hreturned
      have hnone := (hclean i input _ status rfl hc hget).1 id rfl hgood
      have hsplit := claims_leaving s id
      omega
    · rintro x rfl
      obtain ⟨status, rfl, hiff⟩ := hkeeps.closing hu
      exact hiff.mp (hanswers _ (List.mem_of_getElem? hget) x status rfl)
  · cases a with
    | client i input => exact absurd rfl (hne i input)
    | call => trivial
    | foreign => trivial

omit hkeeps in
theorem booked_initial : Booked strict ({} : State ρ μ) := by
  refine ⟨fun k => rfl, ?_, fun _ k => rfl⟩
  intro c hc
  cases hc

theorem accounting_of_keeps {as : List (Action μ)} (h : run (step clientStep) {} as = some s) :
    (∀ bs cs t, as = bs ++ cs → run (step clientStep) {} bs = some t →
      Accounted (slack strict) t ∧ Answers t ∧ LastStep (step clientStep) {} Clean t bs) ↔
    ∀ bs a cs t, as = bs ++ a :: cs → run (step clientStep) {} bs = some t →
      permitted lowers hasRegistry strict t a := by
  apply run_parts_iff h
    (J := fun t bs => Booked strict t ∧ LastStep (step clientStep) {} Clean t bs)
  · exact ⟨booked_initial, last_step_nil⟩
  · exact fun bs t _ hj => ⟨hj.1.accounted, hj.1.answers, hj.2⟩
  · intro bs t a u ht hj hu hok
    obtain ⟨hbooked, hclean⟩ := step_booked hkeeps hj.1 hu hok
    exact ⟨hbooked, (last_step_snoc ht).mpr hclean⟩
  · intro bs t a u ht hj hu hp
    exact permitted_of_clean hkeeps hj.1 hu hp.1 hp.2.1 ((last_step_snoc ht).mp hp.2.2)

end Steps

section Plugin
open Plugins

/-- The instance for which `DestroyPlugin` lowers a counter. -/
def pluginLowers : Client PluginMetadata → Input PluginMetadata → Option Instance
  | .lowering x, _ => some x
  | _, _ => none

theorem register_section (hasRegistry : Bool) (s : Plugins.State) (metadata : PluginMetadata)
    (hasCreator : Bool) {lowered : Option Instance} {c : Client PluginMetadata}
    (hc : counted c = [] ∧ givenUp c = []) :
    Section lowered s c (RegisterPlugin hasRegistry s metadata hasCreator).1
      (.returned (RegisterPlugin hasRegistry s metadata hasCreator).2) := by
  unfold RegisterPlugin
  split
  case isTrue => exact .ends _ hc.1
  case isFalse =>
    split
    case isTrue => exact .ends _ hc.1
    case isFalse =>
      split
      case isTrue => exact .ends _ hc.1
      case isFalse =>
        split
        case isTrue => exact .ends _ hc.1
        case isFalse hfresh =>
          dsimp only
          split
          case isTrue => exact .ends _ hc.1
          case isFalse => exact .opens _ _ _ hfresh hc

theorem unregister_section (hasRegistry : Bool) (s : Plugins.State) (id : String)
    {lowered : Option Instance} {c : Client PluginMetadata} (hc : counted c = [] ∧ givenUp c = []) :
    Section lowered s c (UnregisterPlugin hasRegistry s id).1
      (.returned (UnregisterPlugin hasRegistry s id).2) := by
  unfold UnregisterPlugin
  split
  case isTrue => exact .ends _ hc.1
  case isFalse =>
    split
    case isTrue => exact .ends _ hc.1
    case isFalse =>
      split
      case h_1 => exact .ends _ hc.1
      case h_2 active hactive =>
        split
        case isTrue => exact .ends _ hc.1
        case isFalse hzero =>
          obtain rfl : active = 0 := by omega
          dsimp only
          split
          case isTrue => exact .ends _ hc.1
          case isFalse => exact .closes _ _ _ hactive hc

theorem create_section (hasRegistry : Bool) (s : Plugins.State) (id : String)
    {lowered : Option Instance} {c : Client PluginMetadata} (hc : counted c = [] ∧ givenUp c = []) :
    Section lowered s c (CreatePlugin hasRegistry s id).1 (CreatePlugin hasRegistry s id).2 := by
  unfold CreatePlugin
  split
  case isTrue => exact .ends _ hc.1
  case isFalse =>
    split
    case isTrue => exact .ends _ hc.1
    case isFalse =>
      split
      case h_1 => exact .ends _ hc.1
      case h_2 active hactive => exact .raises _ _ hactive hc

theorem counted_destroy (x : Instance) : counted (.destroy (some x) : Client μ) = own x := by
  simp [counted, creating, gaveUp, destroying, target]

theorem destroy_plugin (hasRegistry : Bool) (s : Plugins.State) (x : Instance) :
    DestroyPlugin hasRegistry s (some x) = (s, .shuttingDown x) ∨
      ∃ status, DestroyPlugin hasRegistry s (some x) = (s.giveBack x, .returned status) := by
  simp only [DestroyPlugin]
  split
  case isTrue => exact .inr ⟨_, rfl⟩
  case isFalse =>
    split
    case isTrue => exact .inr ⟨_, rfl⟩
    case isFalse =>
      split
      case h_1 => exact .inr ⟨_, rfl⟩
      case h_2 => exact .inr ⟨_, rfl⟩
      case h_3 => exact .inl rfl

theorem created_section (s : Plugins.State) (key : String) {input : Input PluginMetadata}
    {lowered : Option Instance} {c' : Client PluginMetadata} (h : pluginCreated key input = some c') :
    Section lowered s (.creating key) s c' := by
  cases input with
  | threw =>
    cases h
    exact .still _ _ rfl rfl
  | null =>
    cases h
    exact .still _ _ rfl rfl
  | made metadata =>
    cases h
    split
    case isTrue => exact .still _ _ rfl rfl
    case isFalse => exact .still _ _ rfl rfl
  | go => cases h
  | queryThrew => cases h
  | shutdown => cases h

theorem load_section (s : Plugins.State) (key : String) {lowered : Option Instance} :
    Section lowered s (.loading key) (loadPlugin s key).1 (loadPlugin s key).2 := by
  unfold loadPlugin
  dsimp only
  split
  case isTrue => exact .still _ _ rfl rfl
  case isFalse => exact .hands _ _ _ ⟨rfl, rfl⟩

theorem plugin_turn {hasRegistry : Bool} {s t : Plugins.State} {c c' : Client PluginMetadata}
    {input : Input PluginMetadata} (h : clientStep hasRegistry s c input = some (t, c')) :
    Section (pluginLowers c input) s c t c' := by
  cases c with
  | register metadata hasCreator =>
    cases h
    exact register_section hasRegistry s metadata hasCreator ⟨rfl, rfl⟩
  | unregister id =>
    cases h
    exact unregister_section hasRegistry s id ⟨rfl, rfl⟩
  | create id =>
    obtain ⟨rfl, rfl⟩ := Prod.ext_iff.mp (Option.some.inj h)
    exact create_section hasRegistry s id ⟨rfl, rfl⟩
  | creating key =>
    obtain ⟨d, hd, hpair⟩ := Option.map_eq_some_iff.mp h
    cases hpair
    exact created_section s key hd
  | releasing key status marks =>
    cases h
    apply Section.releases key _ ⟨rfl, rfl⟩
    cases marks <;> exact ⟨rfl, rfl⟩
  | failing key status =>
    cases h
    exact .still _ _ rfl rfl
  | loading key =>
    obtain ⟨rfl, rfl⟩ := Prod.ext_iff.mp (Option.some.inj h)
    exact load_section s key
  | destroy x =>
    have hpair := Option.some.inj h
    cases x with
    | none =>
      cases hpair
      exact .ends _ rfl
    | some x =>
      rcases destroy_plugin hasRegistry s x with hnext | ⟨status, hnext⟩
      · cases hnext.symm.trans hpair
        exact .still _ _ rfl rfl
      · cases hnext.symm.trans hpair
        exact .hands _ _ _ ⟨counted_destroy x, rfl⟩
  | shuttingDown x =>
    cases input with
    | shutdown status =>
      cases h
      split
      case isTrue => exact .still _ _ rfl rfl
      case isFalse => exact .still _ _ rfl rfl
    | _ => cases h
  | refusing x status =>
    cases h
    exact .hands _ x _ ⟨rfl, rfl⟩
  | lowering x =>
    cases h
    exact .lowers x _ rfl ⟨rfl, rfl⟩ ⟨rfl, rfl⟩
  | closing x =>
    cases h
    exact .still _ _ rfl rfl
  | resetting x status =>
    cases h
    exact .ends _ rfl
  | returned status => cases h

theorem unregister_success {hasRegistry : Bool} {s : Plugins.State} {id : String} :
    (UnregisterPlugin hasRegistry s id).2.isOk = true ↔
      closes hasRegistry s (.unregister id : Client PluginMetadata) = some id := by
  simp only [UnregisterPlugin, closes]
  cases hasRegistry with
  | false => simp [FailedPrecondition, Status.isOk]
  | true =>
    by_cases hid : id = ""
    · simp [hid, InvalidArgument, Status.isOk]
    · cases hget : s.factories.get? id with
      | none => simp [hid, FailedPrecondition, Status.isOk]
      | some active =>
        cases active with
        | succ n => simp [hid, FailedPrecondition, Status.isOk]
        | zero =>
          by_cases hmem : id ∈ s.registry
          · simp [hid, registryUnregister, hmem, Status.isOk]
          · simp [hid, registryUnregister, hmem, FailedPrecondition, Status.isOk]

theorem plugin_keeps (hasRegistry : Bool) :
    Keeps (clientStep hasRegistry) pluginLowers hasRegistry where
  turn := plugin_turn
  lowered := by
    intro s t c c' input x h hx
    cases c with
    | lowering y =>
      cases hx
      cases h
      exact .inr ⟨rfl, ⟨rfl, rfl⟩, rfl, rfl⟩
    | _ => cases hx
  unregistered := by
    intro s t id input status h hgood
    cases h
    exact unregister_success.mp hgood
  closed := by
    intro s t c c' input id h hid
    cases c with
    | unregister id' =>
      obtain ⟨rfl, rfl⟩ := Prod.ext_iff.mp (Option.some.inj h)
      obtain rfl : id' = id := by
        simp only [closes] at hid
        split at hid
        case isTrue => exact Option.some.inj hid
        case isFalse => cases hid
      exact ⟨rfl, _, rfl, unregister_success.mpr hid⟩
    | _ => cases hid
  refused := by
    intro s t c input x status h hx hbad
    cases c with
    | destroy y =>
      cases hx
      rcases destroy_plugin hasRegistry s x with hnext | ⟨status', hnext⟩
      · cases hnext.symm.trans (Option.some.inj h)
      · cases hnext.symm.trans (Option.some.inj h)
        exact .inl ⟨by simp [State.giveBack], rfl, rfl⟩
    | shuttingDown y =>
      cases input with
      | shutdown status' =>
        obtain ⟨-, hreturned⟩ := Prod.ext_iff.mp (Option.some.inj h)
        dsimp only at hreturned
        split at hreturned
        case isTrue => cases hreturned
        case isFalse => cases hreturned
      | _ => cases h
    | refusing y status' =>
      cases hx
      cases h
      exact .inl ⟨by simp [State.giveBack], rfl, rfl⟩
    | resetting y status' =>
      cases hx
      cases h
      exact .inr rfl
    | lowering y => cases h
    | closing y => cases h
    | _ => cases hx
  resetting := by
    intro s t c input x status h
    cases c with
    | closing y =>
      cases h
      exact .inr rfl
    | create id => grind [clientStep, CreatePlugin]
    | creating key => cases input <;> grind [clientStep, pluginCreated]
    | loading key => grind [clientStep, loadPlugin]
    | destroy y =>
      have hpair := Option.some.inj h
      cases y with
      | none => cases hpair
      | some y =>
        rcases destroy_plugin hasRegistry s y with hnext | ⟨status', hnext⟩
        · cases hnext.symm.trans hpair
        · cases hnext.symm.trans hpair
    | shuttingDown y => cases input <;> grind [clientStep]
    | releasing key status marks => grind [clientStep]
    | _ => cases h
  closing := by
    intro s t c' input x h
    cases h
    refine ⟨_, rfl, ?_⟩
    simp only [SetLifecycleState]
    split
    case isTrue hid => simp [hid, InvalidArgument, Status.isOk]
    case isFalse hid =>
      split
      case isTrue hmem => simp [hid, hmem, Status.isOk]
      case isFalse hmem => simp [hid, hmem, FailedPrecondition, Status.isOk]

end Plugin

section Planner
open Planner

/-- The instance for which `DestroyPlanner` lowers a counter. -/
def plannerLowers : Client PlannerCapabilities → Input PlannerCapabilities → Option Instance
  | .destroy (some x), input => if isQueryThrew input ∨ x.id = "" then none else some x
  | _, _ => none

theorem planner_register_section (hasRegistry : Bool) (s : FactoryState)
    (capabilities : PlannerCapabilities) (hasCreator : Bool) {lowered : Option Instance}
    {c : Client PlannerCapabilities} (hc : counted c = [] ∧ givenUp c = []) :
    Section lowered s c (RegisterPlanner hasRegistry s capabilities hasCreator).1
      (.returned (RegisterPlanner hasRegistry s capabilities hasCreator).2) := by
  unfold RegisterPlanner
  split
  case isTrue => exact .ends _ hc.1
  case isFalse =>
    split
    case isTrue => exact .ends _ hc.1
    case isFalse =>
      split
      case isTrue => exact .ends _ hc.1
      case isFalse =>
        split
        case isTrue => exact .ends _ hc.1
        case isFalse hfresh =>
          dsimp only
          split
          case isTrue => exact .ends _ hc.1
          case isFalse => exact .opens _ _ _ hfresh hc

theorem planner_unregister_section (hasRegistry : Bool) (s : FactoryState) (id : String)
    {lowered : Option Instance} {c : Client PlannerCapabilities}
    (hc : counted c = [] ∧ givenUp c = []) :
    Section lowered s c (UnregisterPlanner hasRegistry s id).1
      (.returned (UnregisterPlanner hasRegistry s id).2) := by
  unfold UnregisterPlanner
  split
  case isTrue => exact .ends _ hc.1
  case isFalse =>
    split
    case isTrue => exact .ends _ hc.1
    case isFalse =>
      split
      case h_1 => exact .ends _ hc.1
      case h_2 active hactive =>
        split
        case isTrue => exact .ends _ hc.1
        case isFalse hzero =>
          obtain rfl : active = 0 := by omega
          dsimp only
          split
          case isTrue => exact .ends _ hc.1
          case isFalse => exact .closes _ _ _ hactive hc

theorem planner_create_section (hasRegistry : Bool) (s : FactoryState) (id : String)
    {lowered : Option Instance} {c : Client PlannerCapabilities}
    (hc : counted c = [] ∧ givenUp c = []) :
    Section lowered s c (CreatePlanner hasRegistry s id).1 (CreatePlanner hasRegistry s id).2 := by
  unfold CreatePlanner
  split
  case isTrue => exact .ends _ hc.1
  case isFalse =>
    split
    case isTrue => exact .ends _ hc.1
    case isFalse =>
      split
      case h_1 => exact .ends _ hc.1
      case h_2 active hactive => exact .raises _ _ hactive hc

/-- `DestroyPlanner` gives the instance back or lowers its counter. -/
theorem destroy_planner (s : FactoryState) (x : Instance) (input : Input PlannerCapabilities) :
    (∃ n, plannerLowers (.destroy (some x)) input = some x ∧ s.factories.get? x.id = some (n + 1) ∧
      DestroyPlanner s (some x) (isQueryThrew input) =
        ({ s with factories := releaseActiveInstance s.factories x.id }, .resetting x {})) ∨
    (∃ status, DestroyPlanner s (some x) (isQueryThrew input) = (s.giveBack x, .returned status)) ∧
      ∀ y, plannerLowers (.destroy (some x)) input = some y → active s y.id = 0 := by
  by_cases hq : isQueryThrew input = true
  · exact .inr ⟨⟨_, if_pos hq⟩, by simp [plannerLowers, hq]⟩
  · by_cases hid : x.id = ""
    · exact .inr ⟨⟨_, (if_neg hq).trans (if_pos hid)⟩, by simp [plannerLowers, hid]⟩
    · have hx : plannerLowers (.destroy (some x)) input = some x := by simp [plannerLowers, hq, hid]
      have hzero : (s.factories.get? x.id).getD 0 = 0 →
          ∀ y, plannerLowers (.destroy (some x)) input = some y → active s y.id = 0 := by
        intro hzero y hy
        obtain rfl : x = y := Option.some.inj (hx.symm.trans hy)
        exact hzero
      cases hget : s.factories.get? x.id with
      | none =>
        refine .inr ⟨⟨FailedPrecondition "planner instance is not tracked by this factory", ?_⟩,
          hzero (by rw [hget, Option.getD_none])⟩
        simp [DestroyPlanner, hq, hid, hget]
      | some m =>
        cases m with
        | zero =>
          refine .inr ⟨⟨FailedPrecondition "planner instance is not tracked by this factory", ?_⟩,
            hzero (by rw [hget, Option.getD_some])⟩
          simp [DestroyPlanner, hq, hid, hget]
        | succ n =>
          refine .inl ⟨n, hx, rfl, ?_⟩
          simp [DestroyPlanner, hq, hid, hget, releaseActiveInstance]

theorem planner_created {s t : FactoryState} {key : String} {input : Input PlannerCapabilities}
    {c' : Client PlannerCapabilities} (h : plannerCreated s key input = some (t, c')) :
    (t = s ∧ ∃ status, c' = .releasing key status false) ∨
      t = s.giveBack ⟨key, true⟩ ∧ c' = .returned {} := by
  cases input with
  | threw =>
    cases h
    exact .inl ⟨rfl, _, rfl⟩
  | null =>
    cases h
    exact .inl ⟨rfl, _, rfl⟩
  | queryThrew =>
    cases h
    exact .inl ⟨rfl, _, rfl⟩
  | made capabilities =>
    have hpair := Option.some.inj h
    split at hpair
    case isTrue =>
      cases hpair
      exact .inl ⟨rfl, _, rfl⟩
    case isFalse =>
      cases hpair
      exact .inr ⟨rfl, rfl⟩
  | go => cases h
  | shutdown => cases h

theorem planner_turn {hasRegistry : Bool} {s t : FactoryState} {c c' : Client PlannerCapabilities}
    {input : Input PlannerCapabilities} (h : factoryStep hasRegistry s c input = some (t, c')) :
    Section (plannerLowers c input) s c t c' := by
  cases c with
  | register capabilities hasCreator =>
    cases h
    exact planner_register_section hasRegistry s capabilities hasCreator ⟨rfl, rfl⟩
  | unregister id =>
    cases h
    exact planner_unregister_section hasRegistry s id ⟨rfl, rfl⟩
  | create id =>
    obtain ⟨rfl, rfl⟩ := Prod.ext_iff.mp (Option.some.inj h)
    exact planner_create_section hasRegistry s id ⟨rfl, rfl⟩
  | creating key =>
    rcases planner_created h with ⟨rfl, status, rfl⟩ | ⟨rfl, rfl⟩
    · exact .still _ _ rfl rfl
    · exact .hands _ ⟨key, true⟩ _ ⟨rfl, rfl⟩
  | releasing key status marks =>
    cases h
    exact .releases key _ ⟨rfl, rfl⟩ ⟨rfl, rfl⟩
  | destroy x =>
    have hpair := Option.some.inj h
    cases x with
    | none =>
      cases hpair
      exact .ends _ rfl
    | some x =>
      rcases destroy_planner s x input with ⟨n, hx, -, hnext⟩ | ⟨⟨status, hnext⟩, -⟩
      · cases hnext.symm.trans hpair
        exact .lowers x _ hx ⟨counted_destroy x, rfl⟩ ⟨rfl, rfl⟩
      · cases hnext.symm.trans hpair
        exact .hands _ _ _ ⟨counted_destroy x, rfl⟩
  | resetting x status =>
    cases h
    exact .ends _ rfl
  | _ => cases h

theorem planner_unregister_success {hasRegistry : Bool} {s : FactoryState} {id : String} :
    (UnregisterPlanner hasRegistry s id).2.isOk = true ↔
      closes hasRegistry s (.unregister id : Client PlannerCapabilities) = some id := by
  simp only [UnregisterPlanner, closes]
  cases hasRegistry with
  | false => simp [FailedPrecondition, Status.isOk]
  | true =>
    by_cases hid : id = ""
    · simp [hid, InvalidArgument, Status.isOk]
    · cases hget : s.factories.get? id with
      | none => simp [hid, FailedPrecondition, Status.isOk]
      | some active =>
        cases active with
        | succ n => simp [hid, FailedPrecondition, Status.isOk]
        | zero =>
          by_cases hmem : id ∈ s.registry
          · simp [hid, registryUnregister, hmem, Status.isOk]
          · simp [hid, registryUnregister, hmem, FailedPrecondition, Status.isOk]

theorem planner_keeps (hasRegistry : Bool) :
    Keeps (factoryStep hasRegistry) plannerLowers hasRegistry where
  turn := planner_turn
  lowered := by
    intro s t c c' input x h hx
    cases c with
    | destroy y =>
      cases y with
      | none => cases hx
      | some y =>
        rcases destroy_planner s y input with ⟨n, hy, -, hnext⟩ | ⟨-, hzero⟩
        · obtain rfl : y = x := Option.some.inj (hy.symm.trans hx)
          cases hnext.symm.trans (Option.some.inj h)
          exact .inr ⟨rfl, ⟨counted_destroy y, rfl⟩, rfl, rfl⟩
        · exact .inl (hzero x hx)
    | _ => cases hx
  unregistered := by
    intro s t id input status h hgood
    cases h
    exact planner_unregister_success.mp hgood
  closed := by
    intro s t c c' input id h hid
    cases c with
    | unregister id' =>
      obtain ⟨rfl, rfl⟩ := Prod.ext_iff.mp (Option.some.inj h)
      obtain rfl : id' = id := by
        simp only [closes] at hid
        split at hid
        case isTrue => exact Option.some.inj hid
        case isFalse => cases hid
      exact ⟨rfl, _, rfl, planner_unregister_success.mpr hid⟩
    | _ => cases hid
  refused := by
    intro s t c input x status h hx hbad
    cases c with
    | destroy y =>
      cases hx
      rcases destroy_planner s x input with ⟨n, -, -, hnext⟩ | ⟨⟨status', hnext⟩, -⟩
      · cases hnext.symm.trans (Option.some.inj h)
      · cases hnext.symm.trans (Option.some.inj h)
        exact .inl ⟨by simp [State.giveBack], rfl, rfl⟩
    | resetting y status' =>
      cases hx
      cases h
      exact .inr rfl
    | shuttingDown => cases h
    | refusing => cases h
    | lowering => cases h
    | closing => cases h
    | _ => cases hx
  resetting := by
    intro s t c input x status h
    cases c with
    | create id => grind [factoryStep, CreatePlanner]
    | creating key =>
      rcases planner_created h with ⟨-, _, hnext⟩ | ⟨-, hnext⟩
      · cases hnext
      · cases hnext
    | destroy y =>
      have hpair := Option.some.inj h
      cases y with
      | none => cases hpair
      | some y =>
        rcases destroy_planner s y input with ⟨n, -, -, hnext⟩ | ⟨⟨status', hnext⟩, -⟩
        · cases hnext.symm.trans hpair
          exact .inl rfl
        · cases hnext.symm.trans hpair
    | _ => cases h
  closing := by
    intro s t c' input x h
    cases h

end Planner

/-- For either factory: in exactly the runs whose steps are all permitted the counters agree
with what lives and is being made (up to what is leaving, unless `strict`), `Unregister`
succeeds only when there is no such instance, and an error of `Destroy` leaves the instance and
its counter alone. -/
theorem accounting_iff (hasRegistry strict : Bool) :
    (∀ (as : List (Action Plugins.PluginMetadata)) (s : Plugins.State),
      run (step (Plugins.clientStep hasRegistry)) {} as = some s →
      ((∀ bs cs t, as = bs ++ cs → run (step (Plugins.clientStep hasRegistry)) {} bs = some t →
          Accounted (slack strict) t ∧ Answers t ∧
            LastStep (step (Plugins.clientStep hasRegistry)) {} Clean t bs) ↔
        ∀ bs a cs t, as = bs ++ a :: cs →
          run (step (Plugins.clientStep hasRegistry)) {} bs = some t →
            permitted pluginLowers hasRegistry strict t a)) ∧
    ∀ (as : List (Action Planner.PlannerCapabilities)) (s : Planner.FactoryState),
      run (step (Planner.factoryStep hasRegistry)) {} as = some s →
      ((∀ bs cs t, as = bs ++ cs → run (step (Planner.factoryStep hasRegistry)) {} bs = some t →
          Accounted (slack strict) t ∧ Answers t ∧
            LastStep (step (Planner.factoryStep hasRegistry)) {} Clean t bs) ↔
        ∀ bs a cs t, as = bs ++ a :: cs →
          run (step (Planner.factoryStep hasRegistry)) {} bs = some t →
            permitted plannerLowers hasRegistry strict t a) := by
  constructor
  · intro as s h
    exact accounting_of_keeps (plugin_keeps hasRegistry) h
  · intro as s h
    exact accounting_of_keeps (planner_keeps hasRegistry) h

section Runs

def sample : Plugins.PluginMetadata := ⟨"p", "arm", "acme", {}⟩

/-- An instance of the plugin is handed out. -/
def handedOut : List (Action Plugins.PluginMetadata) :=
  [.call (.register sample true), .client 0 .go, .call (.create "p"), .client 1 .go,
    .client 1 (.made sample), .client 1 .go]

/-- `DestroyPlugin` lowers the counter for an instance that was made elsewhere. -/
def foreignDestroyed : List (Action Plugins.PluginMetadata) :=
  handedOut ++ [Action.foreign "p", .call (.destroy 1), .client 2 .go, .client 2 (.shutdown {}),
    .client 2 .go]

/-- It has lowered the counter for its own one, and `UnregisterPlugin` is called. -/
def ownLowered : List (Action Plugins.PluginMetadata) :=
  handedOut ++ [Action.call (.destroy 0), .client 2 .go, .client 2 (.shutdown {}), .client 2 .go,
    .call (.unregister "p")]

def examplePlanner : Planner.PlannerCapabilities := ⟨"p", "planner", true, false⟩

def foreignPlanner : List (Action Planner.PlannerCapabilities) :=
  [.call (.register examplePlanner true), .client 0 .go, .call (.create "p"), .client 1 .go,
    .client 1 (.made examplePlanner), .foreign "p", .call (.destroy 1), .client 2 .go]

/-- The counter is zero, and one instance lives that nothing gives up. -/
def lost (s : State ρ μ) : Bool :=
  s.factories.get? "p" = some 0 && live s "p" = 1 && leaving s "p" = 0

theorem lost_unaccounted (h : lost s = true) : ¬ Accounted (slack false) s := by
  simp only [lost, Bool.and_eq_true, decide_eq_true_eq] at h
  intro haccounted
  have hp := haccounted "p" 0 h.1.1
  have hslack : slack false s "p" = leaving s "p" := rfl
  omega

/-- `UnregisterPlugin` succeeds while the instance lives, and then its `DestroyPlugin` fails. -/
def unregistersAlive (s : Plugins.State) : Bool :=
  s.clients[3]? = some (.unregister "p") && live s "p" = 1 &&
    (step (Plugins.clientStep true) s (.client 3 .go)).any fun (t : Plugins.State) =>
      t.clients[3]? = some (.returned {}) &&
        (step (Plugins.clientStep true) t (.client 2 .go)).any fun (u : Plugins.State) =>
          u.clients[2]? =
            some (.resetting ⟨"p", true⟩ (FailedPrecondition "plugin is not registered"))

/-- The three runs, evaluated. -/
theorem runs_evaluated :
    (run (step (Plugins.clientStep true)) {} foreignDestroyed).any lost = true ∧
      (run (step (Planner.factoryStep true)) {} foreignPlanner).any lost = true ∧
      (run (step (Plugins.clientStep true)) {} ownLowered).any unregistersAlive = true := by
  decide +kernel

theorem foreign_plugin_lost : ∃ s : Plugins.State,
    run (step (Plugins.clientStep true)) {} foreignDestroyed = some s ∧ lost s = true :=
  (Option.any_eq_true _ _).mp runs_evaluated.1

theorem foreign_planner_lost : ∃ s : Planner.FactoryState,
    run (step (Planner.factoryStep true)) {} foreignPlanner = some s ∧ lost s = true :=
  (Option.any_eq_true _ _).mp runs_evaluated.2.1

theorem unregistered_alive : ∃ s t u : Plugins.State,
    run (step (Plugins.clientStep true)) {} ownLowered = some s ∧
    s.clients[3]? = some (.unregister "p") ∧ live s "p" = 1 ∧
    step (Plugins.clientStep true) s (.client 3 .go) = some t ∧
    t.clients[3]? = some (.returned {}) ∧
    step (Plugins.clientStep true) t (.client 2 .go) = some u ∧
    u.clients[2]? = some (.resetting ⟨"p", true⟩ (FailedPrecondition "plugin is not registered")) := by
  obtain ⟨s, hs, h⟩ := (Option.any_eq_true _ _).mp runs_evaluated.2.2
  simp only [unregistersAlive, Bool.and_eq_true, decide_eq_true_eq] at h
  obtain ⟨t, ht, hreturned⟩ := (Option.any_eq_true _ _).mp h.2
  simp only [Bool.and_eq_true, decide_eq_true_eq] at hreturned
  obtain ⟨u, hu, hfailed⟩ := (Option.any_eq_true _ _).mp hreturned.2
  exact ⟨s, t, u, hs, h.1.1, h.1.2, ht, hreturned.1, hu, by simpa using hfailed⟩

/-- Each of the three can be broken. -/
theorem accounting_false :
    (¬ ∀ (as : List (Action Plugins.PluginMetadata)) (s : Plugins.State),
      run (step (Plugins.clientStep true)) {} as = some s → Accounted (slack false) s) ∧
    (¬ ∀ (as : List (Action Planner.PlannerCapabilities)) (s : Planner.FactoryState),
      run (step (Planner.factoryStep true)) {} as = some s → Accounted (slack false) s) ∧
    (¬ ∀ (as : List (Action Plugins.PluginMetadata)) (s : Plugins.State),
      run (step (Plugins.clientStep true)) {} as = some s →
        LastStep (step (Plugins.clientStep true)) {} Clean s as) ∧
    ¬ ∀ (as : List (Action Plugins.PluginMetadata)) (s : Plugins.State),
      run (step (Plugins.clientStep true)) {} as = some s → Answers s := by
  obtain ⟨s, t, u, hs, hcall, hlive, ht, hreturned, hu, hfailed⟩ := unregistered_alive
  have hrun : run (step (Plugins.clientStep true)) {} (ownLowered ++ [.client 3 .go]) = some t := by
    simp [run_append, hs, run, ht]
  refine ⟨fun hall => ?_, fun hall => ?_, fun hall => ?_, fun hall => ?_⟩
  · obtain ⟨v, hv, hlost⟩ := foreign_plugin_lost
    exact lost_unaccounted hlost (hall _ v hv)
  · obtain ⟨v, hv, hlost⟩ := foreign_planner_lost
    exact lost_unaccounted hlost (hall _ v hv)
  · have hclean := (last_step_snoc hs).mp (hall _ t hrun)
    have hnone := ((hclean 3 .go _ {} rfl hcall hreturned).1 "p" rfl rfl).1
    omega
  · have hrun' : run (step (Plugins.clientStep true)) {}
        ((ownLowered ++ [.client 3 .go]) ++ [.client 2 .go]) = some u := by
      rw [run_append, hrun, Option.bind_some]
      simp [run, hu]
    have hanswers := hall _ u hrun' _ (List.mem_of_getElem? hfailed) _ _ rfl
    cases hanswers

section Decide
variable {lowers : Client μ → Input μ → Option Instance} {hasRegistry : Bool}

/-- The registry has the record that `Destroy` is going to close. -/
def recorded (s : State ρ μ) : Client μ → Bool
  | .closing x => x.id ≠ "" && x.id ∈ s.registry
  | _ => true

theorem recorded_iff :
    recorded s c = true ↔ ∀ x, c = .closing x → x.id ≠ "" ∧ x.id ∈ s.registry := by
  cases c with
  | closing x => simp [recorded]
  | _ => simp [recorded]

instance : Decidable (allowed lowers hasRegistry strict s c input) :=
  decidable_of_iff
    ((∀ x ∈ lowers c input, (strict = false ∧ x.created = true) ∨ active s x.id = 0) ∧
      (∀ id ∈ closes hasRegistry s c, leaving s id = 0) ∧ recorded s c = true)
    (by rw [recorded_iff]; rfl)

instance {a : Action μ} : Decidable (permitted lowers hasRegistry strict s a) :=
  match a with
  | .client i input =>
    inferInstanceAs (Decidable (∀ c ∈ s.clients[i]?, allowed lowers hasRegistry strict s c input))
  | .call _ => isTrue trivial
  | .foreign _ => isTrue trivial

end Decide

/-- The plugin is destroyed, an instance from elsewhere is refused, and `UnregisterPlugin`
succeeds. -/
def orderly : List (Action Plugins.PluginMetadata) :=
  handedOut ++ [Action.call (.destroy 0), .client 2 .go, .client 2 (.shutdown {}), .client 2 .go,
    .client 2 .go, .client 2 .go, .foreign "p", .call (.destroy 0), .client 3 .go,
    .call (.unregister "p"), .client 4 .go]

def orderlyPlanner : List (Action Planner.PlannerCapabilities) :=
  [.call (.register examplePlanner true), .client 0 .go, .call (.create "p"), .client 1 .go,
    .client 1 (.made examplePlanner), .call (.destroy 0), .client 2 .go, .client 2 .go,
    .call (.unregister "p"), .client 3 .go]

theorem accounting_iff_orderly :
    (∃ s : Plugins.State, run (step (Plugins.clientStep true)) {} orderly = some s ∧
      Accounted (slack false) s ∧ Answers s ∧
        LastStep (step (Plugins.clientStep true)) {} Clean s orderly) ∧
    ∃ s : Planner.FactoryState, run (step (Planner.factoryStep true)) {} orderlyPlanner = some s ∧
      Accounted (slack false) s ∧ Answers s ∧
        LastStep (step (Planner.factoryStep true)) {} Clean s orderlyPlanner := by
  constructor
  · have hs : (run (restrict (fun s a => decide (permitted pluginLowers true false s a))
        (step (Plugins.clientStep true))) {} orderly).isSome = true := by decide +kernel
    have hrestricted := (Option.some_get hs).symm
    have hrun := run_of_restrict hrestricted
    refine ⟨_, hrun, ((accounting_iff true false).1 orderly _ hrun).mpr ?_ orderly [] _ (by simp)
      hrun⟩
    exact fun bs a cs t has ht => of_decide_eq_true (ok_of_restrict hrestricted bs a cs t has ht)
  · have hs : (run (restrict (fun s a => decide (permitted plannerLowers true false s a))
        (step (Planner.factoryStep true))) {} orderlyPlanner).isSome = true := by decide +kernel
    have hrestricted := (Option.some_get hs).symm
    have hrun := run_of_restrict hrestricted
    refine ⟨_, hrun, ((accounting_iff true false).2 orderlyPlanner _ hrun).mpr ?_ orderlyPlanner []
      _ (by simp) hrun⟩
    exact fun bs a cs t has ht => of_decide_eq_true (ok_of_restrict hrestricted bs a cs t has ht)

end Runs

end HumanoidCore.Proofs.FactoryAccounts
