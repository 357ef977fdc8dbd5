import HumanoidCore.Lib.History
import HumanoidCore.SdkClients

namespace HumanoidCore.Proofs.ClientSessions
open Lib Sdk

variable {γ κ : Type} (adapter : ClientAdapter γ κ)

/-- There is a client while the adapter is initialized, and only then a connection. -/
def Paired (s : ClientState) : Prop :=
  s.client = s.initialized ∧ (s.connected = true → s.initialized = true)

/-- The vendor's client was set up. -/
def SetUp (op : ClientOp γ) : Prop :=
  ∃ configuration host, op = .start configuration host ∧
    (validateSdkConfiguration configuration host).succeeded = true ∧ host.setUp = .ok ()

/-- The calls that end a connection. -/
def Ends (op : ClientOp γ) : Prop :=
  op = .shutdown ∨ ∃ reply, op = .connect reply ∧ reply ≠ .returned 0

theorem invoke_succeeded {command : String} {failureCode : SdkErrorCode}
    (h : failureCode ≠ .success) (reply : Reply) :
    (invokeSdkCommand command failureCode reply).succeeded = true ↔ reply = .returned 0 := by
  cases reply with
  | returned code =>
    by_cases hcode : code = 0 <;>
      simp [invokeSdkCommand, fromSdkReturn, hcode, SdkResult.succeeded, h]
  | threw what => simp [invokeSdkCommand, SdkResult.succeeded, h]
  | threwUnknown => simp [invokeSdkCommand, SdkResult.succeeded, h]

theorem next_states {s : ClientState} (h : Paired s) (op : ClientOp γ) :
    Paired (s.next adapter op) ∧
    ((s.next adapter op).initialized = true ↔
      SetUp op ∨ s.initialized = true ∧ ¬ op = .shutdown) ∧
    ((s.next adapter op).connected = true ↔
      (op = .connect (.returned 0) ∧ s.initialized = true) ∨ s.connected = true ∧ ¬ Ends op) := by
  obtain ⟨client, configuration, initialized, connected⟩ := s
  obtain ⟨hclient, hconnected⟩ := h
  simp only at hclient hconnected
  subst client
  cases op with
  | start configuration host =>
    cases initialized with
    | true => simp [ClientState.next, ClientState.apply, ClientState.start, Paired, Ends]
    | false =>
      obtain rfl : connected = false := by simpa using hconnected
      cases hv : (validateSdkConfiguration configuration host).succeeded with
      | false => simp [ClientState.next, ClientState.apply, ClientState.start, Paired, SetUp, hv]
      | true =>
        obtain ⟨exists', opens, setUp⟩ := host
        obtain (_ | what) | ⟨⟩ := setUp <;>
          simp [ClientState.next, ClientState.apply, ClientState.start, Paired, SetUp, hv]
  | shutdown =>
    simp [ClientState.next, ClientState.apply, ClientState.shutdown, Paired, SetUp, Ends]
  | connect reply =>
    cases initialized with
    | false =>
      obtain rfl : connected = false := by simpa using hconnected
      simp [ClientState.next, ClientState.apply, ClientState.connect,
        ClientState.requireInitialized, SdkResult.succeeded, Paired, SetUp]
    | true =>
      have hinvoke : (invokeSdkCommand adapter.connectCommand .connectionFailed reply).succeeded =
          true ↔ reply = .returned 0 := invoke_succeeded (by decide) reply
      have hnext : ClientState.next adapter ⟨true, configuration, true, connected⟩ (.connect reply) =
          ⟨true, configuration, true,
            (invokeSdkCommand adapter.connectCommand .connectionFailed reply).succeeded⟩ := by
        simp [ClientState.next, ClientState.apply, ClientState.connect,
          ClientState.requireInitialized, SdkResult.succeeded]
      rw [hnext, hinvoke]
      by_cases hreply : reply = .returned 0 <;> simp [Paired, SetUp, Ends, hreply]
  | command c reply =>
    simpa [ClientState.next, ClientState.apply, Paired, SetUp, Ends] using hconnected

/-- The robot has answered a client that was set up, and nothing has ended it since. -/
def InSession (ops : List (ClientOp γ)) : Prop :=
  ∃ before later, ops = before ++ .connect (.returned 0) :: later ∧ (∀ op ∈ later, ¬ Ends op) ∧
    ∃ first op mid, before = first ++ op :: mid ∧ SetUp op ∧ ∀ op ∈ mid, ¬ op = .shutdown

theorem paired_after (ops : List (ClientOp γ)) :
    Paired (ops.foldl (ClientState.next adapter) {}) :=
  foldl_keeps (I := Paired) (fun _ op h => (next_states adapter h op).1) ops (by simp [Paired])

theorem connected_history (ops : List (ClientOp γ)) :
    (ops.foldl (ClientState.next adapter) {}).connected = true ↔ InSession ops := by
  have hstart : Paired {} := by simp [Paired]
  have hinitialized := foldl_since (P := fun s : ClientState => s.initialized = true) (I := Paired)
    (fun _ op h => (next_states adapter h op).1) (fun _ op h => (next_states adapter h op).2.1)
    hstart (by simp)
  rw [foldl_since (P := fun s : ClientState => s.connected = true) (I := Paired)
    (fun _ op h => (next_states adapter h op).1) (fun _ op h => (next_states adapter h op).2.2)
    hstart (by simp)]
  constructor
  · intro h
    obtain ⟨before, op, later, hops, ⟨rfl, hin⟩, hlater⟩ := h
    exact ⟨before, later, hops, hlater, (hinitialized before).mp hin⟩
  · intro h
    obtain ⟨before, later, hops, hlater, hin⟩ := h
    exact ⟨before, _, later, hops, ⟨rfl, (hinitialized before).mpr hin⟩, hlater⟩

/-- A command reaches the vendor's client if it is one that is sent and there is a session. -/
theorem command_gated (ops : List (ClientOp γ)) (c : γ) (reply : Reply) (call : κ) :
    ((ops.foldl (ClientState.next adapter) {}).command adapter c reply).2 = some call ↔
      (∃ name vendorName, adapter.command c = .inr (name, vendorName, call)) ∧ InSession ops := by
  rw [← connected_history adapter ops]
  have hpaired := paired_after adapter ops
  generalize ops.foldl (ClientState.next adapter) {} = s at hpaired
  obtain ⟨hclient, hconnected⟩ := hpaired
  unfold ClientState.command ClientState.requireConnected
  cases adapter.command c with
  | inl refusal => simp
  | inr sent =>
    cases hc : s.connected with
    | false => simp [SdkResult.succeeded]
    | true => simp [hclient, hconnected hc, SdkResult.succeeded, Prod.ext_iff]

theorem volume_sent {v volume : UInt8} {name vendorName : String}
    (h : setVolume v = .inr (name, vendorName, .setVolume volume)) : volume ≤ 100 := by
  unfold setVolume at h
  split at h
  · cases h
  · rename_i hle
    cases h
    exact UInt8.not_lt.mp hle

end HumanoidCore.Proofs.ClientSessions
