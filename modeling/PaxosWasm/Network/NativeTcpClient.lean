import PaxosWasm.Network.FrameLoop

/-!
# The native TCP client

`runner-ws/src/host_network_client.rs`. All messages go through one queue to one thread, which keeps a
connection per address and writes one message after the other. Where it cannot connect it asks for a
dummy connection, and as there is none, the thread panics: whatever is in the queue behind that
message is lost, to whichever address it goes.
-/

namespace PaxosWasm

open Library

/-- A message in the queue of the thread, with its address. -/
abbrev Queued := String × List UInt8

/-- What the network does with the `i`-th message of the queue: which addresses can be connected to
when it is its turn, and whether the write succeeds. -/
structure Peers where
  connects : Nat → String → Bool
  accepts : Nat → Bool

/-- A `TcpStream`, by the address it is connected to. -/
structure TcpStream where
  peer : String

/-- The thread of a `NativeTcpClient`. -/
structure NativeTcpClient where
  /-- The thread has not panicked. -/
  running : Bool
  conns : OrdMap String TcpStream
  /-- What has been written, and to whom. -/
  written : List Queued

namespace NativeTcpClient

def new : NativeTcpClient := { running := true, conns := ∅, written := [] }

/-- The address of the dummy stream. -/
def dummy : String := "0.0.0.0:0"

/-- `or_insert_with`; `none` if the `unwrap` panics. -/
def stream? (peers : Peers) (i : Nat) (c : NativeTcpClient) (addr : String) : Option TcpStream :=
  match c.conns.get? addr with
  | some stream => some stream
  | none =>
      if peers.connects i addr then some ⟨addr⟩
      else if peers.connects i dummy then some ⟨dummy⟩
      else none

/-- The thread takes a message from the queue. Once it has panicked, nobody does. -/
def deliver (peers : Peers) (i : Nat) (c : NativeTcpClient) (m : Queued) : NativeTcpClient :=
  if c.running then
    match c.stream? peers i m.1 with
    | none => { c with running := false }
    | some stream =>
        if peers.accepts i then
          { c with
            conns := c.conns.insert m.1 stream
            written := c.written ++ [(stream.peer, m.2)] }
        else { c with conns := c.conns.retain (· ≠ m.1) }
  else c

def deliverAll (peers : Peers) : Nat → NativeTcpClient → List Queued → NativeTcpClient
  | _, c, [] => c
  | i, c, m :: ms => deliverAll peers (i + 1) (c.deliver peers i m) ms

/-- `send_message_forget`: the message to each of the nodes, if it can be serialized. -/
def sendMessageForget (nodes : List Node) (message : NetworkMessage) : List Queued :=
  match message.serialize with
  | .ok msgBytes => nodes.map (fun node => (node.address, msgBytes))
  | .error _ => []

/-- The queue after some calls of `send_message_forget`. -/
def queue (calls : List (List Node × NetworkMessage)) : List Queued :=
  calls.flatMap (fun call => sendMessageForget call.1 call.2)

/-- A new client, once its thread has been through the queue. -/
def sendAll (peers : Peers) (calls : List (List Node × NetworkMessage)) : NativeTcpClient :=
  deliverAll peers 0 new (queue calls)

end NativeTcpClient

/-! ## What should be written

An address is open from a message that reaches it to one that it does not accept. -/

namespace Peers

variable (p : Peers)

/-- The address has a connection, or can get one. -/
def Reaches (i : Nat) (opened : Finset String) (addr : String) : Prop :=
  addr ∈ opened ∨ p.connects i addr = true

/-- The address is reached, and accepts what is written. -/
def Serves (i : Nat) (opened : Finset String) (addr : String) : Prop :=
  p.Reaches i opened addr ∧ p.accepts i = true

instance (i : Nat) (opened : Finset String) : DecidablePred (p.Reaches i opened) :=
  fun _ => inferInstanceAs (Decidable (_ ∨ _))

instance (i : Nat) (opened : Finset String) : DecidablePred (p.Serves i opened) :=
  fun _ => inferInstanceAs (Decidable (_ ∧ _))

/-- The open addresses after a message to `addr`. -/
def openAfter (i : Nat) (opened : Finset String) (addr : String) : Finset String :=
  if p.Serves i opened addr then insert addr opened else opened.erase addr

/-- The messages that their addresses get, whatever has failed for others. -/
def due : Nat → Finset String → List Queued → List Queued
  | _, _, [] => []
  | i, opened, m :: ms =>
      (if p.Serves i opened m.1 then [m] else []) ++ due (i + 1) (p.openAfter i opened m.1) ms

/-- Behind the first message whose address has no connection and cannot get one, no message is due. -/
def Harmless : Nat → Finset String → List Queued → Prop
  | _, _, [] => True
  | i, opened, m :: ms =>
      if p.Reaches i opened m.1 then Harmless (i + 1) (p.openAfter i opened m.1) ms
      else p.due (i + 1) opened ms = []

instance Harmless.decidable : ∀ i opened ms, Decidable (p.Harmless i opened ms)
  | _, _, [] => isTrue trivial
  | i, opened, m :: ms =>
      have := Harmless.decidable (i + 1) (p.openAfter i opened m.1) ms
      inferInstanceAs (Decidable (if p.Reaches i opened m.1 then _ else _))

end Peers

/-! ## What is written

The thread has the connections it should have for as long as every address can be reached. At the first
that cannot, it ends, and everything behind is lost. -/

namespace NativeTcpClient

variable {peers : Peers} {c : NativeTcpClient} {opened : Finset String} {i : Nat} {m : Queued}
  {ms : List Queued}

/-- The thread runs, and has the connections it should have. -/
structure Connected (c : NativeTcpClient) (opened : Finset String) : Prop where
  running : c.running = true
  mem_iff : ∀ addr, addr ∈ opened ↔ ∃ stream, c.conns.get? addr = some stream
  peer : ∀ addr stream, c.conns.get? addr = some stream → stream.peer = addr

theorem connected_new : new.Connected ∅ :=
  ⟨rfl, fun addr => by simp [new], fun addr stream h => by simp [new] at h⟩

theorem deliverAll_of_stopped (h : c.running = false) : deliverAll peers i c ms = c := by
  induction ms generalizing i with
  | nil => rfl
  | cons m ms ih =>
      have hsame : c.deliver peers i m = c := by simp [deliver, h]
      rw [deliverAll, hsame, ih]

/-- An address that is reached has a stream to it. -/
theorem Connected.stream?_of_reaches (h : c.Connected opened) {addr : String}
    (hreach : peers.Reaches i opened addr) : c.stream? peers i addr = some ⟨addr⟩ := by
  unfold stream?
  cases hget : c.conns.get? addr with
  | some stream =>
      obtain ⟨peer⟩ := stream
      have hpeer : peer = addr := h.peer addr _ hget
      rw [hpeer]
  | none =>
      have hclosed : addr ∉ opened := by
        intro hopen
        obtain ⟨stream, hsome⟩ := (h.mem_iff addr).mp hopen
        rw [hget] at hsome
        cases hsome
      rw [if_pos (hreach.resolve_left hclosed)]

/-- For another address there is not even the dummy stream. -/
theorem Connected.stream?_of_not_reaches (h : c.Connected opened) {addr : String}
    (hdummy : peers.connects i dummy = false) (hreach : ¬ peers.Reaches i opened addr) :
    c.stream? peers i addr = none := by
  obtain ⟨hclosed, hrefused⟩ := not_or.mp hreach
  have hget : c.conns.get? addr = none := by
    cases hget : c.conns.get? addr with
    | none => rfl
    | some stream => exact absurd ((h.mem_iff addr).mpr ⟨stream, hget⟩) hclosed
  simp [stream?, hget, hrefused, hdummy]

/-- **A message to an address that is reached** is written, if it is accepted. -/
theorem Connected.deliver (h : c.Connected opened) (hreach : peers.Reaches i opened m.1) :
    (c.deliver peers i m).Connected (peers.openAfter i opened m.1) ∧
      (c.deliver peers i m).written = c.written ++ if peers.Serves i opened m.1 then [m] else [] := by
  unfold NativeTcpClient.deliver Peers.openAfter
  rw [if_pos h.running, h.stream?_of_reaches hreach]
  dsimp only
  by_cases haccept : peers.accepts i = true
  · have hserves : peers.Serves i opened m.1 := ⟨hreach, haccept⟩
    rw [if_pos haccept, if_pos hserves, if_pos hserves]
    refine ⟨⟨h.running, fun addr => ?_, fun addr stream hget => ?_⟩, rfl⟩
    · rw [Finset.mem_insert, h.mem_iff, OrdMap.get?_insert]
      by_cases hsame : addr = m.1
      · simp [hsame]
      · simp [hsame]
    · rw [OrdMap.get?_insert] at hget
      split at hget
      · next hsame =>
        rw [← Option.some.inj hget, hsame]
      · exact h.peer addr stream hget
  · have hserves : ¬ peers.Serves i opened m.1 := fun hs => haccept hs.2
    rw [if_neg haccept, if_neg hserves, if_neg hserves, List.append_nil]
    refine ⟨⟨h.running, fun addr => ?_, fun addr stream hget => ?_⟩, rfl⟩
    · rw [Finset.mem_erase, h.mem_iff, OrdMap.get?_retain]
      by_cases hsame : addr = m.1
      · simp [hsame]
      · simp [hsame]
    · rw [OrdMap.get?_retain] at hget
      split at hget
      · exact h.peer addr stream hget
      · cases hget

/-- **A message to an address that is not reached** ends the thread. -/
theorem Connected.deliver_of_not_reaches (h : c.Connected opened)
    (hdummy : peers.connects i dummy = false) (hreach : ¬ peers.Reaches i opened m.1) :
    c.deliver peers i m = { c with running := false } := by
  rw [NativeTcpClient.deliver, if_pos h.running, h.stream?_of_not_reaches hdummy hreach]

/-- **The thread writes a first part of what is due**, and all of it if what fails is harmless. -/
theorem Connected.written_deliverAll (h : c.Connected opened) (i : Nat) (ms : List Queued)
    (hdummy : ∀ i, peers.connects i dummy = false) :
    ∃ rest, c.written ++ peers.due i opened ms = (deliverAll peers i c ms).written ++ rest ∧
      (peers.Harmless i opened ms ↔ rest = []) := by
  induction ms generalizing i c opened with
  | nil => exact ⟨[], rfl, iff_of_true trivial rfl⟩
  | cons m ms ih =>
      rw [deliverAll, Peers.due, Peers.Harmless]
      by_cases hreach : peers.Reaches i opened m.1
      · obtain ⟨hconnected, hwritten⟩ := h.deliver hreach
        obtain ⟨rest, hdue, hharmless⟩ := ih hconnected (i + 1)
        refine ⟨rest, ?_, ?_⟩
        · rw [← List.append_assoc, ← hwritten, hdue]
        · rw [if_pos hreach]
          exact hharmless
      · have hserves : ¬ peers.Serves i opened m.1 := fun hs => hreach hs.1
        have hclosed : opened.erase m.1 = opened :=
          Finset.erase_eq_of_notMem (fun hopen => hreach (Or.inl hopen))
        rw [h.deliver_of_not_reaches (hdummy i) hreach, deliverAll_of_stopped rfl, if_neg hserves,
          if_neg hreach, Peers.openAfter, if_neg hserves, hclosed]
        exact ⟨_, rfl, Iff.rfl⟩

/-- **Every address gets what is due to it**, in order, if and only if nothing is due behind the first
message whose address cannot be reached. -/
theorem written_iff_harmless (peers : Peers) (hdummy : ∀ i, peers.connects i dummy = false)
    (calls : List (List Node × NetworkMessage)) :
    (∀ addr, (sendAll peers calls).written.filter (·.1 = addr) =
        (peers.due 0 ∅ (queue calls)).filter (·.1 = addr)) ↔
      peers.Harmless 0 ∅ (queue calls) := by
  obtain ⟨rest, hdue, hharmless⟩ :=
    connected_new.written_deliverAll 0 (queue calls) hdummy
  rw [hharmless]
  change [] ++ _ = (sendAll peers calls).written ++ rest at hdue
  rw [List.nil_append] at hdue
  rw [hdue]
  constructor
  · intro hall
    cases rest with
    | nil => rfl
    | cons m rest =>
        have hlength := congrArg List.length (hall m.1)
        rw [List.filter_append, List.length_append, List.filter_cons_of_pos (by simp)] at hlength
        simp at hlength
  · rintro rfl addr
    rw [List.append_nil]

/-! ### Three messages and an address that is not reached -/

def nodeAt (addr : String) : Node := { nodeId := 1, address := addr, role := .acceptor }

def heartbeat : NetworkMessage := { sender := nodeAt "a", payload := .heartbeat }

/-- A network in which only `addr` can be connected to. -/
def only (addr : String) : Peers := { connects := fun _ a => a = addr, accepts := fun _ => true }

theorem not_connects_dummy (i : Nat) : (only "a").connects i dummy = false := by simp [only, dummy]

/-- Two messages to `a`, and behind them two to `b`, which cannot be reached. -/
def unreachableLast : List (List Node × NetworkMessage) :=
  [([nodeAt "a"], heartbeat), ([nodeAt "a", nodeAt "b"], heartbeat), ([nodeAt "b"], heartbeat)]

set_option maxRecDepth 4000 in
theorem written_before_unreachable :
    (sendAll (only "a") unreachableLast).written.filter (·.1 = "a") =
      ((only "a").due 0 ∅ (queue unreachableLast)).filter (·.1 = "a") :=
  (written_iff_harmless (only "a") not_connects_dummy unreachableLast).mpr (by decide) "a"

set_option maxRecDepth 4000 in
/-- **An address that cannot be reached** silences the client: the message to the one that can is lost. -/
theorem unreachable_silences :
    ¬ ∀ peers : Peers, (∀ i, peers.connects i dummy = false) →
      ∀ calls addr, (sendAll peers calls).written.filter (·.1 = addr) =
        (peers.due 0 ∅ (queue calls)).filter (·.1 = addr) := by
  intro h
  have hone := h (only "a") not_connects_dummy [([nodeAt "b", nodeAt "a"], heartbeat)] "a"
  exact absurd (congrArg List.length hone) (by decide)

end NativeTcpClient

end PaxosWasm
