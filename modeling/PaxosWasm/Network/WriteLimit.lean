import PaxosWasm.Network.PaxosClient

/-!
# The limit of a write

Four paths send messages: the two sends of the TCP client, the responses of the client server, and
the requests of the cluster's client. Only the send that waits for no answer cuts a message into
pieces; the others keep to the limit of a write exactly if the message does.
-/

namespace PaxosWasm

open Library

variable {message : NetworkMessage} {bytes : List UInt8}

namespace TcpClient

variable {connect : String → Option InputStream} {outcome : Nat → Nat → Bool} {s : TcpClient}
  {nodes : List Node}

/-! ## The send that waits for no answer

Its writes keep to the limit, whatever the message. -/

/-- Each node gets nothing, if it cannot be connected to, or what `write` writes. -/
theorem mem_writeEach {write : (Nat → Bool) → Written} {evicts : Bool} {w : Written}
    (h : w ∈ (writeEach connect write evicts outcome nodes s).1) :
    w = .nothing ∨ ∃ outcome, w = write outcome := by
  induction nodes generalizing s outcome with
  | nil => cases h
  | cons node nodes ih =>
      unfold writeEach at h
      split at h
      · rcases List.mem_cons.mp h with he | h
        · exact Or.inl he
        · exact ih h
      · rcases List.mem_cons.mp h with he | h
        · exact Or.inr ⟨_, he⟩
        · exact ih h

/-- The send that waits for no answer keeps to the limit, whatever the length of the message. -/
theorem respects_sendMessageForget {w : Written}
    (h : w ∈ (s.sendMessageForget connect outcome nodes message).1) : w.Respects message := by
  unfold sendMessageForget at h
  split at h
  · cases h
  · next bytes hbytes =>
    rcases mem_writeEach h with rfl | ⟨outcome, rfl⟩
    · exact respects_nothing
    · exact respects_writeAllInChunks hbytes outcome

theorem respects_sendMessage (hbytes : message.serialize = .ok bytes)
    (hle : bytes.length ≤ maxWasiChunk) {w : Written}
    (h : w ∈ (s.sendMessage connect outcome nodes message).1) : w.Respects message := by
  unfold sendMessage at h
  rw [hbytes] at h
  rcases mem_writeEach h with rfl | ⟨outcome, rfl⟩
  · exact respects_nothing
  · exact (respects_writeWhole_iff hbytes outcome).mpr hle

end TcpClient

/-! ## The paths of the clients

They hand over in one piece what they write. -/

/-- What the client server writes keeps to the limit if the response does. -/
theorem ClientServerTcp.respects_sendResponses {fails : Nat → Bool} {s : ClientServerTcp}
    {sender : Node} {replies : List ClientResponse} {w : ResponseWrite}
    (h : w ∈ (s.sendResponses fails sender replies).1)
    (hbytes : (responseMessage sender w.resp).serialize = .ok bytes)
    (hle : bytes.length ≤ maxWasiChunk) : w.written.Respects (responseMessage sender w.resp) := by
  obtain ⟨writes, hwrites, hall⟩ := writes_answerEach fails s.inbox.conns sender replies
    { req2chan := s.req2chan, writes := [], toDrop := [] }
  have hw : w ∈ writes := by
    rw [List.nil_append] at hwrites
    rw [← hwrites]
    exact h
  have hw : (.ok w : Except Trap ResponseWrite) ∈ writes.map .ok := List.mem_map_of_mem hw
  rw [hall] at hw
  obtain ⟨⟨chan, resp⟩, -, hx⟩ := List.mem_map.mp ((List.takeWhile_subset _) hw)
  unfold writeOf at hx
  cases hserialize : (responseMessage sender resp).serialize with
  | error t =>
      rw [hserialize] at hx
      cases hx
  | ok bytes' =>
      rw [hserialize] at hx
      obtain rfl := Except.ok.inj hx
      obtain rfl := Except.ok.inj (hbytes.symm.trans hserialize)
      exact (respects_writeWhole_iff hbytes _).mpr hle

/-- The requests of the cluster's client keep to the limit if they are short. -/
theorem PaxosClient.respects_sendRequest {connect : String → Option InputStream}
    {outcome : Nat → Bool} {s : PaxosClient} {addr : String} {value : Value}
    (hbytes : (requestMessage value).serialize = .ok bytes) (hle : bytes.length ≤ maxWasiChunk) :
    (s.sendRequest connect outcome addr value).1.Respects (requestMessage value) := by
  unfold sendRequest
  rw [hbytes]
  dsimp only
  split
  · exact respects_nothing
  · split
    · exact respects_nothing
    · split
      · split <;> exact (respects_writeWhole_iff hbytes outcome).mpr hle
      · exact respects_nothing

/-! ## All paths with one message

The send that waits for an answer hands a message over in one piece. So all paths keep to the limit with a
message exactly if the message does. -/

/-- Every path keeps to the limit with this message: whatever the state of the component, it passes no
more than `maxWasiChunk` bytes to a write, and if no write fails, the bytes passed for one destination
are the serialized message. -/
def AllRespect (message : NetworkMessage) : Prop :=
  (∀ connect outcome (s : TcpClient) nodes,
    ∀ w ∈ (s.sendMessageForget connect outcome nodes message).1, w.Respects message) ∧
  (∀ connect outcome (s : TcpClient) nodes,
    ∀ w ∈ (s.sendMessage connect outcome nodes message).1, w.Respects message) ∧
  (∀ fails (s : ClientServerTcp) sender replies,
    ∀ w ∈ (s.sendResponses fails sender replies).1,
      ClientServerTcp.responseMessage sender w.resp = message → w.written.Respects message) ∧
  ∀ connect outcome (s : PaxosClient) addr value, PaxosClient.requestMessage value = message →
    (s.sendRequest connect outcome addr value).1.Respects message

/-- The send that waits for an answer passes all of a message to one write. -/
theorem le_of_allRespect (h : AllRespect message) (hbytes : message.serialize = .ok bytes) :
    bytes.length ≤ maxWasiChunk := by
  -- one node that can be connected to
  have hone := h.2.1 (fun _ => some []) (fun _ _ => true) .new
    [{ nodeId := 1, address := "", role := .acceptor }] (writeWhole (fun _ => true) bytes)
  refine (respects_writeWhole_iff hbytes _).mp (hone ?_)
  unfold TcpClient.sendMessage
  rw [hbytes]
  exact List.mem_cons_self ..

/-- **The limit of a write** is kept with a message on every path if and only if the message, with its
header, keeps to it. -/
theorem sends_respect_iff (hbytes : message.serialize = .ok bytes) :
    AllRespect message ↔ bytes.length ≤ maxWasiChunk := by
  constructor
  · exact fun h => le_of_allRespect h hbytes
  · intro hle
    refine ⟨?_, ?_, ?_, ?_⟩
    · exact fun connect outcome s nodes w hw => TcpClient.respects_sendMessageForget hw
    · exact fun connect outcome s nodes w hw => TcpClient.respects_sendMessage hbytes hle hw
    · rintro fails s sender replies w hw rfl
      exact ClientServerTcp.respects_sendResponses hw hbytes hle
    · rintro connect outcome s addr value rfl
      exact PaxosClient.respects_sendRequest hbytes hle

set_option maxRecDepth 4000 in
theorem sends_respect_heartbeat : AllRespect Letter.heartbeat.message := by
  have hbytes : Letter.heartbeat.message.serialize = .ok (Framing.frame Letter.heartbeat.payload) := rfl
  refine (sends_respect_iff hbytes).mpr ?_
  decide

/-! ### A message that is longer -/

/-- A heartbeat of a node with an address of 4096 letters. -/
def longHeartbeat : NetworkMessage where
  sender := { nodeId := 1, address := .ofList (List.replicate 4096 'a'), role := .acceptor }
  payload := .heartbeat

theorem utf8ByteSize_longHeartbeat :
    (Serializer.formatted longHeartbeat).utf8ByteSize = 4154 := by
  have hletters : ∀ n, String.utf8Len (List.replicate n 'a') = n := by
    intro n
    induction n with
    | zero => rfl
    | succ n ih =>
        rw [List.replicate_succ, String.utf8Len_cons, ih]
        rfl
  have hsender : ("sender=" ++ ("node_id:" ++ toString 1 ++ ",address:")).utf8ByteSize = 25 := by decide
  have hpayload : ((",role:" ++ Serializer.serializeRole .acceptor) ++ ("||" ++ "payload=" ++
      Serializer.serializeMessagePayload .heartbeat)).utf8ByteSize = 33 := by decide
  have hparts : Serializer.formatted longHeartbeat =
      ("sender=" ++ ("node_id:" ++ toString 1 ++ ",address:")) ++
        .ofList (List.replicate 4096 'a') ++ ((",role:" ++ Serializer.serializeRole .acceptor) ++
          ("||" ++ "payload=" ++ Serializer.serializeMessagePayload .heartbeat)) := by
    unfold Serializer.formatted longHeartbeat
    rw [Serializer.serializeNode_eq]
    simp only [String.append_assoc]
  rw [hparts, String.utf8ByteSize_append, String.utf8ByteSize_append, hsender, hpayload,
    String.utf8ByteSize_ofList, hletters]

/-- What is written of a message that is not too long. -/
theorem serialize_of_size {n : Nat} (h : (Serializer.formatted message).utf8ByteSize = n)
    (hn : n < 2 ^ 32) :
    ∃ bytes, message.serialize = .ok bytes ∧ bytes.length = 4 + n := by
  have hlen : (Serializer.formatted message).toUTF8.data.toList.length = n := h
  unfold NetworkMessage.serialize Serializer.serialize
  dsimp only
  rw [hlen, if_pos hn]
  refine ⟨_, rfl, ?_⟩
  rw [List.length_append, hlen]
  rfl

/-- **A long message** goes to a single write on the path that waits for an answer. -/
theorem longHeartbeat_exceeds : ¬ ∀ message bytes,
    message.serialize = .ok bytes → AllRespect message := by
  intro h
  obtain ⟨bytes, hbytes, hlen⟩ := serialize_of_size utf8ByteSize_longHeartbeat (by decide)
  have hle := le_of_allRespect (h longHeartbeat bytes hbytes) hbytes
  rw [hlen] at hle
  exact absurd hle (by decide)

end PaxosWasm
