import PaxosWasm.Library.Text
import PaxosWasm.Types

/-!
# The serializer

`network-ws/serializer`: a message as text, `sender=…||payload=…`, in a frame of its length. A
payload is its kind and its fields `name:value`, with commas between them; a list of records is put
in brackets, with bars between the records. Nothing is escaped, and of several fields of one name the
last one counts.
-/

namespace PaxosWasm

open Library Library.Text

namespace Serializer

/-! ## Numbers, flags and commands

A number that is missing and one that cannot be parsed come to the same. A bad command is an error of its
own. -/

/-- `str::parse::<u64>`. -/
def parseU64 (s : String) : Option Nat := parseNat (2 ^ 64) s

/-- `str::parse::<bool>`. -/
def parseBool (s : String) : Option Bool :=
  if s = "true" then some true else if s = "false" then some false else none

/-- The number a field carries. -/
def number (name : String) (parts : List String) : Option Nat := (field name parts).bind parseU64

/-- The flag a field carries. -/
def flag (name : String) (parts : List String) : Option Bool := (field name parts).bind parseBool

def serializeOperation : Operation → String
  | .get key => "get(\"" ++ key ++ "\")"
  | .remove key => "remove(\"" ++ key ++ "\")"
  | .set key value => "set(\"" ++ key ++ "\",\"" ++ value ++ "\")"
  | .clear => "clear"
  | .demo => "demo"

/-- The key and the value between the parentheses of a `set`. -/
def deserializeSet (opStr : String) : Option Operation := do
  let inner ← (stripPrefix opStr "set(").bind (fun s => stripSuffix s ")")
  let stripped ← (stripPrefix inner "\"").bind (fun s => stripSuffix s "\"")
  match splitStr stripped "\",\"" with
  | [key, value] => some (.set key value)
  | _ => none

def deserializeOperation (opStr : String) : Except String Operation :=
  if opStr = "none" then .error "none"
  else
    match (stripPrefix opStr "get(\"").bind (fun s => stripSuffix s "\")") with
    | some arg => .ok (.get arg)
    | none =>
        match (stripPrefix opStr "remove(\"").bind (fun s => stripSuffix s "\")") with
        | some arg => .ok (.remove arg)
        | none =>
            match deserializeSet opStr with
            | some op => .ok op
            | none =>
                if opStr = "clear" then .ok .clear
                else if opStr = "demo" then .ok .demo
                else .error "unknown op"

/-- The text of a command that may be missing. -/
def serializeCmd (cmd : Cmd) : String := cmd.elim "none" serializeOperation

/-- The command of a text, where `err` stands for an operation that cannot be read. -/
def deserializeCmd (err op : String) : Except String Cmd :=
  if op = "none" then .ok none
  else
    match deserializeOperation op with
    | .ok oper => .ok (some oper)
    | .error _ => .error err

def serializeCmdResult : CmdResult → String
  | .noOp => "no-op"
  | .cmdValue none => "cmd-value:none"
  | .cmdValue (some v) => "cmd-value:" ++ v

def deserializeCmdResult (s : String) : Except String CmdResult :=
  if s = "no-op" then .ok .noOp
  else
    match stripPrefix s "cmd-value:" with
    | some rest => if rest = "none" then .ok (.cmdValue none) else .ok (.cmdValue (some rest))
    | none => .error "bad cmd-result"

/-! ## Nodes

The sender of a message: its id, its address and its role. -/

def serializeRole : PaxosRole → String
  | .proposer => "proposer"
  | .acceptor => "acceptor"
  | .learner => "learner"
  | .client => "client"
  | .coordinator => "coordinator"

def deserializeRole (v : String) : Except String PaxosRole :=
  if v = "proposer" then .ok .proposer
  else if v = "acceptor" then .ok .acceptor
  else if v = "learner" then .ok .learner
  else if v = "client" then .ok .client
  else if v = "coordinator" then .ok .coordinator
  else .error "unknown role"

def serializeNode (n : Node) : String :=
  join ',' [keyed "node_id" (toString n.nodeId), keyed "address" n.address,
    keyed "role" (serializeRole n.role)]

/-- Every role among the fields has to be one, also where a later one counts. -/
def deserializeNode (s : String) : Except String Node := do
  let parts := split s ','
  let roles ← (parts.filterMap (value? "role")).mapM deserializeRole
  match number "node_id" parts, field "address" parts, roles.getLast? with
  | some nodeId, some address, some role => .ok { nodeId, address, role }
  | _, _, _ => .error "missing node_id, address, or role"

/-! ## Payloads

A kind in front and the fields behind it. The deserializer cuts off the list, if there is one, then cuts the
rest at every comma. -/

/-- The three fields of a value. -/
def valueFields (v : Value) : List String :=
  [keyed "client_id" v.clientId, keyed "client_seq" (toString v.clientSeq),
    keyed "op" (serializeCmd v.command)]

/-- A reported value; one that is missing is written as that of an unknown client without a
command. -/
def serializePValue (pv : PValue) : String :=
  join ',' (keyed "slot" (toString pv.slot) :: keyed "ballot" (toString pv.ballot) ::
    valueFields (pv.value.getD { command := none, clientId := "unknown", clientSeq := 0 }))

def serializeResult (r : ExecuteResult) : String :=
  join ',' (keyed "slot" (toString r.slot) :: valueFields r.value ++
    [keyed "success" (toString r.success), keyed "result" (serializeCmdResult r.cmdResult)])

def serializeMessagePayload : MessagePayload → String
  | .ignore => "ignore"
  | .clientRequest v => join ',' ("client-request" :: valueFields v)
  | .clientResponse cr =>
      join ',' ["client-response", keyed "client_id" cr.clientId,
        keyed "client_seq" (toString cr.clientSeq), keyed "success" (toString cr.success),
        keyed "result" (serializeCmdResult cr.commandResult)]
  | .prepare p =>
      join ',' ["prepare", keyed "slot" (toString p.slot), keyed "ballot" (toString p.ballot)]
  | .promise pr =>
      let header := join ',' ["promise", keyed "slot" (toString pr.slot),
        keyed "ballot" (toString pr.ballot)]
      let acceptedEntries := join '|' (pr.accepted.map serializePValue)
      if acceptedEntries = "" then header else header ++ ",accepted:[" ++ acceptedEntries ++ "]"
  | .accept a =>
      join ',' ("accept" :: keyed "slot" (toString a.slot) :: keyed "ballot" (toString a.ballot) ::
        valueFields a.value)
  | .accepted a =>
      join ',' ["accepted", keyed "slot" (toString a.slot), keyed "ballot" (toString a.ballot),
        keyed "success" (toString a.success)]
  | .learn l => join ',' ("learn" :: keyed "slot" (toString l.slot) :: valueFields l.value)
  | .heartbeat => "heartbeat"
  | .retryLearns retries =>
      join ',' ["retry-learns", keyed "slots" (join '|' (retries.slots.map toString))]
  | .executed exec =>
      join ',' ["executed", keyed "adu" (toString exec.adu)] ++ ",results:[" ++
        join '|' (exec.results.map serializeResult) ++ "]"
  | .benchmark b =>
      join ',' ["benchmark", keyed "send_timestamp" (toString b.sendTimestamp),
        keyed "payload" b.payload]
  | .adu adu => join ',' ["adu", toString adu]

/-- The value in the fields, if all three are there; `err` stands for a bad operation. -/
def deserializeValue (err : String) (parts : List String) : Option (Except String Value) :=
  match field "client_id" parts, number "client_seq" parts, field "op" parts with
  | some clientId, some clientSeq, some op =>
      some ((deserializeCmd err op).map (fun command => { command, clientId, clientSeq }))
  | _, _, _ => none

def deserializeClientRequest (parts : List String) : Except String MessagePayload :=
  match deserializeValue "bad op" parts with
  | some value => value.map .clientRequest
  | none => .error "bad client-request"

def deserializeClientResponse (parts : List String) : Except String MessagePayload :=
  match field "client_id" parts, number "client_seq" parts, flag "success" parts,
    field "result" parts with
  | some clientId, some clientSeq, some success, some result =>
      (deserializeCmdResult result).map (fun commandResult =>
        .clientResponse { clientId, clientSeq, success, commandResult })
  | _, _, _, _ => .error "bad client-response"

def deserializePrepare (parts : List String) : Except String MessagePayload :=
  match number "slot" parts, number "ballot" parts with
  | some slot, some ballot => .ok (.prepare { slot, ballot })
  | _, _ => .error "bad prepare"

/-- An entry of the accepted list; one that misses a field is skipped. -/
def deserializePValue (entry : String) : Except String (Option PValue) :=
  let parts := split entry ','
  match number "slot" parts, number "ballot" parts, field "client_id" parts,
    number "client_seq" parts, field "op" parts with
  | some slot, some ballot, some clientId, some clientSeq, some op =>
      if op = "none" then .ok (some { slot, ballot, value := none })
      else
        match deserializeOperation op with
        | .ok oper =>
            .ok (some { slot, ballot, value := some { command := some oper, clientId, clientSeq } })
        | .error _ => .error "bad op in promise.accepted"
  | _, _, _, _, _ => .ok none

/-- The text before a list opened by `opening`, and the text in the list, if there is one. -/
def cutList (raw opening err : String) : Except String (String × Option String) :=
  match splitOnce raw opening with
  | none => .ok (raw, none)
  | some (header, rest) =>
      match splitOnce rest "]" with
      | none => .error err
      | some (list, _) => .ok (header, some list)

/-- The records of a list that are not skipped. -/
def deserializeEntries {ρ : Type} (entry : String → Except String (Option ρ)) :
    Option String → Except String (List ρ)
  | none => .ok []
  | some list => ((split list '|').mapM entry).map List.reduceOption

def deserializePromise (raw : String) : Except String MessagePayload := do
  let (header, list) ← cutList raw "accepted:[" "malformed promise accepted list"
  let parts := (split header ',').drop 1
  let accepted ← deserializeEntries deserializePValue list
  match number "slot" parts, number "ballot" parts with
  | some slot, some ballot => .ok (.promise { slot, ballot, accepted })
  | _, _ => .error "bad promise"

def deserializeAccept (parts : List String) : Except String MessagePayload :=
  match number "slot" parts, number "ballot" parts, deserializeValue "bad op" parts with
  | some slot, some ballot, some value =>
      value.map (fun value => .accept { slot, ballot, value })
  | _, _, _ => .error "bad accept"

def deserializeAccepted (parts : List String) : Except String MessagePayload :=
  match number "slot" parts, number "ballot" parts, flag "success" parts with
  | some slot, some ballot, some success => .ok (.accepted { slot, ballot, success })
  | _, _, _ => .error "bad accepted"

def deserializeLearn (parts : List String) : Except String MessagePayload :=
  match number "slot" parts, deserializeValue "bad op" parts with
  | some slot, some value => value.map (fun value => .learn { slot, value })
  | _, _ => .error "bad learn"

def deserializeSlot (tok : String) : Except String Slot :=
  match parseU64 tok with
  | some slot => .ok slot
  | none => .error "bad slot"

def deserializeRetryLearns (parts : List String) : Except String MessagePayload :=
  match parts with
  | [part] =>
      match stripPrefix part "slots:" with
      | some list =>
          ((split list '|').mapM deserializeSlot).map (fun slots => .retryLearns { slots })
      | none => .error "bad retry-learns"
  | _ => .error "bad retry-learns"

/-- An entry of the results list; one that misses a field is skipped. -/
def deserializeResult (entry : String) : Except String (Option ExecuteResult) :=
  let parts := split entry ','
  match number "slot" parts, deserializeValue "bad op" parts, flag "success" parts,
    field "result" parts with
  | some slot, some value, some success, some result => do
      let value ← value
      let cmdResult ← deserializeCmdResult result
      .ok (some { value, slot, success, cmdResult })
  | _, _, _, _ => .ok none

def deserializeExecuted (raw : String) : Except String MessagePayload := do
  let (header, list) ← cutList raw "results:[" "malformed executed results list"
  let parts := (split header ',').drop 1
  let results ← deserializeEntries deserializeResult list
  match number "adu" parts with
  | some adu => .ok (.executed { results, adu })
  | none => .error "bad executed payload"

def deserializeBenchmark (parts : List String) : Except String MessagePayload :=
  match number "send_timestamp" parts, field "payload" parts with
  | some sendTimestamp, some payload => .ok (.benchmark { sendTimestamp, payload })
  | _, _ => .error "bad benchmark message"

def deserializeAdu (parts : List String) : Except String MessagePayload :=
  match parts with
  | [part] =>
      match parseU64 part with
      | some adu => .ok (.adu adu)
      | none => .error "invalid adu value"
  | _ => .error "bad adu payload"

def deserializeMessagePayload (s : String) : Except String MessagePayload :=
  match split s ',' with
  | [] => .error "empty payload"
  | kind :: parts =>
      if kind = "ignore" then .ok .ignore
      else if kind = "client-request" then deserializeClientRequest parts
      else if kind = "client-response" then deserializeClientResponse parts
      else if kind = "prepare" then deserializePrepare parts
      else if kind = "promise" then deserializePromise s
      else if kind = "accept" then deserializeAccept parts
      else if kind = "accepted" then deserializeAccepted parts
      else if kind = "learn" then deserializeLearn parts
      else if kind = "heartbeat" then .ok .heartbeat
      else if kind = "retry-learns" then deserializeRetryLearns parts
      else if kind = "executed" then deserializeExecuted s
      else if kind = "benchmark" then deserializeBenchmark parts
      else if kind = "adu" then deserializeAdu parts
      else .error "unknown payload"

/-! ## Messages

The payload behind its sender, and the length of both in front, as four bytes with the highest first. -/

/-- The text of a message. -/
def formatted (message : NetworkMessage) : String :=
  "sender=" ++ serializeNode message.sender ++ "||" ++ "payload=" ++
    serializeMessagePayload message.payload

/-- `u32::to_be_bytes`. -/
def toBeBytes (n : Nat) : List UInt8 :=
  [UInt8.ofNat (n / 2 ^ 24), UInt8.ofNat (n / 2 ^ 16), UInt8.ofNat (n / 2 ^ 8), UInt8.ofNat n]

/-- `u32::from_be_bytes`. -/
def fromBeBytes (bytes : List UInt8) : Nat := bytes.foldl (fun n b => n * 2 ^ 8 + b.toNat) 0

theorem fromBeBytes_toBeBytes {n : Nat} (h : n < 2 ^ 32) : fromBeBytes (toBeBytes n) = n := by
  simp only [fromBeBytes, toBeBytes, List.foldl_cons, List.foldl_nil, UInt8.toNat_ofNat']
  omega

/-- Four bytes are the `u32` they stand for. -/
theorem toBeBytes_fromBeBytes {bytes : List UInt8} (h : bytes.length = 4) :
    toBeBytes (fromBeBytes bytes) = bytes ∧ fromBeBytes bytes < 2 ^ 32 := by
  obtain ⟨a, b, c, d, rfl⟩ : ∃ a b c d, bytes = [a, b, c, d] := by
    match bytes, h with
    | [a, b, c, d], _ => exact ⟨a, b, c, d, rfl⟩
  have ha := a.toNat_lt
  have hb := b.toNat_lt
  have hc := c.toNat_lt
  have hd := d.toNat_lt
  have hbyte : ∀ (n : Nat) (x : UInt8), n % 2 ^ 8 = x.toNat → UInt8.ofNat n = x := by
    intro n x hx
    apply UInt8.toNat.inj
    rw [UInt8.toNat_ofNat', hx]
  simp only [fromBeBytes, toBeBytes, List.foldl_cons, List.foldl_nil, List.cons.injEq, and_true]
  exact ⟨⟨hbyte _ a (by omega), hbyte _ b (by omega), hbyte _ c (by omega), hbyte _ d (by omega)⟩,
    by omega⟩

/-- The frame of a message: its length in four bytes, then its text in UTF-8. Panics on a text that
is too long. -/
def serialize (message : NetworkMessage) : Except String (List UInt8) :=
  let payloadBytes := (formatted message).toUTF8.data.toList
  if payloadBytes.length < 2 ^ 32 then .ok (toBeBytes payloadBytes.length ++ payloadBytes)
  else .error "Message too long"

/-- The message of a text. -/
def deserializeString (serializedString : String) : Except String NetworkMessage :=
  match splitStr serializedString "||" with
  | [senderPart, payloadPart] => do
      let senderStr ← (stripPrefix senderPart "sender=").elim (.error "Missing sender prefix") .ok
      let payloadStr ← (stripPrefix payloadPart "payload=").elim (.error "Missing payload prefix") .ok
      let sender ← (deserializeNode senderStr).mapError (fun _ => "Failed to deserialize node")
      let payload ← (deserializeMessagePayload payloadStr).mapError
        (fun e => "Failed to deserialize payload: " ++ e)
      .ok { sender, payload }
  | _ => .error "Invalid serialized message format"

def tryDeserialize (serialized : List UInt8) : Except String NetworkMessage :=
  if serialized.length < 4 then
    .error "Serialized message too short to contain length prefix"
  else
    let expectedLen := fromBeBytes (serialized.take 4)
    let payloadBytes := serialized.drop 4
    if payloadBytes.length ≠ expectedLen then
      .error ("Expected message length " ++ toString expectedLen ++ ", but got " ++
        toString payloadBytes.length)
    else
      match String.fromUTF8? ⟨payloadBytes.toArray⟩ with
      | none => .error "Invalid UTF-8 sequence in payload"
      | some serializedString => deserializeString serializedString

end Serializer

end PaxosWasm
