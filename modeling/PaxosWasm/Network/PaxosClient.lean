import PaxosWasm.Network.TcpClient

/-!
# The client of the cluster

`modular-ws-client/paxos-ws-client`. The persistent client keeps a connection and a buffer for each
leader, and hands out the responses that are complete. The one-shot client takes the first chunk that
comes for the response.
-/

namespace PaxosWasm

open Library Changelog

namespace PaxosClient

def requestMessage (value : Value) : NetworkMessage :=
  { sender := { nodeId := 0, address := "123", role := .client }, payload := .clientRequest value }

/-- The response of a message from the server. -/
def response? (msg : NetworkMessage) : Option ClientResponse :=
  match msg.payload with
  | .clientResponse resp => some resp
  | _ => none

/-! ## One request -/

/-- `read_with_timeout`, over the reads until the deadline: the first chunk with something in it. -/
def readWithTimeout : InputStream → Option (List UInt8)
  | [] => none
  | .chunk bytes :: rest => if bytes = [] then readWithTimeout rest else some bytes
  | .failed :: _ => none

/-- `perform_request`. `stream` is what a new connection brings within the timeout, if there can be
one, and `writes` says whether the write succeeds. -/
def performRequest (stream : Option InputStream) (writes : Bool) (value : Value) :
    Except Trap (Option ClientResponse) :=
  match stream with
  | none => .ok none
  | some stream => do
      let _ ← (requestMessage value).serialize
      if writes = false then .ok none
      else
        match readWithTimeout stream with
        | none => .ok none
        | some buf =>
            match Serializer.tryDeserialize buf with
            | .error e => .error (.deserialize e)
            | .ok msg => .ok (response? msg)

/-! ## The persistent client -/

/-- The loop of the client: of the messages, it hands out the responses. -/
def reader : Reader ClientResponse where
  width := 32
  le_width := networkReader.le_width
  form := .native
  decode frame := (Serializer.tryDeserialize frame).map response?

/-- `Connection`, with the halves that have not been shut down. -/
structure Connection where
  input : Option InputStream
  output : Bool

end PaxosClient

/-- `MyPaxosClientResource`. -/
structure PaxosClient where
  conns : OrdMap String PaxosClient.Connection
  bufs : OrdMap String (List UInt8)

namespace PaxosClient

def new : PaxosClient := { conns := ∅, bufs := ∅ }

def ensureConn (connect : String → Option InputStream) (s : PaxosClient) (addr : String) :
    Option PaxosClient :=
  if s.conns.contains addr then some s
  else
    (connect addr).map (fun stream =>
      { s with conns := s.conns.insert addr { input := some stream, output := true } })

def evict (s : PaxosClient) (addr : String) : PaxosClient :=
  { conns := s.conns.retain (· ≠ addr), bufs := s.bufs.retain (· ≠ addr) }

/-- `send_request`: what has been written, the result and the new state. -/
def sendRequest (connect : String → Option InputStream) (outcome : Nat → Bool) (s : PaxosClient)
    (leaderAddress : String) (value : Value) : Written × Except Trap (Bool × PaxosClient) :=
  match (requestMessage value).serialize with
  | .error t => (.nothing, .error t)
  | .ok msgBytes =>
      match s.ensureConn connect leaderAddress with
      | none => (.nothing, .ok (false, s))
      | some s =>
          match s.conns.get? leaderAddress with
          | none => (.nothing, .ok (true, s))
          | some conn =>
              if conn.output then
                let w := writeWhole outcome msgBytes
                if w.ok then (w, .ok (true, s)) else (w, .ok (false, s.evict leaderAddress))
              else (.nothing, .ok (true, s))

/-- `try_receive`: the responses, whether the connection stands, and the new state. -/
def tryReceive (connect : String → Option InputStream) (s : PaxosClient) (leaderAddress : String) :
    Except Trap ((List ClientResponse × Bool) × PaxosClient) :=
  match s.ensureConn connect leaderAddress with
  | none => .ok (([], false), s)
  | some s =>
      match s.conns.get? leaderAddress with
      | none => .ok (([], true), s)
      | some conn =>
          let buf := (s.bufs.get? leaderAddress).getD []
          -- the read, with what is left to read
          let read : Option (List UInt8 × Option InputStream) :=
            match conn.input with
            | none => some ([], none)
            | some [] => some ([], some [])
            | some (.chunk bytes :: rest) => some (bytes, some rest)
            | some (.failed :: _) => none
          match read with
          | none => .ok (([], false), s.evict leaderAddress)
          | some (bytes, input) => do
              let (out, buf) ← reader.receive buf bytes
              .ok ((out, true),
                { conns := s.conns.insert leaderAddress { conn with input }
                  bufs := s.bufs.insert leaderAddress buf })

end PaxosClient

end PaxosWasm
