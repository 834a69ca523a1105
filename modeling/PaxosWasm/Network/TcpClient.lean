import PaxosWasm.Network.ClientServer

/-!
# The TCP client

`network-ws/tcp-client`, by which the nodes send to each other. It keeps a connection per address. A
message that is forgotten is written in pieces of at most `MAX_WASI_CHUNK` bytes; one that is answered
is written in one piece, whatever its length.
-/

namespace PaxosWasm

open Library Changelog

/-- The loop of the client: each frame is a message. -/
def tcpClientReader : Reader NetworkMessage where
  width := 32
  le_width := networkReader.le_width
  form := .native
  decode frame := (Serializer.tryDeserialize frame).map some

/-- `TcpClientResource`. -/
structure TcpClient where
  conns : OrdMap String InputStream
  bufs : OrdMap String (List UInt8)

namespace TcpClient

def new : TcpClient := { conns := ∅, bufs := ∅ }

/-- `ensure_conn`; `connect` says what a new connection to an address brings, if there can be one. -/
def ensureConn (connect : String → Option InputStream) (s : TcpClient) (addr : String) :
    Option TcpClient :=
  if s.conns.contains addr then some s
  else
    (connect addr).map (fun stream =>
      { conns := s.conns.insert addr stream, bufs := s.bufs.insert addr [] })

def evict (s : TcpClient) (addr : String) : TcpClient :=
  { conns := s.conns.retain (· ≠ addr), bufs := s.bufs.retain (· ≠ addr) }

/-! ## Both sends

They differ in what they read afterwards. -/

/-- The loop of both sends over the nodes: `write` writes to one of them, and `evicts` says whether a
connection where that fails is dropped. -/
def writeEach (connect : String → Option InputStream) (write : (Nat → Bool) → Written) (evicts : Bool)
    (outcome : Nat → Nat → Bool) : List Node → TcpClient → List Written × TcpClient
  | [], s => ([], s)
  | node :: nodes, s =>
      match s.ensureConn connect node.address with
      | none =>
          let (ws, s) := writeEach connect write evicts (fun i => outcome (i + 1)) nodes s
          (.nothing :: ws, s)
      | some s =>
          let w := write (outcome 0)
          let s := if evicts && !w.ok then s.evict node.address else s
          let (ws, s) := writeEach connect write evicts (fun i => outcome (i + 1)) nodes s
          (w :: ws, s)

/-- The replies of the nodes that have a connection; a failing read is passed over. -/
def readEach : List Node → TcpClient → Except Trap (List NetworkMessage × TcpClient)
  | [], s => .ok ([], s)
  | node :: nodes, s =>
      match s.conns.get? node.address with
      | none => readEach nodes s
      | some stream => do
          match ← tcpClientReader.readFrom (s.bufs.get? node.address) stream with
          | .idle rest =>
              readEach nodes { s with conns := s.conns.insert node.address rest }
          | .broken rest =>
              readEach nodes { s with conns := s.conns.insert node.address rest }
          | .taken rest msgs buf =>
              let (replies, s) ← readEach nodes
                { conns := s.conns.insert node.address rest
                  bufs := s.bufs.insert node.address buf }
              .ok (msgs ++ replies, s)

/-- `send_message`: what has been written to each node, also if the component stops later, and the
replies. -/
def sendMessage (connect : String → Option InputStream) (outcome : Nat → Nat → Bool) (s : TcpClient)
    (nodes : List Node) (message : NetworkMessage) :
    List Written × Except Trap (List NetworkMessage × TcpClient) :=
  match message.serialize with
  | .error t => ([], .error t)
  | .ok msgBytes =>
      let (ws, s) := writeEach connect (fun outcome => writeWhole outcome msgBytes) false outcome nodes s
      (ws, readEach nodes s)

/-- `send_message_forget`. -/
def sendMessageForget (connect : String → Option InputStream) (outcome : Nat → Nat → Bool)
    (s : TcpClient) (nodes : List Node) (message : NetworkMessage) :
    List Written × Except Trap TcpClient :=
  match message.serialize with
  | .error t => ([], .error t)
  | .ok msgBytes =>
      let (ws, s) :=
        writeEach connect (fun outcome => writeAllInChunks outcome msgBytes) true outcome nodes s
      (ws, .ok s)

end TcpClient

end PaxosWasm
