import PaxosWasm.Network.Unread
import PaxosWasm.Network.RoundTrip

/-!
# The network servers

`network-ws/network-server`, and its native counterpart in the runner. The component reads from its
connections when it is asked for messages, and stops at a frame that cannot be deserialized; the
native server reads in a thread of its own, skips such frames, and keeps the messages in a queue until
it is asked for them. Out of streams of readable frames, the component hands out every message.

Both servers are instances of the connections in `Inbox`, so that what they hand out is what the chunks
of each connection bring. A letter is a frame that can be read, with its message. With `Enough` requests
everything has been read, since each of them reads something as long as there is anything to read.
-/

namespace PaxosWasm

open Library Changelog

/-- A request for messages: what the listener and the map of connections make of it, and how many
messages are asked for. -/
structure Request where
  accepted : List InputStream
  order : List Nat
  max : Nat

def Request.call (r : Request) : Call :=
  { accepted := r.accepted, order := r.order, limit := some (asUsize r.max) }

namespace NetworkServer

/-- `get_messages`, each message marked with the channel it came from. -/
def getMessages (s : Inbox) (r : Request) : Except Trap (List (Nat × NetworkMessage) × Inbox) :=
  s.call networkReader true r.call

/-- `get_message`: the first of `get_messages(1)`. -/
def getMessage (s : Inbox) (r : Request) : Except Trap (Option (Nat × NetworkMessage) × Inbox) := do
  let (out, s) ← getMessages s { r with max := 1 }
  .ok (out.head?, s)

/-- The connections that the requests accept, in order: the `i`-th is channel `i + 1`. -/
def acceptedBy (requests : List Request) : List InputStream := requests.flatMap Request.accepted

theorem callEach_getMessages (s : Inbox) (requests : List Request) :
    callEach getMessages s requests = s.serve networkReader true (requests.map Request.call) :=
  (callEach_congr getMessages _ Request.call (fun _ _ => rfl) s requests).symm

theorem acceptedBy_map_call (requests : List Request) :
    Inbox.acceptedBy (requests.map Request.call) = acceptedBy requests := by
  rw [Inbox.acceptedBy, List.flatMap_map]
  rfl

end NetworkServer

/-! ## Streams of readable frames

A connection brings the frames of some letters, the last of them perhaps not to its end, in chunks of any
size. The loop gets through all of it, and what it has handed out after some of the chunks are the letters
that have come in whole. -/

/-- A frame that the deserializer reads, with its message. -/
structure Letter where
  payload : Change
  message : NetworkMessage
  reads : Serializer.tryDeserialize (Framing.frame payload) = .ok message

/-- The letter of a text that can be deserialized. -/
def Letter.ofText (text : String) (message : NetworkMessage) (hshort : text.utf8ByteSize < 2 ^ 32)
    (hreads : Serializer.deserializeString text = .ok message) : Letter where
  payload := ⟨text.toUTF8.data.toList, hshort⟩
  message
  reads := (Serializer.tryDeserialize_frame hshort).trans hreads

def Letter.heartbeat : Letter :=
  .ofText "sender=node_id:1,address:a,role:client||payload=heartbeat"
    { sender := { nodeId := 1, address := "a", role := .client }, payload := .heartbeat }
    (by decide) (by decide)

/-- The connection brings the frames of the letters, or the first part of them, cut into chunks in any
way; `size` says that they fit in the memory of a component. -/
structure Brings (stream : InputStream) (letters : List Letter) : Prop where
  noneFails : .failed ∉ stream
  bytes : bytesOf stream <+: Framing.frames (letters.map Letter.payload)
  size : (Framing.frames (letters.map Letter.payload)).length < 2 ^ 31

namespace Reader

variable {β : Type} {R : Reader β} {buf : List UInt8}

/-- The loop gets through the first part of acceptable frames. -/
theorem digests_of_prefix {ps : List Change} (hps : ∀ p ∈ ps, R.Accepts p)
    (hsize : (Framing.frames ps).length < 2 ^ (R.width - 1)) {bytes : List UInt8}
    (hbytes : bytes <+: Framing.frames ps) : R.Digests bytes := by
  have hle := hbytes.length_le
  have hcut := List.prefix_iff_eq_take.mp hbytes
  have hsplit := Framing.split_take ps bytes.length
  have hframe := Framing.header_torn ps bytes.length
  have hwhole := Framing.whole_prefix ps bytes.length
  rw [← hcut] at hsplit
  generalize Framing.whole ps bytes.length = whole at hsplit hframe hwhole
  generalize Framing.torn ps bytes.length = torn at hsplit hframe
  refine ⟨by omega, ?_, ?_⟩
  · rw [hsplit]
    exact fun p hp => hps p (hwhole.subset hp)
  · -- the length that is announced is that of a frame to come
    rw [hsplit]
    rintro ⟨hheader, hover⟩
    have hframe := hframe hheader
    change (Framing.frames whole).length + 4 + Serializer.fromBeBytes (torn.take 4) ≤ _ at hframe
    change 2 ^ R.width ≤ R.sum (Framing.frames whole).length
      (Serializer.fromBeBytes (torn.take 4)) at hover
    obtain ⟨hhalf, -⟩ := R.two_mul_half
    unfold sum at hover
    split at hover <;> omega

/-- What is left of the first part of frames is the first part of the later ones. -/
theorem unfinished_prefix {ps : List Change} {bytes more : List UInt8}
    (h : bytes ++ more <+: Framing.frames ps) :
    ∃ later, later <:+ ps ∧ unfinished bytes ++ more <+: Framing.frames later := by
  obtain ⟨qs, hqs⟩ := h
  have hcut : bytes = (Framing.frames ps).take bytes.length := by
    rw [← hqs, List.append_assoc, List.take_left]
  have hsplit := Framing.split_take ps bytes.length
  have hrest := (Framing.split_spec (F := u32Frames) bytes).1
  obtain ⟨later, hlater⟩ := Framing.whole_prefix ps bytes.length
  rw [← hcut] at hsplit
  generalize Framing.whole ps bytes.length = whole at hsplit hlater
  generalize Framing.torn ps bytes.length = torn at hsplit
  rw [hsplit] at hrest
  refine ⟨later, ⟨_, hlater⟩, qs, ?_⟩
  rw [hrest, ← hlater, Framing.frames_append, List.append_assoc, List.append_assoc] at hqs
  rw [unfinished, hsplit, List.append_assoc]
  exact List.append_cancel_left hqs

/-- **The loop gets through a part of acceptable frames**, however it is cut into chunks. -/
theorem digestsAll_of_prefix {ps : List Change} (hps : ∀ p ∈ ps, R.Accepts p)
    (hsize : (Framing.frames ps).length < 2 ^ (R.width - 1)) (hbuf : u32Frames.Incomplete buf)
    {stream : List Read} (hstream : buf ++ bytesOf stream <+: Framing.frames ps) :
    R.DigestsAll buf stream := by
  induction stream generalizing buf ps with
  | nil => exact trivial
  | cons r stream ih =>
      cases r with
      | failed => exact trivial
      | chunk bytes =>
          rw [bytesOf_chunk, ← List.append_assoc] at hstream
          obtain ⟨later, hlater, hnext⟩ := unfinished_prefix hstream
          have hshort : (Framing.frames later).length ≤ (Framing.frames ps).length := by
            obtain ⟨before, rfl⟩ := hlater
            rw [Framing.frames_append, List.length_append]
            omega
          exact ⟨fun _ => digests_of_prefix hps hsize ((List.prefix_append _ _).trans hstream),
            ih (fun p hp => hps p (hlater.subset hp)) (by omega) (incomplete_unfinished _) hnext⟩

end Reader

theorem message_letter (l : Letter) : networkReader.message l.payload = some l.message := by
  show ((Serializer.tryDeserialize _).map some).toOption.join = _
  rw [l.reads]
  rfl

theorem messages_letters (letters : List Letter) :
    networkReader.messages (letters.map Letter.payload) = letters.map Letter.message := by
  induction letters with
  | nil => rfl
  | cons l letters ih =>
      rw [List.map_cons, Reader.messages_cons, message_letter, ih]
      rfl

theorem Letter.readable (l : Letter) : Readable l.payload := by
  rw [Readable, l.reads]
  rfl

theorem Brings.digestsAll {stream : InputStream} {letters : List Letter} (h : Brings stream letters) :
    networkReader.DigestsAll [] stream := by
  refine Reader.digestsAll_of_prefix ?_ h.size Framing.incomplete_nil h.bytes
  intro p hp
  obtain ⟨l, -, rfl⟩ := List.mem_map.mp hp
  exact (accepts_networkReader _).mpr l.readable

/-- The part of a stream that has been read consists of whole letters and the start of the next. -/
theorem Brings.split {seen rest : List Read} {letters : List Letter}
    (h : Brings (seen ++ rest) letters) :
    ∃ delivered coming, letters = delivered ++ coming ∧
      (u32Frames.split (bytesOf seen)).1 = delivered.map Letter.payload ∧
      unfinished (bytesOf seen) ++ bytesOf rest <+: Framing.frames (coming.map Letter.payload) := by
  have hseen : .failed ∉ seen := fun hf => h.noneFails (List.mem_append_left _ hf)
  obtain ⟨more, hmore⟩ := h.bytes
  rw [bytesOf_append hseen, List.append_assoc] at hmore
  have hcut : bytesOf seen =
      (Framing.frames (letters.map Letter.payload)).take (bytesOf seen).length := by
    rw [← hmore, List.take_left]
  have hsplit := Framing.split_take (letters.map Letter.payload) (bytesOf seen).length
  obtain ⟨later, hlater⟩ := Framing.whole_prefix (letters.map Letter.payload) (bytesOf seen).length
  rw [← hcut] at hsplit
  obtain ⟨delivered, coming, rfl, hdelivered, -⟩ := List.map_eq_append_iff.mp hlater.symm
  have hfirst : (u32Frames.split (bytesOf seen)).1 = delivered.map Letter.payload := by
    rw [hsplit, hdelivered]
  refine ⟨delivered, coming, rfl, hfirst, more, ?_⟩
  have hspec := (Framing.split_spec (F := u32Frames) (bytesOf seen)).1
  rw [hfirst] at hspec
  rw [hspec, List.map_append, Framing.frames_append, List.append_assoc] at hmore
  rw [List.append_assoc]
  exact List.append_cancel_left hmore

namespace NetworkServer

/-! ## What the server hands out

The server reads at most once from each connection in a request. So it takes as many requests as there
are chunks to come until all has been handed out. -/

/-- **Enough requests**: behind the last connection that is accepted come as many requests as all the
connections bring chunks. -/
def Enough (requests : List Request) : Prop :=
  ∃ earlier later, requests = earlier ++ later ∧ acceptedBy later = [] ∧
    ((acceptedBy earlier).map List.length).sum ≤ later.length

theorem Enough.calls {requests : List Request} (h : Enough requests) :
    Inbox.Enough (requests.map Request.call) := by
  obtain ⟨earlier, later, rfl, hnone, hlength⟩ := h
  refine ⟨earlier.map Request.call, later.map Request.call, List.map_append, ?_, ?_⟩
  · rw [acceptedBy_map_call, hnone]
  · rw [Inbox.readsOf, acceptedBy_map_call, List.length_map]
    exact hlength

/-- **The network server loses and invents nothing.** Whatever connections it has accepted, however
their bytes are cut into chunks, in whatever order it reads the connections and however many messages
it is asked for at a time: of a connection that brings letters, it has handed out those that are
complete in the bytes read so far, in order, and what is in the buffer is the start of the next. Each
request reads something if there is anything to read, so after enough of them everything has been read;
and then it has handed out all the letters. -/
theorem getMessages_delivers {requests : List Request}
    (hbrings : ∀ stream ∈ acceptedBy requests, ∃ letters, Brings stream letters) :
    ∃ outs s, callEach getMessages .new requests = .ok (outs, s) ∧
      ∀ i stream letters, (acceptedBy requests)[i]? = some stream → Brings stream letters →
        ∃ seen rest delivered coming buffer, stream = seen ++ rest ∧ letters = delivered ++ coming ∧
          onChan (i + 1) outs.flatten = delivered.map Letter.message ∧
          s.Live (i + 1) buffer rest ∧
          bytesOf seen = Framing.frames (delivered.map Letter.payload) ++ buffer ∧
          u32Frames.Incomplete buffer ∧
          (Enough requests → rest = []) ∧
          (rest = [] → bytesOf stream = Framing.frames (letters.map Letter.payload) → coming = []) := by
  rw [callEach_getMessages]
  obtain ⟨outs, s, hserve⟩ : ∃ outs s,
      Inbox.new.serve networkReader true (requests.map Request.call) = .ok (outs, s) := by
    refine Inbox.ready_new.serve true (fun stream hmem => ?_)
    rw [acceptedBy_map_call] at hmem
    obtain ⟨letters, hletters⟩ := hbrings stream hmem
    exact hletters.digestsAll
  refine ⟨outs, s, hserve, fun i stream letters hi hletters => ?_⟩
  rw [← acceptedBy_map_call] at hi
  have hread := Inbox.readUpTo_accepted Inbox.numbered_new hserve hi
  rw [show Inbox.new.nextChan + i = i + 1 from Nat.add_comm 1 i] at hread
  obtain ⟨seen, rest, rfl, -, hgains, halive, -⟩ := hread
  have hseen : .failed ∉ seen := fun hf => hletters.noneFails (List.mem_append_left _ hf)
  obtain ⟨delivered, coming, rfl, hdelivered, hcoming⟩ := hletters.split
  have hspec := (Framing.split_spec (F := u32Frames) (bytesOf seen)).1
  rw [hdelivered] at hspec
  refine ⟨seen, rest, delivered, coming, unfinished (bytesOf seen), rfl, rfl, ?_, halive hseen, hspec,
    incomplete_unfinished _, fun henough => ?_, ?_⟩
  · rw [onChan_flatten, Inbox.flatten_eq_of_filter hgains,
      Reader.flatten_deliveries Framing.incomplete_nil, List.nil_append, hdelivered, messages_letters]
  · exact Inbox.exhausted_of_serve hserve henough.calls (i + 1) rest (halive hseen).1
  · rintro rfl hall
    rw [List.append_nil, hspec, List.map_append, Framing.frames_append] at hall
    have hcoming := List.append_cancel_left hall
    have hrest := incomplete_unfinished (bytesOf seen)
    rw [unfinished, hcoming] at hrest
    exact List.map_eq_nil_iff.mp (Framing.eq_nil_of_incomplete_frames hrest)

/-! ### A heartbeat in two chunks -/

/-- A heartbeat in two chunks, the first with three bytes of the header. -/
def tornHeartbeat : InputStream :=
  [.chunk ((Framing.frame Letter.heartbeat.payload).take 3),
    .chunk ((Framing.frame Letter.heartbeat.payload).drop 3)]

/-- Three requests hand it out. -/
theorem getMessages_delivers_heartbeat :
    ∃ outs s, callEach getMessages .new [⟨[tornHeartbeat], [], 1⟩, ⟨[], [], 1⟩, ⟨[], [], 1⟩] =
        .ok (outs, s) ∧
      onChan 1 outs.flatten = [Letter.heartbeat.message] ∧ s.Live 1 [] [] := by
  have hbytes : bytesOf tornHeartbeat = Framing.frames [Letter.heartbeat.payload] := by
    rw [tornHeartbeat, bytesOf_chunk, bytesOf_chunk, bytesOf_nil, List.append_nil,
      List.take_append_drop]
    simp
  have hbrings : Brings tornHeartbeat [.heartbeat] := by
    refine ⟨by simp [tornHeartbeat], ?_, by decide⟩
    rw [hbytes]
    exact List.prefix_refl _
  obtain ⟨outs, s, hcalls, hconns⟩ := @getMessages_delivers
    [⟨[tornHeartbeat], [], 1⟩, ⟨[], [], 1⟩, ⟨[], [], 1⟩]
    (fun stream hmem => ⟨[.heartbeat], by
      obtain rfl : stream = _ := by simpa [acceptedBy] using hmem
      exact hbrings⟩)
  obtain ⟨seen, rest, delivered, coming, buffer, hsplit, hletters, hout, hlive, hseen, -, hread, hall⟩ :=
    hconns 0 _ _ rfl hbrings
  obtain rfl := hread ⟨[⟨[tornHeartbeat], [], 1⟩], [⟨[], [], 1⟩, ⟨[], [], 1⟩], rfl, rfl, by decide⟩
  obtain rfl := hall rfl hbytes
  rw [List.append_nil] at hsplit hletters
  subst hsplit hletters
  have hempty : buffer = [] := by
    rw [hbytes] at hseen
    exact List.append_cancel_left (hseen.symm.trans (List.append_nil _).symm)
  subst hempty
  exact ⟨outs, s, hcalls, hout, hlive⟩

end NetworkServer

/-! ## The native server

Its thread accepts at most one connection at a turn and reads from all of them; the messages wait in a
queue, which the requests empty. The loop is the same but for the frames it cannot deserialize: it skips
them. -/

/-- `NativeTcpServer`: what its thread keeps, and the queue. -/
structure NativeTcpServer where
  inbox : Inbox
  messages : List (Nat × NetworkMessage)

namespace NativeTcpServer

def new : NativeTcpServer := { inbox := .new, messages := [] }

/-- What happens to the server: a turn of its thread, which accepts at most one connection, or a
request for messages. -/
inductive Event where
  | turn (accepted : Option InputStream) (order : List Nat)
  | getMessages (max : Nat)

def turnCall (accepted : Option InputStream) (order : List Nat) : Call :=
  { accepted := accepted.toList, order, limit := none }

/-- An event, and the messages it hands out. -/
def step (s : NativeTcpServer) : Event → Except Trap (List (Nat × NetworkMessage) × NativeTcpServer)
  | .turn accepted order => do
      let (out, inbox) ← s.inbox.call nativeReader true (turnCall accepted order)
      .ok ([], { inbox, messages := s.messages ++ out })
  | .getMessages max =>
      let take := min max s.messages.length
      .ok (s.messages.take take, { s with messages := s.messages.drop take })

/-- The calls of the thread among the events. -/
def calls (events : List Event) : List Call :=
  events.filterMap (fun
    | .turn accepted order => some (turnCall accepted order)
    | .getMessages _ => none)

/-- The connections that the thread accepts, in order. -/
def acceptedBy (events : List Event) : List InputStream := Inbox.acceptedBy (calls events)

/-- What the server has handed out and what waits in the queue is what the thread has put there. -/
theorem thread_serves {s s' : NativeTcpServer} {events : List Event}
    {outs : List (List (Nat × NetworkMessage))} (h : callEach step s events = .ok (outs, s')) :
    ∃ puts, s.inbox.serve nativeReader true (calls events) = .ok (puts, s'.inbox) ∧
      outs.flatten ++ s'.messages = s.messages ++ puts.flatten := by
  induction events generalizing s outs with
  | nil =>
      obtain ⟨rfl, rfl⟩ := Prod.mk.inj (Except.ok.inj h)
      exact ⟨[], rfl, by simp⟩
  | cons e events ih =>
      obtain ⟨out, s₁, rest, hstep, hrest, rfl⟩ := callEach_cons h
      obtain ⟨puts, hserve, hputs⟩ := ih hrest
      rw [List.flatten_cons, List.append_assoc, hputs]
      cases e with
      | turn accepted order =>
          simp only [step, bind, Except.bind] at hstep
          split at hstep
          · cases hstep
          · next r hcall =>
            obtain ⟨put, inbox⟩ := r
            obtain ⟨rfl, rfl⟩ := Prod.mk.inj (Except.ok.inj hstep)
            refine ⟨put :: puts, ?_, by simp⟩
            have hcalls : calls (.turn accepted order :: events) =
                turnCall accepted order :: calls events := rfl
            rw [hcalls, Inbox.serve, callEach, hcall]
            simp only [bind, Except.bind]
            rw [Inbox.serve] at hserve
            rw [hserve]
      | getMessages max =>
          obtain ⟨rfl, rfl⟩ := Prod.mk.inj (Except.ok.inj hstep)
          refine ⟨puts, hserve, ?_⟩
          rw [← List.append_assoc, List.take_append_drop]

/-- The loop of the native server gets through everything that fits in its memory. -/
theorem digestsAll_nativeReader {buf : List UInt8} {stream : List Read}
    (h : (buf ++ bytesOf stream).length < 2 ^ 63) : nativeReader.DigestsAll buf stream := by
  induction stream generalizing buf with
  | nil => exact trivial
  | cons r stream ih =>
      cases r with
      | failed => exact trivial
      | chunk bytes =>
          rw [bytesOf_chunk, ← List.append_assoc, List.length_append] at h
          have hlength := Framing.length_split (F := u32Frames) (buf ++ bytes)
          refine ⟨fun _ => ⟨?_, fun _ _ => accepts_nativeReader _, ?_⟩, ih ?_⟩
          · show (buf ++ bytes).length < 2 ^ 63
            omega
          · rintro ⟨hheader, hover⟩
            have hlen : u32Frames.value ((u32Frames.split (buf ++ bytes)).2.take 4) < 2 ^ 32 :=
              u32Frames.value_lt _ (List.length_take_of_le hheader)
            change 2 ^ 64 ≤ _ + 4 + u32Frames.value _ at hover
            omega
          · rw [List.length_append, unfinished]
            omega

/-- **The native server never stops.** -/
theorem step_returns {events : List Event}
    (h : ∀ stream ∈ acceptedBy events, (bytesOf stream).length < 2 ^ 63) :
    ∃ outs s, callEach step .new events = .ok (outs, s) := by
  suffices hgen : ∀ s : NativeTcpServer, s.inbox.Ready nativeReader →
      ∃ outs s', callEach step s events = .ok (outs, s') from hgen new Inbox.ready_new
  intro s hs
  induction events generalizing s with
  | nil => exact ⟨[], s, rfl⟩
  | cons e events ih =>
      rw [callEach]
      cases e with
      | getMessages max =>
          obtain ⟨outs, s', hrest⟩ := ih h { s with messages := s.messages.drop _ } hs
          simp only [step, bind, Except.bind]
          rw [hrest]
          exact ⟨_, _, rfl⟩
      | turn accepted order =>
          have hcalls : acceptedBy (.turn accepted order :: events) =
              accepted.toList ++ acceptedBy events := rfl
          rw [hcalls] at h
          obtain ⟨out, inbox, hcall, hready⟩ : ∃ out inbox,
              s.inbox.call nativeReader true (turnCall accepted order) = .ok (out, inbox) ∧
                inbox.Ready nativeReader :=
            hs.call true
              (fun stream hmem => digestsAll_nativeReader (h stream (List.mem_append_left _ hmem)))
          obtain ⟨outs, s', hrest⟩ :=
            ih (fun stream hmem => h stream (List.mem_append_right _ hmem))
              { inbox, messages := s.messages ++ out } hready
          simp only [step, bind, Except.bind]
          rw [hcall]
          dsimp only
          rw [hrest]
          exact ⟨_, _, rfl⟩

end NativeTcpServer

/-! ## The two compared

Over one stream each of the two is described by its own loop, in whatever order its connections are read.
Where the network server's loop stops, there are requests at which the component stops. -/

/-- The two loops make the same of every frame. -/
theorem messages_nativeReader (ps : List Change) :
    nativeReader.messages ps = networkReader.messages ps := by
  refine congrArg (fun f => ps.filterMap f) (funext fun p => ?_)
  show (Except.ok (Serializer.tryDeserialize (Framing.frame p)).toOption).toOption.join =
    ((Serializer.tryDeserialize (Framing.frame p)).map some).toOption.join
  cases Serializer.tryDeserialize (Framing.frame p) <;> rfl

namespace NetworkServer

/-- On these streams, the network server returns from all calls, and has always handed out of a
connection what the native server has when that has read the same bytes. -/
def AgreesWithNative (streams : List InputStream) : Prop :=
  ∀ requests, acceptedBy requests = streams →
    ∃ outs s, callEach getMessages .new requests = .ok (outs, s) ∧
      ∀ events outs' s', callEach NativeTcpServer.step .new events = .ok (outs', s') →
        ∀ i j stream stream', streams[i]? = some stream →
          (NativeTcpServer.acceptedBy events)[j]? = some stream' →
          Inbox.received stream s (i + 1) = Inbox.received stream' s'.inbox (j + 1) →
          onChan (i + 1) outs.flatten = onChan (j + 1) (outs'.flatten ++ s'.messages)

theorem AgreesWithNative.digestsAll {streams : List InputStream} (h : AgreesWithNative streams) :
    ∀ stream ∈ streams, networkReader.DigestsAll [] stream := by
  intro stream hmem
  obtain ⟨i, hi⟩ := List.mem_iff_getElem?.mp hmem
  have hreturns : ∀ n, ∃ r, Inbox.new.serve networkReader true
      ({ accepted := streams, order := [], limit := some 1 } ::
        List.replicate n (Inbox.readFirst (some 1) (Inbox.new.nextChan + i))) = .ok r := by
    intro n
    obtain ⟨outs, s, hserve, -⟩ := h (⟨streams, [], 1⟩ :: List.replicate n ⟨[], [1 + i], 1⟩)
      (by simp [acceptedBy, List.flatMap_replicate])
    rw [callEach_getMessages, List.map_cons, List.map_replicate] at hserve
    exact ⟨_, hserve⟩
  exact Inbox.digestsAll_of_returns hi hreturns

/-- **The network server and the native one** agree if and only if the loop of the first gets through
every chunk of every connection until a read fails. -/
theorem agrees_with_native_iff (streams : List InputStream) :
    AgreesWithNative streams ↔ ∀ stream ∈ streams, networkReader.DigestsAll [] stream := by
  constructor
  · exact AgreesWithNative.digestsAll
  · rintro hdigests requests rfl
    rw [callEach_getMessages]
    obtain ⟨outs, s, hserve⟩ : ∃ outs s,
        Inbox.new.serve networkReader true (requests.map Request.call) = .ok (outs, s) :=
      Inbox.ready_new.serve true (fun stream hmem => hdigests stream (acceptedBy_map_call _ ▸ hmem))
    refine ⟨outs, s, hserve, fun events outs' s' hnative i j stream stream' hi hj hbytes => ?_⟩
    obtain ⟨puts, hputs, hqueue⟩ := NativeTcpServer.thread_serves hnative
    rw [← acceptedBy_map_call] at hi
    have hread := (Inbox.readUpTo_accepted Inbox.numbered_new hserve hi).flatten
    have hread' := (Inbox.readUpTo_accepted Inbox.numbered_new hputs hj).flatten
    rw [show Inbox.new.nextChan + i = i + 1 from Nat.add_comm 1 i] at hread
    rw [show Inbox.new.nextChan + j = j + 1 from Nat.add_comm 1 j] at hread'
    rw [hqueue, NativeTcpServer.new, List.nil_append, onChan_flatten, onChan_flatten, hread, hread',
      messages_nativeReader, hbytes]

/-- **An empty frame** stops the component: its text is no message. -/
theorem empty_frame_stops : ¬ ∀ streams, AgreesWithNative streams := by
  intro h
  have hdigests := (h [[.chunk [0, 0, 0, 0]]]).digestsAll _ (List.mem_cons_self ..)
  have hframe : u32Frames.split [0, 0, 0, 0] = ([⟨[], by decide⟩], []) := by
    have hbytes : Framing.frames (F := u32Frames) [⟨[], by decide⟩] = [0, 0, 0, 0] := by decide
    rw [← hbytes]
    exact Framing.split_frames _
  have haccepts := (hdigests.1 (by decide)).accepts
  rw [List.nil_append, hframe] at haccepts
  have hreadable := (accepts_networkReader _).mp (haccepts _ (List.mem_cons_self ..))
  have hbad : Serializer.tryDeserialize [0, 0, 0, 0] =
      .error "Invalid serialized message format" :=
    (@Serializer.tryDeserialize_frame "" (by decide)).trans (by decide)
  change (Serializer.tryDeserialize [0, 0, 0, 0]).isOk = true at hreadable
  rw [hbad] at hreadable
  cases hreadable

end NetworkServer

end PaxosWasm
