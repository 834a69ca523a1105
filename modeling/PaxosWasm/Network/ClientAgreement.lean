import PaxosWasm.Network.PaxosClient

/-!
# The two clients

The persistent client collects the bytes of its reads until there is a full frame: however the server's
frames are cut into chunks, it hands out their responses (`tryReceive_delivers`). The one-shot client
decodes the first chunk that comes, and gets the response only if that chunk is the whole frame.

For the persistent client an invariant over its calls says which bytes it has and which are to come
(`Awaits`). The one-shot client makes a single call that can be computed. `clients_agree_iff` compares
them for one response: they agree if the first chunk with something in it is all of it, and a response
in two chunks is the difference.
-/

namespace PaxosWasm

open Library Changelog

namespace PaxosClient

variable {connect : String → Option InputStream} {s s' : PaxosClient} {addr : String}
  {buf : List UInt8} {stream : InputStream}

/-! ## The persistent client

It keeps its connection and what it has read of a frame, until the frame is complete. -/

/-- The connection to the server, open or about to be opened, has `stream` to come behind the bytes
`buf`. -/
def Awaits (connect : String → Option InputStream) (addr : String) (buf : List UInt8)
    (stream : InputStream) (s : PaxosClient) : Prop :=
  (s.bufs.get? addr).getD [] = buf ∧
    match s.conns.get? addr with
    | some conn => conn.input = some stream
    | none => connect addr = some stream

/-- Connecting does not read. -/
theorem Awaits.ensureConn (h : s.Awaits connect addr buf stream) :
    ∃ s₁ conn, s.ensureConn connect addr = some s₁ ∧ s₁.conns.get? addr = some conn ∧
      conn.input = some stream ∧ (s₁.bufs.get? addr).getD [] = buf := by
  obtain ⟨hbuf, hconn⟩ := h
  unfold PaxosClient.ensureConn
  cases hget : s.conns.get? addr with
  | some conn =>
      rw [hget] at hconn
      rw [if_pos (OrdMap.contains_iff.mpr ⟨conn, hget⟩)]
      exact ⟨s, conn, rfl, hget, hconn, hbuf⟩
  | none =>
      rw [hget] at hconn
      have hclosed : ¬ s.conns.contains addr = true := by
        rw [OrdMap.contains_iff, hget]
        rintro ⟨_, h⟩
        cases h
      rw [if_neg hclosed, hconn]
      exact ⟨_, _, rfl, OrdMap.get?_insert_self .., rfl, hbuf⟩

/-- A request that has been sent leaves what is to come as it is. -/
theorem Awaits.sendRequest {outcome : Nat → Bool} {value : Value} {w : Written}
    (h : s.Awaits connect addr buf stream)
    (hsend : s.sendRequest connect outcome addr value = (w, .ok (true, s'))) :
    s'.Awaits connect addr buf stream := by
  obtain ⟨s₁, conn, hensure, hget, hinput, hbuf⟩ := h.ensureConn
  have hawaits : s₁.Awaits connect addr buf stream := by
    refine ⟨hbuf, ?_⟩
    rw [hget]
    exact hinput
  unfold PaxosClient.sendRequest at hsend
  split at hsend
  · cases (Prod.mk.inj hsend).2
  · rw [hensure] at hsend
    dsimp only at hsend
    rw [hget] at hsend
    dsimp only at hsend
    split at hsend
    · split at hsend
      · obtain ⟨-, rfl⟩ := Prod.mk.inj (Except.ok.inj (Prod.mk.inj hsend).2)
        exact hawaits
      · have hfalse := (Prod.mk.inj (Except.ok.inj (Prod.mk.inj hsend).2)).1
        cases hfalse
    · obtain ⟨-, rfl⟩ := Prod.mk.inj (Except.ok.inj (Prod.mk.inj hsend).2)
      exact hawaits

/-- **One receive** takes in the next chunk, if one has arrived. -/
theorem tryReceive_eq (h : s.Awaits connect addr buf stream) (hnone : .failed ∉ stream) :
    ∃ next : List UInt8 → PaxosClient,
      (∀ buf', (next buf').Awaits connect addr buf' stream.tail) ∧
      s.tryReceive connect addr =
        (reader.receive buf (bytesOf (stream.take 1))).map
          (fun (out, buf') => ((out, true), next buf')) := by
  obtain ⟨s₁, conn, hensure, hget, hinput, hbuf⟩ := h.ensureConn
  refine ⟨fun buf' => { conns := s₁.conns.insert addr { conn with input := some stream.tail }
                        bufs := s₁.bufs.insert addr buf' }, fun buf' => ?_, ?_⟩
  · simp [Awaits]
  · unfold tryReceive
    rw [hensure]
    dsimp only
    rw [hget]
    dsimp only
    rw [hinput, hbuf]
    match stream, hnone with
    | [], _ =>
        rw [List.take_nil, bytesOf_nil]
        dsimp only
        cases reader.receive buf [] <;> rfl
    | .chunk bytes :: rest, _ =>
        rw [List.take_succ_cons, List.take_zero, bytesOf_chunk, bytesOf_nil, List.append_nil]
        dsimp only
        cases reader.receive buf bytes <;> rfl
    | .failed :: rest, hnone => simp at hnone

/-- The calls of `try_receive`, one after the other: the responses, and whether the connection
stands. -/
def receives (connect : String → Option InputStream) (addr : String) (s : PaxosClient) (n : Nat) :
    Except Trap (List (List ClientResponse × Bool) × PaxosClient) :=
  callEach (fun s (_ : Unit) => s.tryReceive connect addr) s (List.replicate n ())

/-- The responses that some calls have handed out. -/
def handedOut (outs : List (List ClientResponse × Bool)) : List ClientResponse :=
  (outs.map Prod.fst).flatten

/-- **The persistent client hands out what arrives**: however the frames of the server are cut into
chunks, the calls hand out the responses of the frames that are complete. -/
theorem tryReceive_delivers {ps : List Change} (hps : ∀ p ∈ ps, reader.Accepts p)
    (hsize : (Framing.frames ps).length < 2 ^ 31) (hnone : .failed ∉ stream)
    (hbuf : u32Frames.Incomplete buf) (hbytes : buf ++ bytesOf stream <+: Framing.frames ps)
    (h : s.Awaits connect addr buf stream) (n : Nat) :
    ∃ outs s', receives connect addr s n = .ok (outs, s') ∧
      handedOut outs = reader.messages (u32Frames.split (buf ++ bytesOf (stream.take n))).1 := by
  induction n generalizing s buf stream ps with
  | zero =>
      refine ⟨[], s, rfl, ?_⟩
      rw [List.take_zero, bytesOf_nil, List.append_nil, Framing.split_of_incomplete hbuf]
      rfl
  | succ n ih =>
      obtain ⟨next, hnext, heq⟩ := tryReceive_eq h hnone
      -- the bytes of the first read, and those to come
      have hcut : bytesOf stream = bytesOf (stream.take 1) ++ bytesOf stream.tail := by
        have happend : stream = stream.take 1 ++ stream.tail := by
          rw [← List.drop_one, List.take_append_drop]
        conv_lhs => rw [happend]
        exact bytesOf_append (fun hmem => hnone (List.mem_of_mem_take hmem)) _
      have htake : bytesOf (stream.take (n + 1)) =
          bytesOf (stream.take 1) ++ bytesOf (stream.tail.take n) := by
        have happend : stream.take (n + 1) = stream.take 1 ++ stream.tail.take n := by
          cases stream with
          | nil => simp
          | cons r rest => simp
        rw [happend]
        exact bytesOf_append (fun hmem => hnone (List.mem_of_mem_take hmem)) _
      rw [hcut, ← List.append_assoc] at hbytes
      have hdigests := Reader.digests_of_prefix hps hsize ((List.prefix_append _ _).trans hbytes)
      have hreceive := Reader.receive_eq_ok_iff.mpr ⟨hdigests, rfl⟩
      rw [hreceive] at heq
      -- what the first read leaves unfinished begins the frames to come
      obtain ⟨later, hlater, hrest⟩ := Reader.unfinished_prefix hbytes
      have hshort : (Framing.frames later).length ≤ (Framing.frames ps).length := by
        obtain ⟨before, rfl⟩ := hlater
        rw [Framing.frames_append, List.length_append]
        omega
      obtain ⟨outs, s', houts, hmsgs⟩ := ih (fun p (hp : p ∈ later) => hps p (hlater.subset hp))
        (by omega) (fun hmem => hnone (List.mem_of_mem_tail hmem)) (incomplete_unfinished _) hrest
        (hnext (unfinished (buf ++ bytesOf (stream.take 1))))
      refine ⟨(reader.messages (u32Frames.split (buf ++ bytesOf (stream.take 1))).1, true) :: outs,
        s', ?_, ?_⟩
      · unfold receives at houts ⊢
        rw [List.replicate_succ, callEach, heq]
        simp only [Except.map, bind, Except.bind]
        unfold unfinished at houts
        rw [houts]
      · unfold handedOut at hmsgs ⊢
        rw [List.map_cons, List.flatten_cons, hmsgs, htake, ← List.append_assoc,
          Framing.split_append (buf ++ bytesOf (stream.take 1)), Reader.messages_append]
        rfl

/-! ## The one-shot client

It takes the first chunk with something in it for the whole frame. -/

theorem chunk_of_readWithTimeout {bytes : List UInt8} (h : readWithTimeout stream = some bytes) :
    .chunk bytes ∈ stream ∧ bytes ≠ [] ∧ bytes <+: bytesOf stream := by
  induction stream with
  | nil => cases h
  | cons r rest ih =>
      cases r with
      | failed => cases h
      | chunk first =>
          unfold readWithTimeout at h
          split at h
          · next hempty =>
            subst hempty
            obtain ⟨hmem, hne, hfront⟩ := ih h
            exact ⟨List.mem_cons_of_mem _ hmem, hne, hfront⟩
          · next hne =>
            obtain rfl := Option.some.inj h
            exact ⟨List.mem_cons_self .., hne, List.prefix_append _ _⟩

/-- Behind a first chunk with something in it there is none with all the bytes. -/
theorem eq_nil_of_chunk_mem {first : List UInt8} (hnone : .failed ∉ stream)
    (h : .chunk (first ++ bytesOf stream) ∈ stream) : first = [] := by
  obtain ⟨before, behind, heq⟩ := List.append_of_mem h
  have hlength := congrArg (fun reads => (bytesOf reads).length) heq
  rw [heq] at hnone
  rw [bytesOf_append (fun hmem => hnone (List.mem_append_left _ hmem)), bytesOf_chunk,
    List.length_append, List.length_append, List.length_append] at hlength
  exact List.length_eq_zero_iff.mp (by omega)

/-- A chunk with all the bytes of a stream is the first with something in it. -/
theorem readWithTimeout_of_chunk (hnone : .failed ∉ stream) (hne : bytesOf stream ≠ [])
    (h : .chunk (bytesOf stream) ∈ stream) : readWithTimeout stream = some (bytesOf stream) := by
  induction stream with
  | nil => cases h
  | cons r rest ih =>
      cases r with
      | failed => simp at hnone
      | chunk first =>
          have hrest : .failed ∉ rest := by simpa using hnone
          rw [bytesOf_chunk] at h hne ⊢
          unfold readWithTimeout
          by_cases hempty : first = []
          · subst hempty
            rw [if_pos rfl]
            refine ih hrest hne ?_
            rcases List.mem_cons.mp h with he | h
            · have he : bytesOf rest = [] := by simpa using he
              exact absurd he hne
            · exact h
          · rw [if_neg hempty]
            rcases List.mem_cons.mp h with he | h
            · rw [Read.chunk.inj he]
            · exact absurd (eq_nil_of_chunk_mem hrest h) hempty

/-- A frame that is cut short cannot be deserialized. -/
theorem tryDeserialize_of_incomplete {bytes : List UInt8} (h : u32Frames.Incomplete bytes) :
    ∃ e, Serializer.tryDeserialize bytes = .error e := by
  unfold Serializer.tryDeserialize
  by_cases hshort : bytes.length < 4
  · rw [if_pos hshort]
    exact ⟨_, rfl⟩
  · have hcut : (bytes.drop 4).length < Serializer.fromBeBytes (bytes.take 4) :=
      h (Nat.le_of_not_lt hshort)
    rw [if_neg hshort, if_pos hcut.ne]
    exact ⟨_, rfl⟩

/-! ## The two of them -/

variable {p : Change} {msg : NetworkMessage} {resp : ClientResponse} {value : Value}

/-- The one-shot client gets the response exactly if the request can be written and one read brings the
whole frame. -/
theorem performRequest_iff (hmsg : Serializer.tryDeserialize (Framing.frame p) = .ok msg)
    (hresp : response? msg = some resp) (hnone : .failed ∉ stream)
    (hbytes : bytesOf stream = Framing.frame p) :
    performRequest (some stream) true value = .ok (some resp) ↔
      (requestMessage value).serialize.isOk = true ∧ .chunk (Framing.frame p) ∈ stream := by
  have hne : bytesOf stream ≠ [] := by
    rw [hbytes, ← List.length_pos_iff, Framing.length_frame]
    exact Nat.add_pos_left u32Frames.width_pos _
  unfold performRequest
  cases hserialize : (requestMessage value).serialize with
  | error t =>
      refine iff_of_false (fun h => ?_) (fun h => ?_)
      · cases h
      · cases h.1
  | ok bytes =>
      simp only [bind, Except.bind, Bool.true_eq_false, if_false, Except.isOk, Except.toBool, true_and]
      constructor
      · intro h
        split at h
        · cases h
        · next chunk hread =>
          obtain ⟨hmem, hchunk, hfront⟩ := chunk_of_readWithTimeout hread
          rw [hbytes] at hfront
          have hcut := List.prefix_iff_eq_take.mp hfront
          rcases hfront.length_le.eq_or_lt with he | hlt
          · rwa [← hfront.eq_of_length he]
          · -- the start of the frame
            have hincomplete := Framing.incomplete_take_frame p hlt
            rw [← hcut] at hincomplete
            obtain ⟨e, herror⟩ := tryDeserialize_of_incomplete hincomplete
            rw [herror] at h
            cases h
      · intro hmem
        rw [← hbytes] at hmem
        rw [readWithTimeout_of_chunk hnone hne hmem, hbytes]
        dsimp only
        rw [hmsg, ← hresp]

/-! ### Agreement

The one-shot client takes the first chunk with something in it for the whole response. The persistent one
waits for the rest of the frame. -/

/-- The one-shot client gets the response of what the server sends, and so does the persistent client,
once, from its calls after the request. -/
def ClientsAgree (value : Value) (stream : InputStream) (resp : ClientResponse) : Prop :=
  performRequest (some stream) true value = .ok (some resp) ∧
    ∀ connect addr (s s' : PaxosClient) outcome w, s.Awaits connect addr [] stream →
      s.sendRequest connect outcome addr value = (w, .ok (true, s')) →
      ∀ n, stream.length ≤ n → ∃ outs s'', receives connect addr s' n = .ok (outs, s'') ∧
        handedOut outs = [resp]

theorem message_of_response (hmsg : Serializer.tryDeserialize (Framing.frame p) = .ok msg)
    (hresp : response? msg = some resp) : reader.Accepts p ∧ reader.message p = some resp := by
  have hdecode : reader.decode (Framing.frame p) = .ok (some resp) := by
    show (Serializer.tryDeserialize _).map response? = _
    rw [hmsg, ← hresp]
    rfl
  unfold Reader.Accepts Reader.message
  rw [hdecode]
  exact ⟨rfl, rfl⟩

/-- If the calls get through a frame in one chunk, it fits in the memory of the component. -/
theorem fits_of_receives (hmem : .chunk (Framing.frame p) ∈ stream) (hnone : .failed ∉ stream)
    (hbytes : bytesOf stream = Framing.frame p) (h : s.Awaits connect addr [] stream)
    {outs : List (List ClientResponse × Bool)} (hall : receives connect addr s stream.length = .ok (outs, s')) :
    (Framing.frame p).length < 2 ^ 31 := by
  induction stream generalizing s outs with
  | nil => cases hmem
  | cons r rest ih =>
      cases r with
      | failed => simp at hnone
      | chunk first =>
          obtain ⟨next, hnext, heq⟩ := tryReceive_eq h hnone
          obtain ⟨a, s₁, more, hone, hmore, rfl⟩ := callEach_cons hall
          rw [heq] at hone
          obtain ⟨r, hr, hnow⟩ : ∃ r, reader.receive [] first = .ok r ∧ s₁ = next r.2 := by
            rw [List.take_succ_cons, List.take_zero, bytesOf_chunk, bytesOf_nil,
              List.append_nil] at hone
            cases hreceive : reader.receive [] first with
            | error t =>
                rw [hreceive] at hone
                cases hone
            | ok r =>
                rw [hreceive] at hone
                exact ⟨r, rfl, (Prod.mk.inj (Except.ok.inj hone)).2.symm⟩
          obtain ⟨hdigests, hr⟩ := Reader.receive_eq_ok_iff.mp hr
          rcases List.mem_cons.mp hmem with he | hlater
          · rw [Read.chunk.inj he]
            exact hdigests.fits
          · have hrest : .failed ∉ rest := by simpa using hnone
            have hempty : first = [] := eq_nil_of_chunk_mem hrest (by rwa [← bytesOf_chunk, hbytes])
            subst hempty
            rw [List.nil_append, Framing.split_of_incomplete Framing.incomplete_nil] at hr
            subst hr
            rw [bytesOf_chunk, List.nil_append] at hbytes
            exact ih hlater hrest hbytes (hnow ▸ hnext []) hmore

/-- **The two clients agree** on a response if and only if the request can be written, and one read
brings the whole frame, which fits in the memory of a component. -/
theorem clients_agree_iff (hmsg : Serializer.tryDeserialize (Framing.frame p) = .ok msg)
    (hresp : response? msg = some resp) (hnone : .failed ∉ stream)
    (hbytes : bytesOf stream = Framing.frame p) :
    ClientsAgree value stream resp ↔ (requestMessage value).serialize.isOk = true ∧
      .chunk (Framing.frame p) ∈ stream ∧ (Framing.frame p).length < 2 ^ 31 := by
  obtain ⟨haccepts, hmessage⟩ := message_of_response hmsg hresp
  constructor
  · rintro ⟨hone, hcalls⟩
    obtain ⟨hrequest, hmem⟩ := (performRequest_iff hmsg hresp hnone hbytes).mp hone
    refine ⟨hrequest, hmem, ?_⟩
    -- a client that connects to the server
    have hawaits : new.Awaits (fun _ => some stream) "" [] stream := ⟨rfl, rfl⟩
    obtain ⟨w, s', hsend⟩ : ∃ w s', new.sendRequest (fun _ => some stream) (fun _ => true) "" value =
        (w, .ok (true, s')) := by
      unfold sendRequest
      cases hserialize : (requestMessage value).serialize with
      | error t =>
          rw [hserialize] at hrequest
          cases hrequest
      | ok bytes => exact ⟨_, _, rfl⟩
    obtain ⟨outs, s'', houts, -⟩ :=
      hcalls _ _ _ _ _ _ hawaits hsend stream.length (Nat.le_refl _)
    exact fits_of_receives hmem hnone hbytes (hawaits.sendRequest hsend) houts
  · rintro ⟨hrequest, hmem, hsize⟩
    refine ⟨(performRequest_iff hmsg hresp hnone hbytes).mpr ⟨hrequest, hmem⟩, ?_⟩
    intro connect addr s s' outcome w hawaits hsend n hn
    have hframes : Framing.frames [p] = Framing.frame p := List.append_nil _
    obtain ⟨outs, s'', houts, hmsgs⟩ := tryReceive_delivers
      (fun q (hq : q ∈ [p]) => List.mem_singleton.mp hq ▸ haccepts) (hframes ▸ hsize) hnone
      Framing.incomplete_nil (by rw [List.nil_append, hbytes, hframes]) (hawaits.sendRequest hsend) n
    refine ⟨outs, s'', houts, ?_⟩
    rw [hmsgs, List.take_of_length_le hn, List.nil_append, hbytes, ← hframes, Framing.split_frames,
      Reader.messages_cons, hmessage]
    rfl

/-- A frame that comes in two parts, the one-shot client does not get. -/
theorem not_performRequest_of_cut (hmsg : Serializer.tryDeserialize (Framing.frame p) = .ok msg)
    (hresp : response? msg = some resp) {k : Nat} (hk : 0 < k) (hlt : k < (Framing.frame p).length) :
    performRequest
      (some [.chunk ((Framing.frame p).take k), .chunk ((Framing.frame p).drop k)]) true value ≠
        .ok (some resp) := by
  intro hone
  obtain ⟨-, hmem⟩ := (performRequest_iff hmsg hresp (by simp) (by
    rw [bytesOf_chunk, bytesOf_chunk, bytesOf_nil, List.append_nil, List.take_append_drop])).mp hone
  -- neither of the two parts is as long as the frame
  simp only [List.mem_cons, List.not_mem_nil, or_false, Read.chunk.injEq] at hmem
  rcases hmem with he | he
  · have hlength := congrArg List.length he
    rw [List.length_take] at hlength
    omega
  · have hlength := congrArg List.length he
    rw [List.length_drop] at hlength
    omega

/-! ### A short response

It comes in one chunk, and then in two. -/

/-- A no-op for the client `c`. -/
def noOpResponse : ClientResponse :=
  { clientId := "c", clientSeq := 1, success := true, commandResult := .noOp }

set_option maxRecDepth 8000 in
/-- The frame of that response. -/
def responseLetter : Letter :=
  .ofText ("sender=node_id:1,address:a,role:proposer||" ++
      "payload=client-response,client_id:c,client_seq:1,success:true,result:no-op")
    { sender := { nodeId := 1, address := "a", role := .proposer }
      payload := .clientResponse noOpResponse }
    (by decide) (by decide)

def request : Value := { command := some .demo, clientId := "c", clientSeq := 1 }

set_option maxRecDepth 8000 in
theorem clients_agree_one :
    ClientsAgree request [.chunk (Framing.frame responseLetter.payload)] noOpResponse :=
  (clients_agree_iff responseLetter.reads rfl (by simp) (by simp)).mpr
    ⟨by rfl, List.mem_cons_self .., by decide⟩

set_option maxRecDepth 8000 in
/-- **A response in two chunks**, its header and its text, does not reach the one-shot client. -/
theorem split_response_is_lost :
    ¬ ∀ value stream (p : Change) msg resp, Serializer.tryDeserialize (Framing.frame p) = .ok msg →
      response? msg = some resp → .failed ∉ stream → bytesOf stream = Framing.frame p →
      ClientsAgree value stream resp := by
  intro h
  have hlong : 4 < (Framing.frame responseLetter.payload).length := by decide
  have hagree := h request [.chunk ((Framing.frame responseLetter.payload).take 4),
    .chunk ((Framing.frame responseLetter.payload).drop 4)] responseLetter.payload _ noOpResponse
    responseLetter.reads rfl (by simp) (by
      rw [bytesOf_chunk, bytesOf_chunk, bytesOf_nil, List.append_nil, List.take_append_drop])
  exact not_performRequest_of_cut responseLetter.reads rfl (by decide) hlong hagree.1

end PaxosClient

end PaxosWasm
