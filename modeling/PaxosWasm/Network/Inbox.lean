import PaxosWasm.Network.FrameLoop

/-!
# The connections of a server

A server accepts connections, and at a call it reads once from each of them, in the order in which a
`HashMap` yields them, until it has handed out enough. What comes of a connection depends on its own
reads alone: in whatever order the connections are read, the calls hand out what its chunks complete,
chunk by chunk, and leave the unfinished rest in its buffer (`readUpTo_accepted`).

A turn reads one channel (`poll`), a call takes one turn for each of the channels, and a run of the
server is a list of calls. What is proved of a channel follows this order: it is read at most once in a
call (`pollEach_channel`), the calls up to a state have made of it what `ReadUpTo` says, and what they
hand out of it are the messages that its reads bring (`deliveries`). The framing loop is a parameter
(`Reader`), and so the three servers share all of this.
-/

namespace PaxosWasm

open Library Changelog

/-- What a read comes to; where nothing has arrived the chunk is empty. -/
inductive Read where
  | chunk (bytes : List UInt8)
  | failed
deriving DecidableEq, Repr

/-- What the coming reads of a connection give; behind them nothing arrives. -/
abbrev InputStream : Type := List Read

/-- The connections of a server, by their channels. -/
structure Inbox where
  nextChan : Nat
  conns : OrdMap Nat InputStream
  /-- The bytes of each channel until there is a full frame. -/
  buffers : OrdMap Nat (List UInt8)

/-- The messages of one channel, of messages that are marked with theirs. -/
def onChan {β : Type} (chan : Nat) (out : List (Nat × β)) : List β :=
  (out.filter (fun x => x.1 = chan)).map Prod.snd

/-- A call: the connections that the listener accepts, the order of the `HashMap`, and how many
messages are enough, if there is a limit. -/
structure Call where
  accepted : List InputStream
  order : List Nat
  limit : Option Nat

namespace Inbox

def new : Inbox := { nextChan := 1, conns := ∅, buffers := ∅ }

/-! ### Accepting and the order of the channels

A connection gets the next channel when it is accepted. In which order the `HashMap` yields the channels
is not known: a call is given one, and `iter` makes of it an order of those that are live. -/

def accept (s : Inbox) (stream : InputStream) : Inbox :=
  { nextChan := s.nextChan + 1
    conns := s.conns.insert s.nextChan stream
    buffers := s.buffers.insert s.nextChan [] }

/-- The live channels in an order: those that `order` names, then the others. -/
def iter (s : Inbox) (order : List Nat) : List Nat :=
  order.dedup.filter (· ∈ s.conns.keys) ++ s.conns.keys.filter (· ∉ order)

end Inbox

/-! ## One read

A read brings nothing, a chunk, or the news that the connection is broken. -/

/-- What one read of a connection comes to. -/
inductive Reading (β : Type) where
  /-- Nothing has arrived. -/
  | idle (rest : InputStream)
  | broken (rest : InputStream)
  | taken (rest : InputStream) (msgs : List β) (buf : List UInt8)

variable {β : Type}

/-- Read once from a connection. -/
def Reader.readFrom (R : Reader β) (buf? : Option (List UInt8)) :
    InputStream → Except Trap (Reading β)
  | [] => .ok (.idle [])
  | .failed :: rest => .ok (.broken rest)
  | .chunk bytes :: rest =>
      if bytes = [] then .ok (.idle rest)
      else
        match buf? with
        | none => .error .unwrap
        | some buf => do
            let (msgs, buf) ← R.receive buf bytes
            .ok (.taken rest msgs buf)

/-- A call under way: what it hands out, each message marked with its channel, and the channels that
are to be dropped. -/
structure Poll (β : Type) where
  inbox : Inbox
  out : List (Nat × β)
  toDrop : List Nat

namespace Poll

variable (R : Reader β)

/-- The turn of one channel, and whether it took in a chunk. -/
def poll (p : Poll β) (chan : Nat) : Except Trap (Bool × Poll β) :=
  match p.inbox.conns.get? chan with
  | none => .ok (false, p)
  | some stream => do
      match ← R.readFrom (p.inbox.buffers.get? chan) stream with
      | .idle rest =>
          .ok (false, { p with
            inbox := { p.inbox with conns := p.inbox.conns.insert chan rest } })
      | .broken rest =>
          .ok (false, { p with
            inbox := { p.inbox with conns := p.inbox.conns.insert chan rest }
            toDrop := p.toDrop ++ [chan] })
      | .taken rest msgs buf =>
          .ok (true, { p with
            inbox := { p.inbox with
              conns := p.inbox.conns.insert chan rest
              buffers := p.inbox.buffers.insert chan buf }
            out := p.out ++ msgs.map (fun msg => (chan, msg)) })

/-- One channel after the other, until a chunk has brought enough messages. -/
def pollEach (limit : Option Nat) : List Nat → Poll β → Except Trap (Poll β)
  | [], p => .ok p
  | chan :: order, p => do
      let (taken, p) ← p.poll R chan
      if taken ∧ ∃ max ∈ limit, max ≤ p.out.length then .ok p
      else pollEach limit order p

/-- Drop the broken channels; their buffers go with them where the server clears these. -/
def cleanUp (clears : Bool) (p : Poll β) : Inbox :=
  { p.inbox with
    conns := p.inbox.conns.retain (fun chan => chan ∉ p.toDrop)
    buffers := if clears then p.inbox.buffers.retain (fun chan => chan ∉ p.toDrop)
      else p.inbox.buffers }

end Poll

/-! ## The calls of a server -/

/-- Call after call: what each of them returns, and the state at the end. -/
def callEach {σ ε α : Type} (op : σ → ε → Except Trap (α × σ)) :
    σ → List ε → Except Trap (List α × σ)
  | s, [] => .ok ([], s)
  | s, e :: es => do
      let (a, s) ← op s e
      let (rest, s) ← callEach op s es
      .ok (a :: rest, s)

namespace Inbox

variable (R : Reader β) (clears : Bool)

/-- A call: accept, read from the connections, clean up. -/
def call (s : Inbox) (c : Call) : Except Trap (List (Nat × β) × Inbox) := do
  let s := c.accepted.foldl accept s
  let p ← Poll.pollEach R c.limit (s.iter c.order) { inbox := s, out := [], toDrop := [] }
  .ok (p.out, p.cleanUp clears)

def serve : Inbox → List Call → Except Trap (List (List (Nat × β)) × Inbox) :=
  callEach (call R clears)

end Inbox

/-! ## Calls one after the other

Facts about `callEach`, whatever the calls do: how a run of them splits, and what becomes of it when the
states, the results or the calls themselves are seen through a map. -/

section CallEach

variable {σ σ' ε ε' α α' : Type} (op : σ → ε → Except Trap (α × σ))

variable {op} in
theorem callEach_cons {s s' : σ} {e : ε} {es : List ε} {as : List α}
    (h : callEach op s (e :: es) = .ok (as, s')) :
    ∃ a s₁ rest, op s e = .ok (a, s₁) ∧ callEach op s₁ es = .ok (rest, s') ∧ as = a :: rest := by
  unfold callEach at h
  simp only [bind, Except.bind] at h
  split at h
  · cases h
  · next r hop =>
    obtain ⟨a, s₁⟩ := r
    dsimp only at h
    split at h
    · cases h
    · next r hrest =>
      obtain ⟨rest, s₂⟩ := r
      obtain ⟨rfl, rfl⟩ := Prod.mk.inj (Except.ok.inj h)
      exact ⟨a, s₁, rest, hop, hrest, rfl⟩

/-- Calls seen through a map of the states and the results. -/
theorem callEach_map (op' : σ' → ε' → Except Trap (α' × σ')) (f : α → α') (g : σ → σ') (k : ε → ε')
    (h : ∀ s e, op' (g s) (k e) = (op s e).map (fun (a, s) => (f a, g s))) (s : σ) (es : List ε) :
    callEach op' (g s) (es.map k) =
      (callEach op s es).map (fun (as, s) => (as.map f, g s)) := by
  induction es generalizing s with
  | nil => rfl
  | cons e es ih =>
      rw [List.map_cons, callEach, callEach, h]
      cases op s e with
      | error t => rfl
      | ok r =>
          obtain ⟨a, s₁⟩ := r
          simp only [Except.map, bind, Except.bind]
          rw [ih]
          cases callEach op s₁ es <;> rfl

/-- Calls that name their arguments differently. -/
theorem callEach_congr (op' : σ → ε' → Except Trap (α × σ)) (k : ε → ε')
    (h : ∀ s e, op' s (k e) = op s e) (s : σ) (es : List ε) :
    callEach op' s (es.map k) = callEach op s es := by
  have hmap := callEach_map op op' id id k (fun s e => by rw [id, h]; cases op s e <;> rfl) s es
  rw [id] at hmap
  rw [hmap]
  cases callEach op s es with
  | error t => rfl
  | ok r => simp [Except.map]

end CallEach

/-! ## One channel of a call

A turn concerns its own channel and no other, and in one call a channel gets at most one. -/

section OnChan

variable {chan c : Nat} {out out' : List (Nat × β)} {msgs : List β}

@[simp] theorem onChan_nil : onChan c ([] : List (Nat × β)) = [] := rfl

@[simp] theorem onChan_append : onChan c (out ++ out') = onChan c out ++ onChan c out' := by
  simp [onChan]

@[simp] theorem onChan_marked : onChan c (msgs.map (fun msg => (c, msg))) = msgs := by
  simp [onChan, List.filter_map, Function.comp_def]

theorem onChan_marked_of_ne (h : c ≠ chan) (msgs : List β) :
    onChan c (msgs.map (fun msg => (chan, msg))) = [] := by
  simp [onChan, List.filter_map, Function.comp_def, Ne.symm h]

theorem onChan_flatten (outs : List (List (Nat × β))) :
    onChan c outs.flatten = (outs.map (onChan c)).flatten := by
  induction outs with
  | nil => rfl
  | cons out outs ih => rw [List.flatten_cons, onChan_append, ih, List.map_cons, List.flatten_cons]

end OnChan

/-! ### What a call knows of a channel

`Channel` is the part of a call under way that the turns of one channel can change, and `Turned` what one
turn makes of it. -/

/-- What a call under way knows of one channel. -/
structure Channel (β : Type) where
  stream : Option InputStream
  buffer : Option (List UInt8)
  out : List β
  dropped : Bool

/-- The channel after a read of it. -/
def Channel.after (ch : Channel β) : Reading β → Channel β
  | .idle rest => { ch with stream := some rest }
  | .broken rest => { ch with stream := some rest, dropped := true }
  | .taken rest msgs buf =>
      { ch with stream := some rest, buffer := some buf, out := ch.out ++ msgs }

namespace Poll

variable {R : Reader β} {p p' : Poll β} {chan c : Nat} {taken : Bool}

def channel (p : Poll β) (c : Nat) : Channel β :=
  { stream := p.inbox.conns.get? c
    buffer := p.inbox.buffers.get? c
    out := onChan c p.out
    dropped := c ∈ p.toDrop }

variable (R) in
/-- The channel has been read once. -/
def Turned (ch ch' : Channel β) : Prop :=
  ∃ stream reading, ch.stream = some stream ∧ R.readFrom ch.buffer stream = .ok reading ∧
    ch' = ch.after reading

/-- **A turn**: the channel is read if it is live, and no other is touched. -/
theorem poll_channel (h : p.poll R chan = .ok (taken, p')) :
    (∀ c, c ≠ chan → p'.channel c = p.channel c) ∧
      ((p.inbox.conns.get? chan = none ∧ p'.channel chan = p.channel chan) ∨
        Turned R (p.channel chan) (p'.channel chan)) ∧
      p'.inbox.nextChan = p.inbox.nextChan := by
  unfold poll at h
  split at h
  · next hclosed =>
    obtain ⟨-, rfl⟩ := Prod.mk.inj (Except.ok.inj h)
    exact ⟨fun _ _ => rfl, Or.inl ⟨hclosed, rfl⟩, rfl⟩
  · next stream hstream =>
    simp only [bind, Except.bind] at h
    split at h
    · cases h
    · next reading hread =>
      have hturned : ∀ ch', ch' = (p.channel chan).after reading → Turned R (p.channel chan) ch' :=
        fun ch' he => ⟨stream, reading, hstream, hread, he⟩
      split at h
      · obtain ⟨-, rfl⟩ := Prod.mk.inj (Except.ok.inj h)
        refine ⟨fun c hc => ?_, Or.inr (hturned _ ?_), rfl⟩
        · simp [channel, OrdMap.get?_insert_of_ne _ _ hc]
        · simp [channel, Channel.after]
      · obtain ⟨-, rfl⟩ := Prod.mk.inj (Except.ok.inj h)
        refine ⟨fun c hc => ?_, Or.inr (hturned _ ?_), rfl⟩
        · simp [channel, OrdMap.get?_insert_of_ne _ _ hc, hc]
        · simp [channel, Channel.after]
      · obtain ⟨-, rfl⟩ := Prod.mk.inj (Except.ok.inj h)
        refine ⟨fun c hc => ?_, Or.inr (hturned _ ?_), rfl⟩
        · simp [channel, OrdMap.get?_insert_of_ne _ _ hc, onChan_marked_of_ne hc]
        · simp [channel, Channel.after]

/-- **The turns of a call**: each channel is read at most once. -/
theorem pollEach_channel {limit : Option Nat} {order : List Nat} (hnodup : order.Nodup)
    (h : pollEach R limit order p = .ok p') :
    (∀ c, p'.channel c = p.channel c ∨ (c ∈ order ∧ Turned R (p.channel c) (p'.channel c))) ∧
      p'.inbox.nextChan = p.inbox.nextChan := by
  induction order generalizing p with
  | nil =>
      obtain rfl := Except.ok.inj h
      exact ⟨fun _ => Or.inl rfl, rfl⟩
  | cons chan order ih =>
      unfold pollEach at h
      simp only [bind, Except.bind] at h
      split at h
      · cases h
      · next r hpoll =>
        obtain ⟨taken, q⟩ := r
        obtain ⟨hothers, hself, hnext⟩ := poll_channel hpoll
        obtain ⟨hchan, hnodup⟩ := List.nodup_cons.mp hnodup
        have hself' : q.channel chan = p.channel chan ∨
            (chan ∈ chan :: order ∧ Turned R (p.channel chan) (q.channel chan)) :=
          hself.imp And.right (fun ht => ⟨List.mem_cons_self .., ht⟩)
        dsimp only at h
        split at h
        · obtain rfl := Except.ok.inj h
          refine ⟨fun c => ?_, hnext⟩
          by_cases hc : c = chan
          · exact hc ▸ hself'
          · exact Or.inl (hothers c hc)
        · obtain ⟨hrest, hnext'⟩ := ih hnodup h
          refine ⟨fun c => ?_, hnext'.trans hnext⟩
          by_cases hc : c = chan
          · subst hc
            rcases hrest c with he | ⟨hmem, -⟩
            · rw [he]
              exact hself'
            · exact absurd hmem hchan
          · rw [← hothers c hc]
            exact (hrest c).imp id (fun ht => ⟨List.mem_cons_of_mem _ ht.1, ht.2⟩)

/-! ### What a turn hands out

A turn reads one channel after the other until it has enough. -/

/-- What a turn hands out is marked with its channel, and comes from a chunk. -/
theorem poll_out (h : p.poll R chan = .ok (taken, p')) :
    ∃ msgs : List β, p'.out = p.out ++ msgs.map (fun msg => (chan, msg)) ∧
      (taken = false → msgs = []) := by
  unfold poll at h
  split at h
  · obtain ⟨-, rfl⟩ := Prod.mk.inj (Except.ok.inj h)
    exact ⟨[], by simp, fun _ => rfl⟩
  · simp only [bind, Except.bind] at h
    split at h
    · cases h
    · split at h
      · obtain ⟨-, rfl⟩ := Prod.mk.inj (Except.ok.inj h)
        exact ⟨[], by simp, fun _ => rfl⟩
      · obtain ⟨-, rfl⟩ := Prod.mk.inj (Except.ok.inj h)
        exact ⟨[], by simp, fun _ => rfl⟩
      · next msgs buf _ =>
        obtain ⟨rfl, rfl⟩ := Prod.mk.inj (Except.ok.inj h)
        exact ⟨msgs, rfl, fun he => by cases he⟩

/-- Where one message is enough, all that is handed out comes from one chunk. -/
theorem pollEach_one {order : List Nat} (h : pollEach R (some 1) order p = .ok p')
    (hout : p.out = []) : ∃ chan, ∃ msgs : List β, p'.out = msgs.map (fun msg => (chan, msg)) := by
  induction order generalizing p with
  | nil =>
      obtain rfl := Except.ok.inj h
      exact ⟨0, [], hout⟩
  | cons chan order ih =>
      unfold pollEach at h
      simp only [bind, Except.bind] at h
      split at h
      · cases h
      · next r hpoll =>
        obtain ⟨taken, q⟩ := r
        obtain ⟨msgs, hq, hidle⟩ := poll_out hpoll
        rw [hout, List.nil_append] at hq
        dsimp only at h
        split at h
        · obtain rfl := Except.ok.inj h
          exact ⟨chan, msgs, hq⟩
        · next hmore =>
          refine ih h ?_
          cases taken with
          | false => rw [hq, hidle rfl, List.map_nil]
          | true =>
              -- a chunk that completes no frame
              have hnone : q.out.length = 0 := by simpa using hmore
              exact List.length_eq_zero_iff.mp hnone

/-- The first channel is read, whatever the limit. -/
theorem pollEach_first {limit : Option Nat} {order : List Nat} (hnodup : (chan :: order).Nodup)
    (h : pollEach R limit (chan :: order) p = .ok p') :
    p.inbox.conns.get? chan = none ∨ Turned R (p.channel chan) (p'.channel chan) := by
  obtain ⟨hchan, hnodup⟩ := List.nodup_cons.mp hnodup
  unfold pollEach at h
  simp only [bind, Except.bind] at h
  split at h
  · cases h
  · next r hpoll =>
    obtain ⟨taken, q⟩ := r
    obtain ⟨-, hself, -⟩ := poll_channel hpoll
    dsimp only at h
    split at h
    · obtain rfl := Except.ok.inj h
      exact hself.imp And.left id
    · rcases (pollEach_channel hnodup h).1 chan with he | ⟨hmem, -⟩
      · rw [he]
        exact hself.imp And.left id
      · exact absurd hmem hchan

/-! ### Turns that do not stop the component -/

variable (R) in
/-- A read of the channel does not stop the component. -/
def CanRead (ch : Channel β) : Prop :=
  ∀ stream, ch.stream = some stream → ∃ reading, R.readFrom ch.buffer stream = .ok reading

theorem poll_ok (h : CanRead R (p.channel chan)) : ∃ r, p.poll R chan = .ok r := by
  unfold poll
  split
  · exact ⟨_, rfl⟩
  · next stream hstream =>
    obtain ⟨reading, hread⟩ := h stream hstream
    have hread' : R.readFrom (p.inbox.buffers.get? chan) stream = .ok reading := hread
    rw [hread']
    cases reading <;> exact ⟨_, rfl⟩

/-- A call whose channels can all be read does not stop the component. -/
theorem pollEach_ok {limit : Option Nat} {order : List Nat} (hnodup : order.Nodup)
    (h : ∀ c ∈ order, CanRead R (p.channel c)) : ∃ p', pollEach R limit order p = .ok p' := by
  induction order generalizing p with
  | nil => exact ⟨p, rfl⟩
  | cons chan order ih =>
      obtain ⟨⟨taken, q⟩, hpoll⟩ := poll_ok (h chan (List.mem_cons_self ..))
      obtain ⟨hothers, -, -⟩ := poll_channel hpoll
      obtain ⟨hchan, hnodup⟩ := List.nodup_cons.mp hnodup
      have hrest : ∀ c ∈ order, CanRead R (q.channel c) := by
        intro c hc
        have hne : c ≠ chan := fun he => hchan (he ▸ hc)
        rw [hothers c hne]
        exact h c (List.mem_cons_of_mem _ hc)
      unfold pollEach
      rw [hpoll]
      simp only [bind, Except.bind]
      split
      · exact ⟨q, rfl⟩
      · exact ih hnodup hrest

end Poll

/-! ## What the chunks of a connection bring

A connection is seen through its bytes up to the first read that fails. Chunk by chunk the loop takes the
complete frames off them. -/

/-- The bytes of the reads until one fails. -/
def bytesOf : List Read → List UInt8
  | [] => []
  | .chunk bytes :: reads => bytes ++ bytesOf reads
  | .failed :: _ => []

@[simp] theorem bytesOf_nil : bytesOf [] = [] := rfl

@[simp] theorem bytesOf_chunk (bytes : List UInt8) (reads : List Read) :
    bytesOf (.chunk bytes :: reads) = bytes ++ bytesOf reads := rfl

@[simp] theorem bytesOf_failed (reads : List Read) : bytesOf (.failed :: reads) = [] := rfl

theorem bytesOf_append {reads : List Read} (h : .failed ∉ reads) (reads' : List Read) :
    bytesOf (reads ++ reads') = bytesOf reads ++ bytesOf reads' := by
  induction reads with
  | nil => rfl
  | cons r reads ih =>
      cases r with
      | chunk bytes =>
          rw [List.cons_append, bytesOf_chunk, ih (by simpa using h), bytesOf_chunk, List.append_assoc]
      | failed => simp at h

theorem bytesOf_append_of_failed {reads : List Read} (h : .failed ∈ reads) (reads' : List Read) :
    bytesOf (reads ++ reads') = bytesOf reads := by
  induction reads with
  | nil => cases h
  | cons r reads ih =>
      cases r with
      | chunk bytes => rw [List.cons_append, bytesOf_chunk, ih (by simpa using h), bytesOf_chunk]
      | failed => rfl

/-! ### Complete frames and what is left

The buffer of a channel holds the bytes behind the last complete frame. So a read takes the frames off
these bytes and the new ones together, and the messages do not depend on where the chunks end. -/

/-- What is left of the bytes when the complete frames are taken out. -/
def unfinished (bytes : List UInt8) : List UInt8 := (u32Frames.split bytes).2

theorem incomplete_unfinished (bytes : List UInt8) : u32Frames.Incomplete (unfinished bytes) :=
  (Framing.split_spec bytes).2

theorem unfinished_append (bytes bytes' : List UInt8) :
    unfinished (unfinished bytes ++ bytes') = unfinished (bytes ++ bytes') := by
  unfold unfinished
  rw [Framing.split_append bytes]

theorem unfinished_of_incomplete {bytes : List UInt8} (h : u32Frames.Incomplete bytes) :
    unfinished bytes = bytes := by
  rw [unfinished, Framing.split_of_incomplete h]

namespace Reader

variable (R : Reader β)

/-- The messages that each read brings, behind the bytes `buf`, until one fails. -/
def deliveries (buf : List UInt8) : List Read → List (List β)
  | [] => []
  | .chunk bytes :: reads =>
      R.messages (u32Frames.split (buf ++ bytes)).1 :: deliveries (unfinished (buf ++ bytes)) reads
  | .failed :: _ => [[]]

/-- The loop gets through every chunk until a read fails. -/
def DigestsAll (buf : List UInt8) : List Read → Prop
  | [] => True
  | .chunk bytes :: reads =>
      (bytes ≠ [] → R.Digests (buf ++ bytes)) ∧ DigestsAll (unfinished (buf ++ bytes)) reads
  | .failed :: _ => True

variable {R} {buf : List UInt8}

theorem deliveries_append (hbuf : u32Frames.Incomplete buf) {reads : List Read}
    (hnone : .failed ∉ reads) (reads' : List Read) :
    R.deliveries buf (reads ++ reads') =
      R.deliveries buf reads ++ R.deliveries (unfinished (buf ++ bytesOf reads)) reads' := by
  induction reads generalizing buf with
  | nil => rw [bytesOf_nil, List.append_nil, unfinished_of_incomplete hbuf]; rfl
  | cons r reads ih =>
      cases r with
      | chunk bytes =>
          rw [List.cons_append, deliveries, ih (incomplete_unfinished _) (by simpa using hnone),
            unfinished_append, bytesOf_chunk, List.append_assoc]
          rfl
      | failed => simp at hnone

/-- Together the reads bring the messages of the complete frames. -/
theorem flatten_deliveries (hbuf : u32Frames.Incomplete buf) (reads : List Read) :
    (R.deliveries buf reads).flatten = R.messages (u32Frames.split (buf ++ bytesOf reads)).1 := by
  induction reads generalizing buf with
  | nil =>
      rw [bytesOf_nil, List.append_nil, Framing.split_of_incomplete hbuf]
      rfl
  | cons r reads ih =>
      cases r with
      | chunk bytes =>
          rw [deliveries, List.flatten_cons, ih (incomplete_unfinished _), bytesOf_chunk,
            ← List.append_assoc, Framing.split_append (buf ++ bytes), messages_append]
          rfl
      | failed =>
          rw [bytesOf_failed, List.append_nil, Framing.split_of_incomplete hbuf]
          rfl

theorem digestsAll_append (hbuf : u32Frames.Incomplete buf) {reads reads' : List Read}
    (h : R.DigestsAll buf reads)
    (h' : .failed ∉ reads → R.DigestsAll (unfinished (buf ++ bytesOf reads)) reads') :
    R.DigestsAll buf (reads ++ reads') := by
  induction reads generalizing buf with
  | nil =>
      have h' := h' (List.not_mem_nil)
      rwa [bytesOf_nil, List.append_nil, unfinished_of_incomplete hbuf] at h'
  | cons r reads ih =>
      cases r with
      | chunk bytes =>
          refine ⟨h.1, ih (incomplete_unfinished _) h.2 (fun hnone => ?_)⟩
          have h' := h' (by simpa using hnone)
          rwa [bytesOf_chunk, ← List.append_assoc, ← unfinished_append] at h'
      | failed => exact trivial

/-- If the loop gets through the whole stream, it gets through what is still to come. -/
theorem DigestsAll.rest (hbuf : u32Frames.Incomplete buf) {reads reads' : List Read}
    (h : R.DigestsAll buf (reads ++ reads')) (hnone : .failed ∉ reads) :
    R.DigestsAll (unfinished (buf ++ bytesOf reads)) reads' := by
  induction reads generalizing buf with
  | nil =>
      rw [bytesOf_nil, List.append_nil, unfinished_of_incomplete hbuf]
      exact h
  | cons r reads ih =>
      cases r with
      | chunk bytes =>
          have hrest := ih (incomplete_unfinished _) h.2 (by simpa using hnone)
          rwa [unfinished_append, List.append_assoc, ← bytesOf_chunk] at hrest
      | failed => simp at hnone

end Reader

/-! ## A turn of an open channel

Where the loop gets through the chunks of a connection, its turn is described by the chunk alone: nothing
to read, a read that fails, or the messages that the chunk completes. -/

namespace Poll

variable {R : Reader β} {buf : List UInt8} {ch : Channel β}

/-- The channel at the start of a call, with `stream` to come behind the bytes `buf`. -/
def fresh (buf : List UInt8) (stream : InputStream) : Channel β :=
  { stream := some stream, buffer := some buf, out := [], dropped := false }

theorem turned_nil (h : Turned R (fresh buf []) ch) : ch = fresh buf [] := by
  obtain ⟨stream, reading, hstream, hread, rfl⟩ := h
  obtain rfl : [] = stream := Option.some.inj hstream
  obtain rfl := Except.ok.inj hread
  rfl

/-- **The turn of a channel with a read to come**: the loop gets through it, and it brings what it
completes. -/
theorem turned_cons (hbuf : u32Frames.Incomplete buf) {r : Read} {rest : InputStream}
    (h : Turned R (fresh buf (r :: rest)) ch) :
    R.DigestsAll buf [r] ∧ [ch.out] = R.deliveries buf [r] ∧ ch.stream = some rest ∧
      ch.buffer = some (unfinished (buf ++ bytesOf [r])) ∧ ch.dropped = decide (r = .failed) := by
  obtain ⟨stream, reading, hstream, hread, rfl⟩ := h
  obtain rfl : r :: rest = stream := Option.some.inj hstream
  have hkept : unfinished (buf ++ []) = buf := by
    rw [List.append_nil, unfinished_of_incomplete hbuf]
  cases r with
  | failed =>
      obtain rfl := Except.ok.inj hread
      refine ⟨trivial, rfl, rfl, ?_, rfl⟩
      rw [bytesOf_failed, hkept]
      rfl
  | chunk bytes =>
      rw [bytesOf_chunk, bytesOf_nil, List.append_nil]
      change R.readFrom (some buf) (.chunk bytes :: rest) = .ok reading at hread
      by_cases hempty : bytes = []
      · subst hempty
        rw [Reader.readFrom, if_pos rfl] at hread
        obtain rfl := Except.ok.inj hread
        refine ⟨⟨fun hne => absurd rfl hne, trivial⟩, ?_, rfl, ?_, rfl⟩
        · rw [Reader.deliveries, List.append_nil, Framing.split_of_incomplete hbuf]
          rfl
        · rw [hkept]
          rfl
      · rw [Reader.readFrom, if_neg hempty] at hread
        simp only [bind, Except.bind] at hread
        split at hread
        · cases hread
        · next r hr =>
          obtain rfl := Except.ok.inj hread
          obtain ⟨hdigests, rfl⟩ := Reader.receive_eq_ok_iff.mp hr
          exact ⟨⟨fun _ => hdigests, trivial⟩, rfl, rfl, rfl, rfl⟩

/-- A channel can be read if the loop gets through what comes. -/
theorem canRead_fresh {stream : InputStream} (h : R.DigestsAll buf stream) :
    CanRead R (fresh buf stream) := by
  rintro _ ⟨⟩
  show ∃ reading, R.readFrom (some buf) stream = .ok reading
  match stream, h with
  | [], _ => exact ⟨_, rfl⟩
  | .failed :: rest, _ => exact ⟨_, rfl⟩
  | .chunk bytes :: rest, h =>
      rw [Reader.readFrom]
      by_cases hempty : bytes = []
      · rw [if_pos hempty]
        exact ⟨_, rfl⟩
      · rw [if_neg hempty, Reader.receive_eq_ok_iff.mpr ⟨h.1 hempty, rfl⟩]
        exact ⟨_, rfl⟩

end Poll

/-! ## Calls

From one call to the next a channel is `Live`, with a part of its stream still to come, or dropped. What
a number of calls make of a live one is `ReadUpTo`. -/

namespace Inbox

variable {R : Reader β} {clears : Bool} {s s' : Inbox} {c : Nat} {stream : InputStream}
  {buf : List UInt8}

theorem nodup_iter (s : Inbox) (order : List Nat) : (s.iter order).Nodup := by
  refine List.Nodup.append (List.Nodup.filter _ (List.nodup_dedup _))
    (List.Nodup.filter _ s.conns.keys_nodup) (fun c hc hc' => ?_)
  have hin := (List.mem_filter.mp hc).1
  have hout := (List.mem_filter.mp hc').2
  exact (of_decide_eq_true hout) (List.mem_dedup.mp hin)

theorem mem_iter {order : List Nat} : c ∈ s.iter order ↔ c ∈ s.conns.keys := by
  simp only [iter, List.mem_append, List.mem_filter, List.mem_dedup, decide_eq_true_eq]
  tauto

/-- The channels are numbered below the next one. -/
def Numbered (s : Inbox) : Prop := ∀ c, s.nextChan ≤ c → s.conns.get? c = none

/-- The connection is open, with `stream` to come behind the bytes `buf`. -/
def Live (s : Inbox) (c : Nat) (buf : List UInt8) (stream : InputStream) : Prop :=
  s.conns.get? c = some stream ∧ s.buffers.get? c = some buf

theorem numbered_new : new.Numbered := fun _ _ => rfl

/-! ### New connections

The channels of a call are numbered in the order in which the listener accepts. -/

def acceptAll (s : Inbox) (streams : List InputStream) : Inbox := streams.foldl accept s

@[simp] theorem acceptAll_cons (s : Inbox) (stream : InputStream) (streams : List InputStream) :
    s.acceptAll (stream :: streams) = (s.accept stream).acceptAll streams := rfl

theorem nextChan_acceptAll (s : Inbox) (streams : List InputStream) :
    (s.acceptAll streams).nextChan = s.nextChan + streams.length := by
  induction streams generalizing s with
  | nil => rfl
  | cons stream streams ih =>
      rw [acceptAll_cons, ih, List.length_cons]
      show s.nextChan + 1 + streams.length = _
      omega

/-- Accepting leaves the channels before as they are. -/
theorem get?_acceptAll_of_lt (streams : List InputStream) (hc : c < s.nextChan) :
    (s.acceptAll streams).conns.get? c = s.conns.get? c ∧
      (s.acceptAll streams).buffers.get? c = s.buffers.get? c := by
  induction streams generalizing s with
  | nil => exact ⟨rfl, rfl⟩
  | cons stream streams ih =>
      obtain ⟨hconns, hbuffers⟩ := ih (s := s.accept stream) (Nat.lt_succ_of_lt hc)
      rw [acceptAll_cons, hconns, hbuffers]
      exact ⟨OrdMap.get?_insert_of_ne _ _ hc.ne, OrdMap.get?_insert_of_ne _ _ hc.ne⟩

/-- The connections accepted get the next channels, in order. -/
theorem live_acceptAll {streams : List InputStream} {i : Nat} (h : streams[i]? = some stream) :
    (s.acceptAll streams).Live (s.nextChan + i) [] stream := by
  induction streams generalizing s i with
  | nil => cases h
  | cons first streams ih =>
      cases i with
      | zero =>
          obtain rfl : first = stream := Option.some.inj h
          obtain ⟨hconns, hbuffers⟩ :=
            get?_acceptAll_of_lt (s := s.accept first) (c := s.nextChan) streams (Nat.lt_succ_self _)
          rw [acceptAll_cons, Live, Nat.add_zero, hconns, hbuffers]
          exact ⟨OrdMap.get?_insert_self .., OrdMap.get?_insert_self ..⟩
      | succ i =>
          have hlive := ih (s := s.accept first) h
          rwa [accept, Nat.add_assoc, Nat.add_comm 1 i] at hlive

theorem Numbered.acceptAll (h : s.Numbered) (streams : List InputStream) :
    (s.acceptAll streams).Numbered := by
  induction streams generalizing s with
  | nil => exact h
  | cons stream streams ih =>
      refine ih (fun c hc => ?_)
      have hc : s.nextChan + 1 ≤ c := hc
      show (s.conns.insert s.nextChan stream).get? c = none
      rw [OrdMap.get?_insert_of_ne _ _ (by omega)]
      exact h c (by omega)

/-! ### One channel of a call

The turns of the other channels are left out of sight (`pollEach_channel`). -/

/-- What the calls up to `s'` have made of a connection with `stream` to come behind the bytes `buf`:
they have read some of it, handed out what that brings, and left the unfinished rest in the buffer. -/
def ReadUpTo (R : Reader β) (c : Nat) (buf : List UInt8) (stream : InputStream)
    (gains : List (List β)) (s' : Inbox) : Prop :=
  ∃ seen rest, stream = seen ++ rest ∧ R.DigestsAll buf seen ∧
    gains.filter (! ·.isEmpty) = (R.deliveries buf seen).filter (! ·.isEmpty) ∧
    (.failed ∉ seen → s'.Live c (unfinished (buf ++ bytesOf seen)) rest) ∧
    (.failed ∈ seen → s'.conns.get? c = none)

theorem call_eq_ok {call : Call} {out : List (Nat × β)} (h : s.call R clears call = .ok (out, s')) :
    ∃ p : Poll β, Poll.pollEach R call.limit ((s.acceptAll call.accepted).iter call.order)
        { inbox := s.acceptAll call.accepted, out := [], toDrop := [] } = .ok p ∧
      out = p.out ∧ s' = p.cleanUp clears := by
  unfold Inbox.call at h
  simp only [bind, Except.bind] at h
  split at h
  · cases h
  · next p hp =>
    obtain ⟨rfl, rfl⟩ := Prod.mk.inj (Except.ok.inj h)
    exact ⟨p, hp, rfl, rfl⟩

theorem live_cleanUp {p : Poll β} {ch : Channel β} (h : p.channel c = ch) (hdrop : ch.dropped = false)
    (hstream : ch.stream = some stream) (hbuffer : ch.buffer = some buf) :
    (p.cleanUp clears).Live c buf stream := by
  subst h
  have hkept : c ∉ p.toDrop := of_decide_eq_false hdrop
  have hstream : p.inbox.conns.get? c = some stream := hstream
  have hbuffer : p.inbox.buffers.get? c = some buf := hbuffer
  unfold Poll.cleanUp Live
  cases clears <;> simp [hkept, hstream, hbuffer]

theorem get?_cleanUp_of_dropped {p : Poll β} {ch : Channel β} (h : p.channel c = ch)
    (hdrop : ch.dropped = true) : (p.cleanUp clears).conns.get? c = none := by
  subst h
  have hdrop : c ∈ p.toDrop := of_decide_eq_true hdrop
  unfold Poll.cleanUp
  simp [hdrop]

theorem channel_fresh (h : s.Live c buf stream) :
    Poll.channel { inbox := s, out := [], toDrop := [] } c = (Poll.fresh buf stream : Channel β) := by
  simp [Poll.channel, Poll.fresh, h.1, h.2]

theorem readUpTo_unread {p : Poll β} (hbuf : u32Frames.Incomplete buf)
    (h : p.channel c = Poll.fresh buf stream) :
    ReadUpTo R c buf stream [onChan c p.out] (p.cleanUp clears) := by
  have hout : onChan c p.out = [] := congrArg Channel.out h
  refine ⟨[], stream, rfl, trivial, by rw [hout]; rfl, fun _ => ?_, fun hf => by cases hf⟩
  rw [bytesOf_nil, List.append_nil, unfinished_of_incomplete hbuf]
  exact live_cleanUp h rfl rfl rfl

variable (clears) in
theorem readUpTo_turned {p : Poll β} {r : Read} {rest : InputStream}
    (hbuf : u32Frames.Incomplete buf)
    (h : Poll.Turned R (Poll.fresh buf (r :: rest)) (p.channel c)) :
    R.DigestsAll buf [r] ∧ [onChan c p.out] = R.deliveries buf [r] ∧
      (r ≠ .failed → (p.cleanUp clears).Live c (unfinished (buf ++ bytesOf [r])) rest) ∧
      (r = .failed → (p.cleanUp clears).conns.get? c = none) := by
  obtain ⟨hdigests, hout, hstream, hbuffer, hdropped⟩ := Poll.turned_cons hbuf h
  refine ⟨hdigests, hout, fun hr => ?_, fun hr => ?_⟩
  · exact live_cleanUp rfl (by rw [hdropped, decide_eq_false hr]) hstream hbuffer
  · exact get?_cleanUp_of_dropped rfl (by rw [hdropped, decide_eq_true hr])

/-- **A call, on one channel** that is open once the call has accepted. -/
theorem readUpTo_call {call : Call} {out : List (Nat × β)}
    (h : s.call R clears call = .ok (out, s')) (hbuf : u32Frames.Incomplete buf)
    (hlive : (s.acceptAll call.accepted).Live c buf stream) :
    ReadUpTo R c buf stream [onChan c out] s' := by
  obtain ⟨p, hp, rfl, rfl⟩ := call_eq_ok h
  obtain ⟨hchannels, -⟩ := Poll.pollEach_channel (nodup_iter _ _) hp
  have hturn := hchannels c
  rw [channel_fresh hlive] at hturn
  rcases hturn with he | ⟨-, hturned⟩
  · exact readUpTo_unread hbuf he
  · cases stream with
    | nil => exact readUpTo_unread hbuf (Poll.turned_nil hturned)
    | cons r rest =>
        obtain ⟨hdigests, hout, halive, hdead⟩ := readUpTo_turned clears hbuf hturned
        refine ⟨[r], rest, rfl, hdigests, by rw [hout], fun hf => halive ?_, fun hf => hdead ?_⟩
        · simpa using Ne.symm (by simpa using hf)
        · simpa using Eq.symm (by simpa using hf)

/-- A channel that is not open gets nothing. -/
theorem call_of_closed {call : Call} {out : List (Nat × β)}
    (h : s.call R clears call = .ok (out, s'))
    (hclosed : (s.acceptAll call.accepted).conns.get? c = none) :
    onChan c out = [] ∧ s'.conns.get? c = none := by
  obtain ⟨p, hp, rfl, rfl⟩ := call_eq_ok h
  obtain ⟨hchannels, -⟩ := Poll.pollEach_channel (nodup_iter _ _) hp
  rcases hchannels c with he | ⟨-, stream, _, hstream, -, -⟩
  · have hout : onChan c p.out = [] := congrArg Channel.out he
    have hstream : p.inbox.conns.get? c = none := (congrArg Channel.stream he).trans hclosed
    refine ⟨hout, ?_⟩
    unfold Poll.cleanUp
    simp [hstream]
  · rw [Poll.channel, hclosed] at hstream
    cases hstream

theorem nextChan_call {call : Call} {out : List (Nat × β)} (h : s.call R clears call = .ok (out, s')) :
    s'.nextChan = s.nextChan + call.accepted.length := by
  obtain ⟨p, hp, rfl, rfl⟩ := call_eq_ok h
  exact (Poll.pollEach_channel (nodup_iter _ _) hp).2.trans (nextChan_acceptAll s _)

theorem Numbered.call {call : Call} {out : List (Nat × β)} (hs : s.Numbered)
    (h : s.call R clears call = .ok (out, s')) : s'.Numbered := by
  intro c hc
  rw [nextChan_call h, ← nextChan_acceptAll] at hc
  exact (call_of_closed h (hs.acceptAll _ c hc)).2

/-! ### Call after call

A connection is accepted once; from then on each call reads it at most once, until it is dropped. -/

theorem serve_cons {call : Call} {calls : List Call} {outs : List (List (Nat × β))}
    (h : s.serve R clears (call :: calls) = .ok (outs, s')) :
    ∃ out s₁ outs', s.call R clears call = .ok (out, s₁) ∧
      s₁.serve R clears calls = .ok (outs', s') ∧ outs = out :: outs' := by
  obtain ⟨out, s₁, outs', hcall, hserve, he⟩ := callEach_cons h
  exact ⟨out, s₁, outs', hcall, hserve, he⟩

/-- A dropped channel stays dropped and gets nothing. -/
theorem serve_of_dropped {calls : List Call} {outs : List (List (Nat × β))}
    (h : s.serve R clears calls = .ok (outs, s')) (hc : c < s.nextChan)
    (hclosed : s.conns.get? c = none) :
    (outs.map (onChan c)).filter (! ·.isEmpty) = [] ∧ s'.conns.get? c = none := by
  induction calls generalizing s outs with
  | nil =>
      obtain ⟨rfl, rfl⟩ := Prod.mk.inj (Except.ok.inj h)
      exact ⟨rfl, hclosed⟩
  | cons call calls ih =>
      obtain ⟨out, s₁, outs, hcall, hserve, rfl⟩ := serve_cons h
      obtain ⟨hnone, hclosed₁⟩ :=
        call_of_closed hcall ((get?_acceptAll_of_lt call.accepted hc).1.trans hclosed)
      have hc₁ : c < s₁.nextChan := by
        rw [nextChan_call hcall]
        omega
      obtain ⟨hrest, hclosed'⟩ := ih hserve hc₁ hclosed₁
      refine ⟨?_, hclosed'⟩
      rw [List.map_cons, hnone, List.filter_cons_of_neg (by simp)]
      exact hrest

theorem Live.acceptAll (h : s.Live c buf stream) (hc : c < s.nextChan)
    (streams : List InputStream) : (s.acceptAll streams).Live c buf stream := by
  obtain ⟨hconns, hbuffers⟩ := get?_acceptAll_of_lt streams hc
  exact ⟨hconns.trans h.1, hbuffers.trans h.2⟩

/-- Reading goes on where it stopped. -/
theorem ReadUpTo.trans {s₁ : Inbox} {gains gains' : List (List β)} (hbuf : u32Frames.Incomplete buf)
    (h : ReadUpTo R c buf stream gains s₁)
    (hopen : ∀ buf' rest, u32Frames.Incomplete buf' → s₁.Live c buf' rest →
      ReadUpTo R c buf' rest gains' s')
    (hclosed : s₁.conns.get? c = none →
      gains'.filter (! ·.isEmpty) = [] ∧ s'.conns.get? c = none) :
    ReadUpTo R c buf stream (gains ++ gains') s' := by
  obtain ⟨seen, rest, rfl, hdigests, hgains, halive, hdead⟩ := h
  by_cases hf : .failed ∈ seen
  · obtain ⟨hnone, hgone⟩ := hclosed (hdead hf)
    refine ⟨seen, rest, rfl, hdigests, ?_, fun hnf => absurd hf hnf, fun _ => hgone⟩
    rw [List.filter_append, hgains, hnone, List.append_nil]
  · obtain ⟨seen', rest', rfl, hdigests', hgains', halive', hdead'⟩ :=
      hopen _ _ (incomplete_unfinished _) (halive hf)
    refine ⟨seen ++ seen', rest', by rw [List.append_assoc], ?_, ?_, fun hnf => ?_, fun hf' => ?_⟩
    · exact Reader.digestsAll_append hbuf hdigests (fun _ => hdigests')
    · rw [List.filter_append, hgains, hgains', Reader.deliveries_append hbuf hf, List.filter_append]
    · have hlive := halive' (fun hf' => hnf (List.mem_append_right _ hf'))
      rwa [unfinished_append, List.append_assoc, ← bytesOf_append hf] at hlive
    · exact hdead' ((List.mem_append.mp hf').resolve_left hf)

/-- **An open connection**, over any number of calls. -/
theorem readUpTo_serve {calls : List Call} {outs : List (List (Nat × β))}
    (h : s.serve R clears calls = .ok (outs, s')) (hbuf : u32Frames.Incomplete buf)
    (hc : c < s.nextChan) (hlive : s.Live c buf stream) :
    ReadUpTo R c buf stream (outs.map (onChan c)) s' := by
  induction calls generalizing s outs buf stream with
  | nil =>
      obtain ⟨rfl, rfl⟩ := Prod.mk.inj (Except.ok.inj h)
      refine ⟨[], stream, rfl, trivial, rfl, fun _ => ?_, fun hf => by cases hf⟩
      rwa [bytesOf_nil, List.append_nil, unfinished_of_incomplete hbuf]
  | cons call calls ih =>
      obtain ⟨out, s₁, outs, hcall, hserve, rfl⟩ := serve_cons h
      have hc₁ : c < s₁.nextChan := by
        rw [nextChan_call hcall]
        omega
      refine ReadUpTo.trans hbuf (readUpTo_call hcall hbuf (hlive.acceptAll hc call.accepted)) ?_ ?_
      · exact fun buf' rest hbuf' hlive' => ih hserve hbuf' hc₁ hlive'
      · exact fun hclosed => serve_of_dropped hserve hc₁ hclosed

/-- The connections that the calls accept, in order. -/
def acceptedBy (calls : List Call) : List InputStream := calls.flatMap Call.accepted

/-- **A connection that is accepted on the way**: the `i`-th of the calls gets the `i`-th of the coming
channels, and whatever the order in which the channels are read, the calls have read a part of it and
handed out what its chunks complete. -/
theorem readUpTo_accepted {calls : List Call} {outs : List (List (Nat × β))} {i : Nat}
    (hs : s.Numbered) (h : s.serve R clears calls = .ok (outs, s'))
    (hi : (acceptedBy calls)[i]? = some stream) :
    ReadUpTo R (s.nextChan + i) [] stream (outs.map (onChan (s.nextChan + i))) s' := by
  induction calls generalizing s outs i with
  | nil => cases hi
  | cons call calls ih =>
      obtain ⟨out, s₁, outs, hcall, hserve, rfl⟩ := serve_cons h
      have hnext := nextChan_call hcall
      rw [acceptedBy, List.flatMap_cons] at hi
      by_cases hlt : i < call.accepted.length
      · rw [List.getElem?_append_left hlt] at hi
        have hc₁ : s.nextChan + i < s₁.nextChan := by omega
        refine ReadUpTo.trans Framing.incomplete_nil
          (readUpTo_call hcall Framing.incomplete_nil (live_acceptAll hi)) ?_ ?_
        · exact fun buf' rest hbuf' hlive' => readUpTo_serve hserve hbuf' hc₁ hlive'
        · exact fun hclosed => serve_of_dropped hserve hc₁ hclosed
      · -- the connection comes with a later call
        have hle := Nat.le_of_not_lt hlt
        rw [List.getElem?_append_right hle] at hi
        have hlater := ih (hs.call hcall) hserve hi
        have hchan : s₁.nextChan + (i - call.accepted.length) = s.nextChan + i := by omega
        rw [hchan] at hlater
        have hclosed : (s.acceptAll call.accepted).conns.get? (s.nextChan + i) = none :=
          hs.acceptAll _ _ (by rw [nextChan_acceptAll]; omega)
        obtain ⟨seen, rest, hstream, hdigests, hgains, hopen, hdead⟩ := hlater
        refine ⟨seen, rest, hstream, hdigests, ?_, hopen, hdead⟩
        rw [List.map_cons, (call_of_closed hcall hclosed).1, List.filter_cons_of_neg (by simp)]
        exact hgains

/-- The bytes that have been read of a connection since it was accepted. -/
def received (stream : InputStream) (s : Inbox) (c : Nat) : List UInt8 :=
  match s.conns.get? c with
  | some rest => bytesOf (stream.take (stream.length - rest.length))
  | none => bytesOf stream

theorem flatten_eq_of_filter {gains gains' : List (List β)}
    (h : gains.filter (! ·.isEmpty) = gains'.filter (! ·.isEmpty)) : gains.flatten = gains'.flatten := by
  rw [← List.flatten_filter_not_isEmpty, h, List.flatten_filter_not_isEmpty]

/-- What has been handed out of a connection is what its bytes read so far complete. -/
theorem ReadUpTo.flatten {gains : List (List β)} (h : ReadUpTo R c [] stream gains s') :
    gains.flatten = R.messages (u32Frames.split (received stream s' c)).1 := by
  obtain ⟨seen, rest, rfl, -, hgains, halive, hdead⟩ := h
  rw [flatten_eq_of_filter hgains, Reader.flatten_deliveries Framing.incomplete_nil, List.nil_append,
    received]
  by_cases hf : .failed ∈ seen
  · rw [hdead hf]
    dsimp only
    rw [bytesOf_append_of_failed hf]
  · rw [(halive hf).1]
    dsimp only
    rw [List.length_append, Nat.add_sub_cancel_right, List.take_left]

/-! ### Calls that return

A server whose streams the loop gets through returns from every call; and if it returns from every
call, the loop gets through its streams. -/

/-- The loop gets through what is to come on every connection. -/
structure Ready (R : Reader β) (s : Inbox) : Prop where
  numbered : s.Numbered
  digests : ∀ c stream, s.conns.get? c = some stream →
    ∃ buf, s.buffers.get? c = some buf ∧ u32Frames.Incomplete buf ∧ R.DigestsAll buf stream

theorem ready_new : Ready R new := ⟨numbered_new, fun c stream h => by cases h⟩

theorem Ready.acceptAll (h : s.Ready R) {streams : List InputStream}
    (hstreams : ∀ stream ∈ streams, R.DigestsAll [] stream) : (s.acceptAll streams).Ready R := by
  refine ⟨h.numbered.acceptAll streams, fun c stream hstream => ?_⟩
  by_cases hold : c < s.nextChan
  · obtain ⟨hconns, hbuffers⟩ := get?_acceptAll_of_lt streams hold
    rw [hconns] at hstream
    rw [hbuffers]
    exact h.digests c stream hstream
  · -- a new channel
    have hlt : c < (s.acceptAll streams).nextChan := by
      by_contra hge
      rw [h.numbered.acceptAll streams c (Nat.le_of_not_lt hge)] at hstream
      cases hstream
    rw [nextChan_acceptAll] at hlt
    obtain ⟨i, rfl⟩ := Nat.exists_eq_add_of_le (Nat.le_of_not_lt hold)
    have hi : streams[i]? = some streams[i] := List.getElem?_eq_getElem (by omega)
    obtain ⟨hconns, hbuffers⟩ := live_acceptAll (s := s) hi
    rw [hconns] at hstream
    obtain rfl := Option.some.inj hstream
    exact ⟨[], hbuffers, Framing.incomplete_nil, hstreams _ (List.mem_of_getElem? hi)⟩

theorem Ready.call (h : s.Ready R) (clears : Bool) {call : Call}
    (hstreams : ∀ stream ∈ call.accepted, R.DigestsAll [] stream) :
    ∃ out s', s.call R clears call = .ok (out, s') ∧ s'.Ready R := by
  have hready := h.acceptAll hstreams
  obtain ⟨p, hp⟩ : ∃ p, Poll.pollEach R call.limit ((s.acceptAll call.accepted).iter call.order)
      { inbox := s.acceptAll call.accepted, out := [], toDrop := [] } = .ok p := by
    refine Poll.pollEach_ok (nodup_iter _ _) (fun c hc => ?_)
    obtain ⟨stream, hstream⟩ := OrdMap.mem_keys.mp (mem_iter.mp hc)
    obtain ⟨buf, hbuffer, -, hdigests⟩ := hready.digests c stream hstream
    rw [channel_fresh ⟨hstream, hbuffer⟩]
    exact Poll.canRead_fresh hdigests
  have hcall : s.call R clears call = .ok (p.out, p.cleanUp clears) := by
    unfold Inbox.call
    rw [← Inbox.acceptAll]
    simp only [bind, Except.bind]
    rw [hp]
  refine ⟨p.out, p.cleanUp clears, hcall, h.numbered.call hcall, fun c stream hstream => ?_⟩
  cases hopen : (s.acceptAll call.accepted).conns.get? c with
  | none =>
      rw [(call_of_closed hcall hopen).2] at hstream
      cases hstream
  | some stream₀ =>
      obtain ⟨buf, hbuffer, hbuf, hdigests⟩ := hready.digests c stream₀ hopen
      obtain ⟨seen, rest, rfl, -, -, halive, hdead⟩ := readUpTo_call hcall hbuf ⟨hopen, hbuffer⟩
      by_cases hf : .failed ∈ seen
      · rw [hdead hf] at hstream
        cases hstream
      · obtain ⟨hconns, hbuffers⟩ := halive hf
        rw [hconns] at hstream
        obtain rfl := Option.some.inj hstream
        exact ⟨_, hbuffers, incomplete_unfinished _, hdigests.rest hbuf hf⟩

/-- **Calls return** if the loop gets through what the connections bring. -/
theorem Ready.serve (h : s.Ready R) (clears : Bool) {calls : List Call}
    (hstreams : ∀ stream ∈ acceptedBy calls, R.DigestsAll [] stream) :
    ∃ outs s', s.serve R clears calls = .ok (outs, s') := by
  induction calls generalizing s with
  | nil => exact ⟨[], s, rfl⟩
  | cons call calls ih =>
      obtain ⟨out, s₁, hcall, hready⟩ :=
        h.call clears (fun stream hmem => hstreams stream (List.mem_append_left _ hmem))
      obtain ⟨outs, s', hserve⟩ :=
        ih hready (fun stream hmem => hstreams stream (List.mem_append_right _ hmem))
      refine ⟨out :: outs, s', ?_⟩
      unfold Inbox.serve at hserve ⊢
      rw [callEach, hcall]
      simp only [bind, Except.bind]
      rw [hserve]

/-! ### A server that always returns

A server may read its connections in any order, also with the one in question at the front. If it
returns however often that one is read first, the loop gets through all that the connection brings. -/

/-- A call that reads channel `c` first, on connections that are open already. -/
def readFirst (limit : Option Nat) (c : Nat) : Call := { accepted := [], order := [c], limit }

theorem iter_readFirst (hc : c ∈ s.conns.keys) : ∃ order, s.iter [c] = c :: order := by
  refine ⟨s.conns.keys.filter (· ∉ [c]), ?_⟩
  rw [iter, List.dedup_cons_of_notMem (by simp), List.dedup_nil,
    List.filter_cons_of_pos (by simpa using hc)]
  rfl

theorem readUpTo_readFirst {limit : Option Nat} {out : List (Nat × β)}
    (h : s.call R clears (readFirst limit c) = .ok (out, s')) (hbuf : u32Frames.Incomplete buf)
    {r : Read} {rest : InputStream} (hlive : s.Live c buf (r :: rest)) :
    R.DigestsAll buf [r] ∧ (r ≠ .failed → s'.Live c (unfinished (buf ++ bytesOf [r])) rest) := by
  obtain ⟨p, hp, rfl, rfl⟩ := call_eq_ok h
  obtain ⟨order, horder⟩ := iter_readFirst (OrdMap.mem_keys.mpr ⟨_, hlive.1⟩)
  have hnodup := nodup_iter s [c]
  change Poll.pollEach R limit (s.iter [c]) { inbox := s, out := [], toDrop := [] } = .ok p at hp
  rw [horder] at hp hnodup
  have hturned := (Poll.pollEach_first hnodup hp).resolve_left
    (fun hclosed => by cases hclosed.symm.trans hlive.1)
  rw [channel_fresh hlive] at hturned
  obtain ⟨hdigests, -, halive, -⟩ := readUpTo_turned clears hbuf hturned
  exact ⟨hdigests, halive⟩

/-- **The loop gets through a stream** if the server returns however often it is called. -/
theorem digestsAll_of_serve {limit : Option Nat} (hbuf : u32Frames.Incomplete buf)
    (hlive : s.Live c buf stream)
    (h : ∀ n, ∃ r, s.serve R clears (List.replicate n (readFirst limit c)) = .ok r) :
    R.DigestsAll buf stream := by
  induction stream generalizing s buf with
  | nil => exact trivial
  | cons r rest ih =>
      obtain ⟨⟨outs, s'⟩, hserve⟩ := h 1
      obtain ⟨out, s₁, _, hcall, -, -⟩ := serve_cons hserve
      obtain ⟨hdigests, halive⟩ := readUpTo_readFirst hcall hbuf hlive
      refine Reader.digestsAll_append hbuf hdigests (fun hf => ?_)
      refine ih (incomplete_unfinished _) (halive (by simpa using Ne.symm (by simpa using hf))) ?_
      intro n
      obtain ⟨⟨outs, s'⟩, hserve⟩ := h (n + 1)
      obtain ⟨_, s₂, outs', hcall', hserve', -⟩ := serve_cons hserve
      obtain ⟨-, rfl⟩ := Prod.mk.inj (Except.ok.inj (hcall.symm.trans hcall'))
      exact ⟨_, hserve'⟩

/-- The same for a connection among those that the first call accepts. -/
theorem digestsAll_of_returns {limit : Option Nat} {streams : List InputStream} {i : Nat}
    (hi : streams[i]? = some stream)
    (h : ∀ n, ∃ r, s.serve R clears ({ accepted := streams, order := [], limit } ::
      List.replicate n (readFirst limit (s.nextChan + i))) = .ok r) : R.DigestsAll [] stream := by
  obtain ⟨⟨_, _⟩, hserve⟩ := h 0
  obtain ⟨out, s₁, _, hcall, -, -⟩ := serve_cons hserve
  obtain ⟨seen, rest, rfl, hdigests, -, halive, -⟩ :=
    readUpTo_call hcall Framing.incomplete_nil (live_acceptAll hi)
  have hmore : ∀ n, ∃ r,
      s₁.serve R clears (List.replicate n (readFirst limit (s.nextChan + i))) = .ok r := by
    intro n
    obtain ⟨⟨_, _⟩, hserve⟩ := h n
    obtain ⟨_, s₂, outs, hcall', hserve', -⟩ := serve_cons hserve
    obtain ⟨-, rfl⟩ := Prod.mk.inj (Except.ok.inj (hcall.symm.trans hcall'))
    exact ⟨_, hserve'⟩
  exact Reader.digestsAll_append Framing.incomplete_nil hdigests
    (fun hf => digestsAll_of_serve (incomplete_unfinished _) (halive hf) hmore)

/-! ### One message at a time

A server that takes one message of a read leaves the others behind: what it hands out is the first of
each batch. -/

/-- Of a call for one message, the first message on a channel is the first of all, if there is one. -/
theorem onChan_head?_call {call : Call} {out : List (Nat × β)}
    (h : s.call R clears call = .ok (out, s')) (hone : call.limit = some 1) :
    onChan c out.head?.toList = (onChan c out).take 1 := by
  obtain ⟨p, hp, rfl, rfl⟩ := call_eq_ok h
  rw [hone] at hp
  obtain ⟨chan, msgs, hout⟩ := Poll.pollEach_one hp rfl
  rw [hout]
  cases msgs with
  | nil => rfl
  | cons msg msgs =>
      rw [List.map_cons, List.head?_cons, Option.toList_some]
      by_cases hc : c = chan
      · subst hc
        rw [← List.map_cons (f := fun msg => (c, msg)), onChan_marked]
        simp [onChan]
      · rw [← List.map_cons (f := fun msg => (chan, msg)), onChan_marked_of_ne hc, List.take_nil]
        exact onChan_marked_of_ne hc [msg]

theorem onChan_head?_serve {calls : List Call} {outs : List (List (Nat × β))}
    (h : s.serve R clears calls = .ok (outs, s')) (hone : ∀ call ∈ calls, call.limit = some 1) :
    onChan c (outs.filterMap List.head?) = ((outs.map (onChan c)).map (List.take 1)).flatten := by
  induction calls generalizing s outs with
  | nil =>
      obtain ⟨rfl, rfl⟩ := Prod.mk.inj (Except.ok.inj h)
      rfl
  | cons call calls ih =>
      obtain ⟨out, s₁, outs, hcall, hserve, rfl⟩ := serve_cons h
      have hrest := ih hserve (fun call hmem => hone call (List.mem_cons_of_mem _ hmem))
      have hfirst := onChan_head?_call (c := c) hcall (hone call (List.mem_cons_self ..))
      have hcons : (out :: outs).filterMap List.head? =
          out.head?.toList ++ outs.filterMap List.head? := by
        rw [List.filterMap_cons]
        cases out.head? <;> rfl
      rw [hcons, onChan_append, hfirst, hrest, List.map_cons, List.map_cons, List.flatten_cons]

/-- Nothing is left to read. -/
def Exhausted (s : Inbox) : Prop := ∀ c stream, s.conns.get? c = some stream → stream = []

/-- A connection that has been read to its end has handed out all that its chunks complete. -/
theorem ReadUpTo.all {gains : List (List β)} (h : ReadUpTo R c [] stream gains s')
    (hnone : .failed ∉ stream) (hend : s'.Exhausted) :
    gains.filter (! ·.isEmpty) = (R.deliveries [] stream).filter (! ·.isEmpty) := by
  obtain ⟨seen, rest, rfl, -, hgains, halive, -⟩ := h
  have hseen : .failed ∉ seen := fun hf => hnone (List.mem_append_left _ hf)
  obtain rfl := hend c rest (halive hseen).1
  rwa [List.append_nil]

/-- The first of each list are all there is exactly if no list has more. -/
theorem flatten_take_one_iff {ds : List (List β)} :
    (ds.map (List.take 1)).flatten = ds.flatten ↔ ∀ d ∈ ds, d.length ≤ 1 := by
  have hle : ∀ ds : List (List β), (ds.map (List.take 1)).flatten.length ≤ ds.flatten.length := by
    intro ds
    induction ds with
    | nil => exact Nat.le_refl _
    | cons d ds ih =>
        simp only [List.map_cons, List.flatten_cons, List.length_append, List.length_take]
        omega
  induction ds with
  | nil => simp
  | cons d ds ih =>
      rw [List.map_cons, List.flatten_cons, List.flatten_cons, List.forall_mem_cons]
      constructor
      · intro h
        have hlength := congrArg List.length h
        have hrest := hle ds
        simp only [List.length_append, List.length_take] at hlength
        have hshort : d.length ≤ 1 := by omega
        rw [List.take_of_length_le hshort] at h
        exact ⟨hshort, ih.mp (List.append_cancel_left h)⟩
      · rintro ⟨hshort, hrest⟩
        rw [List.take_of_length_le hshort, ih.mpr hrest]

theorem flatten_take_one_of_filter {gains gains' : List (List β)}
    (h : gains.filter (! ·.isEmpty) = gains'.filter (! ·.isEmpty)) :
    (gains.map (List.take 1)).flatten = (gains'.map (List.take 1)).flatten := by
  have hdrop : ∀ ds : List (List β), (ds.map (List.take 1)).flatten =
      ((ds.filter (! ·.isEmpty)).map (List.take 1)).flatten := by
    intro ds
    induction ds with
    | nil => rfl
    | cons d ds ih => cases d <;> simp [ih]
  rw [hdrop gains, h, ← hdrop]

/-- **One message at a time** gives what many at a time give, over connections read to their ends, if
and only if no chunk completes more than one message. -/
theorem one_at_a_time_iff {calls calls' : List Call} {outs outs' : List (List (Nat × β))}
    {streams : List InputStream} {s₁ s₂ : Inbox}
    (h : new.serve R clears calls = .ok (outs, s₁)) (hone : ∀ call ∈ calls, call.limit = some 1)
    (h' : new.serve R clears calls' = .ok (outs', s₂)) (haccepted : acceptedBy calls = streams)
    (haccepted' : acceptedBy calls' = streams) (hnone : ∀ stream ∈ streams, .failed ∉ stream)
    (hend : s₁.Exhausted) (hend' : s₂.Exhausted) :
    (∀ i < streams.length,
        onChan (i + 1) (outs.filterMap List.head?) = onChan (i + 1) outs'.flatten) ↔
      ∀ stream ∈ streams, ∀ d ∈ R.deliveries [] stream, d.length ≤ 1 := by
  have hchan : ∀ (i : Nat) (hi : i < streams.length),
      (onChan (i + 1) (outs.filterMap List.head?) = onChan (i + 1) outs'.flatten ↔
        ∀ d ∈ R.deliveries [] streams[i], d.length ≤ 1) := by
    intro i hi
    have hget : streams[i]? = some streams[i] := List.getElem?_eq_getElem hi
    have hfails := hnone _ (List.getElem_mem hi)
    have hall := (readUpTo_accepted numbered_new h
      ((congrArg (·[i]?) haccepted).trans hget)).all hfails hend
    have hall' := (readUpTo_accepted numbered_new h'
      ((congrArg (·[i]?) haccepted').trans hget)).all hfails hend'
    rw [show new.nextChan + i = i + 1 from Nat.add_comm 1 i] at hall hall'
    rw [onChan_head?_serve h hone, flatten_take_one_of_filter hall, onChan_flatten,
      flatten_eq_of_filter hall', flatten_take_one_iff]
  constructor
  · intro heq stream hmem
    obtain ⟨i, hi, rfl⟩ := List.mem_iff_getElem.mp hmem
    exact (hchan i hi).mp (heq i hi)
  · exact fun hshort i hi => (hchan i hi).mpr (hshort _ (List.getElem_mem hi))

end Inbox

end PaxosWasm
