import PaxosWasm.Network.NetworkServer
import PaxosWasm.Network.Writes

/-!
# The client server

`network-ws/client-server`, the component that takes requests from clients and sends them the
responses. It remembers which channel a request came from. Where a write of a response fails, it
borrows the two maps that it has borrowed already, and stops.
-/

namespace PaxosWasm

open Library Changelog

/-- `HashMap<(String, u64), u64>`: the channel of a request. It is never iterated over. -/
abbrev RequestMap : Type := String × Nat → Option Nat

namespace RequestMap

def insert (m : RequestMap) (key : String × Nat) (chan : Nat) : RequestMap :=
  Function.update m key (some chan)

def remove (m : RequestMap) (key : String × Nat) : RequestMap := Function.update m key none

/-- `retain(|_, &mut c| c != chan)`, for each of the channels. -/
def forget (m : RequestMap) (chans : List Nat) : RequestMap :=
  fun key => (m key).filter (· ∉ chans)

theorem forget_nil (m : RequestMap) : m.forget [] = m := by
  funext key
  unfold forget
  cases m key <;> simp [Option.filter]

end RequestMap

/-- The state of the resource, apart from its listener. -/
structure ClientServerTcp where
  inbox : Inbox
  req2chan : RequestMap

namespace ClientServerTcp

def new : ClientServerTcp := { inbox := .new, req2chan := fun _ => none }

/-! ## Requests

The connections are those of any server (`Inbox`). On the way the channel of each request is noted, and
forgotten if the channel turns out to be closed. -/

/-- `get_requests`, each request marked with the channel it came from. -/
def getRequests (s : ClientServerTcp) (r : Request) :
    Except Trap (List (Nat × Value) × ClientServerTcp) := do
  let inbox := r.accepted.foldl Inbox.accept s.inbox
  let p ← Poll.pollEach clientReader (some (asUsize r.max)) (inbox.iter r.order)
    { inbox, out := [], toDrop := [] }
  let req2chan := p.out.foldl
    (fun m (chan, v) => m.insert (v.clientId, v.clientSeq) chan) s.req2chan
  .ok (p.out, { inbox := p.cleanUp false, req2chan := req2chan.forget p.toDrop })

/-- `get_request`: the first of `get_requests(1)`. -/
def getRequest (s : ClientServerTcp) (r : Request) :
    Except Trap (Option (Nat × Value) × ClientServerTcp) := do
  let (out, s) ← getRequests s { r with max := 1 }
  .ok (out.head?, s)

/-- What the requests do to the connections. -/
theorem getRequests_inbox (s : ClientServerTcp) (r : Request) :
    s.inbox.call clientReader false r.call =
      (s.getRequests r).map (fun (out, s) => (out, s.inbox)) := by
  unfold getRequests Inbox.call
  simp only [bind, Except.bind]
  have hlimit : r.call.limit = some (asUsize r.max) := rfl
  rw [hlimit]
  split <;> simp_all [Except.map, Request.call]

/-! ## Responses

A response is written to the channel of its request, which is taken out of the map. The borrows of the
source are part of the state: the map is still borrowed when a channel is to be cleaned up. -/

/-- The borrow flag of a `RefCell`. -/
inductive Borrow where
  | free
  /-- So many shared borrows are alive. -/
  | shared (n : Nat)
  | exclusive
deriving DecidableEq, Repr

/-- `borrow`. -/
def Borrow.borrow : Borrow → Except Trap Borrow
  | .free => .ok (.shared 1)
  | .shared n => .ok (.shared (n + 1))
  | .exclusive => .error .borrow

/-- `borrow_mut`. -/
def Borrow.borrowMut : Borrow → Except Trap Borrow
  | .free => .ok .exclusive
  | .shared _ => .error .borrow
  | .exclusive => .error .borrow

/-- A response that has been written, with its channel. -/
structure ResponseWrite where
  chan : Nat
  resp : ClientResponse
  written : Written

/-- The loop over the responses: the map, the writes, and the channels to be dropped. -/
structure Answering where
  req2chan : RequestMap
  writes : List ResponseWrite
  toDrop : List Nat

/-- The key of the request that a response answers. -/
def keyOf (resp : ClientResponse) : String × Nat := (resp.clientId, resp.clientSeq)

def responseMessage (sender : Node) (resp : ClientResponse) : NetworkMessage :=
  { sender, payload := .clientResponse resp }

/-- The loop, and whether it comes to its end. `fails` says on which channels a write fails. -/
def answerEach (fails : Nat → Bool) (conns : OrdMap Nat InputStream) (sender : Node) :
    List ClientResponse → Answering → Answering × Except Trap Unit
  | [], a => (a, .ok ())
  | resp :: replies, a =>
      match a.req2chan (keyOf resp) with
      | none => answerEach fails conns sender replies a
      | some chan =>
          match conns.get? chan with
          | none =>
              answerEach fails conns sender replies
                { a with req2chan := a.req2chan.remove (keyOf resp) }
          | some _ =>
              match (responseMessage sender resp).serialize with
              | .error t => (a, .error t)
              | .ok bytes =>
                  let written := writeWhole (fun _ => !fails chan) bytes
                  answerEach fails conns sender replies
                    { req2chan := a.req2chan.remove (keyOf resp)
                      writes := a.writes ++ [{ chan, resp, written }]
                      toDrop := if written.ok then a.toDrop else a.toDrop ++ [chan] }

/-- `send_responses`: the writes, also if the component stops later, and the new state. No borrow
outlives a call, so at its start both maps are free; the borrows of the loop are alive until the
end. -/
def sendResponses (fails : Nat → Bool) (s : ClientServerTcp) (sender : Node)
    (replies : List ClientResponse) : List ResponseWrite × Except Trap ClientServerTcp :=
  let (a, loop) := answerEach fails s.inbox.conns sender replies
    { req2chan := s.req2chan, writes := [], toDrop := [] }
  (a.writes, do
    let req2chan ← Borrow.free.borrowMut
    let conns ← Borrow.free.borrow
    loop
    if a.toDrop = [] then .ok { s with req2chan := a.req2chan }
    else
      -- the clean-up
      let _ ← conns.borrowMut
      let _ ← req2chan.borrowMut
      .ok
        { inbox := { s.inbox with conns := s.inbox.conns.retain (· ∉ a.toDrop) }
          req2chan := a.req2chan.forget a.toDrop })

/-! ### What the responses come to

The responses that have a channel, with what becomes of the two maps along their list. -/

/-- The responses that are to be written, with their channels: those whose request is mapped to a live
channel. A response answers its request, which is not mapped any more after that. -/
def addressed (conns : OrdMap Nat InputStream) :
    RequestMap → List ClientResponse → List (Nat × ClientResponse)
  | _, [] => []
  | m, resp :: replies =>
      let rest := addressed conns (m.remove (keyOf resp)) replies
      match m (keyOf resp) with
      | none => rest
      | some chan => if (conns.get? chan).isSome then (chan, resp) :: rest else rest

/-- The map without the requests that have been answered. -/
def answered (m : RequestMap) (replies : List ClientResponse) : RequestMap :=
  fun key => if key ∈ replies.map keyOf then none else m key

variable {fails : Nat → Bool} {conns : OrdMap Nat InputStream} {sender : Node}
  {replies : List ClientResponse} {a : Answering} {resp : ClientResponse}

theorem remove_of_none {m : RequestMap} {key : String × Nat} (h : m key = none) :
    m.remove key = m := by
  funext k
  by_cases hk : k = key
  · rw [hk, h]
    exact Function.update_self ..
  · exact Function.update_of_ne hk ..

theorem answered_cons (m : RequestMap) (resp : ClientResponse) (replies : List ClientResponse) :
    answered m (resp :: replies) = answered (m.remove (keyOf resp)) replies := by
  funext key
  unfold answered RequestMap.remove
  rw [List.map_cons]
  by_cases hkey : key = keyOf resp
  · simp [hkey]
  · simp [hkey]

/-- What `answerEach` writes of a response: all of it at once. -/
def writeOf (fails : Nat → Bool) (sender : Node) (x : Nat × ClientResponse) : Except Trap ResponseWrite :=
  (responseMessage sender x.2).serialize.map
    (fun bytes => { chan := x.1, resp := x.2, written := writeWhole (fun _ => !fails x.1) bytes })

/-- The loop when it has written `w`, the write of a response to `chan`. -/
def Answering.wrote (fails : Nat → Bool) (a : Answering) (resp : ClientResponse) (chan : Nat)
    (w : ResponseWrite) : Answering where
  req2chan := a.req2chan.remove (keyOf resp)
  writes := a.writes ++ [w]
  toDrop := if fails chan then a.toDrop ++ [chan] else a.toDrop

/-- **What the loop does with a response**: nothing but to take its request out of the map, if it is
not to be written; otherwise it stops, or writes it. -/
theorem answerEach_cons (a : Answering) (resp : ClientResponse) (replies : List ClientResponse) :
    let later := addressed conns (a.req2chan.remove (keyOf resp)) replies
    (addressed conns a.req2chan (resp :: replies) = later ∧
      answerEach fails conns sender (resp :: replies) a =
        answerEach fails conns sender replies
          { a with req2chan := a.req2chan.remove (keyOf resp) }) ∨
    ∃ chan, addressed conns a.req2chan (resp :: replies) = (chan, resp) :: later ∧
      ((∃ t, writeOf fails sender (chan, resp) = .error t ∧
          answerEach fails conns sender (resp :: replies) a = (a, .error t)) ∨
        ∃ w, writeOf fails sender (chan, resp) = .ok w ∧
          answerEach fails conns sender (resp :: replies) a =
            answerEach fails conns sender replies (a.wrote fails resp chan w)) := by
  intro later
  rw [answerEach, addressed]
  cases hmapped : a.req2chan (keyOf resp) with
  | none => exact Or.inl ⟨rfl, by rw [remove_of_none hmapped]⟩
  | some chan =>
      cases hlive : conns.get? chan with
      | none => exact Or.inl ⟨by simp [hlive, later], by simp [hlive]⟩
      | some stream =>
          refine Or.inr ⟨chan, by simp [hlive, later], ?_⟩
          unfold writeOf
          cases (responseMessage sender resp).serialize with
          | error t => exact Or.inl ⟨t, rfl, by simp [hlive]⟩
          | ok bytes =>
              refine Or.inr ⟨_, rfl, ?_⟩
              simp only [hlive, Answering.wrote, writeWhole]
              cases fails chan <;> rfl

variable (fails conns sender replies) in
/-- **The writes of the loop**, in order, until a response cannot be serialized. -/
theorem writes_answerEach (a : Answering) :
    ∃ writes, (answerEach fails conns sender replies a).1.writes = a.writes ++ writes ∧
      writes.map Except.ok =
        ((addressed conns a.req2chan replies).map (writeOf fails sender)).takeWhile
          (fun w => w.isOk) := by
  induction replies generalizing a with
  | nil => exact ⟨[], by simp [answerEach], rfl⟩
  | cons resp replies ih =>
      rcases answerEach_cons a resp replies with
        ⟨hlater, hloop⟩ | ⟨chan, hpending, ⟨t, hbad, hloop⟩ | ⟨w, hgood, hloop⟩⟩
      · rw [hlater, hloop]
        exact ih _
      · rw [hpending, hloop, List.map_cons, hbad]
        exact ⟨[], by simp, rfl⟩
      · obtain ⟨writes, hwrites, hall⟩ := ih (a.wrote fails resp chan w)
        rw [hpending, hloop, List.map_cons, hgood]
        refine ⟨w :: writes, ?_, ?_⟩
        · rw [hwrites, Answering.wrote, List.append_assoc]
          rfl
        · rw [List.map_cons, hall]
          rfl

/-- **The end of the loop**: if all responses to be written can be serialized, the requests are
answered, and the channels where a write has failed are to be dropped. -/
theorem answerEach_of_ok {a : Answering}
    (h : ∀ x ∈ addressed conns a.req2chan replies, (writeOf fails sender x).isOk = true) :
    (answerEach fails conns sender replies a).2 = .ok () ∧
      (answerEach fails conns sender replies a).1.req2chan = answered a.req2chan replies ∧
      (answerEach fails conns sender replies a).1.toDrop =
        a.toDrop ++ ((addressed conns a.req2chan replies).map Prod.fst).filter fails := by
  induction replies generalizing a with
  | nil =>
      have hnone : answered a.req2chan [] = a.req2chan := funext fun key => if_neg (by simp)
      exact ⟨rfl, hnone.symm, by simp [answerEach, addressed]⟩
  | cons resp replies ih =>
      rw [answered_cons]
      rcases answerEach_cons a resp replies with
        ⟨hlater, hloop⟩ | ⟨chan, hpending, ⟨t, hbad, hloop⟩ | ⟨w, hgood, hloop⟩⟩
      · rw [hlater] at h ⊢
        rw [hloop]
        exact ih h
      · have hfirst := h (chan, resp) (hpending ▸ List.mem_cons_self ..)
        rw [hbad] at hfirst
        cases hfirst
      · rw [hpending] at h ⊢
        rw [hloop]
        obtain ⟨hend, hmap, hdrop⟩ :=
          ih (a := a.wrote fails resp chan w) (fun x hx => h x (List.mem_cons_of_mem _ hx))
        refine ⟨hend, hmap, hdrop.trans ?_⟩
        rw [Answering.wrote]
        cases hfails : fails chan <;> simp [hfails]

/-- A response that cannot be serialized stops the loop. -/
theorem answerEach_of_error {a : Answering}
    (h : ¬ ∀ x ∈ addressed conns a.req2chan replies, (writeOf fails sender x).isOk = true) :
    ∃ t, (answerEach fails conns sender replies a).2 = .error t := by
  induction replies generalizing a with
  | nil => exact absurd (fun x hx => by cases hx) h
  | cons resp replies ih =>
      rcases answerEach_cons a resp replies with
        ⟨hlater, hloop⟩ | ⟨chan, hpending, ⟨t, hbad, hloop⟩ | ⟨w, hgood, hloop⟩⟩
      · rw [hlater] at h
        rw [hloop]
        exact ih h
      · exact ⟨t, by rw [hloop]⟩
      · rw [hpending] at h
        rw [hloop]
        refine ih (fun hall => h (fun x hx => ?_))
        rcases List.mem_cons.mp hx with rfl | hx
        · rw [hgood]
          rfl
        · exact hall x hx

/-! ### Errors of a write

An error is contained if only its channel suffers from it. None is: the cleaning up behind it fails. -/

/-- **Write errors are contained**: the call returns; it has written every response to be written;
the channels where that failed are gone, with the requests mapped to them and those that have been
answered; and everything else is as it was. -/
def Contained (fails : Nat → Bool) (s : ClientServerTcp) (sender : Node)
    (replies : List ClientResponse) : Prop :=
  let pending := addressed s.inbox.conns s.req2chan replies
  let failed := (pending.map Prod.fst).filter fails
  (s.sendResponses fails sender replies).1.map Except.ok = pending.map (writeOf fails sender) ∧
    ∃ s', (s.sendResponses fails sender replies).2 = .ok s' ∧
      (∀ chan, s'.inbox.conns.get? chan =
        if chan ∈ failed then none else s.inbox.conns.get? chan) ∧
      s'.inbox.nextChan = s.inbox.nextChan ∧ s'.inbox.buffers = s.inbox.buffers ∧
      s'.req2chan = (answered s.req2chan replies).forget failed

/-- **Write errors are contained if and only if there are none**: every response that is to be written
can be serialized, and the write does not fail. -/
theorem sendResponses_contained_iff (fails : Nat → Bool) (s : ClientServerTcp) (sender : Node)
    (replies : List ClientResponse) :
    Contained fails s sender replies ↔
      ∀ x ∈ addressed s.inbox.conns s.req2chan replies,
        (responseMessage sender x.2).serialize.isOk = true ∧ fails x.1 = false := by
  unfold Contained sendResponses
  by_cases hok : ∀ x ∈ addressed s.inbox.conns s.req2chan replies, (writeOf fails sender x).isOk = true
  · obtain ⟨hend, hmap, hdrop⟩ := answerEach_of_ok
      (a := { req2chan := s.req2chan, writes := [], toDrop := [] }) hok
    obtain ⟨writes, hwrites, hall⟩ := writes_answerEach fails s.inbox.conns sender replies
      { req2chan := s.req2chan, writes := [], toDrop := [] }
    generalize answerEach fails s.inbox.conns sender replies _ = r at hend hmap hdrop hwrites
    obtain ⟨a, loop⟩ := r
    obtain rfl : loop = .ok () := hend
    dsimp only at hmap hdrop hwrites hall ⊢
    rw [List.nil_append] at hdrop hwrites
    rw [List.takeWhile_eq_self_iff.mpr (fun w hw => by
      obtain ⟨x, hx, rfl⟩ := List.mem_map.mp hw
      exact hok x hx)] at hall
    rw [hmap, hdrop, hwrites]
    simp only [Borrow.borrowMut, Borrow.borrow, bind, Except.bind]
    -- all responses serialize; what is left is whether a write fails
    by_cases hnone : ∀ x ∈ addressed s.inbox.conns s.req2chan replies, fails x.1 = false
    · have hfailed : ((addressed s.inbox.conns s.req2chan replies).map Prod.fst).filter fails = [] := by
        simpa [List.filter_eq_nil_iff] using fun chan resp hx => hnone (chan, resp) hx
      rw [hfailed, if_pos rfl]
      refine iff_of_true ⟨hall, _, rfl, fun _ => by simp, rfl, rfl, (RequestMap.forget_nil _).symm⟩
        (fun x hx => ⟨?_, hnone x hx⟩)
      have hx := hok x hx
      rwa [writeOf, isOk_map] at hx
    · have hfailed : ((addressed s.inbox.conns s.req2chan replies).map Prod.fst).filter fails ≠ [] := by
        simp only [ne_eq, List.filter_eq_nil_iff]
        intro hall
        refine hnone (fun x hx => ?_)
        simpa using hall x.1 (List.mem_map_of_mem hx)
      -- the second borrow of the maps panics
      rw [if_neg hfailed]
      exact iff_of_false (by simp) (fun h => hnone (fun x hx => (h x hx).2))
  · obtain ⟨t, hend⟩ := answerEach_of_error
      (a := { req2chan := s.req2chan, writes := [], toDrop := [] }) hok
    generalize answerEach fails s.inbox.conns sender replies _ = r at hend
    obtain ⟨a, loop⟩ := r
    -- a response that does not serialize stops the loop
    obtain rfl : loop = .error t := hend
    simp only [Borrow.borrowMut, Borrow.borrow, bind, Except.bind]
    refine iff_of_false (by simp) (fun h => hok (fun x hx => ?_))
    rw [writeOf, isOk_map]
    exact (h x hx).1

/-- A client that waits for the response to its first request on channel 1. -/
def oneWaiting : ClientServerTcp where
  inbox := Inbox.new.accept []
  req2chan := RequestMap.insert (fun _ => none) ("c", 1) 1

set_option maxRecDepth 4000 in
/-- **A client that has gone** before its response: the clean-up stops the component. -/
theorem failing_write_stops :
    ¬ ∀ fails s sender replies, Contained fails s sender replies := by
  intro h
  obtain ⟨-, s', hsent, -⟩ := h (fun _ => true) oneWaiting
    { nodeId := 1, address := "a", role := .coordinator }
    [{ clientId := "c", clientSeq := 1, success := true, commandResult := .noOp }]
  have hstops : ((oneWaiting.sendResponses (fun _ => true)
      { nodeId := 1, address := "a", role := .coordinator }
      [{ clientId := "c", clientSeq := 1, success := true, commandResult := .noOp }]).2.isOk) = false := by
    decide
  rw [hsent] at hstops
  cases hstops

end ClientServerTcp

/-! ## One at a time

Both servers hand out single messages as the first of a call for one. -/

def Request.forOne (r : Request) : Request := { r with max := 1 }

/-- A server with connections that is called until nothing is left to read, once for single messages
and once for as many as each call asks for. -/
structure BothFinished {σ β : Type} (one : σ → Request → Except Trap (Option (Nat × β) × σ))
    (all : σ → Request → Except Trap (List (Nat × β) × σ)) (new : σ) (inbox : σ → Inbox)
    (streams : List InputStream) where
  requests : List Request
  requests' : List Request
  outs : List (Option (Nat × β))
  outs' : List (List (Nat × β))
  s : σ
  s' : σ
  accepted : requests.flatMap Request.accepted = streams
  accepted' : requests'.flatMap Request.accepted = streams
  ones : callEach one new requests = .ok (outs, s)
  alls : callEach all new requests' = .ok (outs', s')
  finished : (inbox s).Exhausted
  finished' : (inbox s').Exhausted

namespace BothFinished

variable {σ β : Type} {one : σ → Request → Except Trap (Option (Nat × β) × σ)}
  {all : σ → Request → Except Trap (List (Nat × β) × σ)} {new : σ} {inbox : σ → Inbox}
  {streams : List InputStream}

/-- Of every connection both have handed out the same. -/
def Same (b : BothFinished one all new inbox streams) : Prop :=
  ∀ i < streams.length, onChan (i + 1) b.outs.reduceOption = onChan (i + 1) b.outs'.flatten

theorem same_iff (b : BothFinished one all new inbox streams) (R : Reader β) (clears : Bool)
    (hone : ∀ s r, one s r = (all s r.forOne).map (fun (out, s) => (out.head?, s)))
    (hall : ∀ s r, (inbox s).call R clears r.call = (all s r).map (fun (out, s) => (out, inbox s)))
    (hnew : inbox new = .new) (hnone : ∀ stream ∈ streams, .failed ∉ stream) :
    b.Same ↔ ∀ stream ∈ streams, ∀ d ∈ R.deliveries [] stream, d.length ≤ 1 := by
  -- both runs are runs of the connections
  have hserve : ∀ requests outs s, callEach all new requests = .ok (outs, s) →
      Inbox.new.serve R clears (requests.map Request.call) = .ok (outs, inbox s) := by
    intro requests outs s h
    have hmap := callEach_map all (Inbox.call R clears) id inbox Request.call hall new requests
    rw [hnew, h] at hmap
    rw [Inbox.serve, hmap]
    simp [Except.map]
  have hheads := callEach_map (fun s (r : Request) => all s r.forOne) one List.head? id id hone new
    b.requests
  have hforOne := callEach_congr (fun s (r : Request) => all s r.forOne) all Request.forOne (fun _ _ => rfl) new
    b.requests
  rw [List.map_id, id_eq, b.ones, ← hforOne] at hheads
  cases hmany : callEach all new (b.requests.map Request.forOne) with
  | error t => rw [hmany] at hheads; cases hheads
  | ok r =>
      obtain ⟨outs, s⟩ := r
      rw [hmany] at hheads
      obtain ⟨houts, hs⟩ := Prod.mk.inj (Except.ok.inj hheads)
      have hfirsts : b.outs.reduceOption = outs.filterMap List.head? := by
        rw [houts, List.reduceOption, List.filterMap_map]
        rfl
      unfold Same
      rw [hfirsts]
      have hend : (inbox s).Exhausted := by
        have hfinished := b.finished
        rwa [hs] at hfinished
      refine Inbox.one_at_a_time_iff (hserve _ _ _ hmany) ?_ (hserve _ _ _ b.alls) ?_ ?_ hnone hend
        b.finished'
      · intro call hmem
        obtain ⟨r, hr, rfl⟩ := List.mem_map.mp hmem
        obtain ⟨r, -, rfl⟩ := List.mem_map.mp hr
        rfl
      · refine Eq.trans ?_ b.accepted
        rw [Inbox.acceptedBy, List.map_map, List.flatMap_map]
        rfl
      · refine Eq.trans ?_ b.accepted'
        rw [Inbox.acceptedBy, List.flatMap_map]
        rfl

end BothFinished

/-- **Single messages from the two servers** are all there are, over connections that do not fail and
are read to their ends, if and only if no chunk completes more than one message for the network server,
nor more than one request for the client server. -/
theorem single_receive_suffices_iff {streams streams' : List InputStream}
    (n : BothFinished NetworkServer.getMessage NetworkServer.getMessages .new id streams)
    (m : BothFinished ClientServerTcp.getRequest ClientServerTcp.getRequests .new
      ClientServerTcp.inbox streams')
    (hnone : ∀ stream ∈ streams, .failed ∉ stream) (hnone' : ∀ stream ∈ streams', .failed ∉ stream) :
    (n.Same ∧ m.Same) ↔
      (∀ stream ∈ streams, ∀ d ∈ networkReader.deliveries [] stream, d.length ≤ 1) ∧
        ∀ stream ∈ streams', ∀ d ∈ clientReader.deliveries [] stream, d.length ≤ 1 := by
  refine and_congr ?_ ?_
  · refine n.same_iff networkReader true (fun s r => ?_) (fun s r => ?_) rfl hnone
    · unfold NetworkServer.getMessage
      change NetworkServer.getMessages s r.forOne >>= _ = _
      cases NetworkServer.getMessages s r.forOne <;> rfl
    · show NetworkServer.getMessages s r = _
      cases NetworkServer.getMessages s r <;> rfl
  · refine m.same_iff clientReader false (fun s r => ?_) ClientServerTcp.getRequests_inbox rfl hnone'
    unfold ClientServerTcp.getRequest
    change s.getRequests r.forOne >>= _ = _
    cases s.getRequests r.forOne <;> rfl

theorem exhausted_accept_nil : (Inbox.new.accept []).Exhausted := by
  intro c stream h
  change ((∅ : OrdMap Nat InputStream).insert 1 []).get? c = some stream at h
  rw [OrdMap.get?_insert] at h
  split at h
  · exact (Option.some.inj h).symm
  · cases h

/-- A request of a client. -/
def Letter.clear : Letter :=
  .ofText ("sender=node_id:1,address:a,role:client||" ++
      "payload=client-request,client_id:c,client_seq:1,op:clear")
    { sender := { nodeId := 1, address := "a", role := .client }
      payload := .clientRequest { command := some .clear, clientId := "c", clientSeq := 1 } }
    (by decide) (by decide)

/-! ### Connections of one message and of two

A chunk with one frame and a chunk with two. -/

set_option maxRecDepth 8000 in
/-- A heartbeat in a chunk, for the network server. -/
def oneHeartbeat : BothFinished NetworkServer.getMessage NetworkServer.getMessages .new id
    [[.chunk (Framing.frame Letter.heartbeat.payload)]] where
  requests := [⟨[[.chunk (Framing.frame Letter.heartbeat.payload)]], [], 1⟩]
  requests' := [⟨[[.chunk (Framing.frame Letter.heartbeat.payload)]], [], 1⟩]
  outs := [some (1, Letter.heartbeat.message)]
  outs' := [[(1, Letter.heartbeat.message)]]
  s := Inbox.new.accept []
  s' := Inbox.new.accept []
  accepted := rfl
  accepted' := rfl
  ones := by rfl
  alls := by rfl
  finished := exhausted_accept_nil
  finished' := exhausted_accept_nil

set_option maxRecDepth 8000 in
/-- A request in a chunk, for the client server. -/
def oneClear : BothFinished ClientServerTcp.getRequest ClientServerTcp.getRequests .new
    ClientServerTcp.inbox [[.chunk (Framing.frame Letter.clear.payload)]] where
  requests := [⟨[[.chunk (Framing.frame Letter.clear.payload)]], [], 1⟩]
  requests' := [⟨[[.chunk (Framing.frame Letter.clear.payload)]], [], 1⟩]
  outs := [some (1, { command := some .clear, clientId := "c", clientSeq := 1 })]
  outs' := [[(1, { command := some .clear, clientId := "c", clientSeq := 1 })]]
  s := ⟨Inbox.new.accept [], (RequestMap.insert (fun _ => none) ("c", 1) 1).forget []⟩
  s' := ⟨Inbox.new.accept [], (RequestMap.insert (fun _ => none) ("c", 1) 1).forget []⟩
  accepted := rfl
  accepted' := rfl
  ones := by rfl
  alls := by rfl
  finished := exhausted_accept_nil
  finished' := exhausted_accept_nil

/-- One frame in a chunk. -/
theorem deliveries_frame {β : Type} (R : Reader β) (p : Change) :
    R.deliveries [] [.chunk (Framing.frame p)] = [R.messages [p]] := by
  have hsplit : u32Frames.split (Framing.frame p) = ([p], []) := by
    have h := Framing.split_frames [p]
    rwa [Framing.frames_cons, Framing.frames_nil, List.append_nil] at h
  rw [Reader.deliveries, List.nil_append, hsplit]
  rfl

theorem single_receive_suffices_one : oneHeartbeat.Same ∧ oneClear.Same := by
  have hshort : ∀ {β : Type} (R : Reader β) (p : Change), (R.messages [p]).length ≤ 1 :=
    fun R p => List.length_filterMap_le _ _
  refine (single_receive_suffices_iff oneHeartbeat oneClear (by simp) (by simp)).mpr ⟨?_, ?_⟩
  · intro stream hmem d hd
    rw [List.mem_singleton.mp hmem, deliveries_frame, List.mem_singleton] at hd
    exact hd ▸ hshort _ _
  · intro stream hmem d hd
    rw [List.mem_singleton.mp hmem, deliveries_frame, List.mem_singleton] at hd
    exact hd ▸ hshort _ _

set_option maxRecDepth 8000 in
/-- Two heartbeats in a chunk: the second is gone. -/
def twoHeartbeats : BothFinished NetworkServer.getMessage NetworkServer.getMessages .new id
    [[.chunk (Framing.frames [Letter.heartbeat.payload, Letter.heartbeat.payload])]] where
  requests := [⟨[[.chunk (Framing.frames [Letter.heartbeat.payload, Letter.heartbeat.payload])]], [], 1⟩,
    ⟨[], [], 1⟩]
  requests' := [⟨[[.chunk (Framing.frames [Letter.heartbeat.payload, Letter.heartbeat.payload])]], [], 1⟩]
  outs := [some (1, Letter.heartbeat.message), none]
  outs' := [[(1, Letter.heartbeat.message), (1, Letter.heartbeat.message)]]
  s := Inbox.new.accept []
  s' := Inbox.new.accept []
  accepted := rfl
  accepted' := rfl
  ones := by rfl
  alls := by rfl
  finished := exhausted_accept_nil
  finished' := exhausted_accept_nil

/-- **Two messages in a chunk**: of single messages, one is lost. -/
theorem second_in_chunk_is_lost :
    ¬ ∀ (streams : List InputStream)
      (n : BothFinished NetworkServer.getMessage NetworkServer.getMessages .new id streams),
      (∀ stream ∈ streams, .failed ∉ stream) → n.Same := by
  intro h
  have hsame := h _ twoHeartbeats (by simp) 0 (by decide)
  have hlength := congrArg List.length hsame
  exact absurd hlength (by decide)

end PaxosWasm
