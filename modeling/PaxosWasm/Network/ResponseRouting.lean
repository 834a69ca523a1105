import PaxosWasm.Library.Routing
import PaxosWasm.Library.Run
import PaxosWasm.Network.ClientServer

/-!
# Whom the responses go to

The client server knows a request by its client and its number, which nothing keeps two connections from
sharing. A response goes to the connection that was the last to send the request, and once only: from the
start of the component until it stops, whatever arrives, breaks or is answered.
-/

namespace PaxosWasm

open Library

namespace Inbox

variable {β : Type} {R : Reader β} {clears : Bool} {s s' : Inbox} {call : Call} {out : List (Nat × β)} {c : Nat}

/-- The channel is open, or not given to a connection yet. -/
def MayOpen (s : Inbox) (c : Nat) : Prop := s.nextChan ≤ c ∨ (s.conns.get? c).isSome = true

theorem nextChan_le_call (h : s.call R clears call = .ok (out, s')) : s.nextChan ≤ s'.nextChan := by
  rw [nextChan_call h]
  exact Nat.le_add_right _ _

/-- **What is closed stays closed**: a call opens new channels only. -/
theorem MayOpen.of_call (h : s.call R clears call = .ok (out, s')) (hc : s'.MayOpen c) : s.MayOpen c := by
  rcases hc with hc | hc
  · exact Or.inl ((nextChan_le_call h).trans hc)
  · rcases Nat.lt_or_ge c s.nextChan with hlt | hge
    · refine Or.inr ?_
      rw [← (get?_acceptAll_of_lt call.accepted hlt).1]
      by_contra hclosed
      rw [(call_of_closed h (Option.not_isSome_iff_eq_none.mp hclosed)).2] at hc
      cases hc
    · exact Or.inl hge

/-- A message that is handed out comes from a channel that has been given to a connection. -/
theorem lt_nextChan_of_mem_call (hs : s.Numbered) (h : s.call R clears call = .ok (out, s')) {x : Nat × β}
    (hx : x ∈ out) : x.1 < s'.nextChan := by
  by_contra hge
  rw [nextChan_call h, ← nextChan_acceptAll] at hge
  have hnone := (call_of_closed h (hs.acceptAll call.accepted x.1 (not_lt.mp hge))).1
  have hmem : x.2 ∈ onChan x.1 out :=
    List.mem_map_of_mem (List.mem_filter.mpr ⟨hx, decide_eq_true rfl⟩)
  rw [hnone] at hmem
  cases hmem

/-- What may be open after a call has not been dropped in it. -/
theorem notMem_toDrop_of_mayOpen (hs : s.Numbered) {p : Poll β}
    (hp : Poll.pollEach R call.limit ((s.acceptAll call.accepted).iter call.order)
      { inbox := s.acceptAll call.accepted, out := [], toDrop := [] } = .ok p)
    (hc : (p.cleanUp clears).MayOpen c) : c ∉ p.toDrop := by
  rcases hc with hc | hc
  · -- nobody has this channel yet, so it has had no turn
    obtain ⟨hchannels, hnext⟩ := Poll.pollEach_channel (nodup_iter _ _) hp
    have hclosed := hs.acceptAll call.accepted c (hnext ▸ hc)
    rcases hchannels c with he | ⟨-, stream, -, hstream, -, -⟩
    · have hdrop := congrArg Channel.dropped he
      simpa [Poll.channel] using hdrop
    · rw [Poll.channel, hclosed] at hstream
      cases hstream
  · intro hdrop
    rw [get?_cleanUp_of_dropped rfl (decide_eq_true hdrop)] at hc
    cases hc

end Inbox

namespace ClientServerTcp

variable {s s' : ClientServerTcp} {r : Request} {out : List (Nat × Value)}

/-- What is done for a request that has been taken, and for a response that has been sent. -/
abbrev Log : Type := List (Traffic (String × Nat) Nat)

def keyOfRequest (v : Value) : String × Nat := (v.clientId, v.clientSeq)

def taken (x : Nat × Value) : Traffic (String × Nat) Nat := .taken x.1 (keyOfRequest x.2)

def ResponseWrite.traffic (w : ResponseWrite) : Traffic (String × Nat) Nat := .answered w.chan (keyOf w.resp)

/-- A call of the component. -/
inductive Op where
  | getRequests (r : Request)
  | sendResponses (fails : Nat → Bool) (sender : Node) (replies : List ClientResponse)

/-- The component, unless it has stopped, and what it has done. -/
structure Serving where
  server : Option ClientServerTcp
  log : Log

namespace Serving

def start : Serving := { server := some .new, log := [] }

def step (x : Serving) (op : Op) : Serving :=
  match x.server with
  | none => x
  | some s =>
      match op with
      | .getRequests r =>
          match s.getRequests r with
          | .error _ => { x with server := none }
          | .ok (out, s) => { server := some s, log := x.log ++ out.map taken }
      | .sendResponses fails sender replies =>
          { server := (s.sendResponses fails sender replies).2.toOption
            log := x.log ++ (s.sendResponses fails sender replies).1.map ResponseWrite.traffic }

end Serving

/-! ## Requests

A request is noted with the channel it came from, which is open at the end of the call or forgotten
again. -/

theorem getRequests_eq_ok (h : s.getRequests r = .ok (out, s')) :
    ∃ (p : Poll Value) (record : RequestMap → Nat × Value → RequestMap),
      Poll.pollEach clientReader (some (asUsize r.max)) ((s.inbox.acceptAll r.accepted).iter r.order)
        { inbox := s.inbox.acceptAll r.accepted, out := [], toDrop := [] } = .ok p ∧
      (∀ m x, record m x = Function.update m (keyOfRequest x.2) (some x.1)) ∧
      out = p.out ∧ s'.inbox = p.cleanUp false ∧
      s'.req2chan = (p.out.foldl record s.req2chan).forget p.toDrop := by
  unfold getRequests at h
  simp only [bind, Except.bind] at h
  split at h
  · cases h
  · next p hp =>
    obtain ⟨rfl, rfl⟩ := Prod.mk.inj (Except.ok.inj h)
    exact ⟨p, _, hp, fun _ _ => rfl, rfl, rfl, rfl⟩

/-- **What the component maintains**: the channels of its map are given out, and it knows whom to answer. -/
structure Knows (s : ClientServerTcp) (log : Log) : Prop where
  numbered : s.inbox.Numbered
  early : ∀ k chan, s.req2chan k = some chan → chan < s.inbox.nextChan
  tracks : Traffic.Tracks s.inbox.MayOpen s.req2chan log

variable {log : Log}

theorem knows_new : Knows new [] := by
  refine ⟨Inbox.numbered_new, ?_, Traffic.tracks_nil _⟩
  intro k chan h
  cases h

/-- **Requests are taken**: what is dropped on the way was open, and is closed for good. -/
theorem Knows.getRequests (h : s.Knows log) (hr : Traffic.Routed log)
    (hok : s.getRequests r = .ok (out, s')) :
    s'.Knows (log ++ out.map taken) ∧ Traffic.Routed (log ++ out.map taken) := by
  have hcall : s.inbox.call clientReader false r.call = .ok (out, s'.inbox) := by
    rw [getRequests_inbox, hok]
    rfl
  obtain ⟨p, record, hp, hrecord, rfl, hinbox, hmap⟩ := getRequests_eq_ok hok
  obtain ⟨htracks, hrouted, hfrom⟩ := h.tracks.takeEach record Prod.fst (fun x => keyOfRequest x.2) hrecord
    p.out hr
  have hkept : ∀ chan, (p.cleanUp false).MayOpen chan → chan ∉ p.toDrop :=
    fun chan hopen => Inbox.notMem_toDrop_of_mayOpen h.numbered (show Poll.pollEach clientReader r.call.limit
      ((s.inbox.acceptAll r.call.accepted).iter r.call.order) _ = .ok p from hp) hopen
  have hforget : ∀ k chan, s'.req2chan k = some chan ↔
      p.out.foldl record s.req2chan k = some chan ∧ chan ∉ p.toDrop := by
    intro k chan
    rw [hmap, RequestMap.forget, Option.filter_eq_some_iff]
    simp
  refine ⟨⟨h.numbered.call hcall, ?_, ?_⟩, hrouted⟩
  · intro k chan hk
    rcases hfrom k chan ((hforget k chan).mp hk).1 with hold | ⟨x, hx, rfl⟩
    · exact (h.early k chan hold).trans_le (Inbox.nextChan_le_call hcall)
    · exact Inbox.lt_nextChan_of_mem_call h.numbered hcall hx
  · apply htracks.forget
    · intro k chan hk
      exact ((hforget k chan).mp hk).1
    · intro chan hopen
      exact hopen.of_call hcall
    · intro k chan hopen hk
      rw [hinbox] at hopen
      exact (hforget k chan).mpr ⟨hk, hkept chan hopen⟩

/-! ## Responses

The loop takes each request out of the map when it answers it. What it has not come to stays in the map,
with an open channel. -/

/-- Answers that have been sent to whom they were due, from one state of the loop to another. -/
structure Answering.Routes (live : Nat → Prop) (log : Log) (a a' : Answering) : Prop where
  tracks : Traffic.Tracks live a'.req2chan (log ++ a'.writes.map ResponseWrite.traffic)
  routed : Traffic.Routed (log ++ a'.writes.map ResponseWrite.traffic)
  sub : ∀ k chan, a'.req2chan k = some chan → a.req2chan k = some chan

theorem remove_eq_some {m : RequestMap} {key k : String × Nat} {chan : Nat} :
    m.remove key k = some chan ↔ k ≠ key ∧ m k = some chan := by
  by_cases he : k = key
  · simp [RequestMap.remove, he]
  · simp [RequestMap.remove, he]

/-- **The loop over the responses** sends each to whom it is due. -/
theorem answerEach_routes {live : Nat → Prop} {fails : Nat → Bool} {conns : OrdMap Nat InputStream}
    {sender : Node} (replies : List ClientResponse) {a : Answering}
    (hdead : ∀ k chan, a.req2chan k = some chan → conns.get? chan = none → ¬ live chan)
    (ht : Traffic.Tracks live a.req2chan (log ++ a.writes.map ResponseWrite.traffic))
    (hr : Traffic.Routed (log ++ a.writes.map ResponseWrite.traffic)) :
    Answering.Routes live log a (answerEach fails conns sender replies a).1 := by
  induction replies generalizing a with
  | nil => exact ⟨ht, hr, fun _ _ hk => hk⟩
  | cons resp replies ih =>
      have hdead' : ∀ k chan, a.req2chan.remove (keyOf resp) k = some chan → conns.get? chan = none →
          ¬ live chan := fun k chan hk => hdead k chan (remove_eq_some.mp hk).2
      rw [answerEach]
      cases hmapped : a.req2chan (keyOf resp) with
      | none => exact ih hdead ht hr
      | some chan =>
          dsimp only
          cases hconn : conns.get? chan with
          | none =>
              -- nobody is there any more: the request is forgotten
              have hforgotten : Traffic.Tracks live (a.req2chan.remove (keyOf resp))
                  (log ++ a.writes.map ResponseWrite.traffic) := by
                apply ht.forget
                · intro k c hk
                  exact (remove_eq_some.mp hk).2
                · exact fun _ hc => hc
                · intro k c hlive hk
                  refine remove_eq_some.mpr ⟨?_, hk⟩
                  rintro rfl
                  rw [hmapped] at hk
                  obtain rfl := Option.some.inj hk
                  exact hdead _ _ hmapped hconn hlive
              have h := ih (a := { a with req2chan := a.req2chan.remove (keyOf resp) }) hdead' hforgotten hr
              exact ⟨h.tracks, h.routed, fun k c hk => (remove_eq_some.mp (h.sub k c hk)).2⟩
          | some stream =>
              dsimp only
              cases hbytes : (responseMessage sender resp).serialize with
              | error t => exact ⟨ht, hr, fun _ _ hk => hk⟩
              | ok bytes =>
                  have hlast := ht.due (keyOf resp) chan hmapped
                  have h := ih (a :=
                    { req2chan := a.req2chan.remove (keyOf resp)
                      writes := a.writes ++ [{ chan, resp, written := writeWhole (fun _ => !fails chan) bytes }]
                      toDrop := if (writeWhole (fun _ => !fails chan) bytes).ok then a.toDrop
                        else a.toDrop ++ [chan] })
                    hdead' (by
                      rw [List.map_append, ← List.append_assoc]
                      exact ht.answer chan (keyOf resp))
                    (by
                      rw [List.map_append, ← List.append_assoc]
                      exact hr.answer hlast)
                  exact ⟨h.tracks, h.routed, fun k c hk => (remove_eq_some.mp (h.sub k c hk)).2⟩

/-- A component that goes on has dropped nobody. -/
theorem sendResponses_eq_ok {fails : Nat → Bool} {sender : Node} {replies : List ClientResponse}
    (h : (s.sendResponses fails sender replies).2 = .ok s') :
    s' = { s with req2chan := (answerEach fails s.inbox.conns sender replies
      { req2chan := s.req2chan, writes := [], toDrop := [] }).1.req2chan } := by
  unfold sendResponses at h
  generalize answerEach fails s.inbox.conns sender replies _ = answering at h ⊢
  obtain ⟨a, loop⟩ := answering
  simp only [Borrow.borrowMut, Borrow.borrow, bind, Except.bind] at h
  split at h
  · cases h
  · split at h
    · exact (Except.ok.inj h).symm
    · cases h

theorem Knows.sendResponses (h : s.Knows log) (hr : Traffic.Routed log) (fails : Nat → Bool) (sender : Node)
    (replies : List ClientResponse) :
    let sent := s.sendResponses fails sender replies
    Traffic.Routed (log ++ sent.1.map ResponseWrite.traffic) ∧
      ∀ s', sent.2 = .ok s' → s'.Knows (log ++ sent.1.map ResponseWrite.traffic) := by
  have hdead : ∀ k chan, s.req2chan k = some chan → s.inbox.conns.get? chan = none →
      ¬ s.inbox.MayOpen chan := by
    rintro k chan hk hnone (hopen | hopen)
    · exact absurd (h.early k chan hk) (not_lt.mpr hopen)
    · rw [hnone] at hopen
      cases hopen
  have hstart : log = log ++ ([] : List ResponseWrite).map ResponseWrite.traffic := (List.append_nil log).symm
  have hroutes : Answering.Routes s.inbox.MayOpen log { req2chan := s.req2chan, writes := [], toDrop := [] }
      (answerEach fails s.inbox.conns sender replies { req2chan := s.req2chan, writes := [], toDrop := [] }).1 :=
    answerEach_routes replies hdead (hstart ▸ h.tracks) (hstart ▸ hr)
  refine ⟨hroutes.routed, fun s' hs' => ?_⟩
  rw [sendResponses_eq_ok hs']
  exact ⟨h.numbered, fun k chan hk => h.early k chan (hroutes.sub k chan hk), hroutes.tracks⟩

/-! ## Runs

`Knows` holds at the start, and every call keeps it. So what is sent in a run goes where it is due. -/

theorem Serving.knows_step (x : Serving) (op : Op)
    (h : Traffic.Routed x.log ∧ ∀ s, x.server = some s → s.Knows x.log) :
    Traffic.Routed (x.step op).log ∧ ∀ s, (x.step op).server = some s → s.Knows (x.step op).log := by
  obtain ⟨server, log⟩ := x
  obtain ⟨hr, hknows⟩ := h
  cases server with
  | none => exact ⟨hr, hknows⟩
  | some s =>
      have hs := hknows s rfl
      cases op with
      | getRequests r =>
          cases hok : s.getRequests r with
          | error t =>
              simp only [Serving.step, hok]
              exact ⟨hr, nofun⟩
          | ok res =>
              obtain ⟨out, s'⟩ := res
              obtain ⟨hs', hr'⟩ := hs.getRequests hr hok
              simp only [Serving.step, hok]
              refine ⟨hr', fun s'' he => ?_⟩
              rw [← Option.some.inj he]
              exact hs'
      | sendResponses fails sender replies =>
          obtain ⟨hr', hs'⟩ := hs.sendResponses hr fails sender replies
          refine ⟨hr', fun s' he => hs' s' ?_⟩
          simp only [Serving.step] at he
          cases hsent : (s.sendResponses fails sender replies).2 with
          | error t =>
              rw [hsent] at he
              cases he
          | ok s'' =>
              rw [hsent] at he
              rw [Option.some.inj he]

/-- **Responses are routed**: over any run of the component, a response goes to the connection that was the
last to send the request and has not been answered since; no connection gets more responses for a request
than it has sent it; and of the open connections the component knows exactly those that are due one. -/
theorem responses_routed (ops : List Op) :
    let x := run Serving.step .start ops
    Traffic.Routed x.log ∧
      (∀ chan k, x.log.count (.answered chan k) ≤ x.log.count (.taken chan k)) ∧
      ∀ s, x.server = some s → ∀ chan k, (s.inbox.conns.get? chan).isSome = true →
        (s.req2chan k = some chan ↔ Traffic.last k x.log = some (.taken chan k)) := by
  intro x
  have hstart : Traffic.Routed Serving.start.log ∧
      ∀ s, Serving.start.server = some s → s.Knows Serving.start.log := by
    refine ⟨Traffic.routed_nil, fun s hs => ?_⟩
    rw [← Option.some.inj hs]
    exact knows_new
  obtain ⟨hr, hknows⟩ : Traffic.Routed x.log ∧ ∀ s, x.server = some s → s.Knows x.log :=
    run_invariant (P := fun x : Serving => Traffic.Routed x.log ∧ ∀ s, x.server = some s → s.Knows x.log)
      (fun x op h => x.knows_step op h) hstart ops
  refine ⟨hr, fun chan k => (Nat.le_add_right _ _).trans (hr.count_le chan k), ?_⟩
  intro s hs chan k hopen
  exact ⟨(hknows s hs).tracks.due k chan, (hknows s hs).tracks.all k chan (Or.inr hopen)⟩

end ClientServerTcp

end PaxosWasm
