import PaxosWasm.Types

/-!
# The logical client

`run_logical_client` of `modular-ws-client` sends the requests of one client one at a time. Its counter
`next` goes up with each request that could be sent. The rules for a request that takes too long and
for a lost connection are about the request before `next`, also in a round in which there is none.
-/

namespace PaxosWasm

open Library

/-- The local variables of `run_logical_client`. -/
structure LogicalClient where
  next : Nat
  /-- The requests in flight, and when they were sent. -/
  sent : OrdMap Nat Nat
  seen : Finset Nat
  lats : List Nat

namespace LogicalClient

/-! ## The source of the client -/

/-- What a round of the loop gets from the clock and from the resource; a call that traps gives
`none`. -/
structure Round where
  /-- The clock in the condition of the loop. -/
  now : Nat
  sends : Option Bool
  sentAt : Nat
  /-- The clock in the rule for a request that takes too long. -/
  checkedAt : Nat
  /-- The replies, each with the clock when it is looked at, and whether the connection is open. -/
  receives : Option (List (ClientResponse × Nat) × Bool)
  resends : Option Bool

/-- The clock counts nanoseconds. -/
def second : Nat := 10 ^ 9

def maxInFlight : Nat := 1

/-- `next - 1` for a `u64` in a release build; a debug build panics at 0. -/
def pred (next : Nat) : Nat := (next + 2 ^ 64 - 1) % 2 ^ 64

/-- What the function does with its counter: it evaluates `next - 1`, or hands a request to
`send_request`. -/
inductive Action where
  | subtract (next : Nat)
  | request (value : Value)
deriving DecidableEq, Repr

def new : LogicalClient := { next := 0, sent := ∅, seen := ∅, lats := [] }

def request (clientId seq : Nat) : Value :=
  { command := some .demo, clientId := "client-" ++ toString clientId, clientSeq := seq }

/-- The next request, if none is in flight. -/
def sendNext (clientId numRequests : Nat) (c : LogicalClient) (r : Round) :
    List Action × Option LogicalClient :=
  if c.next < numRequests ∧ c.sent.size < maxInFlight then
    ([.request (request clientId c.next)],
      r.sends.map (fun sent =>
        if sent then { c with sent := c.sent.insert c.next r.sentAt, next := c.next + 1 } else c))
  else ([], some c)

/-- A request that takes too long counts as seen. -/
def giveUp (c : LogicalClient) (r : Round) : LogicalClient :=
  let last := pred c.next
  match c.sent.get? last with
  | some timeSent =>
      if r.checkedAt - timeSent > 3 * second then
        { c with sent := c.sent.retain (· ≠ last), seen := insert last c.seen }
      else c
  | none => c

/-- The last request once more, over a new connection. -/
def resend (clientId : Nat) (c : LogicalClient) (r : Round) : List Action × Option LogicalClient :=
  ([.subtract c.next, .request (request clientId (pred c.next))] ++
      (if r.resends.isSome then [.subtract c.next] else []),
    r.resends.map (fun _ => c))

def handleReply (c : LogicalClient) (reply : ClientResponse × Nat) : LogicalClient :=
  let seq := reply.1.clientSeq
  if seq ∈ c.seen then c
  else
    let c := { c with seen := insert seq c.seen }
    match c.sent.get? seq with
    | some t0 => { c with sent := c.sent.retain (· ≠ seq), lats := c.lats ++ [reply.2 - t0] }
    | none => c

/-- The rest of a round, behind the sending. -/
def receive (clientId : Nat) (c : LogicalClient) (r : Round) : List Action × Option LogicalClient :=
  let actions := [.subtract c.next]
  let c := c.giveUp r
  match r.receives with
  | none => (actions, none)
  | some (replies, success) =>
      let (more, c) := if success then ([], some c) else c.resend clientId r
      (actions ++ more, c.map (fun c => replies.foldl handleReply c))

/-- One round; `none` if the function has returned an error. -/
def round (clientId numRequests : Nat) (c : LogicalClient) (r : Round) :
    List Action × Option LogicalClient :=
  match c.sendNext clientId numRequests r with
  | (actions, none) => (actions, none)
  | (actions, some c) =>
      let (more, c) := c.receive clientId r
      (actions ++ more, c)

/-- The loop, over the rounds until the deadline. -/
def loop (clientId numRequests deadline : Nat) : LogicalClient → List Round → List Action
  | _, [] => []
  | c, r :: rs =>
      if c.seen.card < numRequests ∧ r.now < deadline then
        match c.round clientId numRequests r with
        | (actions, none) => actions
        | (actions, some c) => actions ++ loop clientId numRequests deadline c rs
      else []

/-- `run_logical_client`, started at the time `start`. -/
def runLogicalClient (clientId numRequests start timeoutSecs : Nat) (rounds : List Round) :
    List Action :=
  loop clientId numRequests (start + timeoutSecs * second) new rounds

/-- A subtraction does not go below 0, and a request is one of the first `numRequests`. -/
def Action.Fits (numRequests : Nat) : Action → Prop
  | .subtract next => 0 < next
  | .request value => value.clientSeq < numRequests

instance (numRequests : Nat) : DecidablePred (Action.Fits numRequests)
  | .subtract next => inferInstanceAs (Decidable (0 < next))
  | .request value => inferInstanceAs (Decidable (value.clientSeq < numRequests))

variable {clientId numRequests deadline : Nat} {c c' : LogicalClient} {r : Round} {rs : List Round}

/-! ## The counter

The counter names the next request. Only a request that is sent moves it on; giving up a request and
handling its reply leave it. -/

theorem pred_of_pos {next : Nat} (hpos : 0 < next) (hlt : next < 2 ^ 64) : pred next = next - 1 := by
  unfold pred
  omega

theorem next_giveUp (c : LogicalClient) (r : Round) : (c.giveUp r).next = c.next := by
  unfold giveUp
  dsimp only
  split
  · split <;> rfl
  · rfl

theorem next_handleReply (c : LogicalClient) (reply : ClientResponse × Nat) :
    (c.handleReply reply).next = c.next := by
  unfold handleReply
  dsimp only
  split
  · rfl
  · split <;> rfl

theorem next_foldl_handleReply (replies : List (ClientResponse × Nat)) (c : LogicalClient) :
    (replies.foldl handleReply c).next = c.next := by
  induction replies generalizing c with
  | nil => rfl
  | cons reply replies ih => rw [List.foldl_cons, ih, next_handleReply]

/-! ## A round

Behind a request that has been sent, a round counts on among the requests of the client. The one round
that is different is the first, in which nothing may have been sent yet. -/

/-- A counter that counts some of the requests. -/
structure Counting (numRequests : Nat) (c : LogicalClient) : Prop where
  pos : 0 < c.next
  le : c.next ≤ numRequests

theorem fits_sendNext {a : Action} (h : a ∈ (c.sendNext clientId numRequests r).1) :
    a.Fits numRequests := by
  unfold sendNext at h
  split at h
  · next hmay =>
    rw [List.mem_singleton.mp h]
    exact hmay.1
  · cases h

/-- The counter stays or goes on to one more of the requests. -/
theorem next_sendNext (h : (c.sendNext clientId numRequests r).2 = some c') :
    c'.next = c.next ∨ c'.next = c.next + 1 ∧ c.next < numRequests := by
  unfold sendNext at h
  split at h
  · next hmay =>
    obtain ⟨sent, -, rfl⟩ := Option.map_eq_some_iff.mp h
    cases sent with
    | true => exact Or.inr ⟨rfl, hmay.1⟩
    | false => exact Or.inl rfl
  · obtain rfl := Option.some.inj h
    exact Or.inl rfl

theorem Counting.sendNext (hc : c.Counting numRequests)
    (h : (c.sendNext clientId numRequests r).2 = some c') : c'.Counting numRequests := by
  have hpos := hc.pos
  have hle := hc.le
  rcases next_sendNext h with hnext | ⟨hnext, hlt⟩
  · exact ⟨by omega, by omega⟩
  · exact ⟨by omega, by omega⟩

/-- **Behind the sending**, the request before `next` is one of the client's own. -/
theorem Counting.fits_receive (hc : c.Counting numRequests) (hn : numRequests < 2 ^ 64) {a : Action}
    (h : a ∈ (c.receive clientId r).1) : a.Fits numRequests := by
  have hpos := hc.pos
  have hle := hc.le
  have hpred : pred c.next = c.next - 1 := pred_of_pos hpos (by omega)
  have hlast : (Action.request (request clientId (pred c.next))).Fits numRequests := by
    show pred c.next < numRequests
    omega
  unfold receive at h
  dsimp only at h
  split at h
  · rw [List.mem_singleton.mp h]
    exact hpos
  · rcases List.mem_append.mp h with h | h
    · rw [List.mem_singleton.mp h]
      exact hpos
    · split at h
      · cases h
      · unfold resend at h
        rw [next_giveUp] at h
        rcases List.mem_append.mp h with h | h
        · rcases List.mem_pair.mp h with rfl | rfl
          · exact hpos
          · exact hlast
        · split at h
          · rw [List.mem_singleton.mp h]
            exact hpos
          · cases h

theorem next_receive (h : (c.receive clientId r).2 = some c') : c'.next = c.next := by
  unfold receive at h
  dsimp only at h
  split at h
  · cases h
  · obtain ⟨c₁, hc₁, rfl⟩ := Option.map_eq_some_iff.mp h
    rw [next_foldl_handleReply]
    split at hc₁
    · obtain rfl := Option.some.inj hc₁
      exact next_giveUp ..
    · obtain ⟨_, -, rfl⟩ := Option.map_eq_some_iff.mp hc₁
      exact next_giveUp ..

theorem subtract_mem_receive : .subtract c.next ∈ (c.receive clientId r).1 := by
  unfold receive
  dsimp only
  split
  · exact List.mem_singleton_self _
  · exact List.mem_append_left _ (List.mem_singleton_self _)

theorem Counting.receive (hc : c.Counting numRequests)
    (h : (c.receive clientId r).2 = some c') : c'.Counting numRequests := by
  have hnext := next_receive h
  exact ⟨hnext ▸ hc.pos, hnext ▸ hc.le⟩

/-- **A round fits** if the client has sent something once its turn to send is over. -/
theorem round_fits (hn : numRequests < 2 ^ 64)
    (hcount : ∀ c₁, (c.sendNext clientId numRequests r).2 = some c₁ → c₁.Counting numRequests) :
    (∀ a ∈ (c.round clientId numRequests r).1, a.Fits numRequests) ∧
      ∀ c', (c.round clientId numRequests r).2 = some c' → c'.Counting numRequests := by
  unfold round
  have hfits : ∀ a ∈ (c.sendNext clientId numRequests r).1, a.Fits numRequests :=
    fun a ha => fits_sendNext ha
  generalize c.sendNext clientId numRequests r = result at hfits hcount ⊢
  obtain ⟨actions, _ | c₁⟩ := result
  · exact ⟨hfits, fun _ h => (by cases h)⟩
  · have hc₁ := hcount c₁ rfl
    refine ⟨fun a ha => ?_, fun c' h => hc₁.receive h⟩
    rcases List.mem_append.mp ha with ha | ha
    · exact hfits a ha
    · exact hc₁.fits_receive hn ha

/-! ## The run

What becomes of a run is decided at its first request: refused, and with a connection that stays, the
client subtracts 1 from 0. -/

/-- **A client that has sent something** goes on with requests of its own. -/
theorem Counting.loop (hc : c.Counting numRequests) (hn : numRequests < 2 ^ 64) {a : Action}
    (h : a ∈ loop clientId numRequests deadline c rs) : a.Fits numRequests := by
  induction rs generalizing c with
  | nil => cases h
  | cons r rs ih =>
      rw [LogicalClient.loop] at h
      split at h
      · obtain ⟨hfits, hcount⟩ := round_fits hn
          (fun c₁ (h₁ : (c.sendNext clientId numRequests r).2 = some c₁) => hc.sendNext h₁)
        generalize c.round clientId numRequests r = result at h hfits hcount
        obtain ⟨actions, _ | c'⟩ := result
        · exact hfits a h
        · rcases List.mem_append.mp h with h | h
          · exact hfits a h
          · exact ih (hcount c' rfl) h
      · cases h

/-- The first request can be sent, or its call does not return, or no round begins. -/
def SendsFirst (numRequests deadline : Nat) (rounds : List Round) : Prop :=
  ∀ r ∈ rounds.head?, 0 < numRequests → r.now < deadline → r.sends ≠ some false

instance (numRequests deadline : Nat) : DecidablePred (SendsFirst numRequests deadline) :=
  fun rounds => inferInstanceAs (Decidable (∀ r ∈ rounds.head?, _))

theorem sendNext_new (hpos : 0 < numRequests) :
    new.sendNext clientId numRequests r = ([.request (request clientId 0)],
      r.sends.map (fun sent =>
        if sent then { new with sent := new.sent.insert 0 r.sentAt, next := 1 } else new)) :=
  if_pos ⟨hpos, Nat.zero_lt_one⟩

/-- Not refused, the first request makes the client one that has sent something. -/
theorem counting_sendNext_new (hpos : 0 < numRequests) (hsends : r.sends ≠ some false)
    (h : (new.sendNext clientId numRequests r).2 = some c) : c.Counting numRequests := by
  rw [sendNext_new hpos] at h
  obtain ⟨sent, hsent, rfl⟩ := Option.map_eq_some_iff.mp h
  cases sent with
  | false => exact absurd hsent hsends
  | true => exact ⟨Nat.zero_lt_one, hpos⟩

/-- Refused, the client takes 1 from 0 in its first round. -/
theorem subtract_mem_round_new (hpos : 0 < numRequests) (hsends : r.sends = some false) :
    .subtract 0 ∈ (new.round clientId numRequests r).1 := by
  have hmem : .subtract 0 ∈ (new.receive clientId r).1 := subtract_mem_receive
  rw [round, sendNext_new hpos, hsends]
  exact List.mem_append_right _ hmem

/-- **The client sends only requests of its own**, and never goes below 0, if and only if it is not
refused its first request. -/
theorem fits_iff_sendsFirst (clientId : Nat) {numRequests : Nat} (hn : numRequests < 2 ^ 64)
    (start timeoutSecs : Nat) (rounds : List Round) :
    (∀ a ∈ runLogicalClient clientId numRequests start timeoutSecs rounds, a.Fits numRequests) ↔
      SendsFirst numRequests (start + timeoutSecs * second) rounds := by
  unfold runLogicalClient SendsFirst
  generalize start + timeoutSecs * second = deadline
  cases rounds with
  | nil => simp [loop]
  | cons r rs =>
      simp only [List.head?_cons, Option.mem_some_iff, forall_eq']
      rw [loop]
      split
      · next hbegins =>
        obtain ⟨hpos, hnow⟩ := hbegins
        have hpos : 0 < numRequests := hpos
        constructor
        · intro hall _ _ hsends
          have hmem : .subtract 0 ∈ (new.round clientId numRequests r).1 :=
            subtract_mem_round_new hpos hsends
          generalize new.round clientId numRequests r = result at hall hmem
          obtain ⟨actions, _ | c⟩ := result
          · exact absurd (hall _ hmem) (lt_irrefl 0)
          · exact absurd (hall _ (List.mem_append_left _ hmem)) (lt_irrefl 0)
        · intro hsends
          have hround := round_fits hn (fun c₁ (h₁ : (new.sendNext clientId numRequests r).2 = some c₁) =>
            counting_sendNext_new hpos (hsends hpos hnow) h₁)
          generalize new.round clientId numRequests r = result at hround ⊢
          obtain ⟨hfits, hcount⟩ := hround
          obtain ⟨actions, _ | c⟩ := result
          · exact hfits
          · intro a ha
            rcases List.mem_append.mp ha with ha | ha
            · exact hfits a ha
            · exact (hcount c rfl).loop hn ha
      · next hends =>
        refine iff_of_true (fun a ha => (by cases ha)) (fun hpos hnow => ?_)
        exact absurd ⟨hpos, hnow⟩ hends

/-- A round without a reply. -/
def quietRound (sends : Bool) (isOpen : Bool) : Round :=
  { now := 0, sends := some sends, sentAt := 0, checkedAt := 0, receives := some ([], isOpen),
    resends := some true }

theorem fits_one_round :
    .request (request 1 0) ∈ runLogicalClient 1 1 0 5 [quietRound true false] ∧
      ∀ a ∈ runLogicalClient 1 1 0 5 [quietRound true false], a.Fits 1 :=
  ⟨by decide, (fits_iff_sendsFirst 1 (by decide) 0 5 [quietRound true false]).mpr (by decide)⟩

/-- **A client that is refused its first request**, and whose connection is lost: it goes below 0, and
sends the request with the greatest number of all. -/
theorem refused_client_sends_last :
    ¬ (∀ a ∈ runLogicalClient 1 1 0 5 [quietRound false false], a.Fits 1) ∧
      .request (request 1 (2 ^ 64 - 1)) ∈ runLogicalClient 1 1 0 5 [quietRound false false] := by
  decide

end LogicalClient

end PaxosWasm
