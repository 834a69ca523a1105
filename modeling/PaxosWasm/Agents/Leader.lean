import PaxosWasm.Agents.ProposerAgent

/-!
# The leader behind the proposer agent

What the proposer agent is for: raise a ballot, collect promises, propose values in the slots that
follow, collect acceptances, announce what is chosen. `Leader` keeps what these steps are about,
`Leader.Step` says what each of them may do, and every handler of the agent is a sequence of them
(`Steps`). Results about the agent are then proved once for each kind of step.
-/

namespace PaxosWasm

open Library

/-! ## Messages by kind -/

def MessagePayload.accept? : MessagePayload → Option Accept
  | .accept a => some a
  | _ => none

def MessagePayload.learn? : MessagePayload → Option Learn
  | .learn l => some l
  | _ => none

/-- The `Accept`s among the messages. -/
def acceptsOf (sent : List Sent) : List Accept := sent.filterMap (fun s => s.message.payload.accept?)

/-- The `Learn`s among the messages. -/
def learnsOf (sent : List Sent) : List Learn := sent.filterMap (fun s => s.message.payload.learn?)

theorem mem_acceptsOf {sent : List Sent} {a : Accept} :
    a ∈ acceptsOf sent ↔ ∃ s ∈ sent, s.message.payload = .accept a := by
  have hacc : ∀ p : MessagePayload, p.accept? = some a ↔ p = .accept a := by
    intro p
    cases p <;> simp [MessagePayload.accept?]
  simp [acceptsOf, hacc]

theorem mem_learnsOf {sent : List Sent} {l : Learn} :
    l ∈ learnsOf sent ↔ ∃ s ∈ sent, s.message.payload = .learn l := by
  have hlearn : ∀ p : MessagePayload, p.learn? = some l ↔ p = .learn l := by
    intro p
    cases p <;> simp [MessagePayload.learn?]
  simp [learnsOf, hlearn]

def Proposal.toAccept (p : Proposal) : Accept := { slot := p.slot, ballot := p.ballot, value := p.value }

/-- The kinds of messages a proposer sends. -/
def MessagePayload.isProposers : MessagePayload → Bool
  | .prepare _ => true
  | .accept _ => true
  | .learn _ => true
  | .adu _ => true
  | .heartbeat => true
  | _ => false

/-! ## The abstract leader

A leader has a ballot, a slot counter, proposals and the promises and acceptances it has collected. `Step`
says what it may do with them, and `Given` what comes from outside. -/

/-- What never changes in a proposer agent. -/
structure Leader.Frame where
  config : RunConfig
  node : Node
  acceptors : List Node
  learners : List Node
  quorum : Nat
  ballotDelta : Ballot

structure Leader where
  frame : Leader.Frame
  phase : PaxosPhase
  ballot : Ballot
  slot : Slot
  proposals : OrdMap Slot ProposalEntry
  /-- Proposals not yet broadcast. -/
  pending : List Proposal
  promises : OrdMap Ballot (OrdMap NodeId Promise)
  inFlightAccepted : OrdMap Slot (OrdMap NodeId Accepted)
  accepts : List Accept
  learns : List Learn
  /-- Messages no proposer should send, or under another node's name. -/
  stray : List Sent

namespace Leader

/-- Promises for `ballot` have come from a quorum of distinct senders. -/
def Elected (l : Leader) (ballot : Ballot) : Prop :=
  ∃ k group, l.promises.get? k = some group ∧
    l.frame.quorum ≤ (group.values.filter (fun p => decide (p.ballot = ballot))).length

/-- The acceptances of `slot` that match its proposal, by sender. -/
def matching (group : OrdMap NodeId Accepted) (p : Proposal) : List Accepted :=
  group.values.filter
    (fun a => decide (a.slot = p.slot) && decide (a.ballot = p.ballot) && a.success)

/-- Acceptances that match the proposal of `slot` have come from a quorum of distinct senders. -/
def Acclaimed (l : Leader) (slot : Slot) (p : Proposal) : Prop :=
  ∃ group, l.inFlightAccepted.get? slot = some group ∧ l.frame.quorum ≤ (matching group p).length

/-- The proposal of `value` in the next slot. -/
def nextProposal (l : Leader) (value : Value) : Proposal :=
  { slot := l.slot + 1, ballot := l.ballot, value }

/-- What a leader's surroundings hand to it, and two steps a law may have to exclude: a completed
Phase 1 that moves the slot counter, and a new ballot without a new Phase 1. -/
structure Given where
  promise : Promise → NodeId → Prop
  accepted : Leader → Accepted → NodeId → Prop
  resets : Leader → Slot → Prop
  usurps : Prop

/-- **What a leader may do.** -/
inductive Step (g : Given) : Leader → Leader → Prop
  | setPhase (l : Leader) {phase : PaxosPhase} (h : phase ≠ .acceptCommit) : Step g l { l with phase }
  | promised (l : Leader) {p : Promise} {i : NodeId} (h : g.promise p i) :
      Step g l { l with
        promises := l.promises.insert p.ballot (((l.promises.get? p.ballot).getD ∅).insert i p) }
  | elected (l : Leader) {minSlot : Slot} {phase : PaxosPhase} (hpending : l.pending = [])
      (helected : l.frame.config.isEventDriven = true → l.Elected l.ballot)
      (h : g.resets l minSlot) :
      Step g l { l with phase, slot := if l.slot > minSlot then l.slot else minSlot - 1 }
  | raised (l : Leader) (hpending : l.pending = []) (h : l.phase ≠ .acceptCommit ∨ g.usurps) :
      Step g l { l with ballot := l.ballot + l.frame.ballotDelta }
  | created (l : Leader) {value : Value} (h : l.phase = .acceptCommit) :
      Step g l { l with
        slot := l.slot + 1
        proposals := l.proposals.insert (l.slot + 1)
          { proposal := l.nextProposal value, status := .inFlight }
        pending := l.pending ++ [l.nextProposal value] }
  | broadcast (l : Leader) {p : Proposal} {rest : List Proposal} (h : l.pending = p :: rest) :
      Step g l { l with pending := rest, accepts := l.accepts ++ [p.toAccept] }
  | resent (l : Leader) {slot : Slot} {e : ProposalEntry} (hpending : l.pending = [])
      (h : l.proposals.get? slot = some e) :
      Step g l { l with accepts := l.accepts ++ [e.proposal.toAccept] }
  | accepted (l : Leader) {acc : Accepted} {i : NodeId} (h : g.accepted l acc i) :
      Step g l { l with
        inFlightAccepted := l.inFlightAccepted.insert acc.slot
          (((l.inFlightAccepted.get? acc.slot).getD ∅).insert i acc) }
  | chosen (l : Leader) {slot : Slot} {e : ProposalEntry} (h : l.proposals.get? slot = some e)
      (hstatus : e.status = .inFlight)
      (hacc : l.frame.config.isEventDriven = true → l.Acclaimed slot e.proposal) :
      Step g l { l with proposals := l.proposals.insert slot { e with status := .chosen } }
  | reserved (l : Leader) {slot : Slot} {e : ProposalEntry} (h : l.proposals.get? slot = some e) :
      Step g l { l with proposals := l.proposals.insert slot { e with status := .commitPending } }
  | learned (l : Leader) {slot target : Slot} {e : ProposalEntry} (hpending : l.pending = [])
      (hmode : l.frame.config.acceptorsSendLearns = false) (h : l.proposals.get? slot = some e)
      (htarget : target = slot ∨ target = e.proposal.slot) :
      Step g l { l with learns := l.learns ++ [{ slot := target, value := e.proposal.value }] }
  | finalized (l : Leader) {slot : Slot} {e : ProposalEntry} (h : l.proposals.get? slot = some e) :
      Step g l { l with proposals := l.proposals.insert slot { e with status := .finalized } }

/-- Surroundings that exclude nothing. -/
def Given.any : Given :=
  { promise := fun _ _ => True
    accepted := fun _ _ _ => True
    resets := fun _ _ => True
    usurps := True }

/-- Any number of steps. -/
abbrev Steps (g : Given) : Leader → Leader → Prop := Relation.ReflTransGen (Step g)

variable {g : Given}

/-- What every step keeps, a sequence of steps keeps. -/
theorem Steps.invariant {P : Leader → Prop} (keep : ∀ l l', Step g l l' → P l → P l') {l l' : Leader}
    (h : Steps g l l') (hl : P l) : P l' := by
  induction h with
  | refl => exact hl
  | tail _ hstep ih => exact keep _ _ hstep ih

theorem Step.frame_eq {l l' : Leader} (h : Step g l l') : l'.frame = l.frame := by cases h <;> rfl

theorem Steps.frame_eq {l l' : Leader} (h : Steps g l l') : l'.frame = l.frame :=
  h.invariant (P := fun x => x.frame = l.frame) (fun _ _ hs hx => hs.frame_eq.trans hx) rfl

theorem Step.stray_eq {l l' : Leader} (h : Step g l l') : l'.stray = l.stray := by cases h <;> rfl

theorem Steps.stray_eq {l l' : Leader} (h : Steps g l l') : l'.stray = l.stray :=
  h.invariant (P := fun x => x.stray = l.stray) (fun _ _ hs hx => hs.stray_eq.trans hx) rfl

/-- What a leader has sent stays sent. -/
theorem Steps.accepts_subset {l l' : Leader} (h : Steps g l l') : l.accepts ⊆ l'.accepts := by
  refine h.invariant (P := fun x => l.accepts ⊆ x.accepts) (fun x x' hs hx => ?_) (List.Subset.refl _)
  cases hs <;> first | exact hx | exact List.subset_append_of_subset_left _ hx

theorem Steps.learns_subset {l l' : Leader} (h : Steps g l l') : l.learns ⊆ l'.learns := by
  refine h.invariant (P := fun x => l.learns ⊆ x.learns) (fun x x' hs hx => ?_) (List.Subset.refl _)
  cases hs <;> first | exact hx | exact List.subset_append_of_subset_left _ hx

end Leader

end PaxosWasm
