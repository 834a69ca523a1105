import PaxosWasm.Core.Storage

/-!
# The core proposer

`core/proposer`: the ballot and slot counters, the two value queues, and the proposal entry of each
slot. Slots are handed out by a counter; Phase 1 moves the counter back to `minSlot - 1` and puts
the values it has to propose again into the prioritized queue.
-/

namespace PaxosWasm

open Library

namespace Proposer

structure PersistentCurrentState where
  currentBallot : Ballot
  adu : Slot
deriving DecidableEq, Repr

/-- The storage resource of a proposer: only its current state is used. -/
abbrev Store := StorageResource PersistentCurrentState Unit Unit

abbrev Dir := Directory PersistentCurrentState Unit Unit

structure StorageHelper where
  store : Store
  enabled : Bool
  runConfig : RunConfig
  pending : Nat
  lastFlush : Nat

namespace StorageHelper

def new (dir : Dir) (env : Env) (runConfig : RunConfig) (enabled : Bool) : StorageHelper :=
  { store := StorageResource.new dir runConfig.storageMaxSnapshots
    enabled
    runConfig
    pending := 0
    lastFlush := env.now }

def flushState (h : StorageHelper) (env : Env) : Except String Unit × StorageHelper :=
  if !h.enabled then (.ok (), h)
  else
    let h := { h with lastFlush := env.now }
    match h.store.flushState with
    | (.error e, store) => (.error s!"storage.flush_state: {e}", { h with store })
    | (.ok _, store) => (.ok (), { h with store })

def maybeFlushState (h : StorageHelper) (env : Env) : Except String Unit × StorageHelper :=
  if !h.enabled then (.ok (), h)
  else if h.pending = 0 then (.ok (), h)
  else if h.pending ≥ h.runConfig.storageFlushStateCount
      ∨ env.now - h.lastFlush ≥ h.runConfig.storageFlushStateIntervalMs then
    match h.flushState env with
    | (.error e, h) => (.error e, h)
    | (.ok _, h) => (.ok (), { h with pending := 0 })
  else (.ok (), h)

def saveState (h : StorageHelper) (env : Env) (currentBallot : Ballot) (adu : Slot) :
    Except String Unit × StorageHelper :=
  if !h.enabled then (.ok (), h)
  else
    match h.store.saveState ⟨currentBallot, adu⟩ with
    | (.error e, store) => (.error s!"storage.save_state: {e}", { h with store })
    | (.ok _, store) => maybeFlushState { h with store, pending := h.pending + 1 } env

/-- The stored ballot and adu; the ones in memory where storage is off. -/
def loadState (h : StorageHelper) (ballot : Ballot) (adu : Slot) :
    Except String (Ballot × Slot) :=
  if !h.enabled then .ok (ballot, adu)
  else
    match h.store.loadState with
    | some ps => .ok (ps.currentBallot, ps.adu)
    | none => .error "bincode decode: unexpected end of input"

end StorageHelper

end Proposer

/-- `MyProposerResource`. -/
structure Proposer where
  numAcceptors : Nat
  ballotDelta : Ballot
  isLeader : Bool
  currentSlot : Slot
  currentBallot : Ballot
  adu : Slot
  pendingClientRequests : List Value
  prioritizedValues : List Value
  proposals : OrdMap Slot ProposalEntry
  chosenSlots : List Slot
  storage : Proposer.StorageHelper

namespace Proposer

def new (dir : Dir) (env : Env) (isLeader : Bool) (numAcceptors : Nat) (initBallot : Ballot)
    (config : RunConfig) : Proposer :=
  { numAcceptors
    ballotDelta := numAcceptors
    isLeader
    currentSlot := 0
    currentBallot := initBallot
    adu := 0
    pendingClientRequests := []
    prioritizedValues := []
    proposals := ∅
    chosenSlots := []
    storage := StorageHelper.new dir env config config.persistentStorage }

def quorum (p : Proposer) : Nat := asUsize (p.numAcceptors / 2 + 1)

/-- Its sum and that of `increaseBallot` have no bound here. The calls with sums of `u64`s are apart
(`stepU64`), and do the same until one overflows. -/
def getNextSlot (p : Proposer) : Slot × Proposer :=
  let nextSlot := p.currentSlot + 1
  (nextSlot, { p with currentSlot := nextSlot })

/-- Prioritized values come before client requests. -/
def nextValue (p : Proposer) : Option Value × Proposer :=
  match p.prioritizedValues with
  | req :: rest => (some req, { p with prioritizedValues := rest })
  | [] =>
      match p.pendingClientRequests with
      | req :: rest => (some req, { p with pendingClientRequests := rest })
      | [] => (none, p)

/-! ## Phase 1

The values that a quorum of promises reports are queued before those of the clients. Gaps between their slots
are filled with no-ops, which are dropped again. -/

/-- One entry of a promise, folded into the map of the highest-ballot value per slot. -/
def keepHighest (slotMap : OrdMap Slot PValue) (accepted : PValue) : OrdMap Slot PValue :=
  match slotMap.get? accepted.slot with
  | some existing =>
      if accepted.ballot > existing.ballot then slotMap.insert accepted.slot accepted else slotMap
  | none => slotMap.insert accepted.slot accepted

/-- Each slot from `minSlot` on that the promises report, with its highest-ballot value. -/
def slotMap (minSlot : Slot) (promises : List Promise) : OrdMap Slot PValue :=
  promises.foldl
    (fun m promise =>
      promise.accepted.foldl
        (fun m accepted => if accepted.slot ≥ minSlot then keepHighest m accepted else m) m)
    ∅

/-- The entries in slot order, each preceded by a no-op for every slot skipped since
`expectedSlot`. -/
def fillGaps (ballot : Ballot) (expectedSlot : Slot) : List (Slot × PValue) → List PValue
  | [] => []
  | (slot, accepted) :: rest =>
      (List.range' expectedSlot (slot - expectedSlot)).map
          (fun s => { slot := s, ballot, value := none })
        ++ accepted :: fillGaps ballot (slot + 1) rest

/-- The highest-ballot value per slot across all promises, gaps filled with no-ops, and the slot
counter moved to just before `minSlot`; nothing once the counter is past `minSlot`. -/
def collectAcceptedValues (p : Proposer) (minSlot : Slot) (promises : List Promise) :
    List PValue × Proposer :=
  if p.currentSlot > minSlot then ([], p)
  else
    (fillGaps p.currentBallot minSlot (slotMap minSlot promises).entries,
      { p with currentSlot := minSlot - 1 })

/-- The first entry of each slot, given the slots already seen. -/
def dedupSlots (seenSlots : List Slot) : List PValue → List PValue
  | [] => []
  | a :: as =>
      if a.slot ∈ seenSlots then dedupSlots seenSlots as
      else a :: dedupSlots (a.slot :: seenSlots) as

def enqueueClientRequest (p : Proposer) (req : Value) : Bool × Proposer :=
  (true, { p with pendingClientRequests := p.pendingClientRequests ++ [req] })

def enqueuePrioritizedRequest (p : Proposer) (req : Value) : Proposer :=
  if req ∈ p.prioritizedValues then p
  else { p with prioritizedValues := p.prioritizedValues ++ [req] }

def processPrepare (p : Proposer) (minSlot : Slot) (promises : List Promise) :
    PrepareResult × Proposer :=
  let validPromises := promises.filter (fun pr => decide (pr.ballot = p.currentBallot))
  if validPromises.length < p.quorum then (.quorumFailure, p)
  else
    let (acceptedValues, p) := p.collectAcceptedValues minSlot promises
    let values := ((dedupSlots [] acceptedValues).filterMap PValue.value).filter
      (fun v => v.command.isSome)
    (.success, values.foldl enqueuePrioritizedRequest p)

/-! ## Phase 2

A proposal is in flight, chosen, commit-pending or finalized, and the operations go by that. -/

def getProposalBy (p : Proposer) (slot : Slot) (pred : ProposalStatus → Bool) : Option Proposal :=
  ((p.proposals.get? slot).filter (fun e => pred e.status)).map ProposalEntry.proposal

def getProposalByStatus (p : Proposer) (slot : Slot) (ps : ProposalStatus) : Option Proposal :=
  p.getProposalBy slot (fun status => decide (status = ps))

def updateProposalStatus (p : Proposer) (slot : Slot) (newStatus : ProposalStatus) :
    Option Value × Proposer :=
  match p.proposals.get? slot with
  | some entry =>
      (some entry.proposal.value,
        { p with proposals := p.proposals.insert slot { entry with status := newStatus } })
  | none => (none, p)

def createProposal (p : Proposer) : Option Proposal × Proposer :=
  if !p.isLeader then (none, p)
  else
    match p.nextValue with
    | (none, p) => (none, p)
    | (some value, p) =>
        let (slot, p) := p.getNextSlot
        let prop : Proposal := { ballot := p.currentBallot, slot, value }
        (some prop,
          { p with
            proposals := p.proposals.insert slot { proposal := prop, status := .inFlight } })

def processAccept (p : Proposer) (slot : Slot) (accepts : List Accepted) : AcceptResult :=
  match p.getProposalByStatus slot .inFlight with
  | none => .missingProposal
  | some prop =>
      let count := (accepts.filter
        (fun a => decide (a.slot = prop.slot) && decide (a.ballot = prop.ballot) && a.success)).length
      if count < p.quorum then .quorumFailure else .accepted count

def reserveNextChosenProposal (p : Proposer) : Option Proposal × Proposer :=
  match p.chosenSlots with
  | [] => (none, p)
  | slot :: rest =>
      let p := { p with chosenSlots := rest }
      match p.proposals.get? slot with
      | some entry =>
          (some entry.proposal,
            { p with
              proposals := p.proposals.insert slot { entry with status := .commitPending } })
      | none => (none, p)

def markProposalChosen (p : Proposer) (slot : Slot) : Option Value × Proposer :=
  if (p.getProposalByStatus slot .inFlight).isNone then (none, p)
  else
    match p.updateProposalStatus slot .chosen with
    | (none, p) => (none, p)
    | (some val, p) => (some val, { p with chosenSlots := p.chosenSlots ++ [slot] })

def markProposalFinalized (p : Proposer) (slot : Slot) : Option Value × Proposer :=
  if (p.getProposalBy slot (fun status => decide (status ≠ .finalized))).isNone then (none, p)
  else p.updateProposalStatus slot .finalized

/-! ## Ballots, leadership and storage

A failing save panics in `setAdu` and `increaseBallot`; the directory of a running proposer is one
that does not fail. -/

def setAdu (p : Proposer) (env : Env) (adu : Slot) : Proposer :=
  { p with adu, storage := (p.storage.saveState env p.currentBallot adu).2 }

def increaseBallot (p : Proposer) (env : Env) : Ballot × Proposer :=
  let newBallot := p.currentBallot + p.ballotDelta
  (newBallot,
    { p with
      currentBallot := newBallot
      storage := (p.storage.saveState env newBallot p.adu).2 })

def becomeLeader (p : Proposer) (env : Env) : Bool × Proposer :=
  if p.isLeader then (false, p)
  else
    let (_, p) := p.increaseBallot env
    (true, { p with isLeader := true })

def resignLeader (p : Proposer) : Bool × Proposer :=
  if p.isLeader then (true, { p with isLeader := false }) else (false, p)

def loadState (p : Proposer) : Except String Unit × Proposer :=
  match p.storage.loadState p.currentBallot p.adu with
  | .error e => (.error e, p)
  | .ok (currentBallot, adu) => (.ok (), { p with currentBallot, adu })

def maybeFlush (p : Proposer) (env : Env) : Except String Unit × Proposer :=
  let (res, storage) := p.storage.maybeFlushState env
  (res, { p with storage })

end Proposer

end PaxosWasm
