import PaxosWasm.Core.Storage

/-!
# The core acceptor

`core/acceptor`: the promised ballots, the accepted value of each slot, and their storage helper.
An accepted value is never replaced: a second `accept` for the slot is acknowledged if it carries
the same value and rejected otherwise, whatever its ballot.
-/

namespace PaxosWasm

open Library

namespace Acceptor

/-! ## Its storage

The promises are saved as a state, each accepted value as a change, and from time to time the last
accepted values as a snapshot. -/

structure PersistentCurrentState where
  promises : List Ballot
deriving DecidableEq, Repr

structure PersistentSnapshotState where
  accepted : OrdMap Slot PValue

/-- The storage resource of an acceptor. -/
abbrev Store := StorageResource PersistentCurrentState PersistentSnapshotState PValue

/-- The directory of an acceptor. -/
abbrev Dir := Directory PersistentCurrentState PersistentSnapshotState PValue

structure StorageHelper where
  store : Store
  enabled : Bool
  runConfig : RunConfig
  statePending : Nat
  stateLastFlush : Nat
  changePending : Nat
  changeLastFlush : Nat
  snapshotSlotOffset : Nat
  lastSnapshotSlot : Slot

namespace StorageHelper

/-- `hash` is the default hasher on the storage key. The source panics on `% 0`: no acceptor
exists under a snapshot interval of `0`. -/
def new (hash : String → Nat) (dir : Dir) (env : Env) (key : String) (runConfig : RunConfig)
    (enabled : Bool) : StorageHelper :=
  { store := StorageResource.new dir runConfig.storageMaxSnapshots
    enabled
    runConfig
    statePending := 0
    stateLastFlush := env.now
    changePending := 0
    changeLastFlush := env.now
    snapshotSlotOffset := hash key % runConfig.storageSnapshotSlotInterval
    lastSnapshotSlot := 0 }

def flushCurrentState (h : StorageHelper) (env : Env) : Except String Unit × StorageHelper :=
  if !h.enabled then (.ok (), h)
  else
    let h := { h with stateLastFlush := env.now }
    match h.store.flushState with
    | (.error e, store) => (.error s!"storage.flush_state promises: {e}", { h with store })
    | (.ok _, store) => (.ok (), { h with store })

def maybeFlushCurrentState (h : StorageHelper) (env : Env) : Except String Unit × StorageHelper :=
  if !h.enabled then (.ok (), h)
  else if h.statePending = 0 then (.ok (), h)
  else if h.statePending ≥ h.runConfig.storageFlushStateCount
      ∨ env.now - h.stateLastFlush ≥ h.runConfig.storageFlushStateIntervalMs then
    match h.flushCurrentState env with
    | (.error e, h) => (.error e, h)
    | (.ok _, h) => (.ok (), { h with statePending := 0 })
  else (.ok (), h)

def saveCurrentState (h : StorageHelper) (env : Env) (promises : List Ballot) :
    Except String Unit × StorageHelper :=
  if !h.enabled then (.ok (), h)
  else
    match h.store.saveState ⟨promises⟩ with
    | (.error e, store) => (.error s!"storage.save_state promises: {e}", { h with store })
    | (.ok _, store) =>
        maybeFlushCurrentState { h with store, statePending := h.statePending + 1 } env

/-- Reads the promises back; `promises` is what is in memory. -/
def loadCurrentState (h : StorageHelper) (promises : List Ballot) : Except String (List Ballot) :=
  if !h.enabled then .ok promises
  else
    match h.store.loadState with
    | some ps => .ok ps.promises
    | none => .error "bincode decode promises: unexpected end of input"

def flushChanges (h : StorageHelper) (env : Env) : Except String Unit × StorageHelper :=
  if !h.enabled then (.ok (), h)
  else
    match h.store.flushChanges with
    | (.error e, store) => (.error e, { h with store })
    | (.ok _, store) => (.ok (), { h with store, changeLastFlush := env.now })

def maybeFlushChanges (h : StorageHelper) (env : Env) : Except String Unit × StorageHelper :=
  if !h.enabled then (.ok (), h)
  else if h.changePending = 0 then (.ok (), h)
  else if h.changePending ≥ h.runConfig.storageFlushChangeCount
      ∨ env.now - h.changeLastFlush ≥ h.runConfig.storageFlushChangeIntervalMs then
    match h.flushChanges env with
    | (.error e, h) => (.error e, h)
    | (.ok _, h) => (.ok (), { h with changePending := 0 })
  else (.ok (), h)

def saveChange (h : StorageHelper) (env : Env) (pv : PValue) : Except String Unit × StorageHelper :=
  if !h.enabled then (.ok (), h)
  else
    match h.store.saveChange pv with
    | (.error e, store) => (.error e, { h with store })
    | (.ok _, store) =>
        maybeFlushChanges { h with store, changePending := h.changePending + 1 } env

/-- Archive a snapshot of the last `storageSnapshotSlotInterval` entries, then prune. -/
def checkpointSnapshot (h : StorageHelper) (env : Env) (accepted : OrdMap Slot PValue) :
    Except String Unit × StorageHelper × OrdMap Slot PValue :=
  if !h.enabled then (.ok (), h, accepted)
  else
    let trimmed := accepted.takeLast (asUsize h.runConfig.storageSnapshotSlotInterval)
    match h.store.checkpoint ⟨trimmed⟩ env.utc with
    | (.error e, store) => (.error e, { h with store }, accepted)
    | (.ok _, store) => (.ok (), { h with store }, prune h.runConfig accepted)

/-- Snapshot when `slot ≡ offset (mod interval)` and `slot` is past the last snapshot's. -/
def maybeSnapshot (h : StorageHelper) (env : Env) (slot : Slot) (accepted : OrdMap Slot PValue) :
    Except String Unit × StorageHelper × OrdMap Slot PValue :=
  if !h.enabled ∨ h.runConfig.storageSnapshotSlotInterval = 0 then (.ok (), h, accepted)
  else if slot % h.runConfig.storageSnapshotSlotInterval = h.snapshotSlotOffset
      ∧ slot > h.lastSnapshotSlot then
    match h.flushChanges env with
    | (.error e, h) => (.error e, h, accepted)
    | (.ok _, h) =>
        match h.checkpointSnapshot env accepted with
        | (.error e, h, accepted) => (.error e, h, accepted)
        | (.ok _, h, accepted) => (.ok (), { h with lastSnapshotSlot := slot }, accepted)
  else (.ok (), h, accepted)

/-! ### Recovery

Without the saved promises a recovery gives up; otherwise it replays the snapshots and then the changelog. -/

/-- The two replay loops of `loadAndCombineState`: the snapshots in order, then the changelog. -/
def combine (snapshots : List PersistentSnapshotState) (changes : List PValue) :
    OrdMap Slot PValue :=
  let accepted : OrdMap Slot PValue :=
    snapshots.foldl (fun m s => OrdMap.insertAll m s.accepted.entries) ∅
  accepted.insertAll (changes.map (fun pv => (pv.slot, pv)))

/-- On startup: the promises, then the snapshots, then the changelog. -/
def loadAndCombineState (h : StorageHelper) (promises : List Ballot)
    (accepted : OrdMap Slot PValue) : Except String Unit × List Ballot × OrdMap Slot PValue :=
  if !h.enabled then (.ok (), promises, accepted)
  else
    match h.loadCurrentState promises with
    | .error e => (.error e, promises, accepted)
    | .ok promises =>
        let (snapshots, changes) := h.store.loadStateAndChanges h.runConfig.storageLoadSnapshots
        (.ok (), promises, combine snapshots changes)

end StorageHelper

end Acceptor

/-! ## The acceptor

It keeps every ballot it has promised, and for each slot the value it has accepted there. -/

/-- `MyAcceptorResource`. -/
structure Acceptor where
  promises : List Ballot
  accepted : OrdMap Slot PValue
  storage : Acceptor.StorageHelper

namespace Acceptor

def new (hash : String → Nat) (dir : Dir) (env : Env) (nodeId : String) (config : RunConfig) :
    Acceptor :=
  { promises := []
    accepted := ∅
    storage := StorageHelper.new hash dir env s!"node{nodeId}-acceptor" config
      config.persistentStorage }

/-- The current promised ballot, `0` before the first promise. -/
def highestPromisedBallot (a : Acceptor) : Ballot := a.promises.getLast?.getD 0

def collectAcceptedFrom (a : Acceptor) (slot : Slot) : List PValue := a.accepted.valuesFrom slot

def prepare (a : Acceptor) (env : Env) (slot : Slot) (ballot : Ballot) :
    PromiseResult × Acceptor :=
  let highestBallot := a.highestPromisedBallot
  if ballot < highestBallot then (.rejected highestBallot, a)
  else
    let a :=
      if ballot > highestBallot then
        let promises := a.promises ++ [ballot]
        -- a failed save is only logged
        { a with promises, storage := (a.storage.saveCurrentState env promises).2 }
      else a
    (.promised { slot, ballot, accepted := a.collectAcceptedFrom slot }, a)

def accept (a : Acceptor) (env : Env) (slot : Slot) (ballot : Ballot) (value : Value) :
    AcceptedResult × Acceptor :=
  let currentPromised := a.highestPromisedBallot
  if ballot < currentPromised then (.rejected currentPromised, a)
  else
    match a.accepted.get? slot with
    | some existing =>
        if existing.ballot = ballot ∧ existing.value = some value then
          (.accepted { slot, ballot, success := true }, a)
        else if existing.value = some value then
          -- the same value under another ballot: acknowledged, the stored ballot stays
          (.accepted { slot, ballot, success := true }, a)
        else (.rejected existing.ballot, a)
    | none =>
        let pValue : PValue := { slot, ballot, value := some value }
        let accepted := a.accepted.insert slot pValue
        -- failures of the two storage calls are only logged
        let storage := (a.storage.saveChange env pValue).2
        let (_, storage, accepted) := storage.maybeSnapshot env slot accepted
        (.accepted { slot, ballot, success := true }, { a with accepted, storage })

def getAccepted (a : Acceptor) (slot : Slot) : Option PValue := a.accepted.get? slot

def loadState (a : Acceptor) : Except String Unit × Acceptor :=
  let (res, promises, accepted) := a.storage.loadAndCombineState a.promises a.accepted
  (res, { a with promises, accepted })

def maybeFlush (a : Acceptor) (env : Env) : Except String Unit × Acceptor :=
  match a.storage.maybeFlushCurrentState env with
  | (.error e, storage) => (.error e, { a with storage })
  | (.ok _, storage) =>
      let (res, storage) := storage.maybeFlushChanges env
      (res, { a with storage })

end Acceptor

end PaxosWasm
