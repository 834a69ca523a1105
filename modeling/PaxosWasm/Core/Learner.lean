import PaxosWasm.Core.Storage

/-!
# The core learner

`core/learner`: the votes of each sender, the learned values, and the cursor `adu` up to which the
learned values have been handed out for execution.
-/

namespace PaxosWasm

open Library

namespace Learner

/-! ## Its storage

A learned value is a change, and the last values come with the cursor as a snapshot. -/

structure PersistentSnapshotState where
  adu : Slot
  learned : OrdMap Slot Value

/-- The storage resource of a learner: its current state is not used. -/
abbrev Store := StorageResource Unit PersistentSnapshotState LearnedEntry

abbrev Dir := Directory Unit PersistentSnapshotState LearnedEntry

structure StorageHelper where
  store : Store
  enabled : Bool
  runConfig : RunConfig
  changePending : Nat
  changeLastFlush : Nat
  snapshotSlotOffset : Nat
  lastSnapshotSlot : Slot

namespace StorageHelper

/-- `hash` is the default hasher on the storage key. The source panics on `% 0`: no learner exists
under a snapshot interval of `0`. -/
def new (hash : String → Nat) (dir : Dir) (env : Env) (key : String) (runConfig : RunConfig)
    (enabled : Bool) : StorageHelper :=
  { store := StorageResource.new dir runConfig.storageMaxSnapshots
    enabled
    runConfig
    changePending := 0
    changeLastFlush := env.now
    snapshotSlotOffset := hash key % runConfig.storageSnapshotSlotInterval
    lastSnapshotSlot := 0 }

def flushChanges (h : StorageHelper) (env : Env) : Except String Unit × StorageHelper :=
  if !h.enabled then (.ok (), h)
  else
    match h.store.flushChanges with
    | (.error e, store) => (.error e, { h with store })
    | (.ok _, store) => (.ok (), { h with store, changeLastFlush := env.now })

def maybeFlushChanges (h : StorageHelper) (env : Env) : Except String Unit × StorageHelper :=
  if !h.enabled then (.ok (), h)
  else if h.changePending = 0 then (.ok (), h)
  else if h.changePending ≥ h.runConfig.storageFlushChangeCount
      ∨ env.now - h.changeLastFlush ≥ h.runConfig.storageFlushChangeIntervalMs then
    match h.flushChanges env with
    | (.error e, h) => (.error e, h)
    | (.ok _, h) => (.ok (), { h with changePending := 0 })
  else (.ok (), h)

/-- Append one learned entry to the changelog. -/
def saveChange (h : StorageHelper) (env : Env) (entry : LearnedEntry) :
    Except String Unit × StorageHelper :=
  if !h.enabled then (.ok (), h)
  else
    match h.store.saveChange entry with
    | (.error e, store) => (.error e, { h with store })
    | (.ok _, store) =>
        maybeFlushChanges { h with store, changePending := h.changePending + 1 } env

/-- Archive the last `storageSnapshotSlotInterval` entries with the cursor, then prune. -/
def checkpointSnapshot (h : StorageHelper) (env : Env) (adu : Slot) (learned : OrdMap Slot Value) :
    Except String Unit × StorageHelper × OrdMap Slot Value :=
  let trimmed := learned.takeLast (asUsize h.runConfig.storageSnapshotSlotInterval)
  match h.store.checkpoint { adu, learned := trimmed } env.utc with
  | (.error e, store) => (.error e, { h with store }, learned)
  | (.ok _, store) => (.ok (), { h with store }, prune h.runConfig learned)

/-- Called when the cursor has advanced to `newAdu`. -/
def maybeSnapshot (h : StorageHelper) (env : Env) (newAdu : Slot) (learned : OrdMap Slot Value) :
    Except String Unit × StorageHelper × OrdMap Slot Value :=
  if !h.enabled ∨ h.runConfig.storageSnapshotSlotInterval = 0 then (.ok (), h, learned)
  else if newAdu % h.runConfig.storageSnapshotSlotInterval = h.snapshotSlotOffset
      ∧ newAdu > h.lastSnapshotSlot then
    match h.flushChanges env with
    | (.error e, h) => (.error e, h, learned)
    | (.ok _, h) =>
        match h.checkpointSnapshot env newAdu learned with
        | (.error e, h, learned) => (.error e, h, learned)
        | (.ok _, h, learned) => (.ok (), { h with lastSnapshotSlot := newAdu }, learned)
  else (.ok (), h, learned)

/-! ### Recovery

The snapshots in order, then the changes; then the cursor moves over the slots that follow each other. -/

/-- The replay loops of `loadAndReplayState`: the snapshots in order, the cursor of the last one,
then the changelog. -/
def replaySnapshots (adu : Slot) (snapshots : List PersistentSnapshotState) :
    OrdMap Slot Value × Slot :=
  snapshots.foldl (fun (m, _) s => (OrdMap.insertAll m s.learned.entries, s.adu)) (∅, adu)

/-- The loop over the keys past `adu`: the cursor moves over every key that follows it directly. -/
def contiguousTail (next : Slot) : List Slot → Slot
  | [] => next
  | s :: rest => if s = next then contiguousTail (next + 1) rest else next

/-- On startup: restore `learned` and `adu`. -/
def loadAndReplayState (h : StorageHelper) (learned : OrdMap Slot Value) (adu : Slot) :
    Except String Unit × OrdMap Slot Value × Slot :=
  if !h.enabled then (.ok (), learned, adu)
  else
    let (snapshots, changes) := h.store.loadStateAndChanges h.runConfig.storageLoadSnapshots
    let (learned, adu) := replaySnapshots adu snapshots
    let learned := learned.insertAll (changes.map (fun entry => (entry.slot, entry.value)))
    let next := contiguousTail (adu + 1) (learned.keys.dropWhile (fun s => decide (s ≤ adu)))
    (.ok (), learned, next - 1)

end StorageHelper

end Learner

/-! ## The learner

The votes for a slot are kept by sender. A value with a quorum of them is learned, unless the slot has one. -/

/-- `MyLearnerResource`. -/
structure Learner where
  numAcceptors : Nat
  /-- The learns received for a slot, by sender. -/
  slotLearns : OrdMap Slot (OrdMap NodeId Learn)
  learned : OrdMap Slot Value
  adu : Slot
  storage : Learner.StorageHelper

namespace Learner

def new (hash : String → Nat) (dir : Dir) (env : Env) (numAcceptors : Nat) (nodeId : String)
    (config : RunConfig) : Learner :=
  { numAcceptors
    slotLearns := ∅
    learned := ∅
    adu := 0
    storage := StorageHelper.new hash dir env s!"node{nodeId}-learner" config
      config.persistentStorage }

def quorum (l : Learner) : Nat := asUsize (l.numAcceptors / 2 + 1)

/-- Some value that a quorum of the senders of `slot` has voted for. -/
def checkQuorum (l : Learner) (slot : Slot) : Option Value :=
  match l.slotLearns.get? slot with
  | none => none
  | some slotMap =>
      if slotMap.size < l.quorum then none
      else
        let votes := slotMap.values.map Learn.value
        votes.find? (fun value => decide (l.quorum ≤ votes.count value))

def getHighestLearned (l : Learner) : Slot := l.learned.lastKey?.getD 0

/-- Try to record a learned value; `true` if it was inserted. -/
def learn (l : Learner) (env : Env) (slot : Slot) (value : Value) : Bool × Learner :=
  if l.learned.contains slot then (false, l)
  else
    -- a failed save is only logged
    (true,
      { l with
        learned := l.learned.insert slot value
        storage := (l.storage.saveChange env { slot, value }).2 })

/-- A learn of an acceptor: record the vote of its sender, and learn a value with a quorum. -/
def handleLearn (l : Learner) (env : Env) (learn : Learn) (sender : Node) : Bool × Learner :=
  let votes := ((l.slotLearns.get? learn.slot).getD ∅).insert sender.nodeId learn
  let l := { l with slotLearns := l.slotLearns.insert learn.slot votes }
  match l.checkQuorum learn.slot with
  | some quorumValue => l.learn env learn.slot quorumValue
  | none => (false, l)

/-- The learned entries from `next` on, up to the first gap. -/
def contiguousFrom (learned : OrdMap Slot Value) : Nat → Slot → List LearnedEntry
  | 0, _ => []
  | fuel + 1, next =>
      match learned.get? next with
      | some value => { slot := next, value } :: contiguousFrom learned fuel (next + 1)
      | none => []

/-- All newly executable entries in slot order, using `adu` as a cursor. The walk ends at the first
gap, so it makes at most one step per entry. -/
def toBeExecuted (l : Learner) (env : Env) : LearnResult × Learner :=
  match contiguousFrom l.learned l.learned.size (l.adu + 1) with
  | [] => (.ignore, l)
  | out =>
      let newAdu := l.adu + out.length
      -- a failed snapshot is only logged
      let (_, storage, learned) := l.storage.maybeSnapshot env newAdu l.learned
      (.execute out, { l with adu := newAdu, storage, learned })

def loadState (l : Learner) : Except String Unit × Learner :=
  let (res, learned, adu) := l.storage.loadAndReplayState l.learned l.adu
  (res, { l with learned, adu })

def maybeFlush (l : Learner) (env : Env) : Except String Unit × Learner :=
  let (res, storage) := l.storage.maybeFlushChanges env
  (res, { l with storage })

/-! ## What the operations do

One lemma for each operation, by which the others go. -/

/-- `learn` moves no cursor, and what it adds is what it then holds for the slot. -/
theorem learn_cases (l : Learner) (env : Env) (slot : Slot) (value : Value) :
    (l.learn env slot value).2.adu = l.adu ∧
      ((l.learn env slot value).2 = l ∨ (l.learn env slot value).2.learned.get? slot = some value) := by
  unfold learn
  split
  · exact ⟨rfl, Or.inl rfl⟩
  · exact ⟨rfl, Or.inr (OrdMap.get?_insert_self ..)⟩

/-- Without storage there is nothing to load. -/
theorem loadState_of_memory {l : Learner} (h : l.storage.enabled = false) :
    l.loadState = (.ok (), l) := by
  unfold loadState StorageHelper.loadAndReplayState
  rw [h]
  rfl

/-- `learn` adds the value where nothing is held. -/
theorem get?_learn (l : Learner) (env : Env) (slot : Slot) (value : Value) (slot' : Slot) :
    (l.learn env slot value).2.learned.get? slot' =
      (l.learned.get? slot').or (if slot' = slot then some value else none) := by
  unfold learn
  split
  · next h =>
    obtain ⟨v, hv⟩ := OrdMap.contains_iff.mp h
    split
    · next hs =>
      rw [hs, hv]
      rfl
    · rw [Option.or_none]
  · next h =>
    have hnone : l.learned.get? slot = none := by simpa [OrdMap.contains] using h
    rw [OrdMap.get?_insert]
    split
    · next hs => rw [hs, hnone, Option.none_or]
    · rw [Option.or_none]

/-- `learn` touches no votes, and no storage that is off. -/
theorem frame_learn (l : Learner) (env : Env) (slot : Slot) (value : Value) :
    (l.learn env slot value).2.slotLearns = l.slotLearns ∧
      (l.learn env slot value).2.quorum = l.quorum ∧
      (l.storage.enabled = false → (l.learn env slot value).2.storage = l.storage) := by
  unfold learn
  split
  · exact ⟨rfl, rfl, fun _ => rfl⟩
  · refine ⟨rfl, rfl, fun hoff => ?_⟩
    show (l.storage.saveChange env _).2 = _
    unfold StorageHelper.saveChange
    rw [hoff]
    rfl

/-- `handleLearn` counts the vote, and learns one value if there is a quorum for it. -/
theorem handleLearn_cases (l : Learner) (env : Env) (learn : Learn) (sender : Node) :
    let votes := ((l.slotLearns.get? learn.slot).getD ∅).insert sender.nodeId learn
    let l' := { l with slotLearns := l.slotLearns.insert learn.slot votes }
    l.handleLearn env learn sender = (false, l') ∨
      ∃ v, l'.checkQuorum learn.slot = some v ∧
        l.handleLearn env learn sender = l'.learn env learn.slot v := by
  intro votes l'
  unfold handleLearn
  dsimp only
  split
  · next v hv => exact Or.inr ⟨v, hv, rfl⟩
  · exact Or.inl rfl

/-! ### The walk over the learned entries

`toBeExecuted` hands out the entries from the cursor to the first missing slot, and moves the cursor there. -/

/-- The run of executable entries: one per slot, without a gap, as the map has them. -/
theorem contiguousFrom_eq (learned : OrdMap Slot Value) (fuel : Nat) (next : Slot) :
    let out := contiguousFrom learned fuel next
    out = (List.range' next out.length).map
        (fun slot => { slot, value := (learned.get? slot).getD Value.noOp }) ∧
      ∀ slot ∈ List.range' next out.length, ∃ value, learned.get? slot = some value := by
  induction fuel generalizing next with
  | zero => exact ⟨rfl, fun _ h => nomatch h⟩
  | succ fuel ih =>
      rw [contiguousFrom]
      cases hget : learned.get? next with
      | none => exact ⟨rfl, fun _ h => nomatch h⟩
      | some value =>
          obtain ⟨heq, hmem⟩ := ih (next + 1)
          dsimp only
          rw [List.length_cons, List.range'_succ, List.map_cons, hget]
          refine ⟨congrArg _ heq, fun slot hslot => ?_⟩
          rcases List.mem_cons.mp hslot with rfl | hslot
          · exact ⟨value, hget⟩
          · exact hmem slot hslot

/-- **The walk ends at a gap**, not because it runs out of steps: a walk of more steps than there
are entries would visit a slot twice. -/
theorem contiguousFrom_ends (learned : OrdMap Slot Value) (next : Slot) :
    learned.get? (next + (contiguousFrom learned learned.size next).length) = none := by
  have hends : ∀ fuel next, (contiguousFrom learned fuel next).length < fuel →
      learned.get? (next + (contiguousFrom learned fuel next).length) = none := by
    intro fuel
    induction fuel with
    | zero => exact fun _ h => absurd h (Nat.not_lt_zero _)
    | succ fuel ih =>
        intro next hlt
        rw [contiguousFrom] at hlt ⊢
        cases hget : learned.get? next with
        | none => exact hget
        | some value =>
            rw [hget] at hlt
            simp only [List.length_cons] at hlt ⊢
            have := ih (next + 1) (Nat.lt_of_succ_lt_succ hlt)
            rwa [Nat.add_assoc, Nat.add_comm 1] at this
  cases hget : learned.get? (next + (contiguousFrom learned learned.size next).length) with
  | none => rfl
  | some value =>
      -- otherwise the keys contain one more slot than there are keys
      exfalso
      obtain ⟨_, hmem⟩ := contiguousFrom_eq learned learned.size next
      have hle : learned.size ≤ (contiguousFrom learned learned.size next).length := by
        by_contra hlt
        rw [hends _ _ (Nat.lt_of_not_le hlt)] at hget
        cases hget
      have hsub : List.range' next ((contiguousFrom learned learned.size next).length + 1) ⊆
          learned.keys := by
        intro slot hslot
        rw [List.range'_concat, Nat.one_mul] at hslot
        rcases List.mem_append.mp hslot with hslot | hslot
        · exact OrdMap.mem_keys.mpr (hmem slot hslot)
        · rw [List.mem_singleton.mp hslot]
          exact OrdMap.mem_keys.mpr ⟨value, hget⟩
      have hnodup : (List.range' next ((contiguousFrom learned learned.size next).length + 1)).Nodup :=
        List.nodup_range'
      have := (List.subperm_of_subset hnodup hsub).length_le
      rw [List.length_range', OrdMap.length_keys] at this
      omega

/-- What a map of learned values has for a slot. -/
def entryAt (learned : OrdMap Slot Value) (slot : Slot) : LearnedEntry :=
  { slot, value := (learned.get? slot).getD Value.noOp }

/-- **What can be executed** is what is learned past the cursor, up to the first gap; the cursor
moves over it, and nothing else does but the snapshots. -/
theorem toBeExecuted_spec (l : Learner) (env : Env) :
    ∃ n, (∀ slot ∈ List.range' (l.adu + 1) n, ∃ value, l.learned.get? slot = some value) ∧
      l.learned.get? (l.adu + 1 + n) = none ∧
      ((n = 0 ∧ l.toBeExecuted env = (.ignore, l)) ∨
        l.toBeExecuted env = (.execute ((List.range' (l.adu + 1) n).map (entryAt l.learned)),
          { l with
            adu := l.adu + n
            storage := (l.storage.maybeSnapshot env (l.adu + n) l.learned).2.1
            learned := (l.storage.maybeSnapshot env (l.adu + n) l.learned).2.2 })) := by
  obtain ⟨hout, hmem⟩ := contiguousFrom_eq l.learned l.learned.size (l.adu + 1)
  have hgap := contiguousFrom_ends l.learned (l.adu + 1)
  unfold toBeExecuted
  generalize contiguousFrom l.learned l.learned.size (l.adu + 1) = out at hout hmem hgap
  refine ⟨out.length, hmem, hgap, ?_⟩
  cases out with
  | nil => exact Or.inl ⟨rfl, rfl⟩
  | cons e es =>
      right
      dsimp only
      rw [← show (e :: es) = (List.range' (l.adu + 1) (e :: es).length).map (entryAt l.learned)
        from hout]

end Learner

end PaxosWasm
