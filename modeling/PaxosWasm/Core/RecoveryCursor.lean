import PaxosWasm.Core.LearnerRecovery

/-!
# The cursor after recovery

The replay moves the cursor over the sorted keys of the restored map, `toBeExecuted` moves it by
looking the slots up one by one. Both stop at the first slot missing after the cursor of the last
snapshot. Slots are `u64` and both loops add without a check, so here the two walks are stated with
the sums of the source: where no slot is missing the replay wraps around, and the cursor falls
back to `0`.

First the walk over the keys and the walk by lookup are compared without bounds: both end at the first
missing slot. Then the sums of the source are put in, and the two still agree as long as one of the `u64`
slots behind the start is missing. `Dir.Gives` says in terms of the files alone which cursor a start gets,
for those who reason about restarts.
-/

namespace PaxosWasm

open Library

namespace Learner

namespace StorageHelper

/-- `contiguousTail`, with `next += 1` on a `u64`. -/
def contiguousTailU64 (next : Slot) : List Slot → Slot
  | [] => next
  | s :: rest => if s = next then contiguousTailU64 (nextSlot next) rest else next

/-- `loadAndReplayState`, with `adu + 1` on a `u64`. -/
def loadAndReplayStateU64 (h : StorageHelper) (learned : OrdMap Slot Value) (adu : Slot) :
    Except String Unit × OrdMap Slot Value × Slot :=
  if !h.enabled then (.ok (), learned, adu)
  else
    let (snapshots, changes) := h.store.loadStateAndChanges h.runConfig.storageLoadSnapshots
    let (learned, adu) := replaySnapshots adu snapshots
    let learned := learned.insertAll (changes.map (fun entry => (entry.slot, entry.value)))
    let next := contiguousTailU64 (nextSlot adu)
      (learned.keys.dropWhile (fun s => decide (s ≤ adu)))
    (.ok (), learned, next - 1)

end StorageHelper

def loadStateU64 (l : Learner) : Except String Unit × Learner :=
  let (res, learned, adu) := l.storage.loadAndReplayStateU64 l.learned l.adu
  (res, { l with learned, adu })

/-- `contiguousFrom`, with `next += 1` on a `u64`. -/
def contiguousFromU64 (learned : OrdMap Slot Value) : Nat → Slot → List LearnedEntry
  | 0, _ => []
  | fuel + 1, next =>
      match learned.get? next with
      | some value => { slot := next, value } :: contiguousFromU64 learned fuel (nextSlot next)
      | none => []

/-- `toBeExecuted`, with the sums on a `u64`. The walk ends at a gap: only on a map of all `2 ^ 64`
slots does the source go on for ever. -/
def toBeExecutedU64 (l : Learner) (env : Env) : LearnResult × Learner :=
  match contiguousFromU64 l.learned l.learned.size (nextSlot l.adu) with
  | [] => (.ignore, l)
  | out =>
      let newAdu := (l.adu + 1 + out.length) % 2 ^ 64 - 1
      let (_, storage, learned) := l.storage.maybeSnapshot env newAdu l.learned
      (.execute out, { l with adu := newAdu, storage, learned })

/-! ## The walk over the keys

It stops at the first key that is not the next one. -/

namespace StorageHelper

/-- The slots the walk moves over are keys. -/
theorem mem_of_lt_contiguousTail {next s : Slot} {keys : List Slot} (hle : next ≤ s)
    (hlt : s < contiguousTail next keys) : s ∈ keys := by
  induction keys generalizing next with
  | nil => exact absurd hlt (Nat.not_lt_of_le hle)
  | cons k keys ih =>
      rw [contiguousTail] at hlt
      split at hlt
      · next hk =>
        rcases Nat.lt_or_eq_of_le hle with hpast | rfl
        · exact List.mem_cons_of_mem _ (ih hpast hlt)
        · rw [hk]
          exact List.mem_cons_self ..
      · exact absurd hlt (Nat.not_lt_of_le hle)

/-- The walk stops at a missing slot. -/
theorem contiguousTail_notMem {next : Slot} {keys : List Slot} (hsorted : keys.Pairwise (· < ·))
    (hfrom : ∀ k ∈ keys, next ≤ k) : contiguousTail next keys ∉ keys := by
  intro hmem
  refine lt_irrefl _ (lt_contiguousTail hsorted hfrom fun s hs hle => ?_)
  rcases Nat.lt_or_eq_of_le hle with hlt | rfl
  · exact mem_of_lt_contiguousTail hs hlt
  · exact hmem

/-- The walk does not get past a missing slot. -/
theorem contiguousTail_le {next s : Slot} {keys : List Slot} (hle : next ≤ s) (hs : s ∉ keys) :
    contiguousTail next keys ≤ s :=
  Nat.le_of_not_lt fun hlt => hs (mem_of_lt_contiguousTail hle hlt)

/-- **The walk over `u64` keys is the walk over natural numbers, wrapped around once.** -/
theorem contiguousTailU64_eq {next : Slot} {keys : List Slot} (hsorted : keys.Pairwise (· < ·))
    (hfrom : ∀ k ∈ keys, next ≤ k) (hkeys : ∀ k ∈ keys, k < 2 ^ 64) :
    contiguousTailU64 (next % 2 ^ 64) keys = contiguousTail next keys % 2 ^ 64 := by
  induction keys generalizing next with
  | nil => rfl
  | cons k keys ih =>
      obtain ⟨hk, htail⟩ := List.pairwise_cons.mp hsorted
      -- there is a key from `next` on, so `next` itself has not wrapped around
      have hnext : next < 2 ^ 64 :=
        lt_of_le_of_lt (hfrom k (List.mem_cons_self ..)) (hkeys k (List.mem_cons_self ..))
      rw [contiguousTailU64, contiguousTail, Nat.mod_eq_of_lt hnext]
      split
      · next heq =>
        rw [nextSlot]
        refine ih htail (fun k' hk' => ?_) fun k' hk' => hkeys k' (List.mem_cons_of_mem _ hk')
        rw [← heq]
        exact hk k' hk'
      · exact (Nat.mod_eq_of_lt hnext).symm

end StorageHelper

/-! ## The walk by lookup

It goes on as long as a lookup finds something, and meets the same slots. -/

/-- **Both walks stop at the same slot**: the first one missing. -/
theorem contiguousTail_eq_contiguousFrom (learned : OrdMap Slot Value) (adu : Slot) :
    StorageHelper.contiguousTail (adu + 1) (learned.keys.dropWhile (fun s => decide (s ≤ adu))) =
      adu + 1 + (contiguousFrom learned learned.size (adu + 1)).length := by
  obtain ⟨_, hwalked⟩ := contiguousFrom_eq learned learned.size (adu + 1)
  have hends := contiguousFrom_ends learned (adu + 1)
  generalize (contiguousFrom learned learned.size (adu + 1)).length = n at hwalked hends
  have hmem := StorageHelper.mem_dropWhile learned.keys_sorted adu
  apply le_antisymm
  · apply StorageHelper.contiguousTail_le (Nat.le_add_right ..)
    rw [hmem, OrdMap.mem_keys, hends]
    rintro ⟨⟨v, hv⟩, _⟩
    cases hv
  · rw [Nat.add_right_comm]
    refine StorageHelper.lt_contiguousTail
      (learned.keys_sorted.sublist (List.dropWhile_sublist _)) (fun k hk => ((hmem k).mp hk).2)
      fun s hs hle => (hmem s).mpr ⟨OrdMap.mem_keys.mpr (hwalked s ?_), hs⟩
    rw [List.mem_range'_1]
    exact ⟨hs, by lia⟩

/-- A walk that ends below `2 ^ 64` does not wrap around. -/
theorem contiguousFromU64_eq {learned : OrdMap Slot Value} {fuel : Nat} {next : Slot}
    (hlt : next + (contiguousFrom learned fuel next).length < 2 ^ 64) :
    contiguousFromU64 learned fuel next = contiguousFrom learned fuel next := by
  induction fuel generalizing next with
  | zero => rfl
  | succ fuel ih =>
      rw [contiguousFrom] at hlt
      rw [contiguousFromU64, contiguousFrom]
      cases hget : learned.get? next with
      | none => rfl
      | some value =>
          rw [hget, List.length_cons] at hlt
          have hnext : nextSlot next = next + 1 := Nat.mod_eq_of_lt (by lia)
          dsimp only
          rw [hnext, ih (by lia)]

/-- Where the cursor stays below `u64::MAX`, the sums are those of `toBeExecuted`. -/
theorem toBeExecutedU64_eq {l : Learner} (env : Env) (hlt : l.nextAdu + 1 < 2 ^ 64) :
    l.toBeExecutedU64 env = l.toBeExecuted env := by
  rw [nextAdu, Nat.add_right_comm] at hlt
  have hnext : nextSlot l.adu = l.adu + 1 :=
    Nat.mod_eq_of_lt (lt_of_le_of_lt (Nat.le_add_right ..) hlt)
  rw [toBeExecutedU64, toBeExecuted, hnext, contiguousFromU64_eq hlt]
  generalize contiguousFrom l.learned l.learned.size (l.adu + 1) = out at hlt
  cases out with
  | nil => rfl
  | cons entry out =>
      dsimp only
      rw [Nat.mod_eq_of_lt hlt, Nat.add_right_comm, Nat.add_sub_cancel]

/-- The cursor after a `toBeExecuted`, moved or not. -/
theorem toBeExecuted_adu (l : Learner) (env : Env) : (l.toBeExecuted env).2.adu = l.nextAdu := by
  rw [toBeExecuted_eq]
  split
  · rfl
  · next hstay => exact le_antisymm l.adu_le_nextAdu (Nat.le_of_not_lt hstay)

/-! ## The cursor that the files give -/

/-- The snapshots that a start over the files reads. -/
def Dir.loaded (dir : Dir) (config : RunConfig) : List PersistentSnapshotState :=
  (dir.snapshots.takeLast (asUsize config.storageLoadSnapshots)).values

/-- A snapshot that is read, or the changelog, has an entry for the slot. -/
def Dir.Holds (dir : Dir) (config : RunConfig) (slot : Slot) : Prop :=
  (∃ snap ∈ dir.loaded config, slot ∈ snap.learned.keys) ∨ ∃ entry ∈ dir.changelog, entry.slot = slot

/-- **The cursor that the files give**: that of the last snapshot that is read, or 0, moved on over the
slots that have an entry up to the first one that has none. -/
structure Dir.Gives (dir : Dir) (config : RunConfig) (cursor : Slot) : Prop where
  from_snapshot : StorageHelper.latestAdu 0 (dir.loaded config) ≤ cursor
  held : ∀ slot, StorageHelper.latestAdu 0 (dir.loaded config) < slot → slot ≤ cursor →
    dir.Holds config slot
  ends : ¬ dir.Holds config (cursor + 1)

variable {dir : Dir} {config : RunConfig}

theorem Dir.Gives.le {cursor cursor' : Slot} (h : dir.Gives config cursor)
    (h' : dir.Gives config cursor') : cursor' ≤ cursor := by
  by_contra hlt
  exact h.ends (h'.held (cursor + 1) (Nat.lt_succ_of_le h.from_snapshot) (Nat.lt_of_not_le hlt))

/-- The files give one cursor. -/
theorem Dir.Gives.unique {cursor cursor' : Slot} (h : dir.Gives config cursor)
    (h' : dir.Gives config cursor') : cursor = cursor' :=
  le_antisymm (h'.le h) (h.le h')

/-- A slot has an entry exactly if it is a key of the restored map. -/
theorem Dir.holds_iff {slot : Slot} : dir.Holds config slot ↔
    slot ∈ (StorageHelper.replayed (dir.loaded config) dir.changelog).keys := by
  rw [OrdMap.mem_keys]
  constructor
  · intro h
    obtain ⟨v, hv⟩ : ∃ v, (slot, v) ∈ (dir.loaded config).flatMap (fun snap => snap.learned.entries)
        ++ dir.changelog.map (fun entry => (entry.slot, entry.value)) := by
      rcases h with ⟨snap, hsnap, hkey⟩ | ⟨entry, hentry, rfl⟩
      · obtain ⟨v, hv⟩ := OrdMap.mem_keys.mp hkey
        exact ⟨v, StorageHelper.mem_replayed.mpr (Or.inl ⟨snap, hsnap, hv⟩)⟩
      · exact ⟨entry.value, StorageHelper.mem_replayed.mpr (Or.inr hentry)⟩
    rw [← Option.ne_none_iff_exists', StorageHelper.replayed, OrdMap.get?_insertAll,
      OrdMap.get?_empty, Option.or_none, OrdMap.lastValue?]
    intro hnone
    rw [Option.map_eq_none_iff, List.getLast?_eq_none_iff, List.filter_eq_nil_iff] at hnone
    exact hnone _ hv (decide_eq_true rfl)
  · rintro ⟨v, hv⟩
    rcases OrdMap.get?_insertAll_cases hv with hempty | hmem
    · cases hempty
    · rcases StorageHelper.mem_replayed.mp hmem with ⟨snap, hsnap, hget⟩ | hentry
      · exact Or.inl ⟨snap, hsnap, OrdMap.mem_keys.mpr ⟨v, hget⟩⟩
      · exact Or.inr ⟨_, hentry, rfl⟩

/-- **A start over the files gets the cursor that they give.** -/
theorem Dir.gives_loadState (hon : config.persistentStorage = true) (hash : String → Nat) (dir : Dir)
    (env : Env) (numAcceptors : Nat) (nodeId : String) :
    dir.Gives config (new hash dir env numAcceptors nodeId config).loadState.2.adu := by
  have hfiles : (new hash dir env numAcceptors nodeId config).storage.store.loadStateAndChanges
      config.storageLoadSnapshots = (dir.loaded config, dir.changelog) := rfl
  have hload := StorageHelper.loadAndReplayState_eq hon ∅ 0 hfiles
  have hadu : (new hash dir env numAcceptors nodeId config).loadState.2.adu = _ :=
    congrArg (fun r => r.2.2) hload
  dsimp only at hadu
  have hsorted := (StorageHelper.replayed (dir.loaded config) dir.changelog).keys_sorted
  have hkeys : ∀ slot, slot ∈ (StorageHelper.replayed (dir.loaded config) dir.changelog).keys.dropWhile
      (fun s => decide (s ≤ StorageHelper.latestAdu 0 (dir.loaded config))) ↔
      dir.Holds config slot ∧ StorageHelper.latestAdu 0 (dir.loaded config) < slot := by
    intro slot
    rw [StorageHelper.mem_dropWhile hsorted, Dir.holds_iff]
  have hdropped := hsorted.sublist (List.dropWhile_sublist
    (fun s => decide (s ≤ StorageHelper.latestAdu 0 (dir.loaded config))))
  obtain ⟨start, hstart⟩ : ∃ start, start = StorageHelper.latestAdu 0 (dir.loaded config) := ⟨_, rfl⟩
  rw [← hstart] at hadu hkeys hdropped
  generalize (StorageHelper.replayed (dir.loaded config) dir.changelog).keys.dropWhile
    (fun s => decide (s ≤ start)) = keys at hadu hkeys hdropped
  have hpast := StorageHelper.le_contiguousTail (start + 1) keys
  have hgap : StorageHelper.contiguousTail (start + 1) keys ∉ keys :=
    StorageHelper.contiguousTail_notMem hdropped (fun k hk => ((hkeys k).mp hk).2)
  have hback : StorageHelper.contiguousTail (start + 1) keys - 1 + 1 =
      StorageHelper.contiguousTail (start + 1) keys := Nat.sub_add_cancel (by lia)
  rw [hadu]
  refine ⟨?_, fun slot hlt hle => ?_, fun hheld => ?_⟩
  · rw [← hstart]
    exact Nat.le_sub_one_of_lt hpast
  · rw [← hstart] at hlt
    exact ((hkeys slot).mp (StorageHelper.mem_of_lt_contiguousTail hlt (by lia))).1
  · rw [hback] at hheld
    exact hgap ((hkeys _).mpr ⟨hheld, hpast⟩)

/-! ## What the files decode to

The writes in the order of the files, the map they add up to, and the end of the walk over it. -/

/-- The decoded files of a learner: every cursor and every slot is a `u64`. -/
structure Decoded where
  snapshots : List PersistentSnapshotState
  changes : List LearnedEntry
  adu_lt : ∀ snap ∈ snapshots, snap.adu < 2 ^ 64
  slot_lt : ∀ snap ∈ snapshots, ∀ s ∈ snap.learned.keys, s < 2 ^ 64
  change_lt : ∀ entry ∈ changes, entry.slot < 2 ^ 64

namespace Decoded

variable (d : Decoded)

/-- Every write of the files, the snapshots before the changelog. -/
def writes : List (Slot × Value) :=
  d.snapshots.flatMap (fun snap => snap.learned.entries)
    ++ d.changes.map (fun entry => (entry.slot, entry.value))

/-- The value written last for a slot. -/
def lastWrite (s : Slot) : Option Value := OrdMap.lastValue? d.writes s

/-- The cursor the replay starts from: the one of the last snapshot. -/
def start (adu : Slot) : Slot := StorageHelper.latestAdu adu d.snapshots

theorem start_lt {adu : Slot} (hadu : adu < 2 ^ 64) : d.start adu < 2 ^ 64 := by
  rw [start, StorageHelper.latestAdu]
  cases hlast : d.snapshots.getLast? with
  | none => exact hadu
  | some snap => exact d.adu_lt snap (List.mem_of_getLast? hlast)

theorem write_lt {w : Slot × Value} (hw : w ∈ d.writes) : w.1 < 2 ^ 64 := by
  rcases List.mem_append.mp hw with hw | hw
  · obtain ⟨snap, hsnap, hw⟩ := List.mem_flatMap.mp hw
    exact d.slot_lt snap hsnap _ (List.mem_map_of_mem hw)
  · obtain ⟨entry, hentry, rfl⟩ := List.mem_map.mp hw
    exact d.change_lt entry hentry

/-- The restored map. -/
def restored : OrdMap Slot Value := StorageHelper.replayed d.snapshots d.changes

theorem get?_restored (s : Slot) : d.restored.get? s = d.lastWrite s := by
  rw [restored, StorageHelper.replayed, OrdMap.get?_insertAll, OrdMap.get?_empty, Option.or_none]
  rfl

theorem restored_lt {s : Slot} (hs : s ∈ d.restored.keys) : s < 2 ^ 64 := by
  obtain ⟨v, hv⟩ := OrdMap.mem_keys.mp hs
  rcases OrdMap.get?_insertAll_cases hv with hempty | hmem
  · cases hempty
  · exact d.write_lt hmem

/-- The keys the replay walks over. -/
def keysFrom (adu : Slot) : List Slot :=
  d.restored.keys.dropWhile (fun s => decide (s ≤ d.start adu))

theorem mem_keysFrom {adu s : Slot} :
    s ∈ d.keysFrom adu ↔ (d.lastWrite s).isSome ∧ d.start adu < s := by
  rw [keysFrom, StorageHelper.mem_dropWhile d.restored.keys_sorted, OrdMap.mem_keys,
    d.get?_restored, Option.isSome_iff_exists]

theorem keysFrom_sorted (adu : Slot) : (d.keysFrom adu).Pairwise (· < ·) :=
  d.restored.keys_sorted.sublist (List.dropWhile_sublist _)

/-- Where the walk stops, as a natural number. -/
def walkEnd (adu : Slot) : Slot :=
  StorageHelper.contiguousTail (d.start adu + 1) (d.keysFrom adu)

/-- A slot after the cursor of the last snapshot that the restored map does not have. -/
def Missing (adu s : Slot) : Prop := d.start adu < s ∧ s < 2 ^ 64 ∧ d.lastWrite s = none

theorem walkEnd_le {adu : Slot} (hadu : adu < 2 ^ 64) : d.walkEnd adu ≤ 2 ^ 64 := by
  apply StorageHelper.contiguousTail_le (d.start_lt hadu)
  intro hmem
  have hkey := ((StorageHelper.mem_dropWhile d.restored.keys_sorted _ _).mp hmem).1
  exact lt_irrefl _ (d.restored_lt hkey)

/-- The walk ends within the `u64` slots exactly if one of them is missing. -/
theorem walkEnd_lt_iff (adu : Slot) : d.walkEnd adu < 2 ^ 64 ↔ ∃ s, d.Missing adu s := by
  constructor
  · intro hlt
    have hpast : d.start adu < d.walkEnd adu := StorageHelper.le_contiguousTail _ _
    refine ⟨d.walkEnd adu, hpast, hlt, ?_⟩
    have hgap := StorageHelper.contiguousTail_notMem (d.keysFrom_sorted adu)
      fun k hk => (d.mem_keysFrom.mp hk).2
    rw [d.mem_keysFrom] at hgap
    by_contra hsome
    exact hgap ⟨Option.isSome_iff_ne_none.mpr hsome, hpast⟩
  · rintro ⟨s, hpast, hlt, hnone⟩
    refine lt_of_le_of_lt (StorageHelper.contiguousTail_le hpast fun hmem => ?_) hlt
    have hsome := (d.mem_keysFrom.mp hmem).1
    rw [hnone] at hsome
    cases hsome

end Decoded

/-! ## The two cursors

The cursor of the recovery and the one the next execution gets to, with the sums of the source. -/

/-- **What a load leaves behind**: the last write of every slot, and the cursor to which
`toBeExecuted` walks on the restored map, the greatest one with no slot missing before it. -/
structure Restores (l : Learner) (d : Decoded) : Prop where
  ok : l.loadStateU64.1 = .ok ()
  lastWrite : ∀ s, l.loadStateU64.2.learned.get? s = d.lastWrite s
  sameCursor : ∀ env,
    (toBeExecutedU64 { l.loadStateU64.2 with adu := d.start l.adu } env).2.adu = l.loadStateU64.2.adu
  greatest : IsGreatest {a | d.start l.adu ≤ a ∧ a < 2 ^ 64 ∧
    ∀ s, d.start l.adu < s → s ≤ a → ∃ v, l.loadStateU64.2.learned.get? s = some v}
    l.loadStateU64.2.adu

theorem loadStateU64_eq {l : Learner} {d : Decoded} (hon : l.storage.enabled = true)
    (hfiles : l.storage.store.loadStateAndChanges l.storage.runConfig.storageLoadSnapshots =
      (d.snapshots, d.changes)) :
    l.loadStateU64 = (.ok (), { l with
      learned := d.restored
      adu := d.walkEnd l.adu % 2 ^ 64 - 1 }) := by
  have hwalk := StorageHelper.contiguousTailU64_eq (d.keysFrom_sorted l.adu)
    (fun k hk => (d.mem_keysFrom.mp hk).2)
    fun k hk => d.restored_lt (List.dropWhile_sublist _ |>.subset hk)
  rw [loadStateU64, StorageHelper.loadAndReplayStateU64, if_neg (by simp [hon]), hfiles]
  dsimp only
  rw [StorageHelper.replaySnapshots_eq]
  dsimp only
  rw [← OrdMap.insertAll_append]
  exact congrArg (fun next => (Except.ok (), { l with learned := d.restored, adu := next - 1 })) hwalk

/-- Where the walk does not wrap around, the load is `loadState`. -/
theorem loadStateU64_eq_loadState {l : Learner} {d : Decoded} (hon : l.storage.enabled = true)
    (hfiles : l.storage.store.loadStateAndChanges l.storage.runConfig.storageLoadSnapshots =
      (d.snapshots, d.changes))
    (hlt : d.walkEnd l.adu < 2 ^ 64) : l.loadStateU64 = l.loadState := by
  rw [loadStateU64_eq hon hfiles, Nat.mod_eq_of_lt hlt, loadState,
    StorageHelper.loadAndReplayState_eq hon l.learned l.adu hfiles]
  rfl

/-- The lookup walk from the start ends where the walk over the keys does. -/
theorem toBeExecutedU64_adu {l : Learner} {d : Decoded} {adu : Slot} (env : Env)
    (hlearned : l.learned = d.restored) (hstart : l.adu = d.start adu)
    (hlt : d.walkEnd adu < 2 ^ 64) : (l.toBeExecutedU64 env).2.adu = d.walkEnd adu - 1 := by
  have hend : l.nextAdu + 1 = d.walkEnd adu := by
    rw [nextAdu, hlearned, hstart, Nat.add_right_comm]
    exact (contiguousTail_eq_contiguousFrom d.restored (d.start adu)).symm
  rw [toBeExecutedU64_eq env (by rwa [hend]), ← hend, Nat.add_sub_cancel]
  exact l.toBeExecuted_adu env

/-- **The recovered cursor is the execution cursor exactly if a `u64` slot after the start is
missing from the restored map.** -/
theorem restores_iff_missing {l : Learner} {d : Decoded} (hon : l.storage.enabled = true)
    (hadu : l.adu < 2 ^ 64)
    (hfiles : l.storage.store.loadStateAndChanges l.storage.runConfig.storageLoadSnapshots =
      (d.snapshots, d.changes)) :
    l.Restores d ↔ ∃ s, d.Missing l.adu s := by
  have hload := loadStateU64_eq hon hfiles
  have hpast : d.start l.adu < d.walkEnd l.adu := StorageHelper.le_contiguousTail _ _
  rw [← d.walkEnd_lt_iff]
  constructor
  · intro h
    by_contra hwrap
    have hend : d.walkEnd l.adu = 2 ^ 64 :=
      le_antisymm (d.walkEnd_le hadu) (Nat.le_of_not_lt hwrap)
    have hgreatest := h.greatest
    rw [hload, hend] at hgreatest
    -- every slot up to the last one is present, but the cursor is at 0
    have hlast := hgreatest.2 (show 2 ^ 64 - 1 ∈ _ from
      ⟨by have := d.start_lt hadu; lia, by decide, fun s hs hle => ?_⟩)
    · exact absurd hlast (show ¬ 2 ^ 64 - 1 ≤ 2 ^ 64 % 2 ^ 64 - 1 by decide)
    · have hmem := StorageHelper.mem_of_lt_contiguousTail (Nat.succ_le_of_lt hs)
        (show s < d.walkEnd l.adu by rw [hend]; lia)
      dsimp only
      rw [d.get?_restored]
      exact Option.isSome_iff_exists.mp (d.mem_keysFrom.mp hmem).1
  · intro hlt
    have hcursor : l.loadStateU64.2.adu = d.walkEnd l.adu - 1 := by
      rw [hload]
      exact congrArg (· - 1) (Nat.mod_eq_of_lt hlt)
    have hlearned : l.loadStateU64.2.learned = d.restored := by rw [hload]
    constructor
    case ok => rw [hload]
    case lastWrite =>
      intro s
      rw [hlearned, d.get?_restored]
    case sameCursor =>
      intro env
      rw [hcursor]
      exact toBeExecutedU64_adu env hlearned rfl hlt
    case greatest =>
      rw [hcursor, hlearned]
      refine ⟨⟨by lia, by lia, fun s hs hle => ?_⟩, fun a ⟨hstart, _, hall⟩ => ?_⟩
      · have hmem := StorageHelper.mem_of_lt_contiguousTail (Nat.succ_le_of_lt hs)
          (show s < d.walkEnd l.adu by lia)
        rw [d.get?_restored]
        exact Option.isSome_iff_exists.mp (d.mem_keysFrom.mp hmem).1
      · have hwalked : a < d.walkEnd l.adu := by
          refine StorageHelper.lt_contiguousTail (d.keysFrom_sorted l.adu)
            (fun k hk => (d.mem_keysFrom.mp hk).2) fun s hs hle => ?_
          obtain ⟨v, hv⟩ := hall s hs hle
          rw [d.get?_restored] at hv
          exact d.mem_keysFrom.mpr ⟨Option.isSome_iff_exists.mpr ⟨v, hv⟩, hs⟩
        exact Nat.le_sub_one_of_lt hwalked

/-- Slots 3, 4 and 6, after a snapshot at slot 2. -/
def gapAtFive : Decoded where
  snapshots := [⟨2, OrdMap.insertAll ∅ [(1, setX "a"), (2, setX "b"), (3, setX "c")]⟩]
  changes := [⟨3, setX "d"⟩, ⟨6, setX "e"⟩, ⟨4, setX "f"⟩]
  adu_lt := by decide
  slot_lt := by decide
  change_lt := by decide

/-- A directory with the files `d`, the snapshots stamped in their order. -/
def filesOf (d : Decoded) : Dir where
  state := none
  snapshots := OrdMap.insertAll ∅ (d.snapshots.zipIdx.map (fun p => (p.2, p.1)))
  changelog := d.changes
  script := []

/-- A learner created over the files `d`, before it loads them. -/
def booted (d : Decoded) : Learner :=
  new (fun _ => 0) (filesOf d) Env.quiet 3 "1" twoSlotSnapshots

/-- A checkpoint at slot 2 is recovered up to slot 4: slot 5 is missing. -/
theorem restores_up_to_gap : (booted gapAtFive).Restores gapAtFive :=
  (restores_iff_missing (l := booted gapAtFive) rfl (by decide) rfl).mpr
    ⟨5, by decide, by decide, rfl⟩

/-- One snapshot at the greatest slot, with no entry. -/
def lastSlotSnapshot : Decoded where
  snapshots := [⟨2 ^ 64 - 1, ∅⟩]
  changes := []
  adu_lt := by decide
  slot_lt := by decide
  change_lt := by decide

/-- **The cursor falls back to 0**: after the greatest slot there is none left to be missing. -/
theorem wrapped_cursor_falls_back :
    (booted lastSlotSnapshot).storage.store.loadStateAndChanges
        (booted lastSlotSnapshot).storage.runConfig.storageLoadSnapshots =
        (lastSlotSnapshot.snapshots, lastSlotSnapshot.changes) ∧
      (booted lastSlotSnapshot).loadStateU64.2.adu = 0 ∧
      (toBeExecutedU64 { (booted lastSlotSnapshot).loadStateU64.2 with adu := 2 ^ 64 - 1 }
        Env.quiet).2.adu = 2 ^ 64 - 1 ∧
      ¬ (booted lastSlotSnapshot).Restores lastSlotSnapshot := by
  refine ⟨rfl, by decide, by decide, fun h => ?_⟩
  have hsame := h.sameCursor Env.quiet
  revert hsame
  decide

end Learner

end PaxosWasm
