import PaxosWasm.Core.Changelog
import PaxosWasm.Core.Storage
import PaxosWasm.Library.Decimals

/-!
# The files of a store

Both stores keep, per key, a directory `snapshots` and a `changelog.bin`. A snapshot is a file
`snapshot-<timestamp>.bin`; it is written under another name that no listing shows, and renamed. The
snapshots are listed in the order of their names. What matters of the directory is therefore its visible
part (`loadFiles_eq`), and a listing, a removal or a new snapshot is one of that part.
-/

namespace PaxosWasm

open Library

abbrev Bytes : Type := List UInt8

/-- The directory `snapshots`. -/
abbrev SnapshotsDir : Type := OrdMap String Bytes

def snapshotFile (timestamp : String) : String := "snapshot-" ++ timestamp ++ ".bin"

/-- `starts_with("snapshot-")` and `ends_with(".bin")`. -/
def isSnapshot (name : String) : Bool :=
  decide ("snapshot-".toList <+: name.toList) && decide (".bin".toList <:+ name.toList)

namespace SnapshotsDir

def remove (dir : SnapshotsDir) (name : String) : SnapshotsDir := dir.retain (· ≠ name)

/-- `fs::rename`. -/
def rename (dir : SnapshotsDir) (old new : String) : SnapshotsDir :=
  match dir.get? old with
  | some bytes => (remove dir old).insert new bytes
  | none => dir

/-- `list_snapshots`: the directory is read in some order, and sorted. -/
def listSnapshots (dir : SnapshotsDir) : List String := dir.keys.filter isSnapshot

/-- `fs::read` of each of the files. -/
def readEach (dir : SnapshotsDir) : List String → Except String (List Bytes)
  | [] => .ok []
  | name :: names =>
      match dir.get? name with
      | none => .error "No such file or directory"
      | some bytes => (readEach dir names).map (bytes :: ·)

/-- The last `n` snapshots and the records of the changelog. -/
def loadFiles (dir : SnapshotsDir) (changelog : Option Bytes) (n : Nat) :
    Except String (List Bytes × List Changelog.Change) := do
  let all := listSnapshots dir
  let snaps ← readEach dir (all.drop (all.length - n))
  let changes ← changelog.elim (.ok []) Changelog.load
  .ok (snaps, changes)

/-- The files that are listed. -/
def visible (dir : SnapshotsDir) : SnapshotsDir := dir.retain isSnapshot

end SnapshotsDir

open SnapshotsDir

variable {dir : SnapshotsDir} {name : String} {bytes : Bytes}

/-! ## Names -/

theorem isSnapshot_snapshotFile (timestamp : String) : isSnapshot (snapshotFile timestamp) = true := by
  have hstart : "snapshot-".toList <+: (snapshotFile timestamp).toList :=
    ⟨(timestamp ++ ".bin").toList, by simp [snapshotFile]⟩
  have hend : ".bin".toList <:+ (snapshotFile timestamp).toList :=
    ⟨("snapshot-" ++ timestamp).toList, by simp [snapshotFile]⟩
  rw [isSnapshot, decide_eq_true hstart, decide_eq_true hend, Bool.and_true]

/-- The name under which a snapshot is written is not listed. -/
theorem isSnapshot_tmp (s : String) : isSnapshot (s ++ ".tmp") = false := by
  have hend : ¬ ".bin".toList <:+ s.toList ++ ".tmp".toList := by
    rintro ⟨front, h⟩
    have hsame := List.append_inj_right' h (by simp)
    simp at hsame
  rw [isSnapshot, String.toList_append, decide_eq_false hend, Bool.and_false]

/-- **Names in the order of the timestamps**: a timestamp that does not go on with an earlier one, as
two of ISO format do not, names a later file. -/
theorem snapshotFile_lt {t t' : String} (hlt : t < t') (hfront : ¬ t.toList <+: t'.toList) :
    snapshotFile t < snapshotFile t' := by
  rw [String.lt_iff_toList_lt] at hlt ⊢
  simp only [snapshotFile, String.toList_append, List.append_assoc]
  exact (((Below.of_lt hlt hfront).append _ _).append_left _).lt

/-! ## The visible part

Files whose names are not those of snapshots are never listed, so they can be left out of account. -/

theorem listSnapshots_eq (dir : SnapshotsDir) : listSnapshots dir = (visible dir).keys := by
  obtain ⟨es, hs⟩ := dir
  show (es.map Prod.fst).filter isSnapshot = (es.filter (fun e => isSnapshot e.1)).map Prod.fst
  rw [List.filter_map]
  rfl

theorem get?_visible (dir : SnapshotsDir) (name : String) :
    (visible dir).get? name = if isSnapshot name then dir.get? name else none :=
  OrdMap.get?_retain ..

/-- A file that is not listed makes no difference. -/
theorem visible_insert_of_not (h : isSnapshot name = false) :
    visible (dir.insert name bytes) = visible dir := by
  apply OrdMap.ext_get?
  intro k
  rw [get?_visible, get?_visible]
  split
  · next hk =>
    refine OrdMap.get?_insert_of_ne _ _ ?_
    rintro rfl
    rw [h] at hk
    cases hk
  · rfl

theorem visible_insert (h : isSnapshot name = true) :
    visible (dir.insert name bytes) = (visible dir).insert name bytes := by
  apply OrdMap.ext_get?
  intro k
  rw [get?_visible, OrdMap.get?_insert, OrdMap.get?_insert, get?_visible]
  by_cases hk : k = name
  · subst hk
    rw [if_pos h, if_pos rfl, if_pos rfl]
  · rw [if_neg hk, if_neg hk]

theorem visible_remove (dir : SnapshotsDir) (name : String) :
    visible (remove dir name) = remove (visible dir) name := by
  apply OrdMap.ext_get?
  intro k
  rw [remove, remove, get?_visible, OrdMap.get?_retain, OrdMap.get?_retain, get?_visible]
  split <;> split <;> rfl

theorem remove_of_not_mem (h : dir.get? name = none) : remove dir name = dir := by
  apply OrdMap.ext_get?
  intro k
  rw [remove, OrdMap.get?_retain]
  by_cases hk : k = name
  · subst hk
    rw [h]
    split <;> rfl
  · rw [if_pos (decide_eq_true hk)]

/-- **A rename** of a file that is not listed makes a new snapshot visible. -/
theorem visible_rename {old new : String} (hget : dir.get? old = some bytes)
    (hold : isSnapshot old = false) (hnew : isSnapshot new = true) :
    visible (rename dir old new) = (visible dir).insert new bytes := by
  have hnone : (visible dir).get? old = none := by rw [get?_visible, hold]; rfl
  rw [rename, hget]
  dsimp only
  rw [visible_insert hnew, visible_remove, remove_of_not_mem hnone]

/-! ## Reading -/

theorem readEach_entries {es : List (String × Bytes)} (h : ∀ e ∈ es, dir.get? e.1 = some e.2) :
    readEach dir (es.map Prod.fst) = .ok (es.map Prod.snd) := by
  induction es with
  | nil => rfl
  | cons e es ih =>
      rw [List.map_cons, readEach, h e (List.mem_cons_self ..)]
      dsimp only
      rw [ih (fun e he => h e (List.mem_cons_of_mem _ he))]
      rfl

/-- **What is read** are the last of the visible files, and the changelog. -/
theorem loadFiles_eq (dir : SnapshotsDir) (changelog : Option Bytes) (n : Nat) :
    loadFiles dir changelog n = (changelog.elim (.ok []) Changelog.load).map
      (fun changes => (((visible dir).takeLast n).values, changes)) := by
  have hnames : (listSnapshots dir).drop ((listSnapshots dir).length - n) =
      (((visible dir).takeLast n).entries).map Prod.fst := by
    rw [listSnapshots_eq, OrdMap.keys, List.length_map, ← List.map_drop]
    rfl
  have hread : ∀ e ∈ ((visible dir).takeLast n).entries, dir.get? e.1 = some e.2 := by
    rintro ⟨name, bytes⟩ he
    have hget : (visible dir).get? name = some bytes :=
      OrdMap.get?_of_takeLast (OrdMap.mem_entries.mpr he)
    rw [get?_visible] at hget
    split at hget
    · exact hget
    · cases hget
  unfold loadFiles
  dsimp only
  rw [hnames, readEach_entries hread]
  cases changelog.elim (.ok []) Changelog.load <;> rfl

/-! ## Removing the oldest -/

/-- Without its first file, the last ones are left. -/
theorem remove_first {dir : SnapshotsDir} {name : String} {names : List String}
    (h : dir.keys = name :: names) : remove dir name = dir.takeLast names.length := by
  obtain ⟨es, hs⟩ := dir
  cases es with
  | nil => cases h
  | cons e es =>
      obtain ⟨hhead, hnames⟩ := List.cons.inj h
      subst hhead
      have hlater := (List.pairwise_cons.mp hs).1
      have hkept : (e :: es).filter (fun x => decide (x.1 ≠ e.1)) = es := by
        rw [List.filter_cons_of_neg (by simp), List.filter_eq_self]
        exact fun x hx => decide_eq_true (ne_of_gt (hlater x hx))
      have hlength : (e :: es).length - names.length = 1 := by
        rw [← hnames, List.length_map, List.length_cons]
        omega
      simp only [remove, OrdMap.retain, OrdMap.takeLast, hlength, List.drop_one, List.tail_cons]
      congr 1

theorem keys_takeLast (dir : SnapshotsDir) (n : Nat) :
    (dir.takeLast n).keys = dir.keys.drop (dir.keys.length - n) := by
  rw [OrdMap.keys, OrdMap.keys, List.length_map, ← List.map_drop]
  rfl

end PaxosWasm
