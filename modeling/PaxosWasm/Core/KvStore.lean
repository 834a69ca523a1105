import PaxosWasm.Types

/-!
# The key-value store

`core/kv-store`: the state machine the learned commands are applied to. Its meaning is `replay`, the
store that a list of commands makes of the empty one.
-/

namespace PaxosWasm

/-- The contents of the store. -/
abbrev Pairs := Finmap (fun _ : KvKey => KvValue)

/-- `MyKvStoreResource`. -/
structure KvStore where
  store : Pairs
  history : List Cmd

namespace KvStore

def new : KvStore := { store := ∅, history := [] }

def logCmd (kv : KvStore) (cmd : Cmd) : KvStore := { kv with history := kv.history ++ [cmd] }

def execute (kv : KvStore) : Operation → Option KvValue × KvStore
  | .get key => (kv.store.lookup key, kv)
  | .set key value => (none, { kv with store := kv.store.insert key value })
  | .remove key => (kv.store.lookup key, { kv with store := kv.store.erase key })
  | .clear => (none, { kv with store := ∅ })
  | .demo => (some "Demo", kv)

def apply (kv : KvStore) (cmd : Cmd) : CmdResult × KvStore :=
  let kv := kv.logCmd cmd
  match cmd with
  | none => (.noOp, kv)
  | some op =>
      let (value, kv) := kv.execute op
      (.cmdValue value, kv)

/-! ## Replay -/

/-- The store after one command. -/
def applyTo (store : Pairs) (cmd : Cmd) : Pairs := (apply { store, history := [] } cmd).2.store

/-- The store that a list of commands makes of the empty one. -/
def replay (cmds : List Cmd) : Pairs := cmds.foldl applyTo ∅

/-- The history has no influence on the store. -/
theorem store_apply (kv : KvStore) (cmd : Cmd) : (kv.apply cmd).2.store = applyTo kv.store cmd := by
  cases cmd with
  | none => rfl
  | some op => cases op <;> rfl

/-! ## What is read -/

/-- What a command makes of a key, if it touches it. -/
def written? (key : KvKey) : Cmd → Option (Option KvValue)
  | some (.set k v) => if k = key then some (some v) else none
  | some (.remove k) => if k = key then some none else none
  | some .clear => some none
  | _ => none

/-- What the last command that touches a key has made of it. -/
def lastWritten (key : KvKey) (cmds : List Cmd) : Option KvValue :=
  (cmds.reverse.findSome? (written? key)).join

theorem lookup_applyTo (store : Pairs) (cmd : Cmd) (key : KvKey) :
    (applyTo store cmd).lookup key = (written? key cmd).getD (store.lookup key) := by
  cases cmd with
  | none => rfl
  | some op =>
      cases op with
      | set k v =>
          show (store.insert k v).lookup key = _
          by_cases hk : k = key
          · subst hk
            rw [Finmap.lookup_insert, written?, if_pos rfl]
            rfl
          · rw [Finmap.lookup_insert_of_ne _ (Ne.symm hk), written?, if_neg hk]
            rfl
      | remove k =>
          show (store.erase k).lookup key = _
          by_cases hk : k = key
          · subst hk
            rw [Finmap.lookup_erase, written?, if_pos rfl]
            rfl
          · rw [Finmap.lookup_erase_ne (Ne.symm hk), written?, if_neg hk]
            rfl
      | _ => rfl

/-- **A key holds what was last written to it.** -/
theorem lookup_replay (cmds : List Cmd) (key : KvKey) :
    (replay cmds).lookup key = lastWritten key cmds := by
  induction cmds using List.reverseRecOn with
  | nil => rfl
  | append_singleton cmds cmd ih =>
      rw [replay, List.foldl_append, List.foldl_cons, List.foldl_nil, lookup_applyTo]
      show (written? key cmd).getD ((replay cmds).lookup key) = _
      rw [ih, lastWritten, lastWritten, List.reverse_concat, List.findSome?_cons]
      cases written? key cmd <;> rfl

/-- Commands leave the store empty exactly if they leave no key with a value. -/
theorem replay_eq_empty_iff {cmds : List Cmd} :
    replay cmds = ∅ ↔ ∀ key, lastWritten key cmds = none := by
  constructor
  · intro h key
    rw [← lookup_replay, h]
    exact Finmap.lookup_empty key
  · intro h
    apply Finmap.ext_lookup
    intro key
    rw [lookup_replay, h key, Finmap.lookup_empty]

/-- The answer to a command after others: reading and removing give what was last written. -/
def answer (cmds : List Cmd) : Cmd → CmdResult
  | none => .noOp
  | some (.get key) => .cmdValue (lastWritten key cmds)
  | some (.remove key) => .cmdValue (lastWritten key cmds)
  | some .demo => .cmdValue (some "Demo")
  | some _ => .cmdValue none

/-- **The store answers with what was last written.** -/
theorem apply_eq_answer {kv : KvStore} {cmds : List Cmd} (h : kv.store = replay cmds) (cmd : Cmd) :
    (kv.apply cmd).1 = answer cmds cmd := by
  cases cmd with
  | none => rfl
  | some op =>
      cases op with
      | get key =>
          show CmdResult.cmdValue (kv.store.lookup key) = _
          rw [h, lookup_replay]
          rfl
      | remove key =>
          show CmdResult.cmdValue (kv.store.lookup key) = _
          rw [h, lookup_replay]
          rfl
      | _ => rfl

end KvStore

end PaxosWasm
