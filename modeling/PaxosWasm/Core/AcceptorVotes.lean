import PaxosWasm.Core.Acceptor
import PaxosWasm.Library.Quorum
import PaxosWasm.Library.Run

/-!
# Votes of the core acceptor

The acceptor never replaces an accepted value, so what it acknowledges for a slot is what it holds
there. Without storage nothing is ever removed from the map, hence an acceptor acknowledges one
value per slot in its whole life and two majorities cannot acknowledge different ones. With storage a
checkpoint prunes old slots from that same map, and a pruned slot is open for a new value; the vote
is kept as long as no checkpoint drops the slot.

Without storage the map of an acceptor only grows, it has one value for a slot at most in all its life,
and two majorities share an acceptor. With storage the map is pruned, and the vote for a slot lasts until
a checkpoint drops it: no other call opens a slot again.
-/

namespace PaxosWasm

open Library

namespace Acceptor

/-! ## The storage helper

Which slots trigger a checkpoint is fixed when the helper is created; the map of accepted values is
pruned in a checkpoint only. -/

namespace StorageHelper

/-- What a helper is created with, and its snapshot cursor. -/
structure Settings where
  enabled : Bool
  runConfig : RunConfig
  snapshotSlotOffset : Nat
  lastSnapshotSlot : Slot

def settings (h : StorageHelper) : Settings :=
  ⟨h.enabled, h.runConfig, h.snapshotSlotOffset, h.lastSnapshotSlot⟩

/-- Archiving `slot` triggers a checkpoint. -/
def Settings.Triggers (c : Settings) (slot : Slot) : Prop :=
  c.enabled = true ∧ c.runConfig.storageSnapshotSlotInterval ≠ 0 ∧
    slot % c.runConfig.storageSnapshotSlotInterval = c.snapshotSlotOffset ∧
    slot > c.lastSnapshotSlot

instance (c : Settings) (slot : Slot) : Decidable (c.Triggers slot) :=
  inferInstanceAs (Decidable (_ ∧ _ ∧ _ ∧ _))

variable (h : StorageHelper) (env : Env)

theorem settings_flushCurrentState : (h.flushCurrentState env).2.settings = h.settings := by
  unfold flushCurrentState
  split
  · rfl
  · dsimp only
    split <;> rfl

theorem settings_maybeFlushCurrentState :
    (h.maybeFlushCurrentState env).2.settings = h.settings := by
  have hflush := h.settings_flushCurrentState env
  unfold maybeFlushCurrentState
  split
  · rfl
  · split
    · rfl
    · split
      · split
        · next h₁ he =>
          rw [he] at hflush
          exact hflush
        · next h₁ he =>
          rw [he] at hflush
          exact hflush
      · rfl

theorem settings_saveCurrentState (promises : List Ballot) :
    (h.saveCurrentState env promises).2.settings = h.settings := by
  unfold saveCurrentState
  split
  · rfl
  · split
    · rfl
    · exact settings_maybeFlushCurrentState _ env

theorem settings_flushChanges : (h.flushChanges env).2.settings = h.settings := by
  unfold flushChanges
  split
  · rfl
  · split <;> rfl

theorem settings_maybeFlushChanges : (h.maybeFlushChanges env).2.settings = h.settings := by
  have hflush := h.settings_flushChanges env
  unfold maybeFlushChanges
  split
  · rfl
  · split
    · rfl
    · split
      · split
        · next h₁ he =>
          rw [he] at hflush
          exact hflush
        · next h₁ he =>
          rw [he] at hflush
          exact hflush
      · rfl

theorem settings_saveChange (pv : PValue) : (h.saveChange env pv).2.settings = h.settings := by
  unfold saveChange
  split
  · rfl
  · split
    · rfl
    · exact settings_maybeFlushChanges _ env

theorem checkpointSnapshot_cases (accepted : OrdMap Slot PValue) :
    (h.checkpointSnapshot env accepted).2.1.settings = h.settings ∧
      ((h.checkpointSnapshot env accepted).2.2 = accepted ∨
        (h.checkpointSnapshot env accepted).2.2 = prune h.runConfig accepted) := by
  unfold checkpointSnapshot
  split
  · exact ⟨rfl, Or.inl rfl⟩
  · dsimp only
    split
    · exact ⟨rfl, Or.inl rfl⟩
    · exact ⟨rfl, Or.inr rfl⟩

/-- The map only changes in a checkpoint, and then by pruning. -/
theorem maybeSnapshot_cases (slot : Slot) (accepted : OrdMap Slot PValue) :
    ((h.maybeSnapshot env slot accepted).2.1.settings = h.settings ∨
      (h.maybeSnapshot env slot accepted).2.1.settings = { h.settings with lastSnapshotSlot := slot }) ∧
    ((h.maybeSnapshot env slot accepted).2.2 = accepted ∨
      h.settings.Triggers slot ∧
        (h.maybeSnapshot env slot accepted).2.2 = prune h.runConfig accepted) := by
  unfold maybeSnapshot
  split
  · exact ⟨Or.inl rfl, Or.inl rfl⟩
  · next hon =>
    split
    · next hslot =>
      have hflush := h.settings_flushChanges env
      split
      · next h₁ he₁ =>
        rw [he₁] at hflush
        exact ⟨Or.inl hflush, Or.inl rfl⟩
      · next h₁ he₁ =>
        rw [he₁] at hflush
        have hcfg : h₁.runConfig = h.runConfig := congrArg Settings.runConfig hflush
        have hcheck := h₁.checkpointSnapshot_cases env accepted
        have htrig : h.settings.Triggers slot := by
          obtain ⟨hen, hint⟩ := not_or.mp hon
          exact ⟨by simpa [settings] using hen, hint, hslot⟩
        rw [hflush, hcfg] at hcheck
        split
        · next h₂ accepted₂ he₂ =>
          rw [he₂] at hcheck
          exact ⟨Or.inl hcheck.1, hcheck.2.imp_right (fun hp => ⟨htrig, hp⟩)⟩
        · next h₂ accepted₂ he₂ =>
          rw [he₂] at hcheck
          refine ⟨Or.inr ?_, hcheck.2.imp_right (fun hp => ⟨htrig, hp⟩)⟩
          rw [← hcheck.1]
          rfl
    · exact ⟨Or.inl rfl, Or.inl rfl⟩

end StorageHelper

/-! ## Calls

One lemma for each call says what it can do. -/

/-- A call of the acceptor interface. -/
inductive Call where
  | prepare (slot : Slot) (ballot : Ballot)
  | accept (slot : Slot) (ballot : Ballot) (value : Value)
deriving DecidableEq, Repr

/-- The acceptor after one call. -/
def call (a : Acceptor) (c : Env × Call) : Acceptor :=
  match c.2 with
  | .prepare slot ballot => (a.prepare c.1 slot ballot).2
  | .accept slot ballot value => (a.accept c.1 slot ballot value).2

/-- `accept slot ballot value` is answered `Accepted`. -/
def Acks (a : Acceptor) (env : Env) (slot : Slot) (ballot : Ballot) (value : Value) : Prop :=
  ∃ accepted, (a.accept env slot ballot value).1 = .accepted accepted

/-- One of the calls is an `accept` of `value` for `slot`, at any ballot, answered `Accepted`. -/
def Acknowledged (a : Acceptor) (calls : List (Env × Call)) (slot : Slot) (value : Value) : Prop :=
  ∃ before env ballot after, calls = before ++ (env, .accept slot ballot value) :: after ∧
    (run call a before).Acks env slot ballot value

/-- The acceptor holds `value` at `slot`. -/
def Holds (a : Acceptor) (slot : Slot) (value : Value) : Prop :=
  ∃ pv, a.accepted.get? slot = some pv ∧ pv.value = some value

/-- The state after a fresh accepted value has been recorded. -/
def record (a : Acceptor) (env : Env) (slot : Slot) (ballot : Ballot) (value : Value) : Acceptor :=
  let pValue : PValue := { slot, ballot, value := some value }
  let snapshot := (a.storage.saveChange env pValue).2.maybeSnapshot env slot
    (a.accepted.insert slot pValue)
  { a with accepted := snapshot.2.2, storage := snapshot.2.1 }

/-- **What an `accept` can do**: reject and change nothing, acknowledge the value it already holds
and change nothing, or record a value for a slot that holds none. -/
theorem accept_cases (a : Acceptor) (env : Env) (slot : Slot) (ballot : Ballot) (value : Value) :
    (∃ b, a.accept env slot ballot value = (.rejected b, a) ∧
      (ballot < a.highestPromisedBallot ∨
        ∃ pv, a.accepted.get? slot = some pv ∧ pv.value ≠ some value)) ∨
    (∃ pv, a.highestPromisedBallot ≤ ballot ∧ a.accepted.get? slot = some pv ∧
      pv.value = some value ∧
      a.accept env slot ballot value = (.accepted { slot, ballot, success := true }, a)) ∨
    (a.highestPromisedBallot ≤ ballot ∧ a.accepted.get? slot = none ∧
      a.accept env slot ballot value =
        (.accepted { slot, ballot, success := true }, a.record env slot ballot value)) := by
  unfold accept
  dsimp only
  split
  · next hlt => exact Or.inl ⟨_, rfl, Or.inl hlt⟩
  · next hge =>
    have hge' := Nat.le_of_not_lt hge
    split
    · next pv hpv =>
      split
      · next hsame => exact Or.inr (Or.inl ⟨pv, hge', hpv, hsame.2, rfl⟩)
      · split
        · next hsame => exact Or.inr (Or.inl ⟨pv, hge', hpv, hsame, rfl⟩)
        · next hdiff => exact Or.inl ⟨_, rfl, Or.inr ⟨pv, hpv, hdiff⟩⟩
    · next hnone => exact Or.inr (Or.inr ⟨hge', hnone, rfl⟩)

/-- `prepare` touches no accepted value and no snapshot setting. -/
theorem prepare_frame (a : Acceptor) (env : Env) (slot : Slot) (ballot : Ballot) :
    (a.prepare env slot ballot).2.accepted = a.accepted ∧
      (a.prepare env slot ballot).2.storage.settings = a.storage.settings := by
  unfold prepare
  dsimp only
  split
  · exact ⟨rfl, rfl⟩
  · split
    · exact ⟨rfl, a.storage.settings_saveCurrentState env _⟩
    · exact ⟨rfl, rfl⟩

/-- **What a `prepare` can do**: reject and change nothing, or promise its ballot and report what is
accepted from the slot on. -/
theorem prepare_cases (a : Acceptor) (env : Env) (slot : Slot) (ballot : Ballot) :
    (ballot < a.highestPromisedBallot ∧
      a.prepare env slot ballot = (.rejected a.highestPromisedBallot, a)) ∨
    (a.highestPromisedBallot ≤ ballot ∧
      (a.prepare env slot ballot).1 =
        .promised { slot, ballot, accepted := a.collectAcceptedFrom slot } ∧
      (a.prepare env slot ballot).2.highestPromisedBallot = ballot) := by
  unfold prepare
  dsimp only
  split
  · next hlt => exact Or.inl ⟨hlt, rfl⟩
  · next hge =>
    have hge' := Nat.le_of_not_lt hge
    refine Or.inr ⟨hge', ?_⟩
    split
    · exact ⟨rfl, by simp [highestPromisedBallot]⟩
    · next hle => exact ⟨rfl, le_antisymm hge' (Nat.le_of_not_lt hle)⟩

/-- Recording a value inserts it; only a checkpoint then prunes the map. -/
theorem record_accepted (a : Acceptor) (env : Env) (slot : Slot) (ballot : Ballot)
    (value : Value) :
    let inserted := a.accepted.insert slot { slot, ballot, value := some value }
    (a.record env slot ballot value).accepted = inserted ∨
      a.storage.settings.Triggers slot ∧
        (a.record env slot ballot value).accepted =
          prune a.storage.runConfig inserted := by
  have hset := a.storage.settings_saveChange env { slot, ballot, value := some value }
  have hcfg : (a.storage.saveChange env { slot, ballot, value := some value }).2.runConfig =
      a.storage.runConfig := congrArg StorageHelper.Settings.runConfig hset
  have hsnap := ((a.storage.saveChange env { slot, ballot, value := some value }).2
    |>.maybeSnapshot_cases env slot (a.accepted.insert slot { slot, ballot, value := some value })).2
  rw [hset, hcfg] at hsnap
  exact hsnap

/-- An acceptor that holds a value acknowledges no other one. -/
theorem Holds.eq_of_acks {a : Acceptor} {slot : Slot} {v w : Value} {env : Env} {ballot : Ballot}
    (hv : a.Holds slot v) (hack : a.Acks env slot ballot w) : w = v := by
  obtain ⟨pv, hpv, hval⟩ := hv
  obtain ⟨r, hr⟩ := hack
  rcases a.accept_cases env slot ballot w with ⟨b, h, _⟩ | ⟨pv', _, hpv', hval', _⟩ | ⟨_, hnone, _⟩
  · rw [h] at hr
    cases hr
  · rw [hpv] at hpv'
    obtain rfl : pv = pv' := Option.some.inj hpv'
    rw [hval] at hval'
    exact (Option.some.inj hval').symm
  · rw [hnone] at hpv
    cases hpv

/-! ## Votes kept

A vote is kept in memory until a checkpoint drops it. From then on the acceptor may vote differently. -/

/-- The call takes a checkpoint that prunes `s`: it records a value for a trigger slot, and `s` is
not above the threshold of the map with that slot. -/
def Drops (s : Slot) (a : Acceptor) (c : Env × Call) : Prop :=
  match c.2 with
  | .prepare _ _ => False
  | .accept slot ballot _ =>
      a.highestPromisedBallot ≤ ballot ∧ a.accepted.get? slot = none ∧
        a.storage.settings.Triggers slot ∧ 0 < a.storage.runConfig.storageMaxSnapshots ∧
        s ≤ pruneThreshold a.storage.runConfig
          (a.accepted.lastKey?.elim slot (max slot))

/-- Recording a value keeps every vote of the map with it that the checkpoint does not drop. -/
theorem Holds.record {a : Acceptor} {env : Env} {slot s : Slot} {ballot : Ballot}
    {value v : Value} {pv : PValue} (hb : a.highestPromisedBallot ≤ ballot)
    (hnone : a.accepted.get? slot = none)
    (hpv : (a.accepted.insert slot { slot, ballot, value := some value }).get? s = some pv)
    (hv : pv.value = some v) (hkeep : ¬ a.Drops s (env, .accept slot ballot value)) :
    (a.record env slot ballot value).Holds s v := by
  refine ⟨pv, ?_, hv⟩
  rcases a.record_accepted env slot ballot value with h | ⟨htrig, h⟩
  · rw [h, hpv]
  · rw [h, get?_prune_of_lt, hpv]
    intro hmax m hm
    rw [OrdMap.lastKey?_insert] at hm
    rw [← Option.some.inj hm]
    exact Nat.lt_of_not_le (fun hle => hkeep ⟨hb, hnone, htrig, hmax, hle⟩)

instance (s : Slot) (a : Acceptor) : ∀ c : Env × Call, Decidable (Drops s a c)
  | (_, .prepare _ _) => isFalse id
  | (_, .accept _ _ _) => inferInstanceAs (Decidable (_ ∧ _ ∧ _ ∧ _ ∧ _))

/-- **A vote survives every call that does not drop its slot.** -/
theorem Holds.call {a : Acceptor} {s : Slot} {v : Value} {c : Env × Call} (h : a.Holds s v)
    (hkeep : ¬ Drops s a c) : (a.call c).Holds s v := by
  obtain ⟨env, ⟨slot, ballot⟩ | ⟨slot, ballot, value⟩⟩ := c
  · show Holds (a.prepare env slot ballot).2 s v
    rw [Holds, (a.prepare_frame env slot ballot).1]
    exact h
  · show Holds (a.accept env slot ballot value).2 s v
    rcases a.accept_cases env slot ballot value with
      ⟨b, he, _⟩ | ⟨pv', _, _, _, he⟩ | ⟨hb, hnone, he⟩
    · rw [he]
      exact h
    · rw [he]
      exact h
    · rw [he]
      obtain ⟨pv, hpv, hval⟩ := h
      exact Holds.record hb hnone (OrdMap.extends_insert _ hnone s pv hpv) hval hkeep

/-- An acknowledged value is held afterwards, unless the call itself drops its slot. -/
theorem Acks.holds {a : Acceptor} {env : Env} {s : Slot} {b : Ballot} {v : Value}
    (h : a.Acks env s b v) (hkeep : ¬ Drops s a (env, .accept s b v)) :
    (a.call (env, .accept s b v)).Holds s v := by
  obtain ⟨r, hr⟩ := h
  show Holds (a.accept env s b v).2 s v
  rcases a.accept_cases env s b v with ⟨b', he, _⟩ | ⟨pv, _, hpv, hval, he⟩ | ⟨hb, hnone, he⟩
  · rw [he] at hr
    cases hr
  · rw [he]
    exact ⟨pv, hpv, hval⟩
  · rw [he]
    exact Holds.record hb hnone (OrdMap.get?_insert_self ..) rfl hkeep

/-- **An acceptor keeps its vote** through any run whose checkpoints do not drop the slot. -/
theorem Acks.unique_of_guarded {a : Acceptor} {env env' : Env} {s : Slot} {b b' : Ballot}
    {v w : Value} {calls : List (Env × Call)} (hv : a.Acks env s b v)
    (hkeep : Guarded Acceptor.call (fun a c => ¬ Drops s a c) a ((env, .accept s b v) :: calls))
    (hw : (run Acceptor.call a ((env, .accept s b v) :: calls)).Acks env' s b' w) : w = v := by
  have hholds : (run Acceptor.call a ((env, .accept s b v) :: calls)).Holds s v :=
    run_invariant_of_guarded (P := fun a => a.Holds s v) (fun _ _ h hg => h.call hg)
      (hv.holds hkeep.1) hkeep.2
  exact hholds.eq_of_acks hw

/-! ## Without storage

There are no checkpoints, so that every vote is kept, and two majorities cannot have voted for two
values. -/

theorem record_settings (a : Acceptor) (env : Env) (slot : Slot) (ballot : Ballot)
    (value : Value) : ∃ last, (a.record env slot ballot value).storage.settings =
      { a.storage.settings with lastSnapshotSlot := last } := by
  have hset := a.storage.settings_saveChange env { slot, ballot, value := some value }
  have hsnap := ((a.storage.saveChange env { slot, ballot, value := some value }).2
    |>.maybeSnapshot_cases env slot (a.accepted.insert slot { slot, ballot, value := some value })).1
  rw [hset] at hsnap
  rcases hsnap with h | h
  · exact ⟨_, h⟩
  · exact ⟨slot, h⟩

/-- A call leaves the settings alone; only the snapshot cursor may move. -/
theorem call_settings (a : Acceptor) (c : Env × Call) :
    ∃ last, (a.call c).storage.settings = { a.storage.settings with lastSnapshotSlot := last } := by
  obtain ⟨env, ⟨slot, ballot⟩ | ⟨slot, ballot, value⟩⟩ := c
  · exact ⟨_, (a.prepare_frame env slot ballot).2⟩
  · show ∃ last, (a.accept env slot ballot value).2.storage.settings = _
    rcases a.accept_cases env slot ballot value with ⟨b, he, _⟩ | ⟨pv, _, _, _, he⟩ | ⟨_, _, he⟩
    · rw [he]
      exact ⟨_, rfl⟩
    · rw [he]
      exact ⟨_, rfl⟩
    · rw [he]
      exact a.record_settings env slot ballot value

/-- Without storage, recording a value only inserts it. -/
theorem record_accepted_of_disabled {a : Acceptor} (hoff : a.storage.settings.enabled = false)
    (env : Env) (slot : Slot) (ballot : Ballot) (value : Value) :
    (a.record env slot ballot value).accepted =
      a.accepted.insert slot { slot, ballot, value := some value } := by
  rcases a.record_accepted env slot ballot value with h | ⟨htrig, _⟩
  · exact h
  · have hon := htrig.1
    rw [hoff] at hon
    cases hon

theorem call_disabled {a : Acceptor} (hoff : a.storage.settings.enabled = false)
    (c : Env × Call) : (a.call c).storage.settings.enabled = false := by
  obtain ⟨last, h⟩ := a.call_settings c
  rw [h]
  exact hoff

/-- Without storage no call drops anything. -/
theorem guarded_of_disabled {a : Acceptor} (hoff : a.storage.settings.enabled = false) (s : Slot)
    (calls : List (Env × Call)) :
    Guarded Acceptor.call (fun a c => ¬ Drops s a c) a calls := by
  induction calls generalizing a with
  | nil => trivial
  | cons c cs ih =>
      refine ⟨?_, ih ?_⟩
      · obtain ⟨env, ⟨slot, ballot⟩ | ⟨slot, ballot, value⟩⟩ := c
        · exact id
        · intro hdrop
          have hon := hdrop.2.2.1.1
          rw [hoff] at hon
          cases hon
      · exact call_disabled hoff c

/-- **An `accept` without storage** keeps what is held and adds at most its own value; if it is
acknowledged, its value is held, under its ballot or under the one it was held before. -/
theorem accept_of_disabled {a : Acceptor} (hoff : a.storage.settings.enabled = false)
    (env : Env) (slot : Slot) (ballot : Ballot) (value : Value) :
    let a' := (a.accept env slot ballot value).2
    OrdMap.Extends a.accepted a'.accepted ∧ a'.highestPromisedBallot = a.highestPromisedBallot ∧
      (∀ s pv, a'.accepted.get? s = some pv → a.accepted.get? s = some pv ∨
        (s = slot ∧ pv = { slot, ballot, value := some value })) ∧
      (a.Acks env slot ballot value → a.highestPromisedBallot ≤ ballot ∧
        ∃ pv, a'.accepted.get? slot = some pv ∧ pv.value = some value ∧
          (a.accepted.get? slot = some pv ∨ pv.ballot = ballot)) := by
  intro a'
  rcases a.accept_cases env slot ballot value with
    ⟨b, he, _⟩ | ⟨pv, hb, hpv, hval, he⟩ | ⟨hb, hnone, he⟩
  · have ha' : a' = a := congrArg Prod.snd he
    rw [ha']
    refine ⟨OrdMap.Extends.refl _, rfl, fun s pv h => Or.inl h, fun ⟨r, hr⟩ => ?_⟩
    rw [he] at hr
    cases hr
  · have ha' : a' = a := congrArg Prod.snd he
    rw [ha']
    exact ⟨OrdMap.Extends.refl _, rfl, fun s pv h => Or.inl h,
      fun _ => ⟨hb, pv, hpv, hval, Or.inl hpv⟩⟩
  · have ha' : a' = a.record env slot ballot value := congrArg Prod.snd he
    rw [ha', record_accepted_of_disabled hoff]
    refine ⟨OrdMap.extends_insert _ hnone, rfl, fun s pv h => ?_,
      fun _ => ⟨hb, _, OrdMap.get?_insert_self .., rfl, Or.inr rfl⟩⟩
    rw [OrdMap.get?_insert] at h
    split at h
    · next hs => exact Or.inr ⟨hs, (Option.some.inj h).symm⟩
    · exact Or.inl h

theorem run_disabled {a : Acceptor} (hoff : a.storage.settings.enabled = false)
    (calls : List (Env × Call)) : (run Acceptor.call a calls).storage.settings.enabled = false :=
  run_invariant (P := fun a : Acceptor => a.storage.settings.enabled = false)
    (fun _ c h => call_disabled h c) hoff calls

/-- What a run without storage acknowledges, the acceptor holds at its end. -/
theorem Acknowledged.holds {a : Acceptor} (hoff : a.storage.settings.enabled = false)
    {calls : List (Env × Call)} {s : Slot} {v : Value} (h : a.Acknowledged calls s v) :
    (run Acceptor.call a calls).Holds s v := by
  obtain ⟨before, env, ballot, after, rfl, hack⟩ := h
  rw [run_append]
  have hguard := guarded_of_disabled (run_disabled hoff before) s
    ((env, .accept s ballot v) :: after)
  exact run_invariant_of_guarded (P := fun a => a.Holds s v) (fun _ _ h hg => h.call hg)
    (hack.holds hguard.1) hguard.2

theorem Holds.unique {a : Acceptor} {s : Slot} {v w : Value} (hv : a.Holds s v)
    (hw : a.Holds s w) : v = w := by
  obtain ⟨pv, hpv, hval⟩ := hv
  obtain ⟨pv', hpv', hval'⟩ := hw
  obtain rfl : pv = pv' := Option.some.inj (hpv.symm.trans hpv')
  exact Option.some.inj (hval.symm.trans hval')

/-- **At most one value per slot is acknowledged by a majority** of acceptors without storage,
whatever each of them is asked. -/
theorem acknowledged_by_majority_unique {n : Nat} (hash : String → Nat) (dir : Fin n → Dir)
    (env : Fin n → Env) (nodeId : Fin n → String) (config : Fin n → RunConfig)
    (hoff : ∀ i, (config i).persistentStorage = false)
    (calls : Fin n → List (Env × Call)) (s : Slot) (v w : Value)
    (hv : Chosen Finset.univ (fun i u =>
      (new hash (dir i) (env i) (nodeId i) (config i)).Acknowledged (calls i) s u) v)
    (hw : Chosen Finset.univ (fun i u =>
      (new hash (dir i) (env i) (nodeId i) (config i)).Acknowledged (calls i) s u) w) :
    v = w := by
  have hdisabled (i : Fin n) :
      (new hash (dir i) (env i) (nodeId i) (config i)).storage.settings.enabled = false := hoff i
  exact Chosen.unique
    (fun i _ hvi hwi => (hvi.holds (hdisabled i)).unique (hwi.holds (hdisabled i))) hv hw

/-- Three calls scripts: acceptors `0` and `1` are asked for `"a"`, acceptor `2` for `"b"`. -/
def splitCalls (i : Fin 3) : List (Env × Call) :=
  if i.val = 2 then [(Env.quiet, .accept 1 2 (setX "b"))]
  else [(Env.quiet, .prepare 1 1), (Env.quiet, .accept 1 1 (setX "a"))]

/-- Two of the three acknowledge `"a"`, so nothing else is acknowledged by a majority. -/
theorem acknowledged_by_majority_unique_three :
    let acks (i : Fin 3) (u : Value) : Prop :=
      (new (fun _ => 0) Directory.empty Env.quiet (toString i) RunConfig.inMemory).Acknowledged
        (splitCalls i) 1 u
    Chosen Finset.univ acks (setX "a") ∧ ∀ w, Chosen Finset.univ acks w → setX "a" = w := by
  intro acks
  have hchosen : Chosen Finset.univ acks (setX "a") := by
    refine ⟨{0, 1}, by decide, fun i hi => ⟨[(Env.quiet, .prepare 1 1)], Env.quiet, 1, [], ?_, ?_⟩⟩
    · have hne : i.val ≠ 2 := by
        intro htwo
        obtain rfl : i = 2 := Fin.ext htwo
        simp at hi
      exact if_neg hne
    · exact ⟨_, rfl⟩
  exact ⟨hchosen, fun w hw => acknowledged_by_majority_unique (fun _ => 0)
    (fun _ => Directory.empty) (fun _ => Env.quiet) toString (fun _ => RunConfig.inMemory)
    (fun _ => rfl) splitCalls 1 (setX "a") w hchosen hw⟩

/-! ## With storage -/

/-- **A vote is kept until a checkpoint drops its slot.** -/
theorem vote_kept_until_dropped (hash : String → Nat) (dir : Dir) (env : Env) (nodeId : String)
    (config : RunConfig) (before between : List (Env × Call)) (e e' : Env) (s : Slot)
    (b b' : Ballot) (v w : Value)
    (hv : (run call (new hash dir env nodeId config) before).Acks e s b v)
    (hkeep : Guarded call (fun a c => ¬ Drops s a c)
      (run call (new hash dir env nodeId config) before) ((e, .accept s b v) :: between))
    (hw : (run call (new hash dir env nodeId config)
      (before ++ (e, .accept s b v) :: between)).Acks e' s b' w) :
    w = v := by
  rw [run_append] at hw
  exact hv.unique_of_guarded hkeep hw

/-- An acceptor that snapshots every slot and keeps one snapshot. -/
def everySlot : Acceptor :=
  new (fun _ => 0) Directory.empty Env.quiet "1"
    { RunConfig.shipped with storageSnapshotSlotInterval := 1, storageMaxSnapshots := 1 }

/-- **Pruning lets an acceptor change its vote**: slot 2 pushes slot 1 out of the map, and slot 1
is acknowledged again with another value. -/
theorem vote_changed_after_pruning :
    everySlot.Acks Env.quiet 1 1 (setX "a") ∧
      (run call everySlot [(Env.quiet, .accept 1 1 (setX "a")),
        (Env.quiet, .accept 2 1 (setX "c"))]).Acks Env.quiet 1 1 (setX "b") ∧
      setX "a" ≠ setX "b" :=
  ⟨⟨_, rfl⟩, ⟨_, rfl⟩, by decide⟩

/-- With two snapshots kept, the vote for slot 1 outlives slot 2. -/
theorem vote_kept_until_dropped_two :
    let config := { RunConfig.shipped with
      storageSnapshotSlotInterval := 1, storageMaxSnapshots := 2 }
    ∀ w, (run call (new (fun _ => 0) Directory.empty Env.quiet "1" config)
      [(Env.quiet, .accept 1 1 (setX "a")), (Env.quiet, .accept 2 1 (setX "c"))]).Acks
        Env.quiet 1 1 w → w = setX "a" :=
  fun w hw => vote_kept_until_dropped (fun _ => 0) Directory.empty Env.quiet "1" _
    [] [(Env.quiet, .accept 2 1 (setX "c"))] Env.quiet Env.quiet 1 1 1 (setX "a") w
    ⟨_, rfl⟩ (by decide) hw

end Acceptor

end PaxosWasm
