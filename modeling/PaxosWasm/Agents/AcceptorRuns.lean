import PaxosWasm.Agents.AcceptorAgent
import PaxosWasm.Agents.Leader
import PaxosWasm.Core.AcceptorVotes

/-!
# Runs of the acceptor agent

Whatever an acceptor holds, in memory or in its files, has been asked of it by an `Accept`. What its
agent sends answers for what it holds, with one exception: a `Learn` sent for a slot without an
accepted value carries a no-op.

Two invariants go through every handler. `Sound` is about what the agent may send, given the `Accept`s it
has been asked for; it holds with storage and without. `Keeps` is about what it holds, and holds only
without storage, since a checkpoint prunes the map. The files come first, because a restart reads back
what an earlier life of the agent has written.
-/

namespace PaxosWasm

open Library

namespace Acceptor

/-! ## What the acceptor holds has been asked of it

The values an acceptor holds come from calls of `accept`, or from files that such calls have written. -/

variable {K K' : Slot → Value → Prop}

/-- An accepted entry for `slot` carries a value known for it. -/
def EntryIn (K : Slot → Value → Prop) (slot : Slot) (pv : PValue) : Prop :=
  ∃ value, pv.value = some value ∧ K slot value

def MapIn (K : Slot → Value → Prop) (accepted : OrdMap Slot PValue) : Prop :=
  ∀ slot pv, accepted.get? slot = some pv → EntryIn K slot pv

/-- Every value in the files is known. -/
abbrev FilesIn (K : Slot → Value → Prop) (store : Store) : Prop :=
  store.All (fun snap => MapIn K snap.accepted) (fun pv => EntryIn K pv.slot pv)

/-- Every value the acceptor holds, in memory or in its files, is known. -/
def KnownIn (K : Slot → Value → Prop) (a : Acceptor) : Prop :=
  FilesIn K a.storage.store ∧ MapIn K a.accepted

theorem EntryIn.mono (h : ∀ s v, K s v → K' s v) {slot : Slot} {pv : PValue}
    (he : EntryIn K slot pv) : EntryIn K' slot pv := by
  obtain ⟨value, hval, hk⟩ := he
  exact ⟨value, hval, h _ _ hk⟩

theorem KnownIn.mono (h : ∀ s v, K s v → K' s v) {a : Acceptor} (hk : a.KnownIn K) : a.KnownIn K' :=
  ⟨hk.1.mono (fun _ hsnap slot pv hpv => (hsnap slot pv hpv).mono h) (fun _ he => he.mono h),
    fun slot pv hpv => (hk.2 slot pv hpv).mono h⟩

namespace StorageHelper

variable {h : StorageHelper} (env : Env)

/-! ### The files

What is written was known when it was held in memory, and what is read back was written. -/

theorem filesIn_flushCurrentState (hf : FilesIn K h.store) :
    FilesIn K (h.flushCurrentState env).2.store := by
  have hflush := hf.flushState
  unfold flushCurrentState
  split
  · exact hf
  · dsimp only
    split
    · next he =>
      rw [he] at hflush
      exact hflush
    · next he =>
      rw [he] at hflush
      exact hflush

theorem filesIn_maybeFlushCurrentState (hf : FilesIn K h.store) :
    FilesIn K (h.maybeFlushCurrentState env).2.store := by
  have hflush := filesIn_flushCurrentState env hf
  unfold maybeFlushCurrentState
  split
  · exact hf
  · split
    · exact hf
    · split
      · split
        · next he =>
          rw [he] at hflush
          exact hflush
        · next he =>
          rw [he] at hflush
          exact hflush
      · exact hf

theorem filesIn_saveCurrentState (hf : FilesIn K h.store) (promises : List Ballot) :
    FilesIn K (h.saveCurrentState env promises).2.store := by
  have hsave := hf.saveState ⟨promises⟩
  unfold saveCurrentState
  split
  · exact hf
  · split
    · next he =>
      rw [he] at hsave
      exact hsave
    · next he =>
      rw [he] at hsave
      exact filesIn_maybeFlushCurrentState env hsave

theorem filesIn_flushChanges (hf : FilesIn K h.store) : FilesIn K (h.flushChanges env).2.store := by
  have hflush := hf.flushChanges
  unfold flushChanges
  split
  · exact hf
  · split
    · next he =>
      rw [he] at hflush
      exact hflush
    · next he =>
      rw [he] at hflush
      exact hflush

theorem filesIn_maybeFlushChanges (hf : FilesIn K h.store) :
    FilesIn K (h.maybeFlushChanges env).2.store := by
  have hflush := filesIn_flushChanges env hf
  unfold maybeFlushChanges
  split
  · exact hf
  · split
    · exact hf
    · split
      · split
        · next he =>
          rw [he] at hflush
          exact hflush
        · next he =>
          rw [he] at hflush
          exact hflush
      · exact hf

theorem filesIn_saveChange (hf : FilesIn K h.store) {pv : PValue} (hpv : EntryIn K pv.slot pv) :
    FilesIn K (h.saveChange env pv).2.store := by
  have hsave := hf.saveChange hpv
  unfold saveChange
  split
  · exact hf
  · split
    · next he =>
      rw [he] at hsave
      exact hsave
    · next he =>
      rw [he] at hsave
      exact filesIn_maybeFlushChanges env hsave

theorem filesIn_checkpointSnapshot (hf : FilesIn K h.store) {accepted : OrdMap Slot PValue}
    (ha : MapIn K accepted) : FilesIn K (h.checkpointSnapshot env accepted).2.1.store := by
  have hcheck : FilesIn K (h.store.checkpoint
      ⟨accepted.takeLast (asUsize h.runConfig.storageSnapshotSlotInterval)⟩ env.utc).2 :=
    hf.checkpoint (fun slot pv hpv => ha slot pv (OrdMap.get?_of_takeLast hpv)) env.utc
  unfold checkpointSnapshot
  split
  · exact hf
  · dsimp only
    split
    · next he =>
      rw [he] at hcheck
      exact hcheck
    · next he =>
      rw [he] at hcheck
      exact hcheck

theorem filesIn_maybeSnapshot (hf : FilesIn K h.store) {accepted : OrdMap Slot PValue}
    (ha : MapIn K accepted) (slot : Slot) :
    FilesIn K (h.maybeSnapshot env slot accepted).2.1.store := by
  have hflush := filesIn_flushChanges env hf
  unfold maybeSnapshot
  split
  · exact hf
  · split
    · split
      · next he =>
        rw [he] at hflush
        exact hflush
      · next he =>
        rw [he] at hflush
        have hcheck := filesIn_checkpointSnapshot env hflush ha
        split
        · next hc =>
          rw [hc] at hcheck
          exact hcheck
        · next hc =>
          rw [hc] at hcheck
          exact hcheck
    · exact hf

/-- What a start reads back is known. -/
theorem loaded_known (hf : FilesIn K h.store) {accepted : OrdMap Slot PValue} (ha : MapIn K accepted)
    (promises : List Ballot) : MapIn K (h.loadAndCombineState promises accepted).2.2 := by
  have hsnaps : ∀ (snaps : List PersistentSnapshotState) (m : OrdMap Slot PValue),
      (∀ snap ∈ snaps, MapIn K snap.accepted) → MapIn K m →
      MapIn K (snaps.foldl (fun m s => OrdMap.insertAll m s.accepted.entries) m) := by
    intro snaps
    induction snaps with
    | nil => exact fun m _ hm => hm
    | cons snap snaps ih =>
        intro m hall hm
        refine ih _ (fun x hx => hall x (List.mem_cons_of_mem _ hx)) (fun slot pv hpv => ?_)
        rw [OrdMap.get?_insertAll_entries] at hpv
        rcases Option.or_eq_some_iff.mp hpv with hpv | ⟨_, hpv⟩
        · exact hall snap (List.mem_cons_self ..) slot pv hpv
        · exact hm slot pv hpv
  obtain ⟨hload, hchanges⟩ := hf.load h.runConfig.storageLoadSnapshots
  unfold loadAndCombineState
  split
  · exact ha
  · split
    · exact ha
    · intro slot pv hpv
      rcases OrdMap.get?_insertAll_cases hpv with hpv | hpv
      · exact hsnaps _ ∅ hload (fun _ _ h => nomatch h) slot pv hpv
      · obtain ⟨entry, hentry, he⟩ := List.mem_map.mp hpv
        obtain ⟨rfl, rfl⟩ := Prod.mk.inj he
        exact hchanges entry hentry

end StorageHelper

variable {a : Acceptor} (env : Env)

theorem KnownIn.prepare (hk : a.KnownIn K) (slot : Slot) (ballot : Ballot) :
    (a.prepare env slot ballot).2.KnownIn K := by
  refine ⟨?_, ?_⟩
  · unfold Acceptor.prepare
    dsimp only
    split
    · exact hk.1
    · split
      · exact StorageHelper.filesIn_saveCurrentState env hk.1 _
      · exact hk.1
  · rw [(a.prepare_frame env slot ballot).1]
    exact hk.2

theorem KnownIn.accept (hk : a.KnownIn K) {slot : Slot} {value : Value} (hv : K slot value)
    (ballot : Ballot) : (a.accept env slot ballot value).2.KnownIn K := by
  rcases a.accept_cases env slot ballot value with ⟨b, he, _⟩ | ⟨pv, _, _, _, he⟩ | ⟨_, _, he⟩
  · rw [he]
    exact hk
  · rw [he]
    exact hk
  · rw [he]
    have hinserted : MapIn K (a.accepted.insert slot { slot, ballot, value := some value }) := by
      intro s pv hpv
      rw [OrdMap.get?_insert] at hpv
      split at hpv
      · next hs =>
        rw [← Option.some.inj hpv, hs]
        exact ⟨value, rfl, hv⟩
      · exact hk.2 s pv hpv
    refine ⟨StorageHelper.filesIn_maybeSnapshot env
      (StorageHelper.filesIn_saveChange env hk.1 ⟨value, rfl, hv⟩) hinserted slot, ?_⟩
    rcases a.record_accepted env slot ballot value with h | ⟨_, h⟩
    · rw [h]
      exact hinserted
    · rw [h]
      exact fun s pv hpv => hinserted s pv (get?_of_prune hpv)

theorem KnownIn.maybeFlush (hk : a.KnownIn K) : (a.maybeFlush env).2.KnownIn K := by
  have hstate := StorageHelper.filesIn_maybeFlushCurrentState env hk.1
  unfold Acceptor.maybeFlush
  split
  · next he =>
    rw [he] at hstate
    exact ⟨hstate, hk.2⟩
  · next he =>
    rw [he] at hstate
    exact ⟨StorageHelper.filesIn_maybeFlushChanges env hstate, hk.2⟩

/-- A start over known files. -/
theorem knownIn_loadState (hk : a.KnownIn K) : a.loadState.2.KnownIn K :=
  ⟨hk.1, StorageHelper.loaded_known hk.1 hk.2 _⟩

/-! ## Without storage

An acceptor that stores nothing keeps in memory all that it has accepted. -/

/-- Without storage, what `a` holds `a'` holds. -/
def Keeps (a a' : Acceptor) : Prop :=
  a.storage.enabled = false → a'.storage.enabled = false ∧ a.accepted.Extends a'.accepted

theorem Keeps.refl (a : Acceptor) : a.Keeps a := fun h => ⟨h, OrdMap.Extends.refl _⟩

theorem Keeps.trans {a a' a'' : Acceptor} (h : a.Keeps a') (h' : a'.Keeps a'') : a.Keeps a'' :=
  fun hoff => ⟨(h' (h hoff).1).1, (h hoff).2.trans (h' (h hoff).1).2⟩

theorem Keeps.holds {a a' : Acceptor} (h : a.Keeps a') (hoff : a.storage.enabled = false) {s : Slot}
    {v : Value} (hv : a.Holds s v) : a'.Holds s v := by
  obtain ⟨pv, hpv, hval⟩ := hv
  exact ⟨pv, (h hoff).2 s pv hpv, hval⟩

theorem keeps_prepare (slot : Slot) (ballot : Ballot) : a.Keeps (a.prepare env slot ballot).2 := by
  intro hoff
  rw [(a.prepare_frame env slot ballot).1]
  exact ⟨call_disabled hoff (env, .prepare slot ballot), OrdMap.Extends.refl _⟩

theorem keeps_accept (slot : Slot) (ballot : Ballot) (value : Value) :
    a.Keeps (a.accept env slot ballot value).2 :=
  fun hoff => ⟨call_disabled hoff (env, .accept slot ballot value),
    (accept_of_disabled hoff env slot ballot value).1⟩

theorem keeps_maybeFlush : a.Keeps (a.maybeFlush env).2 := by
  intro hoff
  have hstate : (a.storage.maybeFlushCurrentState env).2 = a.storage := by
    simp [StorageHelper.maybeFlushCurrentState, hoff]
  have hchanges : (a.storage.maybeFlushChanges env).2 = a.storage := by
    simp [StorageHelper.maybeFlushChanges, hoff]
  unfold maybeFlush
  split
  · next he =>
    rw [he] at hstate
    exact ⟨(congrArg StorageHelper.enabled hstate).trans hoff, OrdMap.Extends.refl _⟩
  · next he =>
    rw [he] at hstate
    dsimp only at hstate ⊢
    rw [hstate, hchanges]
    exact ⟨hoff, OrdMap.Extends.refl _⟩

/-- The acknowledgement of a value repeats its slot and ballot, and without storage it is held. -/
theorem accepted_of_accept {slot : Slot} {ballot : Ballot} {value : Value} {acc : Accepted}
    (h : (a.accept env slot ballot value).1 = .accepted acc) :
    acc = { slot, ballot, success := true } ∧
      (a.storage.enabled = false → (a.accept env slot ballot value).2.Holds slot value) := by
  refine ⟨?_, fun hoff => ?_⟩
  · rcases a.accept_cases env slot ballot value with ⟨b, he, _⟩ | ⟨pv, _, _, _, he⟩ | ⟨_, _, he⟩
    · rw [he] at h
      cases h
    · rw [he] at h
      exact (AcceptedResult.accepted.inj h).symm
    · rw [he] at h
      exact (AcceptedResult.accepted.inj h).symm
  · obtain ⟨_, pv, hpv, hval, _⟩ := (accept_of_disabled hoff env slot ballot value).2.2.2 ⟨acc, h⟩
    exact ⟨pv, hpv, hval⟩

end Acceptor

namespace AcceptorAgent

/-! ## What the agent sends

What the agent acknowledges, its core acceptor has to back where nothing is stored. -/

/-- Where nothing is stored, the acceptor holds `value` for `slot`. -/
def Backs (a : AcceptorAgent) (slot : Slot) (value : Value) : Prop :=
  a.config.persistentStorage = false → a.acceptor.Holds slot value

/-- The core acceptor is set up for the agent's mode of storage. -/
def Disabled (a : AcceptorAgent) : Prop :=
  a.config.persistentStorage = false → a.acceptor.storage.enabled = false

/-! ## What every handler respects

A handler is made of operations of the core acceptor and of messages that are sent. `Pieces` says what a
relation has to do with these; then every handler respects it. -/

/-- A relation between an agent and a later one that every handler respects. -/
structure Respects (R : AcceptorAgent → AcceptorAgent → Prop) : Prop where
  refl : ∀ a, R a a
  trans : ∀ {a a' a''}, R a a' → R a' a'' → R a a''
  prepare : ∀ a env slot ballot, R a (a.processPrepare env slot ballot).2
  accept : ∀ a env slot ballot value, R a (a.processAccept env slot ballot value).2
  commit : ∀ a slot value, R a (a.commitPhase slot value).2
  retry : ∀ a slots, R a (a.retryLearns slots)
  flush : ∀ a env, R a (a.maybeFlushState env)

/-- A relation that is respected whatever is sent, and by what changes the core acceptor. -/
structure Pieces (R : AcceptorAgent → AcceptorAgent → Prop) : Prop where
  refl : ∀ a, R a a
  trans : ∀ {a a' a''}, R a a' → R a' a'' → R a a''
  send : ∀ a targets payload, R a (a.send targets payload)
  prepare : ∀ a env slot ballot, R a (a.processPrepare env slot ballot).2
  accept : ∀ a env slot ballot value, R a (a.processAccept env slot ballot value).2
  flush : ∀ a env, R a (a.maybeFlushState env)

namespace Pieces

variable {R : AcceptorAgent → AcceptorAgent → Prop} (hR : Pieces R) (a : AcceptorAgent) (env : Env)

include hR

theorem commitPhase (slot : Slot) (value : Value) : R a (a.commitPhase slot value).2 := by
  unfold AcceptorAgent.commitPhase
  split
  · exact hR.send ..
  · exact hR.refl a

theorem retryLearns (slots : List Slot) : R a (a.retryLearns slots) := by
  unfold AcceptorAgent.retryLearns
  induction slots generalizing a with
  | nil => exact hR.refl a
  | cons slot slots ih => exact hR.trans (hR.send ..) (ih _)

theorem respects : Respects R where
  refl := hR.refl
  trans := hR.trans
  prepare := hR.prepare
  accept := hR.accept
  commit := hR.commitPhase
  retry := hR.retryLearns
  flush := hR.flush

theorem handleMessage (m : NetworkMessage) : R a (a.handleMessage env m).2 := by
  unfold AcceptorAgent.handleMessage
  split
  · next p hp =>
    have hprepare := hR.prepare a env p.slot p.ballot
    unfold handlePrepare
    split
    · next he =>
      rw [he] at hprepare
      dsimp only
      split
      · exact hR.trans hprepare (hR.send ..)
      · exact hprepare
    · next he =>
      rw [he] at hprepare
      exact hprepare
  · next p hp =>
    have haccept := hR.accept a env p.slot p.ballot p.value
    unfold handleAccept
    split
    · next he =>
      rw [he] at haccept
      dsimp only
      split
      · split <;> exact hR.trans haccept (hR.send ..)
      · exact haccept
    · next he =>
      rw [he] at haccept
      exact haccept
  · exact hR.retryLearns a _
  · exact hR.refl a

end Pieces

/-- What the agent has sent stays sent. -/
theorem pieces_sent : Pieces (fun a a' => a.networkClient.sent <+: a'.networkClient.sent) where
  refl := fun _ => List.prefix_rfl
  trans := List.IsPrefix.trans
  send := fun _ _ _ => List.prefix_append ..
  prepare := fun _ _ _ _ => List.prefix_rfl
  accept := fun _ _ _ _ _ => List.prefix_rfl
  flush := fun _ _ => List.prefix_rfl

theorem pieces_config : Pieces (fun a a' => a'.config = a.config) where
  refl _ := rfl
  trans h h' := h'.trans h
  send _ _ _ := rfl
  prepare _ _ _ _ := rfl
  accept _ _ _ _ _ := rfl
  flush _ _ := rfl

/-- Without storage, what `a` holds `a'` holds. -/
def Keeps (a a' : AcceptorAgent) : Prop := a'.config = a.config ∧ a.acceptor.Keeps a'.acceptor

section Keeps

variable {a a' a'' : AcceptorAgent}

theorem Keeps.refl (a : AcceptorAgent) : a.Keeps a := ⟨rfl, Acceptor.Keeps.refl _⟩

theorem Keeps.trans (h : a.Keeps a') (h' : a'.Keeps a'') : a.Keeps a'' :=
  ⟨h'.1.trans h.1, h.2.trans h'.2⟩

theorem Keeps.disabled (h : a.Keeps a') (hoff : a.Disabled) : a'.Disabled :=
  fun hmode => (h.2 (hoff (h.1 ▸ hmode))).1

theorem Keeps.backs (h : a.Keeps a') (hoff : a.Disabled) {slot : Slot} {value : Value}
    (hb : a.Backs slot value) : a'.Backs slot value :=
  fun hmode => h.2.holds (hoff (h.1 ▸ hmode)) (hb (h.1 ▸ hmode))

variable (a) (env : Env)

theorem keeps_send (ts : List Node) (payload : MessagePayload) : a.Keeps (a.send ts payload) :=
  Keeps.refl a

theorem keeps_processPrepare (slot : Slot) (ballot : Ballot) :
    a.Keeps (a.processPrepare env slot ballot).2 :=
  ⟨rfl, Acceptor.keeps_prepare env slot ballot⟩

theorem keeps_processAccept (slot : Slot) (ballot : Ballot) (value : Value) :
    a.Keeps (a.processAccept env slot ballot value).2 :=
  ⟨rfl, Acceptor.keeps_accept env slot ballot value⟩

theorem keeps_maybeFlushState : a.Keeps (a.maybeFlushState env) :=
  ⟨rfl, Acceptor.keeps_maybeFlush env⟩

theorem pieces_keeps : Pieces Keeps where
  refl := Keeps.refl
  trans := Keeps.trans
  send := keeps_send
  prepare := keeps_processPrepare
  accept := keeps_processAccept
  flush := keeps_maybeFlushState

end Keeps

/-! ## What the agent maintains -/

/-- What an acceptor agent may send, given the `Accept`s it was asked to accept and by whom, and the
values it answers for: an acceptance goes to the node that asked, and a learn carries a value it was
asked to accept, or a no-op. -/
def Answers (asked : Accept → NodeId → Prop) (backs : Slot → Value → Prop) (node : Node) (s : Sent) :
    Prop :=
  s.message.sender = node ∧
    match s.message.payload with
    | .promise _ => True
    | .accepted acc => ∃ q v, s.targets = [q] ∧
        asked { slot := acc.slot, ballot := acc.ballot, value := v } q.nodeId ∧ backs acc.slot v
    | .learn l => l.value = .noOp ∨
        (∃ b q, asked { slot := l.slot, ballot := b, value := l.value } q) ∧ backs l.slot l.value
    | .heartbeat => True
    | _ => False

/-- The values asked for. -/
def valuesOf (asked : Accept → NodeId → Prop) (slot : Slot) (value : Value) : Prop :=
  ∃ b q, asked { slot, ballot := b, value } q

/-- **What an acceptor agent maintains.** -/
structure Sound (asked : Accept → NodeId → Prop) (node : Node) (config : RunConfig)
    (a : AcceptorAgent) : Prop where
  node_eq : a.node = node
  config_eq : a.config = config
  disabled : a.Disabled
  known : a.acceptor.KnownIn (valuesOf asked)
  answers : ∀ s ∈ a.networkClient.sent, Answers asked a.Backs node s

variable {asked asked' : Accept → NodeId → Prop} {node : Node} {config : RunConfig}
  {a : AcceptorAgent} (env : Env)

/-! ### The handlers

With more values asked for, an answer stays an answer. What a handler sends is an answer to what arrives. -/

theorem Answers.mono {backs backs' : Slot → Value → Prop} (h : ∀ acc q, asked acc q → asked' acc q)
    (hb : ∀ slot value, backs slot value → backs' slot value) {s : Sent}
    (hs : Answers asked backs node s) : Answers asked' backs' node s := by
  obtain ⟨hsender, hs⟩ := hs
  refine ⟨hsender, ?_⟩
  split at hs
  · trivial
  · obtain ⟨q, v, ht, hasked, hbacks⟩ := hs
    exact ⟨q, v, ht, h _ _ hasked, hb _ _ hbacks⟩
  · rcases hs with hs | ⟨⟨b, q, hasked⟩, hbacks⟩
    · exact Or.inl hs
    · exact Or.inr ⟨⟨b, q, h _ _ hasked⟩, hb _ _ hbacks⟩
  · trivial
  · exact hs

theorem Sound.mono (h : ∀ acc q, asked acc q → asked' acc q) (hs : a.Sound asked node config) :
    a.Sound asked' node config :=
  { hs with
    known := hs.known.mono (fun _ _ ⟨b, q, hasked⟩ => ⟨b, q, h _ _ hasked⟩)
    answers := fun s hmem => (hs.answers s hmem).mono h (fun _ _ hb => hb) }

/-- The core may change, as long as it keeps what it holds and stays known. -/
theorem Sound.core (hs : a.Sound asked node config) {acceptor : Acceptor}
    (hkeeps : a.acceptor.Keeps acceptor) (hknown : acceptor.KnownIn (valuesOf asked)) :
    Sound asked node config { a with acceptor } :=
  have hk : a.Keeps { a with acceptor } := ⟨rfl, hkeeps⟩
  ⟨hs.node_eq, hs.config_eq, hk.disabled hs.disabled, hknown, fun s hmem =>
    (hs.answers s hmem).mono (fun _ _ h => h) (fun _ _ h => hk.backs hs.disabled h)⟩

theorem Sound.send (hs : a.Sound asked node config) {ts : List Node} {payload : MessagePayload}
    (hans : Answers asked a.Backs node { targets := ts, message := a.message payload }) :
    (a.send ts payload).Sound asked node config := by
  refine { hs with answers := fun s hmem => ?_ }
  rcases List.mem_append.mp (show s ∈ a.networkClient.sent ++ _ from hmem) with hmem | hmem
  · exact hs.answers s hmem
  · rw [List.mem_singleton.mp hmem]
    exact hans

theorem Sound.processPrepare (hs : a.Sound asked node config) (slot : Slot) (ballot : Ballot) :
    (a.processPrepare env slot ballot).2.Sound asked node config :=
  hs.core (Acceptor.keeps_prepare env slot ballot) (hs.known.prepare env slot ballot)

theorem Sound.processAccept (hs : a.Sound asked node config) {acc : Accept} {q : NodeId}
    (hasked : asked acc q) :
    (a.processAccept env acc.slot acc.ballot acc.value).2.Sound asked node config :=
  hs.core (Acceptor.keeps_accept env acc.slot acc.ballot acc.value)
    (hs.known.accept env ⟨acc.ballot, q, hasked⟩ acc.ballot)

/-- What is acknowledged is backed. -/
theorem backs_of_processAccept (hoff : a.Disabled) {slot : Slot} {ballot : Ballot} {value : Value}
    {acc : Accepted}
    (h : (a.processAccept env slot ballot value).1 = .accepted acc) :
    acc = { slot, ballot, success := true } ∧
      (a.processAccept env slot ballot value).2.Backs slot value := by
  obtain ⟨hacc, hholds⟩ := Acceptor.accepted_of_accept env h
  exact ⟨hacc, fun hmode => hholds (hoff hmode)⟩

/-- What the acceptor refuses leaves it as it was. -/
theorem processAccept_of_rejected {slot : Slot} {ballot b : Ballot} {value : Value}
    (h : (a.processAccept env slot ballot value).1 = .rejected b) :
    (a.processAccept env slot ballot value).2 = a := by
  replace h : (a.acceptor.accept env slot ballot value).1 = .rejected b := h
  show { a with acceptor := (a.acceptor.accept env slot ballot value).2 } = a
  rcases a.acceptor.accept_cases env slot ballot value with ⟨_, he, _⟩ | ⟨_, _, _, _, he⟩ | ⟨_, _, he⟩
  · rw [he]
  · rw [he] at h
    cases h
  · rw [he] at h
    cases h

theorem Sound.commitPhase (hs : a.Sound asked node config) {slot : Slot} {value : Value}
    (hasked : valuesOf asked slot value) (hbacks : a.Backs slot value) :
    (a.commitPhase slot value).2.Sound asked node config := by
  unfold AcceptorAgent.commitPhase
  split
  · exact hs.send ⟨hs.node_eq, Or.inr ⟨hasked, hbacks⟩⟩
  · exact hs

/-- A retried learn carries what is held, or a no-op. -/
theorem acceptedOrNoOp_cases (a : AcceptorAgent) (slot : Slot) :
    a.acceptedOrNoOp slot = .noOp ∨ a.acceptor.Holds slot (a.acceptedOrNoOp slot) := by
  unfold acceptedOrNoOp Acceptor.getAccepted
  cases hget : a.acceptor.accepted.get? slot with
  | none => exact Or.inl rfl
  | some pv =>
      cases hval : pv.value with
      | none => exact Or.inl (by simp [hval])
      | some v => exact Or.inr ⟨pv, hget, by simp [hval]⟩

theorem Sound.sendRetry (hs : a.Sound asked node config) (slot : Slot) :
    (a.send a.learners (.learn { slot, value := a.acceptedOrNoOp slot })).Sound asked node config := by
  refine hs.send ⟨hs.node_eq, ?_⟩
  rcases a.acceptedOrNoOp_cases slot with h | h
  · exact Or.inl h
  · obtain ⟨pv, hpv, hval⟩ := h
    obtain ⟨v, hv, hknown⟩ := hs.known.2 slot pv hpv
    obtain rfl := Option.some.inj (hv.symm.trans hval)
    exact Or.inr ⟨hknown, fun _ => ⟨pv, hpv, hval⟩⟩

theorem Sound.retryLearns (hs : a.Sound asked node config) (slots : List Slot) :
    (a.retryLearns slots).Sound asked node config := by
  unfold AcceptorAgent.retryLearns
  induction slots generalizing a with
  | nil => exact hs
  | cons slot slots ih => exact ih (hs.sendRetry slot)

theorem Sound.handlePrepare (hs : a.Sound asked node config) (sender : Node) (p : Prepare) :
    (a.handlePrepare env sender p).2.Sound asked node config := by
  have hprepare := hs.processPrepare env p.slot p.ballot
  unfold AcceptorAgent.handlePrepare
  split
  · next he =>
    rw [he] at hprepare
    dsimp only
    split
    · exact hprepare.send ⟨hprepare.node_eq, trivial⟩
    · exact hprepare
  · next he =>
    rw [he] at hprepare
    exact hprepare

theorem Sound.handleAccept (hs : a.Sound asked node config) {sender : Node} {p : Accept}
    (hasked : asked p sender.nodeId) : (a.handleAccept env sender p).2.Sound asked node config := by
  have haccept := hs.processAccept env hasked
  unfold AcceptorAgent.handleAccept
  split
  · next acc a' he =>
    obtain ⟨rfl, hbacks⟩ := backs_of_processAccept env hs.disabled (congrArg Prod.fst he)
    rw [he] at haccept hbacks
    dsimp only
    split
    · split
      · exact haccept.send ⟨haccept.node_eq, Or.inr ⟨⟨p.ballot, sender.nodeId, hasked⟩, hbacks⟩⟩
      · exact haccept.send ⟨haccept.node_eq, sender, p.value, rfl, hasked, hbacks⟩
    · exact haccept
  · next he =>
    rw [he] at haccept
    exact haccept

theorem Sound.handleMessage (hs : a.Sound asked node config) {m : NetworkMessage}
    (hasked : ∀ p, m.payload = .accept p → asked p m.sender.nodeId) :
    (a.handleMessage env m).2.Sound asked node config := by
  unfold AcceptorAgent.handleMessage
  split
  · exact hs.handlePrepare env m.sender _
  · next p hp => exact hs.handleAccept env (hasked p hp)
  · exact hs.retryLearns _
  · exact hs

theorem Sound.maybeFlushState (hs : a.Sound asked node config) :
    (a.maybeFlushState env).Sound asked node config :=
  hs.core (Acceptor.keeps_maybeFlush env) (hs.known.maybeFlush env)

theorem Sound.sendHeartbeat (hs : a.Sound asked node config) :
    a.sendHeartbeat.Sound asked node config :=
  hs.send ⟨hs.node_eq, trivial⟩

/-- A new agent over known files. -/
theorem sound_new (hash : String → Nat) {dir : Acceptor.Dir} (nodes : List Node)
    (hfiles : Acceptor.FilesIn (valuesOf asked) (.new dir config.storageMaxSnapshots)) :
    (new hash dir env node nodes config).Sound asked node config := by
  refine ⟨rfl, rfl, fun hoff => ?_, ?_, fun _ h => nomatch h⟩
  · exact hoff
  · exact Acceptor.knownIn_loadState ⟨hfiles, fun _ _ h => nomatch h⟩

end AcceptorAgent

end PaxosWasm
