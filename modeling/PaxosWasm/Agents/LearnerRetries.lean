import PaxosWasm.Agents.LearnerRuns

/-!
# What a learner asks for again

A scan over the slots above the cursor takes those that have not been asked for lately, the lowest
first, up to a batch. It does not look at what is learned: a slot above a gap is asked for although
its value is there, and so is the highest learned slot, as soon as the batch reaches so far.

The notes of the agent (`retries`) are compared with the times at which slots were really asked for
(`asked`): that a slot rests between two requests is said of those. A scan is the first part of
a filtered range (`mem_toRetry`), from which the order, the length and the bounds of a batch can be read.
-/

namespace PaxosWasm

open Library

namespace LearnerAgent

variable {a a' : LearnerAgent}

/-! ## The scan

The loop of `evaluate_retry` is the first part of a filtered range. -/

/-- A slot that has not been asked for within the interval. -/
def cooled (retries : OrdMap Slot Nat) (interval now : Nat) (slot : Slot) : Bool :=
  (retries.get? slot).all (fun t => decide (interval ≤ now - t))

/-- The slots a scan takes. -/
def toRetry (a : LearnerAgent) (now : Nat) : List Slot :=
  ((List.range' (a.learner.adu + 1) (a.learner.getHighestLearned - a.learner.adu)).filter
    (cooled a.retries a.config.retryIntervalMs now)).take (asUsize a.config.messageBatchSize)

theorem retrySlot_eq (now interval cap : Nat) (acc : List Slot × OrdMap Slot Nat) (slot : Slot) :
    retrySlot now interval cap acc slot =
      if acc.1.length < cap ∧ cooled acc.2 interval now slot then
        (acc.1 ++ [slot], acc.2.insert slot now)
      else acc := by
  obtain ⟨slots, retries⟩ := acc
  have hcooled : interval ≤ ((retries.get? slot).map (now - ·)).getD (interval + 1) ↔
      cooled retries interval now slot = true := by
    cases h : retries.get? slot <;> simp [cooled, h]
  unfold retrySlot
  dsimp only
  by_cases hfull : cap ≤ slots.length
  · rw [if_pos hfull, if_neg (fun h => absurd h.1 (not_lt.mpr hfull))]
  · rw [if_neg hfull]
    by_cases hc : cooled retries interval now slot = true
    · rw [if_pos (hcooled.mpr hc), if_pos ⟨not_le.mp hfull, hc⟩]
    · rw [if_neg (fun h => hc (hcooled.mp h)), if_neg (fun h => hc h.2)]

/-- **The scan** takes the first slots that are cooled, up to the cap, and notes the time. -/
theorem foldl_retrySlot (now interval cap : Nat) {slots : List Slot} (hnodup : slots.Nodup)
    (acc : List Slot × OrdMap Slot Nat) :
    let taken := (slots.filter (cooled acc.2 interval now)).take (cap - acc.1.length)
    let res := slots.foldl (retrySlot now interval cap) acc
    res.1 = acc.1 ++ taken ∧
      ∀ slot, res.2.get? slot = if slot ∈ taken then some now else acc.2.get? slot := by
  induction slots generalizing acc with
  | nil => simp
  | cons slot slots ih =>
      obtain ⟨hout, hrest⟩ := List.nodup_cons.mp hnodup
      rw [List.foldl_cons, retrySlot_eq]
      by_cases htake : acc.1.length < cap ∧ cooled acc.2 interval now slot = true
      · rw [if_pos htake]
        -- noting the time of one slot does not change whether the others are cooled
        have hsame : slots.filter (cooled (acc.2.insert slot now) interval now) =
            slots.filter (cooled acc.2 interval now) := by
          refine List.filter_congr (fun slot' hmem => ?_)
          rw [cooled, OrdMap.get?_insert_of_ne _ _ (fun h : slot' = slot => hout (h ▸ hmem)), cooled]
        obtain ⟨hslots, hget⟩ := ih hrest (acc.1 ++ [slot], acc.2.insert slot now)
        have hcap : cap - acc.1.length = cap - (acc.1.length + 1) + 1 := by omega
        rw [hsame, List.length_append, List.length_singleton] at hslots hget
        rw [List.filter_cons, if_pos htake.2, hcap, List.take_succ_cons]
        refine ⟨by rw [hslots, List.append_assoc]; rfl, fun slot' => ?_⟩
        rw [hget slot', OrdMap.get?_insert]
        by_cases hself : slot' = slot <;> simp [hself]
      · rw [if_neg htake]
        obtain ⟨hslots, hget⟩ := ih hrest acc
        have hnone : ((slot :: slots).filter (cooled acc.2 interval now)).take (cap - acc.1.length) =
            (slots.filter (cooled acc.2 interval now)).take (cap - acc.1.length) := by
          rw [List.filter_cons]
          split
          · next hc =>
            have hfull : cap - acc.1.length = 0 := by
              have hle : ¬ acc.1.length < cap := fun hlt => htake ⟨hlt, hc⟩
              omega
            rw [hfull, List.take_zero, List.take_zero]
          · rfl
        rw [hnone]
        exact ⟨hslots, hget⟩

/-- The gap is small and the last learn is recent: nothing is asked for. -/
def Quiet (a : LearnerAgent) (now : Nat) : Prop :=
  a.learner.getHighestLearned - a.learner.adu < a.config.learnMaxGap ∧
    now - a.lastLearnTime < a.config.retryIntervalMs

instance (a : LearnerAgent) (now : Nat) : Decidable (a.Quiet now) :=
  inferInstanceAs (Decidable (_ ∧ _))

/-- **What an evaluation asks for**, and what it notes of it. -/
theorem evaluateRetry_spec (a : LearnerAgent) (env : Env) :
    (a.evaluateRetry env).1 =
        (if a.Quiet env.now then .noGap
          else if a.toRetry env.now = [] then .skip a.learner.adu else .retry (a.toRetry env.now)) ∧
      (a.evaluateRetry env).2.config = a.config ∧
      ∀ slot, (a.evaluateRetry env).2.retries.get? slot =
        if ¬ a.Quiet env.now ∧ slot ∈ a.toRetry env.now then some env.now
        else a.retries.get? slot := by
  by_cases hquiet : a.Quiet env.now
  · have he : a.evaluateRetry env = (.noGap, a) := if_pos hquiet
    simp [he, hquiet]
  · obtain ⟨hslots, hget⟩ := foldl_retrySlot env.now a.config.retryIntervalMs
      (asUsize a.config.messageBatchSize)
      (List.nodup_range' (s := a.learner.adu + 1) (n := a.learner.getHighestLearned - a.learner.adu))
      ([], a.retries)
    rw [List.length_nil, Nat.sub_zero, List.nil_append] at hslots
    rw [List.length_nil, Nat.sub_zero] at hget
    have he : a.evaluateRetry env = _ := if_neg hquiet
    rw [he]
    generalize (List.range' _ _).foldl _ _ = res at hslots hget ⊢
    obtain ⟨slots, retries⟩ := res
    change slots = a.toRetry env.now at hslots
    change ∀ slot, retries.get? slot =
      if slot ∈ a.toRetry env.now then some env.now else a.retries.get? slot at hget
    subst hslots
    dsimp only
    rw [if_neg hquiet]
    split
    · next hnil => exact ⟨rfl, rfl, fun slot => by simpa [hquiet] using hget slot⟩
    · next hne => exact ⟨rfl, rfl, fun slot => by simpa [hquiet] using hget slot⟩

/-! ## The rest of the agent

No other call looks at the notes or makes one. -/

/-- The same notes of what was asked for, under the same settings. -/
def SameNotes (a a' : LearnerAgent) : Prop := a'.retries = a.retries ∧ a'.config = a.config

theorem SameNotes.trans {a'' : LearnerAgent} (h : SameNotes a a') (h' : SameNotes a' a'') :
    SameNotes a a'' := ⟨h'.1.trans h.1, h'.2.trans h.2⟩

theorem sameNotes_dispatchExecuted (a : LearnerAgent) (exec : Executed) :
    SameNotes a (a.dispatchExecuted exec).2 := by
  unfold dispatchExecuted
  split
  · exact ⟨rfl, rfl⟩
  · split <;> exact ⟨rfl, rfl⟩

theorem sameNotes_recordLearn (a : LearnerAgent) (env : Env) (slot : Slot) (value : Value)
    (sender : Node) : SameNotes a (a.recordLearn env slot value sender).2 := by
  unfold recordLearn
  generalize (if a.config.acceptorsSendLearns then _ else _ : Bool × Learner) = res
  obtain ⟨wasNew, learner⟩ := res
  cases wasNew <;> exact ⟨rfl, rfl⟩

theorem sameNotes_executeEntries (entries : List LearnedEntry) (a : LearnerAgent) :
    SameNotes a (entries.foldl executeEntry a) := by
  induction entries generalizing a with
  | nil => exact ⟨rfl, rfl⟩
  | cons e es ih => exact SameNotes.trans ⟨rfl, rfl⟩ (ih (executeEntry a e))

theorem sameNotes_executeChosenLearns (a : LearnerAgent) (env : Env) :
    SameNotes a (a.executeChosenLearns env) := by
  unfold executeChosenLearns
  split
  · exact SameNotes.trans ⟨rfl, rfl⟩ (sameNotes_executeEntries _ _)
  · exact ⟨rfl, rfl⟩

theorem sameNotes_collectExecuted (a : LearnerAgent) (batchSize : Option Nat) (full : Bool) :
    SameNotes a (a.collectExecuted batchSize full).2 := by
  unfold collectExecuted
  split <;> dsimp only <;> split <;> exact ⟨rfl, rfl⟩

theorem sameNotes_sendRetryLearns (a : LearnerAgent) (slots : List Slot) :
    SameNotes a (a.sendRetryLearns slots) := by
  unfold sendRetryLearns
  split <;> exact ⟨rfl, rfl⟩

theorem sameNotes_handleEvaluateRetry (a : LearnerAgent) (env : Env) :
    SameNotes (a.evaluateRetry env).2 (a.handleEvaluateRetry env) := by
  unfold handleEvaluateRetry
  split
  · next he => exact he ▸ ⟨rfl, rfl⟩
  · next he => exact he ▸ ⟨rfl, rfl⟩
  · next slots _ he => exact he ▸ sameNotes_sendRetryLearns _ slots

theorem sameNotes_handleTick (a : LearnerAgent) (env : Env) :
    SameNotes (a.evaluateRetry env).2 (a.handleTick env) := by
  refine (sameNotes_handleEvaluateRetry a env).trans ?_
  unfold handleTick
  generalize a.handleEvaluateRetry env = a
  dsimp only
  split
  · exact ⟨rfl, rfl⟩
  · have hexec : SameNotes a (executeChosenLearns { a with lastExecTime := env.now } env) :=
      SameNotes.trans ⟨rfl, rfl⟩ (sameNotes_executeChosenLearns _ env)
    refine hexec.trans ?_
    generalize executeChosenLearns { a with lastExecTime := env.now } env = a
    split
    · have hcollect := a.sameNotes_collectExecuted (some a.config.messageBatchSize) false
      split
      · exact hcollect.trans ⟨rfl, rfl⟩
      · exact (hcollect.trans (sameNotes_dispatchExecuted _ _)).trans ⟨rfl, rfl⟩
    · exact ⟨rfl, rfl⟩

theorem sameNotes_handleMessage (a : LearnerAgent) (env : Env) (m : NetworkMessage) :
    SameNotes a (a.handleMessage env m).2 := by
  unfold handleMessage
  split
  · next payload _ =>
    have hrecord := a.sameNotes_recordLearn env payload.slot payload.value m.sender
    split
    · next he =>
      rw [he] at hrecord
      exact hrecord
    · next a' he =>
      rw [he] at hrecord
      refine hrecord.trans ((sameNotes_executeChosenLearns a' env).trans ?_)
      generalize executeChosenLearns a' env = a
      dsimp only
      split
      · have hcollect := a.sameNotes_collectExecuted (some a.config.messageBatchSize) true
        have hsend := sameNotes_dispatchExecuted
          (a.collectExecuted (some a.config.messageBatchSize) true).2
          (a.collectExecuted (some a.config.messageBatchSize) true).1
        split
        · next he =>
          rw [he] at hsend
          exact hcollect.trans hsend
        · next he =>
          rw [he] at hsend
          exact hcollect.trans hsend
      · exact ⟨rfl, rfl⟩
  · exact ⟨rfl, rfl⟩
  · exact ⟨rfl, rfl⟩

/-! ## Runs

A slot that was asked for is noted with the time of that request or of a later one (`Noted`). -/

/-- The surroundings in which an event evaluates the retries. -/
def Event.evaluates? : Event → Option Env
  | .tick env => some env
  | .evaluateRetry env => some env
  | _ => none

/-- The event is a call on the agent itself. -/
def Event.IsCall : Event → Prop
  | .restart _ => False
  | _ => True

/-- What an event asks for, with the time. -/
def asked (a : LearnerAgent) (e : Event) : List (Slot × Nat) :=
  match e.evaluates? with
  | some env =>
      match (a.evaluateRetry env).1 with
      | .retry slots => slots.map (fun slot => (slot, env.now))
      | _ => []
  | none => []

/-- **A call changes the notes** by what it asks for, and only so. -/
theorem retries_handle (hash : String → Nat) (a : LearnerAgent) {e : Event} (he : e.IsCall) :
    (a.handle hash e).config = a.config ∧
      match e.evaluates? with
      | some env => (a.handle hash e).retries = (a.evaluateRetry env).2.retries
      | none => (a.handle hash e).retries = a.retries := by
  cases e with
  | tick env =>
      have h := a.sameNotes_handleTick env
      exact ⟨h.2.trans (a.evaluateRetry_spec env).2.1, h.1⟩
  | evaluateRetry env => exact ⟨(a.evaluateRetry_spec env).2.1, rfl⟩
  | message env m => exact (a.sameNotes_handleMessage env m).symm
  | recordLearn env slot value sender => exact (a.sameNotes_recordLearn env slot value sender).symm
  | executeChosenLearns env => exact (a.sameNotes_executeChosenLearns env).symm
  | collectExecuted batchSize full => exact (a.sameNotes_collectExecuted batchSize full).symm
  | maybeFlushState env => exact ⟨rfl, rfl⟩
  | sendHeartbeat => exact ⟨rfl, rfl⟩
  | restart env => exact absurd he id

theorem mem_asked {a : LearnerAgent} {e : Event} {slot : Slot} {t : Nat} :
    (slot, t) ∈ a.asked e ↔
      ∃ env, e.evaluates? = some env ∧ t = env.now ∧ ¬ a.Quiet env.now ∧ slot ∈ a.toRetry env.now := by
  unfold asked
  cases he : e.evaluates? with
  | none => simp
  | some env =>
      dsimp only
      rw [(a.evaluateRetry_spec env).1]
      by_cases hquiet : a.Quiet env.now
      · simp [hquiet]
      · by_cases hnil : a.toRetry env.now = []
        · simp [hquiet, hnil]
        · simp only [hquiet, hnil, if_false, List.mem_map, Prod.mk.injEq]
          grind

/-- **The notes cover what was asked for**: each slot asked for is noted with the time, or a later
one. -/
def Noted (log : List (Slot × Nat)) (a : LearnerAgent) : Prop :=
  ∀ slot t, (slot, t) ∈ log → ∃ t', a.retries.get? slot = some t' ∧ t ≤ t'

theorem Noted.handle {log : List (Slot × Nat)} (h : a.Noted log) (hash : String → Nat) {e : Event}
    (he : e.IsCall) (hlast : ∀ env, e.evaluates? = some env → ∀ slot t, (slot, t) ∈ log → t ≤ env.now) :
    (a.handle hash e).Noted (log ++ a.asked e) := by
  intro slot t hmem
  have hretries := (a.retries_handle hash he).2
  cases hev : e.evaluates? with
  | none =>
      rw [hev] at hretries
      rw [hretries]
      rcases List.mem_append.mp hmem with hmem | hmem
      · exact h slot t hmem
      · simp [mem_asked, hev] at hmem
  | some env =>
      rw [hev] at hretries
      rw [hretries, (a.evaluateRetry_spec env).2.2]
      rcases List.mem_append.mp hmem with hmem | hmem
      · have hle := hlast env hev slot t hmem
        split
        · exact ⟨env.now, rfl, hle⟩
        · exact h slot t hmem
      · obtain ⟨env', hev', rfl, hloud, htake⟩ := mem_asked.mp hmem
        obtain rfl := Option.some.inj (hev.symm.trans hev')
        rw [if_pos ⟨hloud, htake⟩]
        exact ⟨env.now, rfl, le_refl _⟩

/-! ## What is asked for

Whether a slot is in a batch depends on the slots between the cursor and it. -/

/-- A number of a range is among the first `cap` that satisfy `p`, if it satisfies `p` and fewer than
`cap` before it do. -/
theorem mem_take_filter_range' {p : Nat → Bool} {start n cap slot : Nat} :
    slot ∈ ((List.range' start n).filter p).take cap ↔
      slot ∈ List.range' start n ∧ p slot = true ∧
        (List.range' start (slot - start)).countP p < cap := by
  induction n generalizing start cap with
  | zero => simp
  | succ n ih =>
      rw [List.range'_succ, List.filter_cons, List.mem_cons]
      by_cases hself : slot = start
      · -- the first number is taken if there is room for one
        subst hself
        have hout : slot ∉ List.range' (slot + 1) n := by simp [List.mem_range'_1]
        cases hp : p slot with
        | false =>
            have : slot ∉ ((List.range' (slot + 1) n).filter p).take cap :=
              fun h => hout (List.mem_filter.mp (List.mem_of_mem_take h)).1
            simpa [hp] using this
        | true => cases cap <;> simp
      · by_cases hlt : start < slot
        · -- the first number takes a place if it satisfies `p`
          have hstep : slot - start = slot - (start + 1) + 1 := by omega
          rw [hstep, List.range'_succ, List.countP_cons]
          cases hp : p start with
          | false =>
              simp only [hself, false_or, Bool.false_eq_true, if_false, Nat.add_zero]
              exact ih
          | true =>
              cases cap with
              | zero => simp
              | succ cap =>
                  simp only [if_true, List.take_succ_cons, List.mem_cons, hself, false_or,
                    Nat.add_lt_add_iff_right]
                  exact ih
        · have hout : slot ∉ List.range' (start + 1) n := by
            rw [List.mem_range'_1]
            omega
          -- a number below the range is not in it
          simp only [hself, hout, or_self, false_and, iff_false]
          intro h
          have h := List.mem_of_mem_take h
          split at h
          · rcases List.mem_cons.mp h with h | h
            · exact hself h
            · exact hout (List.mem_filter.mp h).1
          · exact hout (List.mem_filter.mp h).1

theorem mem_toRetry {now : Nat} {slot : Slot} :
    slot ∈ a.toRetry now ↔
      slot ∈ List.range' (a.learner.adu + 1) (a.learner.getHighestLearned - a.learner.adu) ∧
        cooled a.retries a.config.retryIntervalMs now slot = true ∧
        (List.range' (a.learner.adu + 1) (slot - (a.learner.adu + 1))).countP
          (cooled a.retries a.config.retryIntervalMs now) < asUsize a.config.messageBatchSize :=
  mem_take_filter_range'

/-- **The batch reaches a learned slot**: one above the cursor that is cooled, with fewer cooled slots
before it than a batch has room for. -/
def ReachesLearned (a : LearnerAgent) (now : Nat) : Prop :=
  ¬ a.Quiet now ∧
    ∃ slot ∈ List.range' (a.learner.adu + 1) (a.learner.getHighestLearned - a.learner.adu),
      a.learner.learned.contains slot = true ∧
        cooled a.retries a.config.retryIntervalMs now slot = true ∧
        (List.range' (a.learner.adu + 1) (slot - (a.learner.adu + 1))).countP
          (cooled a.retries a.config.retryIntervalMs now) < asUsize a.config.messageBatchSize

instance (a : LearnerAgent) (now : Nat) : Decidable (a.ReachesLearned now) :=
  inferInstanceAs (Decidable (_ ∧ ∃ slot ∈ List.range' _ _, _))

/-! ### Missing slots

The scan does not look at what is learned. A batch asks for missing slots only where it is full before it
comes to a learned one. -/

/-- **A retry asks for missing slots**: an increasing list, not longer than a batch, of slots above
the cursor and up to the highest learned one, none of them learned, and none of them asked for within
the interval. -/
structure AsksForMissing (a : LearnerAgent) (log : List (Slot × Nat)) (now : Nat)
    (slots : List Slot) : Prop where
  increasing : slots.Pairwise (· < ·)
  length_le : slots.length ≤ a.config.messageBatchSize
  above : ∀ slot ∈ slots, a.learner.adu < slot
  le_highest : ∀ slot ∈ slots, slot ≤ a.learner.getHighestLearned
  missing : ∀ slot ∈ slots, a.learner.learned.contains slot = false
  rested : ∀ slot ∈ slots, ∀ t, (slot, t) ∈ log → a.config.retryIntervalMs ≤ now - t

/-- All of it but that the slots are missing holds anyway. -/
theorem asksForMissing_iff {log : List (Slot × Nat)} (h : a.Noted log) (now : Nat) :
    a.AsksForMissing log now (a.toRetry now) ↔
      ∀ slot ∈ a.toRetry now, a.learner.learned.contains slot = false := by
  refine ⟨fun hasks => hasks.missing, fun hmissing => ⟨?_, ?_, ?_, ?_, hmissing, ?_⟩⟩
  · exact (List.pairwise_lt_range' (s := a.learner.adu + 1)
      (n := a.learner.getHighestLearned - a.learner.adu)).sublist
      ((List.take_sublist _ _).trans List.filter_sublist)
  · exact (List.length_take_le _ _).trans (Nat.mod_le _ _)
  · intro slot hslot
    have := List.mem_range'_1.mp (mem_toRetry.mp hslot).1
    lia
  · intro slot hslot
    have := List.mem_range'_1.mp (mem_toRetry.mp hslot).1
    lia
  · intro slot hslot t ht
    obtain ⟨t', hget, hle⟩ := h slot t ht
    have hcooled := (mem_toRetry.mp hslot).2.1
    rw [cooled, hget] at hcooled
    have := of_decide_eq_true hcooled
    omega

/-- The retry of an evaluation, if it makes one, asks for missing slots, given what was asked before. -/
def RetriesRight (hash : String → Nat) (a₀ : LearnerAgent) (before : List Event) (e : Event) : Prop :=
  let a := run (handle hash) a₀ before
  ∀ env, e.evaluates? = some env → ∀ slots, (a.evaluateRetry env).1 = .retry slots →
    a.AsksForMissing (collect (handle hash) asked a₀ before) env.now slots

/-- The condition on the evaluations of a run. -/
def StopsBeforeLearned (a : LearnerAgent) (e : Event) : Prop :=
  ∀ env, e.evaluates? = some env → ¬ a.ReachesLearned env.now

theorem evaluation_asksForMissing_iff {log : List (Slot × Nat)} (h : a.Noted log) (env : Env) :
    (∀ slots, (a.evaluateRetry env).1 = .retry slots → a.AsksForMissing log env.now slots) ↔
      ¬ a.ReachesLearned env.now := by
  rw [(a.evaluateRetry_spec env).1]
  have hreach : (¬ a.Quiet env.now → ∀ slot ∈ a.toRetry env.now,
      a.learner.learned.contains slot = false) ↔ ¬ a.ReachesLearned env.now := by
    unfold ReachesLearned
    simp only [mem_toRetry]
    grind
  rw [← hreach, ← asksForMissing_iff h]
  by_cases hquiet : a.Quiet env.now
  · simp [hquiet]
  · by_cases hnil : a.toRetry env.now = []
    · have hnone : a.AsksForMissing log env.now [] := by constructor <;> simp
      simp [hquiet, hnil, hnone]
    · simp [hquiet, hnil]

/-- The evaluations of a run come in the order of time. -/
def InTime (es : List Event) : Prop :=
  (es.filterMap Event.evaluates?).Pairwise (fun env env' => env.now ≤ env'.now)

theorem time_of_mem_collect {hash : String → Nat} {es : List Event} {slot : Slot} {t : Nat}
    (h : (slot, t) ∈ collect (handle hash) asked a es) :
    ∃ env ∈ es.filterMap Event.evaluates?, t = env.now := by
  induction es generalizing a with
  | nil => simp at h
  | cons e es ih =>
      rcases List.mem_append.mp h with h | h
      · obtain ⟨env, hev, rfl, -⟩ := mem_asked.mp h
        exact ⟨env, List.mem_filterMap.mpr ⟨e, List.mem_cons_self .., hev⟩, rfl⟩
      · obtain ⟨env, henv, rfl⟩ := ih h
        exact ⟨env, List.filterMap_subset _ (List.subset_cons_self e es) henv, rfl⟩

/-- **Retries ask exactly for missing slots** in exactly those runs in which no batch reaches a
learned slot. -/
theorem retries_right_iff (hash : String → Nat) (dir : Learner.Dir) (env : Env) (node : Node)
    (nodes : List Node) (config : RunConfig) (es : List Event) (hcalls : ∀ e ∈ es, e.IsCall)
    (htime : InTime es) :
    AtEach (RetriesRight hash (new hash dir env node nodes config)) es ↔
      Guarded (handle hash) StopsBeforeLearned (new hash dir env node nodes config) es := by
  generalize ha : new hash dir env node nodes config = a₀
  have hstart : a₀.Noted [] := fun _ _ h => nomatch h
  -- along the run, the notes cover what was asked for
  suffices hgen : (run (handle hash) a₀ es).Noted (collect (handle hash) asked a₀ es) ∧
      (AtEach (RetriesRight hash a₀) es ↔ Guarded (handle hash) StopsBeforeLearned a₀ es) from hgen.2
  clear ha
  induction es using List.reverseRecOn with
  | nil => exact ⟨hstart, fun _ => trivial, fun _ => atEach_nil _⟩
  | append_singleton es e ih =>
      have hpast : InTime es := by
        unfold InTime at htime ⊢
        rw [List.filterMap_append] at htime
        exact (List.pairwise_append.mp htime).1
      obtain ⟨hnoted, hiff⟩ := ih (fun e' he' => hcalls e' (List.mem_append_left _ he')) hpast
      constructor
      · rw [run_snoc, collect_snoc]
        refine hnoted.handle hash (hcalls e (by simp)) ?_
        intro env' hev slot t hmem
        obtain ⟨env'', henv, rfl⟩ := time_of_mem_collect hmem
        unfold InTime at htime
        rw [List.filterMap_append] at htime
        exact (List.pairwise_append.mp htime).2.2 env'' henv env'
          (List.mem_filterMap.mpr ⟨e, by simp, hev⟩)
      · rw [atEach_snoc, guarded_snoc, hiff]
        refine and_congr_right (fun _ => forall₂_congr (fun env' _ => ?_))
        exact evaluation_asksForMissing_iff hnoted env'

/-! ### Slot 1 is missing

A learn of slot 2 alone, and the batch that asks for both. -/

/-- A learner that gets its learns from a proposer, in batches of `n`. -/
def lateLearner (n : Nat) : LearnerAgent :=
  new (fun _ => 0) .empty .quiet ⟨1, "", .learner⟩ [⟨7, "", .proposer⟩]
    { RunConfig.inMemory with acceptorsSendLearns := false, messageBatchSize := n }

/-- Slot 2 is learned, slot 1 is not. -/
def secondLearned : Event :=
  .message .quiet ⟨⟨7, "", .proposer⟩, .learn { slot := 2, value := Value.noOp }⟩

/-- The interval passes. -/
def laterRetry : Event := .evaluateRetry { Env.quiet with now := 100 }

theorem inTime_secondLearned : InTime [secondLearned, laterRetry] := List.pairwise_singleton ..

theorem retries_right_below_gap :
    AtEach (RetriesRight (fun _ => 0) (lateLearner 1)) [secondLearned, laterRetry] :=
  (retries_right_iff _ _ _ _ _ _ _ (by simp [secondLearned, laterRetry, Event.IsCall])
    inTime_secondLearned).mpr
    ⟨fun _ he => (by cases he), fun _ he => Option.some.inj he ▸ by decide, trivial⟩

/-- The learner asks for slot 2 as well. -/
theorem learned_slot_asked :
    ¬ AtEach (RetriesRight (fun _ => 0) (lateLearner 20)) [secondLearned, laterRetry] := by
  intro h
  have hasks := h [secondLearned] laterRetry [] rfl _ rfl [1, 2] (by decide)
  have hmissing := hasks.missing 2 (by simp)
  revert hmissing
  decide

end LearnerAgent

end PaxosWasm
