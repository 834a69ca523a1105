import PaxosWasm.Cluster.ClientAnswers
import PaxosWasm.Cluster.Replication

/-!
# One history

Where nothing is stored, no node is restarted and the learners agree, a run of the cluster has one
history: a list of values, of which every learner has executed a prefix, and which explains every
result that is reported. The history respects real time, and clients get its results.
-/

namespace PaxosWasm

open Library

/-- What the learner agent of a coordinator hands over is true of its records. -/
theorem Process.Replicates.handed {x : Process} (h : x.Replicates) {t : Trio}
    (hagents : x.node.agents = .coordinator t) (env : Env) :
    ∀ r ∈ (t.handed x.node.config env).results,
      LearnerAgent.Truthful t.learner.learner.learned.get? r := by
  have hreplica := h.replica t.learner (by rw [PaxosCoordinator.learner?, hagents])
  have hretry := (hreplica.step (.evaluateRetry env)).1
  obtain ⟨hexecuted, hrecords, -⟩ := hretry.executeChosenLearns env
  have hcollected := (hexecuted.collectExecuted none false).2
  rw [hrecords, (t.learner.sameCore_evaluateRetry env).1, ← t.learner_maybeRetryLearn env] at hcollected
  exact hcollected

namespace Cluster

/-! ## The history of a run

The values decided by the end of a run are the history of the whole run: what has been recorded or reported
on the way is still true at its end. -/

/-- A result is the answer to the value of its slot, after those before it. -/
def Answered (log : List Value) (r : ExecuteResult) : Prop :=
  ∃ k, r.slot = k + 1 ∧ log[k]? = some r.value ∧
    r.cmdResult = KvStore.answer ((log.take k).map Value.command) r.value.command ∧
    r.success = decide (r.cmdResult ≠ .noOp)

/-- **A list of values explains a cluster**: every learner has executed a prefix of it, and every result
that has been reported is answered by it. -/
structure Explains (log : List Value) (c : Cluster) : Prop where
  stores : ∀ i l, c.learner? i = some l → l.getAdu ≤ log.length ∧
    l.kvStore.history = (log.take l.getAdu).map Value.command ∧
    l.kvStore.store = KvStore.replay ((log.take l.getAdu).map Value.command)
  reports : ∀ r, c.Reports r → Answered log r

variable {m : Membership} {hash : String → Nat} {c : Cluster} {launch : Launch}

/-- The log of a cluster is finite. -/
theorem exists_bound (c : Cluster) : ∃ B, ∀ n, B ≤ n → c.decided (n + 1) = none := by
  obtain ⟨B, hB⟩ := Finset.exists_le (c.values.flatMap (fun x =>
    x.node.learner?.elim [] (fun l => l.learner.learned.keys))).toFinset
  refine ⟨B, fun n hn => List.findSome?_eq_none_iff.mpr (fun x hx => ?_)⟩
  cases hl : x.node.learner? with
  | none => rfl
  | some l =>
      rw [Option.bind_some, Option.eq_none_iff_forall_ne_some]
      intro v hv
      have hle := hB (n + 1) (List.mem_toFinset.mpr (List.mem_flatMap.mpr ⟨x, hx, by
        rw [hl]
        exact OrdMap.mem_keys.mpr ⟨v, hv⟩⟩))
      exact Nat.not_succ_le_self n (hle.trans hn)

/-- What a state of a run has recorded and reported, a later one has recorded and reported. -/
theorem later_run (hmemory : launch.config.persistentStorage = false) {es es' : List Event}
    (hrestart : NoRestarts (es ++ es'))
    (hagree : Throughout (step launch.hash) LearnersAgree (start launch m) (es ++ es')) :
    Grows (run (step launch.hash) (start launch m) es).decided
        (run (step launch.hash) (start launch m) (es ++ es')).decided ∧
      ∀ r, (run (step launch.hash) (start launch m) es).Reports r →
        LearnerAgent.Truthful (run (step launch.hash) (start launch m) es).decided r := by
  obtain ⟨hbefore, hafter⟩ := throughout_append.mp hagree
  have hfirst : NoRestarts es := fun e he => hrestart e (List.mem_append_left _ he)
  have hall := replicates_run (m := m) hmemory hfirst
  refine ⟨?_, fun r hr => hall.truthful hbefore.last hr⟩
  obtain ⟨x, hx⟩ := exists_shows hall hbefore.last
  obtain ⟨y, hrun, hy⟩ := hx.run hall (fun e he => hrestart e (List.mem_append_right _ he)) hafter
  rw [run_append, ← hx.decided, ← hy.decided]
  exact Replicated.Run.grows hrun

/-- The history of a run: it explains every state, and whatever is true of the log of a state. -/
theorem exists_history (hmemory : launch.config.persistentStorage = false) {es : List Event}
    (hrestart : NoRestarts es)
    (hagree : Throughout (step launch.hash) LearnersAgree (start launch m) es) :
    ∃ log : List Value, Throughout (step launch.hash) (fun c => Explains log c ∧
      ∀ r, LearnerAgent.Truthful c.decided r → Answered log r) (start launch m) es := by
  obtain ⟨B, hB⟩ := exists_bound (run (step launch.hash) (start launch m) es)
  obtain ⟨log, -, hfed, hanswers⟩ := Machine.exists_history (M := KvStore.machine) hB
  refine ⟨log, fun es' hes => ?_⟩
  obtain ⟨rest, rfl⟩ := hes
  have hfirst : NoRestarts es' := fun e he => hrestart e (List.mem_append_left _ he)
  have hall := replicates_run (m := m) hmemory hfirst
  obtain ⟨hbefore, -⟩ := throughout_append.mp hagree
  obtain ⟨hgrows, htrue⟩ := later_run (m := m) hmemory hrestart hagree
  have hanswered : ∀ r, LearnerAgent.Truthful (run (step launch.hash) (start launch m) es').decided r →
      Answered log r := by
    intro r hr
    obtain ⟨k, hslot, hvalue, hres⟩ := hanswers _ _ _ (hr.yields.mono hgrows)
    refine ⟨k, hslot, hvalue, ?_, hr.success⟩
    rw [hres]
    exact KvStore.apply_eq_answer (KvStore.feed_machine (log.take k)).2 r.value.command
  refine ⟨⟨fun i l hl => ?_, fun r hr => hanswered r (htrue r hr)⟩, hanswered⟩
  obtain ⟨hle, hstore⟩ := hfed _ _
    (((hall.replica hl).reaches.mono (grows_decided hbefore.last hl)).mono hgrows)
  obtain ⟨hhistory, hreplay⟩ := KvStore.feed_machine (log.take l.getAdu)
  rw [hstore]
  exact ⟨hle, hhistory, hreplay⟩

/-- **A run has one history**, which explains each of its states. -/
theorem one_history (launch : Launch) (m : Membership)
    (hmemory : launch.config.persistentStorage = false) (es : List Event) (hrestart : NoRestarts es)
    (hagree : Throughout (step launch.hash) LearnersAgree (start launch m) es) :
    ∃ log : List Value, Throughout (step launch.hash) (Explains log) (start launch m) es := by
  obtain ⟨log, hlog⟩ := exists_history (m := m) hmemory hrestart hagree
  exact ⟨log, fun es' hes => (hlog es' hes).1⟩

theorem one_history_first_request :
    ∃ log : List Value, Throughout (step (Launch.led .inMemory).hash) (Explains log)
      (start (.led .inMemory) sevenNodes) (acceptedBy 0 ++ executedBy 1) :=
  one_history (.led .inMemory) sevenNodes rfl _ (by decide) (by decide)

/-! ## Real time

What has been reported is in the history at its slot, and a request that comes later finds no earlier
slot free. -/

/-- Every value of a run has been submitted, or is a no-op. -/
theorem submitted_run (hev : launch.config.isEventDriven = true) (hfresh : ∀ i, (launch.dirs i).Fresh)
    (es : List Event) : Valid (Submitted es) (run (step launch.hash) (start launch m) es) := by
  have hsuits : ∀ node ∈ m.nodes, PaxosCoordinator.Suits (factsOf es m.acceptorIds.card) m node
      launch.config := fun node _ => ⟨Or.inl hev, trivial, rfl⟩
  have hrun : Sound (factsOf es m.acceptorIds.card) (fun _ _ => True) m launch.config
      (run (step launch.hash) (start launch m) es) := by
    refine run_invariant_of_mem (E := (· ∈ es)) (fun c e hc he => ?_) (sound_start hfresh hsuits)
      (fun e he => he)
    exact hc.step hsuits (fun _ _ _ => trivial)
      (fun _ _ _ _ _ _ _ => ⟨fun _ _ _ => trivial, fun _ _ _ _ _ _ _ _ => trivial⟩)
      (fun i req hreq => Or.inr ⟨i, hreq ▸ he⟩) (Or.inl (fun _ _ => trivial))
  exact hrun.valid (Or.inl rfl)

/-- **Real time is respected**: a value that is submitted only after the result of a slot has been
reported is executed in a later slot. -/
theorem real_time_order (launch : Launch) (m : Membership) (hev : launch.config.isEventDriven = true)
    (hmemory : launch.config.persistentStorage = false) (hfresh : ∀ i, (launch.dirs i).Fresh)
    (es es' : List Event) (hrestart : NoRestarts (es ++ es'))
    (hagree : Throughout (step launch.hash) LearnersAgree (start launch m) (es ++ es'))
    {r r' : ExecuteResult} (hr : (run (step launch.hash) (start launch m) es).Reports r)
    (hr' : (run (step launch.hash) (start launch m) (es ++ es')).Reports r')
    (hlater : ¬ Submitted es r'.value) : r.slot < r'.slot := by
  obtain ⟨hgrows, htrue⟩ := later_run (m := m) hmemory hrestart hagree
  obtain ⟨hbefore, -⟩ := throughout_append.mp hagree
  have htrue' := (replicates_run (m := m) hmemory hrestart).truthful hagree.last hr'
  by_contra hle
  -- the slot of the later result was decided before
  obtain ⟨w, hw⟩ : ∃ w, (run (step launch.hash) (start launch m) es).decided r'.slot = some w := by
    obtain ⟨-, kv, hreaches⟩ := (htrue r hr).yields.reaches
    exact hreaches.decided htrue'.yields.reaches.1 (Nat.le_of_not_lt hle)
  have hvalue : w = r'.value :=
    Option.some.inj ((hgrows _ _ hw).symm.trans htrue'.yields.decided)
  obtain ⟨i, l, hl, hrecord⟩ := (decided_eq_some hbefore.last).mp hw
  obtain ⟨x, hx, hxl⟩ := learner?_eq_some.mp hl
  refine hlater ?_
  rw [← hvalue]
  exact (submitted_run hev hfresh es).learned i x l hx hxl r'.slot w hrecord

/-- Learner 21 reports the first request. -/
def firstReported : List Event := acceptedBy 0 ++ [.call 21 (.tick { Env.quiet with now := 10000 })]

/-- A request of client `"d"` is submitted, and learner 21 reports it as well. -/
def secondReported : List Event :=
  [.call 1 (.submitClientRequest othersRequest), .call 1 (.tick .quiet),
    .deliver 1 .proposer 3 11 .quiet, .deliver 1 .proposer 3 12 .quiet,
    .deliver 11 .acceptor 2 21 .quiet, .deliver 12 .acceptor 2 21 .quiet,
    .call 21 (.tick { Env.quiet with now := 20000 })]

/-- The result of a request that sets something. -/
def resultOfSet (slot : Slot) (value : Value) : ExecuteResult :=
  { slot, value, success := true, cmdResult := .cmdValue none }

set_option maxRecDepth 4000 in
theorem real_time_order_two_requests :
    (resultOfSet 1 (setX "a")).slot < (resultOfSet 2 othersRequest).slot :=
  real_time_order (.led .inMemory) sevenNodes rfl rfl (Launch.fresh_idle .inMemory) firstReported
    secondReported (by decide) (by decide) (by decide) (by decide) (by
      rintro (h | ⟨i, h⟩)
      · cases h
      · simp [firstReported, acceptedBy, resultOfSet, othersRequest, setX] at h)

/-! ## What clients get

A response carries a result from a report, and every report is true of the log. -/

/-- **What a leader is told is true** of the log. -/
theorem All.processes_truthful {K : Facts} {L : NodeId → Slot → Prop} {config : RunConfig}
    (hall : c.All m (fun _ => Process.Replicates)) (hs : c.Sound K L m config)
    (hagree : c.LearnersAgree) {e : Event} {p : ProposerAgent × Env × Executed}
    (hp : c.processes e = some p) : ∀ r ∈ p.2.2.results, LearnerAgent.Truthful c.decided r := by
  cases e with
  | call j e' =>
      cases e' with
      | message env msg => cases hp
      | tick env =>
          obtain ⟨x, hx, hcall⟩ := Option.bind_eq_some_iff.mp hp
          split at hcall
          · obtain ⟨_, _, _, hreplicates⟩ := hall j x hx
            obtain ⟨t, hagents, he, -⟩ := PaxosCoordinator.processes_tick hcall
            -- handed over by the own learner
            rw [he]
            refine fun r hr => (hreplicates.handed hagents env r hr).mono ?_
            exact grows_decided hagree (learner?_eq_some.mpr
              ⟨x, hx, by rw [PaxosCoordinator.learner?, hagents]⟩)
          · cases hcall
      | _ =>
          obtain ⟨x, -, hcall⟩ := Option.bind_eq_some_iff.mp hp
          split at hcall <;> cases hcall
  | deliver i outlet k j env =>
      obtain ⟨msg, hmsg, harrival⟩ := Option.bind_eq_some_iff.mp hp
      obtain ⟨x, -, hcall⟩ := Option.bind_eq_some_iff.mp harrival
      split at hcall
      · obtain ⟨y, s, hy, hk, -, rfl⟩ := message?_eq_some hmsg
        obtain ⟨-, hpayload, -⟩ := PaxosCoordinator.processes_message hcall
        obtain ⟨node, -, rfl, hsound⟩ := hs i y hy
        have hmem := List.mem_of_getElem? hk
        -- only learners send reports
        cases outlet with
        | proposer =>
            obtain ⟨-, hsays⟩ := hsound.sent.proposer s hmem
            rw [hpayload] at hsays
            exact hsays.elim
        | acceptor =>
            obtain ⟨-, hans⟩ := hsound.sent.acceptor s hmem
            rw [hpayload] at hans
            exact hans.elim
        | learner =>
            obtain ⟨_, _, _, hreplicates⟩ := hall node.nodeId y hy
            refine fun r hr => hall.truthful hagree (reports_iff.mpr ?_)
            simp only [Outlet.log, hreplicates.firstLife.sent_eq, PaxosCoordinator.logs] at hmem
            cases hl : y.node.learner? with
            | none =>
                rw [hl] at hmem
                cases hmem
            | some l =>
                rw [hl] at hmem
                refine ⟨node.nodeId, l, learner?_eq_some.mpr ⟨y, hy, hl⟩, p.2.2, ?_, hr⟩
                exact List.mem_filterMap.mpr ⟨s, hmem, by rw [hpayload]; rfl⟩
      · cases hcall

/-- **Clients get answers of the history**: in every run, the list that explains each of its states also
answers each response a leader queues, with the value of its slot, and where the leader has no unfinished
proposal of another request there, the client that gets it is the one that has asked. -/
theorem responses_from_history (launch : Launch) (m : Membership)
    (hmemory : launch.config.persistentStorage = false) (hfresh : ∀ i, (launch.dirs i).Fresh)
    (es : List Event) (hrestart : NoRestarts es)
    (hagree : Throughout (step launch.hash) LearnersAgree (start launch m) es) :
    ∃ log : List Value, Throughout (step launch.hash) (Explains log) (start launch m) es ∧
      AtEach (fun before e =>
        ∀ p ∈ (run (step launch.hash) (start launch m) before).processes e,
          ∀ q ∈ p.1.queued p.2.1 p.2.2, Answered log q.1 ∧ q.2.commandResult = q.1.cmdResult ∧
            q.2.success = q.1.success ∧
            (p.1.KeepsExecuted p.2.2 → q.1.cmdResult ≠ .noOp →
              (q.2.clientId, q.2.clientSeq) = q.1.value.request)) es := by
  obtain ⟨log, hlog⟩ := exists_history (m := m) hmemory hrestart hagree
  refine ⟨log, fun es' hes => (hlog es' hes).1, fun before e after he p hp q hq => ?_⟩
  subst he
  have hfirst : NoRestarts before := fun e' he' => hrestart e' (List.mem_append_left _ he')
  obtain ⟨hbefore, -⟩ := throughout_append.mp hagree
  have htrue := (replicates_run (m := m) hmemory hfirst).processes_truthful
    (sound_run hfresh before) hbefore.last hp
  have hqueued : ∃ v, q.1 ∈ p.2.2.results ∧ q.2 = q.1.response v := by
    unfold ProposerAgent.queued at hq
    split at hq
    · obtain ⟨hfind, prop, -, hresponse⟩ := ProposerAgent.mem_queuedFor.mp hq
      exact ⟨prop.value, List.mem_of_find?_eq_some hfind, hresponse⟩
    · cases hq
  obtain ⟨v, hmem, hresponse⟩ := hqueued
  refine ⟨(hlog before (List.prefix_append ..)).2 q.1 (htrue q.1 hmem), ?_, ?_, fun hkeeps hcmd => ?_⟩
  · rw [hresponse]
    rfl
  · rw [hresponse]
    rfl
  · exact (p.1.answersExecuted_iff p.2.1 p.2.2).mpr hkeeps q hq hcmd

theorem responses_from_history_first_request :
    ∃ log : List Value, Throughout (step (Launch.led .inMemory).hash) (Explains log)
        (start (.led .inMemory) sevenNodes) (acceptedBy 0 ++ executedBy 1) ∧
      AtEach (fun before e =>
        ∀ p ∈ (run (step (Launch.led .inMemory).hash) (start (.led .inMemory) sevenNodes) before).processes e,
          ∀ q ∈ p.1.queued p.2.1 p.2.2, Answered log q.1 ∧ q.2.commandResult = q.1.cmdResult ∧
            q.2.success = q.1.success ∧
            (p.1.KeepsExecuted p.2.2 → q.1.cmdResult ≠ .noOp →
              (q.2.clientId, q.2.clientSeq) = q.1.value.request)) (acceptedBy 0 ++ executedBy 1) :=
  responses_from_history (.led .inMemory) sevenNodes rfl (Launch.fresh_idle .inMemory) _ (by decide)
    (by decide)

end Cluster

end PaxosWasm
