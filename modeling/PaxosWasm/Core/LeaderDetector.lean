import PaxosWasm.Types

/-!
# The leader detector

`core/leader-detector`: the leader is the highest proposer that is not suspected. `suspect` and
`restore` change one mark, elect again, and report the leader if it has changed. Logging is left
out, and so is the local node, which `new` does not read.
-/

namespace PaxosWasm

open Library

/-- The nodes that can lead. -/
def Node.CanLead (node : Node) : Prop := node.role = .coordinator ∨ node.role = .proposer

instance (node : Node) : Decidable node.CanLead := inferInstanceAs (Decidable (_ ∨ _))

structure LeaderDetector where
  proposers : List NodeId
  suspected : OrdMap NodeId Bool
  lastLeader : Option NodeId

namespace LeaderDetector

/-- `suspected.get(&id).copied().unwrap_or(false)` -/
def suspects (d : LeaderDetector) (id : NodeId) : Bool := (d.suspected.get? id).getD false

/-- Pick the highest proposer that is not suspected. -/
def recomputeLeader (d : LeaderDetector) : Option NodeId :=
  (d.proposers.filter (fun id => !d.suspects id)).max?

def new (all : List Node) : LeaderDetector :=
  let proposers := (all.filter (fun node => decide node.CanLead)).map Node.nodeId
  { proposers
    suspected := proposers.foldl (fun suspected id => suspected.insert id false) ∅
    lastLeader := proposers.foldl
      (fun maxId id => if maxId.all (fun m => decide (id > m)) then some id else maxId) none }

/-- The common body of `suspect` and `restore`: mark a proposer, elect again, report a change. -/
def mark (d : LeaderDetector) (node : NodeId) (suspected : Bool) : Option NodeId × LeaderDetector :=
  if d.proposers.contains node then
    let d := { d with suspected := d.suspected.insert node suspected }
    let newLeader := d.recomputeLeader
    if newLeader ≠ d.lastLeader then (newLeader, { d with lastLeader := newLeader }) else (none, d)
  else (none, d)

def suspect (d : LeaderDetector) (node : NodeId) : Option NodeId × LeaderDetector := d.mark node true

def restore (d : LeaderDetector) (node : NodeId) : Option NodeId × LeaderDetector := d.mark node false

/-! ## Elections -/

/-- **The leader is up to date**: it is the one an election now would pick. -/
def Elected (d : LeaderDetector) : Prop := d.lastLeader = d.recomputeLeader

theorem isGreatest_of_max? {xs : List NodeId} {l : NodeId} :
    xs.max? = some l ↔ IsGreatest {id | id ∈ xs} l := by
  rw [List.max?_eq_some_iff]
  exact Iff.rfl

theorem recomputeLeader_eq_some_iff {d : LeaderDetector} {l : NodeId} :
    d.recomputeLeader = some l ↔ IsGreatest {id | id ∈ d.proposers ∧ d.suspects id = false} l := by
  simp [recomputeLeader, isGreatest_of_max?]

theorem recomputeLeader_eq_none_iff {d : LeaderDetector} :
    d.recomputeLeader = none ↔ ∀ id ∈ d.proposers, d.suspects id = true := by
  simp [recomputeLeader, List.max?_eq_none_iff]

theorem lastLeader_eq_max? (ids : List NodeId) :
    ids.foldl (fun maxId id => if maxId.all (fun m => decide (id > m)) then some id else maxId) none =
      ids.max? := by
  -- from some maximum on, the loop of `new` keeps the greater of the two
  have hloop : ∀ (ids : List NodeId) (m : NodeId),
      ids.foldl (fun maxId id => if maxId.all (fun m => decide (id > m)) then some id else maxId)
        (some m) = some (ids.foldl max m) := by
    intro ids
    induction ids with
    | nil => intro m; rfl
    | cons id ids ih =>
        intro m
        by_cases hlt : m < id
        · simpa [hlt, max_eq_right (le_of_lt hlt)] using ih id
        · simpa [hlt, max_eq_left (le_of_not_gt hlt)] using ih m
  cases ids with
  | nil => rfl
  | cons id ids =>
      rw [List.max?_cons']
      exact hloop ids id

theorem suspects_new (all : List Node) (id : NodeId) : (new all).suspects id = false := by
  have hloop : ∀ (ids : List NodeId) (marks : OrdMap NodeId Bool),
      (marks.get? id).getD false = false →
      ((ids.foldl (fun marks id => marks.insert id false) marks).get? id).getD false = false := by
    intro ids
    induction ids with
    | nil => intro marks h; exact h
    | cons id' ids ih =>
        intro marks h
        apply ih
        rw [OrdMap.get?_insert]
        split
        · rfl
        · exact h
  exact hloop _ ∅ rfl

theorem elected_new (all : List Node) : (new all).Elected := by
  have hfilter : (new all).proposers.filter (fun id => !(new all).suspects id) = (new all).proposers := by
    simp [suspects_new]
  rw [Elected, recomputeLeader, hfilter]
  exact lastLeader_eq_max? _

theorem mem_proposers_new {all : List Node} {id : NodeId} :
    id ∈ (new all).proposers ↔ ∃ node ∈ all, node.CanLead ∧ node.nodeId = id := by
  simp [new, and_assoc]

/-! ## What a mark does

A mark sets or clears a suspicion of a proposer, and is followed by an election. -/

section Mark

variable (d : LeaderDetector) (node : NodeId) (b : Bool)

theorem mark_of_notMem (h : node ∉ d.proposers) : d.mark node b = (none, d) := by
  rw [mark, if_neg (by simpa using h)]

/-- A call on a proposer elects over the new marks, and reports the leader if it has changed. -/
theorem mark_of_mem (h : node ∈ d.proposers) :
    let newLeader := { d with suspected := d.suspected.insert node b }.recomputeLeader
    d.mark node b =
      (if newLeader ≠ d.lastLeader then newLeader else none,
        { d with suspected := d.suspected.insert node b, lastLeader := newLeader }) := by
  intro newLeader
  have hcontains : d.proposers.contains node = true := by simpa using h
  rw [mark, if_pos hcontains]
  change (if newLeader ≠ d.lastLeader then _ else _) = _
  by_cases hne : newLeader = d.lastLeader
  · simp [hne]
  · simp [hne, newLeader]

@[simp] theorem proposers_mark : (d.mark node b).2.proposers = d.proposers := by
  by_cases h : node ∈ d.proposers
  · rw [mark_of_mem d node b h]
  · rw [mark_of_notMem d node b h]

theorem suspects_mark (id : NodeId) :
    (d.mark node b).2.suspects id = if id = node ∧ node ∈ d.proposers then b else d.suspects id := by
  by_cases h : node ∈ d.proposers
  · rw [mark_of_mem d node b h, suspects, OrdMap.get?_insert]
    simp only [h, and_true]
    split <;> rfl
  · rw [mark_of_notMem d node b h]
    simp [h]

/-- The verdict is the leader after the call, when the call has changed it. -/
theorem mark_fst :
    (d.mark node b).1 =
      if (d.mark node b).2.lastLeader ≠ d.lastLeader then (d.mark node b).2.lastLeader else none := by
  by_cases h : node ∈ d.proposers
  · rw [mark_of_mem d node b h]
  · rw [mark_of_notMem d node b h]
    simp

variable {d}

/-- A call leaves the leader up to date. -/
theorem Elected.mark (hd : d.Elected) : (d.mark node b).2.Elected := by
  by_cases h : node ∈ d.proposers
  · rw [mark_of_mem d node b h]
    rfl
  · rw [mark_of_notMem d node b h]
    exact hd

end Mark

end LeaderDetector

end PaxosWasm
