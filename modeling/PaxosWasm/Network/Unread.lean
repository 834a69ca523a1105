import Mathlib.Algebra.Order.BigOperators.Group.Finset
import PaxosWasm.Network.Inbox

/-!
# What is left to read

A call stops early only behind a chunk, so it reads something if there is anything to read, whatever
the order of the connections and however few messages it is asked for. So as many calls as there are
reads to come get to the end of every connection (`exhausted_of_serve`).
-/

namespace PaxosWasm

open Library

variable {β : Type} {R : Reader β}

/-! ## A turn

Where there is something to read, a turn reads it. A call with a limit may stop before it has come to all
channels, but not before it has read from one. -/

/-- A read takes the first of what is to come. -/
theorem Channel.stream_after {buf? : Option (List UInt8)} {stream : InputStream} {reading : Reading β}
    (h : R.readFrom buf? stream = .ok reading) (ch : Channel β) :
    (ch.after reading).stream = some stream.tail := by
  unfold Reader.readFrom at h
  split at h
  · obtain rfl := Except.ok.inj h
    rfl
  · obtain rfl := Except.ok.inj h
    rfl
  · split at h
    · obtain rfl := Except.ok.inj h
      rfl
    · split at h
      · cases h
      · simp only [bind, Except.bind] at h
        split at h
        · cases h
        · obtain rfl := Except.ok.inj h
          rfl

namespace Poll

variable {p p' : Poll β} {chan c : Nat} {taken : Bool}

theorem Turned.stream {ch ch' : Channel β} (h : Turned R ch ch') :
    ∃ stream, ch.stream = some stream ∧ ch'.stream = some stream.tail := by
  obtain ⟨stream, reading, hstream, hread, rfl⟩ := h
  exact ⟨stream, hstream, Channel.stream_after hread ch⟩

/-- Where there is nothing to read, a turn takes in nothing and leaves the channel so. -/
theorem poll_of_empty (h : p.poll R chan = .ok (taken, p'))
    (hempty : ∀ stream, p.inbox.conns.get? chan = some stream → stream = []) :
    taken = false ∧ ∀ stream, p'.inbox.conns.get? chan = some stream → stream = [] := by
  unfold poll at h
  split at h
  · obtain ⟨rfl, rfl⟩ := Prod.mk.inj (Except.ok.inj h)
    exact ⟨rfl, hempty⟩
  · next stream hstream =>
    obtain rfl := hempty stream hstream
    obtain ⟨rfl, rfl⟩ := Prod.mk.inj (Except.ok.inj h)
    refine ⟨rfl, fun stream hs => ?_⟩
    rw [OrdMap.get?_insert_self] at hs
    exact (Option.some.inj hs).symm

/-- **The turns of a call read something**, if one of the channels has anything to read. -/
theorem pollEach_reads {limit : Option Nat} {order : List Nat} (hnodup : order.Nodup)
    (h : pollEach R limit order p = .ok p') :
    (∀ c ∈ order, ∀ stream, p.inbox.conns.get? c = some stream → stream = []) ∨
      ∃ c r rest, p.inbox.conns.get? c = some (r :: rest) ∧ p'.inbox.conns.get? c = some rest := by
  induction order generalizing p with
  | nil => exact Or.inl (fun c hc => absurd hc List.not_mem_nil)
  | cons chan order ih =>
      by_cases hempty : ∀ stream, p.inbox.conns.get? chan = some stream → stream = []
      · -- the others follow, since only a chunk ends the call
        unfold pollEach at h
        simp only [bind, Except.bind] at h
        split at h
        · cases h
        · next r hpoll =>
          obtain ⟨taken, q⟩ := r
          obtain ⟨hothers, -, -⟩ := poll_channel hpoll
          obtain ⟨rfl, hstill⟩ := poll_of_empty hpoll hempty
          have hsame : ∀ c, c ≠ chan → q.inbox.conns.get? c = p.inbox.conns.get? c :=
            fun c hc => congrArg Channel.stream (hothers c hc)
          replace h : pollEach R limit order q = .ok p' := by simpa using h
          rcases ih (List.nodup_cons.mp hnodup).2 h with hrest | ⟨c, r, rest, hget, hget'⟩
          · refine Or.inl (fun c hc => ?_)
            by_cases hself : c = chan
            · rw [hself]
              exact hempty
            · rw [← hsame c hself]
              exact hrest c ((List.mem_cons.mp hc).resolve_left hself)
          · refine Or.inr ⟨c, r, rest, ?_, hget'⟩
            rw [← hsame c (fun hself => ?_)]
            · exact hget
            · cases hstill _ (hself ▸ hget)
      · obtain ⟨stream, hstream, hne⟩ := by simpa using hempty
        obtain ⟨r, rest, rfl⟩ := List.exists_cons_of_ne_nil hne
        rcases pollEach_first hnodup h with hclosed | hturned
        · rw [hclosed] at hstream
          cases hstream
        · obtain ⟨stream', hstream', hafter⟩ := hturned.stream
          obtain rfl : r :: rest = stream' := Option.some.inj (hstream.symm.trans hstream')
          exact Or.inr ⟨chan, r, rest, hstream, hafter⟩

end Poll

/-! ## A call

What a call reads is no longer to come. It brings what the connections bring that it accepts. -/

namespace Inbox

variable {clears : Bool} {s s' : Inbox} {c : Nat} {stream : InputStream}

/-- How many reads of the channel are to come. -/
def toCome (s : Inbox) (c : Nat) : Nat := (s.conns.get? c).elim 0 List.length

/-- How many reads are to come. -/
def unread (s : Inbox) : Nat := ∑ c ∈ Finset.range s.nextChan, s.toCome c

theorem Exhausted.unread_eq_zero (h : s.Exhausted) : s.unread = 0 := by
  refine Finset.sum_eq_zero (fun c _ => ?_)
  unfold toCome
  cases hget : s.conns.get? c with
  | none => rfl
  | some stream =>
      rw [h c stream hget]
      rfl

theorem Numbered.exhausted (hs : s.Numbered) (h : s.unread = 0) : s.Exhausted := by
  intro c stream hget
  have hlt : c < s.nextChan := by
    by_contra hge
    rw [hs c (Nat.le_of_not_lt hge)] at hget
    cases hget
  have hzero := Finset.sum_eq_zero_iff.mp h c (Finset.mem_range.mpr hlt)
  rw [toCome, hget] at hzero
  exact List.length_eq_zero_iff.mp hzero

theorem unread_accept (s : Inbox) (stream : InputStream) :
    (s.accept stream).unread = s.unread + stream.length := by
  have hnew : (s.accept stream).toCome s.nextChan = stream.length := by
    rw [toCome, accept, OrdMap.get?_insert_self]
    rfl
  have hold : ∀ c ∈ Finset.range s.nextChan, (s.accept stream).toCome c = s.toCome c := by
    intro c hc
    rw [toCome, accept, OrdMap.get?_insert_of_ne _ _ (Finset.mem_range.mp hc).ne]
    rfl
  show ∑ c ∈ Finset.range (s.nextChan + 1), (s.accept stream).toCome c = _
  rw [Finset.sum_range_succ, hnew, Finset.sum_congr rfl hold, unread]

theorem unread_acceptAll (s : Inbox) (streams : List InputStream) :
    (s.acceptAll streams).unread = s.unread + (streams.map List.length).sum := by
  induction streams generalizing s with
  | nil => rfl
  | cons stream streams ih =>
      rw [acceptAll_cons, ih, unread_accept, List.map_cons, List.sum_cons, Nat.add_assoc]

/-- Cleaning up brings nothing to read. -/
theorem toCome_cleanUp (p : Poll β) (c : Nat) : (p.cleanUp clears).toCome c ≤ p.inbox.toCome c := by
  rw [toCome, Poll.cleanUp, OrdMap.get?_retain]
  split
  · exact le_refl _
  · exact Nat.zero_le _

/-- **A call reads**: with the connections it accepts there is less to come, or nothing. -/
theorem unread_call {call : Call} {out : List (Nat × β)} (hs : s.Numbered)
    (h : s.call R clears call = .ok (out, s')) :
    s'.unread ≤ s.unread + (call.accepted.map List.length).sum - 1 := by
  rw [← unread_acceptAll]
  obtain ⟨p, hp, rfl, rfl⟩ := call_eq_ok h
  have hnodup := nodup_iter (s.acceptAll call.accepted) call.order
  have hnext : (p.cleanUp clears).nextChan = (s.acceptAll call.accepted).nextChan :=
    (Poll.pollEach_channel hnodup hp).2
  -- on no channel is there more to come than before
  have hle : ∀ c, (p.cleanUp clears).toCome c ≤ (s.acceptAll call.accepted).toCome c := by
    intro c
    refine (toCome_cleanUp p c).trans ?_
    rcases (Poll.pollEach_channel hnodup hp).1 c with he | ⟨-, hturned⟩
    · have hsame : p.inbox.conns.get? c = _ := congrArg Channel.stream he
      rw [toCome, hsame]
      exact le_refl _
    · obtain ⟨stream, hstream, hafter⟩ := hturned.stream
      have hbefore : (s.acceptAll call.accepted).conns.get? c = some stream := hstream
      have hafter : p.inbox.conns.get? c = some stream.tail := hafter
      rw [toCome, toCome, hafter, hbefore]
      simp
  rcases Poll.pollEach_reads hnodup hp with hnone | ⟨c, r, rest, hget, hget'⟩
  · -- no channel had anything to read
    have hend : (s.acceptAll call.accepted).Exhausted := by
      intro c stream hget
      exact hnone c (mem_iter.mpr (OrdMap.mem_keys.mpr ⟨stream, hget⟩)) stream hget
    have hzero : (p.cleanUp clears).unread = 0 := by
      refine Finset.sum_eq_zero (fun c hc => ?_)
      rw [hnext] at hc
      have hsum := Finset.sum_eq_zero_iff.mp hend.unread_eq_zero c hc
      exact Nat.le_zero.mp (hsum ▸ hle c)
    rw [hzero]
    exact Nat.zero_le _
  · -- one of them was read
    refine Nat.le_sub_one_of_lt ?_
    rw [unread, hnext]
    refine Finset.sum_lt_sum (fun c _ => hle c) ⟨c, ?_, ?_⟩
    · rw [Finset.mem_range]
      by_contra hge
      have hclosed := hs.acceptAll call.accepted c (Nat.le_of_not_lt hge)
      rw [show _ = some (r :: rest) from hget] at hclosed
      cases hclosed
    · refine (toCome_cleanUp p c).trans_lt ?_
      have hbefore : (s.acceptAll call.accepted).conns.get? c = some (r :: rest) := hget
      rw [toCome, toCome, hget', hbefore]
      exact Nat.lt_succ_self _

/-! ## Call after call

As long as nothing new is accepted, each call reads something until nothing is left. -/

theorem numbered_serve {calls : List Call} {outs : List (List (Nat × β))} (hs : s.Numbered)
    (h : s.serve R clears calls = .ok (outs, s')) : s'.Numbered := by
  induction calls generalizing s outs with
  | nil =>
      obtain ⟨-, rfl⟩ := Prod.mk.inj (Except.ok.inj h)
      exact hs
  | cons call calls ih =>
      obtain ⟨out, s₁, outs, hcall, hserve, -⟩ := serve_cons h
      exact ih (hs.call hcall) hserve

/-- The reads that the connections of the calls bring. -/
def readsOf (calls : List Call) : Nat := ((acceptedBy calls).map List.length).sum

theorem readsOf_cons (call : Call) (calls : List Call) :
    readsOf (call :: calls) = (call.accepted.map List.length).sum + readsOf calls := by
  rw [readsOf, acceptedBy, List.flatMap_cons, List.map_append, List.sum_append]
  rfl

theorem unread_serve {calls : List Call} {outs : List (List (Nat × β))} (hs : s.Numbered)
    (h : s.serve R clears calls = .ok (outs, s')) : s'.unread ≤ s.unread + readsOf calls := by
  induction calls generalizing s outs with
  | nil =>
      obtain ⟨-, rfl⟩ := Prod.mk.inj (Except.ok.inj h)
      exact Nat.le_add_right _ _
  | cons call calls ih =>
      obtain ⟨out, s₁, outs, hcall, hserve, -⟩ := serve_cons h
      have hone := unread_call hs hcall
      have hrest := ih (hs.call hcall) hserve
      rw [readsOf_cons]
      omega

/-- Calls that accept nothing read one by one what is to come. -/
theorem unread_serve_of_none {calls : List Call} {outs : List (List (Nat × β))} (hs : s.Numbered)
    (h : s.serve R clears calls = .ok (outs, s')) (hnone : acceptedBy calls = []) :
    s'.unread ≤ s.unread - calls.length := by
  induction calls generalizing s outs with
  | nil =>
      obtain ⟨-, rfl⟩ := Prod.mk.inj (Except.ok.inj h)
      exact le_refl _
  | cons call calls ih =>
      obtain ⟨out, s₁, outs, hcall, hserve, -⟩ := serve_cons h
      obtain ⟨hfirst, hlater⟩ := List.append_eq_nil_iff.mp hnone
      have hone := unread_call hs hcall
      have hrest := ih (hs.call hcall) hserve hlater
      rw [hfirst, List.map_nil, List.sum_nil] at hone
      rw [List.length_cons]
      omega

/-- **Enough calls**: as many that accept nothing as there are reads to come of the connections accepted
before. -/
def Enough (calls : List Call) : Prop :=
  ∃ earlier later, calls = earlier ++ later ∧ acceptedBy later = [] ∧ readsOf earlier ≤ later.length

theorem serve_append {calls calls' : List Call} {outs : List (List (Nat × β))}
    (h : s.serve R clears (calls ++ calls') = .ok (outs, s')) :
    ∃ outs₁ outs₂ s₁, s.serve R clears calls = .ok (outs₁, s₁) ∧
      s₁.serve R clears calls' = .ok (outs₂, s') := by
  induction calls generalizing s outs with
  | nil => exact ⟨[], outs, s, rfl, h⟩
  | cons call calls ih =>
      obtain ⟨out, s₁, outs, hcall, hserve, -⟩ := serve_cons h
      obtain ⟨outs₁, outs₂, s₂, hfirst, hlater⟩ := ih hserve
      refine ⟨out :: outs₁, outs₂, s₂, ?_, hlater⟩
      unfold serve callEach
      simp only [bind, Except.bind, hcall]
      rw [show callEach (Inbox.call R clears) s₁ calls = .ok (outs₁, s₂) from hfirst]

/-- **Enough calls read everything.** -/
theorem exhausted_of_serve {calls : List Call} {outs : List (List (Nat × β))}
    (h : Inbox.new.serve R clears calls = .ok (outs, s')) (henough : Enough calls) : s'.Exhausted := by
  obtain ⟨earlier, later, rfl, hnone, hlength⟩ := henough
  obtain ⟨outs₁, outs₂, s₁, hfirst, hlater⟩ := serve_append h
  have hbefore := unread_serve numbered_new hfirst
  have hnumbered := numbered_serve numbered_new hfirst
  have hafter := unread_serve_of_none hnumbered hlater hnone
  have hnew : Inbox.new.unread = 0 := rfl
  exact (numbered_serve hnumbered hlater).exhausted (by omega)

end Inbox

end PaxosWasm
