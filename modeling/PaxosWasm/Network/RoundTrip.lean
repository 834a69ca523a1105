import PaxosWasm.Network.ReadBack

/-!
# What comes back of a message

The frame gives the text back, and the text falls into its two halves unless one of them contains a
double bar. So a message whose strings imitate no delimiter comes back as it was or not at all: not
at all if it holds a `set` or an empty list of slots, and as something else only where a string or a
value has the text of a missing one.

Three layers are undone one after the other: the frame, the double bar between sender and payload, and
the payload. Each has its own exact condition, and the conditions together give `roundTrip_iff` for
messages whose strings are plain. The format escapes nothing, so a client name with a comma in it makes
other fields, as the last section shows.
-/

namespace PaxosWasm

open Library Library.Text

namespace Serializer

/-! ## The frame

The length prefix counts the bytes of the text, and the receiver decodes exactly these. A text of 2 ^ 32
bytes or more has no frame. -/

/-- What the receiver gets of a message. -/
def roundTrip (m : NetworkMessage) : Except String NetworkMessage := serialize m >>= tryDeserialize

/-- **The frame gives the text back.** -/
theorem tryDeserialize_frame {text : String} (hshort : text.utf8ByteSize < 2 ^ 32) :
    tryDeserialize (toBeBytes text.utf8ByteSize ++ text.toUTF8.data.toList) =
      deserializeString text := by
  have hlen : text.toUTF8.data.toList.length = text.utf8ByteSize := rfl
  have hfour : (toBeBytes text.utf8ByteSize).length = 4 := rfl
  have htake : (toBeBytes text.utf8ByteSize ++ text.toUTF8.data.toList).take 4 =
      toBeBytes text.utf8ByteSize := by rw [← hfour, List.take_left]
  have hdrop : (toBeBytes text.utf8ByteSize ++ text.toUTF8.data.toList).drop 4 =
      text.toUTF8.data.toList := by rw [← hfour, List.drop_left]
  have hutf8 : String.fromUTF8? ⟨text.toUTF8.data.toList.toArray⟩ = some text := by
    rw [Array.toArray_toList]
    exact dif_pos text.isValidUTF8
  unfold tryDeserialize
  rw [if_neg (by rw [List.length_append, hfour]; omega), htake, hdrop, fromBeBytes_toBeBytes hshort,
    if_neg (fun h => h hlen), hutf8]

theorem roundTrip_eq (m : NetworkMessage) :
    roundTrip m = if (formatted m).utf8ByteSize < 2 ^ 32 then deserializeString (formatted m)
      else .error "Message too long" := by
  unfold roundTrip serialize
  generalize formatted m = text
  have hlen : text.toUTF8.data.toList.length = text.utf8ByteSize := rfl
  dsimp only
  rw [hlen]
  split
  · next hshort => exact tryDeserialize_frame hshort
  · rfl

/-! ## The two halves

A message is the text of its sender and that of its payload, with a double bar between them. It falls
into these two halves if there is no other double bar. -/

/-- No double bar in a text. -/
abbrev NoBars (s : String) : Prop := ¬ ['|', '|'] <:+: s.toList

theorem noBars_append_left {s t : String} (hs : Free '|' s) : NoBars (s ++ t) ↔ NoBars t := by
  rw [NoBars, NoBars, String.toList_append]
  exact not_congr ⟨infix_of_append_left hs, fun h => h.trans (List.suffix_append _ _).isInfix⟩

theorem noBars_append_right {s t : String} (ht : Free '|' t) : NoBars (s ++ t) ↔ NoBars s := by
  rw [NoBars, NoBars, String.toList_append]
  exact not_congr ⟨infix_of_append_right ht, fun h => h.trans (List.prefix_append _ _).isInfix⟩

theorem noBars_of_free {s : String} (h : Free '|' s) : NoBars s :=
  fun hpart => h (hpart.subset (List.mem_cons_self ..))

/-- A text joined by a double bar has two parts exactly if there is no other. -/
theorem splitStr_bars {s t : String} (hend : s.toList.getLast? ≠ some '|') :
    (NoBars s ∧ NoBars t ∧ splitStr (s ++ "||" ++ t) "||" = [s, t]) ∨
      (¬ (NoBars s ∧ NoBars t) ∧ (splitStr (s ++ "||" ++ t) "||").length ≠ 2) := by
  have hpat : ['|', '|'] ≠ [] := List.cons_ne_nil _ _
  have hsplit : splitStr (s ++ "||" ++ t) "||" =
      (cutAll ['|', '|'] s.toList.length s.toList ++
        cutAll ['|', '|'] t.toList.length t.toList).map String.ofList := by
    rw [← cutAll_append_pair hend]
    simp only [splitStr, String.toList_append]
    rfl
  have hs := length_cutAll_pos (s := s.toList) hpat
  have ht := length_cutAll_pos (s := t.toList) hpat
  by_cases hbars : NoBars s ∧ NoBars t
  · left
    refine ⟨hbars.1, hbars.2, ?_⟩
    rw [hsplit, cutAll_of_none (cut_eq_none_iff.mpr hbars.1),
      cutAll_of_none (cut_eq_none_iff.mpr hbars.2)]
    simp
  · right
    refine ⟨hbars, fun htwo => hbars ?_⟩
    rw [hsplit, List.length_map, List.length_append] at htwo
    exact ⟨cut_eq_none_iff.mp ((length_cutAll_eq_one hpat).mp (by omega)),
      cut_eq_none_iff.mp ((length_cutAll_eq_one hpat).mp (by omega))⟩

theorem serializeNode_eq (n : Node) : serializeNode n =
    "node_id:" ++ toString n.nodeId ++ ",address:" ++ n.address ++ (",role:" ++ serializeRole n.role) := by
  apply String.toList_inj.mp
  simp [serializeNode, toList_join, keyed]

/-- The text of a node ends in a letter. -/
theorem getLast?_serializeNode (n : Node) : (serializeNode n).toList.getLast? ≠ some '|' := by
  have hrole : ∀ role, (",role:" ++ serializeRole role).toList.getLast? = some 'r' ∨
      (",role:" ++ serializeRole role).toList.getLast? = some 't' := by
    intro role
    cases role <;> decide
  rw [serializeNode_eq, String.toList_append, List.getLast?_append]
  rcases hrole n.role with h | h
  · rw [h, Option.some_or]
    decide
  · rw [h, Option.some_or]
    decide

/-- **A text comes back as a message** exactly if it falls into its two halves and both are read. -/
theorem deserializeString_formatted {m m' : NetworkMessage} :
    deserializeString (formatted m) = .ok m' ↔
      (NoBars (serializeNode m.sender) ∧ NoBars (serializeMessagePayload m.payload)) ∧
        deserializeNode (serializeNode m.sender) = .ok m'.sender ∧
        deserializeMessagePayload (serializeMessagePayload m.payload) = .ok m'.payload := by
  have hsender : NoBars ("sender=" ++ serializeNode m.sender) ↔ NoBars (serializeNode m.sender) :=
    noBars_append_left (by decide)
  have hpayload : NoBars ("payload=" ++ serializeMessagePayload m.payload) ↔
      NoBars (serializeMessagePayload m.payload) := noBars_append_left (by decide)
  have hend : ("sender=" ++ serializeNode m.sender).toList.getLast? ≠ some '|' := by
    have hlast := getLast?_serializeNode m.sender
    rw [String.toList_append, List.getLast?_append]
    cases h : (serializeNode m.sender).toList.getLast? with
    | none => decide
    | some c =>
        rw [h] at hlast
        exact hlast
  have htext : formatted m = ("sender=" ++ serializeNode m.sender) ++ "||" ++
      ("payload=" ++ serializeMessagePayload m.payload) := by
    simp only [formatted, String.append_assoc]
  unfold deserializeString
  rw [htext]
  rcases splitStr_bars (t := "payload=" ++ serializeMessagePayload m.payload) hend with
    ⟨hs, hp, hparts⟩ | ⟨hbars, hparts⟩
  · rw [hparts]
    dsimp only
    rw [stripPrefix_append, stripPrefix_append]
    have hboth : NoBars (serializeNode m.sender) ∧ NoBars (serializeMessagePayload m.payload) :=
      ⟨hsender.mp hs, hpayload.mp hp⟩
    rw [iff_true_intro hboth, true_and]
    cases hsender' : deserializeNode (serializeNode m.sender) with
    | error e => simp [bind, Except.bind, Except.mapError, hsender']
    | ok sender =>
        cases hpayload' : deserializeMessagePayload (serializeMessagePayload m.payload) with
        | error e => simp [bind, Except.bind, Except.mapError, hsender', hpayload']
        | ok payload =>
            obtain ⟨sender', payload'⟩ := m'
            simp [bind, Except.bind, Except.mapError, hsender', hpayload']
  · have hnot : ¬ (NoBars (serializeNode m.sender) ∧ NoBars (serializeMessagePayload m.payload)) :=
      fun h => hbars ⟨hsender.mpr h.1, hpayload.mpr h.2⟩
    rw [iff_false_intro hnot, false_and, iff_false]
    split
    · next he =>
      rw [he] at hparts
      exact absurd rfl hparts
    · simp

/-! ## The sender

A comma in its address would end the field of the address. Its id and its role have none. -/

/-- The text of a node has a double bar exactly if the address has. -/
theorem noBars_serializeNode (n : Node) : NoBars (serializeNode n) ↔ NoBars n.address := by
  have hrole : Free '|' (",role:" ++ serializeRole n.role) := by
    cases n.role <;> decide
  have hid : Free '|' ("node_id:" ++ toString n.nodeId ++ ",address:") := by
    have := free_toString (c := '|') (by decide) n.nodeId
    simp [Free] at this ⊢
    exact this
  rw [serializeNode_eq, noBars_append_right hrole, noBars_append_left hid]

/-- What is read has been a field, which has no comma. -/
theorem free_of_field {name value s : String} (h : field name (split s ',') = some value) :
    Free ',' value := by
  have hmem := List.mem_of_getLast? h
  obtain ⟨part, hpart, hvalue⟩ := List.mem_filterMap.mp hmem
  have hfree := free_of_mem_split hpart
  rw [eq_keyed_of_value? hvalue] at hfree
  simp [Free, keyed] at hfree ⊢
  exact hfree.2

theorem address_of_deserializeNode {s : String} {n : Node} (h : deserializeNode s = .ok n) :
    field "address" (split s ',') = some n.address := by
  unfold deserializeNode at h
  cases hroles : ((split s ',').filterMap (value? "role")).mapM deserializeRole with
  | error e => simp [bind, Except.bind, hroles] at h
  | ok roles =>
      simp only [bind, Except.bind, hroles] at h
      split at h
      · next haddress _ =>
        rw [haddress, ← Except.ok.inj h]
      · cases h

theorem deserializeRole_serializeRole (role : PaxosRole) :
    deserializeRole (serializeRole role) = .ok role := by
  cases role <;> rfl

/-- **A node comes back** exactly if there is no comma in its address. -/
theorem deserializeNode_serializeNode {n : Node} (hid : n.nodeId < 2 ^ 64) :
    deserializeNode (serializeNode n) = .ok n ↔ Free ',' n.address := by
  constructor
  · exact fun h => free_of_field (address_of_deserializeNode h)
  · intro hfree
    have hparts : split (serializeNode n) ',' = [keyed "node_id" (toString n.nodeId),
        keyed "address" n.address, keyed "role" (serializeRole n.role)] := by
      refine split_join_of_free (fun s hs => ?_) (List.cons_ne_nil _ _)
      have hrole : Free ',' (serializeRole n.role) := by cases n.role <;> decide
      simp only [List.mem_cons, List.not_mem_nil, or_false] at hs
      rcases hs with rfl | rfl | rfl
      · exact free_keyed (by decide) (by decide) (free_toString (by decide) _)
      · exact free_keyed (by decide) (by decide) hfree
      · exact free_keyed (by decide) (by decide) hrole
    have hnode : number "node_id" [keyed "node_id" (toString n.nodeId),
        keyed "address" n.address, keyed "role" (serializeRole n.role)] = some n.nodeId := by
      refine number_eq ?_ hid
      simp (disch := decide) [field_cons, field_nil, value?_keyed]
    have haddress : field "address" [keyed "node_id" (toString n.nodeId),
        keyed "address" n.address, keyed "role" (serializeRole n.role)] = some n.address := by
      simp (disch := decide) [field_cons, field_nil, value?_keyed]
    have hroles : [keyed "node_id" (toString n.nodeId), keyed "address" n.address,
        keyed "role" (serializeRole n.role)].filterMap (value? "role") = [serializeRole n.role] := by
      simp (disch := decide) [List.filterMap_cons, value?_keyed]
    unfold deserializeNode
    rw [hparts]
    dsimp only
    rw [hroles, hnode, haddress]
    simp [bind, Except.bind, pure, Except.pure, deserializeRole_serializeRole]

/-! ## Bars in a payload

The lists join their entries by single bars. Two bars would come together at an empty entry only, and no
entry has the empty text. -/

theorem toString_ne_empty (n : Nat) : toString n ≠ "" := by
  rw [Nat.toString_eq_repr]
  intro h
  have := congrArg String.toList h
  rw [Nat.toList_repr] at this
  exact Nat.toDigits_ne_nil this

theorem bar_free_number {name : String} (hname : Free '|' name) (n : Nat) :
    Free '|' (keyed name (toString n)) := free_keyed (by decide) hname (free_toString (by decide) n)

theorem bar_free_success (b : Bool) : Free '|' (keyed "success" (toString b)) := by
  cases b <;> decide

/-- Fields without bars. -/
theorem noBars_fields {parts : List String} (h : ∀ s ∈ parts, Free '|' s) : NoBars (join ',' parts) := by
  have hc : Delimiter '|' := Or.inl rfl
  exact noBars_of_free (hc.join h)

/-- Records without bars, joined by single ones, between texts without bars. -/
theorem noBars_records {before after : String} {records : List String} (hbefore : Free '|' before)
    (hafter : Free '|' after) (hrecords : ∀ s ∈ records, Free '|' s) (hne : ∀ s ∈ records, s ≠ "") :
    NoBars (before ++ join '|' records ++ after) := by
  rw [noBars_append_right hafter, noBars_append_left hbefore]
  exact (not_doubled_join hrecords hne).1

theorem noBars_listed {kind name : String} {fields records : List String}
    (hfields : ∀ s ∈ kind :: fields, Free '|' s) (hname : Free '|' name)
    (hrecords : ∀ s ∈ records, Free '|' s) (hne : ∀ s ∈ records, s ≠ "") :
    NoBars (listed kind fields name (join '|' records)) := by
  have hc : Delimiter '|' := Or.inl rfl
  have hheader : Free '|' (join ',' (kind :: fields) ++ "," ++ (name ++ String.singleton '[')) := by
    have hjoin := hc.join hfields
    simp [Free] at hjoin hname ⊢
    exact ⟨hjoin, hname⟩
  rw [listed, ← String.append_assoc]
  exact noBars_records hheader (by decide) hrecords hne

theorem noBars_retryLearns (retries : RetryLearns) :
    NoBars (serializeMessagePayload (.retryLearns retries)) := by
  have htext : serializeMessagePayload (.retryLearns retries) =
      "retry-learns,slots:" ++ join '|' (retries.slots.map toString) ++ "" := by
    apply String.toList_inj.mp
    simp [serializeMessagePayload, join_cons, join_singleton, keyed]
  rw [htext]
  apply noBars_records (by decide) (by decide)
  · intro s hs
    obtain ⟨slot, _, rfl⟩ := List.mem_map.mp hs
    exact free_toString (by decide) _
  · intro s hs
    obtain ⟨slot, _, rfl⟩ := List.mem_map.mp hs
    exact toString_ne_empty slot

theorem noBars_promise {pr : Promise} (h : ∀ s ∈ texts (.promise pr), Free '|' s) :
    NoBars (serializeMessagePayload (.promise pr)) := by
  have hc : Delimiter '|' := Or.inl rfl
  have hfields : ∀ s ∈ "promise" :: promiseFields pr, Free '|' s := by
    simp only [promiseFields, List.forall_mem_cons]
    exact ⟨by decide, bar_free_number (by decide) _, bar_free_number (by decide) _, by simp⟩
  have hrecords : ∀ pv ∈ pr.accepted, Free '|' (serializePValue pv) :=
    fun pv hpv => hc.serializePValue (fun t ht => h t (List.mem_flatMap.mpr ⟨pv, hpv, ht⟩))
  by_cases hnil : pr.accepted = []
  · have htext : serializeMessagePayload (.promise pr) = join ',' ("promise" :: promiseFields pr) := by
      simp only [serializeMessagePayload, hnil]
      rfl
    rw [htext]
    exact noBars_fields hfields
  · rw [serialize_promise hnil hrecords]
    apply noBars_listed hfields (by decide)
    · intro s hs
      obtain ⟨pv, hpv, rfl⟩ := List.mem_map.mp hs
      exact hrecords pv hpv
    · intro s hs
      obtain ⟨pv, _, rfl⟩ := List.mem_map.mp hs
      exact serializePValue_ne pv

theorem noBars_executed {exec : Executed} (h : ∀ s ∈ texts (.executed exec), Free '|' s) :
    NoBars (serializeMessagePayload (.executed exec)) := by
  have hc : Delimiter '|' := Or.inl rfl
  rw [serialize_executed]
  apply noBars_listed _ (by decide)
  · intro s hs
    obtain ⟨r, hr, rfl⟩ := List.mem_map.mp hs
    exact hc.serializeResult
      (fun t ht => h t (List.mem_flatMap.mpr ⟨r, hr, List.mem_append_left _ ht⟩))
      (fun t ht => h t (List.mem_flatMap.mpr ⟨r, hr, List.mem_append_right _ ht⟩))
  · intro s hs
    obtain ⟨r, _, rfl⟩ := List.mem_map.mp hs
    exact serializeResult_ne r
  · simp only [executedFields, List.forall_mem_cons]
    exact ⟨by decide, bar_free_number (by decide) _, by simp⟩

/-- Texts without bars make no double bar, although the lists are joined by single ones. -/
theorem noBars_payload {p : MessagePayload} (h : ∀ s ∈ texts p, Free '|' s) :
    NoBars (serializeMessagePayload p) := by
  have hc : Delimiter '|' := Or.inl rfl
  cases p with
  | ignore => exact noBars_of_free (by decide)
  | heartbeat => exact noBars_of_free (by decide)
  | retryLearns retries => exact noBars_retryLearns retries
  | promise pr => exact noBars_promise h
  | executed exec => exact noBars_executed h
  | clientRequest v =>
      apply noBars_fields
      simp only [List.forall_mem_cons]
      exact ⟨by decide, hc.valueFields h⟩
  | accept a =>
      apply noBars_fields
      simp only [List.forall_mem_cons]
      exact ⟨by decide, bar_free_number (by decide) _, bar_free_number (by decide) _, hc.valueFields h⟩
  | learn l =>
      apply noBars_fields
      simp only [List.forall_mem_cons]
      exact ⟨by decide, bar_free_number (by decide) _, hc.valueFields h⟩
  | clientResponse cr =>
      apply noBars_fields
      simp only [List.forall_mem_cons]
      exact ⟨by decide, free_keyed (by decide) (by decide) (h _ (List.mem_cons_self ..)),
        bar_free_number (by decide) _, bar_free_success _, free_keyed (by decide) (by decide)
          (free_serializeCmdResult (by decide) (by decide)
            (fun s hs => h s (List.mem_cons_of_mem _ hs))), by simp⟩
  | prepare p =>
      apply noBars_fields
      simp only [List.forall_mem_cons]
      exact ⟨by decide, bar_free_number (by decide) _, bar_free_number (by decide) _, by simp⟩
  | accepted a =>
      apply noBars_fields
      simp only [List.forall_mem_cons]
      exact ⟨by decide, bar_free_number (by decide) _, bar_free_number (by decide) _,
        bar_free_success _, by simp⟩
  | benchmark b =>
      apply noBars_fields
      simp only [List.forall_mem_cons]
      exact ⟨by decide, bar_free_number (by decide) _,
        free_keyed (by decide) (by decide) (h _ (List.mem_singleton_self _)), by simp⟩
  | adu slot =>
      apply noBars_fields
      simp only [List.forall_mem_cons]
      exact ⟨by decide, free_toString (by decide) _, by simp⟩

/-! ## Normal forms

A payload that is its own normal form is one in which nothing has the text of something else. -/

/-- Nothing in the payload has the text of something else. -/
def Unambiguous : MessagePayload → Prop
  | .clientResponse cr => cr.commandResult ≠ .cmdValue (some "none")
  | .promise pr => ∀ pv ∈ pr.accepted, ∀ v, pv.value = some v → v.command ≠ none
  | .executed exec => ∀ r ∈ exec.results, r.cmdResult ≠ .cmdValue (some "none")
  | _ => True

theorem normalResult_eq_iff {r : CmdResult} : normalResult r = r ↔ r ≠ .cmdValue (some "none") := by
  cases r with
  | noOp => simp [normalResult]
  | cmdValue v =>
      cases v with
      | none => simp [normalResult]
      | some v =>
          unfold normalResult
          dsimp only
          split
          · next h => simp [h]
          · next h => simp [h]

theorem normalPValue_eq_iff {pv : PValue} :
    normalPValue pv = pv ↔ ∀ v, pv.value = some v → v.command ≠ none := by
  obtain ⟨slot, ballot, value⟩ := pv
  cases value with
  | none => simp [normalPValue]
  | some v => cases hv : v.command <;> simp [normalPValue, Option.filter, hv]

theorem map_eq_self_iff {α : Type} {f : α → α} {xs : List α} : xs.map f = xs ↔ ∀ x ∈ xs, f x = x := by
  conv_lhs => rhs; rw [← List.map_id xs]
  exact List.map_inj_left

theorem normal_eq_iff {p : MessagePayload} : normal p = p ↔ Unambiguous p := by
  cases p with
  | clientResponse cr =>
      obtain ⟨clientId, clientSeq, success, result⟩ := cr
      simp [normal, Unambiguous, ← normalResult_eq_iff]
  | promise pr =>
      obtain ⟨slot, ballot, accepted⟩ := pr
      simp only [normal, Unambiguous, ← normalPValue_eq_iff, ← map_eq_self_iff]
      simp
  | executed exec =>
      obtain ⟨results, adu⟩ := exec
      simp only [normal, Unambiguous, ← normalResult_eq_iff, MessagePayload.executed.injEq,
        Executed.mk.injEq, and_true, map_eq_self_iff]
      refine forall_congr' (fun r => forall_congr' (fun _ => ?_))
      obtain ⟨value, slot, success, cmdResult⟩ := r
      simp
  | _ => simp [normal, Unambiguous]

/-! ## Messages that come back -/

/-- No string that the text format could take for something else than a string. -/
def Plain (s : String) : Prop := Free ',' s ∧ Free '|' s ∧ Free ']' s

/-- **A message with plain strings comes back** exactly if it is short enough, if its address is not
cut, and if its payload is read and ambiguous nowhere. -/
theorem roundTrip_iff {m : NetworkMessage} (hid : m.sender.nodeId < 2 ^ 64) (hrange : InRange m.payload)
    (hplain : ∀ s ∈ texts m.payload, Plain s) :
    roundTrip m = .ok m ↔ (formatted m).utf8ByteSize < 2 ^ 32 ∧
      (Free ',' m.sender.address ∧ NoBars m.sender.address) ∧
      Readable m.payload ∧ Unambiguous m.payload := by
  have hclean : Clean m.payload :=
    ⟨fun s hs => (hplain s hs).1, fun _ s hs => (hplain s hs).2⟩
  have hbars := noBars_payload (fun s hs => (hplain s hs).2.1)
  rw [roundTrip_eq]
  split
  · next hshort =>
    rw [deserializeString_formatted, noBars_serializeNode, deserializeNode_serializeNode hid]
    have hpayload : deserializeMessagePayload (serializeMessagePayload m.payload) = .ok m.payload ↔
        Readable m.payload ∧ Unambiguous m.payload := by
      rw [← normal_eq_iff]
      rcases readsBack hrange hclean with ⟨hread, h⟩ | ⟨hread, e, h⟩
      · simp [h, hread]
      · simp [h, hread]
    rw [hpayload]
    constructor
    · rintro ⟨⟨haddress, _⟩, hcomma, hread⟩
      exact ⟨hshort, ⟨hcomma, haddress⟩, hread⟩
    · rintro ⟨_, ⟨hcomma, haddress⟩, hread⟩
      exact ⟨⟨haddress, hbars⟩, hcomma, hread⟩
  · next hlong => exact iff_of_false (fun h => nomatch h) (fun h => hlong h.1)

/-! ### Messages with one value

Of these only the ones with a `set` are lost for their payload. -/

/-- A client request, an accept or a learn of a value. -/
def CarriesValue (p : MessagePayload) (v : Value) : Prop :=
  p = .clientRequest v ∨ (∃ slot ballot, p = .accept { slot, ballot, value := v }) ∨
    ∃ slot, p = .learn { slot, value := v }

/-- **A message with one value comes back** exactly if its command is not a `set`, it is short
enough, and the address of its sender is not cut. -/
theorem value_comes_back_iff {m : NetworkMessage} {v : Value} (hvalue : CarriesValue m.payload v)
    (hid : m.sender.nodeId < 2 ^ 64) (hrange : InRange m.payload)
    (hplain : ∀ s ∈ valueTexts v, Plain s) :
    roundTrip m = .ok m ↔ ¬ IsSet v.command ∧ (formatted m).utf8ByteSize < 2 ^ 32 ∧
      Free ',' m.sender.address ∧ NoBars m.sender.address := by
  have hp : texts m.payload = valueTexts v ∧ cmds m.payload = [v.command] ∧
      m.payload ≠ .retryLearns { slots := [] } ∧ Unambiguous m.payload := by
    rcases hvalue with h | ⟨slot, ballot, h⟩ | ⟨slot, h⟩ <;>
      exact h ▸ ⟨rfl, rfl, by simp, trivial⟩
  obtain ⟨htexts, hcmds, hretry, hunambiguous⟩ := hp
  have hread : Readable m.payload ↔ ¬ IsSet v.command := by
    rw [Readable, hcmds, List.forall_mem_singleton]
    exact ⟨fun h => h.1, fun h => ⟨h, hretry⟩⟩
  rw [roundTrip_iff hid hrange (by rw [htexts]; exact hplain), hread]
  constructor
  · rintro ⟨hshort, haddress, hset, _⟩
    exact ⟨hset, hshort, haddress⟩
  · rintro ⟨hset, hshort, haddress⟩
    exact ⟨hshort, haddress, hset, hunambiguous⟩

/-- A proposer at a plain address. -/
def plainSender : Node := { nodeId := 1, address := "10.0.0.1", role := .proposer }

/-- A client's request to set a key. -/
def setRequest : NetworkMessage :=
  { sender := plainSender, payload := .clientRequest (setX "a") }

/-- A client's request to remove it. -/
def removeRequest : NetworkMessage :=
  { sender := plainSender
    payload := .clientRequest { command := some (.remove "x"), clientId := "c", clientSeq := 1 } }

theorem removeRequest_comes_back_iff :
    roundTrip removeRequest = .ok removeRequest ↔
      ¬ IsSet (some (.remove "x")) ∧ (formatted removeRequest).utf8ByteSize < 2 ^ 32 ∧
        Free ',' plainSender.address ∧ NoBars plainSender.address :=
  value_comes_back_iff (m := removeRequest)
    (v := { command := some (.remove "x"), clientId := "c", clientSeq := 1 }) (Or.inl rfl)
    (by decide) (show 1 < 2 ^ 64 by decide) (by simp [valueTexts, cmdTexts, Plain, Free])

/-- **A `set` does not come back**: the comma between its key and its value ends the operation. -/
theorem set_is_cut : roundTrip setRequest = .error "Failed to deserialize payload: bad op" := by decide

/-! ### Messages with a list

Here an empty list of slots is lost, and a reported value without a command does not come back as it was. -/

/-- A promise, a report of results or a request for learns. -/
def CarriesList : MessagePayload → Prop
  | .promise _ => True
  | .executed _ => True
  | .retryLearns _ => True
  | _ => False

/-- **A message with a list comes back** exactly if a list of slots is not empty, a promise reports
no value without a command, it is short enough, and the address of its sender is not cut. -/
theorem list_comes_back_iff {m : NetworkMessage} (hlist : CarriesList m.payload)
    (hid : m.sender.nodeId < 2 ^ 64) (hrange : InRange m.payload)
    (hset : ∀ cmd ∈ cmds m.payload, ¬ IsSet cmd)
    (hplain : ∀ s ∈ texts m.payload, Plain s ∧ s ≠ "none") :
    roundTrip m = .ok m ↔ m.payload ≠ .retryLearns { slots := [] } ∧
      (∀ pr, m.payload = .promise pr → ∀ pv ∈ pr.accepted, ∀ v, pv.value = some v → v.command ≠ none) ∧
      (formatted m).utf8ByteSize < 2 ^ 32 ∧ Free ',' m.sender.address ∧ NoBars m.sender.address := by
  have hunambiguous : Unambiguous m.payload ↔ ∀ pr, m.payload = .promise pr →
      ∀ pv ∈ pr.accepted, ∀ v, pv.value = some v → v.command ≠ none := by
    obtain ⟨sender, payload⟩ := m
    cases payload with
    | promise pr => exact ⟨fun h _ he => (MessagePayload.promise.inj he) ▸ h, fun h => h pr rfl⟩
    | executed exec =>
        refine ⟨fun _ _ he => (by cases he), fun _ r hr hnone => ?_⟩
        have hmem : "none" ∈ texts (.executed exec) := by
          refine List.mem_flatMap.mpr ⟨r, hr, List.mem_append_right _ ?_⟩
          rw [hnone]
          exact List.mem_singleton_self _
        exact (hplain _ hmem).2 rfl
    | retryLearns retries => exact ⟨fun _ _ he => (by cases he), fun _ => trivial⟩
    | _ => exact hlist.elim
  rw [roundTrip_iff hid hrange (fun s hs => (hplain s hs).1), hunambiguous]
  constructor
  · rintro ⟨hshort, haddress, hread, hvalues⟩
    exact ⟨hread.2, hvalues, hshort, haddress⟩
  · rintro ⟨hretry, hvalues, hshort, haddress⟩
    exact ⟨hshort, haddress, ⟨hset, hretry⟩, hvalues⟩

/-- Nothing to ask for. -/
def emptyRetry : NetworkMessage := { sender := plainSender, payload := .retryLearns { slots := [] } }

/-- A promise that reports two values, and between them a slot without one. -/
def promiseOfThree : NetworkMessage :=
  { sender := plainSender
    payload := .promise
      { slot := 2
        ballot := 5
        accepted :=
          [⟨2, 3, some { command := some (.get "x"), clientId := "c", clientSeq := 1 }⟩, ⟨3, 0, none⟩,
            ⟨4, 5, some { command := some (.remove "y"), clientId := "d", clientSeq := 7 }⟩] } }

theorem promiseOfThree_comes_back_iff :
    roundTrip promiseOfThree = .ok promiseOfThree ↔
      promiseOfThree.payload ≠ .retryLearns { slots := [] } ∧
      (∀ pr, promiseOfThree.payload = .promise pr →
        ∀ pv ∈ pr.accepted, ∀ v, pv.value = some v → v.command ≠ none) ∧
      (formatted promiseOfThree).utf8ByteSize < 2 ^ 32 ∧
      Free ',' plainSender.address ∧ NoBars plainSender.address :=
  list_comes_back_iff (m := promiseOfThree) trivial (by decide) (by simp [InRange, promiseOfThree])
    (by simp [cmds, promiseOfThree, IsSet])
    (by simp [texts, promiseOfThree, valueTexts, cmdTexts, Plain, Free])

/-- **An empty list of slots does not come back**: it reads as one slot without digits. -/
theorem empty_retry_is_bad :
    roundTrip emptyRetry = .error "Failed to deserialize payload: bad slot" := by decide

/-! ### Messages that come back changed -/

/-- **Nothing else comes back.** A message whose strings contain no comma, and in a list of records no
bar and no closing bracket, and which is ambiguous nowhere comes back as it was or not at all. -/
theorem comes_back_or_fails {m : NetworkMessage} (hid : m.sender.nodeId < 2 ^ 64)
    (hrange : InRange m.payload) (haddress : Free ',' m.sender.address) (hclean : Clean m.payload)
    (hunambiguous : Unambiguous m.payload) : roundTrip m = .ok m ∨ ∃ e, roundTrip m = .error e := by
  cases h : roundTrip m with
  | error e => exact Or.inr ⟨e, rfl⟩
  | ok m' =>
      rw [roundTrip_eq] at h
      split at h
      · obtain ⟨_, hsender, hpayload⟩ := deserializeString_formatted.mp h
        rw [(deserializeNode_serializeNode hid).mpr haddress] at hsender
        rcases readsBack hrange hclean with ⟨_, hread⟩ | ⟨_, e, hread⟩
        · rw [hread, normal_eq_iff.mpr hunambiguous] at hpayload
          obtain ⟨sender, payload⟩ := m
          obtain ⟨sender', payload'⟩ := m'
          left
          rw [show sender = sender' from Except.ok.inj hsender,
            show payload = payload' from Except.ok.inj hpayload]
        · rw [hread] at hpayload
          cases hpayload
      · cases h

theorem setRequest_comes_back_or_fails :
    roundTrip setRequest = .ok setRequest ∨ ∃ e, roundTrip setRequest = .error e :=
  comes_back_or_fails (m := setRequest) (by decide) (show 1 < 2 ^ 64 by decide) (by decide)
    ⟨by simp [texts, setRequest, setX, valueTexts, cmdTexts, Free], fun h => h.elim⟩ trivial

/-- An accept of slot 1 for a client that calls itself `c,slot:9`. -/
def acceptFor (clientId : String) (slot : Slot) : NetworkMessage :=
  { sender := plainSender
    payload := .accept { slot, ballot := 1, value := { command := some .clear, clientId, clientSeq := 1 } } }

/-- **A client's name moves its request to another slot.** -/
theorem client_name_changes_slot :
    roundTrip (acceptFor "c,slot:9" 1) = .ok (acceptFor "c" 9) := by decide +kernel

end Serializer

end PaxosWasm
