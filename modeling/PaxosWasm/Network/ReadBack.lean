import PaxosWasm.Network.Serializer

/-!
# What is read of a payload

The text of a payload is cut at every comma, also at those of its strings. Where no string contains
one, and in a list of records no bar and no closing bracket, a payload reads as its normal form, in
which what has the text of something missing is missing. Only a `set`, cut between its key and its
value, and an empty list of slots cannot be read.

The cut parts are followed from the inside out: a command is the parts of its `op` field (`opParts`), a
value is three fields, the command in one of them, and a payload is fields around values or a list of
records. For a record the other fields stand in front and behind as parameters, so that accepts, learns,
reported values and results share one lemma about the value in them. `ReadsBack` states of one payload
what `readsBack` proves of all.
-/

namespace PaxosWasm

open Library Library.Text

namespace Serializer

theorem number_eq {name : String} {parts : List String} {n : Nat}
    (h : field name parts = some (toString n)) (hn : n < 2 ^ 64) : number name parts = some n := by
  rw [number, h]
  exact parseNat_toString hn

/-! ## Commands

The operation of a command is written with commas between its name, its key and its value, and stands in
the field `op` of a payload that is cut at every comma. So the field holds the first part of it only. -/

/-- The command is a `set`. -/
def IsSet (cmd : Cmd) : Prop := ∃ key value, cmd = some (.set key value)

/-- The strings of a command. -/
def cmdTexts : Cmd → List String
  | some (.get key) => [key]
  | some (.set key value) => [key, value]
  | some (.remove key) => [key]
  | _ => []

/-- What is read of a command. -/
def readCmd (err : String) : Cmd → Except String Cmd
  | some (.set _ _) => .error err
  | cmd => .ok cmd

theorem readCmd_cases (err : String) (cmd : Cmd) :
    (¬ IsSet cmd ∧ readCmd err cmd = .ok cmd) ∨ (IsSet cmd ∧ readCmd err cmd = .error err) := by
  cases cmd with
  | none => exact Or.inl ⟨by simp [IsSet], rfl⟩
  | some op =>
      cases op with
      | set key value => exact Or.inr ⟨⟨key, value, rfl⟩, rfl⟩
      | _ => exact Or.inl ⟨by simp [IsSet], rfl⟩

/-- The parts an `op` field is cut into. -/
def opParts (cmd : Cmd) : List String := split (keyed "op" (serializeCmd cmd)) ','

/-- A `set` is cut between its key and its value, any other operation stays whole. -/
theorem opParts_eq {cmd : Cmd} (hclean : ∀ s ∈ cmdTexts cmd, Free ',' s) :
    (∃ key value, cmd = some (.set key value) ∧
      opParts cmd = [keyed "op" ("set(\"" ++ key ++ "\""), "\"" ++ (value ++ "\")")]) ∨
    (¬ IsSet cmd ∧ opParts cmd = [keyed "op" (serializeCmd cmd)]) := by
  have hwhole : ¬ IsSet cmd → Free ',' (serializeCmd cmd) →
      ¬ IsSet cmd ∧ opParts cmd = [keyed "op" (serializeCmd cmd)] :=
    fun hset hfree => ⟨hset, split_of_free (free_keyed (by decide) (by decide) hfree)⟩
  cases cmd with
  | none => exact Or.inr (hwhole (by simp [IsSet]) (by decide))
  | some op =>
      cases op with
      | set key value =>
          left
          have hkey : Free ',' key := hclean key (by simp [cmdTexts])
          have hvalue : Free ',' value := hclean value (by simp [cmdTexts])
          have htext : keyed "op" (serializeCmd (some (.set key value))) =
              keyed "op" ("set(\"" ++ key ++ "\"") ++ String.singleton ',' ++ ("\"" ++ (value ++ "\")")) := by
            apply String.toList_inj.mp
            simp [keyed, serializeCmd, serializeOperation]
          refine ⟨key, value, rfl, ?_⟩
          rw [opParts, htext, split_append, split_of_free, split_of_free]
          · rfl
          · simpa [Free] using hvalue
          · exact free_keyed (by decide) (by decide) (by simpa [Free] using hkey)
      | get key =>
          have hkey : Free ',' key := hclean key (by simp [cmdTexts])
          exact Or.inr (hwhole (by simp [IsSet])
            (by simpa [Free, serializeCmd, serializeOperation] using hkey))
      | remove key =>
          have hkey : Free ',' key := hclean key (by simp [cmdTexts])
          exact Or.inr (hwhole (by simp [IsSet])
            (by simpa [Free, serializeCmd, serializeOperation] using hkey))
      | clear => exact Or.inr (hwhole (by simp [IsSet]) (by decide))
      | demo => exact Or.inr (hwhole (by simp [IsSet]) (by decide))

/-- An operation other than a `set` is read back. -/
theorem deserializeCmd_serializeCmd {cmd : Cmd} (h : ¬ IsSet cmd) (err : String) :
    deserializeCmd err (serializeCmd cmd) = .ok cmd := by
  cases cmd with
  | none => rfl
  | some op =>
      cases op with
      | set key value => exact absurd ⟨key, value, rfl⟩ h
      | get key =>
          have hne : "get(\"" ++ key ++ "\")" ≠ "none" := by
            intro heq
            have := congrArg (fun s => s.toList.head?) heq
            simp at this
          have hstrip : (stripPrefix ("get(\"" ++ key ++ "\")") "get(\"").bind
              (fun s => stripSuffix s "\")") = some key := by
            rw [String.append_assoc, stripPrefix_append, Option.bind_some, stripSuffix_append]
          show deserializeCmd err ("get(\"" ++ key ++ "\")") = _
          simp [deserializeCmd, deserializeOperation, hne, hstrip]
      | remove key =>
          have hne : "remove(\"" ++ key ++ "\")" ≠ "none" := by
            intro heq
            have := congrArg (fun s => s.toList.head?) heq
            simp at this
          have hget : stripPrefix ("remove(\"" ++ key ++ "\")") "get(\"" = none := by
            simp [stripPrefix]
          have hstrip : (stripPrefix ("remove(\"" ++ key ++ "\")") "remove(\"").bind
              (fun s => stripSuffix s "\")") = some key := by
            rw [String.append_assoc, stripPrefix_append, Option.bind_some, stripSuffix_append]
          show deserializeCmd err ("remove(\"" ++ key ++ "\")") = _
          simp [deserializeCmd, deserializeOperation, hne, hget, hstrip]
      | clear => rfl
      | demo => rfl

/-- The first part of a `set` is no operation. -/
theorem deserializeCmd_cut_set (err key : String) :
    deserializeCmd err ("set(\"" ++ key ++ "\"") = .error err := by
  have hhead : ∀ t : String, t.toList.head? ≠ some 's' → "set(\"" ++ key ++ "\"" ≠ t := by
    rintro t ht rfl
    simp at ht
  have hget : stripPrefix ("set(\"" ++ key ++ "\"") "get(\"" = none := by simp [stripPrefix]
  have hremove : stripPrefix ("set(\"" ++ key ++ "\"") "remove(\"" = none := by simp [stripPrefix]
  have hset : deserializeSet ("set(\"" ++ key ++ "\"") = none := by
    -- what follows `set(` ends in a quotation mark
    have hinner : stripPrefix ("set(\"" ++ key ++ "\"") "set(" = some ("\"" ++ key ++ "\"") := by
      rw [show "set(\"" ++ key ++ "\"" = "set(" ++ ("\"" ++ key ++ "\"") by
        apply String.toList_inj.mp; simp, stripPrefix_append]
    have hsuffix : stripSuffix ("\"" ++ key ++ "\"") ")" = none := by
      rw [stripSuffix, if_neg]
      rintro ⟨t, ht⟩
      have hlast := congrArg List.getLast? ht
      simp only [String.toList_append, List.getLast?_append] at hlast
      simp at hlast
    rw [deserializeSet, hinner, Option.bind_some, hsuffix]
    rfl
  simp [deserializeCmd, deserializeOperation, hhead "none" (by decide), hhead "clear" (by decide),
    hhead "demo" (by decide), hget, hremove, hset]

/-- A part that begins with a quotation mark is no field. -/
theorem value?_quoted {name : String} (hname : name.toList.head? ≠ some '"') (s : String) :
    value? name ("\"" ++ s) = none := by
  cases h : value? name ("\"" ++ s) with
  | none => rfl
  | some value =>
      have heq := congrArg (fun t => t.toList.head?) (eq_keyed_of_value? h)
      simp only [keyed, String.toList_append, List.head?_append] at heq
      cases hhead : name.toList.head? with
      | none =>
          rw [hhead] at heq
          simp at heq
      | some c =>
          rw [hhead] at heq hname
          simp at heq
          exact absurd (congrArg some heq.symm) hname

/-! ### What is read of the field

A part behind the first begins with the quotation mark of the value, and is taken for no other field. -/

/-- **What is read of a command** is the command itself, unless it is a `set`. -/
theorem field_opParts {cmd : Cmd} (hclean : ∀ s ∈ cmdTexts cmd, Free ',' s) (err : String) :
    ∃ op, field "op" (opParts cmd) = some op ∧ deserializeCmd err op = readCmd err cmd := by
  rcases opParts_eq hclean with ⟨key, value, rfl, hparts⟩ | ⟨hset, hparts⟩
  · refine ⟨"set(\"" ++ key ++ "\"", ?_, deserializeCmd_cut_set err key⟩
    rw [hparts, field_cons, field_cons, field_nil,
      value?_quoted (by decide), value?_keyed (by decide)]
    rfl
  · refine ⟨serializeCmd cmd, ?_, ?_⟩
    · rw [hparts, field_cons, field_nil, value?_keyed (by decide)]
      rfl
    · rw [deserializeCmd_serializeCmd hset]
      rcases readCmd_cases err cmd with ⟨_, h⟩ | ⟨h, _⟩
      · exact h.symm
      · exact absurd h hset

/-- The parts of an operation carry no other field. -/
theorem field_opParts_other {name : String} (hop : name ≠ "op") (hname : name.toList.head? ≠ some '"')
    {cmd : Cmd} (hclean : ∀ s ∈ cmdTexts cmd, Free ',' s) : field name (opParts cmd) = none := by
  have hne : "op" ≠ name := fun h => hop h.symm
  rcases opParts_eq hclean with ⟨key, value, _, hparts⟩ | ⟨_, hparts⟩
  · rw [hparts, field_cons, field_cons, field_nil, value?_quoted hname,
      value?_keyed (by decide), if_neg hne]
    rfl
  · rw [hparts, field_cons, field_nil, value?_keyed (by decide), if_neg hne]
    rfl

/-! ## Values

A value is written as three fields of a record that may have others before and behind them: the slot of
an accept, say, or the result of an execution. The lemmas about a record take these as `pre` and `post`. -/

/-- The strings of a value. -/
def valueTexts (v : Value) : List String := v.clientId :: cmdTexts v.command

/-- The parts the fields of a value are cut into. -/
def valueParts (v : Value) : List String :=
  [keyed "client_id" v.clientId, keyed "client_seq" (toString v.clientSeq)] ++ opParts v.command

theorem flatMap_split_of_free {parts : List String} (h : ∀ s ∈ parts, Free ',' s) :
    parts.flatMap (fun s => split s ',') = parts := by
  rw [List.flatMap_congr (fun s hs => split_of_free (h s hs))]
  exact List.flatMap_singleton' parts

/-- **A record around a value** is cut into its other fields and the parts of the value. -/
theorem split_record (pre post : List String) {v : Value} (hpre : ∀ s ∈ pre, Free ',' s)
    (hpost : ∀ s ∈ post, Free ',' s) (hid : Free ',' v.clientId) :
    split (join ',' (pre ++ valueFields v ++ post)) ',' = pre ++ valueParts v ++ post := by
  have hfields : ∀ s ∈ [keyed "client_id" v.clientId, keyed "client_seq" (toString v.clientSeq)],
      Free ',' s := by
    intro s hs
    simp only [List.mem_cons, List.not_mem_nil, or_false] at hs
    rcases hs with rfl | rfl
    · exact free_keyed (by decide) (by decide) hid
    · exact free_keyed (by decide) (by decide) (free_toString (by decide) _)
  have hsplit : valueFields v = [keyed "client_id" v.clientId,
      keyed "client_seq" (toString v.clientSeq)] ++ [keyed "op" (serializeCmd v.command)] := rfl
  rw [split_join (by simp [valueFields]), hsplit, List.flatMap_append, List.flatMap_append,
    List.flatMap_append, flatMap_split_of_free hpre, flatMap_split_of_free hpost,
    flatMap_split_of_free hfields, List.flatMap_singleton]
  rfl

/-- A field of the record around a value is found around it. -/
theorem field_record {name : String} (hnames : name ∉ ["client_id", "client_seq", "op"])
    (hname : name.toList.head? ≠ some '"') (pre post : List String) {v : Value}
    (hclean : ∀ s ∈ cmdTexts v.command, Free ',' s) :
    field name (pre ++ valueParts v ++ post) = field name (pre ++ post) := by
  simp only [List.mem_cons, List.not_mem_nil, or_false, not_or] at hnames
  obtain ⟨hid, hseq, hop⟩ := hnames
  have hnone : field name (valueParts v) = none := by
    rw [valueParts, field_append, field_opParts_other hop hname hclean, field_cons, field_cons,
      field_nil, value?_keyed (by decide), value?_keyed (by decide), if_neg (fun h => hseq h.symm),
      if_neg (fun h => hid h.symm)]
    rfl
  rw [field_append, field_append, hnone, Option.none_or, field_append]

/-- The fields of a value are found in the record around it. -/
theorem fields_record (err : String) (pre post : List String) {v : Value}
    (hpost : ∀ name ∈ ["client_id", "client_seq", "op"], field name post = none)
    (hseq : v.clientSeq < 2 ^ 64) (hclean : ∀ s ∈ cmdTexts v.command, Free ',' s) :
    field "client_id" (pre ++ valueParts v ++ post) = some v.clientId ∧
      number "client_seq" (pre ++ valueParts v ++ post) = some v.clientSeq ∧
      ∃ op, field "op" (pre ++ valueParts v ++ post) = some op ∧
        deserializeCmd err op = readCmd err v.command := by
  have hfield : ∀ {name value}, name ∈ ["client_id", "client_seq", "op"] →
      field name (valueParts v) = some value →
      field name (pre ++ valueParts v ++ post) = some value := by
    intro name value hname hvalue
    rw [field_append, hpost name hname, Option.none_or, field_append, hvalue, Option.some_or]
  refine ⟨hfield (by decide) ?_, number_eq (hfield (by decide) ?_) hseq, ?_⟩
  · rw [valueParts, field_append, field_opParts_other (by decide) (by decide) hclean]
    simp (disch := decide) [field_cons, field_nil, value?_keyed]
  · rw [valueParts, field_append, field_opParts_other (by decide) (by decide) hclean]
    simp (disch := decide) [field_cons, field_nil, value?_keyed]
  · obtain ⟨op, hop, hcmd⟩ := field_opParts hclean err
    refine ⟨op, hfield (by decide) ?_, hcmd⟩
    rw [valueParts, field_append, hop, Option.some_or]

/-- **What is read of a value** is the value with what is read of its command. -/
theorem deserializeValue_record (err : String) (pre : List String) {post : List String} {v : Value}
    (hpost : ∀ name ∈ ["client_id", "client_seq", "op"], field name post = none)
    (hseq : v.clientSeq < 2 ^ 64) (hclean : ∀ s ∈ cmdTexts v.command, Free ',' s) :
    deserializeValue err (pre ++ valueParts v ++ post) = some ((readCmd err v.command).map
      (fun command => { command, clientId := v.clientId, clientSeq := v.clientSeq })) := by
  obtain ⟨hid, hnumber, op, hop, hcmd⟩ := fields_record err pre post hpost hseq hclean
  unfold deserializeValue
  rw [hid, hnumber, hop]
  dsimp only
  rw [hcmd]

/-! ## Payloads

What is asked of a payload before it is written (`Clean`, `InRange`), what it is taken for (`normal`), and
whether it can be read at all (`Readable`). `ReadsBack` says of one payload what `readsBack` says of all
of them; it is proved kind by kind. -/

/-- The strings of a result. -/
def resultTexts : CmdResult → List String
  | .cmdValue (some v) => [v]
  | _ => []

/-- The strings of a payload. -/
def texts : MessagePayload → List String
  | .clientRequest v => valueTexts v
  | .clientResponse cr => cr.clientId :: resultTexts cr.commandResult
  | .promise pr => pr.accepted.flatMap (fun pv => pv.value.elim [] valueTexts)
  | .accept a => valueTexts a.value
  | .learn l => valueTexts l.value
  | .executed exec => exec.results.flatMap (fun r => valueTexts r.value ++ resultTexts r.cmdResult)
  | .benchmark b => [b.payload]
  | _ => []

/-- The payload is a list of records with strings in them. -/
def CarriesRecords : MessagePayload → Prop
  | .promise _ => True
  | .executed _ => True
  | _ => False

/-- No string has a comma, and none in a list of records has a bar or a closing bracket. -/
structure Clean (p : MessagePayload) : Prop where
  commas : ∀ s ∈ texts p, Free ',' s
  records : CarriesRecords p → ∀ s ∈ texts p, Free '|' s ∧ Free ']' s

/-- Every number fits into 64 bits. -/
def InRange : MessagePayload → Prop
  | .clientRequest v => v.clientSeq < 2 ^ 64
  | .clientResponse cr => cr.clientSeq < 2 ^ 64
  | .prepare p => p.slot < 2 ^ 64 ∧ p.ballot < 2 ^ 64
  | .promise pr => pr.slot < 2 ^ 64 ∧ pr.ballot < 2 ^ 64 ∧ ∀ pv ∈ pr.accepted,
      pv.slot < 2 ^ 64 ∧ pv.ballot < 2 ^ 64 ∧ ∀ v, pv.value = some v → v.clientSeq < 2 ^ 64
  | .accept a => a.slot < 2 ^ 64 ∧ a.ballot < 2 ^ 64 ∧ a.value.clientSeq < 2 ^ 64
  | .accepted a => a.slot < 2 ^ 64 ∧ a.ballot < 2 ^ 64
  | .learn l => l.slot < 2 ^ 64 ∧ l.value.clientSeq < 2 ^ 64
  | .retryLearns retries => ∀ slot ∈ retries.slots, slot < 2 ^ 64
  | .executed exec => exec.adu < 2 ^ 64 ∧ ∀ r ∈ exec.results,
      r.slot < 2 ^ 64 ∧ r.value.clientSeq < 2 ^ 64
  | .benchmark b => b.sendTimestamp < 2 ^ 64
  | .adu slot => slot < 2 ^ 64
  | _ => True

/-- The commands of a payload. -/
def cmds : MessagePayload → List Cmd
  | .clientRequest v => [v.command]
  | .promise pr => (pr.accepted.filterMap PValue.value).map Value.command
  | .accept a => [a.value.command]
  | .learn l => [l.value.command]
  | .executed exec => exec.results.map (fun r => r.value.command)
  | _ => []

/-- Nothing in the payload is cut apart. -/
def Readable (p : MessagePayload) : Prop :=
  (∀ cmd ∈ cmds p, ¬ IsSet cmd) ∧ p ≠ .retryLearns { slots := [] }

/-- A value whose text is that of a missing one. -/
def normalResult : CmdResult → CmdResult
  | .cmdValue (some v) => if v = "none" then .cmdValue none else .cmdValue (some v)
  | result => result

/-- A value without a command is reported as none. -/
def normalPValue (pv : PValue) : PValue :=
  { pv with value := pv.value.filter (fun v => v.command.isSome) }

/-- What a payload is taken for. -/
def normal : MessagePayload → MessagePayload
  | .clientResponse cr => .clientResponse { cr with commandResult := normalResult cr.commandResult }
  | .promise pr => .promise { pr with accepted := pr.accepted.map normalPValue }
  | .executed exec => .executed { exec with
      results := exec.results.map (fun r => { r with cmdResult := normalResult r.cmdResult }) }
  | p => p

/-- What is read of a payload: its normal form, or nothing. -/
def ReadsBack (p : MessagePayload) : Prop :=
  (Readable p ∧ deserializeMessagePayload (serializeMessagePayload p) = .ok (normal p)) ∨
    (¬ Readable p ∧ ∃ e, deserializeMessagePayload (serializeMessagePayload p) = .error e)

theorem deserializeCmdResult_serializeCmdResult (result : CmdResult) :
    deserializeCmdResult (serializeCmdResult result) = .ok (normalResult result) := by
  cases result with
  | noOp => rfl
  | cmdValue v =>
      cases v with
      | none => rfl
      | some v =>
          have hne : "cmd-value:" ++ v ≠ "no-op" := by
            intro heq
            have := congrArg (fun s => s.toList.head?) heq
            simp at this
          unfold deserializeCmdResult normalResult serializeCmdResult
          rw [if_neg hne, stripPrefix_append]
          dsimp only
          split <;> rfl

/-- The text of a result has the characters of its strings. -/
theorem free_serializeCmdResult {c : Char} (hc : Free c "no-op") (hc' : Free c "cmd-value:none")
    {result : CmdResult} (h : ∀ s ∈ resultTexts result, Free c s) :
    Free c (serializeCmdResult result) := by
  cases result with
  | noOp => exact hc
  | cmdValue v =>
      cases v with
      | none => exact hc'
      | some v =>
          have hv : Free c v := h v (List.mem_singleton_self _)
          simp [Free, serializeCmdResult] at hc' hv ⊢
          tauto

/-! ### Payloads with one value

A request, an accept and a learn are a value behind their own fields, if they have any. -/

/-- A payload around one value is read if its command is. -/
theorem readsBack_of_value {p : MessagePayload} {v : Value} (err : String)
    (build : Value → MessagePayload) (hcmds : cmds p = [v.command])
    (hretry : p ≠ .retryLearns { slots := [] }) (hnormal : normal p = build v)
    (h : deserializeMessagePayload (serializeMessagePayload p) = ((readCmd err v.command).map
      (fun command => { command, clientId := v.clientId, clientSeq := v.clientSeq })).map build) :
    ReadsBack p := by
  rcases readCmd_cases err v.command with ⟨hset, hread⟩ | ⟨hset, hread⟩
  · left
    refine ⟨⟨fun cmd hcmd => ?_, hretry⟩, ?_⟩
    · rw [hcmds] at hcmd
      rw [List.mem_singleton.mp hcmd]
      exact hset
    · rw [h, hread, hnormal]
      rfl
  · right
    refine ⟨fun hreadable => hreadable.1 v.command ?_ hset, err, ?_⟩
    · rw [hcmds]
      exact List.mem_singleton_self _
    · rw [h, hread]
      rfl

theorem clientRequest_readsBack {v : Value} (hrange : InRange (.clientRequest v))
    (hclean : Clean (.clientRequest v)) : ReadsBack (.clientRequest v) := by
  have hcmd : ∀ s ∈ cmdTexts v.command, Free ',' s :=
    fun s hs => hclean.commas s (List.mem_cons_of_mem _ hs)
  have hsplit : split (serializeMessagePayload (.clientRequest v)) ',' =
      "client-request" :: ([] ++ valueParts v ++ []) :=
    split_record ["client-request"] [] (by decide) (by decide)
      (hclean.commas _ (List.mem_cons_self ..))
  have hdes : deserializeMessagePayload (serializeMessagePayload (.clientRequest v)) =
      deserializeClientRequest ([] ++ valueParts v ++ []) := by
    unfold deserializeMessagePayload
    rw [hsplit]
    rfl
  refine readsBack_of_value "bad op" .clientRequest rfl (by simp) rfl (hdes.trans ?_)
  rw [deserializeClientRequest, deserializeValue_record "bad op" [] (by decide) hrange hcmd]

/-- A field with a number has no comma. -/
theorem free_number {name : String} (hname : Free ',' name) (n : Nat) :
    Free ',' (keyed name (toString n)) :=
  free_keyed (by decide) hname (free_toString (by decide) n)

/-- Nor has one with a flag. -/
theorem free_flag {name : String} (hname : Free ',' name) (b : Bool) :
    Free ',' (keyed name (toString b)) :=
  free_keyed (by decide) hname (by cases b <;> decide)

theorem accept_readsBack {a : Accept} (hrange : InRange (.accept a)) (hclean : Clean (.accept a)) :
    ReadsBack (.accept a) := by
  obtain ⟨hslot, hballot, hseq⟩ := hrange
  have hcmd : ∀ s ∈ cmdTexts a.value.command, Free ',' s :=
    fun s hs => hclean.commas s (List.mem_cons_of_mem _ hs)
  let pre := [keyed "slot" (toString a.slot), keyed "ballot" (toString a.ballot)]
  have hpre : ∀ s ∈ "accept" :: pre, Free ',' s := by
    simp only [pre, List.forall_mem_cons]
    exact ⟨by decide, free_number (by decide) _, free_number (by decide) _, by simp⟩
  have hsplit : split (serializeMessagePayload (.accept a)) ',' =
      "accept" :: (pre ++ valueParts a.value ++ []) :=
    split_record ("accept" :: pre) [] hpre (by decide)
      (hclean.commas _ (List.mem_cons_self ..))
  have hdes : deserializeMessagePayload (serializeMessagePayload (.accept a)) =
      deserializeAccept (pre ++ valueParts a.value ++ []) := by
    unfold deserializeMessagePayload
    rw [hsplit]
    rfl
  have hs : number "slot" (pre ++ valueParts a.value ++ []) = some a.slot := by
    refine number_eq ?_ hslot
    rw [field_record (by decide) (by decide) _ _ hcmd]
    simp (disch := decide) [pre, field_cons, field_nil, value?_keyed]
  have hb : number "ballot" (pre ++ valueParts a.value ++ []) = some a.ballot := by
    refine number_eq ?_ hballot
    rw [field_record (by decide) (by decide) _ _ hcmd]
    simp (disch := decide) [pre, field_cons, field_nil, value?_keyed]
  refine readsBack_of_value "bad op" (fun value =>
    .accept { slot := a.slot, ballot := a.ballot, value }) rfl (by simp) rfl (hdes.trans ?_)
  rw [deserializeAccept, hs, hb, deserializeValue_record "bad op" _ (by decide) hseq hcmd]

theorem learn_readsBack {l : Learn} (hrange : InRange (.learn l)) (hclean : Clean (.learn l)) :
    ReadsBack (.learn l) := by
  obtain ⟨hslot, hseq⟩ := hrange
  have hcmd : ∀ s ∈ cmdTexts l.value.command, Free ',' s :=
    fun s hs => hclean.commas s (List.mem_cons_of_mem _ hs)
  let pre := [keyed "slot" (toString l.slot)]
  have hpre : ∀ s ∈ "learn" :: pre, Free ',' s := by
    simp only [pre, List.forall_mem_cons]
    exact ⟨by decide, free_number (by decide) _, by simp⟩
  have hsplit : split (serializeMessagePayload (.learn l)) ',' =
      "learn" :: (pre ++ valueParts l.value ++ []) :=
    split_record ("learn" :: pre) [] hpre (by decide)
      (hclean.commas _ (List.mem_cons_self ..))
  have hdes : deserializeMessagePayload (serializeMessagePayload (.learn l)) =
      deserializeLearn (pre ++ valueParts l.value ++ []) := by
    unfold deserializeMessagePayload
    rw [hsplit]
    rfl
  have hs : number "slot" (pre ++ valueParts l.value ++ []) = some l.slot := by
    refine number_eq ?_ hslot
    rw [field_record (by decide) (by decide) _ _ hcmd]
    simp (disch := decide) [pre, field_cons, field_nil, value?_keyed]
  refine readsBack_of_value "bad op" (fun value => .learn { slot := l.slot, value })
    rfl (by simp) rfl (hdes.trans ?_)
  rw [deserializeLearn, hs, deserializeValue_record "bad op" _ (by decide) hseq hcmd]

/-! ### Payloads without a value

They have no command, so there is nothing in them that could be cut: they are always read. -/

/-- A payload without commands that is always read. -/
theorem readsBack_of_ok {p : MessagePayload} (hcmds : cmds p = [])
    (hretry : p ≠ .retryLearns { slots := [] })
    (h : deserializeMessagePayload (serializeMessagePayload p) = .ok (normal p)) : ReadsBack p := by
  refine Or.inl ⟨⟨fun cmd hcmd => ?_, hretry⟩, h⟩
  rw [hcmds] at hcmd
  cases hcmd

theorem parseBool_toString (b : Bool) : parseBool (toString b) = some b := by
  cases b <;> rfl

theorem clientResponse_readsBack {cr : ClientResponse} (hrange : InRange (.clientResponse cr))
    (hclean : Clean (.clientResponse cr)) : ReadsBack (.clientResponse cr) := by
  let parts := [keyed "client_id" cr.clientId, keyed "client_seq" (toString cr.clientSeq),
    keyed "success" (toString cr.success), keyed "result" (serializeCmdResult cr.commandResult)]
  have hresult : Free ',' (serializeCmdResult cr.commandResult) :=
    free_serializeCmdResult (by decide) (by decide)
      (fun s hs => hclean.commas s (List.mem_cons_of_mem _ hs))
  have hfree : ∀ s ∈ "client-response" :: parts, Free ',' s := by
    simp only [parts, List.forall_mem_cons]
    exact ⟨by decide, free_keyed (by decide) (by decide) (hclean.commas _ (List.mem_cons_self ..)),
      free_number (by decide) _, free_flag (by decide) _, free_keyed (by decide) (by decide) hresult,
      by simp⟩
  have hsplit : split (serializeMessagePayload (.clientResponse cr)) ',' = "client-response" :: parts :=
    split_join_of_free hfree (List.cons_ne_nil _ _)
  have hdes : deserializeMessagePayload (serializeMessagePayload (.clientResponse cr)) =
      deserializeClientResponse parts := by
    unfold deserializeMessagePayload
    rw [hsplit]
    rfl
  have hid : field "client_id" parts = some cr.clientId := by
    simp (disch := decide) [parts, field_cons, field_nil, value?_keyed]
  have hseq : number "client_seq" parts = some cr.clientSeq := by
    refine number_eq ?_ hrange
    simp (disch := decide) [parts, field_cons, field_nil, value?_keyed]
  have hsuccess : flag "success" parts = some cr.success := by
    have : field "success" parts = some (toString cr.success) := by
      simp (disch := decide) [parts, field_cons, field_nil, value?_keyed]
    rw [flag, this]
    exact parseBool_toString _
  have hres : field "result" parts = some (serializeCmdResult cr.commandResult) := by
    simp (disch := decide) [parts, field_cons, field_nil, value?_keyed]
  refine readsBack_of_ok rfl (by simp) (hdes.trans ?_)
  rw [deserializeClientResponse, hid, hseq, hsuccess, hres]
  dsimp only
  rw [deserializeCmdResult_serializeCmdResult]
  rfl

theorem prepare_readsBack {p : Prepare} (hrange : InRange (.prepare p)) : ReadsBack (.prepare p) := by
  let parts := [keyed "slot" (toString p.slot), keyed "ballot" (toString p.ballot)]
  have hfree : ∀ s ∈ "prepare" :: parts, Free ',' s := by
    simp only [parts, List.forall_mem_cons]
    exact ⟨by decide, free_number (by decide) _, free_number (by decide) _, by simp⟩
  have hsplit : split (serializeMessagePayload (.prepare p)) ',' = "prepare" :: parts :=
    split_join_of_free hfree (List.cons_ne_nil _ _)
  have hdes : deserializeMessagePayload (serializeMessagePayload (.prepare p)) =
      deserializePrepare parts := by
    unfold deserializeMessagePayload
    rw [hsplit]
    rfl
  have hslot : number "slot" parts = some p.slot := by
    refine number_eq ?_ hrange.1
    simp (disch := decide) [parts, field_cons, field_nil, value?_keyed]
  have hballot : number "ballot" parts = some p.ballot := by
    refine number_eq ?_ hrange.2
    simp (disch := decide) [parts, field_cons, field_nil, value?_keyed]
  refine readsBack_of_ok rfl (by simp) (hdes.trans ?_)
  rw [deserializePrepare, hslot, hballot]
  rfl

theorem accepted_readsBack {a : Accepted} (hrange : InRange (.accepted a)) :
    ReadsBack (.accepted a) := by
  let parts := [keyed "slot" (toString a.slot), keyed "ballot" (toString a.ballot),
    keyed "success" (toString a.success)]
  have hfree : ∀ s ∈ "accepted" :: parts, Free ',' s := by
    simp only [parts, List.forall_mem_cons]
    exact ⟨by decide, free_number (by decide) _, free_number (by decide) _, free_flag (by decide) _,
      by simp⟩
  have hsplit : split (serializeMessagePayload (.accepted a)) ',' = "accepted" :: parts :=
    split_join_of_free hfree (List.cons_ne_nil _ _)
  have hdes : deserializeMessagePayload (serializeMessagePayload (.accepted a)) =
      deserializeAccepted parts := by
    unfold deserializeMessagePayload
    rw [hsplit]
    rfl
  have hslot : number "slot" parts = some a.slot := by
    refine number_eq ?_ hrange.1
    simp (disch := decide) [parts, field_cons, field_nil, value?_keyed]
  have hballot : number "ballot" parts = some a.ballot := by
    refine number_eq ?_ hrange.2
    simp (disch := decide) [parts, field_cons, field_nil, value?_keyed]
  have hsuccess : flag "success" parts = some a.success := by
    have : field "success" parts = some (toString a.success) := by
      simp (disch := decide) [parts, field_cons, field_nil, value?_keyed]
    rw [flag, this]
    exact parseBool_toString _
  refine readsBack_of_ok rfl (by simp) (hdes.trans ?_)
  rw [deserializeAccepted, hslot, hballot, hsuccess]
  rfl

theorem benchmark_readsBack {b : Benchmark} (hrange : InRange (.benchmark b))
    (hclean : Clean (.benchmark b)) : ReadsBack (.benchmark b) := by
  let parts := [keyed "send_timestamp" (toString b.sendTimestamp), keyed "payload" b.payload]
  have hfree : ∀ s ∈ "benchmark" :: parts, Free ',' s := by
    simp only [parts, List.forall_mem_cons]
    exact ⟨by decide, free_number (by decide) _,
      free_keyed (by decide) (by decide) (hclean.commas _ (List.mem_singleton_self _)), by simp⟩
  have hsplit : split (serializeMessagePayload (.benchmark b)) ',' = "benchmark" :: parts :=
    split_join_of_free hfree (List.cons_ne_nil _ _)
  have hdes : deserializeMessagePayload (serializeMessagePayload (.benchmark b)) =
      deserializeBenchmark parts := by
    unfold deserializeMessagePayload
    rw [hsplit]
    rfl
  have hstamp : number "send_timestamp" parts = some b.sendTimestamp := by
    refine number_eq ?_ hrange
    simp (disch := decide) [parts, field_cons, field_nil, value?_keyed]
  have hpayload : field "payload" parts = some b.payload := by
    simp (disch := decide) [parts, field_cons, field_nil, value?_keyed]
  refine readsBack_of_ok rfl (by simp) (hdes.trans ?_)
  rw [deserializeBenchmark, hstamp, hpayload]
  rfl

theorem adu_readsBack {slot : Slot} (hrange : InRange (.adu slot)) : ReadsBack (.adu slot) := by
  have hfree : ∀ s ∈ ["adu", toString slot], Free ',' s := by
    simp only [List.forall_mem_cons]
    exact ⟨by decide, free_toString (by decide) _, by simp⟩
  have hsplit : split (serializeMessagePayload (.adu slot)) ',' = ["adu", toString slot] :=
    split_join_of_free hfree (List.cons_ne_nil _ _)
  have hdes : deserializeMessagePayload (serializeMessagePayload (.adu slot)) =
      deserializeAdu [toString slot] := by
    unfold deserializeMessagePayload
    rw [hsplit]
    rfl
  have hslot : parseU64 (toString slot) = some slot := parseNat_toString hrange
  refine readsBack_of_ok rfl (by simp) (hdes.trans ?_)
  unfold deserializeAdu
  dsimp only
  rw [hslot]
  rfl

/-! ## Lists

A list is read entry by entry, and one entry that cannot be read spoils all of it. Slots are joined by
bars in a field of their own; records come in brackets behind the other fields, and have commas inside. -/

theorem mapM_ok {α β : Type} {f : α → Except String β} {g : α → β} {xs : List α}
    (h : ∀ x ∈ xs, f x = .ok (g x)) : xs.mapM f = .ok (xs.map g) := by
  induction xs with
  | nil => rfl
  | cons x xs ih =>
      rw [List.mapM_cons, h x (List.mem_cons_self ..), ih (fun y hy => h y (List.mem_cons_of_mem _ hy))]
      rfl

/-- One entry that cannot be read spoils the list. -/
theorem mapM_error {α β : Type} {f : α → Except String β} {xs : List α} {x : α} (hx : x ∈ xs)
    (hfx : ∃ e, f x = .error e) : ∃ e, xs.mapM f = .error e := by
  obtain ⟨e, he⟩ := hfx
  induction xs with
  | nil => cases hx
  | cons y ys ih =>
      rw [List.mapM_cons]
      cases hy : f y with
      | error e' => exact ⟨e', rfl⟩
      | ok b =>
          rcases List.mem_cons.mp hx with rfl | hx
          · rw [he] at hy
            cases hy
          · obtain ⟨e', he'⟩ := ih hx
            exact ⟨e', by rw [he']; rfl⟩

theorem retryLearns_readsBack {retries : RetryLearns} (hrange : InRange (.retryLearns retries)) :
    ReadsBack (.retryLearns retries) := by
  obtain ⟨slots⟩ := retries
  have hlist : ∀ c : Char, c.isDigit = false → c ≠ '|' → Free c (join '|' (slots.map toString)) := by
    intro c hc hbar
    refine free_join hbar (fun s hs => ?_)
    obtain ⟨slot, _, rfl⟩ := List.mem_map.mp hs
    exact free_toString hc slot
  have hfree : ∀ s ∈ ["retry-learns", keyed "slots" (join '|' (slots.map toString))], Free ',' s := by
    simp only [List.forall_mem_cons]
    exact ⟨by decide, free_keyed (by decide) (by decide) (hlist ',' (by decide) (by decide)), by simp⟩
  have hsplit : split (serializeMessagePayload (.retryLearns { slots })) ',' =
      ["retry-learns", keyed "slots" (join '|' (slots.map toString))] :=
    split_join_of_free hfree (List.cons_ne_nil _ _)
  have hstrip : stripPrefix (keyed "slots" (join '|' (slots.map toString))) "slots:" =
      some (join '|' (slots.map toString)) := by
    rw [keyed, show "slots" ++ ":" = "slots:" from rfl, stripPrefix_append]
  have hdes : deserializeMessagePayload (serializeMessagePayload (.retryLearns { slots })) =
      ((split (join '|' (slots.map toString)) '|').mapM deserializeSlot).map
        (fun slots => .retryLearns { slots }) := by
    unfold deserializeMessagePayload
    rw [hsplit]
    show deserializeRetryLearns [keyed "slots" (join '|' (slots.map toString))] = _
    unfold deserializeRetryLearns
    dsimp only
    rw [hstrip]
  by_cases hnil : slots = []
  · -- the empty list reads as one slot without digits
    subst hnil
    right
    refine ⟨fun hread => hread.2 rfl, "bad slot", ?_⟩
    rw [hdes]
    rfl
  · left
    have hbars : ∀ s ∈ slots.map toString, Free '|' s := by
      intro s hs
      obtain ⟨slot, _, rfl⟩ := List.mem_map.mp hs
      exact free_toString (by decide) slot
    have hread : (slots.map toString).mapM deserializeSlot = .ok slots := by
      rw [List.mapM_map]
      have hslots : ∀ slot ∈ slots, (deserializeSlot ∘ toString) slot = .ok (id slot) := by
        intro slot hslot
        rw [Function.comp_apply, deserializeSlot, parseU64, parseNat_toString (hrange slot hslot)]
        rfl
      rw [mapM_ok hslots, List.map_id]
    refine ⟨⟨fun cmd hcmd => (by cases hcmd), fun h => hnil (by simpa using h)⟩, ?_⟩
    rw [hdes, split_join_of_free hbars (by simpa using hnil), hread]
    rfl

/-- A list of records is read record by record. -/
theorem deserializeEntries_ok {ρ : Type} {entry : String → Except String (Option ρ)} {ser : ρ → String}
    {norm : ρ → ρ} {xs : List ρ} (hempty : entry "" = .ok none) (hbars : ∀ x ∈ xs, Free '|' (ser x))
    (h : ∀ x ∈ xs, entry (ser x) = .ok (some (norm x))) :
    deserializeEntries entry (some (join '|' (xs.map ser))) = .ok (xs.map norm) := by
  by_cases hnil : xs = []
  · subst hnil
    show Except.map _ (List.mapM entry [""]) = _
    rw [List.mapM_cons, hempty]
    rfl
  · have hfree : ∀ s ∈ xs.map ser, Free '|' s := by
      intro s hs
      obtain ⟨x, hx, rfl⟩ := List.mem_map.mp hs
      exact hbars x hx
    show Except.map _ (List.mapM entry (split _ '|')) = _
    rw [split_join_of_free hfree (by simpa using hnil), List.mapM_map,
      mapM_ok (f := entry ∘ ser) (g := fun x => some (norm x)) h]
    show Except.ok _ = _
    simp [List.reduceOption, List.filterMap_map]

/-- A record that cannot be read spoils the list. -/
theorem deserializeEntries_error {ρ : Type} {entry : String → Except String (Option ρ)}
    {ser : ρ → String} {xs : List ρ} (hbars : ∀ x ∈ xs, Free '|' (ser x)) {x : ρ} (hx : x ∈ xs)
    (h : ∃ e, entry (ser x) = .error e) :
    ∃ e, deserializeEntries entry (some (join '|' (xs.map ser))) = .error e := by
  have hfree : ∀ s ∈ xs.map ser, Free '|' s := by
    intro s hs
    obtain ⟨x, hx, rfl⟩ := List.mem_map.mp hs
    exact hbars x hx
  obtain ⟨e, he⟩ := mapM_error (List.mem_map_of_mem (f := ser) hx) h
  refine ⟨e, ?_⟩
  show Except.map _ (List.mapM entry (split _ '|')) = _
  rw [split_join_of_free hfree (by simpa using List.ne_nil_of_mem hx), he]
  rfl

/-! ### Records in brackets

The list is cut out of the payload before the rest is cut at its commas. An empty list of p-values is not
written at all, and then there are no brackets to be found. -/

/-- **A list in brackets** is cut out of what stands around it. -/
theorem cutList_brackets {header name list err : String} (hname : Free '[' name)
    (hheader : Free '[' header) (hlist : Free ']' list) :
    cutList (header ++ (name ++ String.singleton '[') ++ (list ++ "]")) (name ++ String.singleton '[')
      err = .ok (header, some list) := by
  have hclose : splitOnce (list ++ "]") "]" = some (list, "") := by
    have h := splitOnce_append (q := "") (x := ']') List.not_mem_nil hlist ""
    rw [String.empty_append, String.append_empty] at h
    exact h
  unfold cutList
  rw [splitOnce_append hname hheader]
  dsimp only
  rw [hclose]

/-- A command that is read is none or an operation that is read. -/
theorem deserializeCmd_eq_ok {err op : String} {cmd : Cmd} (h : deserializeCmd err op = .ok cmd) :
    (op = "none" ∧ cmd = none) ∨
      (op ≠ "none" ∧ ∃ oper, cmd = some oper ∧ deserializeOperation op = .ok oper) := by
  unfold deserializeCmd at h
  split at h
  · next hnone => exact Or.inl ⟨hnone, (Except.ok.inj h).symm⟩
  · next hnone =>
    split at h
    · next oper hoper => exact Or.inr ⟨hnone, oper, (Except.ok.inj h).symm, hoper⟩
    · cases h

theorem deserializeCmd_eq_error {err op e : String} (h : deserializeCmd err op = .error e) :
    op ≠ "none" ∧ ∃ e', deserializeOperation op = .error e' := by
  unfold deserializeCmd at h
  split at h
  · cases h
  · next hnone =>
    split at h
    · cases h
    · next e' he => exact ⟨hnone, e', he⟩

/-- The value a record is written with. -/
def writtenValue (pv : PValue) : Value :=
  pv.value.getD { command := none, clientId := "unknown", clientSeq := 0 }

/-! ### One record

A p-value without a value is written with a value that no client has, and read as what it was. -/

/-- **What is read of a reported value** is its normal form, unless its command is a `set`. -/
theorem deserializePValue_serializePValue {pv : PValue} (hslot : pv.slot < 2 ^ 64)
    (hballot : pv.ballot < 2 ^ 64) (hseq : (writtenValue pv).clientSeq < 2 ^ 64)
    (hclean : ∀ s ∈ valueTexts (writtenValue pv), Free ',' s) :
    (¬ IsSet (writtenValue pv).command ∧
        deserializePValue (serializePValue pv) = .ok (some (normalPValue pv))) ∨
      (IsSet (writtenValue pv).command ∧
        ∃ e, deserializePValue (serializePValue pv) = .error e) := by
  have hcmd : ∀ s ∈ cmdTexts (writtenValue pv).command, Free ',' s :=
    fun s hs => hclean s (List.mem_cons_of_mem _ hs)
  let pre := [keyed "slot" (toString pv.slot), keyed "ballot" (toString pv.ballot)]
  have hpre : ∀ s ∈ pre, Free ',' s := by
    simp only [pre, List.forall_mem_cons]
    exact ⟨free_number (by decide) _, free_number (by decide) _, by simp⟩
  have hsplit : split (serializePValue pv) ',' = pre ++ valueParts (writtenValue pv) ++ [] :=
    split_record pre [] hpre (by decide) (hclean _ (List.mem_cons_self ..))
  have hs : number "slot" (pre ++ valueParts (writtenValue pv) ++ []) = some pv.slot := by
    refine number_eq ?_ hslot
    rw [field_record (by decide) (by decide) _ _ hcmd]
    simp (disch := decide) [pre, field_cons, field_nil, value?_keyed]
  have hb : number "ballot" (pre ++ valueParts (writtenValue pv) ++ []) = some pv.ballot := by
    refine number_eq ?_ hballot
    rw [field_record (by decide) (by decide) _ _ hcmd]
    simp (disch := decide) [pre, field_cons, field_nil, value?_keyed]
  obtain ⟨hid, hnumber, op, hop, hread⟩ := fields_record "bad op" pre [] (by decide) hseq hcmd
  unfold deserializePValue
  rw [hsplit]
  dsimp only
  rw [hs, hb, hid, hnumber, hop]
  dsimp only
  rcases readCmd_cases "bad op" (writtenValue pv).command with ⟨hset, h⟩ | ⟨hset, h⟩
  · left
    refine ⟨hset, ?_⟩
    rw [h] at hread
    rcases deserializeCmd_eq_ok hread with ⟨hnone, hcommand⟩ | ⟨hsome, oper, hcommand, hoper⟩
    · -- a value without a command is taken for none
      rw [if_pos hnone]
      obtain ⟨slot, ballot, value⟩ := pv
      cases value with
      | none => rfl
      | some v =>
          have hv : v.command = none := hcommand
          simp [normalPValue, Option.filter, hv]
    · rw [if_neg hsome, hoper]
      obtain ⟨slot, ballot, value⟩ := pv
      cases value with
      | none => cases hcommand
      | some v =>
          have hv : v.command = some oper := hcommand
          obtain ⟨command, clientId, clientSeq⟩ := v
          subst hv
          rfl
  · right
    rw [h] at hread
    obtain ⟨hne, e, he⟩ := deserializeCmd_eq_error hread
    refine ⟨hset, "bad op in promise.accepted", ?_⟩
    rw [if_neg hne, he]

/-- **What is read of a result** is its normal form, unless its command is a `set`. -/
theorem deserializeResult_serializeResult {r : ExecuteResult} (hslot : r.slot < 2 ^ 64)
    (hseq : r.value.clientSeq < 2 ^ 64) (hvalue : ∀ s ∈ valueTexts r.value, Free ',' s)
    (hresult : ∀ s ∈ resultTexts r.cmdResult, Free ',' s) :
    (¬ IsSet r.value.command ∧ deserializeResult (serializeResult r) =
        .ok (some { r with cmdResult := normalResult r.cmdResult })) ∨
      (IsSet r.value.command ∧ ∃ e, deserializeResult (serializeResult r) = .error e) := by
  have hcmd : ∀ s ∈ cmdTexts r.value.command, Free ',' s :=
    fun s hs => hvalue s (List.mem_cons_of_mem _ hs)
  let pre := [keyed "slot" (toString r.slot)]
  let post := [keyed "success" (toString r.success), keyed "result" (serializeCmdResult r.cmdResult)]
  have hpre : ∀ s ∈ pre, Free ',' s := by
    simp only [pre, List.forall_mem_cons]
    exact ⟨free_number (by decide) _, by simp⟩
  have hpost : ∀ s ∈ post, Free ',' s := by
    simp only [post, List.forall_mem_cons]
    exact ⟨free_flag (by decide) _, free_keyed (by decide) (by decide)
      (free_serializeCmdResult (by decide) (by decide) hresult), by simp⟩
  have hnames : ∀ name ∈ ["client_id", "client_seq", "op"], field name post = none := by
    simp only [List.forall_mem_cons]
    refine ⟨?_, ?_, ?_, by simp⟩
    all_goals simp (disch := decide) [post, field_cons, field_nil, value?_keyed]
  have hsplit : split (serializeResult r) ',' = pre ++ valueParts r.value ++ post :=
    split_record pre post hpre hpost (hvalue _ (List.mem_cons_self ..))
  have hs : number "slot" (pre ++ valueParts r.value ++ post) = some r.slot := by
    refine number_eq ?_ hslot
    rw [field_record (by decide) (by decide) _ _ hcmd]
    simp (disch := decide) [pre, post, field_cons, field_nil, value?_keyed]
  have hsuccess : flag "success" (pre ++ valueParts r.value ++ post) = some r.success := by
    have : field "success" (pre ++ valueParts r.value ++ post) = some (toString r.success) := by
      rw [field_record (by decide) (by decide) _ _ hcmd]
      simp (disch := decide) [pre, post, field_cons, field_nil, value?_keyed]
    rw [flag, this]
    exact parseBool_toString _
  have hres : field "result" (pre ++ valueParts r.value ++ post) =
      some (serializeCmdResult r.cmdResult) := by
    rw [field_record (by decide) (by decide) _ _ hcmd]
    simp (disch := decide) [pre, post, field_cons, field_nil, value?_keyed]
  unfold deserializeResult
  rw [hsplit]
  dsimp only
  rw [hs, deserializeValue_record "bad op" pre hnames hseq hcmd, hsuccess, hres]
  dsimp only
  rcases readCmd_cases "bad op" r.value.command with ⟨hset, h⟩ | ⟨hset, h⟩
  · left
    refine ⟨hset, ?_⟩
    rw [h, deserializeCmdResult_serializeCmdResult]
    rfl
  · right
    refine ⟨hset, "bad op", ?_⟩
    rw [h]
    rfl

/-! ### Bars and brackets

The records are cut at bars, and the list ends at the first closing bracket. `Delimiter` are these two
characters: neither occurs in a record whose strings are without them. -/

/-- The delimiters of a list of records: the bar between them, and the bracket after them. -/
def Delimiter (c : Char) : Prop := c = '|' ∨ c = ']'

theorem Delimiter.free {c : Char} (hc : Delimiter c) {s : String} (h : Free '|' s ∧ Free ']' s) :
    Free c s := by
  rcases hc with rfl | rfl
  · exact h.1
  · exact h.2

theorem Delimiter.keyed {c : Char} (hc : Delimiter c) {name value : String}
    (hname : Free '|' name ∧ Free ']' name) (hvalue : Free c value) :
    Free c (Library.Text.keyed name value) := by
  refine free_keyed ?_ (hc.free hname) hvalue
  rcases hc with rfl | rfl <;> decide

theorem Delimiter.number {c : Char} (hc : Delimiter c) {name : String}
    (hname : Free '|' name ∧ Free ']' name) (n : Nat) :
    Free c (Library.Text.keyed name (toString n)) := by
  refine hc.keyed hname (free_toString ?_ n)
  rcases hc with rfl | rfl <;> decide

theorem Delimiter.join {c : Char} (hc : Delimiter c) {parts : List String}
    (h : ∀ s ∈ parts, Free c s) : Free c (Library.Text.join ',' parts) := by
  refine free_join ?_ h
  rcases hc with rfl | rfl <;> decide

theorem Delimiter.serializeCmd {c : Char} (hc : Delimiter c) {cmd : Cmd}
    (h : ∀ s ∈ cmdTexts cmd, Free c s) : Free c (serializeCmd cmd) := by
  cases cmd with
  | none => exact hc.free (s := "none") (by decide)
  | some op =>
      rcases hc with rfl | rfl <;> cases op <;>
        simp_all [Free, Serializer.serializeCmd, serializeOperation, cmdTexts]

theorem Delimiter.valueFields {c : Char} (hc : Delimiter c) {v : Value}
    (h : ∀ s ∈ valueTexts v, Free c s) : ∀ s ∈ valueFields v, Free c s := by
  simp only [Serializer.valueFields, List.forall_mem_cons]
  exact ⟨hc.keyed (by decide) (h _ (List.mem_cons_self ..)), hc.number (by decide) _,
    hc.keyed (by decide) (hc.serializeCmd (fun s hs => h s (List.mem_cons_of_mem _ hs))), by simp⟩

/-- The comma before a list leaves an empty part behind. -/
theorem split_header {parts : List String} (hfree : ∀ s ∈ parts, Free ',' s) (hne : parts ≠ []) :
    split (join ',' parts ++ ",") ',' = parts ++ [""] := by
  have h := split_append ',' (join ',' parts) ""
  rw [String.append_empty] at h
  rw [show "," = String.singleton ',' from rfl, h, split_join_of_free hfree hne]
  rfl

/-- A payload begins with its kind. -/
theorem split_kind {kind : String} (rest : String) (hkind : Free ',' kind) :
    split (kind ++ "," ++ rest) ',' = kind :: split rest ',' := by
  rw [show "," = String.singleton ',' from rfl, split_append, split_of_free hkind, List.singleton_append]

/-- The parts behind the kind, with the empty one. -/
theorem drop_split_header {kind : String} {fields : List String}
    (hfree : ∀ s ∈ kind :: fields, Free ',' s) :
    (split (join ',' (kind :: fields) ++ ",") ',').drop 1 = fields ++ [""] := by
  rw [split_header hfree (List.cons_ne_nil _ _)]
  rfl

/-- A payload with a list of records: its kind, fields, and the list in brackets. -/
def listed (kind : String) (fields : List String) (name list : String) : String :=
  join ',' (kind :: fields) ++ "," ++ (name ++ String.singleton '[') ++ (list ++ "]")

theorem split_listed {kind : String} (hkind : Free ',' kind) (fields : List String) (hne : fields ≠ [])
    (name list : String) : ∃ rest, split (listed kind fields name list) ',' = kind :: rest := by
  have hjoin : join ',' (kind :: fields) = kind ++ "," ++ join ',' fields := join_cons ',' kind hne
  have htext : listed kind fields name list = kind ++ "," ++ (join ',' fields ++
      ("," ++ (name ++ (String.singleton '[' ++ (list ++ "]"))))) := by
    rw [listed, hjoin]
    simp only [String.append_assoc]
  rw [htext]
  exact ⟨_, split_kind _ hkind⟩

/-- The list is cut out of the payload, and the header is left. -/
theorem cutList_listed {kind name list : String} {fields : List String}
    (hfields : ∀ s ∈ kind :: fields, Free '[' s) (hname : Free '[' name) (hlist : Free ']' list)
    (err : String) :
    cutList (listed kind fields name list) (name ++ String.singleton '[') err =
      .ok (join ',' (kind :: fields) ++ ",", some list) := by
  have hopening : Free '[' (join ',' (kind :: fields)) := free_join (by decide) hfields
  have hcomma : Free '[' (join ',' (kind :: fields) ++ ",") := by
    simp [Free] at hopening ⊢
    exact hopening
  exact cutList_brackets hname hcomma hlist

theorem texts_writtenValue {c : Char} (hc : Free c "unknown") {pv : PValue}
    (h : ∀ s ∈ pv.value.elim [] valueTexts, Free c s) :
    ∀ s ∈ valueTexts (writtenValue pv), Free c s := by
  obtain ⟨slot, ballot, value⟩ := pv
  cases value with
  | none =>
      intro s hs
      rw [List.mem_singleton.mp (show s ∈ ["unknown"] from hs)]
      exact hc
  | some v => exact h

theorem serializePValue_ne (pv : PValue) : serializePValue pv ≠ "" := by
  intro h
  have := congrArg (fun s => s.toList.head?) h
  simp [serializePValue, join_cons, keyed] at this

theorem serializeResult_ne (r : ExecuteResult) : serializeResult r ≠ "" := by
  intro h
  have := congrArg (fun s => s.toList.head?) h
  simp [serializeResult, join_cons, keyed, valueFields] at this

/-- A reported value has no delimiter but those of its strings. -/
theorem Delimiter.serializePValue {c : Char} (hc : Delimiter c) {pv : PValue}
    (h : ∀ s ∈ pv.value.elim [] valueTexts, Free c s) : Free c (serializePValue pv) := by
  refine hc.join ?_
  simp only [List.forall_mem_cons]
  exact ⟨hc.number (by decide) _, hc.number (by decide) _,
    hc.valueFields (texts_writtenValue (hc.free (by decide)) h)⟩

/-- Nor has a result. -/
theorem Delimiter.serializeResult {c : Char} (hc : Delimiter c) {r : ExecuteResult}
    (hvalue : ∀ s ∈ valueTexts r.value, Free c s) (hresult : ∀ s ∈ resultTexts r.cmdResult, Free c s) :
    Free c (serializeResult r) := by
  have hflag : Free c (toString r.success) := by
    cases r.success
    · exact hc.free (s := "false") (by decide)
    · exact hc.free (s := "true") (by decide)
  refine hc.join (fun s hs => ?_)
  simp only [List.cons_append, List.mem_cons, List.mem_append, List.not_mem_nil, or_false] at hs
  rcases hs with rfl | hs | rfl | rfl
  · exact hc.number (by decide) _
  · exact hc.valueFields hvalue s hs
  · exact hc.keyed (by decide) hflag
  · exact hc.keyed (by decide)
      (free_serializeCmdResult (hc.free (by decide)) (hc.free (by decide)) hresult)

/-! ### Promises

The fields of a promise stand before its list, which is cut out first. So a promise reads as its fields and
the entries of its list, each on its own. -/

theorem deserializePromise_ok {raw header : String} {list : Option String} {accepted : List PValue}
    {slot : Slot} {ballot : Ballot}
    (hcut : cutList raw "accepted:[" "malformed promise accepted list" = .ok (header, list))
    (hlist : deserializeEntries deserializePValue list = .ok accepted)
    (hslot : number "slot" ((split header ',').drop 1) = some slot)
    (hballot : number "ballot" ((split header ',').drop 1) = some ballot) :
    deserializePromise raw = .ok (.promise { slot, ballot, accepted }) := by
  simp only [deserializePromise, bind, Except.bind, hcut, hlist, hslot, hballot]

theorem deserializePromise_error {raw header e : String} {list : Option String}
    (hcut : cutList raw "accepted:[" "malformed promise accepted list" = .ok (header, list))
    (hlist : deserializeEntries deserializePValue list = .error e) :
    deserializePromise raw = .error e := by
  simp only [deserializePromise, bind, Except.bind, hcut, hlist]

theorem deserialize_promise {raw : String} {rest : List String}
    (h : split raw ',' = "promise" :: rest) :
    deserializeMessagePayload raw = deserializePromise raw := by
  unfold deserializeMessagePayload
  rw [h]
  rfl

def promiseFields (pr : Promise) : List String :=
  [keyed "slot" (toString pr.slot), keyed "ballot" (toString pr.ballot)]

theorem free_promiseFields (pr : Promise) :
    ∀ s ∈ "promise" :: promiseFields pr, Free ',' s ∧ Free '[' s := by
  simp only [promiseFields, List.forall_mem_cons]
  exact ⟨by decide, ⟨free_number (by decide) _, free_keyed (by decide) (by decide)
    (free_toString (by decide) _)⟩, ⟨free_number (by decide) _, free_keyed (by decide) (by decide)
    (free_toString (by decide) _)⟩, by simp⟩

/-- The slot and the ballot are read off the header, with or without a list behind it. -/
theorem number_promiseFields {pr : Promise} (hslot : pr.slot < 2 ^ 64) (hballot : pr.ballot < 2 ^ 64)
    (rest : List String) (hrest : rest = [] ∨ rest = [""]) :
    number "slot" (promiseFields pr ++ rest) = some pr.slot ∧
      number "ballot" (promiseFields pr ++ rest) = some pr.ballot := by
  rcases hrest with rfl | rfl
  all_goals
    refine ⟨number_eq ?_ hslot, number_eq ?_ hballot⟩ <;>
      simp (disch := decide) [promiseFields, field_cons, field_nil, value?_keyed, value?_of_free]

/-- Without a p-value there is no list. -/
theorem promise_readsBack_of_nil {pr : Promise} (hrange : InRange (.promise pr))
    (hnil : pr.accepted = []) : ReadsBack (.promise pr) := by
  obtain ⟨hslot, hballot, _⟩ := hrange
  have hfields := free_promiseFields pr
  have htext : serializeMessagePayload (.promise pr) = join ',' ("promise" :: promiseFields pr) := by
    simp only [serializeMessagePayload, hnil]
    rfl
  have hsplit : split (serializeMessagePayload (.promise pr)) ',' = "promise" :: promiseFields pr := by
    rw [htext, split_join_of_free (fun s hs => (hfields s hs).1) (List.cons_ne_nil _ _)]
  have hcut : cutList (serializeMessagePayload (.promise pr)) "accepted:["
      "malformed promise accepted list" = .ok (serializeMessagePayload (.promise pr), none) := by
    rw [cutList, htext, splitOnce_eq_none (x := '[') (by decide)
      (free_join (by decide) (fun s hs => (hfields s hs).2))]
  have hparts : (split (serializeMessagePayload (.promise pr)) ',').drop 1 = promiseFields pr ++ [] := by
    rw [hsplit, List.append_nil]
    rfl
  have hlist : deserializeEntries deserializePValue none = .ok [] := rfl
  obtain ⟨hs, hb⟩ := number_promiseFields hslot hballot [] (Or.inl rfl)
  refine readsBack_of_ok (by simp [cmds, hnil]) (by simp) ((deserialize_promise hsplit).trans ?_)
  rw [deserializePromise_ok hcut hlist (hparts ▸ hs) (hparts ▸ hb), normal, hnil]
  rfl

/-- The list of a promise, if there is one, is not the empty text. -/
theorem serialize_promise {pr : Promise} (hne : pr.accepted ≠ [])
    (hbars : ∀ pv ∈ pr.accepted, Free '|' (serializePValue pv)) :
    serializeMessagePayload (.promise pr) = listed "promise" (promiseFields pr) "accepted:"
      (join '|' (pr.accepted.map serializePValue)) := by
  have hlist : join '|' (pr.accepted.map serializePValue) ≠ "" := by
    intro hempty
    obtain ⟨pv, rest, hcons⟩ := List.exists_cons_of_ne_nil hne
    have hsplit : split (join '|' (pr.accepted.map serializePValue)) '|' =
        pr.accepted.map serializePValue := by
      refine split_join_of_free (fun s hs => ?_) (by simpa using hne)
      obtain ⟨pv, hpv, rfl⟩ := List.mem_map.mp hs
      exact hbars pv hpv
    rw [hempty, hcons] at hsplit
    exact serializePValue_ne pv (List.cons.inj hsplit).1.symm
  show (if join '|' (pr.accepted.map serializePValue) = "" then _ else _) = _
  rw [if_neg hlist]
  apply String.toList_inj.mp
  simp [listed, promiseFields]

/-- Each p-value reads as its normal form, if it has no `set`. -/
theorem read_accepted {pr : Promise} (hrange : InRange (.promise pr)) (hclean : Clean (.promise pr)) :
    ∀ pv ∈ pr.accepted,
      ¬ IsSet (writtenValue pv).command ∧
          deserializePValue (serializePValue pv) = .ok (some (normalPValue pv)) ∨
        IsSet (writtenValue pv).command ∧ ∃ e, deserializePValue (serializePValue pv) = .error e := by
  intro pv hpv
  obtain ⟨_, _, hentries⟩ := hrange
  obtain ⟨hslot, hballot, hvalue⟩ := hentries pv hpv
  have hseq : (writtenValue pv).clientSeq < 2 ^ 64 := by
    obtain ⟨slot, ballot, value⟩ := pv
    cases value with
    | none => exact Nat.two_pow_pos 64
    | some v => exact hvalue v rfl
  apply deserializePValue_serializePValue hslot hballot hseq
  apply texts_writtenValue (by decide)
  exact fun s hs => hclean.commas s (List.mem_flatMap.mpr ⟨pv, hpv, hs⟩)

theorem promise_readsBack {pr : Promise} (hrange : InRange (.promise pr)) (hclean : Clean (.promise pr)) :
    ReadsBack (.promise pr) := by
  by_cases hnil : pr.accepted = []
  · exact promise_readsBack_of_nil hrange hnil
  have hread := read_accepted hrange hclean
  obtain ⟨hslot, hballot, _⟩ := hrange
  have hfields := free_promiseFields pr
  have hfree : ∀ {c}, Delimiter c → ∀ pv ∈ pr.accepted, Free c (serializePValue pv) :=
    fun hc pv hpv => hc.serializePValue
      (fun s hs => hc.free (hclean.records trivial s (List.mem_flatMap.mpr ⟨pv, hpv, hs⟩)))
  have hbars : ∀ pv ∈ pr.accepted, Free '|' (serializePValue pv) := hfree (Or.inl rfl)
  have hbracket : Free ']' (join '|' (pr.accepted.map serializePValue)) := by
    refine free_join (by decide) (fun s hs => ?_)
    obtain ⟨pv, hpv, rfl⟩ := List.mem_map.mp hs
    exact hfree (Or.inr rfl) pv hpv
  have htext := serialize_promise hnil hbars
  obtain ⟨rest, hsplit⟩ := split_listed (hfields _ List.mem_cons_self).1 (promiseFields pr)
    (List.cons_ne_nil _ _) "accepted:" (join '|' (pr.accepted.map serializePValue))
  have hcut := cutList_listed (fun s hs => (hfields s hs).2) (show Free '[' "accepted:" by decide) hbracket
    "malformed promise accepted list"
  rw [← htext] at hsplit hcut
  have hdes := deserialize_promise hsplit
  by_cases hset : ∃ pv ∈ pr.accepted, IsSet (writtenValue pv).command
  · right
    obtain ⟨pv, hpv, hcmd⟩ := hset
    have herror := (hread pv hpv).resolve_left (fun h => h.1 hcmd)
    obtain ⟨e, he⟩ := deserializeEntries_error hbars hpv herror.2
    refine ⟨fun hreadable => ?_, e, by rw [hdes, deserializePromise_error hcut he]⟩
    refine hreadable.1 (writtenValue pv).command ?_ hcmd
    obtain ⟨slot, ballot, value⟩ := pv
    cases value with
    | none =>
        obtain ⟨key, value, hnone⟩ := hcmd
        cases hnone
    | some v => exact List.mem_map.mpr ⟨v, List.mem_filterMap.mpr ⟨_, hpv, rfl⟩, rfl⟩
  · left
    have hok : ∀ pv ∈ pr.accepted, deserializePValue (serializePValue pv) =
        .ok (some (normalPValue pv)) :=
      fun pv hpv => ((hread pv hpv).resolve_right (fun h => hset ⟨pv, hpv, h.1⟩)).2
    refine ⟨⟨fun cmd hcmd => ?_, by simp⟩, ?_⟩
    · obtain ⟨v, hv, rfl⟩ := List.mem_map.mp hcmd
      obtain ⟨pv, hpv, hvalue⟩ := List.mem_filterMap.mp hv
      intro hcmd
      refine hset ⟨pv, hpv, ?_⟩
      rw [writtenValue, hvalue]
      exact hcmd
    · have hparts := drop_split_header (fun s hs => (hfields s hs).1)
      obtain ⟨hs, hb⟩ := number_promiseFields hslot hballot [""] (Or.inr rfl)
      rw [hdes, deserializePromise_ok hcut (deserializeEntries_ok (by rfl) hbars hok) (hparts ▸ hs)
        (hparts ▸ hb)]
      rfl

/-! ### Reports of results

A report goes the way of a promise, with results for entries. Its list is written even if it is empty. -/

theorem deserializeExecuted_ok {raw header : String} {list : Option String}
    {results : List ExecuteResult} {adu : Slot}
    (hcut : cutList raw "results:[" "malformed executed results list" = .ok (header, list))
    (hlist : deserializeEntries deserializeResult list = .ok results)
    (hadu : number "adu" ((split header ',').drop 1) = some adu) :
    deserializeExecuted raw = .ok (.executed { results, adu }) := by
  simp only [deserializeExecuted, bind, Except.bind, hcut, hlist, hadu]

theorem deserializeExecuted_error {raw header e : String} {list : Option String}
    (hcut : cutList raw "results:[" "malformed executed results list" = .ok (header, list))
    (hlist : deserializeEntries deserializeResult list = .error e) :
    deserializeExecuted raw = .error e := by
  simp only [deserializeExecuted, bind, Except.bind, hcut, hlist]

theorem deserialize_executed {raw : String} {rest : List String}
    (h : split raw ',' = "executed" :: rest) :
    deserializeMessagePayload raw = deserializeExecuted raw := by
  unfold deserializeMessagePayload
  rw [h]
  rfl

def executedFields (exec : Executed) : List String := [keyed "adu" (toString exec.adu)]

theorem free_executedFields (exec : Executed) :
    ∀ s ∈ "executed" :: executedFields exec, Free ',' s ∧ Free '[' s := by
  simp only [executedFields, List.forall_mem_cons]
  exact ⟨by decide, ⟨free_number (by decide) _, free_keyed (by decide) (by decide)
    (free_toString (by decide) _)⟩, by simp⟩

theorem serialize_executed (exec : Executed) :
    serializeMessagePayload (.executed exec) = listed "executed" (executedFields exec) "results:"
      (join '|' (exec.results.map serializeResult)) := by
  show join ',' ("executed" :: executedFields exec) ++ ",results:[" ++ _ ++ "]" = _
  rw [listed, show ",results:[" = "," ++ ("results:" ++ String.singleton '[') from rfl]
  simp only [String.append_assoc]

theorem executed_readsBack {exec : Executed} (hrange : InRange (.executed exec))
    (hclean : Clean (.executed exec)) : ReadsBack (.executed exec) := by
  obtain ⟨hadu, hentries⟩ := hrange
  have hfields := free_executedFields exec
  have htexts : ∀ r ∈ exec.results, ∀ s ∈ valueTexts r.value ++ resultTexts r.cmdResult,
      s ∈ texts (.executed exec) := fun r hr s hs => List.mem_flatMap.mpr ⟨r, hr, hs⟩
  have hfree : ∀ {c}, Delimiter c → ∀ r ∈ exec.results, Free c (serializeResult r) :=
    fun hc r hr => hc.serializeResult
      (fun s hs => hc.free (hclean.records trivial s (htexts r hr s (List.mem_append_left _ hs))))
      (fun s hs => hc.free (hclean.records trivial s (htexts r hr s (List.mem_append_right _ hs))))
  have hbars : ∀ r ∈ exec.results, Free '|' (serializeResult r) := hfree (Or.inl rfl)
  have hbracket : Free ']' (join '|' (exec.results.map serializeResult)) := by
    refine free_join (by decide) (fun s hs => ?_)
    obtain ⟨r, hr, rfl⟩ := List.mem_map.mp hs
    exact hfree (Or.inr rfl) r hr
  have htext := serialize_executed exec
  obtain ⟨rest, hsplit⟩ := split_listed (hfields _ List.mem_cons_self).1 (executedFields exec)
    (List.cons_ne_nil _ _) "results:" (join '|' (exec.results.map serializeResult))
  have hcut := cutList_listed (fun s hs => (hfields s hs).2) (show Free '[' "results:" by decide) hbracket
    "malformed executed results list"
  rw [← htext] at hsplit hcut
  have hdes := deserialize_executed hsplit
  have hread := fun r (hr : r ∈ exec.results) =>
    deserializeResult_serializeResult (hentries r hr).1 (hentries r hr).2
      (fun s hs => hclean.commas s (htexts r hr s (List.mem_append_left _ hs)))
      (fun s hs => hclean.commas s (htexts r hr s (List.mem_append_right _ hs)))
  by_cases hset : ∃ r ∈ exec.results, IsSet r.value.command
  · right
    obtain ⟨r, hr, hcmd⟩ := hset
    have herror := (hread r hr).resolve_left (fun h => h.1 hcmd)
    obtain ⟨e, he⟩ := deserializeEntries_error hbars hr herror.2
    exact ⟨fun hreadable => hreadable.1 r.value.command (List.mem_map.mpr ⟨r, hr, rfl⟩) hcmd,
      e, by rw [hdes, deserializeExecuted_error hcut he]⟩
  · left
    have hok : ∀ r ∈ exec.results, deserializeResult (serializeResult r) =
        .ok (some { r with cmdResult := normalResult r.cmdResult }) :=
      fun r hr => ((hread r hr).resolve_right (fun h => hset ⟨r, hr, h.1⟩)).2
    refine ⟨⟨fun cmd hcmd => ?_, by simp⟩, ?_⟩
    · obtain ⟨r, hr, rfl⟩ := List.mem_map.mp hcmd
      exact fun hcmd => hset ⟨r, hr, hcmd⟩
    · have hparts := drop_split_header (fun s hs => (hfields s hs).1)
      have hnumber : number "adu" (executedFields exec ++ [""]) = some exec.adu := by
        refine number_eq ?_ hadu
        simp (disch := decide) [executedFields, field_cons, field_nil, value?_keyed, value?_of_free]
      rw [hdes, deserializeExecuted_ok hcut (deserializeEntries_ok (by rfl) hbars hok)
        (hparts ▸ hnumber)]
      rfl

/-! ### All payloads

The kinds of payload in one statement. -/

/-- **A clean payload comes back as its normal form, or not at all.** -/
theorem readsBack {p : MessagePayload} (hrange : InRange p) (hclean : Clean p) : ReadsBack p := by
  cases p with
  | ignore => exact readsBack_of_ok rfl (by simp) (by rfl)
  | clientRequest v => exact clientRequest_readsBack hrange hclean
  | clientResponse cr => exact clientResponse_readsBack hrange hclean
  | prepare p => exact prepare_readsBack hrange
  | promise pr => exact promise_readsBack hrange hclean
  | accept a => exact accept_readsBack hrange hclean
  | accepted a => exact accepted_readsBack hrange
  | learn l => exact learn_readsBack hrange hclean
  | heartbeat => exact readsBack_of_ok rfl (by simp) (by rfl)
  | executed exec => exact executed_readsBack hrange hclean
  | retryLearns retries => exact retryLearns_readsBack hrange
  | benchmark b => exact benchmark_readsBack hrange hclean
  | adu slot => exact adu_readsBack hrange

end Serializer

end PaxosWasm
