import OaLibs.Bus.Message
import OaLibs.Common.AppError

/-!
# Publishing, and reading back what was published

`client.rs`: `Bus::publish` appends one entry of two fields to the stream of the event type.

* `publish`: the result of a publish and the entry it leaves in the stream;
* `GoodEntry`, `MalformedEntry`: the entries a reply may hold, and `ReplyYields`, the messages a
  reply made of them stands for;
* `parseStreamReply_yields`: the parser returns exactly these messages, and in particular reads a
  published event back.
-/

namespace OaLibs

namespace Bus

/-- An entry of a stream. -/
structure StreamEntry where
  stream : String
  fields : List (String × String)
  deriving DecidableEq

/-- The answer to an `XADD`. After an error the entry may be in the stream all the same, when only
the answer was lost. -/
inductive Reply
  | ok (id : String)
  | err (error : String) (appended : Bool)

/-- The entry of an event. -/
def entry (serde : SerdeJson) (eventType : String) (payload : Json) : Except AppError StreamEntry :=
  match serde.toString payload with
  | .error err => .error (.internal err)
  | .ok text =>
      .ok { stream := streamName eventType
            fields := [("eventType", eventType), ("payload", text)] }

/-- `Bus::publish`, with the entry that is in the stream afterwards. -/
def publish (serde : SerdeJson) (eventType : String) (payload : Json) (reply : Reply) :
    Except AppError String × Option StreamEntry :=
  match entry serde eventType payload with
  | .error err => (.error err, none)
  | .ok entry =>
      match reply with
      | .ok id => (.ok id, some entry)
      | .err err appended => (.error (.internal err), if appended then some entry else none)

variable {serde : SerdeJson}

theorem entry_eq_ok {eventType : String} {payload : Json} {e : StreamEntry} :
    entry serde eventType payload = .ok e ↔
      ∃ text, serde.toString payload = .ok text ∧
        e = { stream := streamName eventType
              fields := [("eventType", eventType), ("payload", text)] } := by
  unfold entry
  cases serde.toString payload with
  | error err => simp
  | ok text => simp [eq_comm]

/-- A publish that succeeds has appended the entry of the event. -/
theorem publish_ok {eventType : String} {payload : Json} {reply : Reply} {id : String}
    {e : Option StreamEntry} (h : publish serde eventType payload reply = (.ok id, e)) :
    ∃ entry', entry serde eventType payload = .ok entry' ∧ e = some entry' := by
  unfold publish at h
  cases he : entry serde eventType payload with
  | error err => simp [he] at h
  | ok entry' =>
    cases reply with
    | ok id' =>
      simp only [he, Prod.mk.injEq] at h
      exact ⟨entry', rfl, h.2.symm⟩
    | err err appended => simp [he] at h

/-- Whatever a publish appends is the entry of the event. -/
theorem publish_appended {eventType : String} {payload : Json} {reply : Reply}
    {result : Except AppError String} {e : StreamEntry}
    (h : publish serde eventType payload reply = (result, some e)) :
    entry serde eventType payload = .ok e := by
  unfold publish at h
  cases he : entry serde eventType payload with
  | error err => simp [he] at h
  | ok entry' =>
    cases reply with
    | ok id' =>
      simp only [he, Prod.mk.injEq, Option.some.injEq] at h
      rw [h.2]
    | err err appended =>
      cases appended <;> simp [he] at h
      rw [h.2]

/-- A publish that fails has appended nothing, unless it is the answer that was lost. -/
theorem publish_error {eventType : String} {payload : Json} {reply : Reply} {err : AppError}
    {e : Option StreamEntry} (h : publish serde eventType payload reply = (.error err, e))
    (hreply : ∀ text appended, reply = .err text appended → appended = false) : e = none := by
  unfold publish at h
  cases he : entry serde eventType payload with
  | error err' =>
    simp only [he, Prod.mk.injEq] at h
    exact h.2.symm
  | ok entry' =>
    cases reply with
    | ok id => simp [he] at h
    | err text appended =>
      obtain rfl := hreply text appended rfl
      simp only [he, Prod.mk.injEq] at h
      exact h.2.symm

/-! ### What a reply stands for -/

/-- A stream entry as Redis sends it to a consumer. -/
def StreamEntry.toValue (id : String) (e : StreamEntry) : Value :=
  .array [.bulkString (Text.utf8 id),
    .array (e.fields.flatMap fun f => [.bulkString (Text.utf8 f.1), .bulkString (Text.utf8 f.2)])]

/-- An entry with the printed payload under `payload`, once, and at most one event type. -/
structure GoodEntry (serde : SerdeJson) (entry : Value) (id : String) (eventType : Option String)
    (payload : Json) : Prop where
  reads : ∃ fields rest text,
    entry = .array (.bulkString (Text.utf8 id) :: .array fields :: rest) ∧
    serde.toString payload = .ok text ∧
    (fieldPairs fields).filter (named "payload") =
      [(.bulkString (Text.utf8 "payload"), .bulkString (Text.utf8 text))] ∧
    (fieldPairs fields).filter (named "eventType") =
      (eventType.map fun t =>
        (Value.bulkString (Text.utf8 "eventType"), Value.bulkString (Text.utf8 t))).toList

/-- An entry of another shape, or without a payload that is JSON. -/
def MalformedEntry (serde : SerdeJson) (entry : Value) : Prop :=
  ∀ id fields rest, entry = .array (.bulkString id :: .array fields :: rest) →
    ∀ name raw, (name, Value.bulkString raw) ∈ (fieldPairs fields).filter (named "payload") →
      serde.fromSlice raw = none

/-- The message of a good entry. -/
def goodMessage (stream id : String) (eventType : Option String) (payload : Json) : BusMessage where
  id := id
  stream := stream
  eventType := eventType.getD ((payloadType payload).getD "")
  payload := payload

/-- The messages an entry stands for. -/
inductive EntryYields (serde : SerdeJson) (stream : String) : Value → List BusMessage → Prop
  | good {entry : Value} {id : String} {eventType : Option String} {payload : Json}
      (h : GoodEntry serde entry id eventType payload) :
      EntryYields serde stream entry [goodMessage stream id eventType payload]
  | malformed {entry : Value} (h : MalformedEntry serde entry) : EntryYields serde stream entry []

/-- The messages a stream stands for. -/
inductive StreamYields (serde : SerdeJson) : Value → List BusMessage → Prop
  | shaped {name : List UInt8} {entries rest : List Value} {messages : List (List BusMessage)}
      (h : List.Forall₂ (EntryYields serde (Text.fromUtf8Lossy name)) entries messages) :
      StreamYields serde (.array (.bulkString name :: .array entries :: rest)) messages.flatten
  | malformed {stream : Value}
      (h : ∀ name entries rest, stream ≠ .array (.bulkString name :: .array entries :: rest)) :
      StreamYields serde stream []

/-- The messages a reply stands for. -/
inductive ReplyYields (serde : SerdeJson) : Value → List BusMessage → Prop
  | streams {streams : List Value} {messages : List (List BusMessage)}
      (h : List.Forall₂ (StreamYields serde) streams messages) :
      ReplyYields serde (.array streams) messages.flatten
  | malformed {reply : Value} (h : ∀ streams, reply ≠ .array streams) : ReplyYields serde reply []

/-! ### The parser returns what a reply stands for -/

/-- A function that gives each element the results it stands for. -/
theorem flatMap_eq_flatten {α β : Type} {f : α → List β} {R : α → List β → Prop} {P : β → Prop}
    {xs : List α} {yss : List (List β)} (h : List.Forall₂ R xs yss) (hP : ∀ y ∈ yss.flatten, P y)
    (hf : ∀ x ys, R x ys → (∀ y ∈ ys, P y) → f x = ys) : xs.flatMap f = yss.flatten := by
  induction h with
  | nil => rfl
  | @cons x ys xs yss hx _ ih =>
    rw [List.flatten_cons] at hP
    have hhead : f x = ys := hf x ys hx fun y hy => hP y (List.mem_append_left _ hy)
    have htail := ih fun y hy => hP y (List.mem_append_right _ hy)
    rw [List.flatMap_cons, List.flatten_cons, hhead, htail]

theorem foldl_readPayload_none {pairs : List (Value × Value)}
    (h : ∀ name raw, (name, Value.bulkString raw) ∈ pairs → serde.fromSlice raw = none) :
    pairs.foldl (readPayload serde) none = none := by
  induction pairs with
  | nil => rfl
  | cons pair pairs ih =>
    obtain ⟨name, raw⟩ := pair
    have hnone : readPayload serde none (name, raw) = none := by
      cases raw with
      | bulkString raw => exact h name raw (by simp)
      | _ => rfl
    rw [List.foldl_cons, hnone]
    exact ih fun name raw hm => h name raw (List.mem_cons_of_mem _ hm)

theorem scanFields_payload (fields : List Value) :
    (scanFields serde fields (none, none)).2 =
      ((fieldPairs fields).filter (named "payload")).foldl (readPayload serde) none := by
  rw [scanFields_eq, payload_scan]

theorem scanFields_eventType (fields : List Value) :
    (scanFields serde fields (none, none)).1 =
      ((fieldPairs fields).filter (named "eventType")).foldl readEventType none := by
  rw [scanFields_eq, eventType_scan]

theorem entryMessages_good {stream id : String} {entry : Value} {eventType : Option String}
    {payload : Json} (h : GoodEntry serde entry id eventType payload)
    (hround : serde.RoundTrips payload) :
    entryMessages serde stream entry = [goodMessage stream id eventType payload] := by
  obtain ⟨fields, rest, text, rfl, htext, hpayload, htype⟩ := h.reads
  -- Of all fields only those of the two names are seen, and there is one payload.
  have hp : (scanFields serde fields (none, none)).2 = some payload := by
    rw [scanFields_payload, hpayload]
    exact hround text htext
  have ht : (scanFields serde fields (none, none)).1 = eventType := by
    rw [scanFields_eventType, htype]
    cases eventType with
    | none => rfl
    | some t => exact congrArg some (Text.fromUtf8Lossy_utf8 t)
  have hscan : scanFields serde fields (none, none) = (eventType, some payload) := by
    rw [← ht, ← hp]
  rw [entryMessages, hscan, Text.fromUtf8Lossy_utf8]
  cases eventType <;> rfl

theorem entryMessages_malformed {stream : String} {entry : Value} (h : MalformedEntry serde entry) :
    entryMessages serde stream entry = [] := by
  unfold entryMessages
  split
  · rename_i id fields rest
    have hp : (scanFields serde fields (none, none)).2 = none := by
      rw [scanFields_payload]
      exact foldl_readPayload_none (h id fields rest rfl)
    split
    · rename_i heq
      rw [heq] at hp
      cases hp
    · rfl
  · rfl

theorem entryMessages_yields {stream : String} {entry : Value} {messages : List BusMessage}
    (h : EntryYields serde stream entry messages)
    (hround : ∀ msg ∈ messages, serde.RoundTrips msg.payload) :
    entryMessages serde stream entry = messages := by
  cases h with
  | good h => exact entryMessages_good h (hround _ (List.mem_singleton_self _))
  | malformed h => exact entryMessages_malformed h

theorem streamMessages_yields {stream : Value} {messages : List BusMessage}
    (h : StreamYields serde stream messages)
    (hround : ∀ msg ∈ messages, serde.RoundTrips msg.payload) :
    streamMessages serde stream = messages := by
  cases h with
  | shaped h =>
    exact flatMap_eq_flatten h hround fun _ _ => entryMessages_yields
  | malformed h =>
    unfold streamMessages
    split
    · exact absurd rfl (h _ _ _)
    · rfl

theorem parseStreamReply_of_yields {reply : Value} {messages : List BusMessage}
    (h : ReplyYields serde reply messages)
    (hround : ∀ msg ∈ messages, serde.RoundTrips msg.payload) :
    parseStreamReply serde reply = messages := by
  cases h with
  | streams h =>
    rw [parseStreamReply_array]
    exact flatMap_eq_flatten h hround fun _ _ => streamMessages_yields
  | malformed h =>
    unfold parseStreamReply
    split
    · exact absurd rfl (h _)
    · rfl

/-- What a publish appends is a good entry. -/
theorem goodEntry_published {eventType : String} {payload : Json} {e : StreamEntry}
    (h : entry serde eventType payload = .ok e) (id : String) :
    GoodEntry serde (e.toValue id) id (some eventType) payload := by
  obtain ⟨text, htext, rfl⟩ := entry_eq_ok.1 h
  refine ⟨⟨_, [], text, rfl, htext, ?_, ?_⟩⟩
  · simp [fieldPairs, named, utf8_payload_ne_eventType.symm]
  · simp [fieldPairs, named, utf8_payload_ne_eventType]

/-- A reply is read as the messages it stands for, whatever stands between its good entries; and a
published event is read back as it was published. -/
theorem parseStreamReply_yields (serde : SerdeJson) :
    (∀ reply messages, ReplyYields serde reply messages →
      (∀ msg ∈ messages, serde.RoundTrips msg.payload) →
      parseStreamReply serde reply = messages) ∧
    (∀ eventType payload id e, publish serde eventType payload (.ok id) = (.ok id, some e) →
      serde.RoundTrips payload →
      parseStreamReply serde
          (.array [.array [.bulkString (Text.utf8 e.stream), .array [e.toValue id]]]) =
        [{  id := id
            stream := streamName eventType
            eventType := eventType
            payload := payload }]) := by
  refine ⟨fun reply messages => parseStreamReply_of_yields, ?_⟩
  intro eventType payload id e hpub hround
  have hentry : entry serde eventType payload = .ok e := publish_appended hpub
  obtain ⟨text, -, he⟩ := entry_eq_ok.1 hentry
  have hgood := goodEntry_published hentry id
  have hname : Text.fromUtf8Lossy (Text.utf8 e.stream) = streamName eventType := by
    rw [Text.fromUtf8Lossy_utf8, he]
  have hstream : StreamYields serde
      (.array [.bulkString (Text.utf8 e.stream), .array [e.toValue id]])
      [goodMessage (streamName eventType) id (some eventType) payload] := by
    rw [← hname]
    exact .shaped (.cons (.good hgood) .nil)
  have hreply := ReplyYields.streams (.cons hstream .nil)
  exact parseStreamReply_of_yields hreply fun msg hmsg => by
    rw [List.mem_singleton.1 hmsg]
    exact hround

/-- A printer and parser that know one event. -/
def sampleSerde : SerdeJson where
  toString v :=
    match v with
    | .object [("type", .string t)] => .ok ("\x7b\"type\":\"" ++ t ++ "\"\x7d")
    | _ => .error "unsupported value"
  fromSlice bytes :=
    if bytes = Text.utf8 "\x7b\"type\":\"task.assigned\"\x7d" then
      some (.object [("type", .string "task.assigned")])
    else none

/-- The event of the sample. -/
def sampleEvent : Json := .object [("type", .string "task.assigned")]

theorem roundTrips_sampleEvent : sampleSerde.RoundTrips sampleEvent := by
  intro text h
  have htext : "\x7b\"type\":\"" ++ "task.assigned" ++ "\"\x7d" = text := Except.ok.inj h
  have hsample : text = "\x7b\"type\":\"task.assigned\"\x7d" := htext.symm.trans (by decide)
  exact if_pos (congrArg Text.utf8 hsample)

/-- An entry of the sample event that leaves out the event type. -/
def sampleEntry : Value :=
  .array [.bulkString (Text.utf8 "2-0"), .array [.bulkString (Text.utf8 "payload"),
    .bulkString (Text.utf8 "\x7b\"type\":\"task.assigned\"\x7d")]]

theorem goodEntry_sampleEntry : GoodEntry sampleSerde sampleEntry "2-0" none sampleEvent := by
  refine ⟨⟨_, [], _, rfl, rfl, ?_, ?_⟩⟩
  · simp [fieldPairs, named]
  · simp [fieldPairs, named, utf8_payload_ne_eventType]

theorem parseStreamReply_yields_sample :
    parseStreamReply sampleSerde (.array [.okay,
        .array [.bulkString (Text.utf8 "events.task"), .array [.nil, sampleEntry]]]) =
      [goodMessage "events.task" "2-0" none sampleEvent] ∧
    parseStreamReply sampleSerde (.array [.array [.bulkString (Text.utf8 "events.task"),
        .array [StreamEntry.toValue "1-0" ⟨"events.task", [("eventType", "task.assigned"),
          ("payload", "\x7b\"type\":\"task.assigned\"\x7d")]⟩]]]) =
      [⟨"1-0", "events.task", "task.assigned", sampleEvent⟩] := by
  have hround : ∀ msg ∈ [goodMessage "events.task" "2-0" none sampleEvent],
      sampleSerde.RoundTrips msg.payload := by
    intro msg hmsg
    rw [List.mem_singleton.1 hmsg]
    exact roundTrips_sampleEvent
  have hstream : StreamYields sampleSerde
      (.array [.bulkString (Text.utf8 "events.task"), .array [.nil, sampleEntry]])
      [goodMessage "events.task" "2-0" none sampleEvent] := by
    rw [← Text.fromUtf8Lossy_utf8 "events.task"]
    exact .shaped (.cons (.malformed (by intro _ _ _ h; cases h))
      (.cons (.good goodEntry_sampleEntry) .nil))
  constructor
  · apply (parseStreamReply_yields sampleSerde).1
    · exact .streams (.cons (.malformed (by intro _ _ _ h; cases h)) (.cons hstream .nil))
    · exact hround
  · have hname : streamName "task.assigned" = "events.task" := by decide
    have hpub : publish sampleSerde "task.assigned" sampleEvent (.ok "1-0") =
        (.ok "1-0", some ⟨"events.task", [("eventType", "task.assigned"),
          ("payload", "\x7b\"type\":\"task.assigned\"\x7d")]⟩) := rfl
    have hread := (parseStreamReply_yields sampleSerde).2 "task.assigned" sampleEvent "1-0" _ hpub
      roundTrips_sampleEvent
    rw [hname] at hread
    exact hread

end Bus

end OaLibs
