import OaLibs.Base.Text
import OaLibs.Common.Json

/-!
# Bus messages and the raw replies of Redis

`message.rs`: the stream of an event type, and the reading of an `XREADGROUP` reply.

* `streamName`: `task.assigned` goes to `events.task`;
* `SerdeJson`: the JSON printer and parser the bus is given;
* `parseStreamReply`: the three nested loops over streams, entries and fields;
* `scanFields_eq`: the walk over the fields is a fold over their pairs, and what it finds under a
  name depends on the pairs of that name only (`eventType_scan`, `payload_scan`).
-/

namespace OaLibs

/-- The JSON printer and parser; what they do is not part of this repository. -/
structure SerdeJson where
  toString : Json → Except String String
  fromSlice : List UInt8 → Option Json

/-- Parsing inverts printing at a value. -/
def SerdeJson.RoundTrips (serde : SerdeJson) (v : Json) : Prop :=
  ∀ text, serde.toString v = .ok text → serde.fromSlice (Text.utf8 text) = some v

namespace Bus

/-- The stream of an event type. -/
def streamName (eventType : String) : String :=
  let module :=
    ((Text.split '.' eventType).head?.filter fun module => !module.isEmpty).getD "system"
  "events." ++ module

example : streamName "task.assigned" = "events.task" := by decide

/-- A reply of Redis; the values of the newer protocol are told apart by a number only. -/
inductive Value
  | nil
  | int (n : Int64)
  | bulkString (data : List UInt8)
  | array (elems : List Value)
  | simpleString (s : String)
  | okay
  | other (tag : ℕ)

/-- An event as consumed. -/
structure BusMessage where
  id : String
  stream : String
  eventType : String
  payload : Json

variable (serde : SerdeJson)

/-- The walk over the fields of an entry, two at a time, with the event type and the payload found
so far. -/
def scanFields : List Value → Option String × Option Json → Option String × Option Json
  | field :: raw :: fields, (eventType, payload) =>
      match field, raw with
      | .bulkString field, .bulkString raw =>
          if field = Text.utf8 "eventType" then
            scanFields fields (some (Text.fromUtf8Lossy raw), payload)
          -- a payload that is no JSON takes back one that was found before
          else if field = Text.utf8 "payload" then
            scanFields fields (eventType, serde.fromSlice raw)
          else scanFields fields (eventType, payload)
      | _, _ => scanFields fields (eventType, payload)
  | _, found => found

/-- The string under the `type` key of a payload. -/
def payloadType (payload : Json) : Option String := (payload.get "type").bind Json.asStr

/-- The loop over the entries of a stream. -/
def parseEntries (streamName : String) : List Value → List BusMessage → List BusMessage
  | [], messages => messages
  | entry :: entries, messages =>
      match entry with
      | .array (.bulkString id :: .array fields :: _) =>
          match scanFields serde fields (none, none) with
          | (eventType, some payload) =>
              parseEntries streamName entries (messages ++ [{
                id := Text.fromUtf8Lossy id
                stream := streamName
                eventType := (eventType.or (payloadType payload)).getD ""
                payload := payload }])
          -- an entry without a payload is skipped, and so is one of another shape
          | (_, none) => parseEntries streamName entries messages
      | _ => parseEntries streamName entries messages

/-- The loop over the streams of a reply. -/
def parseStreams : List Value → List BusMessage → List BusMessage
  | [], messages => messages
  | stream :: streams, messages =>
      match stream with
      | .array (.bulkString streamName :: .array entries :: _) =>
          parseStreams streams (parseEntries serde (Text.fromUtf8Lossy streamName) entries messages)
      | _ => parseStreams streams messages

/-- The messages of an `XREADGROUP` reply. -/
def parseStreamReply : Value → List BusMessage
  | .array streams => parseStreams serde streams []
  | _ => []

/-! ### The fields of an entry -/

/-- The field names with their values; a last field without a value is left out. -/
def fieldPairs : List Value → List (Value × Value)
  | field :: raw :: fields => (field, raw) :: fieldPairs fields
  | _ => []

/-- A pair whose name is a given text. -/
def named (name : String) (pair : Value × Value) : Bool :=
  match pair.1 with
  | .bulkString field => field = Text.utf8 name
  | _ => false

/-- What a pair of the name `eventType` leaves behind. -/
def readEventType (found : Option String) (pair : Value × Value) : Option String :=
  match pair.2 with
  | .bulkString raw => some (Text.fromUtf8Lossy raw)
  | _ => found

/-- What a pair of the name `payload` leaves behind. -/
def readPayload (found : Option Json) (pair : Value × Value) : Option Json :=
  match pair.2 with
  | .bulkString raw => serde.fromSlice raw
  | _ => found

/-- What a pair leaves behind. -/
def readPair (found : Option String × Option Json) (pair : Value × Value) :
    Option String × Option Json :=
  (if named "eventType" pair then readEventType found.1 pair else found.1,
    if named "payload" pair then readPayload serde found.2 pair else found.2)

variable {serde}

theorem utf8_payload_ne_eventType : Text.utf8 "payload" ≠ Text.utf8 "eventType" := by
  intro h
  exact absurd (Text.utf8_injective h) (by decide)

theorem scanFields_eq (fields : List Value) (found : Option String × Option Json) :
    scanFields serde fields found = (fieldPairs fields).foldl (readPair serde) found := by
  induction fields using fieldPairs.induct generalizing found with
  | case1 field raw fields ih =>
    obtain ⟨eventType, payload⟩ := found
    rw [fieldPairs, List.foldl_cons, ← ih]
    conv_lhs => unfold scanFields
    -- Only a pair of two bulk strings is looked at; its name decides what it overwrites.
    split
    · rename_i field raw
      by_cases he : field = Text.utf8 "eventType"
      · subst he
        simp [readPair, readEventType, named, utf8_payload_ne_eventType.symm]
      · by_cases hp : field = Text.utf8 "payload"
        · subst hp
          simp [readPair, readPayload, named, utf8_payload_ne_eventType]
        · simp [readPair, named, he, hp]
    · rename_i hbulk
      congr 1
      cases field with
      | bulkString field =>
        cases raw with
        | bulkString raw => exact absurd rfl (hbulk field raw rfl)
        | _ => simp [readPair, readEventType, readPayload]
      | _ => simp [readPair, named]
  | case2 fields h =>
    unfold scanFields fieldPairs
    split <;> simp_all

theorem eventType_scan (pairs : List (Value × Value)) (found : Option String × Option Json) :
    (pairs.foldl (readPair serde) found).1 =
      (pairs.filter (named "eventType")).foldl readEventType found.1 := by
  induction pairs generalizing found with
  | nil => rfl
  | cons pair pairs ih =>
    rw [List.foldl_cons, ih, List.filter_cons]
    by_cases h : named "eventType" pair = true
    · simp [h, readPair]
    · simp [h, readPair]

theorem payload_scan (pairs : List (Value × Value)) (found : Option String × Option Json) :
    (pairs.foldl (readPair serde) found).2 =
      (pairs.filter (named "payload")).foldl (readPayload serde) found.2 := by
  induction pairs generalizing found with
  | nil => rfl
  | cons pair pairs ih =>
    rw [List.foldl_cons, ih, List.filter_cons]
    by_cases h : named "payload" pair = true
    · simp [h, readPair]
    · simp [h, readPair]

/-! ### The messages of an entry, of a stream and of a reply -/

variable (serde)

/-- The messages of one entry, at most one. -/
def entryMessages (streamName : String) : Value → List BusMessage
  | .array (.bulkString id :: .array fields :: _) =>
      match scanFields serde fields (none, none) with
      | (eventType, some payload) =>
          [{  id := Text.fromUtf8Lossy id
              stream := streamName
              eventType := (eventType.or (payloadType payload)).getD ""
              payload := payload }]
      | (_, none) => []
  | _ => []

/-- The messages of one stream. -/
def streamMessages : Value → List BusMessage
  | .array (.bulkString streamName :: .array entries :: _) =>
      entries.flatMap (entryMessages serde (Text.fromUtf8Lossy streamName))
  | _ => []

variable {serde}

theorem parseEntries_eq (streamName : String) (entries : List Value) (messages : List BusMessage) :
    parseEntries serde streamName entries messages =
      messages ++ entries.flatMap (entryMessages serde streamName) := by
  induction entries generalizing messages with
  | nil => simp [parseEntries]
  | cons entry entries ih =>
    rw [List.flatMap_cons, ← List.append_assoc, ← ih]
    conv_lhs => unfold parseEntries
    unfold entryMessages
    split
    · split
      · rfl
      · rw [List.append_nil]
    · rw [List.append_nil]

theorem parseStreams_eq (streams : List Value) (messages : List BusMessage) :
    parseStreams serde streams messages = messages ++ streams.flatMap (streamMessages serde) := by
  induction streams generalizing messages with
  | nil => simp [parseStreams]
  | cons stream streams ih =>
    rw [List.flatMap_cons, ← List.append_assoc, ← ih]
    conv_lhs => unfold parseStreams
    unfold streamMessages
    split
    · rw [parseEntries_eq]
    · rw [List.append_nil]

theorem parseStreamReply_array (streams : List Value) :
    parseStreamReply serde (.array streams) = streams.flatMap (streamMessages serde) := by
  rw [parseStreamReply, parseStreams_eq, List.nil_append]

end Bus

end OaLibs
