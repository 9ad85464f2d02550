import OaLibs.Base.Streams
import OaLibs.Bus.Client

/-!
# The bus over a Redis server

`client.rs` with the server as a parameter: every function builds a command, sends it and converts
the answer. A server is anything that carries out commands; `Lawful` says what the commands of this
file do to its streams and groups.

* `Redis`, `query`: a connection, and one command with its answer;
* `Client.publish`, `ensureGroup`, `readGroup`, `ack`, `ping`: the functions of the client;
* `Redis.Lawful`: the documented effects of the commands, with answers that may be lost;
* `publish_spec`, `ensureGroup_spec`, `readGroup_spec`, `ack_spec`: what the functions do to the
  streams, and what their results tell about it;
* `miniRedis`: a small server that is lawful.
-/

namespace OaLibs

namespace Bus

/-- A connection. Besides the command and the state of the server, an answer depends on what happens
to the connection. A read that blocks takes effect when it is answered. -/
structure Redis (Srv Env : Type) where
  exec : Env → List String → Srv → Except String Value × Srv
  string : Value → Except String String
  unit : Value → Except String Unit
  int : Value → Except String Int64

/-- One command, with its answer converted. -/
def Redis.query {Srv Env α : Type} (redis : Redis Srv Env) (convert : Value → Except String α)
    (env : Env) (args : List String) (srv : Srv) : Except String α × Srv :=
  match redis.exec env args srv with
  | (.error err, srv) => (.error err, srv)
  | (.ok value, srv) => (convert value, srv)

/-- The text of an error names a group that exists already. -/
def BusyGroup (err : String) : Prop := "BUSYGROUP".toList <:+: err.toList

instance (err : String) : Decidable (BusyGroup err) :=
  inferInstanceAs (Decidable (_ <:+: _))

namespace Client

variable {Srv Env : Type} (redis : Redis Srv Env) (serde : SerdeJson) (env : Env)

/-- Append an event to the stream of its module; the id of the entry is returned. -/
def publish (eventType : String) (payload : Json) (srv : Srv) : Except AppError String × Srv :=
  match serde.toString payload with
  | .error err => (.error (.internal err), srv)
  | .ok text =>
      let (id, srv) := redis.query redis.string env
        ["XADD", streamName eventType, "*", "eventType", eventType, "payload", text] srv
      (id.mapError .internal, srv)

/-- Make a group that begins at the end of the stream; a group that is there already is left as it
is. -/
def ensureGroup (stream group : String) (srv : Srv) : Except AppError Unit × Srv :=
  match redis.query redis.unit env
      ["XGROUP", "CREATE", stream, group, "$", "MKSTREAM"] srv with
  | (.ok _, srv) => (.ok (), srv)
  | (.error err, srv) =>
      if BusyGroup err then (.ok (), srv) else (.error (.internal err), srv)

/-- Read the new entries of some streams as a consumer of a group. -/
def readGroup (streams : List String) (group consumer : String) (count blockMs : ℕ) (srv : Srv) :
    Except AppError (List BusMessage) × Srv :=
  if streams.isEmpty then (.ok [], srv)
  else
    let args := ["XREADGROUP", "GROUP", group, consumer, "COUNT", toString count, "BLOCK",
      toString blockMs, "STREAMS"] ++ streams ++ streams.map fun _ => ">"
    match redis.query .ok env args srv with
    | (.error err, srv) => (.error (.internal err), srv)
    | (.ok value, srv) => (.ok (parseStreamReply serde value), srv)

/-- Confirm that entries have been worked on. -/
def ack (stream group : String) (ids : List String) (srv : Srv) : Except AppError Unit × Srv :=
  if ids.isEmpty then (.ok (), srv)
  else
    match redis.query redis.int env (["XACK", stream, group] ++ ids) srv with
    | (.error err, srv) => (.error (.internal err), srv)
    | (.ok _, srv) => (.ok (), srv)

/-- A sign of life. -/
def ping (srv : Srv) : Except AppError Unit × Srv :=
  match redis.query redis.string env ["PING"] srv with
  | (.error err, srv) => (.error (.internal err), srv)
  | (.ok _, srv) => (.ok (), srv)

end Client

/-! ### What the commands do -/

/-- The fields of an entry. -/
abbrev Fields := List (String × String)

/-- The streams of a server, with their groups. -/
abbrev Log := Streams String String String Fields

/-- An action on the streams of a server. -/
abbrev LogAction := Streams.Action String String String Fields

/-- A batch of entries of one stream, as a reply has it. -/
def batchValue (batch : String × List (String × Fields)) : Value :=
  .array [.bulkString (Text.utf8 batch.1),
    .array (batch.2.map fun e => (StreamEntry.mk batch.1 e.2).toValue e.1)]

/-- The reply to a read: the batches of the streams that have any, or nil. -/
def replyValue (served : List (String × List (String × Fields))) : Value :=
  match served with
  | [] => .nil
  | _ => .array (served.map batchValue)

/-- The effects of the commands as they are documented. An error may come from the connection: then
the command may have been carried out all the same, and only its answer was lost. -/
structure Redis.Lawful {Srv Env : Type} (redis : Redis Srv Env) (view : Srv → Log) : Prop where
  string_bulkString : ∀ id, redis.string (.bulkString (Text.utf8 id)) = .ok id
  /-- `XADD` appends one entry under a new id, which is its answer. -/
  xadd : ∀ env key fields srv answer srv',
    redis.exec env (["XADD", key, "*"] ++ fields.flatMap fun f => [f.1, f.2]) srv =
      (answer, srv') →
    (∃ err, answer = .error err ∧ view srv' = view srv) ∨
    ∃ id, Streams.step (view srv) (.append key id fields) = some (view srv') ∧
      (answer = .ok (.bulkString (Text.utf8 id)) ∨ ∃ err, answer = .error err)
  /-- `XGROUP CREATE` at `$` makes a group once. -/
  xgroupCreate : ∀ env key group srv answer srv',
    redis.exec env ["XGROUP", "CREATE", key, group, "$", "MKSTREAM"] srv = (answer, srv') →
    (∃ err, answer = .error err ∧ view srv' = view srv) ∨
    Streams.step (view srv) (.create key group) = some (view srv')
  /-- The error `BUSYGROUP` is about a group that is there. -/
  busyGroup : ∀ env key group srv err srv',
    redis.exec env ["XGROUP", "CREATE", key, group, "$", "MKSTREAM"] srv = (.error err, srv') →
    BusyGroup err → ((view srv').groups (key, group)).isSome = true
  /-- `XREADGROUP` with `>` hands out entries the group has not been given, from any of the streams
  it names, and answers with nil only if there are none. -/
  xreadgroup : ∀ env group consumer count blockMs streams srv answer srv',
    redis.exec env (["XREADGROUP", "GROUP", group, consumer, "COUNT", toString (count : ℕ), "BLOCK",
      toString (blockMs : ℕ), "STREAMS"] ++ streams ++ streams.map fun _ => ">") srv =
      (answer, srv') →
    ∃ served : List (String × List (String × Fields)),
      (∀ batch ∈ served, batch.1 ∈ streams ∧ batch.2 ≠ []) ∧
      Runs.run Streams.step (view srv) (served.map fun batch => .deliver batch.1 group batch.2) =
        some (view srv') ∧
      ((∃ err, answer = .error err) ∨ answer = .ok (replyValue served) ∧
        (served = [] → ∀ key ∈ streams, ∀ g, (view srv).groups (key, group) = some g →
          (view srv).after key g = []))
  /-- `XACK` takes ids off the pending ones. -/
  xack : ∀ env key group ids srv answer srv',
    redis.exec env (["XACK", key, group] ++ ids) srv = (answer, srv') →
    (∃ err, answer = .error err ∧ view srv' = view srv) ∨
    Streams.step (view srv) (.acknowledge key group ids) = some (view srv')
  ping : ∀ env srv answer srv', redis.exec env ["PING"] srv = (answer, srv') →
    view srv' = view srv

/-! ### What a reply is parsed to -/

variable {serde : SerdeJson}

variable (serde) in
/-- The messages of some entries of a stream. -/
def logMessages (stream : String) (entries : List (String × Fields)) : List BusMessage :=
  entries.flatMap fun e => entryMessages serde stream ((StreamEntry.mk stream e.2).toValue e.1)

theorem logMessages_append (stream : String) (entries entries' : List (String × Fields)) :
    logMessages serde stream (entries ++ entries') =
      logMessages serde stream entries ++ logMessages serde stream entries' :=
  List.flatMap_append

/-- An entry is read as one message under its id, or skipped. -/
theorem entryMessages_toValue (stream id : String) (e : StreamEntry) :
    entryMessages serde stream (e.toValue id) = [] ∨ ∃ eventType payload,
      entryMessages serde stream (e.toValue id) = [⟨id, stream, eventType, payload⟩] := by
  rw [StreamEntry.toValue, entryMessages]
  cases scanFields serde _ (none, none) with
  | mk eventType payload =>
    cases payload with
    | none => exact Or.inl rfl
    | some payload =>
      rw [Text.fromUtf8Lossy_utf8]
      exact Or.inr ⟨_, _, rfl⟩

theorem stream_of_mem_logMessages {stream : String} {entries : List (String × Fields)}
    {msg : BusMessage} (h : msg ∈ logMessages serde stream entries) : msg.stream = stream := by
  obtain ⟨e, -, hmsg⟩ := List.mem_flatMap.1 h
  rcases entryMessages_toValue stream e.1 ⟨stream, e.2⟩ with hnil | ⟨_, _, hone⟩
  · rw [hnil] at hmsg
    cases hmsg
  · rw [hone, List.mem_singleton] at hmsg
    rw [hmsg]

/-- The ids of the messages are those of the entries, but for the entries that are skipped. -/
theorem ids_logMessages (stream : String) (entries : List (String × Fields)) :
    ((logMessages serde stream entries).map BusMessage.id).Sublist (Streams.ids entries) := by
  induction entries with
  | nil => exact List.Sublist.refl _
  | cons e entries ih =>
    rw [logMessages, List.flatMap_cons, List.map_append]
    rcases entryMessages_toValue stream e.1 ⟨stream, e.2⟩ with hnil | ⟨_, _, hone⟩
    · rw [hnil]
      exact ih.trans (List.sublist_cons_self _ _)
    · rw [hone]
      exact ih.cons_cons _

theorem streamMessages_batchValue (batch : String × List (String × Fields)) :
    streamMessages serde (batchValue batch) = logMessages serde batch.1 batch.2 := by
  rw [batchValue, streamMessages, Text.fromUtf8Lossy_utf8, List.flatMap_map]
  rfl

/-- A reply is read as the messages of the entries that were handed out. -/
theorem parseStreamReply_replyValue (served : List (String × List (String × Fields))) :
    parseStreamReply serde (replyValue served) =
      served.flatMap fun batch => logMessages serde batch.1 batch.2 := by
  unfold replyValue
  split
  · rfl
  · rw [parseStreamReply_array, List.flatMap_map]
    exact congrArg (fun f => List.flatMap f served) (funext streamMessages_batchValue)

/-! ### What the functions do -/

variable {Srv Env : Type} {redis : Redis Srv Env} {view : Srv → Log} {env : Env} {srv srv' : Srv}

/-- A publish appends the entry of its event or nothing; if it returns an id, the entry is there
under this id. -/
theorem publish_spec (law : redis.Lawful view) {eventType : String} {payload : Json}
    {result : Except AppError String}
    (h : Client.publish redis serde env eventType payload srv = (result, srv')) :
    (∃ err, result = .error err ∧ view srv' = view srv) ∨
    ∃ id e, entry serde eventType payload = .ok e ∧
      Streams.step (view srv) (.append e.stream id e.fields) = some (view srv') ∧
      (result = .ok id ∨ ∃ err, result = .error err) := by
  unfold Client.publish at h
  cases htext : serde.toString payload with
  | error err =>
    simp only [htext, Prod.mk.injEq] at h
    obtain ⟨rfl, rfl⟩ := h
    exact Or.inl ⟨_, rfl, rfl⟩
  | ok text =>
    have hentry : entry serde eventType payload = .ok _ := entry_eq_ok.2 ⟨text, htext, rfl⟩
    cases hexec : redis.exec env (["XADD", streamName eventType, "*"] ++
        [("eventType", eventType), ("payload", text)].flatMap fun f => [f.1, f.2]) srv with
    | mk answer srv₁ =>
      have hexec' := hexec
      simp only [List.flatMap_cons, List.flatMap_nil, List.append_nil, List.cons_append,
        List.nil_append] at hexec'
      rcases law.xadd _ _ _ _ _ _ hexec with ⟨err, rfl, hview⟩ | ⟨id, hstep, hanswer⟩
      · simp only [htext, Redis.query, hexec', Except.mapError, Prod.mk.injEq] at h
        obtain ⟨rfl, rfl⟩ := h
        exact Or.inl ⟨_, rfl, hview⟩
      · rcases hanswer with rfl | ⟨err, rfl⟩
        · simp only [htext, Redis.query, hexec', law.string_bulkString, Except.mapError,
            Prod.mk.injEq] at h
          obtain ⟨rfl, rfl⟩ := h
          exact Or.inr ⟨id, _, hentry, hstep, Or.inl rfl⟩
        · simp only [htext, Redis.query, hexec', Except.mapError, Prod.mk.injEq] at h
          obtain ⟨rfl, rfl⟩ := h
          exact Or.inr ⟨id, _, hentry, hstep, Or.inr ⟨_, rfl⟩⟩

/-- A group is made or left as it is; after an `Ok` it is there. -/
theorem ensureGroup_spec (law : redis.Lawful view) {stream group : String}
    {result : Except AppError Unit}
    (h : Client.ensureGroup redis env stream group srv = (result, srv')) :
    (view srv' = view srv ∨
      Streams.step (view srv) (.create stream group) = some (view srv')) ∧
    (result = .ok () → ((view srv').groups (stream, group)).isSome = true) := by
  unfold Client.ensureGroup Redis.query at h
  cases hexec : redis.exec env ["XGROUP", "CREATE", stream, group, "$", "MKSTREAM"] srv with
  | mk answer srv₁ =>
    have hsrv : srv₁ = srv' := by
      cases answer with
      | error err =>
        simp only [hexec] at h
        split_ifs at h <;> exact (Prod.mk.inj h).2
      | ok value =>
        simp only [hexec] at h
        cases hunit : redis.unit value with
        | ok _ =>
          simp only [hunit] at h
          exact (Prod.mk.inj h).2
        | error err =>
          simp only [hunit] at h
          split_ifs at h <;> exact (Prod.mk.inj h).2
    subst hsrv
    -- An error is swallowed only if it says that the group is there.
    have hbusy : ∀ err, answer = .error err → result = .ok () →
        ((view srv₁).groups (stream, group)).isSome = true := by
      rintro err rfl rfl
      simp only [hexec] at h
      split_ifs at h with hb
      · exact law.busyGroup _ _ _ _ _ _ hexec hb
      · cases (Prod.mk.inj h).1
    rcases law.xgroupCreate _ _ _ _ _ _ hexec with ⟨err, herr, hview⟩ | hstep
    · exact ⟨Or.inl hview, hbusy err herr⟩
    · refine ⟨Or.inr hstep, fun _ => ?_⟩
      rw [Streams.groups_create hstep]
      rfl

/-- A read hands out entries of the streams it names, and unless it fails it returns the messages of
all of them; it returns without an entry only if the group has been given everything. -/
theorem readGroup_spec (law : redis.Lawful view) {streams : List String} {group consumer : String}
    {count blockMs : ℕ} {result : Except AppError (List BusMessage)}
    (h : Client.readGroup redis serde env streams group consumer count blockMs srv =
      (result, srv')) :
    ∃ served : List (String × List (String × Fields)),
      (∀ batch ∈ served, batch.1 ∈ streams ∧ batch.2 ≠ []) ∧
      Runs.run Streams.step (view srv) (served.map fun batch => .deliver batch.1 group batch.2) =
        some (view srv') ∧
      ((∃ err, result = .error err) ∨
        result = .ok (served.flatMap fun batch => logMessages serde batch.1 batch.2) ∧
        (served = [] → ∀ key ∈ streams, ∀ g, (view srv).groups (key, group) = some g →
          (view srv).after key g = [])) := by
  unfold Client.readGroup at h
  split_ifs at h with hempty
  · obtain ⟨rfl, rfl⟩ := Prod.mk.inj h
    rw [List.isEmpty_iff] at hempty
    subst hempty
    exact ⟨[], by simp, rfl, Or.inr ⟨rfl, by simp⟩⟩
  · unfold Redis.query at h
    cases hexec : redis.exec env (["XREADGROUP", "GROUP", group, consumer, "COUNT",
        toString count, "BLOCK", toString blockMs, "STREAMS"] ++ streams ++
        streams.map fun _ => ">") srv with
    | mk answer srv₁ =>
      obtain ⟨served, hserved, hrun, hanswer⟩ := law.xreadgroup _ _ _ _ _ _ _ _ _ hexec
      rcases hanswer with ⟨err, rfl⟩ | ⟨rfl, hnone⟩
      · simp only [hexec] at h
        obtain ⟨rfl, rfl⟩ := Prod.mk.inj h
        exact ⟨served, hserved, hrun, Or.inl ⟨_, rfl⟩⟩
      · simp only [hexec] at h
        obtain ⟨rfl, rfl⟩ := Prod.mk.inj h
        exact ⟨served, hserved, hrun, Or.inr ⟨by rw [parseStreamReply_replyValue], hnone⟩⟩

/-- An `ack` takes its ids off the pending ones or does nothing; after an `Ok` they are off. -/
theorem ack_spec (law : redis.Lawful view) {stream group : String} {ids : List String}
    {result : Except AppError Unit}
    (h : Client.ack redis env stream group ids srv = (result, srv')) :
    ((∃ err, result = .error err) ∨ ids = []) ∧ view srv' = view srv ∨
    Streams.step (view srv) (.acknowledge stream group ids) = some (view srv') := by
  unfold Client.ack at h
  split_ifs at h with hempty
  · obtain ⟨rfl, rfl⟩ := Prod.mk.inj h
    exact Or.inl ⟨Or.inr (List.isEmpty_iff.1 hempty), rfl⟩
  · unfold Redis.query at h
    cases hexec : redis.exec env (["XACK", stream, group] ++ ids) srv with
    | mk answer srv₁ =>
      have hlaw := law.xack _ _ _ _ _ _ _ hexec
      cases answer with
      | error err =>
        simp only [hexec] at h
        obtain ⟨rfl, rfl⟩ := Prod.mk.inj h
        rcases hlaw with ⟨_, -, hview⟩ | hstep
        · exact Or.inl ⟨Or.inl ⟨_, rfl⟩, hview⟩
        · exact Or.inr hstep
      | ok value =>
        have hsrv : srv₁ = srv' := by
          simp only [hexec] at h
          cases hint : redis.int value <;> simp only [hint] at h <;> exact (Prod.mk.inj h).2
        subst hsrv
        rcases hlaw with ⟨_, herr, -⟩ | hstep
        · cases herr
        · exact Or.inr hstep

theorem ping_spec (law : redis.Lawful view) {result : Except AppError Unit}
    (h : Client.ping redis env srv = (result, srv')) : view srv' = view srv := by
  unfold Client.ping Redis.query at h
  cases hexec : redis.exec env ["PING"] srv with
  | mk answer srv₁ =>
    have hsrv : srv₁ = srv' := by
      cases answer with
      | error err =>
        simp only [hexec] at h
        exact (Prod.mk.inj h).2
      | ok value =>
        simp only [hexec] at h
        cases hstring : redis.string value <;> simp only [hstring] at h <;> exact (Prod.mk.inj h).2
    exact hsrv ▸ law.ping _ _ _ _ hexec

/-! ### A small server -/

/-- The fields of an `XADD`. -/
def pairs : List String → Fields
  | name :: value :: rest => (name, value) :: pairs rest
  | _ => []

theorem pairs_flatMap (fields : Fields) : pairs (fields.flatMap fun f => [f.1, f.2]) = fields := by
  induction fields with
  | nil => rfl
  | cons f fields ih => exact congrArg (f :: ·) ih

/-- The entries of the streams that a group has not been given, at most `count` of each; a count of
zero is no bound. -/
def serve (group : String) (count : ℕ) :
    List String → Log → List (String × List (String × Fields)) × Log
  | [], log => ([], log)
  | key :: keys, log =>
      match log.groups (key, group) with
      | none => serve group count keys log
      | some g =>
          let new := log.after key g
          let batch := new.take (if count = 0 then new.length else count)
          match batch, Streams.step log (.deliver key group batch) with
          | e :: rest, some log' =>
              let (served, log') := serve group count keys log'
              ((key, e :: rest) :: served, log')
          | _, _ => serve group count keys log

/-- The value of a decimal number. -/
def decimalValue (s : String) : ℕ :=
  s.toList.foldl (fun n digit => 10 * n + (digit.toNat - '0'.toNat)) 0

/-- An action with its answer, or an error. -/
def attempt (log : Log) (action : LogAction) (answer : Value) (error : String) :
    Except String Value × Log :=
  match Streams.step log action with
  | some log' => (.ok answer, log')
  | none => (.error error, log)

/-- The commands of the client; ids are counted up. -/
def command (args : List String) (log : Log) : Except String Value × Log :=
  match args with
  | "XADD" :: key :: "*" :: fields =>
      let id := toString ((log.entries key).length + 1) ++ "-0"
      attempt log (.append key id (pairs fields)) (.bulkString (Text.utf8 id)) "ERR"
  | ["XGROUP", "CREATE", key, group, "$", "MKSTREAM"] =>
      attempt log (.create key group) .okay "BUSYGROUP Consumer Group name already exists"
  | "XREADGROUP" :: "GROUP" :: group :: _ :: "COUNT" :: count :: "BLOCK" :: _ :: "STREAMS" ::
      rest =>
      let keys := rest.take (rest.length / 2)
      if keys.all fun key => (log.groups (key, group)).isSome then
        let (served, log') := serve group (decimalValue count) keys log
        (.ok (replyValue served), log')
      else (.error "NOGROUP No such key or consumer group", log)
  | "XACK" :: key :: group :: ids => attempt log (.acknowledge key group ids) (.int 1) "ERR"
  | ["PING"] => (.ok (.simpleString "PONG"), log)
  | _ => (.error "ERR unknown command", log)

/-- A server whose answers may get lost. -/
def miniRedis : Redis Log Bool where
  exec lost args log :=
    match command args log with
    | (answer, log') => (if lost then .error "broken pipe" else answer, log')
  string
    | .bulkString bytes => .ok (Text.fromUtf8Lossy bytes)
    | .simpleString s => .ok s
    | _ => .error "not a string"
  unit _ := .ok ()
  int
    | .int n => .ok n
    | _ => .error "not a number"

/-- What is handed out are front parts of what the group has not been given, and something is handed
out if there is anything. -/
theorem serve_spec (group : String) (count : ℕ) (keys : List String) (log : Log) :
    (∀ batch ∈ (serve group count keys log).1, batch.1 ∈ keys ∧ batch.2 ≠ []) ∧
    Runs.run Streams.step log ((serve group count keys log).1.map fun batch =>
      .deliver batch.1 group batch.2) = some (serve group count keys log).2 ∧
    ((serve group count keys log).1 = [] → ∀ key ∈ keys, ∀ g, log.groups (key, group) = some g →
      log.after key g = []) := by
  induction keys generalizing log with
  | nil => exact ⟨by simp [serve], rfl, by simp⟩
  | cons key keys ih =>
    -- A stream without new entries adds nothing.
    have hskip : (∀ g, log.groups (key, group) = some g → log.after key g = []) →
        serve group count (key :: keys) log = serve group count keys log := by
      intro h
      rw [serve]
      cases hg : log.groups (key, group) with
      | none => rfl
      | some g => simp [h g hg]
    by_cases hnew : ∀ g, log.groups (key, group) = some g → log.after key g = []
    · rw [hskip hnew]
      obtain ⟨hmem, hrun, hnone⟩ := ih log
      refine ⟨fun batch hb => ⟨List.mem_cons_of_mem _ (hmem batch hb).1, (hmem batch hb).2⟩, hrun,
        fun hnil key' hkey => ?_⟩
      rcases List.mem_cons.1 hkey with rfl | hkey
      · exact hnew
      · exact hnone hnil key' hkey
    · simp only [not_forall] at hnew
      obtain ⟨g, hg, hafter⟩ := hnew
      obtain ⟨e, rest, hbatch⟩ : ∃ e rest, (log.after key g).take
          (if count = 0 then (log.after key g).length else count) = e :: rest := by
        refine List.exists_cons_of_ne_nil fun hnil => ?_
        rcases List.take_eq_nil_iff.1 hnil with hzero | hnil
        · split_ifs at hzero with hc
          · exact hafter (List.length_eq_zero_iff.1 hzero)
          · exact hc hzero
        · exact hafter hnil
      have hpre : e :: rest <+: log.after key g := hbatch ▸ List.take_prefix _ _
      obtain ⟨log', hstep⟩ : ∃ log', Streams.step log (.deliver key group (e :: rest)) =
          some log' := by
        simp only [Streams.step, hg, if_pos hpre]
        exact ⟨_, rfl⟩
      have hserve : serve group count (key :: keys) log =
          ((key, e :: rest) :: (serve group count keys log').1,
            (serve group count keys log').2) := by
        rw [serve]
        simp only [hg, hbatch, hstep]
      obtain ⟨hmem, hrun, -⟩ := ih log'
      rw [hserve]
      refine ⟨fun batch hb => ?_, ?_, by simp⟩
      · rcases List.mem_cons.1 hb with rfl | hb
        · exact ⟨List.mem_cons_self, by simp⟩
        · exact ⟨List.mem_cons_of_mem _ (hmem batch hb).1, (hmem batch hb).2⟩
      · rw [List.map_cons, Runs.run_cons, hstep]
        exact hrun

theorem attempt_cases (log : Log) (action : LogAction) (answer : Value) (error : String) :
    (Streams.step log action = none ∧ attempt log action answer error = (.error error, log)) ∨
    ∃ log', Streams.step log action = some log' ∧
      attempt log action answer error = (.ok answer, log') := by
  unfold attempt
  cases Streams.step log action with
  | none => exact Or.inl ⟨rfl, rfl⟩
  | some log' => exact Or.inr ⟨log', rfl, rfl⟩

theorem miniRedis_exec (lost : Bool) (args : List String) (log : Log) :
    miniRedis.exec lost args log =
      (if lost then .error "broken pipe" else (command args log).1, (command args log).2) := rfl

theorem command_xadd (key : String) (fields : Fields) (log : Log) :
    command ("XADD" :: key :: "*" :: fields.flatMap fun f => [f.1, f.2]) log =
      attempt log (.append key (toString ((log.entries key).length + 1) ++ "-0") fields)
        (.bulkString (Text.utf8 (toString ((log.entries key).length + 1) ++ "-0"))) "ERR" := by
  rw [command, pairs_flatMap]

theorem command_xreadgroup (group consumer : String) (count blockMs : ℕ) (streams : List String)
    (log : Log) :
    command (["XREADGROUP", "GROUP", group, consumer, "COUNT", toString count, "BLOCK",
        toString blockMs, "STREAMS"] ++ streams ++ streams.map fun _ => ">") log =
      if streams.all fun key => (log.groups (key, group)).isSome then
        (.ok (replyValue (serve group (decimalValue (toString count)) streams log).1),
          (serve group (decimalValue (toString count)) streams log).2)
      else (.error "NOGROUP No such key or consumer group", log) := by
  have hhalf : (streams ++ streams.map fun _ => ">").length / 2 = streams.length := by
    rw [List.length_append, List.length_map]
    omega
  simp only [List.cons_append, List.nil_append, command, hhalf, List.take_left]

theorem miniRedis_lawful : miniRedis.Lawful id where
  string_bulkString text := congrArg Except.ok (Text.fromUtf8Lossy_utf8 text)
  xadd lost key fields log answer log' h := by
    rw [miniRedis_exec, List.cons_append, List.cons_append, List.cons_append, List.nil_append,
      command_xadd] at h
    obtain ⟨rfl, rfl⟩ := Prod.mk.inj h
    rcases attempt_cases log (.append key (toString ((log.entries key).length + 1) ++ "-0") fields)
        (.bulkString (Text.utf8 (toString ((log.entries key).length + 1) ++ "-0"))) "ERR" with
      ⟨-, hattempt⟩ | ⟨log', hstep, hattempt⟩
    · rw [hattempt]
      cases lost <;> exact Or.inl ⟨_, rfl, rfl⟩
    · rw [hattempt]
      refine Or.inr ⟨_, hstep, ?_⟩
      cases lost
      · exact Or.inl rfl
      · exact Or.inr ⟨_, rfl⟩
  xgroupCreate lost key group log answer log' h := by
    rw [miniRedis_exec] at h
    obtain ⟨rfl, rfl⟩ := Prod.mk.inj h
    rcases attempt_cases log (.create key group) .okay
        "BUSYGROUP Consumer Group name already exists" with ⟨-, hattempt⟩ | ⟨log', hstep, hattempt⟩
    · rw [command, hattempt]
      cases lost <;> exact Or.inl ⟨_, rfl, rfl⟩
    · rw [command, hattempt]
      exact Or.inr hstep
  busyGroup lost key group log err log' h hbusy := by
    rw [miniRedis_exec] at h
    obtain ⟨herr, rfl⟩ := Prod.mk.inj h
    cases lost with
    | true =>
      obtain rfl := Except.error.inj herr
      exact absurd hbusy (by decide)
    | false =>
      rcases attempt_cases log (.create key group) .okay
          "BUSYGROUP Consumer Group name already exists" with ⟨hstep, hattempt⟩ | ⟨_, _, hattempt⟩
      · rw [command, hattempt]
        cases hg : log.groups (key, group) with
        | none => simp [Streams.step, hg] at hstep
        | some g => exact congrArg Option.isSome hg
      · rw [command, hattempt] at herr
        cases herr
  xreadgroup lost group consumer count blockMs streams log answer log' h := by
    rw [miniRedis_exec, command_xreadgroup] at h
    obtain ⟨rfl, rfl⟩ := Prod.mk.inj h
    by_cases hall : (streams.all fun key => (log.groups (key, group)).isSome) = true
    · rw [if_pos hall]
      obtain ⟨hmem, hrun, hnone⟩ := serve_spec group (decimalValue (toString count)) streams log
      refine ⟨_, hmem, hrun, ?_⟩
      cases lost
      · exact Or.inr ⟨rfl, hnone⟩
      · exact Or.inl ⟨_, rfl⟩
    · rw [if_neg hall]
      refine ⟨[], by simp, rfl, Or.inl ?_⟩
      cases lost <;> exact ⟨_, rfl⟩
  xack lost key group acked log answer log' h := by
    rw [miniRedis_exec] at h
    obtain ⟨rfl, rfl⟩ := Prod.mk.inj h
    rcases attempt_cases log (.acknowledge key group acked) (.int 1) "ERR" with
      ⟨-, hattempt⟩ | ⟨log', hstep, hattempt⟩
    · rw [List.cons_append, List.cons_append, List.cons_append, List.nil_append, command, hattempt]
      cases lost <;> exact Or.inl ⟨_, rfl, rfl⟩
    · rw [List.cons_append, List.cons_append, List.cons_append, List.nil_append, command, hattempt]
      exact Or.inr hstep
  ping lost log answer log' h := (Prod.mk.inj h).2.symm

end Bus

end OaLibs
