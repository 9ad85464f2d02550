import OaLibs.Bus.Redis

/-!
# Consumers of a group

Any number of clients publish, make groups, read and acknowledge on one server, in any order and
with any lost answers.

* `Request`, `perform`, `talk`: the calls of all clients in the order in which the server carries
  them out, with their responses;
* `Explains`, `talk_explained`: what the server did to its streams, and how the responses tell of
  it;
* `group_receives`: a group receives the entries of a stream in their order, each at most once, and
  all of them if no answer is lost;
* `published_received`: events published after `ensure_group` have been received, each once and in
  order, when a read comes back empty;
* `pending_until_acked`: what a group was given stays pending until it is acknowledged, and then it
  never comes back.
-/

namespace OaLibs

namespace Bus

open Streams

/-- A call of a client. -/
inductive Request
  | publish (eventType : String) (payload : Json)
  | ensureGroup (stream group : String)
  | readGroup (streams : List String) (group consumer : String) (count blockMs : ℕ)
  | ack (stream group : String) (ids : List String)
  | ping

/-- What a call returns. -/
inductive Response
  | published (result : Except AppError String)
  | done (result : Except AppError Unit)
  | messages (result : Except AppError (List BusMessage))

/-- A call with what it returned. -/
structure Exchange where
  request : Request
  response : Response

section Calls

variable {Srv Env : Type} (redis : Redis Srv Env) (serde : SerdeJson)

/-- One call. -/
def perform (env : Env) (request : Request) (srv : Srv) : Response × Srv :=
  match request with
  | .publish eventType payload =>
      let (result, srv) := Client.publish redis serde env eventType payload srv
      (.published result, srv)
  | .ensureGroup stream group =>
      let (result, srv) := Client.ensureGroup redis env stream group srv
      (.done result, srv)
  | .readGroup streams group consumer count blockMs =>
      let (result, srv) := Client.readGroup redis serde env streams group consumer count blockMs srv
      (.messages result, srv)
  | .ack stream group ids =>
      let (result, srv) := Client.ack redis env stream group ids srv
      (.done result, srv)
  | .ping =>
      let (result, srv) := Client.ping redis env srv
      (.done result, srv)

/-- The calls of all clients, in the order of the server. -/
def talk : List (Env × Request) → Srv → List Exchange × Srv
  | [], srv => ([], srv)
  | (env, request) :: calls, srv =>
      let (response, srv) := perform redis serde env request srv
      let (exchanges, srv) := talk calls srv
      (⟨request, response⟩ :: exchanges, srv)

end Calls

namespace Exchange

/-- The messages of a stream that a read of a group returned. -/
def received (stream group : String) (x : Exchange) : List BusMessage :=
  match x.request, x.response with
  | .readGroup _ group' _ _ _, .messages (.ok messages) =>
      if group' = group then messages.filter fun msg => msg.stream = stream else []
  | _, _ => []

/-- The message of an event that was published to a stream. -/
def published (stream : String) (x : Exchange) : List BusMessage :=
  match x.request, x.response with
  | .publish eventType payload, .published (.ok id) =>
      if streamName eventType = stream then [⟨id, stream, eventType, payload⟩] else []
  | _, _ => []

/-- The ids that a call acknowledges for a group. -/
def acked (stream group : String) (x : Exchange) : List String :=
  match x.request with
  | .ack stream' group' ids => if (stream', group') = (stream, group) then ids else []
  | _ => []

/-- A read of a group that failed, on some streams with the given one among them. -/
def LostRead (stream group : String) (x : Exchange) : Prop :=
  ∃ streams consumer count blockMs err, stream ∈ streams ∧
    x = ⟨.readGroup streams group consumer count blockMs, .messages (.error err)⟩

/-- The payload of a publish is printed and parsed back. -/
def PayloadsRoundTrip (serde : SerdeJson) (x : Exchange) : Prop :=
  ∀ eventType payload, x.request = .publish eventType payload → serde.RoundTrips payload

end Exchange

/-! ### What the server did -/

variable {serde : SerdeJson}

/-- What the server did to its streams while some calls were made, told from their responses. -/
structure Explains (serde : SerdeJson) (actions : List LogAction) (exchanges : List Exchange) :
    Prop where
  /-- What is received has been handed out. -/
  received : ∀ stream group, (exchanges.flatMap (Exchange.received stream group)).Sublist
    (logMessages serde stream (actions.flatMap (Action.given stream group)))
  /-- What is handed out is received, unless a read fails. -/
  receivedAll : ∀ stream group, (∀ x ∈ exchanges, ¬ x.LostRead stream group) →
    exchanges.flatMap (Exchange.received stream group) =
      logMessages serde stream (actions.flatMap (Action.given stream group))
  /-- What is published has been appended. -/
  published : ∀ stream, (∀ x ∈ exchanges, x.PayloadsRoundTrip serde) →
    (exchanges.flatMap (Exchange.published stream)).Sublist
      (logMessages serde stream (actions.flatMap (Action.appended stream)))
  /-- What is appended comes from a publish. -/
  appended : ∀ stream, ∀ e ∈ actions.flatMap (Action.appended stream), ∃ x ∈ exchanges,
    ∃ eventType payload, x.request = .publish eventType payload ∧
      entry serde eventType payload = .ok ⟨stream, e.2⟩
  /-- What is acknowledged has been asked for. -/
  acknowledged : ∀ stream group, actions.flatMap (Action.acknowledged stream group) ⊆
    exchanges.flatMap (Exchange.acked stream group)

theorem Explains.nil : Explains serde [] [] :=
  ⟨fun _ _ => List.Sublist.refl _, fun _ _ _ => rfl, fun _ _ => List.Sublist.refl _,
    fun _ _ h => absurd h List.not_mem_nil, fun _ _ => List.Subset.refl _⟩

theorem Explains.append {actions actions' : List LogAction} {xs xs' : List Exchange}
    (h : Explains serde actions xs) (h' : Explains serde actions' xs') :
    Explains serde (actions ++ actions') (xs ++ xs') where
  received stream group := by
    rw [List.flatMap_append, List.flatMap_append, logMessages_append]
    exact (h.received stream group).append (h'.received stream group)
  receivedAll stream group hlost := by
    rw [List.flatMap_append, List.flatMap_append, logMessages_append,
      h.receivedAll stream group fun x hx => hlost x (List.mem_append_left _ hx),
      h'.receivedAll stream group fun x hx => hlost x (List.mem_append_right _ hx)]
  published stream hround := by
    rw [List.flatMap_append, List.flatMap_append, logMessages_append]
    exact (h.published stream fun x hx => hround x (List.mem_append_left _ hx)).append
      (h'.published stream fun x hx => hround x (List.mem_append_right _ hx))
  appended stream e he := by
    rw [List.flatMap_append, List.mem_append] at he
    rcases he with he | he
    · obtain ⟨x, hx, hrest⟩ := h.appended stream e he
      exact ⟨x, List.mem_append_left _ hx, hrest⟩
    · obtain ⟨x, hx, hrest⟩ := h'.appended stream e he
      exact ⟨x, List.mem_append_right _ hx, hrest⟩
  acknowledged stream group := by
    rw [List.flatMap_append, List.flatMap_append]
    exact List.append_subset.2 ⟨List.subset_append_of_subset_left _ (h.acknowledged stream group),
      List.subset_append_of_subset_right _ (h'.acknowledged stream group)⟩

/-- A call that appends nothing, hands out nothing and returns no message. -/
theorem explains_quiet {actions : List LogAction} {x : Exchange}
    (hreceived : ∀ stream group, x.received stream group = [])
    (hpublished : ∀ stream, x.published stream = [])
    (hgiven : ∀ stream group, actions.flatMap (Action.given stream group) = [])
    (happended : ∀ stream, actions.flatMap (Action.appended stream) = [])
    (hacked : ∀ stream group,
      actions.flatMap (Action.acknowledged stream group) ⊆ x.acked stream group) :
    Explains serde actions [x] where
  received stream group := by
    rw [List.flatMap_singleton, hreceived]
    exact List.nil_sublist _
  receivedAll stream group _ := by
    rw [List.flatMap_singleton, hreceived, hgiven]
    rfl
  published stream _ := by
    rw [List.flatMap_singleton, hpublished]
    exact List.nil_sublist _
  appended stream e he := by
    rw [happended] at he
    cases he
  acknowledged stream group := by
    rw [List.flatMap_singleton]
    exact hacked stream group

theorem explains_publish {eventType id : String} {payload : Json} {e : StreamEntry}
    {result : Except AppError String} (he : entry serde eventType payload = .ok e)
    (hresult : result = .ok id ∨ ∃ err, result = .error err) :
    Explains serde [.append e.stream id e.fields]
      [⟨.publish eventType payload, .published result⟩] where
  received stream group := List.nil_sublist _
  receivedAll stream group _ := rfl
  published stream hround := by
    have hpayload : serde.RoundTrips payload :=
      hround _ (List.mem_singleton_self _) eventType payload rfl
    have hstream : e.stream = streamName eventType := by
      obtain ⟨text, -, rfl⟩ := entry_eq_ok.1 he
      rfl
    rw [List.flatMap_singleton, List.flatMap_singleton]
    rcases hresult with rfl | ⟨err, rfl⟩
    · by_cases hname : streamName eventType = stream
      · -- The entry is read back as the message of the event.
        have hgood : entryMessages serde stream (e.toValue id) =
            [goodMessage stream id (some eventType) payload] :=
          entryMessages_good (goodEntry_published he id) hpayload
        have happended : Action.appended stream (.append e.stream id e.fields : LogAction) =
            [(id, e.fields)] := if_pos (hstream.trans hname)
        have hmessages : logMessages serde stream [(id, e.fields)] =
            [goodMessage stream id (some eventType) payload] :=
          (List.flatMap_singleton _ _).trans hgood
        have hpublished : Exchange.published stream
            ⟨.publish eventType payload, .published (.ok id)⟩ =
            [goodMessage stream id (some eventType) payload] := if_pos hname
        rw [happended, hmessages, hpublished]
      · have hpublished : Exchange.published stream
            ⟨.publish eventType payload, .published (.ok id)⟩ = [] := if_neg hname
        rw [hpublished]
        exact List.nil_sublist _
    · exact List.nil_sublist _
  appended stream e' he' := by
    rw [List.flatMap_singleton, Action.appended] at he'
    split_ifs at he' with hname
    · rw [List.mem_singleton] at he'
      subst he'
      refine ⟨_, List.mem_singleton_self _, eventType, payload, rfl, ?_⟩
      rw [he, ← hname]
    · cases he'
  acknowledged stream group := List.nil_subset _

/-- Of the messages of a read, those of one stream. -/
theorem filter_served {served : List (String × List (String × Fields))} (stream group : String) :
    (served.flatMap fun batch => logMessages serde batch.1 batch.2).filter
        (fun msg => msg.stream = stream) =
      logMessages serde stream ((served.map fun batch =>
        (Action.deliver batch.1 group batch.2 : LogAction)).flatMap
          (Action.given stream group)) := by
  induction served with
  | nil => rfl
  | cons batch served ih =>
    rw [List.flatMap_cons, List.filter_append, List.map_cons, List.flatMap_cons,
      logMessages_append, ih]
    congr 1
    by_cases hname : batch.1 = stream
    · have hgiven : Action.given stream group (.deliver batch.1 group batch.2 : LogAction) =
          batch.2 := if_pos (by rw [hname])
      rw [hgiven, hname, List.filter_eq_self]
      exact fun msg hmsg => decide_eq_true (stream_of_mem_logMessages hmsg)
    · have hgiven : Action.given stream group (.deliver batch.1 group batch.2 : LogAction) = [] :=
        if_neg fun heq => hname (Prod.mk.inj heq).1
      rw [hgiven, List.filter_eq_nil_iff.2]
      · rfl
      · intro msg hmsg hstream
        exact hname ((stream_of_mem_logMessages hmsg).symm.trans (of_decide_eq_true hstream))

/-- A read hands out nothing to other groups, and nothing of other streams. -/
theorem given_served {served : List (String × List (String × Fields))} {streams : List String}
    {stream group group' : String} (hserved : ∀ batch ∈ served, batch.1 ∈ streams)
    (hne : group' = group → stream ∉ streams) :
    (served.map fun batch => (Action.deliver batch.1 group' batch.2 : LogAction)).flatMap
      (Action.given stream group) = [] := by
  rw [List.flatMap_map, List.flatMap_eq_nil_iff]
  intro batch hbatch
  refine if_neg fun heq => ?_
  obtain ⟨rfl, rfl⟩ := Prod.mk.inj heq
  exact hne rfl (hserved batch hbatch)

theorem explains_read {served : List (String × List (String × Fields))}
    {streams : List String} {group consumer : String} {count blockMs : ℕ}
    {result : Except AppError (List BusMessage)} (hserved : ∀ batch ∈ served, batch.1 ∈ streams)
    (hresult : (∃ err, result = .error err) ∨
      result = .ok (served.flatMap fun batch => logMessages serde batch.1 batch.2)) :
    Explains serde (served.map fun batch => .deliver batch.1 group batch.2)
      [⟨.readGroup streams group consumer count blockMs, .messages result⟩] := by
  have hall : ∀ stream group', (∀ err, result = .error err → group = group' → stream ∉ streams) →
      Exchange.received stream group'
          ⟨.readGroup streams group consumer count blockMs, .messages result⟩ =
        logMessages serde stream ((served.map fun batch =>
          (Action.deliver batch.1 group batch.2 : LogAction)).flatMap
            (Action.given stream group')) := by
    intro stream group' hlost
    rcases hresult with ⟨err, rfl⟩ | rfl
    · rw [given_served hserved (hlost err rfl)]
      rfl
    · by_cases hgroup : group = group'
      · subst hgroup
        rw [← filter_served]
        exact if_pos rfl
      · rw [given_served hserved fun heq => absurd heq hgroup]
        exact if_neg hgroup
  constructor
  · intro stream group'
    rw [List.flatMap_singleton]
    rcases hresult with ⟨err, rfl⟩ | hok
    · exact List.nil_sublist _
    · rw [hall stream group' fun err herr => by rw [hok] at herr; cases herr]
  · intro stream group' hlost
    rw [List.flatMap_singleton]
    refine hall stream group' fun err herr hgroup hmem => ?_
    subst hgroup herr
    exact hlost _ (List.mem_singleton_self _) ⟨_, _, _, _, _, hmem, rfl⟩
  · exact fun stream _ => List.nil_sublist _
  · intro stream e he
    rw [List.flatMap_map] at he
    obtain ⟨batch, -, hbatch⟩ := List.mem_flatMap.1 he
    cases hbatch
  · intro stream group' id hid
    rw [List.flatMap_map] at hid
    obtain ⟨batch, -, hbatch⟩ := List.mem_flatMap.1 hid
    cases hbatch

/-! ### Every call -/

variable {Srv Env : Type} {redis : Redis Srv Env} {view : Srv → Log} {srv srv' : Srv}

theorem perform_explained (law : redis.Lawful view) {env : Env} {request : Request}
    {response : Response} (h : perform redis serde env request srv = (response, srv')) :
    ∃ actions, Runs.run step (view srv) actions = some (view srv') ∧
      Explains serde actions [⟨request, response⟩] := by
  cases request with
  | publish eventType payload =>
    cases hp : Client.publish redis serde env eventType payload srv with
    | mk result srv₁ =>
      simp only [perform, hp, Prod.mk.injEq] at h
      obtain ⟨rfl, rfl⟩ := h
      rcases publish_spec law hp with ⟨err, rfl, hview⟩ | ⟨id, e, he, hstep, hresult⟩
      · refine ⟨[], congrArg some hview.symm, explains_quiet (fun _ _ => rfl) (fun _ => rfl)
          (fun _ _ => rfl) (fun _ => rfl) fun _ _ => List.nil_subset _⟩
      · exact ⟨_, by rw [Runs.run_cons, hstep]; rfl, explains_publish he hresult⟩
  | ensureGroup stream group =>
    cases hp : Client.ensureGroup redis env stream group srv with
    | mk result srv₁ =>
      simp only [perform, hp, Prod.mk.injEq] at h
      obtain ⟨rfl, rfl⟩ := h
      rcases (ensureGroup_spec law hp).1 with hview | hstep
      · refine ⟨[], congrArg some hview.symm, explains_quiet (fun _ _ => rfl) (fun _ => rfl)
          (fun _ _ => rfl) (fun _ => rfl) fun _ _ => List.nil_subset _⟩
      · exact ⟨[.create stream group], by rw [Runs.run_cons, hstep]; rfl,
          explains_quiet (fun _ _ => rfl) (fun _ => rfl) (fun _ _ => rfl) (fun _ => rfl)
            fun _ _ => List.nil_subset _⟩
  | readGroup streams group consumer count blockMs =>
    cases hp : Client.readGroup redis serde env streams group consumer count blockMs srv with
    | mk result srv₁ =>
      simp only [perform, hp, Prod.mk.injEq] at h
      obtain ⟨rfl, rfl⟩ := h
      obtain ⟨served, hserved, hrun, hresult⟩ := readGroup_spec law hp
      exact ⟨_, hrun, explains_read (fun batch hb => (hserved batch hb).1)
        (hresult.imp_right And.left)⟩
  | ack stream group ids =>
    cases hp : Client.ack redis env stream group ids srv with
    | mk result srv₁ =>
      simp only [perform, hp, Prod.mk.injEq] at h
      obtain ⟨rfl, rfl⟩ := h
      rcases ack_spec law hp with ⟨-, hview⟩ | hstep
      · refine ⟨[], congrArg some hview.symm, explains_quiet (fun _ _ => rfl) (fun _ => rfl)
          (fun _ _ => rfl) (fun _ => rfl) fun _ _ => List.nil_subset _⟩
      · refine ⟨[.acknowledge stream group ids], by rw [Runs.run_cons, hstep]; rfl,
          explains_quiet (fun _ _ => rfl) (fun _ => rfl) (fun _ _ => rfl) (fun _ => rfl) ?_⟩
        intro stream' group'
        rw [List.flatMap_singleton]
        exact List.Subset.refl _
  | ping =>
    cases hp : Client.ping redis env srv with
    | mk result srv₁ =>
      simp only [perform, hp, Prod.mk.injEq] at h
      obtain ⟨rfl, rfl⟩ := h
      exact ⟨[], congrArg some (ping_spec law hp).symm, explains_quiet (fun _ _ => rfl)
        (fun _ => rfl) (fun _ _ => rfl) (fun _ => rfl) fun _ _ => List.nil_subset _⟩

theorem talk_explained (law : redis.Lawful view) {calls : List (Env × Request)}
    {xs : List Exchange} (h : talk redis serde calls srv = (xs, srv')) :
    ∃ actions, Runs.run step (view srv) actions = some (view srv') ∧ Explains serde actions xs := by
  induction calls generalizing srv xs with
  | nil =>
    obtain ⟨rfl, rfl⟩ := Prod.mk.inj h
    exact ⟨[], rfl, .nil⟩
  | cons call calls ih =>
    obtain ⟨env, request⟩ := call
    cases hp : perform redis serde env request srv with
    | mk response srv₁ =>
      cases hrest : talk redis serde calls srv₁ with
      | mk xs₁ srv₂ =>
        simp only [talk, hp, hrest, Prod.mk.injEq] at h
        obtain ⟨rfl, rfl⟩ := h
        obtain ⟨actions, hrun, hx⟩ := perform_explained law hp
        obtain ⟨actions₁, hrun₁, hxs⟩ := ih hrest
        refine ⟨actions ++ actions₁, ?_, hx.append hxs⟩
        exact Runs.run_append_eq_some.2 ⟨_, hrun, hrun₁⟩

/-- The entries of a stream were there before or come from a publish. -/
theorem Explains.origin {actions : List LogAction} {xs : List Exchange} {log log' : Log}
    (hx : Explains serde actions xs) (hrun : Runs.run step log actions = some log')
    {stream : String} {e : String × Fields} (he : e ∈ log'.entries stream) :
    e ∈ log.entries stream ∨ ∃ x ∈ xs, ∃ eventType payload,
      x.request = .publish eventType payload ∧
        entry serde eventType payload = .ok ⟨stream, e.2⟩ := by
  rw [entries_run hrun stream, List.mem_append] at he
  exact he.imp_right (hx.appended stream e)

/-- An entry that a read does not skip. -/
def Readable (serde : SerdeJson) (stream : String) (e : String × Fields) : Prop :=
  logMessages serde stream [e] ≠ []

/-- The entry of an event is read as its message. -/
theorem logMessages_entry {eventType stream id : String} {payload : Json} {fields : Fields}
    (h : entry serde eventType payload = .ok ⟨stream, fields⟩)
    (hround : serde.RoundTrips payload) :
    logMessages serde stream [(id, fields)] = [⟨id, stream, eventType, payload⟩] :=
  (List.flatMap_singleton _ _).trans (entryMessages_good (goodEntry_published h id) hround)

theorem mem_logMessages {stream : String} {entries : List (String × Fields)} {msg : BusMessage} :
    msg ∈ logMessages serde stream entries ↔
      ∃ e ∈ entries, msg ∈ logMessages serde stream [e] := by
  simp only [logMessages, List.mem_flatMap, List.mem_singleton, exists_eq_left]

theorem id_of_mem_logMessages {stream : String} {e : String × Fields} {msg : BusMessage}
    (h : msg ∈ logMessages serde stream [e]) : msg.id = e.1 := by
  have hsub : msg.id ∈ ids [e] := (ids_logMessages stream [e]).subset (List.mem_map_of_mem h)
  simpa using hsub

/-- A read that returns no message shows that its streams have been read to their ends, if none of
the entries ahead is skipped. -/
theorem after_eq_nil_of_read (law : redis.Lawful view) {env : Env} {streams : List String}
    {group consumer : String} {count blockMs : ℕ}
    (hreadable : ∀ key ∈ streams, ∀ g, (view srv).groups (key, group) = some g →
      ∀ e ∈ (view srv).after key g, Readable serde key e)
    (h : perform redis serde env (.readGroup streams group consumer count blockMs) srv =
      (.messages (.ok []), srv')) {stream : String} (hmem : stream ∈ streams)
    {g : Streams.Group String} (hg : (view srv).groups (stream, group) = some g) :
    (view srv).after stream g = [] := by
  cases hp : Client.readGroup redis serde env streams group consumer count blockMs srv with
  | mk result srv₁ =>
    simp only [perform, hp, Prod.mk.injEq, Response.messages.injEq] at h
    obtain ⟨rfl, rfl⟩ := h
    obtain ⟨served, hserved, hrun, hresult⟩ := readGroup_spec law hp
    rcases hresult with ⟨err, herr⟩ | ⟨hok, hnone⟩
    · cases herr
    · refine hnone ?_ stream hmem g hg
      -- The first entry that is handed out would be returned.
      cases served with
      | nil => rfl
      | cons batch served =>
        obtain ⟨hbatch, hne⟩ := hserved batch List.mem_cons_self
        obtain ⟨log, hstep, -⟩ := Option.bind_eq_some_iff.1 hrun
        cases step_sound hstep with
        | @deliver _ _ _ g₁ hg₁ hpre =>
          obtain ⟨e, rest, he⟩ := List.exists_cons_of_ne_nil hne
          have hreads :=
            hreadable batch.1 hbatch g₁ hg₁ e (hpre.subset (he ▸ List.mem_cons_self))
          obtain ⟨msg, hmsg⟩ := List.exists_mem_of_ne_nil _ hreads
          have hmem' : msg ∈ ([] : List BusMessage) := by
            rw [Except.ok.inj hok]
            refine List.mem_flatMap.2 ⟨batch, List.mem_cons_self, mem_logMessages.2 ⟨e, ?_, hmsg⟩⟩
            rw [he]
            exact List.mem_cons_self
          cases hmem'

/-! ### Every run -/

/-- What a group receives are messages of the entries it is given; none of them twice, and none that
it had been given before. -/
theorem Explains.receives {actions : List LogAction} {xs : List Exchange} {log log' : Log}
    (hx : Explains serde actions xs) (hrun : Runs.run step log actions = some log')
    (hwf : log.WellFormed) {stream group : String} {g g' : Streams.Group String}
    (hg : log.groups (stream, group) = some g) (hg' : log'.groups (stream, group) = some g') :
    (xs.flatMap (Exchange.received stream group)).Sublist (logMessages serde stream
        ((log'.after stream g).take (g'.position - g.position))) ∧
      (ids ((log.entries stream).take g.position) ++
        (xs.flatMap (Exchange.received stream group)).map BusMessage.id).Nodup := by
  have hgiven := given_run hrun hg hg'
  have hreceived := hx.received stream group
  refine ⟨hgiven ▸ hreceived, ?_⟩
  have hnodup := nodup_given (hwf.run hrun) hrun hg
  have htake : (log'.entries stream).take g.position = (log.entries stream).take g.position := by
    rw [entries_run hrun stream, List.take_append_of_le_length (hwf.position _ _ _ hg)]
  rw [htake] at hnodup
  refine hnodup.sublist (List.Sublist.append_left ?_ _)
  exact (hreceived.map _).trans (ids_logMessages stream _)

/-- When a read of a group comes back empty, it has received every event that was published in the
meantime, in order. -/
theorem Explains.published_sublist (law : redis.Lawful view) {actions : List LogAction}
    {xs : List Exchange} {env : Env} {stream group consumer : String} {streams : List String}
    {count blockMs : ℕ} {srv₁ srv₂ : Srv} {g : Streams.Group String}
    (hx : Explains serde actions xs)
    (hrun : Runs.run step (view srv) actions = some (view srv₁)) (hwf : (view srv).WellFormed)
    (hg : (view srv).groups (stream, group) = some g)
    (hreadable : ∀ key ∈ streams, ∀ g, (view srv₁).groups (key, group) = some g →
      ∀ e ∈ (view srv₁).after key g, Readable serde key e)
    (hlast : perform redis serde env (.readGroup streams group consumer count blockMs) srv₁ =
      (.messages (.ok []), srv₂))
    (hmem : stream ∈ streams) (hlost : ∀ x ∈ xs, ¬ x.LostRead stream group)
    (hround : ∀ x ∈ xs, x.PayloadsRoundTrip serde) :
    (xs.flatMap (Exchange.published stream)).Sublist
      (xs.flatMap (Exchange.received stream group)) := by
  obtain ⟨g', hg', hposition, hpre⟩ := group_run hrun hg
  have hend := after_eq_nil_of_read law hreadable hlast hmem hg'
  -- All that came after the position of the group has been handed out.
  have hall : actions.flatMap (Action.given stream group) = (view srv₁).after stream g := by
    refine hpre.eq_of_length_le ?_
    rw [after, List.drop_eq_nil_iff] at hend
    rw [after, List.length_drop]
    omega
  have hafter : (view srv₁).after stream g =
      ((view srv).entries stream).drop g.position ++ actions.flatMap (Action.appended stream) := by
    rw [after, entries_run hrun stream,
      List.drop_append_of_le_length (hwf.position _ _ _ hg)]
  rw [hx.receivedAll stream group hlost, hall, hafter, logMessages_append]
  exact (hx.published stream hround).trans (List.sublist_append_right _ _)

/-- What a group receives was in the stream before or has been published. -/
theorem Explains.received_cases {actions : List LogAction} {xs : List Exchange} {log log' : Log}
    (hx : Explains serde actions xs) (hrun : Runs.run step log actions = some log')
    (hround : ∀ x ∈ xs, x.PayloadsRoundTrip serde) {stream : String} {e : String × Fields}
    (he : e ∈ log'.entries stream) {msg : BusMessage} (hmsg : msg ∈ logMessages serde stream [e]) :
    msg.id ∈ ids (log.entries stream) ∨
      ∃ x ∈ xs, x.request = .publish msg.eventType msg.payload ∧
        streamName msg.eventType = stream := by
  rcases hx.origin hrun he with hold | ⟨x, hxmem, eventType, payload, hreq, hentry⟩
  · exact Or.inl (id_of_mem_logMessages hmsg ▸ List.mem_map_of_mem hold)
  · have hread : logMessages serde stream [e] = [⟨e.1, stream, eventType, payload⟩] :=
      logMessages_entry hentry (hround x hxmem _ _ hreq)
    rw [hread, List.mem_singleton] at hmsg
    obtain ⟨text, -, heq⟩ := entry_eq_ok.1 hentry
    rw [hmsg]
    exact Or.inr ⟨x, hxmem, hreq, (congrArg StreamEntry.stream heq).symm⟩

/-- What a group has not been given can be read, if that was so before. -/
theorem Explains.readable {actions : List LogAction} {xs : List Exchange} {log log' : Log}
    (hx : Explains serde actions xs) (hrun : Runs.run step log actions = some log')
    (hround : ∀ x ∈ xs, x.PayloadsRoundTrip serde) {stream group : String}
    (hreadable : ∀ g, log.groups (stream, group) = some g →
      ∀ e ∈ log.after stream g, Readable serde stream e) {g : Streams.Group String}
    (hg : log'.groups (stream, group) = some g) {e : String × Fields}
    (he : e ∈ log'.after stream g) : Readable serde stream e := by
  rcases after_run hrun hg he with ⟨g₀, hg₀, hold⟩ | hnew
  · exact hreadable g₀ hg₀ e hold
  · obtain ⟨x, hxmem, eventType, payload, hreq, hentry⟩ := hx.appended stream e hnew
    rw [Readable, logMessages_entry hentry (hround x hxmem _ _ hreq)]
    exact List.cons_ne_nil _ _

/-- A server without entries, and with one group on one stream. -/
def sampleLog : Log where
  entries _ := []
  groups := Function.update (fun _ => none) ("events.task", "oa") (some ⟨0, []⟩)

theorem wellFormed_of_entries {log : Log} (hentries : ∀ key, log.entries key = [])
    (hgroups : ∀ key group g, log.groups (key, group) = some g → g = ⟨0, []⟩) :
    log.WellFormed where
  nodup key := by
    rw [hentries]
    exact List.nodup_nil
  position key group g hg := by
    rw [hgroups key group g hg]
    exact Nat.zero_le _
  pending key group g hg id hid := by
    rw [hgroups key group g hg] at hid
    cases hid

theorem wellFormed_sampleLog : sampleLog.WellFormed := by
  refine wellFormed_of_entries (fun _ => rfl) fun key group g hg => ?_
  simp only [sampleLog, Function.update_apply] at hg
  split_ifs at hg
  exact (Option.some.inj hg).symm

/-- A read of the sample group. -/
def sampleRead : Request := .readGroup ["events.task"] "oa" "c1" 10 1000

/-- A publish of the sample event. -/
def samplePublish : Request := .publish "task.assigned" sampleEvent

/-- Two publishes; the second one goes to a consumer that does not get the answer. -/
def sampleCalls : List (Bool × Request) :=
  [(false, samplePublish), (false, sampleRead), (false, samplePublish), (true, sampleRead),
    (false, sampleRead)]

/-- A group receives the entries of a stream that come next for it, each at most once over all its
consumers, in the order of the stream and as they are there; if no read of it fails, it receives
all of them up to where it then stands. -/
theorem group_receives (law : redis.Lawful view) {calls : List (Env × Request)}
    {xs : List Exchange} {stream group : String} {g : Streams.Group String}
    (hwf : (view srv).WellFormed) (hg : (view srv).groups (stream, group) = some g)
    (h : talk redis serde calls srv = (xs, srv')) :
    ∃ g', (view srv').groups (stream, group) = some g' ∧
      (xs.flatMap (Exchange.received stream group)).Sublist (logMessages serde stream
        (((view srv').after stream g).take (g'.position - g.position))) ∧
      ((∀ x ∈ xs, ¬ x.LostRead stream group) →
        xs.flatMap (Exchange.received stream group) = logMessages serde stream
          (((view srv').after stream g).take (g'.position - g.position))) ∧
      (ids (((view srv).entries stream).take g.position) ++
        (xs.flatMap (Exchange.received stream group)).map BusMessage.id).Nodup := by
  obtain ⟨actions, hrun, hx⟩ := talk_explained law h
  obtain ⟨g', hg', -, -⟩ := group_run hrun hg
  obtain ⟨hreceived, hnodup⟩ := hx.receives hrun hwf hg hg'
  exact ⟨g', hg', hreceived,
    fun hlost => given_run hrun hg hg' ▸ hx.receivedAll stream group hlost, hnodup⟩

theorem group_receives_sampleCalls :
    ((talk miniRedis sampleSerde sampleCalls sampleLog).1.flatMap
      (Exchange.received "events.task" "oa")).map BusMessage.id = ["1-0"] ∧
    ∃ g', (talk miniRedis sampleSerde sampleCalls sampleLog).2.groups ("events.task", "oa") =
        some g' ∧
      ((talk miniRedis sampleSerde sampleCalls sampleLog).1.flatMap
        (Exchange.received "events.task" "oa")).Sublist
        (logMessages sampleSerde "events.task"
          (((talk miniRedis sampleSerde sampleCalls sampleLog).2.after "events.task" ⟨0, []⟩).take
            g'.position)) := by
  have hgroup : sampleLog.groups ("events.task", "oa") = some ⟨0, []⟩ := rfl
  obtain ⟨g', hg', hsub, -⟩ := group_receives miniRedis_lawful wellFormed_sampleLog hgroup
    (Prod.mk.eta (p := talk miniRedis sampleSerde sampleCalls sampleLog)).symm
  exact ⟨by decide, g', hg', hsub⟩

/-- From the time `ensure_group` has returned until a read of the group comes back empty, the group
has received every event that was published to the stream, once and in order; whatever else it
received was published before. No entry that was ahead of the group at the start may be one that a
read skips. -/
theorem published_received (law : redis.Lawful view) {before later : List (Env × Request)}
    {env env' : Env} {stream group consumer : String} {streams : List String} {count blockMs : ℕ}
    {xs₁ xs₂ : List Exchange} {srv₁ srv₂ srv₃ srv₄ : Srv} (hwf : (view srv).WellFormed)
    (hreadable : ∀ key ∈ streams, ∀ g, (view srv).groups (key, group) = some g →
      ∀ e ∈ (view srv).after key g, Readable serde key e)
    (h₁ : talk redis serde before srv = (xs₁, srv₁))
    (hensure : perform redis serde env (.ensureGroup stream group) srv₁ = (.done (.ok ()), srv₂))
    (h₂ : talk redis serde later srv₂ = (xs₂, srv₃))
    (hlast : perform redis serde env' (.readGroup streams group consumer count blockMs) srv₃ =
      (.messages (.ok []), srv₄))
    (hmem : stream ∈ streams) (hlost : ∀ x ∈ xs₂, ¬ x.LostRead stream group)
    (hround : ∀ x ∈ xs₁ ++ xs₂, x.PayloadsRoundTrip serde) :
    (xs₂.flatMap (Exchange.published stream)).Sublist
      (xs₂.flatMap (Exchange.received stream group)) ∧
    ((xs₂.flatMap (Exchange.received stream group)).map BusMessage.id).Nodup ∧
    ∀ msg ∈ xs₂.flatMap (Exchange.received stream group),
      msg.id ∈ ids ((view srv).entries stream) ∨
      ∃ x ∈ xs₁ ++ xs₂, x.request = .publish msg.eventType msg.payload ∧
        streamName msg.eventType = stream := by
  obtain ⟨actions₁, hrun₁, hx₁⟩ := talk_explained law h₁
  obtain ⟨actionsₑ, hrunₑ, hxₑ⟩ := perform_explained law hensure
  obtain ⟨actions₂, hrun₂, hx₂⟩ := talk_explained law h₂
  have hrun : Runs.run step (view srv) (actions₁ ++ actionsₑ ++ actions₂) = some (view srv₃) :=
    Runs.run_append_eq_some.2 ⟨_, Runs.run_append_eq_some.2 ⟨_, hrun₁, hrunₑ⟩, hrun₂⟩
  have hx := (hx₁.append hxₑ).append hx₂
  have hwf₂ : (view srv₂).WellFormed := (hwf.run hrun₁).run hrunₑ
  -- Only the calls before and after `ensure_group` publish.
  have hpublish : ∀ x ∈ xs₁ ++ [⟨.ensureGroup stream group, .done (.ok ())⟩] ++ xs₂,
      ∀ eventType payload, x.request = .publish eventType payload → x ∈ xs₁ ++ xs₂ := by
    intro x hxmem eventType payload hreq
    simp only [List.mem_append, List.mem_singleton] at hxmem ⊢
    rcases hxmem with (hxmem | rfl) | hxmem
    · exact Or.inl hxmem
    · cases hreq
    · exact Or.inr hxmem
  have hround' : ∀ x ∈ xs₁ ++ [⟨.ensureGroup stream group, .done (.ok ())⟩] ++ xs₂,
      x.PayloadsRoundTrip serde := fun x hxmem eventType payload hreq =>
    hround x (hpublish x hxmem eventType payload hreq) eventType payload hreq
  have hreadable₃ : ∀ key ∈ streams, ∀ g, (view srv₃).groups (key, group) = some g →
      ∀ e ∈ (view srv₃).after key g, Readable serde key e :=
    fun key hkey g hg e he => hx.readable hrun hround' (hreadable key hkey) hg he
  obtain ⟨g, hg⟩ : ∃ g, (view srv₂).groups (stream, group) = some g := by
    cases hp : Client.ensureGroup redis env stream group srv₁ with
    | mk result srv' =>
      simp only [perform, hp, Prod.mk.injEq, Response.done.injEq] at hensure
      obtain ⟨rfl, rfl⟩ := hensure
      exact Option.isSome_iff_exists.1 ((ensureGroup_spec law hp).2 rfl)
  obtain ⟨g', hg', -, -⟩ := group_run hrun₂ hg
  obtain ⟨hreceived, hnodup⟩ := hx₂.receives hrun₂ hwf₂ hg hg'
  refine ⟨?_, (List.nodup_append.1 hnodup).2.1, fun msg hmsg => ?_⟩
  · exact hx₂.published_sublist law hrun₂ hwf₂ hg hreadable₃ hlast hmem hlost
      fun x hxmem => hround x (List.mem_append_right _ hxmem)
  · obtain ⟨e, he, hmsg⟩ := mem_logMessages.1 (hreceived.subset hmsg)
    have hentry : e ∈ (view srv₃).entries stream :=
      List.mem_of_mem_drop (List.mem_of_mem_take he)
    rcases hx.received_cases hrun hround' hentry hmsg with hold | ⟨x, hxmem, hreq, hname⟩
    · exact Or.inl hold
    · exact Or.inr ⟨x, hpublish x hxmem _ _ hreq, hreq, hname⟩

/-- A server without entries and groups. -/
def emptyLog : Log := ⟨fun _ => [], fun _ => none⟩

/-- An event is published and read, by two consumers of one group. -/
def sampleLater : List (Bool × Request) :=
  [(false, samplePublish), (false, sampleRead), (false, samplePublish), (true, samplePublish),
    (false, .readGroup ["events.task"] "oa" "c2" 10 1000)]

/-- The server after the group was made. -/
def sampleStart : Log :=
  (perform miniRedis sampleSerde false (.ensureGroup "events.task" "oa") emptyLog).2

/-- A call that publishes the sample event or nothing. -/
def publishesSample (x : Exchange) : Bool :=
  match x.request with
  | .publish _ (.object [("type", .string "task.assigned")]) => true
  | .publish _ _ => false
  | _ => true

theorem payloadsRoundTrip_of_publishesSample {x : Exchange} (h : publishesSample x = true) :
    x.PayloadsRoundTrip sampleSerde := by
  intro eventType payload hreq
  unfold publishesSample at h
  split at h
  · rename_i heq
    rw [(Request.publish.inj (hreq.symm.trans heq)).2]
    exact roundTrips_sampleEvent
  · cases h
  · rename_i hother
    exact absurd hreq (hother eventType payload)

/-- No read of the sample fails. -/
def isAnswered (x : Exchange) : Bool :=
  match x.response with
  | .messages (.error _) => false
  | _ => true

theorem not_lostRead_of_isAnswered {x : Exchange} {stream group : String}
    (h : isAnswered x = true) : ¬ x.LostRead stream group := by
  rintro ⟨streams, consumer, count, blockMs, err, -, rfl⟩
  cases h

theorem published_received_sampleLater :
    ((talk miniRedis sampleSerde sampleLater sampleStart).1.flatMap
      (Exchange.published "events.task")).Sublist
      ((talk miniRedis sampleSerde sampleLater sampleStart).1.flatMap
        (Exchange.received "events.task" "oa")) ∧
    ((talk miniRedis sampleSerde sampleLater sampleStart).1.flatMap
      (Exchange.published "events.task")).map BusMessage.id = ["1-0", "2-0"] := by
  have hanswered : (talk miniRedis sampleSerde sampleLater sampleStart).1.all isAnswered =
      true := by decide
  have hpayloads : (talk miniRedis sampleSerde sampleLater sampleStart).1.all publishesSample =
      true := by decide
  have hbefore : talk miniRedis sampleSerde [] emptyLog = ([], emptyLog) := rfl
  have hensure : perform miniRedis sampleSerde false (.ensureGroup "events.task" "oa") emptyLog =
      (.done (.ok ()), sampleStart) := rfl
  have hlast : perform miniRedis sampleSerde false (.readGroup ["events.task"] "oa" "c1" 10 1000)
      (talk miniRedis sampleSerde sampleLater sampleStart).2 = (.messages (.ok []), _) := rfl
  have hwf : emptyLog.WellFormed :=
    wellFormed_of_entries (fun _ => rfl) fun _ _ _ hg => by cases hg
  refine ⟨(published_received miniRedis_lawful hwf ?_ hbefore hensure Prod.mk.eta.symm hlast
    (List.mem_singleton_self _) ?_ ?_).1, by decide⟩
  · exact fun key _ g hg => by cases hg
  · exact fun x hx => not_lostRead_of_isAnswered (List.all_eq_true.1 hanswered x hx)
  · exact fun x hx => payloadsRoundTrip_of_publishesSample (List.all_eq_true.1 hpayloads x hx)

/-- What a group was given, also in a read whose answer was lost, stays pending until some call
acknowledges it; after an `ack` has returned, its ids are not pending and never received again. -/
theorem pending_until_acked (law : redis.Lawful view) {calls : List (Env × Request)}
    {xs : List Exchange} {stream group : String} {g : Streams.Group String} {srv₁ : Srv}
    (hwf : (view srv).WellFormed) (hg : (view srv).groups (stream, group) = some g)
    (h : talk redis serde calls srv = (xs, srv₁)) :
    ∃ g₁, (view srv₁).groups (stream, group) = some g₁ ∧
      (∀ id, id ∈ g.pending ∨ id ∈ ids (((view srv₁).after stream g).take
          (g₁.position - g.position)) →
        id ∉ xs.flatMap (Exchange.acked stream group) → id ∈ g₁.pending) ∧
      ∀ env acked later xs' srv₂ srv',
        perform redis serde env (.ack stream group acked) srv₁ = (.done (.ok ()), srv₂) →
        talk redis serde later srv₂ = (xs', srv') →
        ∃ g', (view srv').groups (stream, group) = some g' ∧
          ∀ id ∈ acked, id ∈ ids (((view srv₁).entries stream).take g₁.position) →
            id ∉ g'.pending ∧
              ∀ msg ∈ xs'.flatMap (Exchange.received stream group), msg.id ≠ id := by
  obtain ⟨actions, hrun, hx⟩ := talk_explained law h
  obtain ⟨g₁, hg₁, -, -⟩ := group_run hrun hg
  refine ⟨g₁, hg₁, fun id hid hnot => ?_, fun env acked later xs' srv₂ srv' hack hlater => ?_⟩
  · rw [← given_run hrun hg hg₁] at hid
    exact pending_run hrun hg hg₁ hid fun hmem => hnot (hx.acknowledged stream group hmem)
  · obtain ⟨actions', hrun', hx'⟩ := talk_explained law hlater
    obtain ⟨actionsₐ, hrunₐ, -⟩ := perform_explained law hack
    obtain ⟨g₂, hg₂, -, -⟩ := group_run hrunₐ hg₁
    obtain ⟨g', hg', -, -⟩ := group_run hrun' hg₂
    refine ⟨g', hg', fun id hid hgiven => ?_⟩
    have hstep : step (view srv₁) (.acknowledge stream group acked) = some (view srv₂) := by
      cases hp : Client.ack redis env stream group acked srv₁ with
      | mk result srv₃ =>
        simp only [perform, hp, Prod.mk.injEq, Response.done.injEq] at hack
        obtain ⟨rfl, rfl⟩ := hack
        rcases ack_spec law hp with ⟨⟨err, herr⟩ | hnil, -⟩ | hstep
        · cases herr
        · rw [hnil] at hid
          cases hid
        · exact hstep
    obtain ⟨g₃, hg₃, hposition, -, hpending⟩ := group_step hstep hg₁
    obtain rfl := Option.some.inj (hg₂.symm.trans hg₃)
    have hwf₂ : (view srv₂).WellFormed := (hwf.run hrun).run hrunₐ
    have hgiven₂ : id ∈ ids (((view srv₂).entries stream).take g₂.position) := by
      rw [entries_step hstep stream, hposition]
      simpa [Action.appended, Action.given] using hgiven
    have hnot : id ∉ g₂.pending := by
      rw [hpending]
      simp [Action.acknowledged, hid]
    obtain ⟨hsettled, hnever⟩ := settled_run hwf₂ hrun' hg₂ hg' hgiven₂ hnot
    refine ⟨hsettled, fun msg hmsg heq => hnever ?_⟩
    have hsub := (hx'.received stream group).subset hmsg
    exact heq ▸ (ids_logMessages stream _).subset (List.mem_map_of_mem hsub)

/-- Two events are handed out to a consumer that does not get the answer. -/
def sampleLost : List (Bool × Request) :=
  [(false, samplePublish), (false, samplePublish), (true, sampleRead)]

/-- The server after that, and after one of the events was acknowledged. -/
def sampleAcked : Log :=
  (perform miniRedis sampleSerde false (.ack "events.task" "oa" ["1-0"])
    (talk miniRedis sampleSerde sampleLost sampleLog).2).2

theorem pending_until_acked_sampleLost :
    ∃ g₁ g', (talk miniRedis sampleSerde sampleLost sampleLog).2.groups ("events.task", "oa") =
        some g₁ ∧ "2-0" ∈ g₁.pending ∧
      (talk miniRedis sampleSerde [(false, sampleRead)] sampleAcked).2.groups
        ("events.task", "oa") = some g' ∧ "1-0" ∉ g'.pending := by
  have hgroup : sampleLog.groups ("events.task", "oa") = some ⟨0, []⟩ := rfl
  have hack : perform miniRedis sampleSerde false (.ack "events.task" "oa" ["1-0"])
      (talk miniRedis sampleSerde sampleLost sampleLog).2 = (.done (.ok ()), sampleAcked) := rfl
  obtain ⟨g₁, hg₁, hpending, hlater⟩ := pending_until_acked miniRedis_lawful
    wellFormed_sampleLog hgroup
    (Prod.mk.eta (p := talk miniRedis sampleSerde sampleLost sampleLog)).symm
  obtain ⟨g', hg', hacked⟩ := hlater false ["1-0"] [(false, sampleRead)] _ _ _ hack
    (Prod.mk.eta (p := talk miniRedis sampleSerde [(false, sampleRead)] sampleAcked)).symm
  have hposition : ((talk miniRedis sampleSerde sampleLost sampleLog).2.groups
      ("events.task", "oa")).map Streams.Group.position = some 2 := by decide
  have hentries : ids ((talk miniRedis sampleSerde sampleLost sampleLog).2.entries "events.task") =
      ["1-0", "2-0"] := by decide
  have hposition₁ : g₁.position = 2 := by
    have hmap := (congrArg (Option.map Streams.Group.position) hg₁).symm.trans hposition
    exact Option.some.inj hmap
  have hgiven : ids (((talk miniRedis sampleSerde sampleLost sampleLog).2.entries
      "events.task").take 2) = ["1-0", "2-0"] := by
    rw [ids, List.map_take]
    exact congrArg (List.take 2) hentries
  refine ⟨g₁, g', hg₁, hpending "2-0" (Or.inr ?_) ?_, hg', (hacked "1-0" (by simp) ?_).1⟩
  · rw [hposition₁]
    show "2-0" ∈ ids (((talk miniRedis sampleSerde sampleLost sampleLog).2.entries
      "events.task").take 2)
    rw [hgiven]
    decide
  · decide
  · rw [hposition₁]
    show "1-0" ∈ ids (((talk miniRedis sampleSerde sampleLost sampleLog).2.entries
      "events.task").take 2)
    rw [hgiven]
    decide

end Bus

end OaLibs
