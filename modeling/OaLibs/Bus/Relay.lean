import OaLibs.Bus.Delivery
import OaLibs.Bus.Groups

/-!
# From the outbox to the consumers

The drainers publish through a server that the consumers read from. An event that was written into
the outbox reaches the consumers of its stream, and they receive nothing else.

* `Relay`, `relayStep`: the outbox, the server and the calls the server has answered;
* `publish_replyOf`: a publish through the server is a publish with the reply of the server;
* `RelayInv`, `relay_invariant`: the outbox takes the steps of the drainers, the server those of the
  calls, and the two agree about what was published;
* `relay_delivers`: what holds between an empty outbox and a consumer that has read everything.
-/

namespace OaLibs

namespace Outbox

open Bus

/-- The reply of a server, as far as the caller knows it. -/
def replyOf : Except AppError String → Bus.Reply
  | .ok id => .ok id
  | .error (.internal err) => .err err false
  | .error err => .err err.display false

/-- The outbox with its drainers, the server, and what the server has answered so far. -/
structure Relay (Srv : Type) where
  outbox : State
  srv : Srv
  exchanges : List Exchange

/-- A step of the outbox that does not need the server, a publish of the `i`-th drainer, or a call
of some other client. -/
inductive RelayEvent (Env : Type)
  | outbox (ev : Event)
  | publish (i : ℕ) (env : Env)
  | client (env : Env) (request : Bus.Request)

variable {Srv Env : Type} (m : MachineInt.OverflowMode) (redis : Redis Srv Env) (serde : SerdeJson)
  (jsonb : Json → Option Json)

/-- One step. -/
def relayStep (r : Relay Srv) : RelayEvent Env → Option (Relay Srv)
  -- drainers publish through the server only
  | .outbox (.act _ (.publish _)) => none
  | .outbox ev => (step m serde jsonb r.outbox ev).map fun s => { r with outbox := s }
  | .publish i env =>
      match r.outbox.procs[i]? with
      | none => none
      | some c =>
          match c.rest with
          | [] => none
          | row :: _ =>
              match Client.publish redis serde env row.eventType row.payload r.srv with
              | (result, srv) =>
                  (step m serde jsonb r.outbox (.act i (.publish (replyOf result)))).map fun s =>
                    { outbox := s
                      srv := srv
                      exchanges := r.exchanges ++
                        [⟨.publish row.eventType row.payload, .published result⟩] }
  | .client env request =>
      match perform redis serde env request r.srv with
      | (response, srv) =>
          some { r with srv := srv, exchanges := r.exchanges ++ [⟨request, response⟩] }

variable {m redis serde jsonb} {r r' : Relay Srv}

/-- The steps, with their effects. -/
inductive RelayStep (m : MachineInt.OverflowMode) (redis : Redis Srv Env) (serde : SerdeJson)
    (jsonb : Json → Option Json) (r : Relay Srv) : RelayEvent Env → Relay Srv → Prop
  | outbox {ev : Event} {s : State} (hev : ∀ i reply, ev ≠ .act i (.publish reply))
      (hstep : step m serde jsonb r.outbox ev = some s) :
      RelayStep m redis serde jsonb r (.outbox ev) { r with outbox := s }
  | publish {i : ℕ} {env : Env} {c : Call} {row : Model} {rest : List Model}
      {result : Except AppError String} {srv : Srv} {s : State}
      (hc : r.outbox.procs[i]? = some c) (hrest : c.rest = row :: rest)
      (hpub : Client.publish redis serde env row.eventType row.payload r.srv = (result, srv))
      (hstep : step m serde jsonb r.outbox (.act i (.publish (replyOf result))) = some s) :
      RelayStep m redis serde jsonb r (.publish i env)
        ⟨s, srv, r.exchanges ++ [⟨.publish row.eventType row.payload, .published result⟩]⟩
  | client {env : Env} {request : Bus.Request} {response : Bus.Response} {srv : Srv}
      (hperform : perform redis serde env request r.srv = (response, srv)) :
      RelayStep m redis serde jsonb r (.client env request)
        { r with srv := srv, exchanges := r.exchanges ++ [⟨request, response⟩] }

theorem relayStep_sound {ev : RelayEvent Env} (h : relayStep m redis serde jsonb r ev = some r') :
    RelayStep m redis serde jsonb r ev r' := by
  cases ev with
  | outbox ev =>
    unfold relayStep at h
    split at h
    · cases h
    · rename_i ev' hev heq
      obtain rfl := RelayEvent.outbox.inj heq
      obtain ⟨s, hs, rfl⟩ := Option.map_eq_some_iff.1 h
      exact .outbox (fun i reply hact => hev i reply hact) hs
    · rename_i heq
      cases heq
    · rename_i heq
      cases heq
  | publish i env =>
    simp only [relayStep] at h
    split at h
    · cases h
    · rename_i c hc
      split at h
      · cases h
      · rename_i row rest hrest
        obtain ⟨s, hs, rfl⟩ := Option.map_eq_some_iff.1 h
        exact .publish hc hrest rfl hs
  | client env request =>
    obtain rfl := Option.some.inj h
    exact .client rfl

/-! ### The outbox takes its own steps -/

/-- What a publish through the server returns is what the publish returns for its reply. -/
theorem publish_replyOf {env : Env} {eventType : String} {payload : Json}
    {result : Except AppError String} {srv srv' : Srv}
    (h : Client.publish redis serde env eventType payload srv = (result, srv')) :
    ∃ entry, Bus.publish serde eventType payload (replyOf result) = (result, entry) := by
  unfold Client.publish at h
  cases htext : serde.toString payload with
  | error err =>
    simp only [htext, Prod.mk.injEq] at h
    obtain ⟨rfl, rfl⟩ := h
    exact ⟨none, by simp [Bus.publish, Bus.entry, htext]⟩
  | ok text =>
    cases hquery : redis.query redis.string env ["XADD", streamName eventType, "*", "eventType",
        eventType, "payload", text] srv with
    | mk answer srv₁ =>
      simp only [htext, hquery, Prod.mk.injEq] at h
      obtain ⟨rfl, rfl⟩ := h
      cases answer with
      | ok id =>
        exact ⟨_, by simp only [Bus.publish, Bus.entry, htext, replyOf, Except.mapError]; rfl⟩
      | error err =>
        exact ⟨_, by simp only [Bus.publish, Bus.entry, htext, replyOf, Except.mapError]; rfl⟩

/-- Every step of the system keeps the rows with their events. -/
theorem step_grows {s s' : State} {ev : Event} (hs : Interleaving.Holds WorldOk (CallOk serde) s)
    (h : step m serde jsonb s ev = some s') : Grows s.world s'.world := by
  cases ev with
  | env e =>
    obtain rfl := Option.some.inj h
    have hproof : (drainers m serde jsonb).Proof WorldOk (CallOk serde) Grows := drainers_proof
    exact (hproof.env_world s.world e hs.1).2
  | start f =>
    obtain rfl := Option.some.inj h
    exact Grows.refl _
  | act i a =>
    obtain ⟨c, w', c', hc, ha, rfl⟩ := Interleaving.step_act_eq_some.1 h
    have hproof : (drainers m serde jsonb).Proof WorldOk (CallOk serde) Grows := drainers_proof
    exact (hproof.act_world _ _ _ _ _ hs.1 (hs.2 c (List.mem_of_getElem? hc)) ha).2.2

/-- Only a publish adds to the log. -/
theorem log_step {s s' : State} {ev : Event} (hev : ∀ i reply, ev ≠ .act i (.publish reply))
    (h : step m serde jsonb s ev = some s') : s'.world.log = s.world.log := by
  cases ev with
  | env e =>
    obtain rfl := Option.some.inj h
    show ((drainers m serde jsonb).env s.world e).log = s.world.log
    rcases enqueue_cases m serde jsonb s.world e with hw | ⟨stored, t, -, -, hw⟩
    · rw [hw]
    · rw [hw]
  | start f =>
    obtain rfl := Option.some.inj h
    rfl
  | act i a =>
    obtain ⟨c, w', c', hc, ha, rfl⟩ := step_act_cases h
    cases ha with
    | published | overflowed | refused => exact absurd rfl (hev i _)
    | markSentFailed | markSentOverflowed | markSent | markRetryFailed | markRetry | finish
    | stop => rfl

/-- A publish logs its result for the next row of the call. -/
theorem log_publish {s s' : State} {i : ℕ} {c : Call} {row : Model} {rest : List Model}
    {reply : Bus.Reply} (hc : s.procs[i]? = some c) (hrest : c.rest = row :: rest)
    (h : step m serde jsonb s (.act i (.publish reply)) = some s') :
    ∃ result entry, Bus.publish serde row.eventType row.payload reply = (result, entry) ∧
      s'.world = s.world.logged ⟨row.id, c.now, result, entry⟩ := by
  obtain ⟨c₁, w', c', hc₁, ha, rfl⟩ := step_act_cases h
  obtain rfl := Option.some.inj (hc.symm.trans hc₁)
  cases ha with
  | published _ hrest' hpub | overflowed _ hrest' hpub | refused _ hrest' hpub =>
    obtain ⟨rfl, rfl⟩ := List.cons.inj (hrest.symm.trans hrest')
    exact ⟨_, _, hpub, rfl⟩

/-! ### The outbox and the server agree -/

/-- What holds after some events: both sides have taken their own steps, what the log has as
published was answered by the server with an id, and what was sent to the server was a row or came
from another client. -/
structure RelayInv (m : MachineInt.OverflowMode) (serde : SerdeJson) (jsonb : Json → Option Json)
    (log : Log) (view : Srv → Log) (evs : List (RelayEvent Env)) (r : Relay Srv) : Prop where
  outbox : ∃ es, Runs.run (step m serde jsonb) initial es = some r.outbox
  server : ∃ actions, Runs.run Streams.step log actions = some (view r.srv) ∧
    Explains serde actions r.exchanges
  published : ∀ p ∈ r.outbox.world.log, p.succeeded = true →
    ∃ row id, r.outbox.world.table.find p.row = some row ∧
      ⟨.publish row.eventType row.payload, .published (.ok id)⟩ ∈ r.exchanges
  accepted : ∀ x ∈ r.exchanges, ∀ eventType payload, x.request = .publish eventType payload →
    (∃ env, .client env (.publish eventType payload) ∈ evs) ∨
      ∃ id row, r.outbox.world.table.find id = some row ∧ event row = (eventType, payload)

variable {view : Srv → Log} {log : Log} {evs : List (RelayEvent Env)}

theorem event_eq {row row' : Model} (h : event row' = event row) :
    row'.eventType = row.eventType ∧ row'.payload = row.payload := Prod.mk.inj h

theorem relayInv_initial (srv : Srv) :
    RelayInv m serde jsonb (view srv) view ([] : List (RelayEvent Env)) ⟨initial, srv, []⟩ where
  outbox := ⟨[], rfl⟩
  server := ⟨[], rfl, .nil⟩
  published p hp := by cases hp
  accepted x hx := by cases hx

/-- What the invariant says of the rows is kept when the table grows. -/
theorem RelayInv.published_grows (h : RelayInv m serde jsonb log view evs r) {w : World}
    (hg : Grows r.outbox.world w) {p : Publication} (hp : p ∈ r.outbox.world.log)
    (hsucc : p.succeeded = true) :
    ∃ row id, w.table.find p.row = some row ∧
      ⟨.publish row.eventType row.payload, .published (.ok id)⟩ ∈ r.exchanges := by
  obtain ⟨row, id, hrow, hx⟩ := h.published p hp hsucc
  obtain ⟨row', hrow', hevent, -⟩ := hg.rows _ row hrow
  obtain ⟨htype, hpayload⟩ := event_eq hevent
  exact ⟨row', id, hrow', by rw [htype, hpayload]; exact hx⟩

theorem RelayInv.accepted_grows (h : RelayInv m serde jsonb log view evs r) {w : World}
    (hg : Grows r.outbox.world w) (ev : RelayEvent Env) {x : Exchange} (hx : x ∈ r.exchanges)
    {eventType : String} {payload : Json} (hreq : x.request = .publish eventType payload) :
    (∃ env, .client env (.publish eventType payload) ∈ evs ++ [ev]) ∨
      ∃ id row, w.table.find id = some row ∧ event row = (eventType, payload) := by
  rcases h.accepted x hx eventType payload hreq with ⟨env, hmem⟩ | ⟨id, row, hrow, hevent⟩
  · exact Or.inl ⟨env, List.mem_append_left _ hmem⟩
  · obtain ⟨row', hrow', hevent', -⟩ := hg.rows _ row hrow
    exact Or.inr ⟨id, row', hrow', hevent'.trans hevent⟩

theorem relayInv_step (law : redis.Lawful view) {ev : RelayEvent Env}
    (h : RelayInv m serde jsonb log view evs r)
    (hstep : relayStep m redis serde jsonb r ev = some r') :
    RelayInv m serde jsonb log view (evs ++ [ev]) r' := by
  obtain ⟨es, hes⟩ := h.outbox
  obtain ⟨actions, hrun, hx⟩ := h.server
  have hholds := holds_of_run hes
  cases relayStep_sound hstep with
  | @outbox ev s hev hs =>
    have hg := step_grows hholds hs
    refine ⟨⟨es ++ [ev], Runs.run_concat.2 ⟨_, hes, hs⟩⟩, ⟨actions, hrun, hx⟩, ?_,
      fun x hx eventType payload => h.accepted_grows hg _ hx⟩
    intro p hp
    rw [log_step hev hs] at hp
    exact h.published_grows hg hp
  | @publish i env c row rest result srv s hc hrest hpub hs =>
    have hg := step_grows hholds hs
    obtain ⟨result', left, hpublish, hworld⟩ := log_publish hc hrest hs
    obtain ⟨_, hreply⟩ := publish_replyOf hpub
    obtain ⟨rfl, -⟩ := Prod.mk.inj (hreply.symm.trans hpublish)
    have hperform : perform redis serde env (.publish row.eventType row.payload) r.srv =
        (.published result, srv) := by
      simp only [perform, hpub]
    obtain ⟨actions', hrun', hx'⟩ := perform_explained law hperform
    -- The row in hand is a copy of one in the table.
    obtain ⟨row', hrow', hevent⟩ := (hholds.2 c (List.mem_of_getElem? hc)).copies row
      (rest_subset_copies c (by rw [hrest]; exact List.mem_cons_self))
    obtain ⟨row'', hrow'', hevent', -⟩ := hg.rows _ row' hrow'
    have hrowEvent : event row'' = event row := hevent'.trans hevent
    refine ⟨⟨es ++ [_], Runs.run_concat.2 ⟨_, hes, hs⟩⟩,
      ⟨actions ++ actions', Runs.run_append_eq_some.2 ⟨_, hrun, hrun'⟩, hx.append hx'⟩, ?_, ?_⟩
    · intro p hp hsucc
      have hlog : s.world.log = r.outbox.world.log ++ [⟨row.id, c.now, result, left⟩] := by
        rw [hworld]
        rfl
      rw [hlog] at hp
      rcases List.mem_append.1 hp with hp | hp
      · obtain ⟨row₁, id, hrow₁, hmem⟩ := h.published_grows hg hp hsucc
        exact ⟨row₁, id, hrow₁, List.mem_append_left _ hmem⟩
      · obtain rfl := List.mem_singleton.1 hp
        cases result with
        | error err => cases hsucc
        | ok id =>
          obtain ⟨htype, hpayload⟩ := event_eq hrowEvent
          refine ⟨row'', id, hrow'', List.mem_append_right _ ?_⟩
          rw [htype, hpayload]
          exact List.mem_singleton_self _
    · intro x hxmem eventType payload hreq
      rcases List.mem_append.1 hxmem with hxmem | hxmem
      · exact h.accepted_grows hg _ hxmem hreq
      · obtain rfl := List.mem_singleton.1 hxmem
        obtain ⟨rfl, rfl⟩ := Bus.Request.publish.inj hreq
        exact Or.inr ⟨row.id, row'', hrow'', hrowEvent⟩
  | @client env request response srv hperform =>
    obtain ⟨actions', hrun', hx'⟩ := perform_explained law hperform
    refine ⟨⟨es, hes⟩,
      ⟨actions ++ actions', Runs.run_append_eq_some.2 ⟨_, hrun, hrun'⟩, hx.append hx'⟩, ?_, ?_⟩
    · intro p hp hsucc
      obtain ⟨row, id, hrow, hmem⟩ := h.published p hp hsucc
      exact ⟨row, id, hrow, List.mem_append_left _ hmem⟩
    · intro x hxmem eventType payload hreq
      rcases List.mem_append.1 hxmem with hxmem | hxmem
      · exact h.accepted_grows (Grows.refl _) _ hxmem hreq
      · obtain rfl := List.mem_singleton.1 hxmem
        obtain rfl : request = .publish eventType payload := hreq
        exact Or.inl ⟨env, List.mem_append_right _ (List.mem_singleton_self _)⟩

theorem relay_invariant (law : redis.Lawful view) {srv : Srv}
    (h : Runs.run (relayStep m redis serde jsonb) ⟨initial, srv, []⟩ evs = some r) :
    RelayInv m serde jsonb (view srv) view evs r :=
  Runs.run_induction (relayInv_initial srv)
    (fun _ _ _ _ _ hinv hstep => relayInv_step law hinv hstep) h

/-! ### Every run -/

/-- From an empty outbox and a group that is there until a read of the group comes back empty: every
event of the stream whose row is sent has been received, each message once, and every message is the
event of a row, or another client published it, or it was there before. No entry that was ahead of
the group at the start may be one that a read skips. -/
theorem relay_delivers (law : redis.Lawful view) {srv srv' : Srv} {env : Env}
    {stream group consumer : String} {streams : List String} {count blockMs : ℕ}
    {g : Streams.Group String} (hwf : (view srv).WellFormed)
    (hg : (view srv).groups (stream, group) = some g)
    (hreadable : ∀ key ∈ streams, ∀ g, (view srv).groups (key, group) = some g →
      ∀ e ∈ (view srv).after key g, Readable serde key e)
    (h : Runs.run (relayStep m redis serde jsonb) ⟨initial, srv, []⟩ evs = some r)
    (hlast : perform redis serde env (.readGroup streams group consumer count blockMs) r.srv =
      (.messages (.ok []), srv'))
    (hmem : stream ∈ streams) (hlost : ∀ x ∈ r.exchanges, ¬ x.LostRead stream group)
    (hround : ∀ x ∈ r.exchanges, x.PayloadsRoundTrip serde) :
    (∀ row ∈ r.outbox.world.table.rows, row.status = "sent" → streamName row.eventType = stream →
      ∃ msg ∈ r.exchanges.flatMap (Exchange.received stream group),
        msg.eventType = row.eventType ∧ msg.payload = row.payload) ∧
    ((r.exchanges.flatMap (Exchange.received stream group)).map BusMessage.id).Nodup ∧
    ∀ msg ∈ r.exchanges.flatMap (Exchange.received stream group),
      (∃ row ∈ r.outbox.world.table.rows,
        msg.eventType = row.eventType ∧ msg.payload = row.payload) ∨
      (∃ env, .client env (.publish msg.eventType msg.payload) ∈ evs) ∨
      msg.id ∈ Streams.ids ((view srv).entries stream) := by
  have hinv := relay_invariant law h
  obtain ⟨es, hes⟩ := hinv.outbox
  obtain ⟨actions, hrun, hx⟩ := hinv.server
  have hpublished := hx.published_sublist law hrun hwf hg
    (fun key hkey g hg e he => hx.readable hrun hround (hreadable key hkey) hg he) hlast hmem hlost
    hround
  refine ⟨fun row hrow hsent hname => ?_, ?_, fun msg hmsg => ?_⟩
  · have hfind := find_eq_some_iff.2 ⟨hrow, rfl⟩
    obtain ⟨e, -, p, hp, hid, hsucc, -⟩ := (ledger_safe hes).confirmed row.id ⟨row, hfind, hsent⟩
    obtain ⟨row', id, hrow', hexchange⟩ := hinv.published p hp hsucc
    rw [hid] at hrow'
    obtain rfl := Option.some.inj (hfind.symm.trans hrow')
    refine ⟨⟨id, stream, row.eventType, row.payload⟩, hpublished.subset ?_, rfl, rfl⟩
    refine List.mem_flatMap.2 ⟨_, hexchange, ?_⟩
    simp [Exchange.published, hname]
  · have hnodup := Streams.nodup_given (hwf.run hrun) hrun hg
    refine (List.nodup_append.1 hnodup).2.1.sublist ?_
    exact ((hx.received stream group).map _).trans (ids_logMessages stream _)
  · have hgiven := (hx.received stream group).subset hmsg
    obtain ⟨e, he, hmsg'⟩ := mem_logMessages.1 hgiven
    obtain ⟨g', -, -, hpre⟩ := Streams.group_run hrun hg
    have hentry : e ∈ (view r.srv).entries stream := List.mem_of_mem_drop (hpre.subset he)
    rcases hx.received_cases hrun hround hentry hmsg' with hold | ⟨x, hxmem, hreq, -⟩
    · exact Or.inr (Or.inr hold)
    · rcases hinv.accepted x hxmem _ _ hreq with hclient | ⟨id, row, hrow, hevent⟩
      · exact Or.inr (Or.inl hclient)
      · obtain ⟨htype, hpayload⟩ := Prod.mk.inj hevent
        exact Or.inl ⟨row, (find_eq_some_iff.1 hrow).1, htype.symm, hpayload.symm⟩

/-- One event: it is written, drained and read. -/
def sampleEvents : List (RelayEvent Bool) :=
  [.outbox (.env ⟨1, "task.assigned", Bus.sampleEvent, 0, .ok⟩), .outbox (.start ⟨10, 0, .ok⟩),
    .publish 0 false, .outbox (.act 0 (.markSent .ok)), .client false sampleRead]

/-- A read that came back empty. -/
def isEmptyRead : Bus.Response → Bool
  | .messages (.ok []) => true
  | _ => false

theorem eq_of_isEmptyRead {response : Bus.Response} (h : isEmptyRead response = true) :
    response = .messages (.ok []) := by
  unfold isEmptyRead at h
  split at h
  · rfl
  · cases h

/-- A read of the sample group. -/
def nextRead (r : Relay Log) : Bus.Response × Log :=
  perform miniRedis Bus.sampleSerde false sampleRead r.srv

theorem relay_delivers_sampleEvents :
    ∃ r, Runs.run (relayStep .checked miniRedis Bus.sampleSerde some) ⟨initial, sampleLog, []⟩
        sampleEvents = some r ∧
      ∃ row ∈ r.outbox.world.table.rows, row.status = "sent" ∧
        ∃ msg ∈ r.exchanges.flatMap (Exchange.received "events.task" "oa"),
          msg.eventType = row.eventType ∧ msg.payload = row.payload := by
  have hrun : (Runs.run (relayStep .checked miniRedis Bus.sampleSerde some) ⟨initial, sampleLog, []⟩
      sampleEvents).map (fun r => (r.exchanges.all isAnswered, r.exchanges.all publishesSample,
        isEmptyRead (nextRead r).1,
        r.outbox.world.table.rows.map fun row => (row.status, row.eventType))) =
      some (true, true, true, [("sent", "task.assigned")]) := by decide +kernel
  obtain ⟨r, hr, hstate⟩ := Option.map_eq_some_iff.1 hrun
  simp only [Prod.mk.injEq] at hstate
  obtain ⟨hanswered, hpayloads, hempty, hrows⟩ := hstate
  obtain ⟨row, hrow, hrowEq⟩ := List.mem_map.1 (hrows ▸ List.mem_singleton_self _)
  obtain ⟨hsent, htype⟩ := Prod.mk.inj hrowEq
  have hgroup : sampleLog.groups ("events.task", "oa") = some ⟨0, []⟩ := rfl
  have hlast : perform miniRedis Bus.sampleSerde false sampleRead r.srv =
      (.messages (.ok []), (nextRead r).2) := Prod.ext (eq_of_isEmptyRead hempty) rfl
  obtain ⟨hall, -⟩ := relay_delivers miniRedis_lawful wellFormed_sampleLog hgroup
    (fun key _ g _ e he => by simp [Streams.after] at he) hr hlast (List.mem_singleton_self _)
    (fun x hx => not_lostRead_of_isAnswered (List.all_eq_true.1 hanswered x hx))
    (fun x hx => payloadsRoundTrip_of_publishesSample (List.all_eq_true.1 hpayloads x hx))
  refine ⟨r, hr, row, hrow, hsent, hall row hrow hsent ?_⟩
  rw [htype]
  decide

end Outbox

end OaLibs
