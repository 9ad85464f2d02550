import OaLibs.Base.Ledger
import OaLibs.Bus.Drainers

/-!
# No event is lost, no delivery is made up

The outbox is a `Ledger`: rows are accepted events, successful publishes are deliveries, and the
status `sent` is a confirmation.

* `WorldOk`, `CallOk`, `Grows`: what holds of the table, what a call relies on, and what every step
  guarantees to the others (`drainers_proof`);
* `ledger`, `drainers_simulation`: every step of the system is a step of the ledger or none;
* `outbox_delivers`: the resulting facts about every run.
-/

namespace OaLibs

namespace Outbox

/-- The event of a row. -/
def event (row : Model) : String × Json := (row.eventType, row.payload)

variable (serde : SerdeJson)

/-- An `XADD` of the event has succeeded for the row. -/
def Delivered (w : World) (id : Uuid) (e : String × Json) : Prop :=
  ∃ p ∈ w.log, p.row = id ∧ p.succeeded = true ∧
    ∃ entry, Bus.entry serde e.1 e.2 = .ok entry ∧ p.entry = some entry

/-- What holds of the table and of the log. -/
structure WorldOk (w : World) : Prop where
  status : ∀ id row, w.table.find id = some row →
    row.status = "pending" ∧ row.sentAt = none ∨ row.status = "sent" ∧ row.sentAt.isSome = true
  known : ∀ p ∈ w.log, ∃ row, w.table.find p.row = some row

/-- What a call relies on. -/
structure CallOk (w : World) (c : Call) : Prop where
  copies : ∀ row ∈ c.copies, ∃ row', w.table.find row.id = some row' ∧ event row' = event row
  published : ∀ row, c.phase = .published row → Delivered serde w row.id (event row)

/-- What every step guarantees. -/
structure Grows (w w' : World) : Prop where
  rows : ∀ id row, w.table.find id = some row → ∃ row', w'.table.find id = some row' ∧
    event row' = event row ∧ (row.status = "sent" → row'.status = "sent")
  log : ∀ p ∈ w.log, p ∈ w'.log

variable {serde} {m : MachineInt.OverflowMode} {jsonb : Json → Option Json} {w w' : World}
  {c c' : Call} {t : Table} {id : Uuid} {e : String × Json} {p : Publication}

/-! ### The guarantee -/

theorem Grows.refl (w : World) : Grows w w :=
  ⟨fun _ row h => ⟨row, h, rfl, fun hs => hs⟩, fun _ h => h⟩

theorem Grows.delivered (h : Grows w w') (hd : Delivered serde w id e) :
    Delivered serde w' id e := by
  obtain ⟨p, hp, hrest⟩ := hd
  exact ⟨p, h.log p hp, hrest⟩

theorem grows_logged (w : World) (p : Publication) : Grows w (w.logged p) :=
  ⟨fun _ row h => ⟨row, h, rfl, fun hs => hs⟩, fun _ h => List.mem_append_left _ h⟩

theorem grows_insert {row : Model} (h : w.table.insert row = some t) :
    Grows w { w with table := t } := by
  refine ⟨fun id row' hrow' => ⟨row', ?_, rfl, fun hs => hs⟩, fun _ h => h⟩
  exact find_insert_of_find h hrow'

/-- An update that does not set the status back. -/
theorem grows_updated {active : ActiveModel} {u : Update} (h : w.table.update id active = some t)
    (hs : ∀ status, active.status = some status → status = "sent") : Grows w (w.updated t u) := by
  refine ⟨fun j row hrow => ?_, fun _ h => h⟩
  rw [World.updated_table, find_update h, hrow]
  by_cases hj : j = id
  · rw [if_pos hj]
    refine ⟨active.apply row, rfl, rfl, fun hsent => ?_⟩
    show active.status.getD row.status = "sent"
    cases hstatus : active.status with
    | none => exact hsent
    | some status => exact hs status hstatus
  · rw [if_neg hj]
    exact ⟨row, rfl, rfl, fun hsent => hsent⟩

theorem sentColumns_status {now : Instant} {status : String}
    (h : (sentColumns now).status = some status) : status = "sent" := (Option.some.inj h).symm

theorem retryColumns_status {attempts : Int32} {nextAt : Instant} {error status : String}
    (h : (retryColumns attempts nextAt error).status = some status) : status = "sent" := by
  cases h

/-! ### The table and the log -/

theorem WorldOk.logged (h : WorldOk w) (hrow : ∃ row, w.table.find p.row = some row) :
    WorldOk (w.logged p) := by
  refine ⟨h.status, fun q hq => ?_⟩
  rcases List.mem_append.1 hq with hq | hq
  · exact h.known q hq
  · rw [List.mem_singleton.1 hq]
    exact hrow

theorem WorldOk.inserted (h : WorldOk w) {e : NewEvent} {stored : Json}
    (hins : w.table.insert (newRow e.id e.eventType stored e.now) = some t) :
    WorldOk { w with table := t } := by
  constructor
  · intro id row hrow
    rcases find_insert_cases hins hrow with ⟨-, rfl⟩ | ⟨-, hold⟩
    · exact Or.inl ⟨rfl, rfl⟩
    · exact h.status id row hold
  · intro q hq
    obtain ⟨row, hrow⟩ := h.known q hq
    obtain ⟨row', hrow', -⟩ := (grows_insert hins).rows _ row hrow
    exact ⟨row', hrow'⟩

theorem WorldOk.updated (h : WorldOk w) {active : ActiveModel} {u : Update}
    (hupd : w.table.update id active = some t)
    (hact : (∃ now, active = sentColumns now) ∨
      ∃ attempts nextAt error, active = retryColumns attempts nextAt error) :
    WorldOk (w.updated t u) := by
  constructor
  · intro j row hrow
    obtain ⟨-, row', hrow'⟩ := update_eq_some hupd
    rcases find_update_cases hupd hrow' hrow with ⟨rfl, rfl⟩ | ⟨-, hold⟩
    · rcases hact with ⟨now, rfl⟩ | ⟨attempts, nextAt, error, rfl⟩
      · exact Or.inr ⟨rfl, rfl⟩
      · exact h.status j row' hrow'
    · exact h.status j row hold
  · intro q hq
    obtain ⟨row, hrow⟩ := h.known q hq
    exact find_update_of_find hupd hrow

/-! ### The calls -/

theorem CallOk.stable (h : CallOk serde w c) (hg : Grows w w') : CallOk serde w' c := by
  constructor
  · intro row hrow
    obtain ⟨row', hrow', hevent⟩ := h.copies row hrow
    obtain ⟨row'', hrow'', hevent', -⟩ := hg.rows _ _ hrow'
    exact ⟨row'', hrow'', hevent'.trans hevent⟩
  · intro row hphase
    exact hg.delivered (h.published row hphase)

theorem callOk_start (w : World) (f : Fetch) : CallOk serde w (startCall w f) := by
  obtain ⟨-, -, -, hcopies, hrows, -⟩ := startCall_spec w f
  refine ⟨fun row hrow => ?_, fun row hr => absurd hr ((startCall_phase w f).1 row)⟩
  rw [hcopies] at hrow
  exact ⟨row, (hrows row hrow).1, rfl⟩

theorem delivered_logged {row : Model} {reply : Bus.Reply} {now : Instant} {rid : String}
    {entry : Option Bus.StreamEntry}
    (h : Bus.publish serde row.eventType row.payload reply = (.ok rid, entry)) :
    Delivered serde (w.logged ⟨row.id, now, .ok rid, entry⟩) row.id (event row) := by
  obtain ⟨entry', hentry, rfl⟩ := Bus.publish_ok h
  exact ⟨_, List.mem_append_right _ (List.mem_singleton_self _), rfl, rfl, entry', hentry, rfl⟩

/-- Only a successful publish takes a call to `published`. -/
theorem CallStep.delivered {a : CallAct} {row : Model} (h : CallStep m serde w c a w' c')
    (hphase : c'.phase = .published row) : Delivered serde w' row.id (event row) := by
  cases h with
  | published _ _ hpub =>
    obtain rfl := Phase.published.inj hphase
    exact delivered_logged hpub
  | _ => cases hphase

/-- One step of a call keeps the table in order and its own copies current. -/
theorem callStep_ok {a : CallAct} (hw : WorldOk w) (hc : CallOk serde w c)
    (h : CallStep m serde w c a w' c') : WorldOk w' ∧ CallOk serde w' c' ∧ Grows w w' := by
  have hworld : WorldOk w' ∧ Grows w w' := by
    rcases h.world_cases with rfl | ⟨row, hrow, reply, result, entry, -, rfl⟩ |
      ⟨row, db, t, -, -, -, hupd, rfl⟩ | ⟨row, attempts, nextAt, err, db, t, -, -, -, hupd, rfl⟩
    · exact ⟨hw, Grows.refl w'⟩
    · obtain ⟨row', hrow', -⟩ := hc.copies row hrow
      exact ⟨hw.logged ⟨row', hrow'⟩, grows_logged w _⟩
    · exact ⟨hw.updated hupd (Or.inl ⟨_, rfl⟩), grows_updated hupd fun _ => sentColumns_status⟩
    · exact ⟨hw.updated hupd (Or.inr ⟨_, _, _, rfl⟩),
        grows_updated hupd fun _ => retryColumns_status⟩
  refine ⟨hworld.1, ⟨fun row hrow => ?_, fun row => h.delivered⟩, hworld.2⟩
  exact (hc.stable hworld.2).copies row (h.copies_subset hrow)

theorem drainers_proof :
    (drainers m serde jsonb).Proof WorldOk (CallOk serde) Grows where
  env_world w e hw := by
    rcases enqueue_cases m serde jsonb w e with h | ⟨stored, t, -, hins, h⟩
    · rw [h]
      exact ⟨hw, Grows.refl w⟩
    · rw [h]
      exact ⟨hw.inserted hins, grows_insert hins⟩
  start_proc w f _ := callOk_start w f
  act_world w c a w' c' hw hc h := callStep_ok hw hc (callStep_sound h)
  stable w w' c hc hg := hc.stable hg

/-! ### The outbox is a ledger -/

variable (serde) in
/-- What the table and the log say. -/
def ledger (w : World) : Ledger Uuid (String × Json) where
  accepted id := (w.table.find id).map event
  delivered := {x | (w.table.find x.1).map event = some x.2 ∧ Delivered serde w x.1 x.2}
  confirmed := {id | ∃ row, w.table.find id = some row ∧ row.status = "sent"}

theorem ledger_accepted (id : Uuid) :
    (ledger serde w).accepted id = (w.table.find id).map event := rfl

theorem delivered_logged_iff :
    Delivered serde (w.logged p) id e ↔ Delivered serde w id e ∨
      (p.row = id ∧ p.succeeded = true ∧
        ∃ entry, Bus.entry serde e.1 e.2 = .ok entry ∧ p.entry = some entry) := by
  simp only [Delivered, World.logged_log, List.mem_append, List.mem_singleton, or_and_right,
    exists_or, exists_eq_left]

theorem map_event_update {active : ActiveModel} (h : w.table.update id active = some t)
    (j : Uuid) : (t.find j).map event = (w.table.find j).map event := by
  rw [find_update h]
  split_ifs
  · rw [Option.map_map]
    rfl
  · rfl

theorem ledger_inserted (hw : WorldOk w) {e : NewEvent} {stored : Json}
    (hins : w.table.insert (newRow e.id e.eventType stored e.now) = some t) :
    ledger serde { w with table := t } =
      { ledger serde w with
        accepted := Function.update (ledger serde w).accepted e.id
          (some (e.eventType, stored)) } := by
  have hnone : w.table.find e.id = none := (insert_eq_some hins).2
  have hfind : ∀ id, t.find id =
      if id = e.id then some (newRow e.id e.eventType stored e.now) else w.table.find id :=
    find_insert hins
  apply Ledger.ext
  · funext id
    show (t.find id).map event = Function.update (ledger serde w).accepted e.id _ id
    rw [hfind]
    by_cases hid : id = e.id
    · rw [if_pos hid, hid, Function.update_self]
      rfl
    · rw [if_neg hid, Function.update_of_ne hid]
      rfl
  · ext ⟨id, ev⟩
    show (t.find id).map event = some ev ∧ Delivered serde w id ev ↔
      (w.table.find id).map event = some ev ∧ Delivered serde w id ev
    refine and_congr_left fun hd => ?_
    -- A delivery belongs to a row that was there before.
    obtain ⟨p, hp, rfl, -⟩ := hd
    obtain ⟨row, hrow⟩ := hw.known p hp
    rw [hfind, if_neg]
    intro hid
    rw [hid, hnone] at hrow
    cases hrow
  · ext id
    show (∃ row, t.find id = some row ∧ row.status = "sent") ↔
      ∃ row, w.table.find id = some row ∧ row.status = "sent"
    rw [hfind]
    by_cases hid : id = e.id
    · rw [if_pos hid, hid, hnone]
      simp [newRow]
    · rw [if_neg hid]

theorem ledger_published {row row' : Model} {reply : Bus.Reply} {now : Instant} {rid : String}
    {entry : Option Bus.StreamEntry} (hrow : w.table.find row.id = some row')
    (hevent : event row' = event row)
    (hpub : Bus.publish serde row.eventType row.payload reply = (.ok rid, entry)) :
    ledger serde (w.logged ⟨row.id, now, .ok rid, entry⟩) =
      { ledger serde w with
        delivered := insert (row.id, event row) (ledger serde w).delivered } := by
  obtain ⟨entry', hentry, rfl⟩ := Bus.publish_ok hpub
  apply Ledger.ext
  · rfl
  · ext ⟨id, ev⟩
    show (w.table.find id).map event = some ev ∧ Delivered serde (w.logged _) id ev ↔
      (id, ev) = (row.id, event row) ∨
        (w.table.find id).map event = some ev ∧ Delivered serde w id ev
    rw [delivered_logged_iff]
    -- The entry carries the event that the row has now, as rows keep their events.
    constructor
    · rintro ⟨hacc, hd | ⟨rfl, -⟩⟩
      · exact Or.inr ⟨hacc, hd⟩
      · rw [hrow, Option.map_some, hevent] at hacc
        exact Or.inl (by rw [Option.some.inj hacc])
    · rintro (heq | ⟨hacc, hd⟩)
      · obtain ⟨rfl, rfl⟩ := Prod.mk.inj heq
        exact ⟨by rw [hrow, Option.map_some, hevent], Or.inr ⟨rfl, rfl, entry', hentry, rfl⟩⟩
      · exact ⟨hacc, Or.inl hd⟩
  · rfl

theorem ledger_refused {row : Uuid} {now : Instant} {err : AppError}
    {entry : Option Bus.StreamEntry} :
    ledger serde (w.logged ⟨row, now, .error err, entry⟩) = ledger serde w := by
  apply Ledger.ext
  · rfl
  · ext ⟨id, ev⟩
    show _ ∧ Delivered serde (w.logged _) id ev ↔ _ ∧ Delivered serde w id ev
    rw [delivered_logged_iff]
    simp [Publication.succeeded, Except.isOk, Except.toBool]
  · rfl

theorem ledger_sent {row row' : Model} {now : Instant} (hrow : w.table.find row.id = some row')
    (hupd : w.table.update row.id (sentColumns now) = some t) {u : Update} :
    ledger serde (w.updated t u) =
      { ledger serde w with confirmed := insert row.id (ledger serde w).confirmed } := by
  apply Ledger.ext
  · funext id
    exact map_event_update hupd id
  · ext ⟨id, ev⟩
    exact and_congr_left' (by rw [World.updated_table, map_event_update hupd])
  · ext id
    show (∃ r, t.find id = some r ∧ r.status = "sent") ↔
      id = row.id ∨ ∃ r, w.table.find id = some r ∧ r.status = "sent"
    rw [find_update hupd]
    by_cases hid : id = row.id
    · rw [if_pos hid, hid, hrow]
      simp [sentColumns, ActiveModel.apply]
    · rw [if_neg hid]
      simp [hid]

theorem ledger_retry {attempts : Int32} {nextAt : Instant} {error : String} {u : Update}
    (hupd : w.table.update id (retryColumns attempts nextAt error) = some t) :
    ledger serde (w.updated t u) = ledger serde w := by
  apply Ledger.ext
  · funext j
    exact map_event_update hupd j
  · ext ⟨j, ev⟩
    exact and_congr_left' (by rw [World.updated_table, map_event_update hupd])
  · ext j
    show (∃ r, t.find j = some r ∧ r.status = "sent") ↔
      ∃ r, w.table.find j = some r ∧ r.status = "sent"
    rw [find_update hupd]
    split_ifs
    · simp [Option.map_eq_some_iff, retryColumns, ActiveModel.apply]
    · rfl

/-- A step of a producer accepts an event or does nothing. -/
theorem env_ledger (hw : WorldOk w) (e : NewEvent) :
    ledger serde ((drainers m serde jsonb).env w e) = ledger serde w ∨
      Ledger.Next (ledger serde w) (ledger serde ((drainers m serde jsonb).env w e)) := by
  rcases enqueue_cases m serde jsonb w e with h | ⟨stored, t, -, hins, h⟩
  · rw [h]
    exact Or.inl rfl
  · have hnone : w.table.find e.id = none := (insert_eq_some hins).2
    rw [h, ledger_inserted hw hins]
    exact Or.inr (.accept (by rw [ledger_accepted, hnone, Option.map_none]))

/-- A step of a call is a delivery, a confirmation, or nothing. -/
theorem callStep_ledger {a : CallAct} (hc : CallOk serde w c)
    (h : CallStep m serde w c a w' c') :
    ledger serde w' = ledger serde w ∨ Ledger.Next (ledger serde w) (ledger serde w') := by
  rcases h.world_cases with rfl | ⟨row, hrow, reply, result, entry, hpub, rfl⟩ |
    ⟨row, db, t, -, -, hphase, hupd, rfl⟩ | ⟨row, attempts, nextAt, err, db, t, -, -, -, hupd, rfl⟩
  · exact Or.inl rfl
  · cases result with
    | error err => exact Or.inl ledger_refused
    | ok rid =>
      obtain ⟨row', hrow', hevent⟩ := hc.copies row hrow
      rw [ledger_published hrow' hevent hpub]
      exact Or.inr (.deliver (by rw [ledger_accepted, hrow', Option.map_some, hevent]))
  · obtain ⟨row', hrow', hevent⟩ := hc.copies row (by simp [Call.copies, hphase])
    rw [ledger_sent hrow' hupd]
    have hdelivered : (row.id, event row) ∈ (ledger serde w).delivered := by
      refine ⟨?_, hc.published row hphase⟩
      show (w.table.find row.id).map event = some (event row)
      rw [hrow', Option.map_some, hevent]
    exact Or.inr (.confirm hdelivered)
  · exact Or.inl (ledger_retry hupd)

/-- The system refines the ledger. -/
theorem drainers_simulation :
    Runs.Simulation (step m serde jsonb) Ledger.Next fun s l =>
      Interleaving.Holds WorldOk (CallOk serde) s ∧ l = ledger serde s.world := by
  constructor
  rintro s l ev s' ⟨hs, rfl⟩ hstep
  have hs' := drainers_proof.step hs hstep
  cases ev with
  | env e =>
    obtain rfl := Option.some.inj hstep
    rcases env_ledger (m := m) hs.1 e with h | h
    · exact ⟨_, .refl, hs', h.symm⟩
    · exact ⟨_, .single h, hs', rfl⟩
  | start f =>
    obtain rfl := Option.some.inj hstep
    exact ⟨_, .refl, hs', rfl⟩
  | act i a =>
    obtain ⟨c, w', c', hc, ha, rfl⟩ := step_act_cases hstep
    rcases callStep_ledger (hs.2 c (List.mem_of_getElem? hc)) ha with h | h
    · exact ⟨_, .refl, hs', h.symm⟩
    · exact ⟨_, .single h, hs', rfl⟩

/-! ### Every run -/

theorem holds_initial : Interleaving.Holds WorldOk (CallOk serde) initial := by
  refine ⟨⟨fun id row h => ?_, fun p h => ?_⟩, fun c h => ?_⟩
  · cases h
  · cases h
  · cases h

theorem safe_initial : Ledger.Safe (ledger serde initial.world) := by
  refine ⟨fun id e he => he.1, fun id hid => ?_⟩
  obtain ⟨row, hrow, -⟩ := hid
  cases hrow

theorem holds_of_run {es : List Event} {s : State}
    (h : Runs.run (step m serde jsonb) initial es = some s) :
    Interleaving.Holds WorldOk (CallOk serde) s :=
  drainers_proof.invariant holds_initial h

/-- What the ledger says at some point of a run, it says later. -/
theorem ledger_extends {es : List Event} {s s' : State}
    (hs : Interleaving.Holds WorldOk (CallOk serde) s)
    (h : Runs.run (step m serde jsonb) s es = some s') :
    Ledger.Extends (ledger serde s.world) (ledger serde s'.world) := by
  obtain ⟨l, hl, -, rfl⟩ := drainers_simulation.run ⟨hs, rfl⟩ h
  exact Ledger.extends_of_reflTransGen hl

theorem ledger_safe {es : List Event} {s : State}
    (h : Runs.run (step m serde jsonb) initial es = some s) :
    Ledger.Safe (ledger serde s.world) := by
  obtain ⟨l, hl, -, rfl⟩ := drainers_simulation.run ⟨holds_initial, rfl⟩ h
  exact Ledger.safe_of_reflTransGen hl safe_initial

/-- An event whose `enqueue` has succeeded is in the table from then on, with what the column keeps
of its payload. -/
theorem enqueued_stays {es₁ es₂ : List Event} {e : NewEvent} {s s' : State} {t : Table}
    (h : Runs.run (step m serde jsonb) initial (es₁ ++ .env e :: es₂) = some s')
    (hs : Runs.run (step m serde jsonb) initial es₁ = some s)
    (hok : enqueue jsonb s.world.table e.id e.eventType e.payload e.now e.db = .ok t) :
    ∃ row, s'.world.table.find e.id = some row ∧ row.eventType = e.eventType ∧
      jsonb e.payload = some row.payload := by
  obtain ⟨u, hu, hrest⟩ := Runs.run_append_eq_some.1 h
  obtain rfl := Option.some.inj (hs.symm.trans hu)
  have henv : (drainers m serde jsonb).env s.world e = { s.world with table := t } := by
    show s.world.enqueue jsonb e.id e.eventType e.payload e.now e.db = _
    rw [World.enqueue, hok]
  have hstep : step m serde jsonb s (.env e) =
      some { s with world := { s.world with table := t } } := by
    rw [← henv]
    rfl
  rw [Runs.run_cons, hstep, Option.bind_some] at hrest
  have hext := ledger_extends (drainers_proof.step (holds_of_run hs) hstep) hrest
  obtain ⟨stored, hstored, hins⟩ := Option.bind_eq_some_iff.1 (execute_eq_ok.1 hok).2
  have hnew : t.find e.id = some (newRow e.id e.eventType stored e.now) :=
    (find_insert hins e.id).trans (if_pos rfl)
  have hacc := hext.accepted e.id (e.eventType, stored) (by
    show (t.find e.id).map event = _
    rw [hnew]
    rfl)
  obtain ⟨row, hrow, hevent⟩ := Option.map_eq_some_iff.1 hacc
  obtain ⟨htype, rfl⟩ := Prod.mk.inj hevent
  exact ⟨row, hrow, htype, hstored⟩

/-- No event is lost and no delivery is made up, in any interleaving of producers and drainers, with
any failures. -/
theorem outbox_delivers (m : MachineInt.OverflowMode) (serde : SerdeJson)
    (jsonb : Json → Option Json) (es : List Event) (s : State)
    (h : Runs.run (step m serde jsonb) initial es = some s) :
    (∀ es₁ e es₂ s₁ t, es = es₁ ++ .env e :: es₂ →
      Runs.run (step m serde jsonb) initial es₁ = some s₁ →
      enqueue jsonb s₁.world.table e.id e.eventType e.payload e.now e.db = .ok t →
      ∃ row, s.world.table.find e.id = some row ∧ row.eventType = e.eventType ∧
        jsonb e.payload = some row.payload) ∧
    (∀ row ∈ s.world.table.rows, (row.status = "pending" ∨ row.status = "sent") ∧
      (row.sentAt.isSome = true ↔ row.status = "sent")) ∧
    (∀ es₁ es₂ s₁, es = es₁ ++ es₂ → Runs.run (step m serde jsonb) initial es₁ = some s₁ →
      ∀ row ∈ s₁.world.table.rows, row.status = "sent" →
        ∃ row', s.world.table.find row.id = some row' ∧ row'.status = "sent") ∧
    (∀ row ∈ s.world.table.rows, row.status = "sent" →
      ∃ p ∈ s.world.log, p.row = row.id ∧ p.succeeded = true ∧
        ∃ text, serde.toString row.payload = .ok text ∧
          p.entry = some { stream := Bus.streamName row.eventType
                           fields := [("eventType", row.eventType), ("payload", text)] }) := by
  have hholds := holds_of_run h
  refine ⟨?_, ?_, ?_, ?_⟩
  · rintro es₁ e es₂ s₁ t rfl hs₁ hok
    exact enqueued_stays h hs₁ hok
  · intro row hrow
    rcases hholds.1.status row.id row (find_eq_some_iff.2 ⟨hrow, rfl⟩) with ⟨hst, hat⟩ | ⟨hst, hat⟩
    · rw [hst, hat]
      exact ⟨Or.inl rfl, by decide⟩
    · rw [hst, hat]
      exact ⟨Or.inr rfl, by decide⟩
  · rintro es₁ es₂ s₁ rfl hs₁ row hrow hsent
    obtain ⟨u, hu, hrest⟩ := Runs.run_append_eq_some.1 h
    obtain rfl := Option.some.inj (hs₁.symm.trans hu)
    exact (ledger_extends (holds_of_run hs₁) hrest).confirmed
      ⟨row, find_eq_some_iff.2 ⟨hrow, rfl⟩, hsent⟩
  · intro row hrow hsent
    have hfind := find_eq_some_iff.2 ⟨hrow, rfl⟩
    obtain ⟨e, hacc, p, hp, hid, hsucc, entry, hentry, hpe⟩ :=
      (ledger_safe h).confirmed row.id ⟨row, hfind, hsent⟩
    rw [hfind, Option.map_some] at hacc
    obtain rfl := Option.some.inj hacc
    obtain ⟨text, htext, rfl⟩ := Bus.entry_eq_ok.1 hentry
    exact ⟨p, hp, hid, hsucc, text, htext, hpe⟩

/-- Two calls fetch one row. The publish of the first is refused, that of the second succeeds, and
then both mark the row. -/
def sampleRun : List Event :=
  [.env ⟨1, "task.assigned", Bus.sampleEvent, 0, .ok⟩, .start ⟨10, 0, .ok⟩, .start ⟨10, 0, .ok⟩,
    .act 0 (.publish (.err "connection refused" false)), .act 1 (.publish (.ok "1-0")),
    .act 0 (.markRetry .ok), .act 1 (.markSent .ok), .act 0 .finish, .act 1 .finish]

theorem outbox_delivers_sampleRun :
    ∃ s, Runs.run (step .checked Bus.sampleSerde some) initial sampleRun = some s ∧
      s.world.log.map Publication.succeeded = [false, true] ∧
      ∃ row ∈ s.world.table.rows, row.status = "sent" ∧
        ∃ p ∈ s.world.log, p.row = row.id ∧ p.succeeded = true := by
  have hrun : (Runs.run (step .checked Bus.sampleSerde some) initial sampleRun).map
      (fun s => (s.world.log.map Publication.succeeded, s.world.table.rows.map Model.status)) =
        some ([false, true], ["sent"]) := by decide +kernel
  obtain ⟨s, hs, hstate⟩ := Option.map_eq_some_iff.1 hrun
  obtain ⟨hpublished, hrows⟩ := Prod.mk.inj hstate
  obtain ⟨row, hrow, hsent⟩ := List.mem_map.1 (hrows ▸ List.mem_singleton_self "sent")
  obtain ⟨-, -, -, hlog⟩ := outbox_delivers .checked Bus.sampleSerde some sampleRun s hs
  obtain ⟨p, hp, hid, hsucc, -⟩ := hlog row hrow hsent
  exact ⟨s, hs, hpublished, row, hrow, hsent, p, hp, hid, hsucc⟩

end Outbox

end OaLibs
