import OaLibs.Base.Runs
import OaLibs.Bus.Drain

/-!
# Concurrent drainers, step by step

Any number of producers and of `drain_once` calls work on one table. Between two awaits of a call
the others may take any steps, and a call may be dropped there; it goes on with the rows it fetched.

* `Call`, `Phase`: what a call remembers between two of its steps;
* `callStep`: the next step of a call, for a given answer of the bus or of the database;
* `drainers`: the interleaving of producers and calls;
* `CallStep`, `callStep_sound`: all that one step of a call can do;
* `drainOnce_run`: a `drainOnce` that nobody disturbs is a run of these steps.
-/

namespace OaLibs

namespace Outbox

/-- Where a call stands. -/
inductive Phase
  | head
  | published (row : Model)
  | refused (row : Model) (attempts : Int32) (nextAt : Instant) (err : AppError)
  | returned
  | failed (err : AppError)
  | panicked
  | stopped

/-- A `drain_once` call after its fetch: its time, the rows it has not come to, the rows it has
sent, and where it stands. -/
structure Call where
  now : Instant
  rest : List Model
  sent : UInt32
  phase : Phase

/-- A call that still has steps to take. -/
def Call.Running (c : Call) : Prop :=
  match c.phase with
  | .head | .published _ | .refused _ _ _ _ => True
  | .returned | .failed _ | .panicked | .stopped => False

instance (c : Call) : Decidable c.Running := by
  unfold Call.Running
  cases c.phase <;> infer_instance

/-- The rows a call has in hand. -/
def Call.copies (c : Call) : List Model :=
  match c.phase with
  | .published row => row :: c.rest
  | .refused row _ _ _ => row :: c.rest
  | _ => c.rest

/-- A step of a call. -/
inductive CallAct
  | publish (reply : Bus.Reply)
  | markSent (db : Db)
  | markRetry (db : Db)
  | finish
  | stop

/-- An `enqueue`. -/
structure NewEvent where
  id : Uuid
  eventType : String
  payload : Json
  now : Instant
  db : Db

/-- The first step of a call, which reads its batch. -/
structure Fetch where
  limit : UInt64
  now : Instant
  db : Db

variable (m : MachineInt.OverflowMode) (serde : SerdeJson)

/-- One step of a call. -/
def callStep (w : World) (c : Call) : CallAct → Option (World × Call)
  | .publish reply =>
      match c.phase, c.rest with
      | .head, row :: rest =>
          match w.publish serde row c.now reply with
          | (.ok _, w) => some (w, { c with rest := rest, phase := .published row })
          | (.error err, w) =>
              -- the new count of attempts comes from the copy that the call fetched
              match retryPlan m row c.now with
              | none => some (w, { c with rest := rest, phase := .panicked })
              | some (attempts, nextAt) =>
                  some (w, { c with rest := rest, phase := .refused row attempts nextAt err })
      | _, _ => none
  | .markSent db =>
      match c.phase with
      | .published row =>
          match w.markSent row.id c.now db with
          | .error err => some (w, { c with phase := .failed err })
          | .ok w =>
              match MachineInt.addU32 m c.sent 1 with
              | none => some (w, { c with phase := .panicked })
              | some sent => some (w, { c with sent := sent, phase := .head })
      | _ => none
  | .markRetry db =>
      match c.phase with
      | .refused row attempts nextAt err =>
          match w.markRetry row.id attempts nextAt err.display db with
          | .error err => some (w, { c with phase := .failed err })
          | .ok w => some (w, { c with phase := .head })
      | _ => none
  | .finish =>
      match c.phase, c.rest with
      | .head, [] => some (w, { c with phase := .returned })
      | _, _ => none
  | .stop => if c.Running then some (w, { c with phase := .stopped }) else none

/-- A call after its fetch. -/
def startCall (w : World) (f : Fetch) : Call :=
  match fetchDue w.table f.limit f.now f.db with
  | none => { now := f.now, rest := [], sent := 0, phase := .panicked }
  | some (.error err) => { now := f.now, rest := [], sent := 0, phase := .failed err }
  | some (.ok rows) => { now := f.now, rest := rows, sent := 0, phase := .head }

-- what the column of the payload keeps of a value, unless it refuses the value
variable (jsonb : Json → Option Json)

/-- Producers and drainers on one table. -/
def drainers : Interleaving World Call NewEvent Fetch CallAct where
  env w e := w.enqueue jsonb e.id e.eventType e.payload e.now e.db
  start := startCall
  act := callStep m serde

/-- A state of the table and of all calls. -/
abbrev State := Interleaving.State World Call

/-- A step of a producer or of a call. -/
abbrev Event := Interleaving.Event NewEvent Fetch CallAct

/-- One step of the whole system. -/
abbrev step : State → Event → Option State := (drainers m serde jsonb).step

/-- The empty table, before any call. -/
def initial : State := ⟨World.init, []⟩

/-! ### What one step of a call can do -/

/-- The steps of a call, with their effects. -/
inductive CallStep (w : World) (c : Call) : CallAct → World → Call → Prop
  | published {row : Model} {rest : List Model} {reply : Bus.Reply} {id : String}
      {entry : Option Bus.StreamEntry} (hphase : c.phase = .head) (hrest : c.rest = row :: rest)
      (hpub : Bus.publish serde row.eventType row.payload reply = (.ok id, entry)) :
      CallStep w c (.publish reply) (w.logged ⟨row.id, c.now, .ok id, entry⟩)
        { c with rest := rest, phase := .published row }
  | overflowed {row : Model} {rest : List Model} {reply : Bus.Reply} {err : AppError}
      {entry : Option Bus.StreamEntry} (hphase : c.phase = .head) (hrest : c.rest = row :: rest)
      (hpub : Bus.publish serde row.eventType row.payload reply = (.error err, entry))
      (hplan : retryPlan m row c.now = none) :
      CallStep w c (.publish reply) (w.logged ⟨row.id, c.now, .error err, entry⟩)
        { c with rest := rest, phase := .panicked }
  | refused {row : Model} {rest : List Model} {reply : Bus.Reply} {err : AppError}
      {entry : Option Bus.StreamEntry} {attempts : Int32} {nextAt : Instant}
      (hphase : c.phase = .head) (hrest : c.rest = row :: rest)
      (hpub : Bus.publish serde row.eventType row.payload reply = (.error err, entry))
      (hplan : retryPlan m row c.now = some (attempts, nextAt)) :
      CallStep w c (.publish reply) (w.logged ⟨row.id, c.now, .error err, entry⟩)
        { c with rest := rest, phase := .refused row attempts nextAt err }
  | markSentFailed {row : Model} {db : Db} {err : AppError} (hphase : c.phase = .published row)
      (hmark : w.markSent row.id c.now db = .error err) :
      CallStep w c (.markSent db) w { c with phase := .failed err }
  | markSentOverflowed {row : Model} {db : Db} {t : Table} (hphase : c.phase = .published row)
      (hdb : db.fails = false) (hmark : w.table.update row.id (sentColumns c.now) = some t)
      (hsum : MachineInt.addU32 m c.sent 1 = none) :
      CallStep w c (.markSent db) (w.updated t (.sent row.id)) { c with phase := .panicked }
  | markSent {row : Model} {db : Db} {t : Table} {sent : UInt32} (hphase : c.phase = .published row)
      (hdb : db.fails = false) (hmark : w.table.update row.id (sentColumns c.now) = some t)
      (hsum : MachineInt.addU32 m c.sent 1 = some sent) :
      CallStep w c (.markSent db) (w.updated t (.sent row.id))
        { c with sent := sent, phase := .head }
  | markRetryFailed {row : Model} {attempts : Int32} {nextAt : Instant} {err err' : AppError}
      {db : Db} (hphase : c.phase = .refused row attempts nextAt err)
      (hmark : w.markRetry row.id attempts nextAt err.display db = .error err') :
      CallStep w c (.markRetry db) w { c with phase := .failed err' }
  | markRetry {row : Model} {attempts : Int32} {nextAt : Instant} {err : AppError} {db : Db}
      {t : Table} (hphase : c.phase = .refused row attempts nextAt err) (hdb : db.fails = false)
      (hmark : w.table.update row.id (retryColumns attempts nextAt err.display) = some t) :
      CallStep w c (.markRetry db) (w.updated t (.retry row.id)) { c with phase := .head }
  | finish (hphase : c.phase = .head) (hrest : c.rest = []) :
      CallStep w c .finish w { c with phase := .returned }
  | stop (hrun : c.Running) : CallStep w c .stop w { c with phase := .stopped }

variable {m serde jsonb} {w w' : World} {c c' : Call} {a : CallAct}

theorem callStep_sound (h : callStep m serde w c a = some (w', c')) :
    CallStep m serde w c a w' c' := by
  cases a with
  | publish reply =>
    simp only [callStep] at h
    split at h
    · rename_i row rest hphase hrest
      cases hpub : Bus.publish serde row.eventType row.payload reply with
      | mk result entry =>
        cases result with
        | ok id =>
          simp only [World.publish, hpub, Option.some.injEq, Prod.mk.injEq] at h
          obtain ⟨rfl, rfl⟩ := h
          exact .published hphase hrest hpub
        | error err =>
          cases hplan : retryPlan m row c.now with
          | none =>
            simp only [World.publish, hpub, hplan, Option.some.injEq, Prod.mk.injEq] at h
            obtain ⟨rfl, rfl⟩ := h
            exact .overflowed hphase hrest hpub hplan
          | some plan =>
            obtain ⟨attempts, nextAt⟩ := plan
            simp only [World.publish, hpub, hplan, Option.some.injEq, Prod.mk.injEq] at h
            obtain ⟨rfl, rfl⟩ := h
            exact .refused hphase hrest hpub hplan
    · cases h
  | markSent db =>
    simp only [callStep] at h
    split at h
    · rename_i row hphase
      cases hmark : w.markSent row.id c.now db with
      | error err =>
        simp only [hmark, Option.some.injEq, Prod.mk.injEq] at h
        obtain ⟨rfl, rfl⟩ := h
        exact .markSentFailed hphase hmark
      | ok w₁ =>
        obtain ⟨hdb, t, ht, rfl⟩ := markSent_eq_ok hmark
        cases hsum : MachineInt.addU32 m c.sent 1 with
        | none =>
          simp only [hmark, hsum, Option.some.injEq, Prod.mk.injEq] at h
          obtain ⟨rfl, rfl⟩ := h
          exact .markSentOverflowed hphase hdb ht hsum
        | some sent =>
          simp only [hmark, hsum, Option.some.injEq, Prod.mk.injEq] at h
          obtain ⟨rfl, rfl⟩ := h
          exact .markSent hphase hdb ht hsum
    · cases h
  | markRetry db =>
    simp only [callStep] at h
    split at h
    · rename_i row attempts nextAt err hphase
      cases hmark : w.markRetry row.id attempts nextAt err.display db with
      | error err' =>
        simp only [hmark, Option.some.injEq, Prod.mk.injEq] at h
        obtain ⟨rfl, rfl⟩ := h
        exact .markRetryFailed hphase hmark
      | ok w₁ =>
        obtain ⟨hdb, t, ht, rfl⟩ := markRetry_eq_ok hmark
        simp only [hmark, Option.some.injEq, Prod.mk.injEq] at h
        obtain ⟨rfl, rfl⟩ := h
        exact .markRetry hphase hdb ht
    · cases h
  | finish =>
    simp only [callStep] at h
    split at h
    · rename_i hphase hrest
      simp only [Option.some.injEq, Prod.mk.injEq] at h
      obtain ⟨rfl, rfl⟩ := h
      exact .finish hphase hrest
    · cases h
  | stop =>
    simp only [callStep] at h
    split_ifs at h with hrun
    simp only [Option.some.injEq, Prod.mk.injEq] at h
    obtain ⟨rfl, rfl⟩ := h
    exact .stop hrun

theorem rest_subset_copies (c : Call) : c.rest ⊆ c.copies := by
  unfold Call.copies
  split
  · exact List.subset_cons_self _ _
  · exact List.subset_cons_self _ _
  · exact List.Subset.refl _

/-- A call never gets hold of another row. -/
theorem CallStep.copies_subset (h : CallStep m serde w c a w' c') : c'.copies ⊆ c.copies := by
  cases h with
  | published hphase hrest hpub => simp [Call.copies, hphase, hrest]
  | overflowed hphase hrest hpub hplan => simp [Call.copies, hphase, hrest]
  | refused hphase hrest hpub hplan => simp [Call.copies, hphase, hrest]
  | markSentFailed hphase hmark => exact rest_subset_copies c
  | markSentOverflowed hphase hdb hmark hsum => exact rest_subset_copies c
  | markSent hphase hdb hmark hsum => exact rest_subset_copies c
  | markRetryFailed hphase hmark => exact rest_subset_copies c
  | markRetry hphase hdb hmark => exact rest_subset_copies c
  | finish hphase hrest => exact rest_subset_copies c
  | stop hrun => exact rest_subset_copies c

/-- What a call does to the table and the log: nothing, a publish, or one of the two updates. -/
theorem CallStep.world_cases (h : CallStep m serde w c a w' c') :
    w' = w ∨
    (∃ row ∈ c.copies, ∃ reply result entry,
      Bus.publish serde row.eventType row.payload reply = (result, entry) ∧
        w' = w.logged ⟨row.id, c.now, result, entry⟩) ∨
    (∃ row db t, a = .markSent db ∧ db.fails = false ∧ c.phase = .published row ∧
      w.table.update row.id (sentColumns c.now) = some t ∧ w' = w.updated t (.sent row.id)) ∨
    (∃ row attempts nextAt err db t, a = .markRetry db ∧ db.fails = false ∧
      c.phase = .refused row attempts nextAt err ∧
      w.table.update row.id (retryColumns attempts nextAt err.display) = some t ∧
      w' = w.updated t (.retry row.id)) := by
  cases h with
  | published hphase hrest hpub =>
    exact Or.inr (Or.inl ⟨_, rest_subset_copies c (by rw [hrest]; exact List.mem_cons_self),
      _, _, _, hpub, rfl⟩)
  | overflowed hphase hrest hpub hplan =>
    exact Or.inr (Or.inl ⟨_, rest_subset_copies c (by rw [hrest]; exact List.mem_cons_self),
      _, _, _, hpub, rfl⟩)
  | refused hphase hrest hpub hplan =>
    exact Or.inr (Or.inl ⟨_, rest_subset_copies c (by rw [hrest]; exact List.mem_cons_self),
      _, _, _, hpub, rfl⟩)
  | markSentFailed hphase hmark => exact Or.inl rfl
  | markSentOverflowed hphase hdb hmark hsum =>
    exact Or.inr (Or.inr (Or.inl ⟨_, _, _, rfl, hdb, hphase, hmark, rfl⟩))
  | markSent hphase hdb hmark hsum =>
    exact Or.inr (Or.inr (Or.inl ⟨_, _, _, rfl, hdb, hphase, hmark, rfl⟩))
  | markRetryFailed hphase hmark => exact Or.inl rfl
  | markRetry hphase hdb hmark =>
    exact Or.inr (Or.inr (Or.inr ⟨_, _, _, _, _, _, rfl, hdb, hphase, hmark, rfl⟩))
  | finish hphase hrest => exact Or.inl rfl
  | stop hrun => exact Or.inl rfl

variable (m serde jsonb) in
/-- A producer adds a row with what the column keeps of its payload, or changes nothing. -/
theorem enqueue_cases (w : World) (e : NewEvent) :
    (drainers m serde jsonb).env w e = w ∨
      ∃ stored t, jsonb e.payload = some stored ∧
        w.table.insert (newRow e.id e.eventType stored e.now) = some t ∧
        (drainers m serde jsonb).env w e = { w with table := t } := by
  show w.enqueue jsonb e.id e.eventType e.payload e.now e.db = w ∨
    ∃ stored t, _ ∧ _ ∧
      w.enqueue jsonb e.id e.eventType e.payload e.now e.db = { w with table := t }
  unfold World.enqueue
  split
  · exact Or.inl rfl
  · rename_i t ht
    obtain ⟨stored, hstored, hins⟩ := Option.bind_eq_some_iff.1 (execute_eq_ok.1 ht).2
    exact Or.inr ⟨stored, t, hstored, hins, rfl⟩

/-- The rows of a new call are due rows of the table. -/
theorem startCall_spec (w : World) (f : Fetch) :
    (startCall w f).now = f.now ∧ (startCall w f).sent = 0 ∧
      ((startCall w f).phase = .head ∨ (∃ err, (startCall w f).phase = .failed err) ∨
        (startCall w f).phase = .panicked) ∧
      (startCall w f).copies = (startCall w f).rest ∧
      (∀ row ∈ (startCall w f).rest, w.table.find row.id = some row ∧ Due f.now row) ∧
      ((startCall w f).rest.map Model.id).Nodup := by
  unfold startCall
  split
  · exact ⟨rfl, rfl, Or.inr (Or.inr rfl), rfl, by simp, List.nodup_nil⟩
  · rename_i err _
    exact ⟨rfl, rfl, Or.inr (Or.inl ⟨err, rfl⟩), rfl, by simp, List.nodup_nil⟩
  · rename_i rows hrows
    exact ⟨rfl, rfl, Or.inl rfl, rfl, fetchDue_spec hrows⟩

/-- A new call holds no row yet that it has published or that was refused. -/
theorem startCall_phase (w : World) (f : Fetch) :
    (∀ row, (startCall w f).phase ≠ .published row) ∧
      ∀ row attempts nextAt err, (startCall w f).phase ≠ .refused row attempts nextAt err := by
  obtain ⟨-, -, hphase, -⟩ := startCall_spec w f
  rcases hphase with hp | ⟨err, hp⟩ | hp
  · exact ⟨fun _ => by simp [hp], fun _ _ _ _ => by simp [hp]⟩
  · exact ⟨fun _ => by simp [hp], fun _ _ _ _ => by simp [hp]⟩
  · exact ⟨fun _ => by simp [hp], fun _ _ _ _ => by simp [hp]⟩

/-! ### What one step of the system can do to the table -/

variable {s s' : State} {ev : Event}

theorem step_act_cases {i : ℕ} (h : step m serde jsonb s (.act i a) = some s') :
    ∃ c w' c', s.procs[i]? = some c ∧ CallStep m serde s.world c a w' c' ∧
      s' = ⟨w', s.procs.set i c'⟩ := by
  obtain ⟨c, w', c', hc, ha, rfl⟩ := Interleaving.step_act_eq_some.1 h
  exact ⟨c, w', c', hc, callStep_sound ha, rfl⟩

/-- The table and the record of updates after a step: unchanged, one more row, or one update by a
call that is at that point. -/
theorem step_table_cases (h : step m serde jsonb s ev = some s') :
    (s'.world.table = s.world.table ∧ s'.world.updates = s.world.updates) ∨
    (∃ e stored t, ev = .env e ∧ jsonb e.payload = some stored ∧
      s.world.table.insert (newRow e.id e.eventType stored e.now) = some t ∧
      s'.world = { s.world with table := t }) ∨
    (∃ i db c row t, ev = .act i (.markSent db) ∧ db.fails = false ∧ s.procs[i]? = some c ∧
      c.phase = .published row ∧ s.world.table.update row.id (sentColumns c.now) = some t ∧
      s'.world = s.world.updated t (.sent row.id)) ∨
    (∃ i db c row attempts nextAt err t, ev = .act i (.markRetry db) ∧ db.fails = false ∧
      s.procs[i]? = some c ∧ c.phase = .refused row attempts nextAt err ∧
      s.world.table.update row.id (retryColumns attempts nextAt err.display) = some t ∧
      s'.world = s.world.updated t (.retry row.id)) := by
  cases ev with
  | env e =>
    obtain rfl := Option.some.inj h
    rcases enqueue_cases m serde jsonb s.world e with he | ⟨stored, t, hstored, hins, he⟩
    · exact Or.inl ⟨by rw [he], by rw [he]⟩
    · exact Or.inr (Or.inl ⟨e, stored, t, rfl, hstored, hins, he⟩)
  | start f =>
    obtain rfl := Option.some.inj h
    exact Or.inl ⟨rfl, rfl⟩
  | act i a =>
    obtain ⟨c, w', c', hc, ha, rfl⟩ := step_act_cases h
    rcases ha.world_cases with rfl | ⟨row, -, reply, result, entry, -, rfl⟩ |
      ⟨row, db, t, rfl, hdb, hphase, hupd, rfl⟩ |
      ⟨row, attempts, nextAt, err, db, t, rfl, hdb, hphase, hupd, rfl⟩
    · exact Or.inl ⟨rfl, rfl⟩
    · exact Or.inl ⟨rfl, rfl⟩
    · exact Or.inr (Or.inr (Or.inl ⟨i, db, c, row, t, rfl, hdb, hc, hphase, hupd, rfl⟩))
    · exact Or.inr (Or.inr (Or.inr
        ⟨i, db, c, row, attempts, nextAt, err, t, rfl, hdb, hc, hphase, hupd, rfl⟩))

/-- A `markSent` of a row that is there takes effect. -/
theorem markSent_step {i : ℕ} {row row' : Model} {db : Db} (hc : s.procs[i]? = some c)
    (hphase : c.phase = .published row) (hfind : s.world.table.find row.id = some row')
    (hdb : db.fails = false) (h : step m serde jsonb s (.act i (.markSent db)) = some s') :
    ∃ t, s.world.table.update row.id (sentColumns c.now) = some t ∧
      s'.world = s.world.updated t (.sent row.id) := by
  obtain ⟨c₁, w', c', hc₁, ha, rfl⟩ := step_act_cases h
  obtain rfl := Option.some.inj (hc.symm.trans hc₁)
  cases ha with
  | markSentFailed hphase₁ hmark =>
    obtain rfl := Phase.published.inj (hphase.symm.trans hphase₁)
    exact absurd hmark (markSent_ne_error hfind hdb)
  | markSentOverflowed hphase₁ hdb₁ hmark hsum =>
    obtain rfl := Phase.published.inj (hphase.symm.trans hphase₁)
    exact ⟨_, hmark, rfl⟩
  | markSent hphase₁ hdb₁ hmark hsum =>
    obtain rfl := Phase.published.inj (hphase.symm.trans hphase₁)
    exact ⟨_, hmark, rfl⟩

/-- A `markRetry` of a row that is there takes effect. -/
theorem markRetry_step {i : ℕ} {row row' : Model} {attempts : Int32} {nextAt : Instant}
    {err : AppError} {db : Db} (hc : s.procs[i]? = some c)
    (hphase : c.phase = .refused row attempts nextAt err)
    (hfind : s.world.table.find row.id = some row') (hdb : db.fails = false)
    (h : step m serde jsonb s (.act i (.markRetry db)) = some s') :
    ∃ t, s.world.table.update row.id (retryColumns attempts nextAt err.display) = some t ∧
      s'.world = s.world.updated t (.retry row.id) := by
  obtain ⟨c₁, w', c', hc₁, ha, rfl⟩ := step_act_cases h
  obtain rfl := Option.some.inj (hc.symm.trans hc₁)
  cases ha with
  | markRetryFailed hphase₁ hmark =>
    obtain ⟨rfl, rfl, rfl, rfl⟩ := Phase.refused.inj (hphase.symm.trans hphase₁)
    exact absurd hmark (markRetry_ne_error hfind hdb)
  | markRetry hphase₁ hdb₁ hmark =>
    obtain ⟨rfl, rfl, rfl, rfl⟩ := Phase.refused.inj (hphase.symm.trans hphase₁)
    exact ⟨_, hmark, rfl⟩

/-! ### An undisturbed drain is a run -/

/-- How a call has ended. -/
def Call.outcome (c : Call) : Option Outcome :=
  match c.phase with
  | .returned => some (.ok c.sent)
  | .failed err => some (.err err)
  | .panicked => some .panic
  | _ => none

/-- A step of the youngest call. -/
theorem step_last {calls : List Call} (h : callStep m serde w c a = some (w', c')) :
    step m serde jsonb ⟨w, calls ++ [c]⟩ (.act calls.length a) = some ⟨w', calls ++ [c']⟩ := by
  refine Interleaving.step_act_eq_some.2 ⟨c, w', c', ?_, h, ?_⟩
  · simp
  · simp

theorem run_last {calls : List Call} (h : callStep m serde w c a = some (w', c')) :
    Runs.run (step m serde jsonb) ⟨w, calls ++ [c]⟩ [.act calls.length a] =
      some ⟨w', calls ++ [c']⟩ := by
  rw [Runs.run_cons, step_last h, Option.bind_some, Runs.run_nil]

theorem run_last_two {calls : List Call} {w'' : World} {c'' : Call} {b : CallAct}
    (h : callStep m serde w c a = some (w', c')) (h' : callStep m serde w' c' b = some (w'', c'')) :
    Runs.run (step m serde jsonb) ⟨w, calls ++ [c]⟩ [.act calls.length a, .act calls.length b] =
      some ⟨w'', calls ++ [c'']⟩ := by
  rw [Runs.run_cons, step_last h, Option.bind_some, run_last h']

/-- The body of the loop is a publish and, unless the drain ends there, a mark. -/
theorem drainRow_run {now : Instant} {answers : Answers} {row : Model} (rest : List Model)
    {sent : UInt32} (calls : List Call) {result : Except Outcome UInt32}
    (h : drainRow m serde now answers row sent w = (result, w')) :
    ∃ acts c', Runs.run (step m serde jsonb) ⟨w, calls ++ [⟨now, row :: rest, sent, .head⟩]⟩ acts =
        some ⟨w', calls ++ [c']⟩ ∧
      match result with
      | .ok sent' => c' = ⟨now, rest, sent', .head⟩
      | .error outcome => c'.outcome = some outcome := by
  unfold drainRow at h
  -- One case for each way out of the body; the steps are those of the branch that is taken.
  cases hpub : w.publish serde row now (answers.reply row.id) with
  | mk res w₁ =>
    cases res with
    | ok id =>
      simp only [hpub] at h
      have hstep : callStep m serde w ⟨now, row :: rest, sent, .head⟩
          (.publish (answers.reply row.id)) = some (w₁, ⟨now, rest, sent, .published row⟩) := by
        simp [callStep, hpub]
      cases hmark : w₁.markSent row.id now (answers.update row.id) with
      | error err =>
        simp only [hmark, Prod.mk.injEq] at h
        obtain ⟨rfl, rfl⟩ := h
        have hstep' : callStep m serde w₁ ⟨now, rest, sent, .published row⟩
            (.markSent (answers.update row.id)) = some (w₁, ⟨now, rest, sent, .failed err⟩) := by
          simp [callStep, hmark]
        exact ⟨_, _, run_last_two hstep hstep', rfl⟩
      | ok w₂ =>
        cases hsum : MachineInt.addU32 m sent 1 with
        | none =>
          simp only [hmark, hsum, Prod.mk.injEq] at h
          obtain ⟨rfl, rfl⟩ := h
          have hstep' : callStep m serde w₁ ⟨now, rest, sent, .published row⟩
              (.markSent (answers.update row.id)) = some (w₂, ⟨now, rest, sent, .panicked⟩) := by
            simp [callStep, hmark, hsum]
          exact ⟨_, _, run_last_two hstep hstep', rfl⟩
        | some sent' =>
          simp only [hmark, hsum, Prod.mk.injEq] at h
          obtain ⟨rfl, rfl⟩ := h
          have hstep' : callStep m serde w₁ ⟨now, rest, sent, .published row⟩
              (.markSent (answers.update row.id)) = some (w₂, ⟨now, rest, sent', .head⟩) := by
            simp [callStep, hmark, hsum]
          exact ⟨_, _, run_last_two hstep hstep', rfl⟩
    | error err =>
      simp only [hpub] at h
      cases hplan : retryPlan m row now with
      | none =>
        simp only [hplan, Prod.mk.injEq] at h
        obtain ⟨rfl, rfl⟩ := h
        have hstep : callStep m serde w ⟨now, row :: rest, sent, .head⟩
            (.publish (answers.reply row.id)) = some (w₁, ⟨now, rest, sent, .panicked⟩) := by
          simp [callStep, hpub, hplan]
        exact ⟨_, _, run_last hstep, rfl⟩
      | some plan =>
        obtain ⟨attempts, nextAt⟩ := plan
        have hstep : callStep m serde w ⟨now, row :: rest, sent, .head⟩
            (.publish (answers.reply row.id)) =
              some (w₁, ⟨now, rest, sent, .refused row attempts nextAt err⟩) := by
          simp [callStep, hpub, hplan]
        cases hmark : w₁.markRetry row.id attempts nextAt err.display (answers.update row.id) with
        | error err' =>
          simp only [hplan, hmark, Prod.mk.injEq] at h
          obtain ⟨rfl, rfl⟩ := h
          have hstep' : callStep m serde w₁ ⟨now, rest, sent, .refused row attempts nextAt err⟩
              (.markRetry (answers.update row.id)) =
                some (w₁, ⟨now, rest, sent, .failed err'⟩) := by
            simp [callStep, hmark]
          exact ⟨_, _, run_last_two hstep hstep', rfl⟩
        | ok w₂ =>
          simp only [hplan, hmark, Prod.mk.injEq] at h
          obtain ⟨rfl, rfl⟩ := h
          have hstep' : callStep m serde w₁ ⟨now, rest, sent, .refused row attempts nextAt err⟩
              (.markRetry (answers.update row.id)) = some (w₂, ⟨now, rest, sent, .head⟩) := by
            simp [callStep, hmark]
          exact ⟨_, _, run_last_two hstep hstep', rfl⟩

theorem drainLoop_run {now : Instant} {answers : Answers} {rows : List Model} {sent : UInt32}
    (calls : List Call) {outcome : Outcome}
    (h : drainLoop m serde now answers rows sent w = (outcome, w')) :
    ∃ acts c', Runs.run (step m serde jsonb) ⟨w, calls ++ [⟨now, rows, sent, .head⟩]⟩ acts =
        some ⟨w', calls ++ [c']⟩ ∧ c'.outcome = some outcome := by
  induction rows generalizing sent w with
  | nil =>
    simp only [drainLoop, Prod.mk.injEq] at h
    obtain ⟨rfl, rfl⟩ := h
    have hstep : callStep m serde w ⟨now, [], sent, .head⟩ .finish =
        some (w, ⟨now, [], sent, .returned⟩) := rfl
    exact ⟨_, _, run_last hstep, rfl⟩
  | cons row rows ih =>
    rw [drainLoop] at h
    cases hrow : drainRow m serde now answers row sent w with
    | mk result w₁ =>
      obtain ⟨acts, c', hrun, hc'⟩ := drainRow_run rows calls hrow
      cases result with
      | error outcome' =>
        simp only [hrow, Prod.mk.injEq] at h
        obtain ⟨rfl, rfl⟩ := h
        exact ⟨acts, c', hrun, hc'⟩
      | ok sent' =>
        simp only [hrow] at h
        obtain ⟨acts', c'', hrun', hc''⟩ := ih h
        obtain rfl := hc'
        exact ⟨acts ++ acts', c'', Runs.run_append_eq_some.2 ⟨_, hrun, hrun'⟩, hc''⟩

/-- A drain that nobody disturbs is one of the interleavings. -/
theorem drainOnce_run {now : Instant} {answers : Answers} {limit : UInt64} {calls : List Call}
    {outcome : Outcome} (h : drainOnce m serde now answers limit w = (outcome, w')) :
    ∃ acts c, Runs.run (step m serde jsonb) ⟨w, calls⟩
        (.start ⟨limit, now, answers.fetch⟩ :: acts) = some ⟨w', calls ++ [c]⟩ ∧
      c.outcome = some outcome := by
  have hstart : step m serde jsonb ⟨w, calls⟩ (.start ⟨limit, now, answers.fetch⟩) =
      some ⟨w, calls ++ [startCall w ⟨limit, now, answers.fetch⟩]⟩ := rfl
  unfold drainOnce at h
  cases hfetch : fetchDue w.table limit now answers.fetch with
  | none =>
    simp only [hfetch, Prod.mk.injEq] at h
    obtain ⟨rfl, rfl⟩ := h
    refine ⟨[], ⟨now, [], 0, .panicked⟩, ?_, rfl⟩
    rw [Runs.run_cons, hstart, Option.bind_some, Runs.run_nil, startCall, hfetch]
  | some fetched =>
    cases fetched with
    | error err =>
      simp only [hfetch, Prod.mk.injEq] at h
      obtain ⟨rfl, rfl⟩ := h
      refine ⟨[], ⟨now, [], 0, .failed err⟩, ?_, rfl⟩
      rw [Runs.run_cons, hstart, Option.bind_some, Runs.run_nil, startCall, hfetch]
    | ok rows =>
      simp only [hfetch] at h
      obtain ⟨acts, c, hrun, hc⟩ := drainLoop_run calls h
      refine ⟨acts, c, ?_, hc⟩
      rw [Runs.run_cons, hstart, Option.bind_some, startCall, hfetch]
      exact hrun

end Outbox

end OaLibs
