import OaLibs.Bus.Outbox

/-!
# One drain of the outbox

`drain_once` takes the rows that are due, publishes them one after the other and marks each of them
as sent or puts it off.

* `World`: the table, with what has been published and which updates have been executed;
* `drainRow`, `drainLoop`, `drainOnce`: the body of the loop, the loop and the function, for given
  answers of the bus and of the database;
* `markSent_eq_ok`, `markRetry_eq_ok`: an update that succeeds is an update of the table.
-/

namespace OaLibs

namespace Outbox

/-- A publish that was carried out for a row, with its result and the entry it left in the
stream. -/
structure Publication where
  row : Uuid
  now : Instant
  result : Except AppError String
  entry : Option Bus.StreamEntry

/-- The publish returned `Ok`. -/
def Publication.succeeded (p : Publication) : Bool := p.result.isOk

/-- An update that took effect. -/
inductive Update
  | sent (row : Uuid)
  | retry (row : Uuid)
  deriving DecidableEq

/-- The table, the publishes so far and the updates so far. -/
structure World where
  table : Table
  log : List Publication
  updates : List Update

namespace World

/-- Before anything has happened. -/
def init : World := ⟨Table.empty, [], []⟩

/-- One more publish. -/
def logged (w : World) (p : Publication) : World := { w with log := w.log ++ [p] }

/-- One more update. -/
def updated (w : World) (t : Table) (u : Update) : World :=
  { w with table := t, updates := w.updates ++ [u] }

/-- Publish a row. -/
def publish (serde : SerdeJson) (w : World) (row : Model) (now : Instant) (reply : Bus.Reply) :
    Except AppError String × World :=
  let (result, entry) := Bus.publish serde row.eventType row.payload reply
  (result, w.logged { row := row.id, now := now, result := result, entry := entry })

/-- Mark a row as delivered. -/
def markSent (w : World) (id : Uuid) (now : Instant) (db : Db) : Except AppError World :=
  match Outbox.markSent w.table id now db with
  | .error err => .error err
  | .ok t => .ok (w.updated t (.sent id))

/-- Put a row off. -/
def markRetry (w : World) (id : Uuid) (attempts : Int32) (nextAt : Instant) (error : String)
    (db : Db) : Except AppError World :=
  match Outbox.markRetry w.table id attempts nextAt error db with
  | .error err => .error err
  | .ok t => .ok (w.updated t (.retry id))

/-- Write an event into the table; a failed `enqueue` has no effect. -/
def enqueue (jsonb : Json → Option Json) (w : World) (id : Uuid) (eventType : String)
    (payload : Json) (now : Instant) (db : Db) : World :=
  match Outbox.enqueue jsonb w.table id eventType payload now db with
  | .error _ => w
  | .ok t => { w with table := t }

variable (w : World) (p : Publication) (t : Table) (u : Update)

@[simp] theorem logged_table : (w.logged p).table = w.table := rfl

@[simp] theorem logged_log : (w.logged p).log = w.log ++ [p] := rfl

@[simp] theorem logged_updates : (w.logged p).updates = w.updates := rfl

@[simp] theorem updated_table : (w.updated t u).table = t := rfl

@[simp] theorem updated_log : (w.updated t u).log = w.log := rfl

@[simp] theorem updated_updates : (w.updated t u).updates = w.updates ++ [u] := rfl

end World

/-- The answers a drain gets from the bus and from the database. -/
structure Answers where
  fetch : Db
  reply : Uuid → Bus.Reply
  update : Uuid → Db

/-- How a drain ends. -/
inductive Outcome
  | ok (sent : UInt32)
  | err (err : AppError)
  | panic

variable (m : MachineInt.OverflowMode) (serde : SerdeJson) (now : Instant) (answers : Answers)

/-- The body of the loop: the new count of sent rows, or the end of the drain. -/
def drainRow (row : Model) (sent : UInt32) (w : World) : Except Outcome UInt32 × World :=
  match w.publish serde row now (answers.reply row.id) with
  | (.ok _, w) =>
      match w.markSent row.id now (answers.update row.id) with
      -- the entry is in the stream already, but the row stays as it was
      | .error err => (.error (.err err), w)
      | .ok w =>
          match MachineInt.addU32 m sent 1 with
          | none => (.error .panic, w)
          | some sent => (.ok sent, w)
  | (.error err, w) =>
      match retryPlan m row now with
      | none => (.error .panic, w)
      | some (attempts, nextAt) =>
          match w.markRetry row.id attempts nextAt err.display (answers.update row.id) with
          | .error err => (.error (.err err), w)
          | .ok w => (.ok sent, w)

/-- The loop over the rows of the batch. -/
def drainLoop : List Model → UInt32 → World → Outcome × World
  | [], sent, w => (.ok sent, w)
  | row :: rows, sent, w =>
      match drainRow m serde now answers row sent w with
      | (.error outcome, w) => (outcome, w)
      | (.ok sent, w) => drainLoop rows sent w

/-- One round of delivery. -/
def drainOnce (limit : UInt64) (w : World) : Outcome × World :=
  match fetchDue w.table limit now answers.fetch with
  | none => (.panic, w)
  | some (.error err) => (.err err, w)
  | some (.ok rows) => drainLoop m serde now answers rows 0 w

/-! ### Updates that succeed -/

variable {m serde now answers} {w w' : World} {row : Model} {id : Uuid} {db : Db}

theorem markSent_eq_ok (h : w.markSent id now db = .ok w') :
    db.fails = false ∧
      ∃ t, w.table.update id (sentColumns now) = some t ∧ w' = w.updated t (.sent id) := by
  unfold World.markSent at h
  split at h
  · cases h
  · rename_i t ht
    exact ⟨(execute_eq_ok.1 ht).1, t, (execute_eq_ok.1 ht).2, (Except.ok.inj h).symm⟩

theorem markRetry_eq_ok {attempts : Int32} {nextAt : Instant} {error : String}
    (h : w.markRetry id attempts nextAt error db = .ok w') :
    db.fails = false ∧ ∃ t, w.table.update id (retryColumns attempts nextAt error) = some t ∧
      w' = w.updated t (.retry id) := by
  unfold World.markRetry at h
  split at h
  · cases h
  · rename_i t ht
    exact ⟨(execute_eq_ok.1 ht).1, t, (execute_eq_ok.1 ht).2, (Except.ok.inj h).symm⟩

variable (now) in
/-- An update of a row that is there takes effect when the database does not fail. -/
theorem markSent_of_find (hfind : w.table.find id = some row) (hdb : db.fails = false) :
    ∃ t, w.table.update id (sentColumns now) = some t ∧
      w.markSent id now db = .ok (w.updated t (.sent id)) := by
  obtain ⟨t, ht⟩ := update_of_find (sentColumns now) hfind
  have hok : markSent w.table id now db = .ok t := execute_eq_ok.2 ⟨hdb, ht⟩
  exact ⟨t, ht, by rw [World.markSent, hok]⟩

theorem markRetry_of_find (attempts : Int32) (nextAt : Instant) (error : String)
    (hfind : w.table.find id = some row) (hdb : db.fails = false) :
    ∃ t, w.table.update id (retryColumns attempts nextAt error) = some t ∧
      w.markRetry id attempts nextAt error db = .ok (w.updated t (.retry id)) := by
  obtain ⟨t, ht⟩ := update_of_find (retryColumns attempts nextAt error) hfind
  have hok : markRetry w.table id attempts nextAt error db = .ok t := execute_eq_ok.2 ⟨hdb, ht⟩
  exact ⟨t, ht, by rw [World.markRetry, hok]⟩

theorem markSent_ne_error {err : AppError} (hfind : w.table.find id = some row)
    (hdb : db.fails = false) : w.markSent id now db ≠ .error err := by
  obtain ⟨t, -, ht⟩ := markSent_of_find now hfind hdb
  rw [ht]
  intro heq
  cases heq

theorem markRetry_ne_error {attempts : Int32} {nextAt : Instant} {error : String} {err : AppError}
    (hfind : w.table.find id = some row) (hdb : db.fails = false) :
    w.markRetry id attempts nextAt error db ≠ .error err := by
  obtain ⟨t, -, ht⟩ := markRetry_of_find attempts nextAt error hfind hdb
  rw [ht]
  intro heq
  cases heq

end Outbox

end OaLibs
