import OaLibs.Base.MachineInt
import OaLibs.Bus.Client

/-!
# The outbox table

`outbox.rs`: business transactions write events into a table, and drainers publish them. This file
has the table and the single statements on it.

* `Model`, `Table`: a row, and the rows under their primary key; a table with two rows of one id
  cannot be built;
* `enqueue`, `fetchDue`, `markSent`, `markRetry`: one SQL statement each;
* `backoffSeconds`, `after`, `retryPlan`: when a row is tried again after a failed publish;
* `retryPlan_eq`: the retry of a row is planned unless its time would be after the last one there
  is;
* `backoffSeconds64`, `backoffRight_iff`: the same on machine words, and the counts for which it is
  the formula over unbounded integers;
* `find_insert`, `find_update`: all that a statement changes.
-/

namespace OaLibs

namespace Outbox

/-- Row ids, in the order of the column. -/
abbrev Uuid := ℕ

/-- Points in time, in microseconds since 1970, as the columns keep them; what a clock has below a
microsecond is cut off when the time is bound to a statement. -/
abbrev Instant := ℤ

/-- A duration of whole seconds. -/
def seconds (s : ℤ) : ℤ := s * 1000000

/-- The last point in time that `chrono` has, at the end of the year 262142. -/
def maxUtc : Instant := seconds 8210266876799 + 999999

/-- `now + Duration::seconds(s)`; `none` is the panic of the addition. -/
def after (now : Instant) (s : ℤ) : Option Instant :=
  if now + seconds s ≤ maxUtc then some (now + seconds s) else none

/-- A row of the table. -/
structure Model where
  id : Uuid
  eventType : String
  payload : Json
  status : String
  attempts : Int32
  availableAt : Instant
  lastError : Option String
  createdAt : Instant
  sentAt : Option Instant

/-- The table. -/
structure Table where
  rows : List Model
  nodup : (rows.map Model.id).Nodup

/-- What the database adds to a statement: whether it fails for a reason of its own, and the text
of the error if the statement fails. -/
structure Db where
  fails : Bool
  error : String

/-- A database that has no errors of its own. -/
def Db.ok : Db := ⟨false, ""⟩

/-- A statement that takes effect as a whole or not at all. -/
def execute {α : Type} (db : Db) (result : Option α) : Except AppError α :=
  if db.fails then .error (.internal db.error)
  else
    match result with
    | some a => .ok a
    | none => .error (.internal db.error)

namespace Table

/-- The table after its creation. -/
def empty : Table := ⟨[], List.nodup_nil⟩

/-- The row of an id. -/
def find (t : Table) (id : Uuid) : Option Model := t.rows.find? fun row => row.id == id

/-- `INSERT`: the id must be new, and the event type must fit its column. -/
def insert (t : Table) (row : Model) : Option Table :=
  if h : row.eventType.length ≤ 64 ∧ row.id ∉ t.rows.map Model.id then
    some ⟨t.rows ++ [row], by
      rw [List.map_append, List.nodup_append]
      refine ⟨t.nodup, List.nodup_singleton _, ?_⟩
      rintro a ha b hb rfl
      rw [List.map_singleton, List.mem_singleton] at hb
      exact h.2 (hb ▸ ha)⟩
  else none

end Table

/-- The columns that an update sets; the others keep their values. -/
structure ActiveModel where
  status : Option String := none
  attempts : Option Int32 := none
  availableAt : Option Instant := none
  lastError : Option (Option String) := none
  sentAt : Option (Option Instant) := none

/-- A row after an update. -/
def ActiveModel.apply (active : ActiveModel) (row : Model) : Model :=
  { row with
    status := active.status.getD row.status
    attempts := active.attempts.getD row.attempts
    availableAt := active.availableAt.getD row.availableAt
    lastError := active.lastError.getD row.lastError
    sentAt := active.sentAt.getD row.sentAt }

/-- `UPDATE … WHERE id = …`; an id that is not there is an error. -/
def Table.update (t : Table) (id : Uuid) (active : ActiveModel) : Option Table :=
  -- no column of an update is the id, so the ids stay as they are
  if id ∈ t.rows.map Model.id then
    some ⟨t.rows.map fun row => if row.id = id then active.apply row else row, by
      have hids : (t.rows.map fun row => if row.id = id then active.apply row else row).map
          Model.id = t.rows.map Model.id := by
        rw [List.map_map]
        apply List.map_congr_left
        intro row _
        show (if row.id = id then active.apply row else row).id = row.id
        split_ifs <;> rfl
      rw [hids]
      exact t.nodup⟩
  else none

/-! ### The statements -/

/-- The row of a new event. -/
def newRow (id : Uuid) (eventType : String) (payload : Json) (now : Instant) : Model where
  id := id
  eventType := eventType
  payload := payload
  status := "pending"
  attempts := 0
  availableAt := now
  lastError := none
  createdAt := now
  sentAt := none

@[simp] theorem newRow_id (id : Uuid) (eventType : String) (payload : Json) (now : Instant) :
    (newRow id eventType payload now).id = id := rfl

/-- Write an event into the table, under the id that was drawn for it; `jsonb` is what the column
keeps of a payload, unless it refuses the payload. -/
def enqueue (jsonb : Json → Option Json) (t : Table) (id : Uuid) (eventType : String)
    (payload : Json) (now : Instant) (db : Db) : Except AppError Table :=
  execute db ((jsonb payload).bind fun stored => t.insert (newRow id eventType stored now))

/-- A row that may be published. -/
def Due (now : Instant) (row : Model) : Prop := row.status = "pending" ∧ row.availableAt ≤ now

instance (now : Instant) (row : Model) : Decidable (Due now row) :=
  inferInstanceAs (Decidable (_ ∧ _))

/-- The rows that are due, in the order of their ids. -/
def dueRows (t : Table) (now : Instant) : List Model :=
  (t.rows.filter fun row => Due now row).mergeSort fun a b => a.id ≤ b.id

/-- Take the first rows that are due; `none` is a panic. -/
def fetchDue (t : Table) (limit : UInt64) (now : Instant) (db : Db) :
    Option (Except AppError (List Model)) :=
  -- `LIMIT` takes an `i64`, and binding a greater number to it panics
  if 2 ^ 63 ≤ limit.toNat then none
  else some (execute db (some ((dueRows t now).take limit.toNat)))

/-- The columns that `markSent` sets. -/
def sentColumns (now : Instant) : ActiveModel :=
  { status := some "sent", sentAt := some (some now), lastError := some none }

/-- Mark a row as delivered. -/
def markSent (t : Table) (id : Uuid) (now : Instant) (db : Db) : Except AppError Table :=
  execute db (t.update id (sentColumns now))

/-- The columns that `markRetry` sets. -/
def retryColumns (attempts : Int32) (nextAt : Instant) (error : String) : ActiveModel :=
  { attempts := some attempts, availableAt := some nextAt, lastError := some (some error) }

/-- Mark a failure and put the row off. -/
def markRetry (t : Table) (id : Uuid) (attempts : Int32) (nextAt : Instant) (error : String)
    (db : Db) : Except AppError Table :=
  execute db (t.update id (retryColumns attempts nextAt error))

/-! ### Backoff -/

/-- The seconds until a row is tried again; `none` is an overflow that is checked. -/
def backoffSeconds (m : MachineInt.OverflowMode) (attempts : Int32) : Option ℤ :=
  (MachineInt.sub32 m attempts 1).map fun d =>
    -- the exponent is clamped before the power is taken, so the product fits in an `i64`
    min (5 * 2 ^ (max 0 (min d.toInt 7)).toNat) 600

/-- The backoff after the `n`-th failure, over unbounded integers. -/
def backoff (n : ℕ) : ℤ := min 600 (5 * 2 ^ (n - 1))

/-- The new count of attempts of a row and the time it is put off to, after a failed publish;
`none` is a panic. -/
def retryPlan (m : MachineInt.OverflowMode) (row : Model) (now : Instant) :
    Option (Int32 × Instant) :=
  (MachineInt.add32 m row.attempts 1).bind fun attempts =>
    (backoffSeconds m attempts).bind fun s =>
      (after now s).map fun nextAt => (attempts, nextAt)

/-- The time a row is put off to after one more failure, over unbounded integers. -/
def nextTry (row : Model) (now : Instant) : Instant :=
  now + seconds (backoff (row.attempts.toInt + 1).toNat)

example : backoffSeconds .checked 3 = some 20 := by decide

theorem backoff_le (n : ℕ) : backoff n ≤ 600 := min_le_left _ _

theorem le_backoff (n : ℕ) : 5 ≤ backoff n := by
  have hpow : (1 : ℤ) ≤ 2 ^ (n - 1) := one_le_pow₀ (by norm_num)
  unfold backoff
  omega

theorem backoff_mono : Monotone backoff := by
  intro n k hle
  have hpow : (2 : ℤ) ^ (n - 1) ≤ 2 ^ (k - 1) := pow_le_pow_right₀ (by norm_num) (by omega)
  unfold backoff
  omega

/-- From 2^7 on, the bound of 600 seconds decides, so the clamped exponent does not show. -/
theorem min_two_pow_clamp (k : ℕ) : min ((5 : ℤ) * 2 ^ min k 7) 600 = min 600 (5 * 2 ^ k) := by
  by_cases h : k ≤ 7
  · rw [min_eq_left h, min_comm]
  · have hpow : (2 : ℤ) ^ 7 ≤ 2 ^ k := pow_le_pow_right₀ (by norm_num) (by omega)
    rw [min_eq_right (by omega : 7 ≤ k), min_eq_left (by omega : (600 : ℤ) ≤ 5 * 2 ^ k)]
    norm_num

/-- Counts from 0 down have the backoff of the first failure. -/
theorem backoffSeconds_of_gt (m : MachineInt.OverflowMode) {attempts : Int32}
    (h : -2 ^ 31 < attempts.toInt) :
    backoffSeconds m attempts = some (backoff attempts.toInt.toNat) := by
  have hexact : (attempts - 1).toInt = attempts.toInt - 1 := MachineInt.toInt_pred_of_gt h
  have hsub : MachineInt.sub32 m attempts 1 = some (attempts - 1) :=
    MachineInt.outcome_of_exact hexact m
  have hexp : (max 0 (min (attempts.toInt - 1) 7)).toNat = min (attempts.toInt.toNat - 1) 7 := by
    omega
  rw [backoffSeconds, hsub, Option.map_some, hexact, hexp, min_two_pow_clamp, backoff]

/-- A row of any count of attempts, but for the last one, is counted once more and put off by the
backoff of the new count, if there is such a time. -/
theorem retryPlan_eq (m : MachineInt.OverflowMode) (row : Model) (now : Instant)
    (hlt : row.attempts.toInt < 2 ^ 31 - 1) :
    retryPlan m row now =
      if nextTry row now ≤ maxUtc then some (row.attempts + 1, nextTry row now) else none := by
  have hle := row.attempts.le_toInt
  have hexact : (row.attempts + 1).toInt = row.attempts.toInt + 1 :=
    MachineInt.toInt_succ_of_lt hlt
  have hadd : MachineInt.add32 m row.attempts 1 = some (row.attempts + 1) :=
    MachineInt.outcome_of_exact hexact m
  have hs : backoffSeconds m (row.attempts + 1) =
      some (backoff (row.attempts.toInt + 1).toNat) := by
    rw [backoffSeconds_of_gt m (by omega), hexact]
  rw [retryPlan, hadd, Option.bind_some, hs, Option.bind_some, after, nextTry]
  split_ifs <;> rfl

theorem retryPlan_of_le (m : MachineInt.OverflowMode) {row : Model} {now : Instant}
    (hlt : row.attempts.toInt < 2 ^ 31 - 1) (hle : nextTry row now ≤ maxUtc) :
    retryPlan m row now = some (row.attempts + 1, nextTry row now) := by
  rw [retryPlan_eq m row now hlt, if_pos hle]

/-- Near the end of time a row cannot be put off. -/
theorem retryPlan_of_not_le (m : MachineInt.OverflowMode) {row : Model} {now : Instant}
    (hlt : row.attempts.toInt < 2 ^ 31 - 1) (hle : ¬ nextTry row now ≤ maxUtc) :
    retryPlan m row now = none := by
  rw [retryPlan_eq m row now hlt, if_neg hle]

/-- All that a plan can be: the wrapped count, and a time that is `5` to `600` seconds later. -/
theorem retryPlan_eq_some {m : MachineInt.OverflowMode} {row : Model} {now nextAt : Instant}
    {attempts : Int32} (h : retryPlan m row now = some (attempts, nextAt)) :
    attempts = row.attempts + 1 ∧
      ∃ s, backoffSeconds m attempts = some s ∧ nextAt = now + seconds s := by
  obtain ⟨a, ha, h⟩ := Option.bind_eq_some_iff.1 h
  obtain ⟨s, hs, h⟩ := Option.bind_eq_some_iff.1 h
  obtain ⟨t, ht, heq⟩ := Option.map_eq_some_iff.1 h
  obtain ⟨rfl, rfl⟩ := Prod.mk.inj heq
  refine ⟨MachineInt.outcome_eq_some ha, s, hs, ?_⟩
  unfold after at ht
  split_ifs at ht
  exact (Option.some.inj ht).symm

/-! ### Backoff on machine words -/

/-- The seconds until a row is tried again, with every operation on its machine word. -/
def backoffSeconds64 (m : MachineInt.OverflowMode) (attempts : Int32) : Option Int64 := do
  let exponent := (MachineInt.clamp (← MachineInt.sub32 m attempts 1) 0 7).toUInt32
  let power ← MachineInt.pow64 m 2 exponent
  let seconds ← MachineInt.mul64 m 5 power
  return min seconds 600

/-- The power and the product are exact for every exponent that the clamp lets through. -/
theorem power_exact (m : MachineInt.OverflowMode) (d : Int32) :
    ∃ p s : Int64, MachineInt.pow64 m 2 (MachineInt.clamp d 0 7).toUInt32 = some p ∧
      MachineInt.mul64 m 5 p = some s ∧
      s.toInt = 5 * 2 ^ (max 0 (min d.toInt 7)).toNat := by
  have hclamp : (MachineInt.clamp d 0 7).toInt = max 0 (min d.toInt 7) :=
    (MachineInt.toInt_clamp32 d 0 7).trans (MachineInt.clamp_eq (by decide) d.toInt)
  have hnat : (MachineInt.clamp d 0 7).toUInt32.toNat = (max 0 (min d.toInt 7)).toNat := by
    have hcast := MachineInt.toNat_toUInt32 (a := MachineInt.clamp d 0 7) (by omega)
    omega
  have hle : (max 0 (min d.toInt 7)).toNat ≤ 7 := by omega
  generalize (max 0 (min d.toInt 7)).toNat = e at hnat hle ⊢
  have htwo : (2 : Int64).toInt = 2 := rfl
  have hfive : (5 : Int64).toInt = 5 := rfl
  have hpos : (0 : ℤ) < 2 ^ e := by positivity
  have hpow : (2 : ℤ) ^ e ≤ 2 ^ 7 := pow_le_pow_right₀ (by norm_num) hle
  have hpower : ((2 : Int64) ^ e).toInt = (2 : Int64).toInt ^ e := by
    rw [MachineInt.toInt_pow64_eq_iff, htwo]
    omega
  have hproduct : ((5 : Int64) * 2 ^ e).toInt = (5 : Int64).toInt * ((2 : Int64) ^ e).toInt := by
    rw [MachineInt.toInt_mul64_eq_iff, hpower, htwo, hfive]
    omega
  refine ⟨2 ^ e, 5 * 2 ^ e, ?_, MachineInt.outcome_of_exact hproduct m, ?_⟩
  · rw [MachineInt.pow64, hnat]
    exact MachineInt.outcome_of_exact hpower m
  · rw [hproduct, hpower, htwo, hfive]

/-- On machine words as on integers: only the subtraction can overflow. -/
theorem backoffSeconds64_eq (m : MachineInt.OverflowMode) (attempts : Int32) :
    (backoffSeconds64 m attempts).map Int64.toInt = backoffSeconds m attempts := by
  unfold backoffSeconds64 backoffSeconds
  cases MachineInt.sub32 m attempts 1 with
  | none => rfl
  | some d =>
    obtain ⟨p, s, hp, hs, hvalue⟩ := power_exact m d
    simp only [Option.bind_eq_bind, Option.bind_some, hp, hs, Option.map_some]
    show some (min s 600).toInt = _
    rw [MachineInt.toInt_min64, hvalue]
    rfl

/-- The backoff of any count of attempts, over unbounded integers: counts from 1 down have that of
the first attempt. -/
def backoffFormula (attempts : ℤ) : ℤ :=
  if attempts ≤ 1 then 5 else min 600 (5 * 2 ^ (attempts - 1).toNat)

theorem backoffFormula_eq (attempts : ℤ) : backoffFormula attempts = backoff attempts.toNat := by
  unfold backoffFormula backoff
  split_ifs with h
  · have hzero : attempts.toNat - 1 = 0 := by omega
    rw [hzero]
    rfl
  · have hexp : (attempts - 1).toNat = attempts.toNat - 1 := by omega
    rw [hexp]

/-- What the backoff of a count should be: the formula without an overflow, between 5 and 600
seconds, and no more than the backoff of a greater count. -/
def BackoffRight (m : MachineInt.OverflowMode) (attempts : Int32) : Prop :=
  ∃ s : Int64, backoffSeconds64 m attempts = some s ∧ s.toInt = backoffFormula attempts.toInt ∧
    (5 ≤ s.toInt ∧ s.toInt ≤ 600) ∧
    ∀ later, attempts ≤ later → ∃ s' : Int64, backoffSeconds64 m later = some s' ∧ s ≤ s'

theorem backoffSeconds64_of_gt (m : MachineInt.OverflowMode) {attempts : Int32}
    (h : -2 ^ 31 < attempts.toInt) :
    ∃ s : Int64, backoffSeconds64 m attempts = some s ∧ s.toInt = backoff attempts.toInt.toNat := by
  have heq := (backoffSeconds64_eq m attempts).trans (backoffSeconds_of_gt m h)
  exact Option.map_eq_some_iff.1 heq

/-- At the least count the subtraction overflows, and without a check it gives the greatest one. -/
theorem not_backoffRight_minValue (m : MachineInt.OverflowMode) :
    ¬ BackoffRight m Int32.minValue := by
  rintro ⟨s, hs, hformula, -⟩
  cases m with
  | checked =>
    have hpanic : backoffSeconds64 .checked Int32.minValue = none := by decide
    rw [hpanic] at hs
    cases hs
  | wrapping =>
    have hlong : backoffSeconds64 .wrapping Int32.minValue = some 600 := by decide
    obtain rfl := Option.some.inj (hlong.symm.trans hs)
    exact absurd hformula (by decide)

/-- In a build with overflow checks and in one without them, the backoff is right for every count
of attempts except the least `i32`. -/
theorem backoffRight_iff (m : MachineInt.OverflowMode) (attempts : Int32) :
    BackoffRight m attempts ↔ attempts ≠ Int32.minValue := by
  have hmin : Int32.minValue.toInt = -2 ^ 31 := Int32.toInt_minValue
  constructor
  · rintro hright rfl
    exact not_backoffRight_minValue m hright
  · intro hne
    have hgt : -2 ^ 31 < attempts.toInt := by
      have hle := attempts.le_toInt
      have hne' : attempts.toInt ≠ -2 ^ 31 := fun h => hne (Int32.toInt_inj.1 (h.trans hmin.symm))
      omega
    obtain ⟨s, hs, hvalue⟩ := backoffSeconds64_of_gt m hgt
    refine ⟨s, hs, ?_, ⟨?_, ?_⟩, fun later hlater => ?_⟩
    · rw [hvalue, backoffFormula_eq]
    · rw [hvalue]
      exact le_backoff _
    · rw [hvalue]
      exact backoff_le _
    · have hle := Int32.le_iff_toInt_le.1 hlater
      obtain ⟨s', hs', hvalue'⟩ := backoffSeconds64_of_gt m (hgt.trans_le hle)
      refine ⟨s', hs', Int64.le_iff_toInt_le.2 ?_⟩
      rw [hvalue, hvalue']
      exact backoff_mono (Int.toNat_le_toNat hle)

/-- At the least `i32` a build with overflow checks panics, and one without them waits the longest
time. -/
theorem not_backoffRight :
    backoffSeconds64 .checked Int32.minValue = none ∧
      backoffSeconds64 .wrapping Int32.minValue = some 600 ∧
      ¬ ∀ m attempts, BackoffRight m attempts := by
  refine ⟨by decide, by decide, fun h => ?_⟩
  exact not_backoffRight_minValue .checked (h .checked Int32.minValue)

/-! ### What a statement changes -/

variable {t t' : Table} {row : Model} {id : Uuid} {active : ActiveModel} {now : Instant} {db : Db}

theorem execute_eq_ok {α : Type} {result : Option α} {a : α} :
    execute db result = .ok a ↔ db.fails = false ∧ result = some a := by
  unfold execute
  cases hf : db.fails with
  | true => simp
  | false => cases result <;> simp

theorem find_eq_some_iff : t.find id = some row ↔ row ∈ t.rows ∧ row.id = id := by
  constructor
  · intro h
    exact ⟨List.mem_of_find?_eq_some h, by simpa using List.find?_some h⟩
  · rintro ⟨hmem, rfl⟩
    cases hfind : t.find row.id with
    | none =>
      have := List.find?_eq_none.1 hfind row hmem
      simp at this
    | some row' =>
      have hmem' : row' ∈ t.rows := List.mem_of_find?_eq_some hfind
      have hid : row'.id = row.id := by simpa using List.find?_some hfind
      exact congrArg some (List.inj_on_of_nodup_map t.nodup hmem' hmem hid)

theorem find_eq_none_iff : t.find id = none ↔ id ∉ t.rows.map Model.id := by
  unfold Table.find
  rw [List.find?_eq_none]
  simp

@[simp] theorem find_empty : Table.empty.find id = none := rfl

theorem insert_eq_some (h : t.insert row = some t') :
    t'.rows = t.rows ++ [row] ∧ t.find row.id = none := by
  unfold Table.insert at h
  split_ifs at h with hnew
  obtain rfl := Option.some.inj h
  exact ⟨rfl, find_eq_none_iff.2 hnew.2⟩

theorem find_insert (h : t.insert row = some t') (j : Uuid) :
    t'.find j = if j = row.id then some row else t.find j := by
  obtain ⟨hrows, hnone⟩ := insert_eq_some h
  have happend : t'.find j = (t.find j).or ([row].find? fun r => r.id == j) := by
    unfold Table.find
    rw [hrows, List.find?_append]
  rw [happend]
  by_cases hj : j = row.id
  · subst hj
    simp [hnone]
  · rw [if_neg hj, List.find?_singleton, if_neg (by simpa using Ne.symm hj), Option.or_none]

/-- A row of the table after an insertion is the new one or was there before. -/
theorem find_insert_cases (h : t.insert row = some t') {j : Uuid} {row' : Model}
    (hfind : t'.find j = some row') :
    j = row.id ∧ row' = row ∨ j ≠ row.id ∧ t.find j = some row' := by
  rw [find_insert h] at hfind
  split_ifs at hfind with hj
  · exact Or.inl ⟨hj, (Option.some.inj hfind).symm⟩
  · exact Or.inr ⟨hj, hfind⟩

/-- What was in the table stays there. -/
theorem find_insert_of_find (h : t.insert row = some t') {j : Uuid} {row' : Model}
    (hfind : t.find j = some row') : t'.find j = some row' := by
  rw [find_insert h, if_neg, hfind]
  rintro rfl
  rw [(insert_eq_some h).2] at hfind
  cases hfind

@[simp] theorem apply_id : (active.apply row).id = row.id := rfl

@[simp] theorem apply_eventType : (active.apply row).eventType = row.eventType := rfl

@[simp] theorem apply_payload : (active.apply row).payload = row.payload := rfl

@[simp] theorem apply_createdAt : (active.apply row).createdAt = row.createdAt := rfl

theorem update_eq_some (h : t.update id active = some t') :
    t'.rows = (t.rows.map fun row => if row.id = id then active.apply row else row) ∧
      ∃ row, t.find id = some row := by
  unfold Table.update at h
  split_ifs at h with hmem
  obtain rfl := Option.some.inj h
  refine ⟨rfl, ?_⟩
  obtain ⟨row, hrow, hid⟩ := List.mem_map.1 hmem
  exact ⟨row, find_eq_some_iff.2 ⟨hrow, hid⟩⟩

theorem update_of_find (active : ActiveModel) (h : t.find id = some row) :
    ∃ t', t.update id active = some t' := by
  obtain ⟨hmem, rfl⟩ := find_eq_some_iff.1 h
  unfold Table.update
  exact ⟨_, if_pos (List.mem_map_of_mem hmem)⟩

theorem find_update (h : t.update id active = some t') (j : Uuid) :
    t'.find j = if j = id then (t.find j).map active.apply else t.find j := by
  obtain ⟨hrows, -⟩ := update_eq_some h
  have hmap : t'.find j =
      (t.find j).map fun row => if row.id = id then active.apply row else row := by
    unfold Table.find
    rw [hrows, List.find?_map]
    congr 2
    funext row
    show ((if row.id = id then active.apply row else row).id == j) = (row.id == j)
    split_ifs <;> rfl
  rw [hmap]
  cases hfind : t.find j with
  | none => simp
  | some row =>
    obtain ⟨-, rfl⟩ := find_eq_some_iff.1 hfind
    by_cases hj : row.id = id
    · simp [hj]
    · simp [hj]

/-- A row of the table after an update is the updated one or was there before. -/
theorem find_update_cases (h : t.update id active = some t') (hrow : t.find id = some row)
    {j : Uuid} {row' : Model} (hfind : t'.find j = some row') :
    j = id ∧ row' = active.apply row ∨ j ≠ id ∧ t.find j = some row' := by
  rw [find_update h] at hfind
  split_ifs at hfind with hj
  · rw [hj, hrow] at hfind
    exact Or.inl ⟨hj, (Option.some.inj hfind).symm⟩
  · exact Or.inr ⟨hj, hfind⟩

theorem find_update_of_find (h : t.update id active = some t') {j : Uuid}
    (hfind : t.find j = some row) : ∃ row', t'.find j = some row' := by
  rw [find_update h, hfind]
  split_ifs
  · exact ⟨active.apply row, rfl⟩
  · exact ⟨row, rfl⟩

/-- How an update changes the number of rows of a kind. -/
theorem countP_update (P : Model → Bool) (hfind : t.find id = some row)
    (h : t.update id active = some t') :
    t'.rows.countP P + (if P row then 1 else 0) =
      t.rows.countP P + (if P (active.apply row) then 1 else 0) := by
  obtain ⟨hmem, rfl⟩ := find_eq_some_iff.1 hfind
  obtain ⟨hrows, -⟩ := update_eq_some h
  obtain ⟨l₁, l₂, hsplit⟩ := List.append_of_mem hmem
  have hnodup := t.nodup
  rw [hsplit, List.map_append, List.map_cons, List.nodup_middle, List.nodup_cons,
    List.mem_append] at hnodup
  obtain ⟨hnot, -⟩ := hnodup
  -- The rows around the updated one have other ids and stay as they are.
  have hother : ∀ l : List Model, row.id ∉ l.map Model.id →
      (l.map fun r => if r.id = row.id then active.apply r else r) = l := by
    intro l hl
    refine (List.map_congr_left fun r hr => if_neg fun heq => hl ?_).trans (List.map_id l)
    exact List.mem_map.2 ⟨r, hr, heq⟩
  rw [hrows, hsplit, List.map_append, List.map_cons, if_pos rfl,
    hother l₁ fun hl => hnot (Or.inl hl), hother l₂ fun hl => hnot (Or.inr hl), List.countP_append,
    List.countP_append, List.countP_cons, List.countP_cons]
  omega

variable {limit : UInt64} {rows : List Model}

theorem mem_dueRows : row ∈ dueRows t now ↔ row ∈ t.rows ∧ Due now row := by
  rw [dueRows, List.mem_mergeSort, List.mem_filter, decide_eq_true_eq]

theorem length_dueRows (t : Table) (now : Instant) :
    (dueRows t now).length = t.rows.countP fun row => Due now row := by
  rw [dueRows, List.length_mergeSort, List.countP_eq_length_filter]

/-- The due rows have different ids. -/
theorem ascending_dueRows (t : Table) (now : Instant) :
    (dueRows t now).Pairwise fun a b => a.id < b.id := by
  have hperm := List.mergeSort_perm (t.rows.filter fun row => Due now row)
    fun a b => decide (a.id ≤ b.id)
  have hsorted : (dueRows t now).Pairwise fun a b => a.id ≤ b.id := by
    refine (List.pairwise_mergeSort ?_ ?_ _).imp fun hle => by simpa using hle
    · intro a b c hab hbc
      simp only [decide_eq_true_eq] at hab hbc ⊢
      exact hab.trans hbc
    · intro a b
      simpa using le_total a.id b.id
  have hne : (dueRows t now).Pairwise fun a b => a.id ≠ b.id :=
    List.pairwise_map.1 ((hperm.map Model.id).nodup_iff.2
      (t.nodup.sublist (List.filter_sublist.map _)))
  exact (hsorted.and hne).imp fun hand => lt_of_le_of_ne hand.1 hand.2

/-- A fetch with a limit that can be bound returns the first due rows, if the database answers. -/
theorem fetchDue_eq_ok : fetchDue t limit now db = some (.ok rows) ↔
    limit.toNat < 2 ^ 63 ∧ db.fails = false ∧ rows = (dueRows t now).take limit.toNat := by
  unfold fetchDue
  split_ifs with hlimit
  · exact iff_of_false (fun h => by cases h) fun hand => absurd hand.1 (not_lt.2 hlimit)
  · rw [Option.some.injEq, execute_eq_ok, Option.some.injEq, eq_comm (b := rows)]
    exact (and_iff_right (not_le.1 hlimit)).symm

/-- The rows that a fetch returns are rows of the table that are due, each once. -/
theorem fetchDue_spec (h : fetchDue t limit now db = some (.ok rows)) :
    (∀ row ∈ rows, t.find row.id = some row ∧ Due now row) ∧ (rows.map Model.id).Nodup := by
  obtain ⟨-, -, rfl⟩ := fetchDue_eq_ok.1 h
  constructor
  · intro row hrow
    obtain ⟨hmem, hdue⟩ := mem_dueRows.1 (List.mem_of_mem_take hrow)
    exact ⟨find_eq_some_iff.2 ⟨hmem, rfl⟩, hdue⟩
  · refine List.pairwise_map.2 (((ascending_dueRows t now).sublist (List.take_sublist _ _)).imp ?_)
    exact fun hlt => ne_of_lt hlt

end Outbox

end OaLibs
