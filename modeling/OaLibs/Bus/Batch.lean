import OaLibs.Bus.Drain

/-!
# What one drain does to its batch

A `drainOnce` that runs alone takes the due rows with the smallest ids, in their order, up to the
first update that fails.

* `IsBatch`: the rows of a batch;
* `Settled`: what a row is after it was published and marked;
* `reached`, `Deferrable`: the rows a drain comes to, and those it can put off;
* `DrainsBatch`: the rows before a cut are settled, the others are as before;
* `drainLoop_spec`: the loop, as long as neither the count of sent rows nor a time overflows;
* `drainsBatch_iff`: these two and the limit are all that can go wrong.
-/

namespace OaLibs

namespace Outbox

/-- The due rows of the smallest ids, at most `limit` of them, in ascending order. -/
structure IsBatch (t : Table) (limit : ℕ) (now : Instant) (rows : List Model) : Prop where
  ascending : rows.Pairwise fun a b => a.id < b.id
  due : ∀ row ∈ rows, row ∈ t.rows ∧ Due now row
  length_eq : rows.length = min limit (t.rows.countP fun row => Due now row)
  smallest : ∀ row ∈ t.rows, Due now row → row ∉ rows → ∀ r ∈ rows, r.id < row.id

section

variable (m : MachineInt.OverflowMode) (serde : SerdeJson) (now : Instant) (answers : Answers)

/-- The publish of a row. -/
def publication (row : Model) : Publication :=
  let (result, entry) := Bus.publish serde row.eventType row.payload (answers.reply row.id)
  ⟨row.id, now, result, entry⟩

/-- A row after its update: sent, or put off by the backoff of its new count of attempts. -/
def Settled (row row' : Model) : Prop :=
  match (publication serde now answers row).result with
  | .ok _ => row' = { row with status := "sent", sentAt := some now, lastError := none }
  | .error err =>
      ∃ attempts s, attempts.toInt = row.attempts.toInt + 1 ∧ backoffSeconds m attempts = some s ∧
        row' = { row with
          attempts := attempts
          lastError := some err.display
          availableAt := now + seconds s }

/-- The rows that a drain comes to: those up to the first update that fails. -/
def reached : List Model → List Model
  | [] => []
  | row :: rows => row :: if (answers.update row.id).fails then [] else reached rows

/-- A row can be put off: one more attempt can be counted, and the time of the next one exists. -/
def Deferrable (row : Model) : Prop :=
  row.attempts.toInt < 2 ^ 31 - 1 ∧ nextTry row now ≤ maxUtc

/-- Each row that a drain comes to can be put off, should its publish be refused. -/
def Defers (rows : List Model) : Prop :=
  ∀ row ∈ reached answers rows, (publication serde now answers row).succeeded = false →
    Deferrable now row

/-- The rows that are published and marked as sent before the first update that fails. -/
def successes (rows : List Model) : ℕ :=
  (rows.takeWhile fun row => !(answers.update row.id).fails).countP fun row =>
    (publication serde now answers row).succeeded

/-- The rows in `rows` have been published, and those in `done` have been settled. -/
structure Drained (rows done : List Model) (w w' : World) : Prop where
  published : w'.log = w.log ++ rows.map (publication serde now answers)
  settled : ∀ row ∈ done, ∃ row', w'.table.find row.id = some row' ∧
    Settled m serde now answers row row'
  others : ∀ id, id ∉ done.map Model.id → w'.table.find id = w.table.find id

/-- A drain settles its batch, or its rows before the first update that fails; that row is still
published, and it ends the drain. -/
def DrainsBatch (limit : UInt64) (w : World) : Prop :=
  ∃ done rest, IsBatch w.table limit.toNat now (done ++ rest) ∧
    (∀ row ∈ done, (answers.update row.id).fails = false) ∧
    Drained m serde now answers (done ++ rest.take 1) done w
      (drainOnce m serde now answers limit w).2 ∧
    (rest = [] → ∃ sent, (drainOnce m serde now answers limit w).1 = .ok sent ∧
      sent.toNat = done.countP fun row => (publication serde now answers row).succeeded) ∧
    ∀ row later, rest = row :: later → (answers.update row.id).fails = true ∧
      ∃ err, (drainOnce m serde now answers limit w).1 = .err err

end

/-! ### The batch -/

variable {m : MachineInt.OverflowMode} {serde : SerdeJson} {now : Instant} {answers : Answers}
  {w w' : World} {row : Model} {rows : List Model} {sent : UInt32} {limit : UInt64}

/-- The first due rows are a batch. -/
theorem isBatch_take (t : Table) (n : ℕ) (now : Instant) :
    IsBatch t n now ((dueRows t now).take n) := by
  have hstrict := ascending_dueRows t now
  refine ⟨hstrict.sublist (List.take_sublist _ _), fun row hrow => ?_, ?_, ?_⟩
  · exact mem_dueRows.1 (List.mem_of_mem_take hrow)
  · rw [List.length_take, length_dueRows]
  · intro row hrow hd hnot r hr
    have hmem : row ∈ dueRows t now := mem_dueRows.2 ⟨hrow, hd⟩
    rw [← List.take_append_drop n (dueRows t now)] at hmem hstrict
    rcases List.mem_append.1 hmem with hmem | hmem
    · exact absurd hmem hnot
    · exact (List.pairwise_append.1 hstrict).2.2 r hr row hmem

/-- What a fetch answers is a batch. -/
theorem isBatch_of_fetchDue {t : Table} {db : Db} (h : fetchDue t limit now db = some (.ok rows)) :
    IsBatch t limit.toNat now rows := by
  obtain ⟨-, -, rfl⟩ := fetchDue_eq_ok.1 h
  exact isBatch_take t limit.toNat now

/-! ### One row -/

/-- A publish that did not succeed has an error. -/
theorem publication_refused (h : (publication serde now answers row).succeeded = false) :
    ∃ err entry, Bus.publish serde row.eventType row.payload (answers.reply row.id) =
        (.error err, entry) ∧
      publication serde now answers row = ⟨row.id, now, .error err, entry⟩ := by
  cases hpub : Bus.publish serde row.eventType row.payload (answers.reply row.id) with
  | mk result entry =>
    have hp : publication serde now answers row = ⟨row.id, now, result, entry⟩ := by
      rw [publication, hpub]
    cases result with
    | ok rid =>
      rw [hp] at h
      cases h
    | error err => exact ⟨err, entry, rfl, hp⟩

/-- A publish that succeeded has an id. -/
theorem publication_sent (h : (publication serde now answers row).succeeded = true) :
    ∃ rid entry, Bus.publish serde row.eventType row.payload (answers.reply row.id) =
        (.ok rid, entry) ∧
      publication serde now answers row = ⟨row.id, now, .ok rid, entry⟩ := by
  cases hpub : Bus.publish serde row.eventType row.payload (answers.reply row.id) with
  | mk result entry =>
    have hp : publication serde now answers row = ⟨row.id, now, result, entry⟩ := by
      rw [publication, hpub]
    cases result with
    | ok rid => exact ⟨rid, entry, rfl, hp⟩
    | error err =>
      rw [hp] at h
      cases h

variable (m serde now sent w) in
/-- A row whose update fails is published, and the drain ends. -/
theorem drainRow_of_fails
    (hdefer : (publication serde now answers row).succeeded = false → Deferrable now row)
    (hdb : (answers.update row.id).fails = true) :
    ∃ err, drainRow m serde now answers row sent w =
      (.error (.err err), w.logged (publication serde now answers row)) := by
  cases hsucc : (publication serde now answers row).succeeded with
  | true =>
    obtain ⟨rid, entry, hpub, hp⟩ := publication_sent hsucc
    rw [hp]
    simp only [drainRow, World.publish, hpub, World.markSent, markSent, execute, hdb, if_true]
    exact ⟨_, rfl⟩
  | false =>
    obtain ⟨err, entry, hpub, hp⟩ := publication_refused hsucc
    have hplan := retryPlan_of_le m (hdefer hsucc).1 (hdefer hsucc).2
    rw [hp]
    simp only [drainRow, World.publish, hpub, hplan, World.markRetry, markRetry, execute, hdb,
      if_true]
    exact ⟨_, rfl⟩

variable (m serde sent w) in
/-- A row that is refused and cannot be put off is published all the same, and the drain panics. -/
theorem drainRow_of_overflow (hlt : row.attempts.toInt < 2 ^ 31 - 1)
    (hsucc : (publication serde now answers row).succeeded = false)
    (htime : ¬ nextTry row now ≤ maxUtc) :
    drainRow m serde now answers row sent w =
      (.error .panic, w.logged (publication serde now answers row)) := by
  obtain ⟨err, entry, hpub, hp⟩ := publication_refused hsucc
  rw [hp]
  simp only [drainRow, World.publish, hpub, retryPlan_of_not_le m hlt htime]

/-- The result of a row whose update takes effect: one more row sent, or none. -/
def counted (m : MachineInt.OverflowMode) (succeeded : Bool) (sent : UInt32) :
    Except Outcome UInt32 :=
  if succeeded then
    match MachineInt.addU32 m sent 1 with
    | none => .error .panic
    | some sent => .ok sent
  else .ok sent

/-- One update after the publish of its row. -/
theorem drained_singleton {active : ActiveModel} {u : Update} {t : Table}
    (hfind : w.table.find row.id = some row) (hupd : w.table.update row.id active = some t)
    (hsettled : Settled m serde now answers row (active.apply row)) :
    Drained m serde now answers [row] [row] w
      ((w.logged (publication serde now answers row)).updated t u) := by
  refine ⟨rfl, fun r hr => ?_, fun id hid => ?_⟩
  · obtain rfl := List.mem_singleton.1 hr
    refine ⟨active.apply r, (find_update hupd r.id).trans ?_, hsettled⟩
    rw [if_pos rfl, hfind, Option.map_some]
  · have hne : id ≠ row.id := by simpa using hid
    exact (find_update hupd id).trans (if_neg hne)

variable (m serde now sent) in
/-- A row whose update takes effect: its publish, and the update that belongs to the result. -/
theorem drainRow_update (hfind : w.table.find row.id = some row)
    (hdefer : (publication serde now answers row).succeeded = false → Deferrable now row)
    (hdb : (answers.update row.id).fails = false) :
    ∃ active u t, w.table.update row.id active = some t ∧
      drainRow m serde now answers row sent w =
        (counted m (publication serde now answers row).succeeded sent,
          (w.logged (publication serde now answers row)).updated t u) ∧
      match (publication serde now answers row).result with
      | .ok _ => active = sentColumns now
      | .error err => active = retryColumns (row.attempts + 1) (nextTry row now) err.display := by
  have hlogged : (w.logged (publication serde now answers row)).table.find row.id = some row :=
    hfind
  cases hsucc : (publication serde now answers row).succeeded with
  | true =>
    obtain ⟨rid, entry, hpub, hp⟩ := publication_sent hsucc
    obtain ⟨t, ht, hw₁⟩ := markSent_of_find now hlogged hdb
    refine ⟨sentColumns now, .sent row.id, t, ht, ?_, by rw [hp]⟩
    rw [hp] at hw₁ ⊢
    simp only [drainRow, World.publish, hpub, hw₁, counted, if_true]
    cases MachineInt.addU32 m sent 1 <;> rfl
  | false =>
    obtain ⟨err, entry, hpub, hp⟩ := publication_refused hsucc
    have hplan := retryPlan_of_le m (hdefer hsucc).1 (hdefer hsucc).2
    obtain ⟨t, ht, hw₁⟩ :=
      markRetry_of_find (row.attempts + 1) (nextTry row now) err.display hlogged hdb
    refine ⟨_, .retry row.id, t, ht, ?_, by rw [hp]⟩
    rw [hp] at hw₁ ⊢
    simp only [drainRow, World.publish, hpub, hplan, hw₁, counted]
    rfl

variable (m serde now sent) in
/-- A row whose update takes effect is settled, and nothing else changes. -/
theorem drainRow_of_find (hfind : w.table.find row.id = some row)
    (hdefer : (publication serde now answers row).succeeded = false → Deferrable now row)
    (hdb : (answers.update row.id).fails = false) :
    ∃ w', drainRow m serde now answers row sent w =
        (counted m (publication serde now answers row).succeeded sent, w') ∧
      Drained m serde now answers [row] [row] w w' := by
  obtain ⟨active, u, t, hupd, hrow, hactive⟩ := drainRow_update m serde now sent hfind hdefer hdb
  refine ⟨_, hrow, drained_singleton hfind hupd ?_⟩
  unfold Settled
  cases hsucc : (publication serde now answers row).succeeded with
  | true =>
    obtain ⟨rid, entry, -, hp⟩ := publication_sent hsucc
    rw [hp] at hactive ⊢
    rw [hactive]
    rfl
  | false =>
    obtain ⟨err, entry, -, hp⟩ := publication_refused hsucc
    obtain ⟨hlt, htime⟩ := hdefer hsucc
    obtain ⟨-, s, hs, hnext⟩ := retryPlan_eq_some (retryPlan_of_le m hlt htime)
    rw [hp] at hactive ⊢
    refine ⟨row.attempts + 1, s, MachineInt.toInt_succ_of_lt hlt, hs, ?_⟩
    rw [hactive, hnext]
    rfl

/-! ### The loop -/

theorem Drained.refl (w : World) : Drained m serde now answers [] [] w w :=
  ⟨(List.append_nil _).symm, fun _ h => absurd h List.not_mem_nil, fun _ _ => rfl⟩

/-- A row and then the rest of the batch, which does not hold it again. -/
theorem Drained.cons {done : List Model} {w₁ : World}
    (h : Drained m serde now answers [row] [row] w w₁)
    (h' : Drained m serde now answers rows done w₁ w') (hnot : row.id ∉ done.map Model.id) :
    Drained m serde now answers (row :: rows) (row :: done) w w' := by
  refine ⟨?_, fun r hr => ?_, fun id hid => ?_⟩
  · rw [h'.published, h.published]
    simp
  · rcases List.mem_cons.1 hr with rfl | hr
    · rw [h'.others r.id hnot]
      exact h.settled r (List.mem_singleton_self r)
    · exact h'.settled r hr
  · rw [List.map_cons, List.mem_cons, not_or] at hid
    rw [h'.others id hid.2]
    exact h.others id (by simpa using hid.1)

/-- What the loop relies on: its rows are in the table as they were fetched. -/
structure Fetched (w : World) (rows : List Model) : Prop where
  find : ∀ row ∈ rows, w.table.find row.id = some row
  nodup : (rows.map Model.id).Nodup

theorem Fetched.tail {w₁ : World} (h : Fetched w (row :: rows))
    (hrow : Drained m serde now answers [row] [row] w w₁) : Fetched w₁ rows := by
  have hnodup := h.nodup
  rw [List.map_cons, List.nodup_cons] at hnodup
  refine ⟨fun r hr => ?_, hnodup.2⟩
  rw [hrow.others r.id]
  · exact h.find r (List.mem_cons_of_mem _ hr)
  · intro hmem
    obtain heq : r.id = row.id := by simpa using hmem
    exact hnodup.1 (heq ▸ List.mem_map_of_mem hr)

theorem reached_of_fails (hdb : (answers.update row.id).fails = true) (rows : List Model) :
    reached answers (row :: rows) = [row] := by
  rw [reached, if_pos hdb]

theorem reached_cons (hdb : (answers.update row.id).fails = false) (rows : List Model) :
    reached answers (row :: rows) = row :: reached answers rows := by
  rw [reached, if_neg (by simp [hdb])]

theorem reached_subset (answers : Answers) (rows : List Model) : reached answers rows ⊆ rows := by
  induction rows with
  | nil => exact List.Subset.refl _
  | cons row rows ih =>
    rw [reached]
    split_ifs
    · simp
    · exact List.cons_subset_cons row ih

theorem Defers.head (h : Defers serde now answers (row :: rows)) :
    (publication serde now answers row).succeeded = false → Deferrable now row :=
  h row (by rw [reached]; exact List.mem_cons_self)

theorem Defers.tail (h : Defers serde now answers (row :: rows))
    (hdb : (answers.update row.id).fails = false) : Defers serde now answers rows := by
  intro r hr
  exact h r (by rw [reached_cons hdb]; exact List.mem_cons_of_mem _ hr)

theorem successes_of_fails (hdb : (answers.update row.id).fails = true) (rows : List Model) :
    successes serde now answers (row :: rows) = 0 := by
  simp [successes, hdb]

theorem successes_cons (hdb : (answers.update row.id).fails = false) (rows : List Model) :
    successes serde now answers (row :: rows) = successes serde now answers rows +
      if (publication serde now answers row).succeeded then 1 else 0 := by
  simp [successes, hdb, List.countP_cons]

/-- The new count, if it fits. -/
theorem counted_of_lt (m : MachineInt.OverflowMode) {succeeded : Bool}
    (h : sent.toNat + (if succeeded then 1 else 0) < 2 ^ 32) :
    ∃ sent', counted m succeeded sent = .ok sent' ∧
      sent'.toNat = sent.toNat + if succeeded then 1 else 0 := by
  cases succeeded with
  | false => exact ⟨sent, rfl, rfl⟩
  | true =>
    rw [if_pos rfl] at h ⊢
    have hexact : ((sent + 1).toNat : ℤ) = sent.toNat + (1 : UInt32).toNat :=
      (MachineInt.toNat_addU32_eq_iff sent 1).2 h
    have hsum : MachineInt.addU32 m sent 1 = some (sent + 1) := MachineInt.addU32_of_lt h m
    refine ⟨sent + 1, ?_, by exact_mod_cast hexact⟩
    simp only [counted, hsum, if_true]

/-- A build without overflow checks always goes on counting. -/
theorem counted_wrapping (succeeded : Bool) (sent : UInt32) :
    ∃ sent', counted .wrapping succeeded sent = .ok sent' := by
  cases succeeded with
  | false => exact ⟨sent, rfl⟩
  | true => exact ⟨sent + 1, rfl⟩

/-- A build with overflow checks panics when the count does not fit. -/
theorem counted_checked (h : ¬ sent.toNat + 1 < 2 ^ 32) :
    counted .checked true sent = .error .panic := by
  have hsum : MachineInt.addU32 .checked sent 1 = none :=
    MachineInt.outcome_checked_of_ne fun heq => h ((MachineInt.toNat_addU32_eq_iff sent 1).1 heq)
  simp only [counted, hsum, if_true]

variable (m) in
/-- The loop settles its rows up to the first update that fails, as long as the count fits and the
rows it comes to can be put off. -/
theorem drainLoop_spec (hrows : Fetched w rows) (hdefers : Defers serde now answers rows)
    (hfit : sent.toNat + successes serde now answers rows < 2 ^ 32) :
    ∃ done rest, rows = done ++ rest ∧ (∀ row ∈ done, (answers.update row.id).fails = false) ∧
      Drained m serde now answers (done ++ rest.take 1) done w
        (drainLoop m serde now answers rows sent w).2 ∧
      (rest = [] → ∃ sent', (drainLoop m serde now answers rows sent w).1 = .ok sent' ∧
        sent'.toNat = sent.toNat +
          done.countP fun row => (publication serde now answers row).succeeded) ∧
      ∀ row later, rest = row :: later → (answers.update row.id).fails = true ∧
        ∃ err, (drainLoop m serde now answers rows sent w).1 = .err err := by
  induction rows generalizing sent w with
  | nil =>
    refine ⟨[], [], rfl, by simp, Drained.refl w, fun _ => ⟨sent, rfl, rfl⟩, ?_⟩
    rintro row later ⟨⟩
  | cons row rows ih =>
    cases hdb : (answers.update row.id).fails with
    -- The row is published, and its update ends the drain.
    | true =>
      obtain ⟨err, hrow⟩ := drainRow_of_fails m serde now w sent hdefers.head hdb
      refine ⟨[], row :: rows, rfl, by simp, ?_, ?_, ?_⟩
      · rw [drainLoop, hrow]
        exact ⟨rfl, fun _ h => absurd h List.not_mem_nil, fun _ _ => rfl⟩
      · rintro ⟨⟩
      · rintro r later ⟨rfl, rfl⟩
        exact ⟨hdb, err, by rw [drainLoop, hrow]⟩
    | false =>
      obtain ⟨w₁, hrow, hdrained⟩ :=
        drainRow_of_find m serde now sent (hrows.find row List.mem_cons_self) hdefers.head hdb
      rw [successes_cons hdb] at hfit
      have hfit₁ : sent.toNat +
          (if (publication serde now answers row).succeeded then 1 else 0) < 2 ^ 32 := by omega
      obtain ⟨sent₁, hcounted, hsent₁⟩ := counted_of_lt m hfit₁
      have hfit₂ : sent₁.toNat + successes serde now answers rows < 2 ^ 32 := by omega
      obtain ⟨done, rest, rfl, hdone, hrest, hok, herr⟩ :=
        ih (hrows.tail hdrained) (hdefers.tail hdb) hfit₂
      have hnot : row.id ∉ done.map Model.id := by
        have hnodup := hrows.nodup
        rw [List.map_cons, List.nodup_cons, List.map_append, List.mem_append, not_or] at hnodup
        exact hnodup.1.1
      rw [drainLoop, hrow, hcounted]
      refine ⟨row :: done, rest, rfl, ?_, hdrained.cons hrest hnot, fun hnil => ?_, herr⟩
      · intro r hr
        rcases List.mem_cons.1 hr with rfl | hr
        · exact hdb
        · exact hdone r hr
      · obtain ⟨sent', hsent', hcount⟩ := hok hnil
        refine ⟨sent', hsent', ?_⟩
        rw [hcount, hsent₁, List.countP_cons]
        omega

/-- A build with overflow checks panics at the row with which the count no longer fits. -/
theorem drainLoop_checked (hrows : Fetched w rows) (hdefers : Defers serde now answers rows)
    (hfull : 2 ^ 32 ≤ sent.toNat + successes serde now answers rows) :
    (drainLoop .checked serde now answers rows sent w).1 = .panic := by
  induction rows generalizing sent w with
  | nil =>
    have hlt := sent.toNat_lt
    have hzero : successes serde now answers [] = 0 := rfl
    omega
  | cons row rows ih =>
    cases hdb : (answers.update row.id).fails with
    | true =>
      have hsent := sent.toNat_lt
      rw [successes_of_fails hdb] at hfull
      omega
    | false =>
      obtain ⟨w₁, hrow, hdrained⟩ :=
        drainRow_of_find .checked serde now sent (hrows.find row List.mem_cons_self) hdefers.head
          hdb
      rw [successes_cons hdb] at hfull
      rw [drainLoop, hrow]
      by_cases hfit : sent.toNat +
          (if (publication serde now answers row).succeeded then 1 else 0) < 2 ^ 32
      · obtain ⟨sent₁, hcounted, hsent₁⟩ := counted_of_lt .checked hfit
        rw [hcounted]
        exact ih (hrows.tail hdrained) (hdefers.tail hdb) (by omega)
      -- The count is full, and the row was sent: adding one to it panics.
      · cases hsucc : (publication serde now answers row).succeeded with
        | false =>
          have hsent := sent.toNat_lt
          rw [hsucc] at hfit
          exact absurd hsent hfit
        | true =>
          rw [hsucc] at hfit
          rw [counted_checked hfit]

/-- A build without overflow checks panics at the first refused row that cannot be put off. -/
theorem drainLoop_wrapping (hrows : Fetched w rows)
    (hattempts : ∀ row ∈ rows, row.attempts.toInt < 2 ^ 31 - 1)
    (hstuck : ¬ Defers serde now answers rows) :
    (drainLoop .wrapping serde now answers rows sent w).1 = .panic := by
  induction rows generalizing sent w with
  | nil => exact absurd (fun row hrow => absurd hrow List.not_mem_nil) hstuck
  | cons row rows ih =>
    have hlt := hattempts row List.mem_cons_self
    by_cases hdefer : (publication serde now answers row).succeeded = false → Deferrable now row
    · -- The row itself is settled, so a later one cannot be put off.
      have hdb : (answers.update row.id).fails = false := by
        by_contra hfails
        refine hstuck fun r hr => ?_
        rw [reached_of_fails (by simpa using hfails), List.mem_singleton] at hr
        exact hr ▸ hdefer
      obtain ⟨w₁, hrow, hdrained⟩ := drainRow_of_find .wrapping serde now sent
        (hrows.find row List.mem_cons_self) hdefer hdb
      obtain ⟨sent₁, hcounted⟩ :=
        counted_wrapping (publication serde now answers row).succeeded sent
      rw [drainLoop, hrow, hcounted]
      refine ih (hrows.tail hdrained) (fun r hr => hattempts r (List.mem_cons_of_mem _ hr)) ?_
      intro hlater
      refine hstuck fun r hr => ?_
      rw [reached_cons hdb, List.mem_cons] at hr
      rcases hr with rfl | hr
      · exact hdefer
      · exact hlater r hr
    · obtain ⟨hsucc, hnot⟩ := Classical.not_imp.1 hdefer
      have htime : ¬ nextTry row now ≤ maxUtc := fun hle => hnot ⟨hlt, hle⟩
      rw [drainLoop, drainRow_of_overflow .wrapping serde w sent hlt hsucc htime]

/-! ### The whole drain -/

theorem fetched_of_fetchDue {db : Db} (h : fetchDue w.table limit now db = some (.ok rows)) :
    Fetched w rows := by
  obtain ⟨hrows, hnodup⟩ := fetchDue_spec h
  exact ⟨fun row hrow => (hrows row hrow).1, hnodup⟩

theorem drainOnce_of_fetchDue (m : MachineInt.OverflowMode) (serde : SerdeJson)
    (h : fetchDue w.table limit now answers.fetch = some (.ok rows)) :
    drainOnce m serde now answers limit w = drainLoop m serde now answers rows 0 w := by
  rw [drainOnce, h]

/-- A panic is neither of the two outcomes that a drain may have. -/
theorem not_drainsBatch_of_panic (h : (drainOnce m serde now answers limit w).1 = .panic) :
    ¬ DrainsBatch m serde now answers limit w := by
  rintro ⟨done, rest, -, -, -, hok, herr⟩
  cases rest with
  | nil =>
    obtain ⟨sent, hsent, -⟩ := hok rfl
    rw [h] at hsent
    cases hsent
  | cons row later =>
    obtain ⟨-, err, herr⟩ := herr row later rfl
    rw [h] at herr
    cases herr

/-- **A drain that runs alone settles its batch up to the first update that fails, with and without
overflow checks, if and only if its limit fits in an `i64`, its count of sent rows fits in a `u32`,
and each row it comes to whose publish is refused has a time to be put off to.** -/
theorem drainsBatch_iff (serde : SerdeJson) (now : Instant) (reply : Uuid → Bus.Reply)
    (update : Uuid → Db) (limit : UInt64) (w : World)
    (hattempts : ∀ row ∈ w.table.rows, row.attempts.toInt < 2 ^ 31 - 1) :
    (∀ m, DrainsBatch m serde now ⟨.ok, reply, update⟩ limit w) ↔
      limit.toNat < 2 ^ 63 ∧
      successes serde now ⟨.ok, reply, update⟩ ((dueRows w.table now).take limit.toNat) < 2 ^ 32 ∧
      ∀ row ∈ reached ⟨.ok, reply, update⟩ ((dueRows w.table now).take limit.toNat),
        (publication serde now ⟨.ok, reply, update⟩ row).succeeded = false →
          nextTry row now ≤ maxUtc := by
  have hzero : (0 : UInt32).toNat = 0 := rfl
  have hbound : ∀ row ∈ (dueRows w.table now).take limit.toNat,
      row.attempts.toInt < 2 ^ 31 - 1 := fun row hrow =>
    hattempts row (mem_dueRows.1 (List.mem_of_mem_take hrow)).1
  have hfetch : limit.toNat < 2 ^ 63 →
      fetchDue w.table limit now .ok = some (.ok ((dueRows w.table now).take limit.toNat)) :=
    fun hlimit => fetchDue_eq_ok.2 ⟨hlimit, rfl, rfl⟩
  constructor
  · intro h
    have hlimit : limit.toNat < 2 ^ 63 := by
      by_contra hlarge
      refine not_drainsBatch_of_panic ?_ (h .checked)
      have hnone : fetchDue w.table limit now .ok = none := if_pos (not_lt.1 hlarge)
      rw [drainOnce, hnone]
    have hfetched := fetched_of_fetchDue (hfetch hlimit)
    have hdefers : Defers serde now ⟨.ok, reply, update⟩
        ((dueRows w.table now).take limit.toNat) := by
      by_contra hstuck
      refine not_drainsBatch_of_panic ?_ (h .wrapping)
      rw [drainOnce_of_fetchDue .wrapping serde (hfetch hlimit)]
      exact drainLoop_wrapping hfetched hbound hstuck
    refine ⟨hlimit, ?_, fun row hrow hsucc => (hdefers row hrow hsucc).2⟩
    by_contra hfull
    refine not_drainsBatch_of_panic ?_ (h .checked)
    rw [drainOnce_of_fetchDue .checked serde (hfetch hlimit)]
    exact drainLoop_checked hfetched hdefers (by omega)
  · rintro ⟨hlimit, hfit, htime⟩ m
    have hdefers : Defers serde now ⟨.ok, reply, update⟩
        ((dueRows w.table now).take limit.toNat) := fun row hrow hsucc =>
      ⟨hbound row (reached_subset _ _ hrow), htime row hrow hsucc⟩
    obtain ⟨done, rest, hsplit, hdone, hdrained, hok, herr⟩ :=
      drainLoop_spec m (fetched_of_fetchDue (hfetch hlimit)) hdefers
        (show (0 : UInt32).toNat + _ < 2 ^ 32 by omega)
    unfold DrainsBatch
    rw [drainOnce_of_fetchDue m serde (hfetch hlimit)]
    refine ⟨done, rest, hsplit ▸ isBatch_of_fetchDue (hfetch hlimit), hdone, hdrained,
      fun hnil => ?_, herr⟩
    obtain ⟨sent, hsent, hcount⟩ := hok hnil
    exact ⟨sent, hsent, by omega⟩

/-- `n` pending rows. -/
def pendingTable (n : ℕ) : Table where
  rows := (List.range n).map fun i => newRow i "task.assigned" Bus.sampleEvent 0
  nodup := by
    rw [List.map_map]
    exact (List.nodup_range).map fun i j h => h

/-- Nothing fails. -/
def smooth : Answers := ⟨.ok, fun _ => .ok "1-0", fun _ => .ok⟩

/-- A bus that refuses everything. -/
def refusing : Answers := ⟨.ok, fun _ => .err "connection refused" false, fun _ => .ok⟩

theorem drainsBatch_iff_twoRows :
    DrainsBatch .checked Bus.sampleSerde 0 refusing 10 ⟨pendingTable 2, [], []⟩ := by
  refine (drainsBatch_iff Bus.sampleSerde 0 refusing.reply refusing.update 10
    ⟨pendingTable 2, [], []⟩ (by decide)).2 ⟨by decide, ?_, fun row hrow _ => ?_⟩ .checked
  · have hcount := (isBatch_take (pendingTable 2) (10 : UInt64).toNat 0).length_eq
    have hten : (10 : UInt64).toNat = 10 := rfl
    refine lt_of_le_of_lt
      (List.countP_le_length.trans (List.takeWhile_sublist _).length_le) ?_
    show ((dueRows (pendingTable 2) 0).take (10 : UInt64).toNat).length < 2 ^ 32
    omega
  · have hnext : ∀ row ∈ (pendingTable 2).rows, nextTry row 0 ≤ maxUtc := by decide
    exact hnext row (mem_dueRows.1 (List.mem_of_mem_take (reached_subset _ _ hrow))).1

theorem countP_pendingTable (n : ℕ) {now : Instant} (hnow : 0 ≤ now) :
    (pendingTable n).rows.countP (fun row => Due now row) = n := by
  rw [List.countP_eq_length.2, pendingTable, List.length_map, List.length_range]
  intro row hrow
  obtain ⟨i, -, rfl⟩ := List.mem_map.1 hrow
  exact decide_eq_true ⟨rfl, hnow⟩

/-- A drain of too many rows cannot count them. -/
theorem not_drainsBatch_pendingTable {limit : UInt64} (hn : 2 ^ 32 ≤ limit.toNat)
    (m : MachineInt.OverflowMode) :
    ¬ DrainsBatch m Bus.sampleSerde 0 smooth limit ⟨pendingTable limit.toNat, [], []⟩ := by
  rintro ⟨done, rest, hbatch, -, -, hok, herr⟩
  cases rest with
  | cons row later => cases (herr row later rfl).1
  | nil =>
    obtain ⟨sent, -, hcount⟩ := hok rfl
    rw [List.append_nil] at hbatch
    have hall : done.countP (fun row => (publication Bus.sampleSerde 0 smooth row).succeeded) =
        done.length := by
      refine List.countP_eq_length.2 fun row hrow => ?_
      obtain ⟨i, -, rfl⟩ := List.mem_map.1 (hbatch.due row hrow).1
      rfl
    have hlen := hbatch.length_eq
    have hlt := sent.toNat_lt
    rw [countP_pendingTable _ le_rfl, min_self] at hlen
    omega

/-- A drain of 2^32 rows, all of which are published: the rows are sent, but they are not counted. A
limit of 2^63 cannot be bound, and a row that is refused at the end of time cannot be put off. -/
theorem not_drainsBatch :
    ¬ DrainsBatch .checked Bus.sampleSerde 0 smooth (2 ^ 32) ⟨pendingTable (2 ^ 32), [], []⟩ ∧
      ¬ DrainsBatch .wrapping Bus.sampleSerde 0 smooth (2 ^ 32)
        ⟨pendingTable (2 ^ 32), [], []⟩ ∧
      ¬ DrainsBatch .wrapping Bus.sampleSerde 0 smooth (2 ^ 63) ⟨pendingTable 1, [], []⟩ ∧
      ¬ DrainsBatch .wrapping Bus.sampleSerde maxUtc refusing 1 ⟨pendingTable 1, [], []⟩ := by
  refine ⟨@not_drainsBatch_pendingTable (2 ^ 32) le_rfl .checked,
    @not_drainsBatch_pendingTable (2 ^ 32) le_rfl .wrapping,
    not_drainsBatch_of_panic rfl, not_drainsBatch_of_panic ?_⟩
  have hfetch : fetchDue (pendingTable 1) 1 maxUtc .ok =
      some (.ok ((dueRows (pendingTable 1) maxUtc).take (1 : UInt64).toNat)) :=
    fetchDue_eq_ok.2 ⟨by decide, rfl, rfl⟩
  have hlength : (dueRows (pendingTable 1) maxUtc).length = 1 := by
    rw [length_dueRows, countP_pendingTable 1 (by decide)]
  obtain ⟨row, hrows⟩ := List.length_eq_one_iff.1 hlength
  have hmem : row ∈ (pendingTable 1).rows :=
    (mem_dueRows.1 (hrows ▸ List.mem_singleton_self row)).1
  rw [drainOnce_of_fetchDue .wrapping Bus.sampleSerde hfetch]
  refine drainLoop_wrapping (fetched_of_fetchDue hfetch) (fun r hr => ?_) fun hdefers => ?_
  · have hbound : ∀ row ∈ (pendingTable 1).rows, row.attempts.toInt < 2 ^ 31 - 1 := by decide
    exact hbound r (mem_dueRows.1 (List.mem_of_mem_take hr)).1
  · have hstuck : ∀ row ∈ (pendingTable 1).rows,
        (publication Bus.sampleSerde maxUtc refusing row).succeeded = false ∧
          ¬ nextTry row maxUtc ≤ maxUtc := by decide
    obtain ⟨hrefused, htime⟩ := hstuck row hmem
    rw [hrows] at hdefers
    exact htime (hdefers row (by simp [reached]) hrefused).2

end Outbox

end OaLibs
