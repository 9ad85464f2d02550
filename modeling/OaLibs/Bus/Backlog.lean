import OaLibs.Bus.Batch

/-!
# Working off a backlog

`drainOnce` is called again and again. At one time, and as long as the database answers, the calls
take the due rows in slices of their limits, whatever the bus says to each of them: a row that fails
is put off, so it does not stand in the way of those behind it.

* `eq_of_ascending`: the due rows in the order of their ids, which their ids determine;
* `not_due_of_settled`: a settled row is not due any more;
* `dueRows_drainOnce`: one drain publishes the first due rows and leaves the others;
* `drains_tile`: what a list of drains publishes and leaves.
-/

namespace OaLibs

namespace Outbox

/-- Drains one after the other, each with its limit and the answers it gets. -/
def drains (m : MachineInt.OverflowMode) (serde : SerdeJson) (now : Instant)
    (calls : List (UInt64 × Answers)) (w : World) : World :=
  calls.foldl (fun w call => (drainOnce m serde now call.2 call.1 w).2) w

/-- How many rows some drains may take together. -/
def totalLimit (calls : List (UInt64 × Answers)) : ℕ :=
  (calls.map fun call => call.1.toNat).sum

variable {m : MachineInt.OverflowMode} {serde : SerdeJson} {now : Instant} {answers : Answers}
  {t : Table} {w w' : World} {row row' : Model} {limit : UInt64}

/-! ### The due rows -/

/-- Two ascending lists with the same rows are equal. -/
theorem eq_of_ascending {rows rows' : List Model} (h : rows.Pairwise fun a b => a.id < b.id)
    (h' : rows'.Pairwise fun a b => a.id < b.id) (hmem : ∀ row, row ∈ rows ↔ row ∈ rows') :
    rows = rows' := by
  have hnodup : ∀ {l : List Model}, l.Pairwise (fun a b => a.id < b.id) → l.Nodup :=
    fun hl => hl.imp fun hlt heq => absurd (heq ▸ hlt) (lt_irrefl _)
  have hperm : rows.Perm rows' := (List.perm_ext_iff_of_nodup (hnodup h) (hnodup h')).2 hmem
  refine hperm.eq_of_pairwise (fun a b _ _ hab hba => ?_) h h'
  exact absurd hab (lt_asymm hba)

theorem lt_add_seconds {now s : ℤ} (h : 0 < s) : now < now + seconds s := by
  unfold seconds
  omega

/-- A settled row is sent, or put off beyond the present. -/
theorem not_due_of_settled (h : Settled m serde now answers row row') : ¬ Due now row' := by
  intro hdue
  unfold Settled at h
  split at h
  · subst h
    have hsent : "sent" ≠ "pending" := by decide
    exact hsent hdue.1
  · obtain ⟨attempts, s, -, hs, rfl⟩ := h
    obtain ⟨d, -, hd⟩ := Option.map_eq_some_iff.1 hs
    have hs : min (5 * 2 ^ (max 0 (min d.toInt 7)).toNat) 600 = s := hd
    have hpow : (1 : ℤ) ≤ 2 ^ (max 0 (min d.toInt 7)).toNat := one_le_pow₀ (by norm_num)
    exact absurd hdue.2 (not_le.2 (lt_add_seconds (by omega)))

/-! ### One drain -/

/-- One drain whose database calls succeed settles the first due rows. -/
theorem drained_drainOnce (m : MachineInt.OverflowMode)
    (hfetch : answers.fetch.fails = false) (hupdate : ∀ id, (answers.update id).fails = false)
    (hlimit : limit.toNat < 2 ^ 32)
    (hdefer : ∀ row ∈ dueRows w.table now,
      (publication serde now answers row).succeeded = false → Deferrable now row) :
    Drained m serde now answers ((dueRows w.table now).take limit.toNat)
      ((dueRows w.table now).take limit.toNat) w (drainOnce m serde now answers limit w).2 := by
  have hrows : fetchDue w.table limit now answers.fetch =
      some (.ok ((dueRows w.table now).take limit.toNat)) :=
    fetchDue_eq_ok.2 ⟨by omega, hfetch, rfl⟩
  have hdefers : Defers serde now answers ((dueRows w.table now).take limit.toNat) :=
    fun row hrow => hdefer row (List.mem_of_mem_take (reached_subset _ _ hrow))
  have hfit : (0 : UInt32).toNat +
      successes serde now answers ((dueRows w.table now).take limit.toNat) < 2 ^ 32 := by
    have hle : successes serde now answers ((dueRows w.table now).take limit.toNat) ≤
        limit.toNat :=
      List.countP_le_length.trans
        ((List.takeWhile_sublist _).length_le.trans (List.length_take_le _ _))
    have hzero : (0 : UInt32).toNat = 0 := rfl
    rw [hzero, Nat.zero_add]
    exact lt_of_le_of_lt hle hlimit
  obtain ⟨done, rest, hsplit, -, hdrained, -, hstop⟩ :=
    drainLoop_spec m (fetched_of_fetchDue hrows) hdefers hfit
  -- No update fails, so the drain comes to the end of its batch.
  obtain rfl : rest = [] := by
    cases rest with
    | nil => rfl
    | cons r later =>
      obtain ⟨hfails, -⟩ := hstop r later rfl
      rw [hupdate] at hfails
      cases hfails
  rw [List.append_nil] at hsplit
  rw [List.take_nil, List.append_nil, ← hsplit] at hdrained
  rw [drainOnce_of_fetchDue m serde hrows]
  exact hdrained

/-- One drain publishes the first due rows, and the others are what is due afterwards. -/
theorem dueRows_drainOnce (m : MachineInt.OverflowMode)
    (hfetch : answers.fetch.fails = false) (hupdate : ∀ id, (answers.update id).fails = false)
    (hlimit : limit.toNat < 2 ^ 32)
    (hdefer : ∀ row ∈ dueRows w.table now,
      (publication serde now answers row).succeeded = false → Deferrable now row) :
    (drainOnce m serde now answers limit w).2.log =
      w.log ++ ((dueRows w.table now).take limit.toNat).map (publication serde now answers) ∧
    dueRows (drainOnce m serde now answers limit w).2.table now =
      (dueRows w.table now).drop limit.toNat := by
  have hdrained := drained_drainOnce m hfetch hupdate hlimit hdefer
  refine ⟨hdrained.published, eq_of_ascending (ascending_dueRows _ _)
    ((ascending_dueRows _ _).sublist (List.drop_sublist _ _)) fun row => ?_⟩
  have hasc := ascending_dueRows w.table now
  rw [← List.take_append_drop limit.toNat (dueRows w.table now)] at hasc
  rw [mem_dueRows]
  constructor
  · rintro ⟨hmem, hdue⟩
    have hfind := find_eq_some_iff.2 ⟨hmem, rfl⟩
    by_cases hid : row.id ∈ ((dueRows w.table now).take limit.toNat).map Model.id
    · obtain ⟨r, hr, hrid⟩ := List.mem_map.1 hid
      obtain ⟨r', hr', hsettled⟩ := hdrained.settled r hr
      rw [hrid, hfind] at hr'
      obtain rfl := Option.some.inj hr'
      exact absurd hdue (not_due_of_settled hsettled)
    · rw [hdrained.others row.id hid] at hfind
      have hbefore : row ∈ dueRows w.table now :=
        mem_dueRows.2 ⟨(find_eq_some_iff.1 hfind).1, hdue⟩
      rw [← List.take_append_drop limit.toNat (dueRows w.table now), List.mem_append] at hbefore
      exact hbefore.resolve_left fun hr => hid (List.mem_map_of_mem hr)
  · intro hmem
    obtain ⟨hold, hdue⟩ := mem_dueRows.1 (List.mem_of_mem_drop hmem)
    have hid : row.id ∉ ((dueRows w.table now).take limit.toNat).map Model.id := by
      intro hid
      obtain ⟨r, hr, hrid⟩ := List.mem_map.1 hid
      have hlt : r.id < row.id := (List.pairwise_append.1 hasc).2.2 r hr row hmem
      exact absurd hlt (hrid ▸ lt_irrefl _)
    have hfind := hdrained.others row.id hid
    rw [find_eq_some_iff.2 ⟨hold, rfl⟩] at hfind
    exact ⟨(find_eq_some_iff.1 hfind).1, hdue⟩

/-! ### Many drains -/

/-- The database answers every drain, the limits fit in the count that a drain returns, and each row
that is due and refused can be put off. -/
structure Answered (serde : SerdeJson) (now : Instant) (t : Table)
    (calls : List (UInt64 × Answers)) : Prop where
  fetch : ∀ call ∈ calls, call.2.fetch.fails = false
  update : ∀ call ∈ calls, ∀ id, (call.2.update id).fails = false
  limit : ∀ call ∈ calls, call.1.toNat < 2 ^ 32
  defer : ∀ call ∈ calls, ∀ row ∈ dueRows t now,
    (publication serde now call.2 row).succeeded = false → Deferrable now row

section

variable {call : UInt64 × Answers} {calls : List (UInt64 × Answers)}
  (h : Answered serde now w.table (call :: calls))

include h

theorem Answered.drained (m : MachineInt.OverflowMode) :
    Drained m serde now call.2 ((dueRows w.table now).take call.1.toNat)
      ((dueRows w.table now).take call.1.toNat) w (drainOnce m serde now call.2 call.1 w).2 :=
  drained_drainOnce m (h.fetch call List.mem_cons_self) (h.update call List.mem_cons_self)
    (h.limit call List.mem_cons_self) (h.defer call List.mem_cons_self)

theorem Answered.dueRows_drainOnce (m : MachineInt.OverflowMode) :
    (drainOnce m serde now call.2 call.1 w).2.log =
      w.log ++ ((dueRows w.table now).take call.1.toNat).map (publication serde now call.2) ∧
    dueRows (drainOnce m serde now call.2 call.1 w).2.table now =
      (dueRows w.table now).drop call.1.toNat :=
  Outbox.dueRows_drainOnce m (h.fetch call List.mem_cons_self) (h.update call List.mem_cons_self)
    (h.limit call List.mem_cons_self) (h.defer call List.mem_cons_self)

/-- Rows that stay due can still be put off. -/
theorem Answered.tail (m : MachineInt.OverflowMode) :
    Answered serde now (drainOnce m serde now call.2 call.1 w).2.table calls := by
  refine ⟨fun c hc => h.fetch c (List.mem_cons_of_mem _ hc),
    fun c hc => h.update c (List.mem_cons_of_mem _ hc),
    fun c hc => h.limit c (List.mem_cons_of_mem _ hc), fun c hc row hrow => ?_⟩
  rw [(h.dueRows_drainOnce m).2] at hrow
  exact h.defer c (List.mem_cons_of_mem _ hc) row (List.mem_of_mem_drop hrow)

end

/-- The due rows that are left after some drains. -/
theorem dueRows_drains (m : MachineInt.OverflowMode) (calls : List (UInt64 × Answers)) (w : World)
    (hcalls : Answered serde now w.table calls) :
    dueRows (drains m serde now calls w).table now =
      (dueRows w.table now).drop (totalLimit calls) := by
  induction calls generalizing w with
  | nil => rfl
  | cons call calls ih =>
    obtain ⟨-, hdue⟩ := hcalls.dueRows_drainOnce m
    have hdue' := ih _ (hcalls.tail m)
    rw [totalLimit, List.map_cons, List.sum_cons]
    refine hdue'.trans ?_
    rw [hdue, List.drop_drop]
    rfl

/-- The rows that some drains publish. -/
theorem rows_drains (m : MachineInt.OverflowMode) (calls : List (UInt64 × Answers)) (w : World)
    (hcalls : Answered serde now w.table calls) :
    (drains m serde now calls w).log.map Publication.row =
      w.log.map Publication.row ++
        ((dueRows w.table now).take (totalLimit calls)).map Model.id := by
  induction calls generalizing w with
  | nil => exact (List.append_nil _).symm
  | cons call calls ih =>
    obtain ⟨hlog, hdue⟩ := hcalls.dueRows_drainOnce m
    have hlog' := ih _ (hcalls.tail m)
    have hids : (((dueRows w.table now).take call.1.toNat).map
        (publication serde now call.2)).map Publication.row =
        ((dueRows w.table now).take call.1.toNat).map Model.id := List.map_map
    rw [totalLimit, List.map_cons, List.sum_cons, ← totalLimit]
    refine hlog'.trans ?_
    rw [hlog, hdue, List.map_append, hids, List.append_assoc, ← List.map_append, List.take_add]

/-- **Drains at one time publish the due rows in the order of their ids, each row once and none
passed over, whether the publishes before it succeed or fail, and leave what is beyond the sum of
their limits.** -/
theorem drains_tile (m : MachineInt.OverflowMode) (serde : SerdeJson) (now : Instant)
    (calls : List (UInt64 × Answers)) (w : World)
    (hcalls : Answered serde now w.table calls) :
    (drains m serde now calls w).log.map Publication.row =
      w.log.map Publication.row ++
        ((dueRows w.table now).take (calls.map fun call => call.1.toNat).sum).map Model.id ∧
    dueRows (drains m serde now calls w).table now =
      (dueRows w.table now).drop (calls.map fun call => call.1.toNat).sum :=
  ⟨rows_drains m calls w hcalls, dueRows_drains m calls w hcalls⟩

theorem dueRows_pendingTable : dueRows (pendingTable 4) 0 = (pendingTable 4).rows := by
  refine eq_of_ascending (ascending_dueRows _ _) (by decide) fun row => ?_
  have hdue : ∀ row ∈ (pendingTable 4).rows, Due 0 row := by decide
  rw [mem_dueRows]
  exact ⟨And.left, fun hmem => ⟨hmem, hdue row hmem⟩⟩

theorem drains_tile_refusing :
    (drains .checked Bus.sampleSerde 0 [(2, refusing), (1, smooth), (2, refusing)]
      ⟨pendingTable 4, [], []⟩).log.map Publication.row = [0, 1, 2, 3] ∧
    dueRows (drains .checked Bus.sampleSerde 0 [(2, refusing), (1, smooth), (2, refusing)]
      ⟨pendingTable 4, [], []⟩).table 0 = [] := by
  have hdefer : ∀ row ∈ (pendingTable 4).rows,
      row.attempts.toInt < 2 ^ 31 - 1 ∧ nextTry row 0 ≤ maxUtc := by decide
  obtain ⟨hlog, hdue⟩ := drains_tile .checked Bus.sampleSerde 0
    [(2, refusing), (1, smooth), (2, refusing)] ⟨pendingTable 4, [], []⟩
    ⟨by simp [refusing, smooth, Db.ok], by simp [refusing, smooth, Db.ok], by simp,
      fun call _ row hrow _ => hdefer row (mem_dueRows.1 hrow).1⟩
  rw [dueRows_pendingTable] at hlog hdue
  exact ⟨hlog, hdue⟩

/-! ### After an outage -/

/-- A row after its delivery. -/
def sentRow (now : Instant) (row : Model) : Model :=
  { row with status := "sent", sentAt := some now, lastError := none }

theorem eq_sentRow_of_settled (h : Settled m serde now answers row row')
    (hsucc : (publication serde now answers row).succeeded = true) : row' = sentRow now row := by
  unfold Settled at h
  split at h
  · exact h
  · rename_i err herr
    rw [Publication.succeeded, herr] at hsucc
    cases hsucc

/-- When every publish succeeds, the rows that the drains reach are sent and the others stay. -/
theorem drains_sends (m : MachineInt.OverflowMode) (calls : List (UInt64 × Answers)) (w : World)
    (hcalls : Answered serde now w.table calls)
    (hpublish : ∀ call ∈ calls, ∀ row ∈ dueRows w.table now,
      (publication serde now call.2 row).succeeded = true)
    {row : Model} (hfind : w.table.find row.id = some row) :
    (row ∈ (dueRows w.table now).take (totalLimit calls) →
      (drains m serde now calls w).table.find row.id = some (sentRow now row)) ∧
    (row ∉ (dueRows w.table now).take (totalLimit calls) →
      (drains m serde now calls w).table.find row.id = some row) := by
  induction calls generalizing w row with
  | nil =>
    refine ⟨fun hmem => ?_, fun _ => hfind⟩
    rw [totalLimit, List.map_nil, List.sum_nil, List.take_zero] at hmem
    cases hmem
  | cons call calls ih =>
    have hdrained := hcalls.drained m
    obtain ⟨-, hdue⟩ := hcalls.dueRows_drainOnce m
    have hrest : ∀ {row : Model},
        (drainOnce m serde now call.2 call.1 w).2.table.find row.id = some row → _ :=
      ih (drainOnce m serde now call.2 call.1 w).2 (hcalls.tail m) fun c hc r hr => by
        rw [hdue] at hr
        exact hpublish c (List.mem_cons_of_mem _ hc) r (List.mem_of_mem_drop hr)
    rw [totalLimit, List.map_cons, List.sum_cons, List.take_add, List.mem_append, ← hdue,
      ← totalLimit]
    by_cases hnow : row ∈ (dueRows w.table now).take call.1.toNat
    · -- the row is sent by the first drain, and the later ones do not touch it
      obtain ⟨row', hrow', hsettled⟩ := hdrained.settled row hnow
      rw [eq_sentRow_of_settled hsettled
        (hpublish call List.mem_cons_self row (List.mem_of_mem_take hnow))] at hrow'
      have hnotDue : sentRow now row ∉ (dueRows (drainOnce m serde now call.2 call.1 w).2.table
          now).take (totalLimit calls) := by
        intro hmem
        have hsent : "sent" ≠ "pending" := by decide
        exact hsent (mem_dueRows.1 (List.mem_of_mem_take hmem)).2.1
      exact ⟨fun _ => (hrest hrow').2 hnotDue, fun hnot => absurd (.inl hnow) hnot⟩
    · have hid : row.id ∉ ((dueRows w.table now).take call.1.toNat).map Model.id := by
        intro hid
        obtain ⟨r, hr, hrid⟩ := List.mem_map.1 hid
        have hrfind := find_eq_some_iff.2
          ⟨(mem_dueRows.1 (List.mem_of_mem_take hr)).1, rfl⟩
        rw [hrid, hfind] at hrfind
        exact hnow (Option.some.inj hrfind ▸ hr)
      have hsame := hdrained.others row.id hid
      rw [hfind] at hsame
      obtain ⟨hin, hout⟩ := hrest hsame
      exact ⟨fun hmem => hin (hmem.resolve_left hnow), fun hnot => hout fun h => hnot (.inr h)⟩

end Outbox

end OaLibs
