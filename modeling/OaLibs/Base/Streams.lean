import Mathlib.Logic.Function.Basic
import OaLibs.Base.Runs

/-!
# Streams with consumer groups

Append-only logs under keys, each read by named groups. A group is given the entries of a log in
their order, every entry once, and keeps the ids of those it has not acknowledged.

* `Streams`, `Action`, `step`: the logs, the positions of the groups, and what happens to them;
* `Action.appended`, `Action.given`, `Action.acknowledged`: what one action adds to a log, hands
  out to a group and takes off its pending ids (`entries_step`, `group_step`);
* `entries_run`, `group_run`: the same for a run; what a group is given in a run is one piece of
  the log, from its old position to its new one (`given_run`), and what it has not been given is old
  or new (`after_run`);
* `WellFormed`: ids are not used twice, and what is pending has been given;
* `pending_run`, `settled_run`: an id stays pending until it is acknowledged, and what is
  acknowledged is neither pending nor given again.
-/

/-- How many entries a group has been given, and the ids of those it has not acknowledged. -/
structure Streams.Group (Id : Type) where
  position : ℕ
  pending : List Id

/-- Logs with their groups. -/
structure Streams (Key Name Id Entry : Type) where
  entries : Key → List (Id × Entry)
  groups : Key × Name → Option (Streams.Group Id)

namespace Streams

variable {Key Name Id Entry : Type}

/-- What can happen to the logs and their groups. -/
inductive Action (Key Name Id Entry : Type)
  | append (key : Key) (id : Id) (entry : Entry)
  | create (key : Key) (name : Name)
  | deliver (key : Key) (name : Name) (batch : List (Id × Entry))
  | acknowledge (key : Key) (name : Name) (ids : List Id)

/-- The entries of a log that a group at a position has not been given. -/
def after (s : Streams Key Name Id Entry) (key : Key) (g : Group Id) : List (Id × Entry) :=
  (s.entries key).drop g.position

/-- The ids of a list of entries. -/
abbrev ids (entries : List (Id × Entry)) : List Id := entries.map Prod.fst

variable [DecidableEq Key] [DecidableEq Name] [DecidableEq Id] [DecidableEq Entry]

/-- The logs with a group changed. -/
def setGroup (s : Streams Key Name Id Entry) (key : Key) (name : Name) (g : Option (Group Id)) :
    Streams Key Name Id Entry :=
  { s with groups := Function.update s.groups (key, name) g }

/-- One action: an id must be new in its log, a group is created once and starts at the end of the
log, and what is handed out is a front part of what the group has not been given. -/
def step (s : Streams Key Name Id Entry) :
    Action Key Name Id Entry → Option (Streams Key Name Id Entry)
  | .append key id entry =>
      if id ∈ ids (s.entries key) then none
      else some { s with
        entries := Function.update s.entries key (s.entries key ++ [(id, entry)]) }
  | .create key name =>
      match s.groups (key, name) with
      | some _ => none
      | none => some (s.setGroup key name (some ⟨(s.entries key).length, []⟩))
  | .deliver key name batch =>
      match s.groups (key, name) with
      | none => none
      | some g =>
          if batch <+: s.after key g then
            some (s.setGroup key name
              (some ⟨g.position + batch.length, g.pending ++ ids batch⟩))
          else none
  | .acknowledge key name acked =>
      some (s.setGroup key name ((s.groups (key, name)).map fun g =>
        { g with pending := g.pending.filter (· ∉ acked) }))

/-- What an action appends to a log. -/
def Action.appended (key : Key) : Action Key Name Id Entry → List (Id × Entry)
  | .append key' id entry => if key' = key then [(id, entry)] else []
  | _ => []

/-- What an action hands out to a group. -/
def Action.given (key : Key) (name : Name) : Action Key Name Id Entry → List (Id × Entry)
  | .deliver key' name' batch => if (key', name') = (key, name) then batch else []
  | _ => []

/-- The ids an action acknowledges for a group. -/
def Action.acknowledged (key : Key) (name : Name) : Action Key Name Id Entry → List Id
  | .acknowledge key' name' acked => if (key', name') = (key, name) then acked else []
  | _ => []

variable {s t : Streams Key Name Id Entry} {a : Action Key Name Id Entry}
  {as : List (Action Key Name Id Entry)} {key : Key} {name : Name} {g g' : Group Id} {id : Id}

/-! ### One action -/

/-- The actions, with their effects. -/
inductive Step (s : Streams Key Name Id Entry) :
    Action Key Name Id Entry → Streams Key Name Id Entry → Prop
  | append {key : Key} {id : Id} {entry : Entry} (hnew : id ∉ ids (s.entries key)) :
      Step s (.append key id entry)
        { s with entries := Function.update s.entries key (s.entries key ++ [(id, entry)]) }
  | create {key : Key} {name : Name} (hnone : s.groups (key, name) = none) :
      Step s (.create key name) (s.setGroup key name (some ⟨(s.entries key).length, []⟩))
  | deliver {key : Key} {name : Name} {batch : List (Id × Entry)} {g : Group Id}
      (hg : s.groups (key, name) = some g) (hbatch : batch <+: s.after key g) :
      Step s (.deliver key name batch)
        (s.setGroup key name (some ⟨g.position + batch.length, g.pending ++ ids batch⟩))
  | acknowledge {key : Key} {name : Name} {acked : List Id} :
      Step s (.acknowledge key name acked)
        (s.setGroup key name ((s.groups (key, name)).map fun g =>
          { g with pending := g.pending.filter (· ∉ acked) }))

theorem step_sound (h : step s a = some t) : Step s a t := by
  cases a with
  | append key id entry =>
    simp only [step] at h
    split_ifs at h with hnew
    obtain rfl := Option.some.inj h
    exact .append hnew
  | create key name =>
    simp only [step] at h
    split at h
    · cases h
    · rename_i hnone
      obtain rfl := Option.some.inj h
      exact .create hnone
  | deliver key name batch =>
    simp only [step] at h
    split at h
    · cases h
    · rename_i g hg
      split_ifs at h with hbatch
      obtain rfl := Option.some.inj h
      exact .deliver hg hbatch
  | acknowledge key name acked =>
    obtain rfl := Option.some.inj h
    exact .acknowledge

omit [DecidableEq Id] [DecidableEq Entry] in
@[simp] theorem setGroup_entries (s : Streams Key Name Id Entry) (key : Key) (name : Name)
    (g : Option (Group Id)) : (s.setGroup key name g).entries = s.entries := rfl

omit [DecidableEq Id] [DecidableEq Entry] in
theorem setGroup_groups (s : Streams Key Name Id Entry) (key key' : Key) (name name' : Name)
    (g : Option (Group Id)) : (s.setGroup key name g).groups (key', name') =
      if (key', name') = (key, name) then g else s.groups (key', name') :=
  Function.update_apply _ _ _ _

/-- Entries are appended and never change. -/
theorem entries_step (h : step s a = some t) (key : Key) :
    t.entries key = s.entries key ++ a.appended key := by
  cases step_sound h with
  | @append key' id entry hnew =>
    show Function.update s.entries key' _ key = s.entries key ++ if key' = key then _ else _
    by_cases hkey : key' = key
    · subst hkey
      rw [Function.update_self, if_pos rfl]
    · rw [Function.update_of_ne (Ne.symm hkey), if_neg hkey, List.append_nil]
  | create hnone => exact (List.append_nil _).symm
  | deliver hg hbatch => exact (List.append_nil _).symm
  | acknowledge => exact (List.append_nil _).symm

/-- A group moves over the entries it is given, which become pending, and loses the pending ids
that are acknowledged. -/
theorem group_step (h : step s a = some t) (hg : s.groups (key, name) = some g) :
    ∃ g', t.groups (key, name) = some g' ∧
      g'.position = g.position + (a.given key name).length ∧
      a.given key name <+: s.after key g ∧
      ∀ id, id ∈ g'.pending ↔
        (id ∈ g.pending ∨ id ∈ ids (a.given key name)) ∧ id ∉ a.acknowledged key name := by
  cases step_sound h with
  | append hnew =>
    exact ⟨g, hg, rfl, List.nil_prefix, by simp [Action.given, Action.acknowledged]⟩
  | @create key' name' hnone =>
    have hne : (key, name) ≠ (key', name') := by
      intro heq
      rw [heq, hnone] at hg
      cases hg
    refine ⟨g, ?_, rfl, List.nil_prefix, by simp [Action.given, Action.acknowledged]⟩
    rw [setGroup_groups, if_neg hne, hg]
  | @deliver key' name' batch g₁ hg₁ hbatch =>
    by_cases heq : (key', name') = (key, name)
    · obtain ⟨rfl, rfl⟩ := Prod.mk.inj heq
      obtain rfl := Option.some.inj (hg.symm.trans hg₁)
      refine ⟨_, (setGroup_groups s _ _ _ _ _).trans (if_pos rfl), ?_⟩
      simp [Action.given, Action.acknowledged, hbatch]
    · refine ⟨g, ?_, ?_⟩
      · rw [setGroup_groups, if_neg (Ne.symm heq), hg]
      · simp only [Action.given, if_neg heq, Action.acknowledged]
        simp
  | @acknowledge key' name' acked =>
    by_cases heq : (key', name') = (key, name)
    · obtain ⟨rfl, rfl⟩ := Prod.mk.inj heq
      refine ⟨_, (setGroup_groups s _ _ _ _ _).trans ((if_pos rfl).trans (congrArg _ hg)), ?_⟩
      simp [Action.given, Action.acknowledged]
    · refine ⟨g, ?_, ?_⟩
      · rw [setGroup_groups, if_neg (Ne.symm heq), hg]
      · simp only [Action.given, Action.acknowledged, if_neg heq]
        simp

theorem groups_create (h : step s (.create key name) = some t) :
    t.groups (key, name) = some ⟨(s.entries key).length, []⟩ := by
  cases step_sound h with
  | create hnone => rw [setGroup_groups, if_pos rfl]

/-- A group that comes into being is at the end of its log and has nothing pending. -/
theorem group_created (h : step s a = some t) (hs : s.groups (key, name) = none)
    (ht : t.groups (key, name) = some g) :
    g = ⟨(s.entries key).length, []⟩ ∧ t.entries = s.entries := by
  cases step_sound h with
  | append hnew =>
    rw [hs] at ht
    cases ht
  | @create key' name' hnone =>
    rw [setGroup_groups] at ht
    split_ifs at ht with heq
    · obtain ⟨rfl, rfl⟩ := Prod.mk.inj heq
      exact ⟨(Option.some.inj ht).symm, rfl⟩
    · rw [hs] at ht
      cases ht
  | @deliver key' name' batch g₁ hg₁ hbatch =>
    rw [setGroup_groups] at ht
    split_ifs at ht with heq
    · rw [← heq, hs] at hg₁
      cases hg₁
    · rw [hs] at ht
      cases ht
  | @acknowledge key' name' acked =>
    rw [setGroup_groups] at ht
    split_ifs at ht with heq
    · rw [← heq, hs] at ht
      cases ht
    · rw [hs] at ht
      cases ht

/-! ### Runs -/

theorem entries_run (h : Runs.run step s as = some t) (key : Key) :
    t.entries key = s.entries key ++ as.flatMap (Action.appended key) := by
  induction as generalizing s with
  | nil =>
    obtain rfl := Option.some.inj h
    exact (List.append_nil _).symm
  | cons a as ih =>
    obtain ⟨u, hu, hrest⟩ := Option.bind_eq_some_iff.1 h
    rw [ih hrest, entries_step hu, List.flatMap_cons, List.append_assoc]

/-- What a group is given in a run comes next in the log, in the order of the log, and the group
moves over all of it. -/
theorem group_run (h : Runs.run step s as = some t) (hg : s.groups (key, name) = some g) :
    ∃ g', t.groups (key, name) = some g' ∧
      g'.position = g.position + (as.flatMap (Action.given key name)).length ∧
      as.flatMap (Action.given key name) <+: t.after key g := by
  induction as generalizing s g with
  | nil =>
    obtain rfl := Option.some.inj h
    exact ⟨g, hg, rfl, List.nil_prefix⟩
  | cons a as ih =>
    obtain ⟨u, hu, hrest⟩ := Option.bind_eq_some_iff.1 h
    obtain ⟨g₁, hg₁, hpos₁, hpre₁, -⟩ := group_step hu hg
    obtain ⟨g', hg', hpos', hpre'⟩ := ih hrest hg₁
    refine ⟨g', hg', ?_, ?_⟩
    · rw [hpos', hpos₁, List.flatMap_cons, List.length_append]
      omega
    · -- The later pieces start where the first one ends.
      have hentries : t.after key g =
          s.after key g ++ ((a :: as).flatMap (Action.appended key)).drop
            (g.position - (s.entries key).length) := by
        have hrun : Runs.run step s (a :: as) = some t := h
        rw [after, entries_run hrun key, List.drop_append]
        rfl
      have hfirst : a.given key name <+: t.after key g :=
        hpre₁.trans (hentries ▸ List.prefix_append _ _)
      obtain ⟨rest, hrest'⟩ := hfirst
      have hdrop : t.after key g₁ = rest := by
        rw [after, hpos₁, ← List.drop_drop]
        show (t.after key g).drop _ = rest
        rw [← hrest', List.drop_left]
      rw [List.flatMap_cons, ← hrest', List.prefix_append_right_inj, ← hdrop]
      exact hpre'

/-- What a group is given in a run, cut out of the log. -/
theorem given_run (h : Runs.run step s as = some t) (hg : s.groups (key, name) = some g)
    (hg' : t.groups (key, name) = some g') :
    as.flatMap (Action.given key name) =
      (t.after key g).take (g'.position - g.position) := by
  obtain ⟨g₁, hg₁, hpos, hpre⟩ := group_run h hg
  obtain rfl := Option.some.inj (hg'.symm.trans hg₁)
  rw [hpos, Nat.add_sub_cancel_left]
  exact List.prefix_iff_eq_take.1 hpre

/-- An entry that a group has not been given had not been given to it before either, or it is
new. -/
theorem after_run (h : Runs.run step s as = some t) (hg' : t.groups (key, name) = some g')
    {e : Id × Entry} (he : e ∈ t.after key g') :
    (∃ g, s.groups (key, name) = some g ∧ e ∈ s.after key g) ∨
      e ∈ as.flatMap (Action.appended key) := by
  induction as generalizing s with
  | nil =>
    obtain rfl := Option.some.inj h
    exact Or.inl ⟨g', hg', he⟩
  | cons a as ih =>
    obtain ⟨u, hu, hrest⟩ := Option.bind_eq_some_iff.1 h
    rw [List.flatMap_cons, List.mem_append]
    rcases ih hrest with ⟨g₁, hg₁, he₁⟩ | hnew
    · cases hg : s.groups (key, name) with
      -- A group that comes into being has all entries behind it.
      | none =>
        obtain ⟨rfl, hentries⟩ := group_created hu hg hg₁
        rw [after, hentries, List.drop_length] at he₁
        cases he₁
      | some g =>
        obtain ⟨g₂, hg₂, hpos, -⟩ := group_step hu hg
        obtain rfl := Option.some.inj (hg₁.symm.trans hg₂)
        rw [after, entries_step hu key, hpos, ← List.drop_drop] at he₁
        have hmem := List.mem_of_mem_drop he₁
        rw [List.drop_append, List.mem_append] at hmem
        rcases hmem with hold | hnew
        · exact Or.inl ⟨g, rfl, hold⟩
        · exact Or.inr (Or.inl (List.mem_of_mem_drop hnew))
    · exact Or.inr (Or.inr hnew)

/-! ### Ids -/

/-- The ids of a log are different, no group is past the end, and what is pending has been
given. -/
structure WellFormed (s : Streams Key Name Id Entry) : Prop where
  nodup : ∀ key, (ids (s.entries key)).Nodup
  position : ∀ key name g, s.groups (key, name) = some g → g.position ≤ (s.entries key).length
  pending : ∀ key name g, s.groups (key, name) = some g →
    ∀ id ∈ g.pending, id ∈ ids ((s.entries key).take g.position)

theorem nodup_step (h : step s a = some t) (hs : ∀ key, (ids (s.entries key)).Nodup) (key : Key) :
    (ids (t.entries key)).Nodup := by
  rw [entries_step h key]
  cases step_sound h with
  | @append key' id entry hnew =>
    simp only [Action.appended]
    split_ifs with hkey
    · subst hkey
      rw [ids, List.map_append, List.nodup_append]
      refine ⟨hs _, List.nodup_singleton _, ?_⟩
      rintro x hx y hy rfl
      rw [List.map_singleton, List.mem_singleton] at hy
      rw [hy] at hx
      exact hnew hx
    · rw [List.append_nil]
      exact hs key
  | create hnone => simpa [Action.appended] using hs key
  | deliver hg hbatch => simpa [Action.appended] using hs key
  | acknowledge => simpa [Action.appended] using hs key

theorem take_step {n : ℕ} (h : step s a = some t) (hle : n ≤ (s.entries key).length) :
    (t.entries key).take n = (s.entries key).take n := by
  rw [entries_step h key, List.take_append_of_le_length hle]

theorem WellFormed.step (hs : s.WellFormed) (h : Streams.step s a = some t) : t.WellFormed := by
  have hcase : ∀ key name g', t.groups (key, name) = some g' →
      g'.position ≤ (t.entries key).length ∧
        ∀ id ∈ g'.pending, id ∈ ids ((t.entries key).take g'.position) := by
    intro key name g' hg'
    cases hg : s.groups (key, name) with
    | none =>
      obtain ⟨rfl, hentries⟩ := group_created h hg hg'
      rw [hentries]
      exact ⟨le_refl _, fun id hid => absurd hid List.not_mem_nil⟩
    | some g =>
      obtain ⟨g₁, hg₁, hpos, hpre, hpending⟩ := group_step h hg
      obtain rfl := Option.some.inj (hg'.symm.trans hg₁)
      have hle := hs.position key name g hg
      have hlen : (a.given key name).length ≤ (s.entries key).length - g.position := by
        have := hpre.length_le
        rwa [after, List.length_drop] at this
      have hpos' : g'.position ≤ (s.entries key).length := by omega
      rw [take_step h hpos']
      refine ⟨?_, fun id hid => ?_⟩
      · rw [entries_step h key, List.length_append]
        omega
      · -- What has been given is the old front part and then the new batch.
        have htake : (s.entries key).take g'.position =
            (s.entries key).take g.position ++ a.given key name := by
          rw [hpos, List.take_add]
          exact congrArg _ (List.prefix_iff_eq_take.1 hpre).symm
        rw [htake, ids, List.map_append, List.mem_append]
        rcases ((hpending id).1 hid).1 with hid | hid
        · exact Or.inl (hs.pending key name g hg id hid)
        · exact Or.inr hid
  exact ⟨nodup_step h hs.nodup, fun key name g hg => (hcase key name g hg).1,
    fun key name g hg => (hcase key name g hg).2⟩

theorem WellFormed.run (hs : s.WellFormed) (h : Runs.run Streams.step s as = some t) :
    t.WellFormed :=
  Runs.run_invariant hs (fun _ _ _ hu hv => hu.step hv) h

/-- What is given in a run has ids that are different from each other and from those given
before. -/
theorem nodup_given (ht : t.WellFormed) (h : Runs.run step s as = some t)
    (hg : s.groups (key, name) = some g) :
    (ids ((t.entries key).take g.position) ++
      ids (as.flatMap (Action.given key name))).Nodup := by
  obtain ⟨g', -, -, hpre⟩ := group_run h hg
  have hsub : (ids ((t.entries key).take g.position) ++
      ids (as.flatMap (Action.given key name))).Sublist (ids (t.entries key)) := by
    rw [ids, ids, ← List.map_append]
    refine List.Sublist.map _ ?_
    calc (t.entries key).take g.position ++ as.flatMap (Action.given key name)
        |>.Sublist ((t.entries key).take g.position ++ t.after key g) :=
          List.Sublist.append_left hpre.sublist _
      _ = t.entries key := List.take_append_drop _ _
  exact (ht.nodup key).sublist hsub

/-! ### Pending ids -/

/-- An id stays pending until it is acknowledged. -/
theorem pending_run (h : Runs.run step s as = some t) (hg : s.groups (key, name) = some g)
    (hg' : t.groups (key, name) = some g')
    (hid : id ∈ g.pending ∨ id ∈ ids (as.flatMap (Action.given key name)))
    (hacked : id ∉ as.flatMap (Action.acknowledged key name)) : id ∈ g'.pending := by
  induction as generalizing s g with
  | nil =>
    obtain rfl := Option.some.inj h
    obtain rfl := Option.some.inj (hg.symm.trans hg')
    simpa using hid
  | cons a as ih =>
    obtain ⟨u, hu, hrest⟩ := Option.bind_eq_some_iff.1 h
    obtain ⟨g₁, hg₁, -, -, hpending⟩ := group_step hu hg
    rw [List.flatMap_cons, List.mem_append, not_or] at hacked
    rw [List.flatMap_cons, ids, List.map_append, List.mem_append, ← or_assoc] at hid
    refine ih hrest hg₁ ?_ hacked.2
    rcases hid with hid | hid
    · exact Or.inl ((hpending id).2 ⟨hid, hacked.1⟩)
    · exact Or.inr hid

/-- Nothing else becomes pending than what is given. -/
theorem pending_run_cases (h : Runs.run step s as = some t) (hg : s.groups (key, name) = some g)
    (hg' : t.groups (key, name) = some g') (hid : id ∈ g'.pending) :
    id ∈ g.pending ∨ id ∈ ids (as.flatMap (Action.given key name)) := by
  induction as generalizing s g with
  | nil =>
    obtain rfl := Option.some.inj h
    obtain rfl := Option.some.inj (hg.symm.trans hg')
    exact Or.inl hid
  | cons a as ih =>
    obtain ⟨u, hu, hrest⟩ := Option.bind_eq_some_iff.1 h
    obtain ⟨g₁, hg₁, -, -, hpending⟩ := group_step hu hg
    rw [List.flatMap_cons, ids, List.map_append, List.mem_append, ← or_assoc]
    rcases ih hrest hg₁ with hid | hid
    · exact Or.inl ((hpending id).1 hid).1
    · exact Or.inr hid

/-- An id that a group has been given and that is not pending never comes back. -/
theorem settled_run (hs : s.WellFormed) (h : Runs.run step s as = some t)
    (hg : s.groups (key, name) = some g) (hg' : t.groups (key, name) = some g')
    (hgiven : id ∈ ids ((s.entries key).take g.position)) (hid : id ∉ g.pending) :
    id ∉ g'.pending ∧ id ∉ ids (as.flatMap (Action.given key name)) := by
  have hle := hs.position key name g hg
  have htake : (t.entries key).take g.position = (s.entries key).take g.position := by
    rw [entries_run h key, List.take_append_of_le_length hle]
  have hnodup := nodup_given (hs.run h) h hg
  rw [htake] at hnodup
  have hnot : id ∉ ids (as.flatMap (Action.given key name)) :=
    fun hmem => (List.nodup_append.1 hnodup).2.2 id hgiven id hmem rfl
  refine ⟨fun hmem => ?_, hnot⟩
  rcases pending_run_cases h hg hg' hmem with hp | hp
  · exact hid hp
  · exact hnot hp

end Streams
