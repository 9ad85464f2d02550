import Mathlib.Data.Set.Insert
import Mathlib.Logic.Function.Basic
import Mathlib.Logic.Relation

/-!
# Delivery at least once

What a reliable sender is for, without its tables and retries: an event is accepted under an id, it
is delivered, possibly many times, and a delivery may be confirmed.

* `Ledger`, `Next`: the state of a sender and its steps;
* `Extends`: nothing that was accepted, delivered or confirmed is taken back;
* `Safe`: only accepted events are delivered, and only delivered ones are confirmed.
-/

/-- What has been accepted, delivered and confirmed. -/
@[ext] structure Ledger (Id Event : Type) where
  accepted : Id → Option Event
  delivered : Set (Id × Event)
  confirmed : Set Id

namespace Ledger

variable {Id Event : Type}

/-- A new event, one more delivery, or a confirmation. -/
inductive Next [DecidableEq Id] : Ledger Id Event → Ledger Id Event → Prop
  | accept {l : Ledger Id Event} {id : Id} {e : Event} (h : l.accepted id = none) :
      Next l { l with accepted := Function.update l.accepted id (some e) }
  | deliver {l : Ledger Id Event} {id : Id} {e : Event} (h : l.accepted id = some e) :
      Next l { l with delivered := insert (id, e) l.delivered }
  | confirm {l : Ledger Id Event} {id : Id} {e : Event} (h : (id, e) ∈ l.delivered) :
      Next l { l with confirmed := insert id l.confirmed }

/-- The second ledger keeps all that the first one has. -/
structure Extends (l l' : Ledger Id Event) : Prop where
  accepted : ∀ id e, l.accepted id = some e → l'.accepted id = some e
  delivered : l.delivered ⊆ l'.delivered
  confirmed : l.confirmed ⊆ l'.confirmed

/-- Nothing is delivered that was not accepted, nothing confirmed that was not delivered. -/
structure Safe (l : Ledger Id Event) : Prop where
  delivered : ∀ id e, (id, e) ∈ l.delivered → l.accepted id = some e
  confirmed : ∀ id ∈ l.confirmed, ∃ e, (id, e) ∈ l.delivered

variable {l l' : Ledger Id Event}

theorem Extends.refl (l : Ledger Id Event) : Extends l l :=
  ⟨fun _ _ he => he, subset_rfl, subset_rfl⟩

theorem Extends.trans {l'' : Ledger Id Event} (h : Extends l l') (h' : Extends l' l'') :
    Extends l l'' :=
  ⟨fun id e he => h'.accepted id e (h.accepted id e he), h.delivered.trans h'.delivered,
    h.confirmed.trans h'.confirmed⟩

variable [DecidableEq Id]

theorem Next.extends (h : Next l l') : Extends l l' := by
  cases h with
  | @accept id e h =>
    refine ⟨fun j e' hj => ?_, subset_rfl, subset_rfl⟩
    by_cases hid : j = id
    · rw [hid, h] at hj
      cases hj
    · exact (Function.update_of_ne hid _ _).trans hj
  | deliver h => exact ⟨fun _ _ hj => hj, Set.subset_insert _ _, subset_rfl⟩
  | confirm h => exact ⟨fun _ _ hj => hj, subset_rfl, Set.subset_insert _ _⟩

theorem extends_of_reflTransGen (h : Relation.ReflTransGen Next l l') : Extends l l' := by
  induction h with
  | refl => exact Extends.refl l
  | tail _ hnext ih => exact ih.trans hnext.extends

theorem Next.safe (h : Next l l') (hl : Safe l) : Safe l' := by
  have hext := h.extends
  refine ⟨fun id e he => ?_, fun id hid => ?_⟩
  · cases h with
    | accept h => exact hext.accepted id e (hl.delivered id e he)
    | deliver h =>
      rcases he with heq | he
      · obtain ⟨rfl, rfl⟩ := Prod.mk.inj heq
        exact h
      · exact hl.delivered id e he
    | confirm h => exact hl.delivered id e he
  · cases h with
    | accept h => exact hl.confirmed id hid
    | deliver h =>
      obtain ⟨e, he⟩ := hl.confirmed id hid
      exact ⟨e, hext.delivered he⟩
    | @confirm id' e h =>
      rcases hid with rfl | hid
      · exact ⟨e, h⟩
      · exact hl.confirmed id hid

theorem safe_of_reflTransGen (h : Relation.ReflTransGen Next l l') (hl : Safe l) : Safe l' := by
  induction h with
  | refl => exact hl
  | tail _ hnext ih => exact hnext.safe ih

end Ledger
