import Mathlib.Algebra.BigOperators.Finprod
import Mathlib.Data.List.Perm.Basic

/-! Counting over a family of any size, of which only finitely many members are away from rest,
and over a list that loses one entry at a time. A tally adds up a weight that is zero at rest;
moving one member changes it by the difference of two weights. -/

namespace Secbuf.Tally

section
variable {α β : Type} {rest : β} {f : α → β} {w v : β → Nat}

/-- Only finitely many members are away from `rest`. -/
def Mostly (rest : β) (f : α → β) : Prop := {a | f a ≠ rest}.Finite

theorem mostly_const : Mostly rest fun _ : α => rest := by
  simp [Mostly]

theorem Mostly.update [DecidableEq α] (mostly : Mostly rest f) (a : α) (b : β) :
    Mostly rest (Function.update f a b) := by
  refine (mostly.insert a).subset fun other away => ?_
  by_cases same : other = a
  · exact Set.mem_insert_iff.mpr (Or.inl same)
  · have kept : Function.update f a b other = f other := Function.update_of_ne same _ _
    exact Set.mem_insert_of_mem a fun idle => away (kept.trans idle)

theorem Mostly.support (mostly : Mostly rest f) (zero : w rest = 0) :
    (fun a => w (f a)).HasFiniteSupport :=
  mostly.subset fun _ counted same => counted ((congrArg w same).trans zero)

noncomputable def tally (w : β → Nat) (f : α → β) : Nat := ∑ᶠ a, w (f a)

theorem tally_zero (none : ∀ a, w (f a) = 0) : tally w f = 0 :=
  finsum_eq_zero_of_forall_eq_zero none

theorem exists_of_tally (counted : tally w f ≠ 0) : ∃ a, w (f a) ≠ 0 := by
  by_contra none
  push Not at none
  exact counted (tally_zero none)

theorem tally_update [DecidableEq α] (mostly : Mostly rest f) (zero : w rest = 0) (a : α) (b : β) :
    tally w (Function.update f a b) + w (f a) = tally w f + w b := by
  have before := add_finsum_cond_ne a (mostly.support zero)
  have after := add_finsum_cond_ne a ((mostly.update a b).support zero)
  have others : ∑ᶠ (other) (_ : other ≠ a), w (Function.update f a b other) =
      ∑ᶠ (other) (_ : other ≠ a), w (f other) :=
    finsum_congr fun other => finsum_congr fun different => by
      rw [Function.update_of_ne different]
  rw [Function.update_self, others] at after
  unfold tally
  omega

theorem le_tally (mostly : Mostly rest f) (zero : w rest = 0) (a : α) : w (f a) ≤ tally w f :=
  single_le_finsum a (mostly.support zero) fun _ => Nat.zero_le _

theorem eq_zero_of_tally (mostly : Mostly rest f) (zero : w rest = 0) (none : tally w f = 0) (a : α) :
    w (f a) = 0 :=
  Nat.eq_zero_of_le_zero (none ▸ le_tally mostly zero a)

theorem tally_one (mostly : Mostly rest f) (zero : w rest = 0) (one : tally w f = 1) :
    ∃ a, w (f a) = 1 ∧ ∀ b, b ≠ a → w (f b) = 0 := by
  classical
  obtain ⟨a, counted⟩ := exists_of_tally (show tally w f ≠ 0 by omega)
  have le := le_tally mostly zero a
  have without := tally_update mostly zero a rest
  refine ⟨a, by omega, fun b different => ?_⟩
  have none := eq_zero_of_tally (mostly.update a rest) zero (by omega) b
  rwa [Function.update_of_ne different] at none

theorem tally_add (mostly : Mostly rest f) (zero : w rest = 0) (zero' : v rest = 0) :
    tally (fun b => w b + v b) f = tally w f + tally v f :=
  finsum_add_distrib (mostly.support zero) (mostly.support zero')

def hide (rest : β) (hidden : α → Bool) (f : α → β) : α → β := fun a => if hidden a then rest else f a

theorem hide_update [DecidableEq α] (hidden : α → Bool) (f : α → β) (a : α) (b : β) :
    hide rest hidden (Function.update f a b) =
      Function.update (hide rest hidden f) a (if hidden a then rest else b) := by
  funext other
  by_cases same : other = a
  · rw [same, hide, Function.update_self, Function.update_self]
  · rw [hide, Function.update_of_ne same, Function.update_of_ne same, hide]

theorem Mostly.hide (mostly : Mostly rest f) (hidden : α → Bool) :
    Mostly rest (hide rest hidden f) := by
  refine mostly.subset fun a away idle => away ?_
  unfold Tally.hide
  split_ifs
  · rfl
  · exact idle

theorem tally_le_tally {g : α → β} (mostly : Mostly rest f) (mostly' : Mostly rest g)
    (zero : w rest = 0) (le : ∀ a, w (f a) ≤ w (g a)) : tally w f ≤ tally w g :=
  finsum_le_finsum' (mostly.support zero) (mostly'.support zero) le

theorem tally_hide_le (mostly : Mostly rest f) (zero : w rest = 0) (hidden : α → Bool) :
    tally w (hide rest hidden f) ≤ tally w f := by
  refine tally_le_tally (mostly.hide hidden) mostly zero fun a => ?_
  unfold hide
  split_ifs
  · exact zero ▸ Nat.zero_le _
  · exact le_rfl

theorem tally_eq_sum [Fintype α] (w : β → Nat) (f : α → β) : tally w f = ∑ a, w (f a) :=
  finsum_eq_sum_of_fintype _

theorem tally_le_card [Fintype α] (le : ∀ b, w b ≤ 1) : tally w f ≤ Fintype.card α := by
  rw [tally_eq_sum]
  calc ∑ a, w (f a) ≤ ∑ _a : α, 1 := Finset.sum_le_sum fun a _ => le (f a)
    _ = Fintype.card α := by simp

theorem tally_lt_card [Fintype α] (le : ∀ b, w b ≤ 1) {a : α} (out : w (f a) = 0) :
    tally w f < Fintype.card α := by
  rw [tally_eq_sum]
  calc ∑ a, w (f a) < ∑ _a : α, 1 :=
        Finset.sum_lt_sum (fun a _ => le (f a)) ⟨a, Finset.mem_univ a, by omega⟩
    _ = Fintype.card α := by simp

end

section
variable {α : Type} {l : List α} {i : Nat} {a b : α}

theorem countP_eraseIdx (q : α → Bool) (here : l[i]? = some a) :
    (l.eraseIdx i).countP q + (if q a then 1 else 0) = l.countP q := by
  obtain ⟨inside, rfl⟩ := List.getElem?_eq_some_iff.mp here
  rw [← (List.getElem_cons_eraseIdx_perm inside).countP_eq q, List.countP_cons]

theorem countP_set_same (q : α → Bool) (here : l[i]? = some a) (same : q b = q a) :
    (l.set i b).countP q = l.countP q := by
  obtain ⟨inside, rfl⟩ := List.getElem?_eq_some_iff.mp here
  rw [(List.set_perm_cons_eraseIdx inside b).countP_eq q,
    ← (List.getElem_cons_eraseIdx_perm inside).countP_eq q, List.countP_cons, List.countP_cons, same]

end

end Secbuf.Tally
