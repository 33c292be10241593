/-
# Peeling a set

`ok S a` says that `a` can be a member of `S`; it is monotone: a larger set does no harm.  A set is
`Closed` when each member can be one.  Peeling takes away a member that cannot be one, again and
again.

Whatever is taken away first, peeling ends in the greatest closed subset (`isGreatest_of_peels`),
so that its end does not depend on the order (`eq_of_peels`).
-/
import Mathlib.Data.Set.Insert
import Mathlib.Logic.Relation
import Mathlib.Order.Bounds.Basic

namespace Peeling

variable {α : Type*} (ok : Set α → α → Prop)

/-- Each member can be one. -/
def Closed (S : Set α) : Prop := ∀ a ∈ S, ok S a

/-- A member that cannot be one is taken away. -/
def Peel (S T : Set α) : Prop := ∃ a ∈ S, ¬ ok S a ∧ T = S \ {a}

/-- A larger set does no harm. -/
def Monotone : Prop := ∀ ⦃S T : Set α⦄, S ⊆ T → ∀ a, ok S a → ok T a

variable {ok} {S T K : Set α}

theorem Peel.subset (h : Peel ok S T) : T ⊆ S := by
  obtain ⟨a, -, -, rfl⟩ := h
  exact Set.sdiff_subset

/-- A closed subset is not touched. -/
theorem Peel.subset_of_closed (hok : Monotone ok) (h : Peel ok S T) (hK : Closed ok K)
    (hsub : K ⊆ S) : K ⊆ T := by
  obtain ⟨a, -, hno, rfl⟩ := h
  intro b hb
  refine ⟨hsub hb, ?_⟩
  rintro rfl
  exact hno (hok hsub b (hK b hb))

theorem subset_of_peels (h : Relation.ReflTransGen (Peel ok) S T) : T ⊆ S := by
  induction h with
  | refl => exact subset_rfl
  | tail _ hpeel ih => exact hpeel.subset.trans ih

theorem subset_of_peels_of_closed (hok : Monotone ok) (h : Relation.ReflTransGen (Peel ok) S T)
    (hK : Closed ok K) (hsub : K ⊆ S) : K ⊆ T := by
  induction h with
  | refl => exact hsub
  | tail _ hpeel ih => exact hpeel.subset_of_closed hok hK ih

/-- **Peeling to the end** leaves the greatest closed subset. -/
theorem isGreatest_of_peels (hok : Monotone ok) (h : Relation.ReflTransGen (Peel ok) S T)
    (hT : Closed ok T) : IsGreatest {K | K ⊆ S ∧ Closed ok K} T :=
  ⟨⟨subset_of_peels h, hT⟩, fun _ hK => subset_of_peels_of_closed hok h hK.2 hK.1⟩

/-- **The order of peeling** does not matter. -/
theorem eq_of_peels (hok : Monotone ok) (hT : Relation.ReflTransGen (Peel ok) S T)
    (hclosedT : Closed ok T) (hK : Relation.ReflTransGen (Peel ok) S K) (hclosedK : Closed ok K) :
    K = T :=
  (isGreatest_of_peels hok hK hclosedK).unique (isGreatest_of_peels hok hT hclosedT)

end Peeling
