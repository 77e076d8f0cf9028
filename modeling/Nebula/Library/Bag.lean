import Mathlib.Algebra.BigOperators.Group.Multiset.Basic
import Mathlib.Data.List.Forall2
import Mathlib.Data.List.Perm.Basic
import Mathlib.Data.Multiset.Filter

/-! Lists counted without regard to positions, under a change at one of them. -/

namespace Bag

variable {α β : Type*}

/-- Picking one item splits it from the others. -/
theorem split {items : List α} {index : Nat} {item : α} (here : items[index]? = some item) :
    (items : Multiset α) = item ::ₘ (items.eraseIdx index : Multiset α) := by
  -- Bags are equal when one list is a permutation of the other.
  obtain ⟨inside, rfl⟩ := List.getElem?_eq_some_iff.mp here
  rw [Multiset.cons_coe, Multiset.coe_eq_coe]
  exact (List.getElem_cons_eraseIdx_perm inside).symm

/-- Overwriting one item leaves the others as they were. -/
theorem set {items : List α} {index : Nat} (inside : index < items.length) (next : α) :
    (items.set index next : Multiset α) = next ::ₘ (items.eraseIdx index : Multiset α) := by
  rw [Multiset.cons_coe, Multiset.coe_eq_coe]
  exact List.set_perm_cons_eraseIdx inside next

/-- An item at the end counts like one at the front. -/
theorem snoc (items : List α) (item : α) :
    (items ++ [item] : Multiset α) = item ::ₘ (items : Multiset α) := by
  rw [Multiset.cons_coe, Multiset.coe_eq_coe]
  exact List.perm_append_singleton item items

/-- A partial map takes from a bag what it takes from one item and from the others. -/
theorem filterMap_cons (pick : α → Option β) (item : α) (others : Multiset α) :
    (item ::ₘ others).filterMap pick =
      ((pick item).toList : Multiset β) + others.filterMap pick := by
  -- The item is picked up as one value or as none.
  cases picked : pick item with
  | none => rw [Multiset.filterMap_cons_none _ _ picked, Option.toList_none, Multiset.coe_nil,
      Multiset.zero_add]
  | some value =>
    rw [Multiset.filterMap_cons_some _ _ _ picked, Option.toList_some, Multiset.coe_singleton,
      Multiset.singleton_add]

/-- What a partial map takes from the other items does not change when one item is overwritten. -/
theorem filterMap_set {items : List α} {index : Nat} {item : α} (here : items[index]? = some item)
    (pick : α → Option β) :
    ∃ others : Multiset β,
      (items : Multiset α).filterMap pick = ((pick item).toList : Multiset β) + others ∧
      ∀ next, (items.set index next : Multiset α).filterMap pick =
        ((pick next).toList : Multiset β) + others := by
  have inside := (List.getElem?_eq_some_iff.mp here).1
  -- Both lists split into the item at the index and the same others.
  refine ⟨(items.eraseIdx index : Multiset α).filterMap pick, ?_, fun next => ?_⟩
  · rw [split here, filterMap_cons]
  · rw [set inside, filterMap_cons]

/-- Overwriting one item changes a sum over all of them by the difference between the two. -/
theorem sum_set {M : Type*} [AddCommGroup M] (worth : α → M) {items : List α} {index : Nat} {item : α}
    (here : items[index]? = some item) (next : α) :
    ((items.set index next).map worth).sum = (items.map worth).sum - worth item + worth next := by
  have inside := (List.getElem?_eq_some_iff.mp here).1
  -- Both sums are the one over the others, with one item more.
  have before := congrArg (fun bag => (bag.map worth).sum) (split here)
  have after := congrArg (fun bag => (bag.map worth).sum) (set inside next)
  simp only [Multiset.map_coe, Multiset.sum_coe, Multiset.map_cons, Multiset.sum_cons] at before after
  rw [before, after, add_sub_cancel_left, add_comm]

section Paired

variable {related : α → β → Prop} {items : List α} {others : List β} {index : Nat}

/-- Items that are paired have a partner at the same place. -/
theorem forall₂_getElem? (paired : List.Forall₂ related items others) {item : α} (here : items[index]? = some item) :
    ∃ other, others[index]? = some other ∧ related item other := by
  induction paired generalizing index with
  | nil => simp at here
  | cons first _ ih =>
    cases index with
    | zero => exact ⟨_, rfl, Option.some.inj here ▸ first⟩
    | succ index => exact ih here

/-- An item may be overwritten by one that goes with the same partner. -/
theorem forall₂_set (paired : List.Forall₂ related items others) {other : β} (here : others[index]? = some other)
    {next : α} (goes : related next other) : List.Forall₂ related (items.set index next) others := by
  induction paired generalizing index with
  | nil => exact .nil
  | cons first rest ih =>
    cases index with
    | zero => exact .cons (Option.some.inj here ▸ goes) rest
    | succ index => exact .cons first (ih here)

/-- Overwriting one of two paired items overwrites the pair. -/
theorem zip_set {item : α} {other : β} (here : items[index]? = some item) (there : others[index]? = some other)
    (next : α) : (items.set index next).zip others = (items.zip others).set index (next, other) := by
  induction items generalizing others index with
  | nil => simp at here
  | cons first rest ih =>
    cases others with
    | nil => simp at there
    | cons first' rest' =>
      cases index with
      | zero =>
        obtain rfl := Option.some.inj there
        rfl
      | succ index => exact congrArg (List.cons _) (ih here there)

end Paired

end Bag
