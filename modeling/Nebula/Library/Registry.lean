import Mathlib.Data.Finset.Card

/-!
A register of tickets filed under keys that may repeat, where removal takes the first entry of a key.
-/

namespace Registry

variable {K : Type*} [DecidableEq K]

/-- Erase the first entry filed under a key. -/
def dropFirst (key : Nat → K) (target : K) (entries : List Nat) : List Nat :=
  entries.eraseP fun ticket => key ticket = target

/--
The entries of each key stand in ticket order, and are no more than the tickets due for it.

The bound holds below every ticket, which is what a removal of the first entry keeps.
-/
structure Kept (key : Nat → K) (entries : List Nat) (due : Finset Nat) : Prop where
  sorted : entries.Pairwise fun first second => key first = key second → first < second
  few : ∀ target bound, entries.countP (fun ticket => key ticket = target ∧ ticket ≤ bound) ≤
    (due.filter fun ticket => key ticket = target ∧ ticket ≤ bound).card

theorem kept_empty (key : Nat → K) : Kept key [] ∅ := ⟨List.Pairwise.nil, by simp⟩

/-- Filing depends on the keys of the entries and of the tickets due only. -/
theorem Kept.congr {key key' : Nat → K} {entries : List Nat} {due : Finset Nat}
    (kept : Kept key entries due) (ofEntries : ∀ ticket ∈ entries, key' ticket = key ticket)
    (ofDue : ∀ ticket ∈ due, key' ticket = key ticket) : Kept key' entries due := by
  -- Only keys of entries are compared, and only those of entries and of tickets due are counted.
  refine ⟨?_, fun target bound => ?_⟩
  · refine kept.sorted.imp_of_mem fun {first second} here there older same => older ?_
    rw [← ofEntries first here, ← ofEntries second there]
    exact same
  · have counted : entries.countP (fun ticket => key' ticket = target ∧ ticket ≤ bound) =
        entries.countP fun ticket => key ticket = target ∧ ticket ≤ bound :=
      List.countP_congr fun ticket member => by rw [ofEntries ticket member]
    have filtered : (due.filter fun ticket => key' ticket = target ∧ ticket ≤ bound) =
        due.filter fun ticket => key ticket = target ∧ ticket ≤ bound :=
      Finset.filter_congr fun ticket member => by rw [ofDue ticket member]
    rw [counted, filtered]
    exact kept.few target bound

/-- A ticket that is newer than the entries of its key can be filed. -/
theorem Kept.add {key : Nat → K} {entries : List Nat} {due : Finset Nat} (kept : Kept key entries due)
    {ticket : Nat} (fresh : ticket ∉ due)
    (newest : ∀ other ∈ entries, key other = key ticket → other < ticket) :
    Kept key (entries ++ [ticket]) (insert ticket due) := by
  -- The new entry is the last one and the newest of its key.
  refine ⟨?_, fun target bound => ?_⟩
  · rw [List.pairwise_append]
    refine ⟨kept.sorted, List.pairwise_singleton _ _, fun other here last there => ?_⟩
    rw [List.mem_singleton.mp there]
    exact newest other here
  · have before := kept.few target bound
    rw [List.countP_append, List.countP_singleton, Finset.filter_insert]
    -- Where it counts as an entry, it counts as a ticket due as well.
    by_cases counted : key ticket = target ∧ ticket ≤ bound
    · rw [if_pos counted, Finset.card_insert_of_notMem (by simp [fresh])]
      simp only [counted, and_self, decide_true, ↓reduceIte]
      omega
    · rw [if_neg counted, if_neg (by simpa using counted)]
      exact before

/-- Removing the first entry of a key keeps the register when a ticket of that key stops being due. -/
theorem Kept.remove {key : Nat → K} {entries : List Nat} {due : Finset Nat}
    (kept : Kept key entries due) (ticket : Nat) :
    Kept key (dropFirst key (key ticket) entries) (due.erase ticket) := by
  -- Erasing keeps the order, so only the bound needs an argument.
  refine ⟨kept.sorted.eraseP _, fun target bound => ?_⟩
  have before := kept.few target bound
  have smaller : (dropFirst key (key ticket) entries).countP
      (fun other => key other = target ∧ other ≤ bound) ≤
      entries.countP fun other => key other = target ∧ other ≤ bound :=
    List.eraseP_sublist.countP_le
  by_cases own : key ticket = target
  · have fewer : (due.filter fun other => key other = target ∧ other ≤ bound).card - 1 ≤
        ((due.erase ticket).filter fun other => key other = target ∧ other ≤ bound).card := by
      rw [Finset.filter_erase]
      exact Finset.pred_card_le_card_erase
    by_cases filed : ∃ first ∈ entries, key first = target
    · -- The first entry is the lowest one of its key, so it counts below the bound if any does.
      obtain ⟨first, member, keyed⟩ := filed
      obtain ⟨lowest, ahead, behind, none, at_target, whole, left⟩ :=
        List.exists_of_eraseP (p := fun other => key other = key ticket) member (by simp [own, keyed])
      have split := kept.sorted
      rw [dropFirst, left]
      rw [whole] at before split
      -- Ahead of the erased entry there is none of its key.
      have noneAhead : ahead.countP (fun other => key other = target ∧ other ≤ bound) = 0 := by
        rw [List.countP_eq_zero]
        intro other inside
        have apart := none other inside
        simp only [decide_eq_true_eq, own] at apart ⊢
        exact fun both => apart both.1
      simp only [decide_eq_true_eq, own] at at_target
      rw [List.countP_append, List.countP_cons, noneAhead] at before
      rw [List.countP_append, noneAhead]
      by_cases below : lowest ≤ bound
      · simp only [at_target, below, and_self, decide_true, ↓reduceIte] at before
        omega
      -- The erased entry is above the bound, and so are the later ones of its key.
      · have noneBehind : behind.countP (fun other => key other = target ∧ other ≤ bound) = 0 := by
          rw [List.countP_eq_zero]
          intro other inside
          simp only [decide_eq_true_eq]
          rintro ⟨same, within⟩
          have older := List.rel_of_pairwise_cons (List.pairwise_append.mp split).2.1 inside
            (at_target.trans same.symm)
          omega
        omega
    -- Without an entry of the key there is nothing to bound.
    · have nothing : entries.countP (fun other => key other = target ∧ other ≤ bound) = 0 := by
        rw [List.countP_eq_zero]
        intro other inside
        simp only [decide_eq_true_eq]
        exact fun both => filed ⟨other, inside, both.1⟩
      omega
  · -- A ticket of another key is not among those counted.
    have others : ((due.erase ticket).filter fun other => key other = target ∧ other ≤ bound) =
        due.filter fun other => key other = target ∧ other ≤ bound := by
      rw [Finset.filter_erase]
      exact Finset.erase_eq_of_notMem fun member => own (Finset.mem_filter.mp member).2.1
    rw [others]
    omega

/-- Every entry has a ticket due for its key that is no newer. -/
theorem Kept.due_below {key : Nat → K} {entries : List Nat} {due : Finset Nat}
    (kept : Kept key entries due) {ticket : Nat} (filed : ticket ∈ entries) :
    ∃ other ∈ due, key other = key ticket ∧ other ≤ ticket := by
  -- The entry itself is counted below its own number.
  have counted : 0 < entries.countP fun other => key other = key ticket ∧ other ≤ ticket :=
    List.countP_pos_iff.mpr ⟨ticket, filed, by simp⟩
  have positive := Nat.lt_of_lt_of_le counted (kept.few (key ticket) ticket)
  obtain ⟨other, member⟩ := Finset.card_pos.mp positive
  obtain ⟨isDue, same, below⟩ := Finset.mem_filter.mp member
  exact ⟨other, isDue, same, below⟩

end Registry
