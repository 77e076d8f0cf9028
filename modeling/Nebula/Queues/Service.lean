import Nebula.Queues.Aging
import Nebula.Queues.Roster

/-! Whom the ticks of the scheduler serve, in which order, and that nobody waits forever. -/

namespace Nebula

open CText

namespace Roster

/-- Everyone in line who is READY, each once, in the order of service. -/
def waiting (r : Roster) : List Nat := (r.queued.filter r.ready).eraseDups

theorem mem_waiting {r : Roster} {place : Nat} :
    place ∈ r.waiting ↔ place ∈ r.queued ∧ r.ready place = true := by
  rw [waiting, List.mem_eraseDups, List.mem_filter]

/-- The next one is the first of those who wait. -/
theorem next_eq (r : Roster) : r.next = r.waiting.head? := by
  rw [next, ← List.head?_filter, waiting]
  cases r.queued.filter r.ready with
  | nil => rfl
  | cons first rest => rw [List.eraseDups_cons, List.head?_cons, List.head?_cons]

/-- Dispatching a process is all that becomes of its row. -/
def dispatched (r : Roster) (p : Process) : Process :=
  { p.setState stateRunning with coreId := assignedCore r.resources }

theorem dispatch_rows (r : Roster) (place : Nat) :
    (r.dispatch place).rows = r.rows.modify place r.dispatched := rfl

/-- Whoever is dispatched is READY no more, and nobody else is concerned. -/
theorem ready_dispatch (r : Roster) (place other : Nat) :
    (r.dispatch place).ready other = (r.ready other && other != place) := by
  rw [ready, ready, dispatch_rows, List.getElem?_modify]
  by_cases here : place = other
  · subst here
    cases r.rows[place]? <;> simp [dispatched, Process.setState]
  · simp [here, Ne.symm here]

/-- A tick that finds nobody changes nothing. -/
theorem serve_idle {r : Roster} (nobody : r.next = none) : r.serve = r := by
  rw [serve, nobody]

/-- A tick dispatches the next one, and no other row changes. -/
theorem serve_rows {r : Roster} {place : Nat} (next : r.next = some place) :
    r.serve.rows = r.rows.modify place r.dispatched := by
  rw [serve, next]
  dsimp only
  split <;> rfl

theorem serve_length (r : Roster) : r.serve.rows.length = r.rows.length := by
  cases next : r.next with
  | none => rw [serve_idle next]
  | some place => rw [serve_rows next, List.length_modify]

@[simp] theorem serve_resources (r : Roster) : r.serve.resources = r.resources := by
  unfold serve
  repeat' split
  all_goals rfl

theorem ready_serve {r : Roster} {place : Nat} (next : r.next = some place) (other : Nat) :
    r.serve.ready other = (r.ready other && other != place) := by
  rw [← ready_dispatch, ready, serve_rows next]
  rfl

/-- Moving up the interactive line changes nothing for those who are READY afterwards. -/
theorem filter_queued_serve {r : Roster} {place : Nat} (next : r.next = some place) :
    r.serve.queued.filter r.serve.ready = r.queued.filter r.serve.ready := by
  have ready' := fun other => ready_serve next other
  generalize r.serve.ready = after at ready'
  rw [serve, next]
  dsimp only
  split
  · rfl
  · rename_i moves
    have above := (not_or.mp moves).1
    -- The one who is dispatched comes to the end of the line, where he does not count.
    have last : after place = false := by simp [ready']
    simp only [queued, Function.update_self, List.filter_append, List.filter_cons, last,
      Function.update_of_ne (show QueueLevel.system ≠ .interactive by decide),
      Function.update_of_ne (show QueueLevel.background ≠ .interactive by decide)]
    congr 2
    cases line : r.line .interactive with
    | nil => rfl
    | cons front rest =>
      -- The front was READY only if it is the one who is dispatched.
      have front' : after front = false := by
        rw [ready']
        by_contra both
        simp only [Bool.not_eq_false, Bool.and_eq_true, bne_iff_ne, ne_eq] at both
        have first : r.next = some front := by
          simp only [Bool.not_eq_true, List.any_eq_false] at above
          have none_above : (r.line .system).find? r.ready = none :=
            List.find?_eq_none.mpr fun other member => by simp [above other member]
          simp [Roster.next, queued, line, List.find?_append, none_above, both.1]
        rw [first] at next
        exact both.2 (Option.some.inj next)
      simp [front']

/-- Each tick serves the first of those who wait, and the others go on waiting in their order. -/
theorem waiting_serve (r : Roster) : r.serve.waiting = r.waiting.tail := by
  cases next : r.next with
  | none =>
    have nobody : r.waiting = [] := List.head?_eq_none_iff.mp (by rw [← next_eq, next])
    rw [serve_idle next, nobody, List.tail_nil]
  | some place =>
    have first : (r.queued.filter r.ready).head? = some place := by rw [List.head?_filter, ← next, Roster.next]
    obtain ⟨rest, list⟩ := List.head?_eq_some_iff.mp first
    -- After the tick those count who counted before, the dispatched one excepted.
    have left : r.queued.filter r.serve.ready = rest.filter fun other => !other == place := by
      have apart : r.serve.ready = fun other => other != place && r.ready other :=
        funext fun other => (ready_serve next other).trans (Bool.and_comm ..)
      rw [apart, ← List.filter_filter, list, List.filter_cons]
      simp [bne]
    rw [waiting, filter_queued_serve next, left, waiting, list, List.eraseDups_cons, List.tail_cons]

/-- What a number of ticks in a row do, if nothing comes between them. -/
theorem run_serve (ticks : Nat) (r : Roster) :
    (serve^[ticks] r).waiting = r.waiting.drop ticks ∧ (serve^[ticks] r).resources = r.resources ∧
      (serve^[ticks] r).rows.length = r.rows.length ∧ ∀ place, (serve^[ticks] r).rows[place]? =
        if place ∈ r.waiting.take ticks then r.rows[place]?.map r.dispatched else r.rows[place]? := by
  -- The first tick takes the first of those who wait, and the others are served by the rest.
  induction ticks generalizing r with
  | zero => simp
  | succ ticks ih =>
    obtain ⟨waiting, resources, length, rows⟩ := ih r.serve
    rw [Function.iterate_succ_apply]
    refine ⟨?_, resources.trans r.serve_resources, length.trans r.serve_length, fun place => ?_⟩
    · rw [waiting, waiting_serve, List.drop_tail]
    · have same : r.serve.dispatched = r.dispatched := by
        funext p
        rw [dispatched, dispatched, serve_resources]
      rw [rows place, waiting_serve, same]
      cases list : r.waiting with
      | nil =>
        have nobody : r.next = none := by rw [next_eq, list, List.head?_nil]
        simp [serve_idle nobody]
      | cons first rest =>
        have next : r.next = some first := by rw [next_eq, list, List.head?_cons]
        rw [serve_rows next, List.getElem?_modify, List.tail_cons, List.take_succ_cons]
        -- A second dispatch would write what the first one has written.
        by_cases here : first = place
        · subst here
          cases r.rows[first]? <;> simp [dispatched, Process.setState]
        · simp [here, Ne.symm here]

/-- What the ticks show are the first of those who wait, in their order. -/
theorem outputs_serve (ticks : Nat) (r : Roster) :
    Machine.outputs step shown r (List.replicate ticks .schedulerTick) =
      (r.waiting.take ticks).map .dispatched := by
  induction ticks generalizing r with
  | zero => simp [Machine.outputs]
  | succ ticks ih =>
    rw [List.replicate_succ, Machine.outputs, shown, next_eq]
    show _ ++ Machine.outputs step shown r.serve _ = _
    rw [ih r.serve, waiting_serve]
    cases r.waiting <;> simp

/-- A run of ticks is the service, taken that many times. -/
theorem run_ticks (ticks : Nat) (r : Roster) :
    Machine.run step r (List.replicate ticks .schedulerTick) = serve^[ticks] r := by
  induction ticks generalizing r with
  | zero => rfl
  | succ ticks ih => rw [List.replicate_succ, Machine.run_cons, ih, Function.iterate_succ_apply]; rfl

end Roster

namespace Kernel

/-- The row at the place of a live slot is the process of the slot. -/
theorem roster_row (k : Kernel) {slot : Slot} (live : slot.val < k.pcbs.count) :
    k.roster.rows[slot.val]? = some (k.pcb slot) :=
  SlotArray.getElem?_entries _ slot live

/-- Between two states the processes at some places were dispatched, and nothing else has changed. -/
structure DispatchesAll (k k' : Kernel) (served : List Nat) : Prop where
  count : k'.pcbCount = k.pcbCount
  resources : k'.resources = k.resources
  rows : ∀ slot : Slot, slot.val < k.pcbCount → k'.pcb slot =
    if slot.val ∈ served then
      { k.pcb slot with state := stateRunning, coreId := assignedCore k.resources }
    else k.pcb slot

/-- So many ticks in a row dispatch the first so many of those who wait, in their order. -/
structure ServesInOrder (k : Kernel) (ticks : Nat) : Prop where
  order : Machine.outputs step shown k (List.replicate ticks .schedulerTick) =
    (k.roster.waiting.take ticks).map .dispatched
  all : DispatchesAll k (Machine.run step k (List.replicate ticks .schedulerTick))
    (k.roster.waiting.take ticks)
  /-- The others go on waiting. -/
  left : (Machine.run step k (List.replicate ticks .schedulerTick)).roster.waiting =
    k.roster.waiting.drop ticks

theorem Filed.servesInOrder {k : Kernel} (filed : Filed k) (ticks : Nat) : ServesInOrder k ticks := by
  obtain ⟨after, shows⟩ := roster_run filed (List.replicate ticks .schedulerTick)
  obtain ⟨waiting, resources, length, rows⟩ := k.roster.run_serve ticks
  rw [Roster.run_ticks] at after
  rw [← after] at waiting resources length rows
  have count : (Machine.run Kernel.step k (List.replicate ticks .schedulerTick)).pcbCount = k.pcbCount := by
    simpa [pcbCount] using length
  refine ⟨by rw [shows, Roster.outputs_serve], ⟨count, resources, fun slot live => ?_⟩, waiting⟩
  have row := rows slot.val
  rw [roster_row _ (Nat.lt_of_lt_of_eq live count.symm), roster_row k live] at row
  split at row
  · rename_i served
    rw [if_pos served, Option.some.inj row, Roster.dispatched, Process.setState, copyInto_states.2.1]
    rfl
  · rename_i left
    rw [if_neg left, Option.some.inj row]

/-- From every reachable state, ticks in a row serve those who wait in the order of the queues. -/
theorem servesInOrder_run (ramMb hddMb cores : Int) (ops : List KernelOp) (ticks : Nat) :
    ServesInOrder (Machine.run step (boot ramMb hddMb cores) ops) ticks :=
  (filed_run ramMb hddMb cores ops).servesInOrder ticks

end Kernel

end Nebula
