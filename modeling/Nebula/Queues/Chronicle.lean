import Nebula.Queues.Dispatch

/-! The kernel with a memory of when each live process was created. -/

namespace Nebula

/-- What is remembered of the creation of a process. -/
structure Birth where
  /-- How many processes had been created before it. -/
  number : Nat
  /-- The level it was created with. -/
  level : QueueLevel
  deriving DecidableEq, Repr

instance : Inhabited Birth := ⟨⟨0, .system⟩⟩

/--
The kernel with the births of its live processes in table order.

No step reads the births, which only tell the processes apart.
-/
structure Chronicle where
  kernel : Kernel
  births : List Birth
  /-- How many processes have been created so far. -/
  created : Nat

namespace Chronicle

/-- A step of the kernel, with the births moved as the rows of the table are. -/
def step (c : Chronicle) (op : KernelOp) : Chronicle :=
  match c.kernel.tableEdit op with
  | .keeps => { c with kernel := c.kernel.step op }
  | .adds level => ⟨c.kernel.step op, c.births ++ [⟨c.created, level⟩], c.created + 1⟩
  | .drops slot =>
    { c with kernel := c.kernel.step op, births := c.births.eraseIdx slot.val }

/-- The configured machine, on which nothing was created yet. -/
def boot (ramMb hddMb cores : Int) : Chronicle := ⟨Kernel.boot ramMb hddMb cores, [], 0⟩

/-- The live processes with their births. -/
def records (c : Chronicle) : List (Birth × Process) := c.births.zip c.kernel.pcbs.entries

/-- The birth of the process in a live slot. -/
def birth (c : Chronicle) (slot : Slot) : Birth := c.births.getD slot.val default

/-- The number of the process in a live slot. -/
def number (c : Chronicle) (slot : Slot) : Nat := (c.birth slot).number

/-- A queue read from front to rear, as the numbers of its processes. -/
def line (c : Chronicle) (level : QueueLevel) : List Nat := (c.kernel.queue level).toList.map c.number

/-- The numbers of the processes of a level in table order. -/
def roll (c : Chronicle) (level : QueueLevel) : List Nat :=
  (c.records.filter fun record => record.2.queueLevel == level).map fun record => record.1.number

/-- The births are those of the live slots, and they increase along the table. -/
structure Numbered (c : Chronicle) : Prop where
  settled : c.kernel.Settled
  aligned : c.births.length = c.kernel.pcbs.count
  sorted : (c.births.map Birth.number).Pairwise (· < ·)
  older : ∀ birth ∈ c.births, birth.number < c.created

/-- What a step does to the records, with the same cases as for the rows of the table. -/
inductive RecordStep (op : KernelOp) (c c' : Chronicle) : Prop where
  | keeps (edit : c.kernel.tableEdit op = .keeps) (births : c'.births = c.births)
      (created : c'.created = c.created)
      (records : List.Forall₂ (fun old new => new.1 = old.1 ∧ RowEdit op old.2 new.2) c.records
        c'.records)
  | adds (p : Process) (edit : c.kernel.tableEdit op = .adds p.queueLevel)
      (ready : p.state = stateReady) (unaged : p.waitTime = 0)
      (ranked : ∀ childPid stack message, op = .handleIpcRequest childPid stack message →
        p.priority = defaultPriority p.queueLevel)
      (births : c'.births = c.births ++ [⟨c.created, p.queueLevel⟩])
      (created : c'.created = c.created + 1)
      (records : c'.records = c.records ++ [(⟨c.created, p.queueLevel⟩, p)])
  | drops (slot : Slot) (edit : c.kernel.tableEdit op = .drops slot)
      (live : slot.val < c.kernel.pcbs.count) (births : c'.births = c.births.eraseIdx slot.val)
      (created : c'.created = c.created) (records : c'.records = c.records.eraseIdx slot.val)

@[simp] theorem step_kernel (c : Chronicle) (op : KernelOp) :
    (c.step op).kernel = c.kernel.step op := by
  unfold step
  split <;> rfl

/-- The numbers handed out only grow. -/
theorem created_le (c : Chronicle) (op : KernelOp) : c.created ≤ (c.step op).created := by
  unfold step
  split
  · exact Nat.le_refl _
  · exact Nat.le_succ _
  · exact Nat.le_refl _

/-- The kernel of a chronicle runs as the kernel does. -/
theorem run_kernel (c : Chronicle) (ops : List KernelOp) :
    (Machine.run step c ops).kernel = Machine.run Kernel.step c.kernel ops :=
  Machine.run_abstract step_kernel c ops

/-- Every step moves the records as its edit moves the rows. -/
theorem step_records {c : Chronicle} (numbered : Numbered c) (op : KernelOp) :
    RecordStep op c (c.step op) := by
  have table := c.kernel.step_table op
  have aligned : c.births.length = c.kernel.pcbs.entries.length := by
    rw [SlotArray.length_entries]
    exact numbered.aligned
  unfold step
  generalize edited : c.kernel.tableEdit op = edit at table
  -- The births are moved with the rows, so each process keeps its own.
  cases table with
  | keeps rows => exact .keeps edited rfl rfl (Tagged.zip_forall₂ rows c.births)
  | adds p ready unaged room ranked rows =>
    refine .adds p edited ready unaged ranked rfl rfl ?_
    dsimp only [records]
    rw [rows, Tagged.zip_snoc aligned]
  | drops slot live rows =>
    refine .drops slot edited live rfl rfl ?_
    dsimp only [records]
    rw [rows, Tagged.zip_eraseIdx]

theorem Numbered.step {c : Chronicle} (numbered : Numbered c) (op : KernelOp) :
    Numbered (c.step op) := by
  have settled : (c.step op).kernel.Settled := by
    rw [step_kernel]
    exact numbered.settled.step op
  -- The births change with the rows, so both keep the same length.
  have table := c.kernel.step_table op
  have counted : ∀ k : Kernel, k.pcbs.entries.length = k.pcbs.count := fun k => k.pcbs.length_entries
  have aligned : (c.step op).births.length = (c.step op).kernel.pcbs.count := by
    rw [step_kernel, ← counted]
    unfold Chronicle.step
    generalize edited : c.kernel.tableEdit op = edit at table
    cases table with
    | keeps rows => exact numbered.aligned.trans ((counted _).symm.trans rows.length_eq)
    | adds p ready unaged room ranked rows => simp [rows, numbered.aligned]
    | drops slot live rows =>
      simp only [rows, List.length_eraseIdx, counted, numbered.aligned]
  refine ⟨settled, aligned, ?_, ?_⟩
  · cases step_records numbered op with
    | keeps edit births created records =>
      rw [births]
      exact numbered.sorted
    | adds p edit ready unaged ranked births created records =>
      -- The new number is above all the others.
      rw [births, List.map_append, List.pairwise_append]
      refine ⟨numbered.sorted, List.pairwise_singleton _ _, fun number old new here => ?_⟩
      obtain ⟨birth, member, rfl⟩ := List.mem_map.mp old
      rw [List.map_cons, List.map_nil, List.mem_singleton] at here
      rw [here]
      exact numbered.older birth member
    | drops slot edit live births created records =>
      rw [births]
      exact numbered.sorted.sublist ((List.eraseIdx_sublist _ _).map _)
  · cases step_records numbered op with
    | keeps edit births created records =>
      rw [births, created]
      exact numbered.older
    | adds p edit ready unaged ranked births created records =>
      intro birth member
      rw [births, List.mem_append, List.mem_singleton] at member
      rw [created]
      rcases member with old | rfl
      · exact Nat.lt_succ_of_lt (numbered.older birth old)
      · exact Nat.lt_succ_self _
    | drops slot edit live births created records =>
      intro birth member
      rw [births] at member
      rw [created]
      exact numbered.older birth (List.mem_of_mem_eraseIdx member)

theorem numbered_boot (ramMb hddMb cores : Int) : Numbered (boot ramMb hddMb cores) :=
  ⟨Kernel.settled_boot ramMb hddMb cores, rfl, List.Pairwise.nil,
    fun _ member => absurd member List.not_mem_nil⟩

/-- A process further down the table was created later. -/
theorem Numbered.number_lt {c : Chronicle} (numbered : Numbered c) {older newer : Slot}
    (before : older < newer) (live : newer.val < c.kernel.pcbs.count) :
    c.number older < c.number newer := by
  have inside : newer.val < c.births.length := by
    rw [numbered.aligned]
    exact live
  have inside' : older.val < c.births.length := Nat.lt_trans before inside
  have sorted := List.pairwise_iff_getElem.mp numbered.sorted older.val newer.val
    (by simpa using inside') (by simpa using inside) before
  simpa [number, birth, inside, inside'] using sorted

/-- A live process was created before the next one will be. -/
theorem Numbered.number_lt_created {c : Chronicle} (numbered : Numbered c) {slot : Slot}
    (live : slot.val < c.kernel.pcbs.count) : c.number slot < c.created := by
  have inside : slot.val < c.births.length := by
    rw [numbered.aligned]
    exact live
  have member := numbered.older c.births[slot.val] (List.getElem_mem inside)
  simpa [number, birth, inside] using member

/-- Two live processes were created in the order in which they are in the table. -/
theorem Numbered.number_le_iff {c : Chronicle} (numbered : Numbered c) {first second : Slot}
    (live : first.val < c.kernel.pcbs.count) (live' : second.val < c.kernel.pcbs.count) :
    c.number first ≤ c.number second ↔ first ≤ second := by
  rcases lt_trichotomy first second with before | rfl | after
  · exact ⟨fun _ => le_of_lt before, fun _ => le_of_lt (numbered.number_lt before live')⟩
  · exact ⟨fun _ => le_refl _, fun _ => le_refl _⟩
  · exact ⟨fun less => absurd (numbered.number_lt after live) (Nat.not_lt.mpr less),
      fun less => absurd after (not_lt.mpr less)⟩

/-- The records are those of the live slots, in table order. -/
theorem Numbered.records_eq {c : Chronicle} (numbered : Numbered c) :
    c.records = c.kernel.pcbs.slots.map fun slot => (c.birth slot, c.kernel.pcb slot) := by
  have aligned := numbered.aligned
  apply List.ext_getElem
  · simp [records, aligned]
  · intro index inside _
    -- The walk visits each slot at the position of its number.
    have here : index < c.births.length := by
      simp only [records, List.length_zip, Nat.lt_min] at inside
      exact inside.1
    simp [records, SlotArray.entries, SlotArray.slots, birth, Kernel.pcb, here]

theorem Numbered.mem_records {c : Chronicle} (numbered : Numbered c) {record : Birth × Process} :
    record ∈ c.records ↔ ∃ slot : Slot, slot.val < c.kernel.pcbs.count ∧
      (c.birth slot, c.kernel.pcb slot) = record := by
  simp [numbered.records_eq]

/-- The roll of a level lists the numbers of its live slots. -/
theorem Numbered.roll_eq {c : Chronicle} (numbered : Numbered c) (level : QueueLevel) :
    c.roll level = (c.kernel.slotsAt level).map c.number := by
  rw [roll, numbered.records_eq, List.filter_map, List.map_map]
  rfl

/-- The roll of a level is in the order of creation. -/
theorem Numbered.sorted_roll {c : Chronicle} (numbered : Numbered c) (level : QueueLevel) :
    (c.roll level).Pairwise (· < ·) := by
  rw [numbered.roll_eq, List.pairwise_map]
  -- Along the table the slots and the numbers grow together.
  refine (c.kernel.sorted_slotsAt level).imp_of_mem fun _ later before => ?_
  exact numbered.number_lt before (Kernel.mem_slotsAt.mp later).1

/-- Live processes with the same number are in the same slot. -/
theorem Numbered.number_inj {c : Chronicle} (numbered : Numbered c) {first second : Slot}
    (live : first.val < c.kernel.pcbs.count) (live' : second.val < c.kernel.pcbs.count)
    (same : c.number first = c.number second) : first = second :=
  le_antisymm ((numbered.number_le_iff live live').mp (le_of_eq same))
    ((numbered.number_le_iff live' live).mp (le_of_eq same.symm))

/-- A process in the table after a step is the one just created, or it was in some slot before. -/
theorem Numbered.traced {c : Chronicle} (numbered : Numbered c) (op : KernelOp)
    {record : Birth × Process} (member : record ∈ (c.step op).records) :
    record.1.number = c.created ∨ ∃ slot : Slot, slot.val < c.kernel.pcbs.count ∧
      c.kernel.tableEdit op ≠ .drops slot ∧ record.1 = c.birth slot ∧
      RowEdit op (c.kernel.pcb slot) record.2 := by
  cases step_records numbered op with
  | keeps edit births created records =>
    obtain ⟨old, listed, same, edited⟩ := Tagged.exists_before records member
    obtain ⟨slot, live, rfl⟩ := numbered.mem_records.mp listed
    exact Or.inr ⟨slot, live, by simp [edit], same, edited⟩
  | adds p edit ready unaged ranked births created records =>
    rw [records, List.mem_append, List.mem_singleton] at member
    rcases member with old | rfl
    · obtain ⟨slot, live, rfl⟩ := numbered.mem_records.mp old
      refine Or.inr ⟨slot, live, by simp [edit], rfl, .kept ?_⟩
      -- A tick adds nothing.
      rintro rfl
      cases edit
    · exact Or.inl rfl
  | drops slot edit live births created records =>
    rw [records, numbered.records_eq, SlotArray.mem_eraseIdx_map_slots] at member
    obtain ⟨other, live', apart, rfl⟩ := member
    refine Or.inr ⟨other, live', ?_, rfl, .kept ?_⟩
    · rw [edit]
      exact fun same => apart (TableEdit.drops.inj same).symm
    · rintro rfl
      cases edit

theorem Numbered.record_lt_created {c : Chronicle} (numbered : Numbered c)
    {record : Birth × Process} (member : record ∈ c.records) : record.1.number < c.created :=
  numbered.older record.1 (List.of_mem_zip member).1

/-- Two records with the same number are the same record. -/
theorem Numbered.record_eq {c : Chronicle} (numbered : Numbered c) {first second : Birth × Process}
    (here : first ∈ c.records) (there : second ∈ c.records)
    (same : first.1.number = second.1.number) : first = second := by
  obtain ⟨slot, live, rfl⟩ := numbered.mem_records.mp here
  obtain ⟨other, live', rfl⟩ := numbered.mem_records.mp there
  obtain rfl : slot = other := numbered.number_inj live live' same
  rfl

/-- A process that was in the table before a step had a record with the same birth. -/
theorem Numbered.came_from {c : Chronicle} (numbered : Numbered c) (op : KernelOp)
    {record : Birth × Process} (member : record ∈ (c.step op).records)
    (old : record.1.number < c.created) :
    ∃ before ∈ c.records, before.1 = record.1 ∧ RowEdit op before.2 record.2 := by
  rcases numbered.traced op member with new | ⟨slot, live, -, birth, edited⟩
  · omega
  · exact ⟨_, numbered.mem_records.mpr ⟨slot, live, rfl⟩, birth.symm, edited⟩

end Chronicle

end Nebula
