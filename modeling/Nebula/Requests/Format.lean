import Nebula.Library.Stdio
import Nebula.Requests.AllOrNothing

/-! The format of a REQ message: what its sender prints, and what the handler takes for one. -/

namespace Nebula

open CText

/-- A name that neither ends a C string nor a field. -/
def Unbroken (name : Bytes) : Prop := ∀ byte ∈ name, byte ≠ 0 ∧ byte ≠ ch ':'

instance (name : Bytes) : Decidable (Unbroken name) := inferInstanceAs (Decidable (∀ byte ∈ name, _))

/-- A non-negative decimal number that an int holds. -/
structure IsAmount (field : Bytes) : Prop where
  present : field ≠ []
  digits : ∀ byte ∈ field, isDigit byte = true
  fits : (leadingNat field : Int) ≤ intMax

/-- The documented form REQ:<task_name>:<RAM_MB>:<HDD_MB>. -/
def WellFormed (message : Bytes) : Prop :=
  ∃ name ram hdd, message = requestOfFields name ram hdd ∧ name ≠ [] ∧ Unbroken name ∧ IsAmount ram ∧ IsAmount hdd

/-- A well-formed message is read whole. -/
theorem WellFormed.readText {message : Bytes} (formed : WellFormed message) (short : message.length ≤ 511) :
    readText message = message := by
  obtain ⟨name, ram, hdd, rfl, -, plain, amount, amount'⟩ := formed
  -- Digits are no terminators.
  exact readText_requestOfFields short (fun byte inName => (plain byte inName).1)
    (fun byte inRam => (isDigit_apart (amount.digits byte inRam)).2.2.2.2)
    (fun byte inHdd => (isDigit_apart (amount'.digits byte inHdd)).2.2.2.2)

theorem WellFormed.requestOf {message : Bytes} (formed : WellFormed message) (short : message.length ≤ 511)
    (stack : Bytes) : ∃ request, requestOf stack message = some request := by
  have whole := formed.readText short
  obtain ⟨name, ram, hdd, rfl, -, plain, amount, -⟩ := formed
  refine ⟨_, requestOf_eq_some.mpr ⟨name, ram, hdd, whole, fun member => (plain _ member).2 rfl, fun member => ?_, rfl⟩⟩
  exact (isDigit_apart (amount.digits _ member)).2.2.2.1 rfl

/-- A name that fits an array of MAX_NAME bytes makes a message of a size that the sender's buffer holds. -/
theorem length_requestText {name : Bytes} {ram hdd : Int} (short : name.length ≤ maxName - 1) (ramFits : InInt ram)
    (hddFits : InInt hdd) : (requestText name ram hdd).length < 256 := by
  have printed := decimal_length ramFits
  have printed' := decimal_length hddFits
  have begins : (ascii "REQ:").length = 4 := rfl
  simp only [requestText, List.length_append, List.length_cons]
  unfold maxName at short
  omega

/-- The handler reads back the amounts, and the name as its local array has it. -/
theorem requestOf_requestText (stack : Bytes) {name : Bytes} {ram hdd : Int} (plain : Unbroken name)
    (short : name.length ≤ maxName - 1) (ramFits : InInt ram) (hddFits : InInt hdd) :
    requestOf stack (requestText name ram hdd) = some ⟨localName stack name, ram, hdd⟩ :=
  ResourceMessage.requestOf_text
    ⟨name, ram, hdd, plain, ramFits, hddFits, length_requestText short ramFits hddFits⟩ stack

/-- The local array holds the name alone if the name leaves room for a terminator or happens to find one. -/
theorem localName_eq_self {stack name : Bytes} (short : name.length ≤ maxName - 1) :
    localName stack name = name ↔ name.length < maxName - 1 ∨ charAt stack 0 = 0 := by
  unfold maxName at short ⊢
  -- Nothing is read on exactly if the first byte behind is a terminator.
  have empty : cstring stack = [] ↔ charAt stack 0 = 0 := by
    cases stack with
    | nil => exact ⟨fun _ => rfl, fun _ => rfl⟩
    | cons byte rest => by_cases zero : byte = 0 <;> simp [cstring, charAt, zero]
  rw [localName]
  split
  · rename_i room
    exact ⟨fun _ => Or.inl room, fun _ => rfl⟩
  · rename_i full
    rw [List.take_of_length_le short, List.append_right_eq_self, empty]
    exact ⟨Or.inr, fun either => either.resolve_left full⟩

/-- A name of more than 18 bytes is none of those that get_queue_level knows. -/
theorem getQueueLevel_long {name : Bytes} (long : 18 < name.length) : getQueueLevel name = .background := by
  -- The longest name it compares with has 18 bytes.
  have known : ∀ other ∈ ascii "Clock" :: ascii "Log Daemon" :: interactiveNames, other.length ≤ 18 := by
    decide
  have unknown : name ∉ ascii "Clock" :: ascii "Log Daemon" :: interactiveNames := fun member =>
    absurd (known name member) (Nat.not_le.mpr long)
  rw [List.mem_cons, List.mem_cons, ← or_assoc, not_or] at unknown
  rw [getQueueLevel, if_neg unknown.1, if_neg unknown.2]

/-- Neither the level nor what the table keeps of a name depends on what stands behind it in the array. -/
theorem localName_kept (stack : Bytes) {name : Bytes} (plain : Unbroken name) (short : name.length ≤ maxName - 1) :
    getQueueLevel (localName stack name) = getQueueLevel name ∧
      copyInto maxName (localName stack name) = copyInto maxName name := by
  unfold maxName at short ⊢
  have whole := cstring_plain fun byte member => (plain byte member).1
  rw [localName]
  split
  · exact ⟨rfl, rfl⟩
  · rename_i full
    rw [List.take_of_length_le short]
    -- With or without more bytes such a name is unknown, and is cut at 63 bytes.
    constructor
    · rw [getQueueLevel_long (by rw [List.length_append]; omega), getQueueLevel_long (by omega)]
    · rw [copyInto, copyInto, whole, cstring,
        List.takeWhile_append_of_pos fun byte member => bne_iff_ne.mpr (plain byte member).1,
        List.take_append_of_le_length (by omega)]

namespace Kernel

/--
The message of a request comes back out of the handler.

What is recovered is what get_queue_level, allocate_resources and create_pcb are called with.
-/
structure RoundTrips (k : Kernel) (childPid : Int) (stack name : Bytes) (ram hdd : Int) : Prop where
  recovered : requestOf stack (requestText name ram hdd) = some ⟨name, ram, hdd⟩
  stored : (k.allocateResources ram hdd).1 = true → ∀ room : k.pcbs.count < maxProcesses,
    ((k.handleIpcRequest childPid stack (requestText name ram hdd)).2.pcb (k.pcbs.nextSlot room)).name = name

/-- Whatever stands behind the name, the handler answers and files the request that was sent. -/
theorem handleIpcRequest_requestText (k : Kernel) (childPid : Int) (stack : Bytes) {name : Bytes} {ram hdd : Int}
    (plain : Unbroken name) (short : name.length ≤ maxName - 1) (ramFits : InInt ram) (hddFits : InInt hdd) :
    k.handleIpcRequest childPid stack (requestText name ram hdd) =
      (some (k.handleRequest childPid ⟨name, ram, hdd⟩).1, (k.handleRequest childPid ⟨name, ram, hdd⟩).2) := by
  obtain ⟨level, kept⟩ := localName_kept stack plain short
  -- The new process depends on the name only by its level and by what the table keeps of it.
  have created : ∀ k : Kernel, k.createRequested childPid ⟨localName stack name, ram, hdd⟩ =
      k.createRequested childPid ⟨name, ram, hdd⟩ := by
    intro k
    simp only [createRequested, createPcb, newProcess, level, kept]
  rw [handleIpcRequest, requestOf_requestText stack plain short ramFits hddFits]
  dsimp only [handleRequest]
  split
  · rw [created]
  · rfl

/-- A granted request is stored under its name. -/
theorem stored_requestText {k : Kernel} (childPid : Int) (stack : Bytes) {name : Bytes} {ram hdd : Int}
    (plain : Unbroken name) (short : name.length ≤ maxName - 1) (ramFits : InInt ram) (hddFits : InInt hdd)
    (free : (k.allocateResources ram hdd).1 = true) (room : k.pcbs.count < maxProcesses) :
    ((k.handleIpcRequest childPid stack (requestText name ram hdd)).2.pcb (k.pcbs.nextSlot room)).name = name := by
  rw [handleIpcRequest_requestText k childPid stack plain short ramFits hddFits]
  rcases k.allocateResources_cases ram hdd with ⟨-, -, granted⟩ | ⟨-, denied⟩
  · rw [handleRequest, granted]
    dsimp only
    rw [createRequested_pcb room _ childPid, newProcess, copyInto,
      cstring_plain fun byte member => (plain byte member).1, List.take_of_length_le short]
  · rw [denied] at free
    cases free

/--
For every name that the table can hold and all ints, a request round-trips exactly when its name is
shorter than 63 bytes, or the last byte of the local array, which nobody writes, happens to be 0.
-/
theorem roundTrips_iff (k : Kernel) (childPid : Int) (stack : Bytes) {name : Bytes} {ram hdd : Int}
    (plain : Unbroken name) (short : name.length ≤ maxName - 1) (ramFits : InInt ram) (hddFits : InInt hdd) :
    RoundTrips k childPid stack name ram hdd ↔ name.length < maxName - 1 ∨ charAt stack 0 = 0 := by
  rw [← localName_eq_self short]
  -- What is read is the name as the local array has it.
  have recovered := requestOf_requestText stack plain short ramFits hddFits
  constructor
  · intro trips
    have same := trips.recovered
    rw [recovered, Option.some.injEq, ResourceRequest.mk.injEq] at same
    exact same.1
  · intro same
    rw [same] at recovered
    exact ⟨recovered, stored_requestText childPid stack plain short ramFits hddFits⟩

theorem roundTrips_alarm : RoundTrips (boot 1024 1024 1) 101 (ascii "x") (ascii "Alarm") 10 (-5) :=
  (roundTrips_iff (boot 1024 1024 1) 101 (ascii "x") (by decide) (by decide) (by decide) (by decide)).mpr
    (Or.inl (by decide))

/-- A name of 63 bytes is passed on together with the byte behind it. -/
theorem longest_name_runs_on :
    ¬ RoundTrips (boot 1024 1024 1) 101 (ascii "x") (List.replicate 63 (ch 'a')) 10 5 := by
  intro trips
  have recovered := trips.recovered
  revert recovered
  decide +kernel

/-- The numbers that a text has in two fields behind the name, as atoi reads them, are not free. -/
def Exceeds (k : Kernel) (text : Bytes) : Prop :=
  ∃ name ram hdd, text = requestOfFields name ram hdd ∧ ch ':' ∉ name ∧ ch ':' ∉ ram ∧
    (k.resources.freeRam < atoi ram ∨ k.resources.freeHdd < atoi hdd)

/-- Text with two separators in it is a request of what atoi reads in its fields. -/
theorem Exceeds.requestOf {k : Kernel} {message : Bytes} (exceeds : k.Exceeds (readText message)) (stack : Bytes) :
    ∃ request, requestOf stack message = some request ∧
      ¬ (request.ram ≤ k.resources.freeRam ∧ request.hdd ≤ k.resources.freeHdd) := by
  obtain ⟨name, ram, hdd, text, fresh, fresh', above⟩ := exceeds
  refine ⟨_, requestOf_eq_some.mpr ⟨name, ram, hdd, text, fresh, fresh', rfl⟩, fun free => ?_⟩
  exact above.elim (Int.not_lt.mpr free.1) (Int.not_lt.mpr free.2)

end Kernel

end Nebula
