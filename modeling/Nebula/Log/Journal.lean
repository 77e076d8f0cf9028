import Nebula.Kernel.Rows
import Nebula.Library.Machine
import Nebula.Log.Readings
import Nebula.Requests.AllOrNothing
import Nebula.Resources.Bounds

/-! The kernel and its log, whose lines come some time after what they tell. -/

namespace Nebula

open CText

/-- A REQ with a name that the handler keeps whole and amounts that are not negative. -/
structure NamedRequest where
  name : Bytes
  ram : Int
  hdd : Int
  plain : ∀ byte ∈ name, byte ≠ 0 ∧ byte ≠ ch ':'
  short : name.length ≤ 62
  ramFits : 0 ≤ ram ∧ ram ≤ intMax
  hddFits : 0 ≤ hdd ∧ hdd ≤ intMax

/-- An int that is not negative. -/
theorem inInt_of_unsigned {value : Int} (fits : 0 ≤ value ∧ value ≤ intMax) : InInt value := by
  obtain ⟨positive, small⟩ := fits
  exact ⟨by unfold intMin; omega, small⟩

namespace NamedRequest

theorem ramInInt (r : NamedRequest) : InInt r.ram := inInt_of_unsigned r.ramFits

theorem hddInInt (r : NamedRequest) : InInt r.hdd := inInt_of_unsigned r.hddFits

/-- The name and the two numbers fit the buffer of the message. -/
theorem textFits (r : NamedRequest) : (requestText r.name r.ram r.hdd).length < 256 := by
  have ram := decimal_length r.ramInInt
  have hdd := decimal_length r.hddInInt
  have name := r.short
  have mark : (ascii "REQ:").length = 4 := rfl
  simp only [requestText, List.length_append, List.length_cons, mark]
  omega

/-- The message that send_resource_request writes for it. -/
def message (r : NamedRequest) : ResourceMessage where
  name := r.name
  ram := r.ram
  hdd := r.hdd
  plain := r.plain
  ramFits := r.ramInInt
  hddFits := r.hddInInt
  short := r.textFits

/-- What the handler reads out of the message. -/
def request (r : NamedRequest) : ResourceRequest := ⟨r.name, r.ram, r.hdd⟩

theorem requestOf_message (r : NamedRequest) (stack : Bytes) :
    requestOf stack r.message.text = some r.request := by
  -- The name fits the buffer of the handler, so nothing of the stack is read behind it.
  have short : r.name.length < 63 := by
    have := r.short
    omega
  rw [r.message.requestOf_text stack, ResourceMessage.request, localName]
  show some (⟨if r.name.length < 63 then r.name else _, r.ram, r.hdd⟩ : ResourceRequest) = _
  rw [if_pos short]
  rfl

end NamedRequest

/-- The kernel with its threads, the entries that are still to be appended to the log, and the log. -/
structure Journal where
  sections : Sections
  pending : List LogEntry
  log : Bytes

/-- What can happen to the kernel and to the log. -/
inductive JournalOp where
  /-- A handler has read a REQ, on some stack. -/
  | request (childPid : Int) (stack : Bytes) (request : NamedRequest)
  /-- remove_pcb is called. -/
  | remove (pid : Int)
  /-- A thread runs its next lock section. -/
  | turn (index : Nat)
  | schedulerTick
  | agingTick
  | sendInterrupt (pid : Int)
  | unblockAfterDelay (pid : Int)
  | sendMinimize (pid : Int)
  | sendResume (pid : Int)
  /-- log_event appends the line of an entry. -/
  | append (index : Nat) (time : ClockTime)
  /-- write_snapshot appends its line. -/
  | snapshot (date : ClockDate) (time : ClockTime) (active pid : Int)

namespace Journal

/--
What a lock section has the thread log.

The line about a removal follows the reclamation, so it may be as late as the code has it.
-/
def turnEntries (s : Sections) (index : Nat) : List LogEntry :=
  match s.workers[index]? with
  | some (.requesting _ request) =>
    if (s.kernel.allocateResources request.ram request.hdd).1 then [.allocated request.amounts] else []
  | some (.granted childPid request) => [.created childPid request.name]
  | some (.removing pid) => if (s.kernel.deletePcb pid).1.isSome then [.terminated pid] else []
  | some (.removed amounts) => [.reclaimed amounts]
  | _ => []

/-- What dispatch_process and unblock_after_delay log. -/
def kernelEntries (k : Kernel) : KernelOp → List LogEntry
  | .schedulerTick =>
    match k.dispatchTarget with
    | none => []
    | some slot => [.contextSwitch (k.pcb slot).pid (k.pcb slot).name (assignedCore k.resources)]
  | .unblockAfterDelay pid =>
    match k.findPcb fun p => p.pid == pid && looksBlocked p.state with
    | none => []
    | some _ => [.interruptResolved pid]
  | _ => []

/-- A step of the kernel, with what it logs. -/
def act (j : Journal) (op : KernelOp) : Journal :=
  { j with
    sections := { j.sections with kernel := j.sections.kernel.step op }
    pending := j.pending ++ kernelEntries j.sections.kernel op }

def step (j : Journal) : JournalOp → Journal
  | .request childPid stack r =>
    { j with sections := j.sections.step (.handle childPid stack r.message.text) }
  | .remove pid => { j with sections := j.sections.step (.remove pid) }
  | .turn index =>
    { j with
      sections := j.sections.step (.turn index)
      pending := j.pending ++ turnEntries j.sections index }
  | .schedulerTick => j.act .schedulerTick
  | .agingTick => j.act .agingTick
  | .sendInterrupt pid => j.act (.sendInterrupt pid)
  | .unblockAfterDelay pid => j.act (.unblockAfterDelay pid)
  | .sendMinimize pid => j.act (.sendMinimize pid)
  | .sendResume pid => j.act (.sendResume pid)
  | .append index time =>
    match j.pending[index]? with
    | none => j
    | some entry =>
      { j with pending := j.pending.eraseIdx index, log := j.log ++ logLine time entry.message }
  | .snapshot date time active pid => { j with log := j.log ++ snapshotLine date time active pid }

/-- The machine after init_logger and init_resources. -/
def start (ramMb hddMb cores : Int) (time : ClockTime) : Journal where
  sections := Sections.start ramMb hddMb cores
  pending := []
  log := logLine time (LogEntry.resources ramMb hddMb cores).message

/-- No operation is between its counter update and its log line. -/
def Settled (j : Journal) : Prop :=
  ∀ amounts, .allocated amounts ∉ j.pending ∧ .reclaimed amounts ∉ j.pending

/-- The totals and the free amounts of the kernel, as the dashboard shows them. -/
def gauge (j : Journal) : Gauge :=
  let r := j.sections.kernel.resources
  ⟨r.totalRam, r.totalHdd, r.freeRam, r.freeHdd⟩

end Journal

namespace Worker

/-- What a thread has been granted or has deleted and not passed on. -/
def inFlight : Worker → Option Amounts
  | .granted _ request => some request.amounts
  | .removed amounts => some amounts
  | _ => none

/-- The threads that well-formed requests and removals start. -/
def Fair : Worker → Prop
  | .reading _ _ message => ∃ r : NamedRequest, message = r.message.text
  | .requesting _ request | .granted _ request => ∃ r : NamedRequest, request = r.request
  | _ => True

end Worker

namespace Kernel.Charged

variable {held : Multiset Amounts} {resources : Resources}

theorem of_eq {same : Multiset Amounts} (charged : Charged held resources) (equal : held = same) :
    Charged same resources := equal ▸ charged

/-- What is no longer recorded anywhere stays charged. -/
theorem forget {amounts : Amounts} (charged : Charged (amounts ::ₘ held) resources) :
    Charged held resources := by
  obtain ⟨positive, ram, hdd, ramFree, hddFree, ramFits, hddFits⟩ := charged
  have own := positive amounts (Multiset.mem_cons_self _ _)
  simp only [Multiset.map_cons, Multiset.sum_cons] at ram hdd
  exact ⟨fun other member => positive other (Multiset.mem_cons_of_mem member), by omega, by omega,
    ramFree, hddFree, ramFits, hddFits⟩

/-- What is given back becomes free. -/
theorem reclaim {amounts : Amounts} (charged : Charged (amounts ::ₘ held) resources) :
    Charged held { resources with
      freeRam := resources.freeRam + amounts.1, freeHdd := resources.freeHdd + amounts.2 } := by
  obtain ⟨positive, ram, hdd, ramFree, hddFree, ramFits, hddFits⟩ := charged
  have own := positive amounts (Multiset.mem_cons_self _ _)
  simp only [Multiset.map_cons, Multiset.sum_cons] at ram hdd
  exact ⟨fun other member => positive other (Multiset.mem_cons_of_mem member), by dsimp only; omega,
    by dsimp only; omega, by dsimp only; omega, by dsimp only; omega, ramFits, hddFits⟩

/-- What is recorded is not negative as a whole either. -/
theorem sums (charged : Charged held resources) :
    0 ≤ (held.map Prod.fst).sum ∧ 0 ≤ (held.map Prod.snd).sum := by
  -- None of the amounts is negative, so their sum is not.
  constructor
  · apply Multiset.sum_nonneg
    intro value listed
    obtain ⟨amounts, member, rfl⟩ := Multiset.mem_map.mp listed
    exact (charged.positive amounts member).1
  · apply Multiset.sum_nonneg
    intro value listed
    obtain ⟨amounts, member, rfl⟩ := Multiset.mem_map.mp listed
    exact (charged.positive amounts member).2

/-- What is recorded fits the machine, so it fits an int. -/
theorem fits (charged : Charged held resources) {amounts : Amounts} (member : amounts ∈ held) :
    InInt amounts.1 ∧ InInt amounts.2 := by
  obtain ⟨rest, rfl⟩ := Multiset.exists_cons_of_mem member
  -- The others are not negative, so this one is at most the sum.
  have others := charged.forget.sums
  obtain ⟨positive, ram, hdd, ramFree, hddFree, ramFits, hddFits⟩ := charged
  have own := positive amounts (Multiset.mem_cons_self _ _)
  simp only [Multiset.map_cons, Multiset.sum_cons] at ram hdd
  exact ⟨inInt_of_unsigned ⟨own.1, by omega⟩, inInt_of_unsigned ⟨own.2, by omega⟩⟩

/-- The free amounts fit an int, so adding nothing to them does not wrap. -/
theorem wrapped_free (charged : Charged held resources) :
    wrapped resources.freeRam = resources.freeRam ∧ wrapped resources.freeHdd = resources.freeHdd := by
  -- The free amounts are between nothing and the totals of the machine.
  have others := charged.sums
  obtain ⟨-, ram, hdd, ramFree, hddFree, ramFits, hddFits⟩ := charged
  unfold intMax at ramFits hddFits
  constructor
  · exact Int.bmod_eq_of_le (by omega) (by omega)
  · exact Int.bmod_eq_of_le (by omega) (by omega)

end Kernel.Charged

end Nebula
