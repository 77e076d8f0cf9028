import Mathlib.Data.Multiset.Count
import Nebula.Kernel.Scheduler

/-! The core ledger: what the laws about processor cores see of the kernel. -/

namespace Nebula

open CText

/-- The two fields of a process that say whether it runs and on which core. -/
structure CoreHolding where
  state : Bytes
  core : Int
  deriving DecidableEq

/-- The core counters, and the holdings of the live processes in no order. -/
structure CoreLedger where
  total : Int
  free : Int
  holdings : Multiset CoreHolding

namespace CoreLedger

/-- How many processes hold a core. -/
def holders (l : CoreLedger) : Nat := l.holdings.countP fun h => 0 ≤ h.core

/-- How many processes are RUNNING. -/
def running (l : CoreLedger) : Nat := l.holdings.countP fun h => h.state = stateRunning

/-- The moves of the ledger that start nothing. -/
inductive Move (l : CoreLedger) : CoreLedger → Prop where
  | kept : Move l l
  | added : Move l { l with holdings := ⟨stateReady, -1⟩ ::ₘ l.holdings }
  | removed (h : CoreHolding) (rest : Multiset CoreHolding) (here : l.holdings = h ::ₘ rest) :
      Move l { l with holdings := rest }
  | woken (h : CoreHolding) (rest : Multiset CoreHolding) (here : l.holdings = h ::ₘ rest)
      (blocked : looksBlocked h.state = true) :
      Move l { l with holdings := ⟨stateReady, h.core⟩ ::ₘ rest }
  | stopped (h : CoreHolding) (rest : Multiset CoreHolding) (here : l.holdings = h ::ₘ rest)
      (text : Bytes) (stops : text = stateBlocked ∨ text = stateMinimized) :
      Move l { l with
        free := l.free + if h.core ≥ 0 then 1 else 0
        holdings := ⟨text, if h.core ≥ 0 then -1 else h.core⟩ ::ₘ rest }

/-- The ledger once a process beside the given others is RUNNING with a core number. -/
def starting (l : CoreLedger) (core : Int) (rest : Multiset CoreHolding) : CoreLedger :=
  { l with holdings := ⟨stateRunning, core⟩ ::ₘ rest }

/-- What every step keeps, whatever else goes wrong with the cores. -/
structure Sound (l : CoreLedger) : Prop where
  positive : 1 ≤ l.total
  /-- Nothing ever takes a core from the counter. -/
  surplus : l.total ≤ l.free
  known : ∀ h ∈ l.holdings, h.state ∈ [stateReady, stateRunning, stateBlocked, stateMinimized]
  /-- A core number is held by a RUNNING process only, and it is zero. -/
  held : ∀ h ∈ l.holdings, 0 ≤ h.core → h.state = stateRunning ∧ h.core = 0

/-- A process that passes the test for READY is READY and holds no core. -/
theorem Sound.ready {l : CoreLedger} (sound : Sound l) {h : CoreHolding} (member : h ∈ l.holdings)
    (ready : looksReady h.state = true) : h.state = stateReady ∧ h.core < 0 := by
  -- Of the four state texts only READY passes the test.
  have known := sound.known h member
  simp only [List.mem_cons, List.not_mem_nil, or_false] at known
  rcases known with isReady | other | other | other
  · refine ⟨isReady, Int.not_le.mp fun core => ?_⟩
    have running := (sound.held h member core).1
    exact states_ne.1 (isReady.symm.trans running)
  all_goals simp [other] at ready

/-- A process that passes the test for BLOCKED is not RUNNING and holds no core. -/
theorem Sound.blocked {l : CoreLedger} (sound : Sound l) {h : CoreHolding} (member : h ∈ l.holdings)
    (blocked : looksBlocked h.state = true) : h.state ≠ stateRunning ∧ h.core < 0 := by
  -- RUNNING fails the test, and only a RUNNING process has a core number.
  have idle : h.state ≠ stateRunning := by
    intro running
    simp [running] at blocked
  exact ⟨idle, Int.not_le.mp fun core => idle (sound.held h member core).1⟩

/-- Putting one holding in the place of another keeps the ledger sound. -/
theorem Sound.replaced {l : CoreLedger} (sound : Sound l) {h new : CoreHolding}
    {rest : Multiset CoreHolding} (here : l.holdings = h ::ₘ rest) {free : Int} (more : l.free ≤ free)
    (known : new.state ∈ [stateReady, stateRunning, stateBlocked, stateMinimized])
    (held : 0 ≤ new.core → new.state = stateRunning ∧ new.core = 0) :
    Sound { l with free := free, holdings := new ::ₘ rest } := by
  -- The other holdings were sound before, and the new one is by assumption.
  have old : ∀ other ∈ rest, other ∈ l.holdings := by
    intro other member
    rw [here]
    exact Multiset.mem_cons_of_mem member
  have surplus := sound.surplus
  refine ⟨sound.positive, by show l.total ≤ free; omega, fun other member => ?_, fun other member => ?_⟩
  · rcases Multiset.mem_cons.mp member with rfl | member
    · exact known
    · exact sound.known other (old other member)
  · rcases Multiset.mem_cons.mp member with rfl | member
    · exact held
    · exact sound.held other (old other member)

/-- A move that starts nothing keeps the ledger sound. -/
theorem Sound.move {l l' : CoreLedger} (sound : Sound l) (move : Move l l') : Sound l' := by
  cases move with
  | kept => exact sound
  -- The new process is READY and has no core.
  | added =>
    refine ⟨sound.positive, sound.surplus, fun other member => ?_, fun other member core => ?_⟩
    · rcases Multiset.mem_cons.mp member with rfl | member
      · simp
      · exact sound.known other member
    · rcases Multiset.mem_cons.mp member with rfl | member
      · exact absurd core (by decide)
      · exact sound.held other member core
  | removed h rest here =>
    have old : ∀ other ∈ rest, other ∈ l.holdings := by
      intro other member
      rw [here]
      exact Multiset.mem_cons_of_mem member
    exact ⟨sound.positive, sound.surplus, fun other member => sound.known other (old other member),
      fun other member => sound.held other (old other member)⟩
  | woken h rest here blocked =>
    -- A blocked process has no core to keep.
    have idle := (sound.blocked (by simp [here]) blocked).2
    exact sound.replaced here (Int.le_refl _) (by simp) (fun core => absurd core (Int.not_le.mpr idle))
  | stopped h rest here text stops =>
    refine sound.replaced here (by split <;> omega) ?_ (fun core => ?_)
    · rcases stops with rfl | rfl <;> simp
    · -- The core number that is left is negative in both cases.
      simp only at core
      split at core <;> omega

/-- Starting a process on core zero keeps the ledger sound. -/
theorem Sound.dispatched {l : CoreLedger} (sound : Sound l) {h : CoreHolding}
    {rest : Multiset CoreHolding} (here : l.holdings = h ::ₘ rest) : Sound (l.starting 0 rest) :=
  sound.replaced here (Int.le_refl _) (by simp) fun _ => ⟨rfl, rfl⟩

/-- Starting a process with the core number it had keeps the ledger sound. -/
theorem Sound.resumed {l : CoreLedger} (sound : Sound l) {h : CoreHolding}
    {rest : Multiset CoreHolding} (here : l.holdings = h ::ₘ rest) : Sound (l.starting h.core rest) :=
  sound.replaced here (Int.le_refl _) (by simp) fun core =>
    ⟨rfl, (sound.held h (by simp [here]) core).2⟩

/-- Such a move adds no holder of a core and no RUNNING process. -/
theorem Move.counts {l l' : CoreLedger} (sound : Sound l) (move : Move l l') :
    l'.total = l.total ∧ l'.holders ≤ l.holders ∧ l'.running ≤ l.running ∧
      (l.holders = 0 → l'.free = l.free) := by
  -- Both counts look at one holding at a time, so only the replaced one matters.
  unfold holders running
  cases move with
  | kept => simp
  | added => simp
  | removed h rest here =>
    rw [here]
    simp [Multiset.countP_cons]
  | woken h rest here blocked =>
    obtain ⟨idle, free⟩ := sound.blocked (by simp [here]) blocked
    rw [here]
    simp [idle, Int.not_le.mpr free]
  | stopped h rest here text stops =>
    have idle : text ≠ stateRunning := by rcases stops with rfl | rfl <;> simp
    rw [here]
    -- A holder that is stopped stops being one, and the counter has a core more.
    by_cases core : h.core ≥ 0
    · simp [Multiset.countP_cons, core, idle]
    · simp [Multiset.countP_cons, core, idle]

/-- A dispatch adds one holder of a core and one RUNNING process. -/
theorem Sound.dispatched_counts {l : CoreLedger} (sound : Sound l) {h : CoreHolding}
    {rest : Multiset CoreHolding} (here : l.holdings = h ::ₘ rest) (ready : looksReady h.state = true) :
    (l.starting 0 rest).holders = l.holders + 1 ∧ (l.starting 0 rest).running = l.running + 1 := by
  -- The process was READY, so it was neither a holder nor RUNNING.
  obtain ⟨isReady, idle⟩ := sound.ready (by simp [here]) ready
  have apart : h.state ≠ stateRunning := by simp [isReady]
  unfold holders running starting
  rw [here]
  simp [apart, Int.not_le.mpr idle]

/-- A resume adds one RUNNING process, or none if the process was RUNNING, and no holder. -/
theorem resumed_counts {l : CoreLedger} {h : CoreHolding} {rest : Multiset CoreHolding}
    (here : l.holdings = h ::ₘ rest) :
    (l.starting h.core rest).holders = l.holders ∧
      (l.starting h.core rest).running =
        l.running + if h.state = stateRunning then 0 else 1 := by
  unfold holders running starting
  rw [here]
  -- The core number stays, so only the count of the RUNNING can change.
  by_cases running : h.state = stateRunning
  · simp [Multiset.countP_cons, running]
  · simp [Multiset.countP_cons, running]

/-- The free cores and the held ones make up the machine. -/
def Conserved (l : CoreLedger) : Prop := 0 ≤ l.free ∧ l.free ≤ l.total ∧ l.free + l.holders = l.total

/-- At most one process holds a core, and no more run than there are cores. -/
def Exclusive (l : CoreLedger) : Prop := l.holders ≤ 1 ∧ (l.running : Int) ≤ l.total

/-- The RUNNING processes are those with a core of the machine. -/
def Matched (l : CoreLedger) : Prop :=
  ∀ h ∈ l.holdings, h.state = stateRunning ↔ 0 ≤ h.core ∧ h.core < l.total

/-- With no core ever taken from the counter, cores are conserved only while none is held. -/
theorem Sound.conserved_iff {l : CoreLedger} (sound : Sound l) :
    Conserved l ↔ l.free = l.total ∧ l.holders = 0 := by
  -- The counter is at the total or above it, which leaves no room for a holder.
  have positive := sound.positive
  have surplus := sound.surplus
  unfold Conserved
  omega

theorem Move.conserved {l l' : CoreLedger} (sound : Sound l) (move : Move l l')
    (conserved : Conserved l) : Conserved l' := by
  -- Without a holder no core is given back, so the counter stays at the total.
  obtain ⟨full, none⟩ := sound.conserved_iff.mp conserved
  obtain ⟨total, holders, -, free⟩ := move.counts sound
  have := free none
  rw [(sound.move move).conserved_iff]
  omega

theorem Move.exclusive {l l' : CoreLedger} (sound : Sound l) (move : Move l l')
    (exclusive : Exclusive l) : Exclusive l' := by
  -- Neither count grows.
  obtain ⟨total, holders, running, -⟩ := move.counts sound
  unfold Exclusive at *
  omega

/-- Putting a holding that is idle or matched in the place of another keeps the ledger matched. -/
theorem Matched.replaced {l : CoreLedger} (matched : Matched l) {h new : CoreHolding}
    {rest : Multiset CoreHolding} (here : l.holdings = h ::ₘ rest) {free : Int}
    (fits : new.state = stateRunning ↔ 0 ≤ new.core ∧ new.core < l.total) :
    Matched { l with free := free, holdings := new ::ₘ rest } := by
  intro other member
  rcases Multiset.mem_cons.mp member with rfl | member
  · exact fits
  · exact matched other (by rw [here]; exact Multiset.mem_cons_of_mem member)

theorem Move.matched {l l' : CoreLedger} (sound : Sound l) (move : Move l l')
    (matched : Matched l) : Matched l' := by
  cases move with
  | kept => exact matched
  | added =>
    intro other member
    rcases Multiset.mem_cons.mp member with rfl | member
    · simp
    · exact matched other member
  | removed h rest here =>
    intro other member
    exact matched other (by rw [here]; exact Multiset.mem_cons_of_mem member)
  | woken h rest here blocked =>
    -- A blocked process held no core, so READY without one fits.
    have idle := (sound.blocked (by simp [here]) blocked).2
    exact matched.replaced here (by simp [Int.not_le.mpr idle])
  | stopped h rest here text stops =>
    have idle : text ≠ stateRunning := by rcases stops with rfl | rfl <;> simp
    refine matched.replaced here ⟨fun running => absurd running idle, fun core => ?_⟩
    have left := core.1
    simp only at left
    split at left <;> omega

/-- A dispatch to core zero matches the process with a core of the machine. -/
theorem Sound.dispatched_matched {l : CoreLedger} (sound : Sound l) (matched : Matched l)
    {h : CoreHolding} {rest : Multiset CoreHolding} (here : l.holdings = h ::ₘ rest) :
    Matched (l.starting 0 rest) := by
  have positive := sound.positive
  refine matched.replaced here ⟨fun _ => ⟨Int.le_refl _, ?_⟩, fun _ => rfl⟩
  show 0 < l.total
  omega

/-- A resume keeps the ledger matched only for a process that was RUNNING already. -/
theorem resumed_matched_iff {l : CoreLedger} (matched : Matched l) {h : CoreHolding}
    {rest : Multiset CoreHolding} (here : l.holdings = h ::ₘ rest) :
    Matched (l.starting h.core rest) ↔ h.state = stateRunning := by
  -- The core number of the process is what it was, and it matched its old state.
  have own := matched h (by simp [here])
  constructor
  · intro after
    exact own.mpr ((after ⟨stateRunning, h.core⟩ (Multiset.mem_cons_self _ _)).mp rfl)
  · intro running
    exact matched.replaced here ⟨fun _ => own.mp running, fun _ => rfl⟩

end CoreLedger

end Nebula
