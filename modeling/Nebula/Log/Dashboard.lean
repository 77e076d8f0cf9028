import Nebula.Library.Stdio
import Nebula.Resources.Balance
import Nebula.Kernel.Ints

/-! The lines that the kernel and the system monitor append to the log, and how the dashboard reads them. -/

namespace Nebula

open CText

/-- The time of day that localtime answers. -/
structure ClockTime where
  hour : Fin 24
  minute : Fin 60
  second : Fin 61
  deriving DecidableEq, Repr

/-- The day that localtime answers. -/
structure ClockDate where
  year : Nat
  month : Fin 13
  day : Fin 32
  deriving DecidableEq, Repr

/-- The two digits that "%H", "%M", "%S", "%m" and "%d" print. -/
def twoDigits (value : Nat) : Bytes :=
  [ch '0' + UInt8.ofNat (value / 10), ch '0' + UInt8.ofNat (value % 10)]

/-- What strftime makes of "%H:%M:%S". -/
def ClockTime.text (time : ClockTime) : Bytes :=
  twoDigits time.hour ++ ch ':' :: (twoDigits time.minute ++ ch ':' :: twoDigits time.second)

/-- What strftime makes of "%Y-%m-%d". -/
def ClockDate.text (date : ClockDate) : Bytes :=
  decimal date.year ++ ch '-' :: (twoDigits date.month ++ ch '-' :: twoDigits date.day)

/-- What the kernel logs of its resources, its processes and its interrupts. -/
inductive LogEntry where
  | resources (ramMb hddMb cores : Int)
  | allocated (amounts : Amounts)
  | reclaimed (amounts : Amounts)
  | created (pid : Int) (name : Bytes)
  | terminated (pid : Int)
  | contextSwitch (pid : Int) (name : Bytes) (core : Int)
  | interruptResolved (pid : Int)
  deriving DecidableEq, Repr

/-- The message that is printed for an entry. -/
def LogEntry.message : LogEntry → Bytes
  | .resources ramMb hddMb cores =>
    ascii "Resources: RAM=" ++ decimal ramMb ++ ascii "MB, HDD=" ++ decimal hddMb ++
      ascii "MB, Cores=" ++ decimal cores
  | .allocated (ram, hdd) =>
    ascii "Resources allocated: RAM=" ++ decimal ram ++ ascii ", HDD=" ++ decimal hdd
  | .reclaimed (ram, hdd) =>
    ascii "Resources reclaimed: RAM=" ++ decimal ram ++ ascii ", HDD=" ++ decimal hdd
  | .created pid name => ascii "Process created: PID=" ++ decimal pid ++ ascii " (" ++ name ++ ascii ")"
  | .terminated pid => ascii "Process terminated: PID=" ++ decimal pid
  | .contextSwitch pid name core =>
    ascii "Context switch: PID=" ++ decimal pid ++ ascii " (" ++ name ++ ascii ") -> Core " ++
      decimal core
  | .interruptResolved pid => ascii "Interrupt resolved: PID=" ++ decimal pid ++ ascii " -> READY"

/-- The line log_event appends for a message. -/
def logLine (time : ClockTime) (message : Bytes) : Bytes :=
  ch '[' :: (time.text ++ ascii "]  " ++ message ++ [newline])

/-- The line write_snapshot appends. -/
def snapshotLine (date : ClockDate) (time : ClockTime) (active pid : Int) : Bytes :=
  ch '[' :: (date.text ++ ascii " " ++ time.text ++ ascii "] [SysMonitor] Active tasks: " ++
    decimal active ++ ascii " | PID: " ++ decimal pid ++ [newline])

/-- The totals and the free amounts that the dashboard works out. -/
structure Gauge where
  totalRam : Int
  totalHdd : Int
  freeRam : Int
  freeHdd : Int
  deriving DecidableEq, Repr

/--
What sscanf stores into r and h, of a line with "RAM=" in it.

A variable it stores nothing into keeps what the stack held.
-/
def scanAmounts (stack : Amounts) (buf : Bytes) : Amounts :=
  let values := sscanf [.text (ascii "RAM="), .int, .text (ascii ", HDD="), .int]
    ((strstr "RAM=" buf).getD [])
  (values.getD 0 stack.1, values.getD 1 stack.2)

/-- The first branch of the loop, for a line with the sizes of the machine. -/
def readSizes (gauge : Gauge) (buf : Bytes) : Gauge :=
  if contains "Resources: RAM=" buf then
    let values := sscanf [.text (ascii "RAM="), .int, .text (ascii "MB, HDD="), .int, .text (ascii "MB")]
      ((strstr "RAM=" buf).getD [])
    let totalRam := values.getD 0 gauge.totalRam
    let totalHdd := values.getD 1 gauge.totalHdd
    ⟨totalRam, totalHdd, totalRam, totalHdd⟩
  else gauge

def readAllocated (stack : Amounts) (gauge : Gauge) (buf : Bytes) : Gauge :=
  if contains "Resources allocated: RAM=" buf then
    let (r, h) := scanAmounts stack buf
    { gauge with freeRam := wrapped (gauge.freeRam - r), freeHdd := wrapped (gauge.freeHdd - h) }
  else gauge

def readReclaimed (stack : Amounts) (gauge : Gauge) (buf : Bytes) : Gauge :=
  if contains "Resources reclaimed: RAM=" buf then
    let (r, h) := scanAmounts stack buf
    { gauge with freeRam := wrapped (gauge.freeRam + r), freeHdd := wrapped (gauge.freeHdd + h) }
  else gauge

/-- What one line does to the totals and the free amounts. -/
def readGauge (stack : Amounts) (gauge : Gauge) (buf : Bytes) : Gauge :=
  readReclaimed stack (readAllocated stack (readSizes gauge buf) buf) buf

/-- What one line does to the number of active processes. -/
def readActive (active : Int) (buf : Bytes) : Int :=
  let active := if contains "Process created" buf then wrapped (active + 1) else active
  if contains "Process terminated" buf then wrapped (active - 1) else active

/-- What the dashboard starts from. -/
def Gauge.initial : Gauge := ⟨1024, 1024, 1024, 1024⟩

/-- The C strings that the loop of the dashboard reads from the log. -/
def dashboardLines (log : Bytes) : List Bytes := (fgetsAll 256 log).map cstring

/-- The totals and the free amounts after the loop. -/
def replayGauge (stack : Amounts) (log : Bytes) : Gauge :=
  (dashboardLines log).foldl (readGauge stack) .initial

/-- The number of active processes after the loop. -/
def replayActive (log : Bytes) : Int := (dashboardLines log).foldl readActive 0

/-- The totals, the free amounts and the number of processes that resource_dashboard shows. -/
structure Dashboard where
  totalRam : Int
  totalHdd : Int
  freeRam : Int
  freeHdd : Int
  active : Int
  deriving DecidableEq, Repr

/-- What resource_dashboard makes of a log, the last three held at zero from below. -/
def dashboard (stack : Amounts) (log : Bytes) : Dashboard :=
  let gauge := replayGauge stack log
  ⟨gauge.totalRam, gauge.totalHdd, max 0 gauge.freeRam, max 0 gauge.freeHdd, max 0 (replayActive log)⟩

example : dashboard (7, 7) (logLine ⟨9, 5, 0⟩ (LogEntry.resources 2048 512 4).message ++
    logLine ⟨9, 5, 1⟩ (LogEntry.allocated (40, 3)).message ++
    logLine ⟨9, 5, 1⟩ (LogEntry.created 101 (ascii "Clock")).message) =
      ⟨2048, 512, 2008, 509, 1⟩ := by decide +kernel

end Nebula
