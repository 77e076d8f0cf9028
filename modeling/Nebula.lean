import Nebula.Queues.Rotation
import Nebula.Cores.Laws
import Nebula.Lifecycle.Reaping
import Nebula.Requests.AllOrNothing
import Nebula.Resources.Bounds
import Nebula.Pipe.Agreement
import Nebula.Resources.Conservation
import Nebula.Kernel.Rows
import Nebula.Queues.Dispatch
import Nebula.Queues.Chronicle
import Nebula.Library.Line
import Nebula.Queues.Arrival
import Nebula.Queues.Priority
import Nebula.Queues.Lines
import Nebula.Queues.Turns
import Nebula.Queues.Aging
import Nebula.Deadlock.Search
import Nebula.Deadlock.Detection
import Nebula.Library.LockCode
import Nebula.Library.Threads
import Nebula.Locks.Calls
import Nebula.Locks.Signals
import Nebula.Shell.LiveChildren
import Nebula.Requests.Isolation
import Nebula.Interrupts.Timers
import Nebula.Interrupts.Ownership
import Nebula.Log.Agreement
import Nebula.Library.Records
import Nebula.Log.Rewriting
import Nebula.Library.Buffer
import Nebula.Programs.TodoList
import Nebula.Library.Paths
import Nebula.Programs.Confinement
import Nebula.Library.FileTree
import Nebula.Programs.FileTools
import Nebula.Programs.Overwriting
import Nebula.Queues.Refinement
import Nebula.Queues.Removal
import Nebula.Queues.Reordering
import Nebula.Requests.Format
import Nebula.Programs.TextSearch
import Nebula.Programs.Notepad
import Nebula.Programs.Copying
import Nebula.Programs.Selection
import Nebula.Programs.Terminal
import Nebula.Programs.Loading
import Nebula.Library.Gregorian
import Nebula.Library.Grid
import Nebula.Programs.Calendar
import Nebula.Library.Pages
import Nebula.Log.Viewer
import Nebula.Queues.Roster
import Nebula.Queues.Service
import Nebula.Queues.Progress
import Nebula.Interrupts.Rest
import Nebula.Library.FileRegion
import Nebula.Programs.Console
import Nebula.Programs.Session
import Nebula.Log.Keeping
import Nebula.Log.TaskManager
import Nebula.Library.Guessing
import Nebula.Programs.Minigame
import Nebula.Library.NamedPipes
import Nebula.Pipe.Launching
import Nebula.Resources.Books
import Nebula.Library.ChildProcesses
import Nebula.Library.RowTable
import Nebula.Programs.MusicPlayer
import Nebula.Resources.Serial
import Nebula.Library.Rounds
import Nebula.Pipe.Completion
