import Nebula.Library.ChildProcesses
import Nebula.Library.Machine
import Nebula.Library.RowTable

/-! The music player with the child that plays for it, whichever of the two comes first. -/

namespace Nebula

open CText

abbrev maxSongs : Nat := 20

/-- Where the loops of main are, with the pid of the player. -/
inductive MusicStage where
  /-- Before a song is selected. -/
  | menu
  /-- At the waitpid that does not wait. -/
  | polling (playerPid : Int)
  /-- At the select, and the read behind it. -/
  | listening (playerPid : Int)
  /-- At the waitpid behind the kill. -/
  | stopping (playerPid : Int)
  | ended
  deriving DecidableEq, Repr

structure MusicPlayer where
  songs : SlotArray (Buffer 256) maxSongs
  /-- The stack behind songs. -/
  behind : Bytes
  children : List ChildProcess
  stage : MusicStage

/-- What the program does and what happens to it. -/
inductive MusicOp where
  /-- A round of the menu: what readdir gives, the line that is typed, and what fork returns. -/
  | select (entries : List Bytes) (line : Option Bytes) (forked : Int)
  | poll (collected : Int)
  /-- The byte that is read, if there is one in half a second. -/
  | listen (key : Option UInt8)
  | await (collected : Int)
  | playerExits (pid : Int)

/-- What a line of the menu comes to. -/
inductive MusicChoice where
  | quit
  | again
  | play (index : Nat)
  deriving DecidableEq, Repr

/-- What the program hands to the system. -/
inductive MusicEvent where
  /-- The path for mpg123 in the child, for what is typed below the rows that are shown. -/
  | plays (entries rows : List Bytes) (buf path : Bytes)
  /-- SIGTERM, with the children there are. -/
  | kills (pid : Int) (children : List ChildProcess)

def isSong (name : Bytes) : Bool := contains ".mp3" name

/-- list_songs. -/
def listSongs (songs : SlotArray (Buffer 256) maxSongs) (entries : List Bytes) : SlotArray (Buffer 256) maxSongs :=
  RowTable.fill isSong songs entries

/-- The byte is q or Q. -/
def isQuit (byte : UInt8) : Bool := byte = ch 'q' ∨ byte = ch 'Q'

/-- What the menu makes of a number of songs and a line. -/
def musicChoice (songCount : Nat) : Option Bytes → MusicChoice
  | none => .quit
  | some buf =>
    if songCount = 0 ∨ isQuit (charAt buf 0) then .quit
    else
      let choice := atoi (cstring buf)
      if choice < 1 ∨ choice > songCount then .again else .play (choice.toNat - 1)

namespace MusicPlayer

/-- The start of main, with whatever the stack holds. -/
def start (cells : Vector (Buffer 256) maxSongs) (behind : Bytes) : MusicPlayer where
  songs := ⟨cells, 0, Nat.zero_le _⟩
  behind := behind
  children := []
  stage := .menu

/-- A round of the menu up to the fork; where there are no songs the line is the one before exit. -/
def select (m : MusicPlayer) (entries : List Bytes) (line : Option Bytes) (forked : Int) : MusicPlayer :=
  let m := { m with songs := listSongs m.songs entries }
  match musicChoice m.songs.count line with
  | .quit => { m with stage := .ended }
  | .again => m
  | .play _ => { m with children := ChildProcess.fork m.children forked, stage := .polling forked }

/-- One call of the program, or the exit of its child; what is not its turn changes nothing. -/
def step (m : MusicPlayer) : MusicOp → MusicPlayer
  | .select entries line forked =>
    if m.stage = .menu ∧ ChildProcess.CanFork m.children forked then m.select entries line forked else m
  | .poll collected =>
    match m.stage with
    | .polling playerPid =>
      match ChildProcess.waitpid m.children playerPid collected true with
      | some (returned, children) =>
        -- Anything but 0 is taken for the end of the song, -1 as well.
        { m with children := children, stage := if returned ≠ 0 then .menu else .listening playerPid }
      | none => m
    | _ => m
  | .listen key =>
    match m.stage with
    | .listening playerPid => { m with stage := if key.any isQuit then .stopping playerPid else .polling playerPid }
    | _ => m
  | .await collected =>
    match m.stage with
    | .stopping playerPid =>
      match ChildProcess.waitpid m.children playerPid collected false with
      | some (_, children) => { m with children := children, stage := .menu }
      | none => m
    | _ => m
  | .playerExits pid => { m with children := ChildProcess.exit m.children pid }

/-- What a call hands to the system. -/
def emit (m : MusicPlayer) : MusicOp → Option MusicEvent
  | .select entries line forked =>
    if m.stage = .menu ∧ ChildProcess.CanFork m.children forked ∧ forked ≠ -1 then
      let songs := listSongs m.songs entries
      match musicChoice songs.count line with
      | .play index =>
        some (.plays entries (RowTable.texts songs m.behind) (line.getD [])
          (ascii "music/" ++ RowTable.text songs m.behind index))
      | _ => none
    else none
  | .listen key =>
    match m.stage with
    | .listening playerPid => if key.any isQuit then some (.kills playerPid m.children) else none
    | _ => none
  | _ => none

/-- The only child is the player. -/
def HasPlayer (children : List ChildProcess) (playerPid : Int) : Prop :=
  0 < playerPid ∧ ∃ exited, children = [⟨playerPid, exited⟩]

/-- The player is a child exactly while the program minds it. -/
def Minded (m : MusicPlayer) : Prop :=
  match m.stage with
  | .menu | .ended => m.children = []
  | .polling playerPid => (playerPid = -1 ∧ m.children = []) ∨ HasPlayer m.children playerPid
  | .listening playerPid | .stopping playerPid => HasPlayer m.children playerPid

end MusicPlayer

namespace MusicEvent

/-- What the program means to do. -/
def Meant : MusicEvent → Prop
  /- If the names are short, the song is the one shown beside its number. -/
  | .plays entries rows buf path =>
    (∀ name ∈ entries, 0 ∉ name ∧ name.length < 255) →
      rows = RowTable.kept isSong maxSongs entries ∧ 1 ≤ atoi (cstring buf) ∧
        ∃ name ∈ rows[(atoi (cstring buf)).toNat - 1]?,
          isSong name = true ∧ path = ascii "music/" ++ name ∧ path.length < 512
  /- The signal goes to the one child there is. -/
  | .kills pid children => MusicPlayer.HasPlayer children pid

end MusicEvent

namespace MusicPlayer

theorem HasPlayer.exit {children : List ChildProcess} {playerPid : Int} (player : HasPlayer children playerPid)
    (pid : Int) : HasPlayer (ChildProcess.exit children pid) playerPid := by
  obtain ⟨positive, exited, rfl⟩ := player
  refine ⟨positive, ?_⟩
  unfold ChildProcess.exit
  by_cases own : playerPid = pid <;> simp [own]

theorem minded_start (cells : Vector (Buffer 256) maxSongs) (behind : Bytes) : (start cells behind).Minded := rfl

/-- A round of the menu starts a player, or none. -/
theorem Minded.select {m : MusicPlayer} (entries : List Bytes) (line : Option Bytes) {forked : Int}
    (alone : m.children = []) (canFork : ChildProcess.CanFork m.children forked) (atMenu : m.stage = .menu) :
    (m.select entries line forked).Minded := by
  unfold MusicPlayer.select
  dsimp only
  split
  · exact alone
  · simpa only [Minded, atMenu] using alone
  · simp only [Minded, alone, ChildProcess.fork]
    -- A fork that fails leaves nobody, and -1 for the pid.
    by_cases failed : forked = -1
    · exact Or.inl ⟨failed, if_pos failed⟩
    · rw [if_neg failed]
      exact Or.inr ⟨(canFork.resolve_left failed).1, false, rfl⟩

/-- There is one child at most, and none before a song is selected or at the end. -/
theorem Minded.children {m : MusicPlayer} (minded : m.Minded) :
    m.children.length ≤ 1 ∧ (m.stage = .menu ∨ m.stage = .ended → m.children = []) := by
  unfold Minded at minded
  cases stage : m.stage with
  | menu | ended =>
    simp only [stage] at minded
    simp [minded]
  | polling playerPid =>
    simp only [stage] at minded
    rcases minded with ⟨-, alone⟩ | ⟨-, exited, player⟩
    · simp [alone]
    · simp [player]
  | listening playerPid | stopping playerPid =>
    simp only [stage] at minded
    obtain ⟨-, exited, player⟩ := minded
    simp [player]

/-- Whatever is called, and whenever the player exits, it is minded. -/
theorem Minded.step {m : MusicPlayer} (minded : m.Minded) (op : MusicOp) : (m.step op).Minded := by
  cases op with
  | select entries line forked =>
    simp only [MusicPlayer.step]
    split
    · rename_i turn
      have alone : m.children = [] := by
        simp only [Minded, turn.1] at minded
        exact minded
      exact .select entries line alone turn.2 turn.1
    · exact minded
  | poll collected =>
    simp only [MusicPlayer.step]
    split
    · rename_i playerPid here
      simp only [Minded, here] at minded
      rcases minded with ⟨rfl, alone⟩ | ⟨positive, exited, player⟩
      · -- Without a child there is nothing to wait for, which passes for the end of a song.
        rw [alone, ChildProcess.waitpid_nil]
        exact rfl
      · rw [player, ChildProcess.waitpid_singleton]
        cases exited with
        | false => exact ⟨positive, false, rfl⟩
        | true =>
          -- The pid of the player is not 0, so the song is over.
          have ended : playerPid ≠ 0 := by omega
          simp [Minded, ended]
    · exact minded
  | listen key =>
    simp only [MusicPlayer.step]
    split
    · rename_i playerPid here
      simp only [Minded, here] at minded
      cases key.any isQuit with
      | false => exact Or.inr minded
      | true => exact minded
    · exact minded
  | await collected =>
    simp only [MusicPlayer.step]
    split
    · rename_i playerPid here
      have player := minded
      simp only [Minded, here] at player
      obtain ⟨positive, exited, player⟩ := player
      rw [player, ChildProcess.waitpid_singleton]
      cases exited with
      | false => exact minded
      | true => exact rfl
    · exact minded
  | playerExits pid =>
    simp only [MusicPlayer.step]
    unfold Minded at minded ⊢
    dsimp only
    cases stage : m.stage with
    | menu | ended =>
      simp only [stage] at minded
      rw [minded]
      rfl
    | polling playerPid =>
      simp only [stage] at minded
      refine minded.imp (fun failed => ⟨failed.1, ?_⟩) fun player => player.exit pid
      rw [failed.2]
      rfl
    | listening playerPid | stopping playerPid =>
      simp only [stage] at minded
      exact minded.exit pid

/-- What is played is the row of the number that is typed. -/
theorem musicChoice_play {songCount index : Nat} {line : Option Bytes}
    (chosen : musicChoice songCount line = .play index) :
    ∃ buf, line = some buf ∧ 1 ≤ atoi (cstring buf) ∧ index = (atoi (cstring buf)).toNat - 1 ∧ index < songCount := by
  unfold musicChoice at chosen
  split at chosen
  · cases chosen
  · rename_i buf
    split at chosen
    · cases chosen
    · dsimp only at chosen
      split at chosen
      · cases chosen
      · rename_i inside
        cases chosen
        exact ⟨buf, rfl, by omega, rfl, by omega⟩

/-- What the program hands to the system is what it means to. -/
theorem Minded.meant {m : MusicPlayer} (minded : m.Minded) (op : MusicOp) {event : MusicEvent}
    (emitted : m.emit op = some event) : event.Meant := by
  cases op with
  | select entries line forked =>
    simp only [emit] at emitted
    split at emitted
    · split at emitted
      · rename_i index chosen
        cases emitted
        intro short
        obtain ⟨buf, rfl, some, rfl, inside⟩ := musicChoice_play chosen
        have shown : RowTable.texts (listSongs m.songs entries) m.behind = RowTable.kept isSong maxSongs entries :=
          RowTable.texts_fill isSong m.songs short m.behind
        refine ⟨shown, some, ?_⟩
        -- The text that is played is the one that is shown.
        have row : (RowTable.texts (listSongs m.songs entries) m.behind)[(atoi (cstring buf)).toNat - 1]? =
            .some (RowTable.text (listSongs m.songs entries) m.behind ((atoi (cstring buf)).toNat - 1)) := by
          rw [RowTable.texts, List.getElem?_map, List.getElem?_range inside]
          rfl
        refine ⟨_, row, ?_⟩
        rw [shown] at row
        have listed := List.mem_of_mem_take (List.mem_of_getElem? row)
        obtain ⟨member, song⟩ := List.mem_filter.mp listed
        have length := (short _ member).2
        refine ⟨song, rfl, ?_⟩
        rw [List.length_append, show (ascii "music/").length = 6 from rfl]
        omega
      · cases emitted
    · cases emitted
  | listen key =>
    simp only [emit] at emitted
    split at emitted
    · rename_i playerPid here
      simp only [Minded, here] at minded
      split at emitted
      · cases emitted
        exact minded
      · cases emitted
    · cases emitted
  | _ => cases emitted

/--
However the calls of the music player and the exits of its child follow each other, and whatever forks
fail: there is one child at most, none at the menu and none at the end; SIGTERM goes to that child and
to nobody else; and the song that is played is the one that is shown beside the number typed.
-/
theorem minds_its_child (cells : Vector (Buffer 256) maxSongs) (behind : Bytes) (ops : List MusicOp) :
    let m := Machine.run step (start cells behind) ops
    m.children.length ≤ 1 ∧ (m.stage = .menu ∨ m.stage = .ended → m.children = []) ∧
      ∀ event ∈ Machine.outputs step emit (start cells behind) ops, event.Meant := by
  intro m
  have minded : m.Minded := Machine.invariant_run (fun m op minded => minded.step op) (minded_start cells behind) ops
  exact ⟨minded.children.1, minded.children.2,
    Machine.forall_outputs_of_invariant (fun m op minded => minded.step op)
      (fun m op event minded emitted => minded.meant op emitted) (minded_start cells behind) ops⟩

end MusicPlayer

end Nebula
