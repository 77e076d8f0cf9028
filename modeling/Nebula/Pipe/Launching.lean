import Nebula.Library.CText
import Nebula.Library.Machine
import Nebula.Library.NamedPipes

/-! How a child and the handler of its requests come to open its pipe while tasks are launched. -/

namespace Nebula

open CText

/-- The path of the pipe of a process. -/
def pipePath (pid : Int) : Bytes := ascii "/tmp/nebula_pipe_" ++ decimal pid

/-- The system calls between a fork and the first bytes in the pipe. -/
inductive LaunchOp where
  /-- The unlink in create_pipe_for_process. -/
  | unlinks
  /-- The mkfifo in create_pipe_for_process. -/
  | makes
  /-- The open in handle_ipc_request. -/
  | handlerOpens
  /-- The mkfifo in send_resource_request. -/
  | childMakes
  /-- The open in send_resource_request. -/
  | childOpens
  deriving DecidableEq, Repr

/--
How far a launch has come, and the pipes that were opened.

An open that has found its pipe waits for somebody at the other end of the same pipe.
-/
structure Launch where
  unlinked : Bool
  made : Bool
  handler : Option (Option (NamedPipe Bytes))
  childMade : Bool
  child : Option (Option (NamedPipe Bytes))
  /-- The child's mkfifo came before the parent's unlink. -/
  childMadeEarly : Bool
  /-- The child's open came before the parent's mkfifo. -/
  childOpenedEarly : Bool

/-- The directory of the pipes, and a launch for each process. -/
structure Launches where
  dir : PipeDir Bytes
  launch : Int → Launch

namespace Launches

/-- Nothing has happened since the forks; whatever earlier processes have left is still there. -/
def start (dir : PipeDir Bytes) : Launches := ⟨dir, fun _ => ⟨false, false, none, false, none, false, false⟩⟩

/-- One call of one launch; what is not its turn changes nothing. -/
def step (s : Launches) : Int × LaunchOp → Launches
  | (pid, .unlinks) =>
    let l := s.launch pid
    if l.unlinked then s
    else ⟨s.dir.unlink (pipePath pid), Function.update s.launch pid { l with unlinked := true }⟩
  | (pid, .makes) =>
    let l := s.launch pid
    if l.unlinked ∧ l.made = false then
      ⟨s.dir.mkfifo (pipePath pid), Function.update s.launch pid { l with made := true }⟩
    else s
  | (pid, .handlerOpens) =>
    let l := s.launch pid
    if l.made ∧ l.handler = none then
      ⟨s.dir, Function.update s.launch pid { l with handler := some (s.dir.pipe (pipePath pid)) }⟩
    else s
  | (pid, .childMakes) =>
    let l := s.launch pid
    if l.childMade then s
    else
      ⟨s.dir.mkfifo (pipePath pid),
        Function.update s.launch pid { l with childMade := true, childMadeEarly := !l.unlinked }⟩
  | (pid, .childOpens) =>
    let l := s.launch pid
    if l.childMade ∧ l.child = none then
      ⟨s.dir,
        Function.update s.launch pid
          { l with child := some (s.dir.pipe (pipePath pid)), childOpenedEarly := !l.made }⟩
    else s

end Launches

/-- Different processes have different paths. -/
theorem pipePath_injective : Function.Injective pipePath := by
  intro pid other same
  have printed : decimal pid = decimal other := List.append_cancel_left same
  obtain ⟨digits, -, decimals, read, text⟩ := decimal_eq pid
  obtain ⟨digits', -, decimals', read', text'⟩ := decimal_eq other
  rw [text, text'] at printed
  -- A sign is no digit, so both numbers have one or neither has.
  have sign : isDigit (ch '-') = false := by decide
  by_cases negative : pid < 0 <;> by_cases negative' : other < 0
  · rw [if_pos negative, if_pos negative'] at printed
    rw [(List.cons.inj printed).2] at read
    omega
  · rw [if_pos negative, if_neg negative'] at printed
    have digit := decimals' (ch '-') (printed ▸ List.mem_cons_self)
    rw [sign] at digit
    cases digit
  · rw [if_neg negative, if_pos negative'] at printed
    have digit := decimals (ch '-') (printed ▸ List.mem_cons_self)
    rw [sign] at digit
    cases digit
  · rw [if_neg negative, if_neg negative'] at printed
    rw [printed] at read
    omega

/-- What is known of one launch, whatever the others do. -/
structure Launch.Sound (d : PipeDir Bytes) (path : Bytes) (l : Launch) : Prop where
  /-- The calls of the parent and its handler come in order, and so do those of the child. -/
  inTurn : (l.made = true → l.unlinked = true) ∧ (l.handler ≠ none → l.made = true) ∧
    (l.child ≠ none → l.childMade = true)
  /-- What is early is known as such. -/
  early : (l.childMadeEarly = true → l.childMade = true) ∧
    (l.unlinked = false → l.childMade = true → l.childMadeEarly = true) ∧
    (l.childOpenedEarly = true → l.child ≠ none) ∧ (l.made = false → l.child ≠ none → l.childOpenedEarly = true)
  /-- The handler has opened the pipe that is there. -/
  handled : (l.made = true → d.pipe path ≠ none) ∧ ∀ found, l.handler = some found → found = d.pipe path
  /-- What the child has opened is a pipe of its own path. -/
  own : ∀ found, l.child = some (some found) → found.name = path ∧ found.number < d.made
  /-- A pipe that the child has made after the unlink stays. -/
  late : l.unlinked = true → l.childMade = true → l.childMadeEarly = false →
    d.pipe path ≠ none ∧ ∀ found, l.child = some found → found = d.pipe path
  /-- One that it has made before is gone until the parent makes another one. -/
  gone : l.unlinked = true → l.made = false → l.childMadeEarly = true → d.pipe path = none
  /-- The child has the new pipe if it opens it after that, and not if it opens it before. -/
  met : l.made = true → l.childMadeEarly = true → ∀ found, l.child = some found →
    (found = d.pipe path ↔ l.childOpenedEarly = false)

namespace Launch.Sound

variable {d d' : PipeDir Bytes} {path : Bytes} {l : Launch}

/-- What the launches of other processes do is no concern of this one. -/
theorem frame (sound : Sound d path l) (same : d'.pipe path = d.pipe path) (more : d.made ≤ d'.made) :
    Sound d' path l := by
  obtain ⟨inTurn, early, handled, own, late, gone, met⟩ := sound
  -- Only the numbers of pipes have grown.
  rw [← same] at handled late gone met
  exact ⟨inTurn, early, handled, fun found opened => ⟨(own found opened).1, (own found opened).2.trans_le more⟩, late,
    gone, met⟩

/-- The unlink takes away whatever was made before it. -/
theorem unlinks (sound : Sound d path l) (first : l.unlinked = false) :
    Sound (d.unlink path) path { l with unlinked := true } := by
  obtain ⟨inTurn, early, handled, own, late, gone, met⟩ := sound
  -- The parent has made nothing yet, and what the child has made is early.
  have unmade : l.made = false := by grind
  have soon : l.childMade = true → l.childMadeEarly = true := early.2.1 first
  exact
    { inTurn := by grind
      early := by grind
      handled := by grind
      own := own
      late := fun _ made apart => absurd ((soon made).symm.trans apart) (by simp)
      gone := fun _ _ _ => d.pipe_unlink path
      met := fun made => absurd made (by simp [unmade]) }

/-- The parent's mkfifo makes a new pipe exactly if the child's was taken away or is still to come. -/
theorem makes (sound : Sound d path l) (turn : l.unlinked = true) (first : l.made = false) :
    Sound (d.mkfifo path) path { l with made := true } := by
  obtain ⟨inTurn, early, handled, own, late, gone, met⟩ := sound
  have there := d.pipe_mkfifo_ne_none path
  have more := d.made_le_mkfifo path
  refine
    { inTurn := by grind
      early := by grind
      handled := by grind
      own := by grind
      late := fun _ made apart => ?_
      gone := fun _ made => absurd made (by simp)
      met := fun _ soon found opened => ?_ }
  · -- A pipe that the child has made since the unlink is taken over.
    obtain ⟨taken, same⟩ := late turn made apart
    rw [PipeDir.pipe_mkfifo_taken taken]
    exact ⟨taken, same⟩
  · -- The child has opened something older than the new pipe, or nothing at all.
    have free := gone turn first soon
    have opening : l.childOpenedEarly = true := early.2.2.2 first (by simp [show l.child = some found from opened])
    rw [PipeDir.pipe_mkfifo_free free]
    refine iff_of_false (fun same => ?_) (by simp [opening])
    subst same
    exact absurd (own _ opened).2 (Nat.lt_irrefl d.made)

/-- The handler opens the pipe that is there. -/
theorem handlerOpens (sound : Sound d path l) (turn : l.made = true) :
    Sound d path { l with handler := some (d.pipe path) } := by
  obtain ⟨inTurn, early, handled, own, late, gone, met⟩ := sound
  exact
    { inTurn := by grind
      early := early
      handled := by grind
      own := own
      late := late
      gone := gone
      met := met }

/-- The child's mkfifo makes a pipe that stays if the unlink is over. -/
theorem childMakes (sound : Sound d path l) (first : l.childMade = false) :
    Sound (d.mkfifo path) path { l with childMade := true, childMadeEarly := !l.unlinked } := by
  obtain ⟨inTurn, early, handled, own, late, gone, met⟩ := sound
  have there := d.pipe_mkfifo_ne_none path
  -- The child has not come to its open.
  have unopened : l.child = none := by
    by_contra opened
    exact absurd ((inTurn.2.2 opened).symm.trans first) (by simp)
  refine
    { inTurn := by grind
      early := by grind
      handled := ⟨fun _ => there, fun found opened => ?_⟩
      own := by grind
      late := by grind
      gone := by grind
      met := by grind }
  -- What the handler has opened is there, and so it is not made again.
  have made : l.made = true := inTurn.2.1 (by simp [show l.handler = some found from opened])
  rw [PipeDir.pipe_mkfifo_taken (handled.1 made)]
  exact handled.2 found opened

/-- The child opens the pipe that is there, which is the handler's if the parent has made it. -/
theorem childOpens (sound : Sound d path l) (turn : l.childMade = true) :
    Sound d path { l with child := some (d.pipe path), childOpenedEarly := !l.made } := by
  obtain ⟨inTurn, early, handled, own, late, gone, met⟩ := sound
  refine
    { inTurn := by grind
      early := by grind
      handled := handled
      own := fun found opened => d.numbered path found (Option.some.inj opened)
      late := by grind
      gone := gone
      met := fun made soon found opened => ?_ }
  -- The parent has made the pipe, so the open is not early.
  have made : l.made = true := made
  rw [← Option.some.inj opened]
  simp [made]

/-- Nothing has been done yet. -/
theorem start (d : PipeDir Bytes) (path : Bytes) : Sound d path ⟨false, false, none, false, none, false, false⟩ := by
  constructor <;> simp

end Launch.Sound

namespace Launches

/-- Every launch is sound. -/
def AllSound (s : Launches) : Prop := ∀ pid, Launch.Sound s.dir (pipePath pid) (s.launch pid)

/-- A call keeps all launches sound if it keeps its own so and leaves the other paths alone. -/
theorem AllSound.update {s : Launches} (all : s.AllSound) {pid : Int} {dir : PipeDir Bytes} {l : Launch}
    (own : Launch.Sound dir (pipePath pid) l)
    (others : ∀ path, path ≠ pipePath pid → dir.pipe path = s.dir.pipe path) (more : s.dir.made ≤ dir.made) :
    AllSound ⟨dir, Function.update s.launch pid l⟩ := by
  intro other
  show Launch.Sound dir (pipePath other) (Function.update s.launch pid l other)
  by_cases same : other = pid
  · subst same
    rw [Function.update_self]
    exact own
  · -- Another process has another path.
    rw [Function.update_of_ne same]
    exact (all other).frame (others _ fun path => same (pipePath_injective path)) more

/-- Every call keeps all launches sound. -/
theorem AllSound.step {s : Launches} (all : s.AllSound) (call : Int × LaunchOp) : (s.step call).AllSound := by
  obtain ⟨pid, op⟩ := call
  have sound := all pid
  cases op with
  | unlinks =>
    simp only [Launches.step]
    split
    · exact all
    · rename_i first
      exact all.update (sound.unlinks (by simpa using first)) (fun path => s.dir.pipe_unlink_of_ne) (Nat.le_refl _)
  | makes =>
    simp only [Launches.step]
    split
    · rename_i turn
      exact all.update (sound.makes turn.1 turn.2) (fun path => s.dir.pipe_mkfifo_of_ne) (s.dir.made_le_mkfifo _)
    · exact all
  | handlerOpens =>
    simp only [Launches.step]
    split
    · rename_i turn
      exact all.update (sound.handlerOpens turn.1) (fun path apart => rfl) (Nat.le_refl _)
    · exact all
  | childMakes =>
    simp only [Launches.step]
    split
    · exact all
    · rename_i first
      exact all.update (sound.childMakes (by simpa using first)) (fun path => s.dir.pipe_mkfifo_of_ne)
        (s.dir.made_le_mkfifo _)
  | childOpens =>
    simp only [Launches.step]
    split
    · rename_i turn
      exact all.update (sound.childOpens turn.1) (fun path apart => rfl) (Nat.le_refl _)
    · exact all

/-- However the launches interleave, all of them stay sound. -/
theorem allSound_run (dir : PipeDir Bytes) (calls : List (Int × LaunchOp)) :
    (Machine.run step (start dir) calls).AllSound :=
  Machine.invariant_run (fun _ call all => all.step call) (fun pid => .start dir (pipePath pid)) calls

/-- The handler and the child of a process have opened the same pipe. -/
def Meet (s : Launches) (pid : Int) : Prop :=
  ∃ found, (s.launch pid).handler = some (some found) ∧ (s.launch pid).child = some (some found)

/--
However many launches interleave, and whatever earlier processes have left behind: once the handler and
the child of a process have opened its pipe, they have the same one exactly if the child has not both
made it before the parent's unlink and opened it before the parent's mkfifo.
-/
theorem meet_iff (dir : PipeDir Bytes) (calls : List (Int × LaunchOp)) (pid : Int)
    (handler : ((Machine.run step (start dir) calls).launch pid).handler ≠ none)
    (child : ((Machine.run step (start dir) calls).launch pid).child ≠ none) :
    (Machine.run step (start dir) calls).Meet pid ↔
      ¬ (((Machine.run step (start dir) calls).launch pid).childMadeEarly = true ∧
        ((Machine.run step (start dir) calls).launch pid).childOpenedEarly = true) := by
  have sound := allSound_run dir calls pid
  generalize Machine.run step (start dir) calls = s at *
  obtain ⟨opened, handled⟩ := Option.ne_none_iff_exists'.mp handler
  obtain ⟨found, own⟩ := Option.ne_none_iff_exists'.mp child
  -- The handler has the pipe that the path leads to, so the child meets it there or nowhere.
  have made := sound.inTurn.2.1 handler
  have there := sound.handled.1 made
  have current := sound.handled.2 opened handled
  have together : s.Meet pid ↔ found = s.dir.pipe (pipePath pid) := by
    unfold Meet
    rw [handled, own, current]
    obtain ⟨pipe, leads⟩ := Option.ne_none_iff_exists'.mp there
    rw [leads]
    grind
  rw [together]
  by_cases early : (s.launch pid).childMadeEarly = true
  · rw [sound.met made early found own]
    simp [early]
  · -- A pipe that the child has made after the unlink stays, and everybody opens it.
    have same := (sound.late (sound.inTurn.1 made) (sound.inTurn.2.2 child) (by simpa using early)).2 found own
    simp [early, same]

/-- The child makes the pipe, the parent takes it away, and the child opens it before or after it is made again. -/
theorem meet_iff_early :
    let empty : PipeDir Bytes := ⟨fun _ => none, 0, by simp⟩
    let before := [(7, .childMakes), (7, .unlinks), (7, .childOpens), (7, .makes), (7, .handlerOpens)]
    let after := [(7, .childMakes), (7, .unlinks), (7, .makes), (7, .childOpens), (7, .handlerOpens)]
    ¬ (Machine.run step (start empty) before).Meet 7 ∧ (Machine.run step (start empty) after).Meet 7 := by
  intro empty before after
  constructor
  · rw [meet_iff empty before 7 (by decide) (by decide)]
    decide
  · rw [meet_iff empty after 7 (by decide) (by decide)]
    decide

end Launches

end Nebula
