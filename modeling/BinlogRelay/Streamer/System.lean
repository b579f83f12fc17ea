import BinlogRelay.Streamer.Reader

open dm.binlog

namespace dm.streamer

/-- The largest file the reader's 32-bit positions can address, `2^32` bytes. -/
def maxRelayLogSize : Nat := 2 ^ 32

/-- The events a relay writer may append to the newest relay log: complete events whose
    header's log position is the offset they end at and whose timestamp is set, longer
    than an event header, keeping the file under `2^32` bytes; a file's first event
    is its FORMAT_DESCRIPTION event. -/
def appendable (f : RelayLogFile) (e : BinlogEvent) : Bool :=
  f.partialBytes == 0 && e.header.logPos.toNat == f.size + eventLen e &&
    e.header.timestamp != 0 && EventHeaderSize < eventLen e &&
    f.size + eventLen e < maxRelayLogSize && (!f.events.isEmpty || e.isFormatDescription)

/-- The name of the relay log a writer may open after `f`: same base name and a greater
    sequence number of the same width. -/
def nextRelayLogName (f : RelayLogFile) (name : String) : Bool :=
  match parseBinlogFile f.name, parseBinlogFile name with
  | some cur, some next =>
    cur.baseName == next.baseName && next.seq.data.length == cur.seq.data.length &&
      next.seq.data.all isDigit && stringLt cur.seq.data next.seq.data
  | _, _ => false

namespace RelaySubDir

def appendNewest (d : RelaySubDir) (e : BinlogEvent) : RelaySubDir :=
  { d with files := d.files.dropLast ++
      (d.files.getLast?.map fun f => { f with events := f.events ++ [e] }).toList }

def create (d : RelaySubDir) (name : String) : RelaySubDir :=
  { d with files := d.files ++ [⟨name, [], 0⟩] }

end RelaySubDir

def RelayRoot.modify (root : RelayRoot) (uuid : String) (g : RelaySubDir → RelaySubDir) :
    RelayRoot :=
  ⟨root.subDirs.map fun d => if d.uuid = uuid then g d else d⟩

/-- The relay directory and the worker that `StartSync` started on it. -/
structure System where
  root : RelayRoot
  worker : Worker
  deriving DecidableEq, Repr

/-- The moves of the parties: a step of the worker, a watcher event for an entry, and
    the two moves of the relay writer on the newest relay log of the newest sub
    directory (the last one of the index). -/
inductive Action
  | work
  | watch (name : String)
  | append (e : BinlogEvent)
  | create (name : String)
  deriving DecidableEq, Repr

namespace System

/-- The newest relay log: the last entry of the last sub directory of the index. -/
def newest (s : System) : Option (String × RelayLogFile) := do
  let uuid ← s.worker.reader.uuids.getLast?
  let d ← s.root.subDir? uuid
  let f ← d.files.getLast?
  if f.name = MetaFilename then none else some (uuid, f)

def step (s : System) : Action → Option System
  | .work => (s.worker.step s.root).map fun w => { s with worker := w }
  | .watch name => (s.worker.watch s.root name).map fun w => { s with worker := w }
  | .append e =>
    match s.newest with
    | some (uuid, f) =>
      if appendable f e then some { s with root := s.root.modify uuid (·.appendNewest e) }
      else none
    | none => none
  | .create name =>
    match s.newest with
    | some (uuid, f) =>
      if f.events.getLast?.any BinlogEvent.isRotate && nextRelayLogName f name then
        some { s with root := s.root.modify uuid (·.create name) }
      else none
    | none => none

def run (s : System) : List Action → Option System
  | [] => some s
  | a :: as => (s.step a).bind (·.run as)

@[simp] theorem run_nil (s : System) : s.run [] = some s := rfl

@[simp] theorem run_cons (s : System) (a : Action) (as : List Action) :
    s.run (a :: as) = (s.step a).bind (·.run as) := rfl

theorem run_append (s : System) (as bs : List Action) :
    s.run (as ++ bs) = (s.run as).bind (·.run bs) := by
  induction as generalizing s with
  | nil => rfl
  | cons a as ih =>
    simp only [List.cons_append, run_cons]
    cases s.step a <;> simp [ih]

theorem step_append {s s' : System} {e : BinlogEvent} (h : s.step (.append e) = some s') :
    ∃ uuid f, s.newest = some (uuid, f) ∧ appendable f e = true ∧
      s' = { s with root := s.root.modify uuid (·.appendNewest e) } := by
  simp only [step] at h
  split at h
  · split at h
    · cases h
      exact ⟨_, _, ‹_›, ‹_›, rfl⟩
    · cases h
  · cases h

theorem step_create {s s' : System} {name : String} (h : s.step (.create name) = some s') :
    ∃ uuid f, s.newest = some (uuid, f) ∧
      (f.events.getLast?.any BinlogEvent.isRotate && nextRelayLogName f name) = true ∧
      s' = { s with root := s.root.modify uuid (·.create name) } := by
  simp only [step] at h
  split at h
  · split at h
    · cases h
      exact ⟨_, _, ‹_›, ‹_›, rfl⟩
    · cases h
  · cases h

/-- What holds of the start state and is kept by every move holds after every run. -/
theorem run_invariant {P : System → Prop} (hstep : ∀ s a s', P s → s.step a = some s' → P s')
    {s s' : System} {as : List Action} (hs : P s) (hrun : s.run as = some s') : P s' := by
  induction as generalizing s with
  | nil => exact Option.some.inj hrun ▸ hs
  | cons a as ih =>
    simp only [run_cons, Option.bind_eq_some] at hrun
    obtain ⟨t, ht, hrun⟩ := hrun
    exact ih (hstep s a t hs ht) hrun

/-- A property of the worker that its steps and the watcher's events on a relay directory
    satisfying `Q` keep holds at every point of every run, when every move keeps `Q`: the
    relay writer's moves leave the worker as it is. -/
theorem run_worker {Q : RelayRoot → Prop} {P : Worker → Prop}
    (hQ : ∀ {s s' : System} {a : Action}, Q s.root → s.step a = some s' → Q s'.root)
    (hstep : ∀ {w w' : Worker} {root : RelayRoot}, Q root → P w → w.step root = some w' → P w')
    (hwatch : ∀ {w w' : Worker} {root : RelayRoot} {name : String}, Q root → P w →
      w.watch root name = some w' → P w')
    {s s' : System} {as : List Action} (hq : Q s.root) (hs : P s.worker)
    (hrun : s.run as = some s') : P s'.worker := by
  refine (run_invariant (P := fun s => Q s.root ∧ P s.worker)
    (fun s a s' h hs' => ⟨hQ h.1 hs', ?_⟩) ⟨hq, hs⟩ hrun).2
  cases a with
  | work =>
    obtain ⟨w, hw, rfl⟩ := Option.map_eq_some'.mp hs'
    exact hstep h.1 h.2 hw
  | watch name =>
    obtain ⟨w, hw, rfl⟩ := Option.map_eq_some'.mp hs'
    exact hwatch h.1 h.2 hw
  | append e =>
    obtain ⟨_, _, -, -, rfl⟩ := step_append hs'
    exact h.2
  | create name =>
    obtain ⟨_, _, -, -, rfl⟩ := step_create hs'
    exact h.2

end System

end dm.streamer
