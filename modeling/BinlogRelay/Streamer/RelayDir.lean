import BinlogRelay.Streamer.ExtractPos
import Mathlib.Data.List.Sort

open dm.binlog

namespace dm.streamer

/-- Modelled from the spec: `utils.MetaFilename` is not under src/. Every relay sub
    directory holds this meta file beside its relay logs. -/
def MetaFilename : String := "relay.meta"

/-- `path.Join` of a clean directory path and a plain entry name. -/
def pathJoin (dir name : String) : String := dir ++ "/" ++ name

def eventLen (e : BinlogEvent) : Nat := e.header.eventSize.toNat

def eventsLen (es : List BinlogEvent) : Nat := (es.map eventLen).sum

@[simp] theorem eventsLen_nil : eventsLen [] = 0 := rfl

@[simp] theorem eventsLen_cons (e : BinlogEvent) (es : List BinlogEvent) :
    eventsLen (e :: es) = eventLen e + eventsLen es := by
  simp [eventsLen]

@[simp] theorem eventsLen_append (es es' : List BinlogEvent) :
    eventsLen (es ++ es') = eventsLen es + eventsLen es' := by
  simp [eventsLen]

/-- A directory entry of a relay sub directory, with what a reader of it can see: the
    4-byte binlog header, the complete events after it, and `partialBytes` bytes of an
    event whose write has not finished yet. -/
structure RelayLogFile where
  name : String
  events : List BinlogEvent
  partialBytes : Nat
  deriving DecidableEq, Repr

/-- A relay sub directory `<RelayDir>/<uuid>`, its entries in creation order. -/
structure RelaySubDir where
  uuid : String
  files : List RelayLogFile
  deriving DecidableEq, Repr

/-- The relay directory, one sub directory per master epoch. -/
structure RelayRoot where
  subDirs : List RelaySubDir
  deriving DecidableEq, Repr

def RelayRoot.subDir? (root : RelayRoot) (uuid : String) : Option RelaySubDir :=
  root.subDirs.find? (·.uuid == uuid)

def RelaySubDir.file? (d : RelaySubDir) (name : String) : Option RelayLogFile :=
  d.files.find? (·.name == name)

def RelayRoot.file? (root : RelayRoot) (uuid name : String) : Option RelayLogFile :=
  (root.subDir? uuid).bind (·.file? name)

/-- `os.Stat(path).Size()` of a relay log file. -/
def RelayLogFile.size (f : RelayLogFile) : Nat :=
  FileHeaderLen.toNat + eventsLen f.events + f.partialBytes

/-- Modelled from the spec: go-mysql's `BinlogParser` is not under src/. What its event
    decoder finds when it reads an event header at an offset. -/
inductive Frame
  /-- A complete event starts here. -/
  | event (e : BinlogEvent)
  /-- `io.CopyN` of the event header meets the end of the file, after none or some of its
      bytes: a clean end. -/
  | eof
  /-- The header is there but not the rest of the event: an error whose text holds
      `err EOF`. -/
  | truncated
  /-- The offset is not at an event boundary. -/
  | invalid
  deriving DecidableEq, Repr

/-- Modelled from the spec: the frame at offset `o` of events laid out from offset `start`,
    followed by `partialBytes` bytes of an unfinished event, which ends the file cleanly
    while it is shorter than an event header. -/
def frameIn (partialBytes o : Nat) : List BinlogEvent → Nat → Frame
  | [], start =>
    if o = start then (if EventHeaderSize ≤ partialBytes then .truncated else .eof)
    else if start + partialBytes ≤ o then .eof else .invalid
  | e :: es, start =>
    if o = start then .event e
    else if o < start + eventLen e then .invalid
    else frameIn partialBytes o es (start + eventLen e)

def RelayLogFile.frameAt (f : RelayLogFile) (o : Nat) : Frame :=
  frameIn f.partialBytes o f.events FileHeaderLen.toNat

/-- The order `sort.Strings` sorts names in. -/
def nameLe (a b : String) : Prop := stringLt b.data a.data = false

instance : DecidableRel nameLe := fun _ _ => inferInstanceAs (Decidable (_ = _))

/-- Modelled from the spec: `readDir` is not under src/. The entry names of a
    directory, sorted as `sort.Strings` sorts them. -/
def readDir (d : RelaySubDir) : List String :=
  (d.files.map (·.name)).insertionSort nameLe

/-- Modelled from the spec: `collectBinlogFiles` is not under src/. The relay logs of a
    directory from `firstFile` on: the sorted entries with the base name of `firstFile`
    as prefix whose name parses and is not older than `firstFile`. -/
def collectBinlogFiles (d : Option RelaySubDir) (dirpath firstFile : String) :
    Except ReaderError (List String) :=
  match d with
  | none => .error (.readDir dirpath)
  | some d =>
    match parseBinlogFile firstFile with
    | none => .error (.invalidBinlogFilename firstFile)
    | some ff =>
      .ok ((readDir d).filter fun f =>
        hasPrefix f ff.baseName && (parseBinlogFile f).any (·.BiggerOrEqualThan ff))

/-- The loop of `getFirstBinlogName` over the sorted entries: the meta file is
    skipped, and the first other entry must be a relay log. -/
def firstBinlogName (fpath : String) : List String → Except ReaderError String
  | [] => .error (.binlogFilesNotFound fpath)
  | f :: fs =>
    if f = MetaFilename then firstBinlogName fpath fs
    else if (parseBinlogFile f).isSome then .ok f
    else .error (.binlogFileNotValid f)

/-- `BinlogReader.getFirstBinlogName`: the first relay log of the sub directory `uuid`. -/
def getFirstBinlogName (relayDir : String) (root : RelayRoot) (uuid : String) :
    Except ReaderError String :=
  let fpath := pathJoin relayDir uuid
  match root.subDir? uuid with
  | none => .error (.readDir fpath)
  | some d => firstBinlogName fpath (readDir d)

/-- `BinlogReader.fileSizeUpdated`: `0` if the file still has `latestSize` bytes, `1` if
    it grew; a smaller file panics. -/
def fileSizeUpdated (f : Option RelayLogFile) (path : String) (latestSize : Nat) :
    Except ReaderFailure Int :=
  match f with
  | none => .error (.error (.stat path))
  | some f =>
    if f.size = latestSize then .ok 0
    else if f.size > latestSize then .ok 1
    else .error (.panic (.fileSizeChanged latestSize f.size))

def isDecimalMantissa (cs : List Char) : Bool :=
  cs.any isDigit && cs.all (fun c => isDigit c || c == '.') && cs.count '.' ≤ 1

/-- Modelled from the spec: the strings `strconv.ParseFloat` accepts, in their decimal
    forms: an optional sign, a mantissa, an optional exponent; or an optional sign and
    `inf`, `infinity` or `nan` in any case. Hexadecimal and underscored forms are not
    modelled. -/
def parseFloatOk (s : String) : Bool :=
  let cs := match s.data with
    | '+' :: r | '-' :: r => r
    | r => r
  let lower := cs.map Char.toLower
  lower == "inf".data || lower == "infinity".data || lower == "nan".data ||
    match cs.span fun c => c != 'e' && c != 'E' with
    | (m, []) => isDecimalMantissa m
    | (m, _ :: ex) =>
      let ex := match ex with
        | '+' :: r | '-' :: r => r
        | r => r
      isDecimalMantissa m && ex != [] && ex.all isDigit

/-- Modelled from the spec: `GetBinlogFileIndex` is not under src/. Whether a name is a
    relay log name with a numeric sequence; the `float64` index it computes is
    discarded by its only caller. -/
def GetBinlogFileIndex (filename : String) : Bool :=
  (parseBinlogFile filename).any fun f => parseFloatOk f.seq

/-- Modelled from the spec: the polling watcher is not under src/. What it records of a
    directory when it is added: each entry with its size. -/
def snapshot (d : RelaySubDir) : List (String × Nat) :=
  d.files.map fun f => (f.name, f.size)

/-- Modelled from the spec: the watcher reports a create or modify event for an entry
    that was not in the snapshot or whose size has changed since. -/
def changedSince (snap : List (String × Nat)) (f : RelayLogFile) : Bool :=
  !snap.contains (f.name, f.size)

section Frames

variable {p o start : Nat} {es : List BinlogEvent}

@[simp] theorem frameIn_cons_self (e : BinlogEvent) : frameIn p o (e :: es) o = .event e := by
  simp [frameIn]

theorem frameIn_take (hes : ∀ e ∈ es, 0 < eventLen e) {n : Nat} (hn : n < es.length) :
    frameIn p (start + eventsLen (es.take n)) es start = .event es[n] := by
  induction es generalizing start n with
  | nil => cases hn
  | cons e es ih =>
    have he := hes e (List.mem_cons_self e es)
    cases n with
    | zero => simp
    | succ n =>
      have hnext := @ih (start + eventLen e) (fun x hx => hes x (List.mem_cons_of_mem e hx)) n
        (Nat.lt_of_succ_lt_succ hn)
      simp only [List.take_succ_cons, eventsLen_cons, frameIn]
      rw [if_neg (by omega), if_neg (by omega), ← Nat.add_assoc]
      exact hnext

theorem frameIn_of_le (hes : ∀ e ∈ es, 0 < eventLen e) (h : start + eventsLen es + p ≤ o) :
    frameIn p o es start = .eof := by
  induction es generalizing start with
  | nil =>
    simp only [eventsLen_nil, Nat.add_zero] at h
    have : EventHeaderSize = 19 := rfl
    unfold frameIn
    split_ifs <;> first | rfl | omega
  | cons e es ih =>
    have he := hes e (List.mem_cons_self e es)
    simp only [eventsLen_cons] at h
    simp only [frameIn]
    rw [if_neg (by omega), if_neg (by omega)]
    exact ih (fun x hx => hes x (List.mem_cons_of_mem e hx)) (by omega)

theorem frameIn_mem {e : BinlogEvent} (h : frameIn p o es start = .event e) : e ∈ es := by
  induction es generalizing start with
  | nil => unfold frameIn at h; split_ifs at h
  | cons x es ih =>
    unfold frameIn at h
    split_ifs at h
    · cases h
      exact List.mem_cons_self _ _
    · exact List.mem_cons_of_mem _ (ih h)

end Frames

theorem RelayRoot.subDir?_mem {root : RelayRoot} {uuid : String} {d : RelaySubDir}
    (h : root.subDir? uuid = some d) : d ∈ root.subDirs ∧ d.uuid = uuid := by
  unfold RelayRoot.subDir? at h
  exact ⟨List.mem_of_find?_eq_some h, by simpa using List.find?_some h⟩

theorem RelayRoot.frameAt_mem {root : RelayRoot} {uuid name : String} {F : RelayLogFile}
    {o : Nat} {e : BinlogEvent} (hF : root.file? uuid name = some F)
    (he : F.frameAt o = .event e) : ∃ d ∈ root.subDirs, ∃ F ∈ d.files, e ∈ F.events := by
  obtain ⟨d, hd, hF⟩ := Option.bind_eq_some.mp hF
  exact ⟨d, (RelayRoot.subDir?_mem hd).1, F, List.mem_of_find?_eq_some hF, frameIn_mem he⟩

/-- Every event of every entry of a sub directory has a non-zero timestamp, as every event
    the relay writer appends has. -/
def RelaySubDir.Stamped (d : RelaySubDir) : Prop :=
  ∀ F ∈ d.files, ∀ e ∈ F.events, e.header.timestamp ≠ 0

def RelayRoot.Stamped (root : RelayRoot) : Prop :=
  ∀ d ∈ root.subDirs, d.Stamped

instance : DecidablePred RelaySubDir.Stamped := fun d =>
  inferInstanceAs (Decidable (∀ F ∈ d.files, ∀ e ∈ F.events, e.header.timestamp ≠ 0))

instance : DecidablePred RelayRoot.Stamped := fun root =>
  inferInstanceAs (Decidable (∀ d ∈ root.subDirs, d.Stamped))

end dm.streamer
