import BinlogRelay.Streamer.RelayDir

open dm.binlog

namespace dm.streamer

/-- The fields of `BinlogReader` its worker uses: the relay directory of its config,
    the index `StartSync` loaded, and `latestServerID`, the one field the worker writes.
    The running flag, the context and the parser handle belong to `Close`, which is not
    modelled. -/
structure BinlogReader where
  relayDir : String
  uuids : List String
  latestServerID : UInt32
  deriving DecidableEq, Repr

/-- Modelled from the spec: `utils.GenFakeRotateEvent` is not under src/. The ROTATE
    event a session starts a file with: timestamp and log position 0, flag
    `LOG_EVENT_ARTIFICIAL_F`, no checksum. -/
def GenFakeRotateEvent (nextLogName : String) (logPos : Nat) (serverID : UInt32) :
    BinlogEvent :=
  ⟨⟨0, serverID, (EventHeaderSize + 8 + nextLogName.utf8ByteSize).toUInt32, 0,
    LOG_EVENT_ARTIFICIAL_F⟩, .rotate nextLogName logPos⟩

/-- `onEventFunc` of `parseFile` on one event: the event it sends on the stream (none
    for an event the relay writer added), and the new `latestServerID` and
    `latestPos`. A ROTATE event whose next name does not parse dereferences the nil
    `*binlogFile` that `parseBinlogFile` returned. -/
def onEventFunc (uuidSuffix : String) (latestServerID : UInt32) (latestPos : Nat)
    (e : BinlogEvent) : Except ReaderPanic (Option BinlogEvent × UInt32 × Nat) :=
  if e.fromRelayWriter then .ok (none, latestServerID, latestPos) else
  match e.body with
  | .formatDescription => .ok (some e, e.header.serverID, latestPos)
  | .rotate nextLogName position =>
    match parseBinlogFile nextLogName with
    | none => .error (.nilBinlogFile nextLogName)
    | some parsed =>
      .ok (some { e with body := .rotate (constructBinlogName parsed uuidSuffix) position },
        e.header.serverID,
        if e.header.timestamp ≠ 0 ∧ e.header.logPos ≠ 0 then e.header.logPos.toNat else latestPos)
  | _ => .ok (some e, e.header.serverID, e.header.logPos.toNat)

theorem onEventFunc_ok {uuidSuffix : String} {sid sid' : UInt32} {L L' : Nat}
    {e : BinlogEvent} {out : Option BinlogEvent}
    (h : onEventFunc uuidSuffix sid L e = .ok (out, sid', L')) :
    (out = none ∧ sid' = sid) ∨ ∃ e', out = some e' ∧ e'.header = e.header ∧
      e'.isRotate = e.isRotate ∧ sid' = e.header.serverID := by
  unfold onEventFunc at h
  split at h
  · cases h
    exact .inl ⟨rfl, rfl⟩
  · split at h
    · cases h
      exact .inr ⟨e, rfl, rfl, rfl, rfl⟩
    · split at h
      · cases h
      · cases h
        exact .inr ⟨_, rfl, rfl, by simp [BinlogEvent.isRotate, *], rfl⟩
    · cases h
      exact .inr ⟨e, rfl, rfl, rfl, rfl⟩

/-- The server id of the last event sent on the stream, and `StartSync`'s 0 before the
    first. -/
def lastServerID (sent : List BinlogEvent) : UInt32 :=
  (sent.getLast?.map (·.header.serverID)).getD 0

/-- The locals of `parseDirAsPossible` that live across a call of `parseFileAsPossible`:
    the sub directory, and the collected files after the current one. -/
structure DirState where
  currentUUID : String
  rest : List String
  deriving DecidableEq, Repr

/-- The locals of one call of `parseFile`: the file, the offset it was called with,
    its running `latestPos`, and the suffix of the sub directory. -/
structure FileState where
  relayLogFile : String
  offset : Nat
  latestPos : Nat
  uuidSuffix : String
  deriving DecidableEq, Repr

/-- Where `ParseFile` reads: the event at offset 4, which it always delivers before it
    seeks to a start offset above 4, or the events from an offset on. -/
inductive ParseStage
  | formatDescription
  | events (offset : Nat)
  deriving DecidableEq, Repr

def ParseStage.offset : ParseStage → Nat
  | .formatDescription => FileHeaderLen.toNat
  | .events o => o

/-- Where `ParseFile` called with `offset` starts: at the event at offset 4 when it will
    seek past it, else at the offset, moved up to 4. -/
def ParseStage.start (offset : Nat) : ParseStage :=
  if offset > 4 then .formatDescription else .events (max offset 4)

/-- How `ParseFile` returned: with no error, with an error whose text holds `err EOF`,
    or with any other error. -/
inductive ParseOutcome
  | done
  | eofError
  | failure
  deriving DecidableEq, Repr

/-- The program points of the worker goroutine at which it reads the file system or
    waits, with the live locals of each. -/
inductive Pc
  /-- The top of `parseRelay`'s loop. -/
  | relay (pos : Position)
  /-- The top of `parseDirAsPossible`'s loop, about to collect the files from `pos`. -/
  | collect (currentUUID : String) (pos : Position) (firstParse : Bool)
  /-- Inside `ParseFile`, about to read an event. -/
  | parse (d : DirState) (f : FileState) (stage : ParseStage)
  /-- `needSwitchSubDir`, about to read the first file of the next sub directory. -/
  | nextDir (d : DirState) (f : FileState) (nextUUID : String)
  /-- `needSwitchSubDir`, about to compare the size of the current file. -/
  | switchStat (d : DirState) (f : FileState) (nextUUID nextBinlogName : String)
  /-- `relaySubDirUpdated`, about to add the watch. -/
  | watchAdd (d : DirState) (f : FileState)
  /-- `relaySubDirUpdated`, watching, about to compare the size of the current file. -/
  | watchStat (d : DirState) (f : FileState) (snap : List (String × Nat))
  /-- `relaySubDirUpdated`, waiting for the watcher. -/
  | waiting (d : DirState) (f : FileState) (snap : List (String × Nat))
  /-- Stopped: an error closed the stream, or a panic ended the process. -/
  | failed (err : ReaderFailure)
  deriving DecidableEq, Repr

/-- The worker goroutine: the reader it runs for, the events it has sent on the stream,
    and where it is. -/
structure Worker where
  reader : BinlogReader
  sent : List BinlogEvent
  pc : Pc
  deriving DecidableEq, Repr

namespace Worker

variable (w : Worker)

def dirPath (uuid : String) : String := pathJoin w.reader.relayDir uuid

def fullPath (d : DirState) (f : FileState) : String :=
  pathJoin (w.dirPath d.currentUUID) f.relayLogFile

def fail (err : ReaderFailure) : Worker := { w with pc := .failed err }

/-- `onEventFunc` on `e`, with the stream send. -/
def onEvent (f : FileState) (e : BinlogEvent) : Except ReaderPanic (Worker × FileState) :=
  (onEventFunc f.uuidSuffix w.reader.latestServerID f.latestPos e).map fun (out, sid, pos) =>
    ({ w with reader := { w.reader with latestServerID := sid }, sent := w.sent ++ out.toList },
     { f with latestPos := pos })

/-- The start of `parseFile`: the suffix of the sub directory, the fake ROTATE event on
    the first parse of a file, then `ParseFile` from `offset`, which reads from 4 at
    least. -/
def parseFile (d : DirState) (relayLogFile : String) (offset : Nat) (firstParse : Bool) :
    Worker :=
  match ParseSuffixForUUID d.currentUUID with
  | none => w.fail (.error (.invalidUUIDSuffix d.currentUUID))
  | some (_, suffixInt) =>
    let f : FileState := ⟨relayLogFile, offset, offset, SuffixIntToStr suffixInt⟩
    if firstParse then
      match w.onEvent f (GenFakeRotateEvent relayLogFile offset w.reader.latestServerID) with
      | .error p => w.fail (.panic p)
      | .ok (w', f') => { w' with pc := .parse d f' (.start offset) }
    else { w with pc := .parse d f (.start offset) }

/-- `parseFile` returns neither a switch nor a re-parse: `parseDirAsPossible` goes on
    with the next collected file from offset 4, or collects again from the position
    reached. -/
def fileDone (d : DirState) (f : FileState) : Worker :=
  match d.rest with
  | next :: rest => w.parseFile ⟨d.currentUUID, rest⟩ next 4 true
  | [] => { w with pc := .collect d.currentUUID ⟨f.relayLogFile, f.latestPos.toUInt32⟩ false }

/-- `parseFile` asks for a re-parse: `parseFileAsPossible` calls it again from
    `latestPos`, not as a first parse. -/
def reparse (d : DirState) (f : FileState) : Worker :=
  w.parseFile d f.relayLogFile f.latestPos false

/-- The end of `parseFile` once `ParseFile` returned: an `err EOF` error is ignored on
    the last collected file, any other error ends the stream; a file that is not the
    last is done, and for the last one `needSwitchSubDir` looks for a next sub
    directory. -/
def parseFileEnd (d : DirState) (f : FileState) (out : ParseOutcome) : Worker :=
  let possibleLast := d.rest.isEmpty
  if out = .failure ∨ (out = .eofError ∧ !possibleLast) then
    w.fail (.error (.parseFile (w.fullPath d f) f.offset))
  else if !possibleLast then w.fileDone d f
  else
    let nextUUID := getNextUUID w.reader.uuids d.currentUUID
    if nextUUID.length = 0 then { w with pc := .watchAdd d f }
    else { w with pc := .nextDir d f nextUUID }

/-- What `relaySubDirUpdated`'s caller does with the updated path: re-parse if it is the
    current file, else go on as for a finished file. -/
def afterUpdate (d : DirState) (f : FileState) (updatedPath : String) : Worker :=
  if hasSuffix updatedPath f.relayLogFile then w.reparse d f else w.fileDone d f

/-- One read of `ParseFile`: the event at the current offset is decoded and handed to
    `onEventFunc`; a clean end, an unfinished event or bytes that are not an event end
    the call. -/
def parseStep (root : RelayRoot) (d : DirState) (f : FileState) (stage : ParseStage) : Worker :=
  match root.file? d.currentUUID f.relayLogFile with
  | none => w.parseFileEnd d f .failure
  | some file =>
    match file.frameAt stage.offset with
    | .event e =>
      if eventLen e ≤ EventHeaderSize then w.parseFileEnd d f .failure
      else match w.onEvent f e with
        | .error p => w.fail (.panic p)
        | .ok (w', f') => { w' with pc := .parse d f' (match stage with
            | .formatDescription => .events (max f.offset 4)
            | .events o => .events (o + eventLen e)) }
    | .eof =>
      match stage with
      | .formatDescription => { w with pc := .parse d f (.events (max f.offset 4)) }
      | .events _ => w.parseFileEnd d f .done
    | .truncated => w.parseFileEnd d f .eofError
    | .invalid => w.parseFileEnd d f .failure

/-- The rest of `parseRelay`'s loop once `parseDirAsPossible` asked for a switch: the
    position of the first file of the next sub directory, named with its suffix. -/
def switchSubDir (nextUUID nextBinlogName : String) : Worker :=
  match ParseSuffixForUUID nextUUID with
  | none => w.fail (.error (.invalidUUIDSuffix nextUUID))
  | some (_, suffixInt) =>
    match parseBinlogFile nextBinlogName with
    | none => w.fail (.error (.invalidBinlogFilename nextBinlogName))
    | some parsed =>
      { w with pc := .relay ⟨constructBinlogName parsed (SuffixIntToStr suffixInt), 4⟩ }

/-- One step of the worker up to its next read of the file system. A waiting or a
    stopped worker takes none. -/
def step (root : RelayRoot) : Option Worker :=
  match w.pc with
  | .relay pos =>
    some <| match extractPos w.reader.uuids pos with
      | .error err => w.fail err
      | .ok (currentUUID, _, realPos) => { w with pc := .collect currentUUID realPos true }
  | .collect currentUUID pos firstParse =>
    some <| match collectBinlogFiles (root.subDir? currentUUID) (w.dirPath currentUUID) pos.name with
      | .error err => w.fail (.error err)
      | .ok [] => w.fail (.error (.noRelayLogFilesMatch pos))
      | .ok (first :: rest) =>
        if !hasSuffix first pos.name then w.fail (.error (.firstRelayLogMismatch first pos))
        else w.parseFile ⟨currentUUID, rest⟩ first pos.pos.toNat firstParse
  | .parse d f stage => some (w.parseStep root d f stage)
  | .nextDir d f nextUUID =>
    some <| match getFirstBinlogName w.reader.relayDir root nextUUID with
      | .error err => w.fail (.error err)
      | .ok nextBinlogName => { w with pc := .switchStat d f nextUUID nextBinlogName }
  | .switchStat d f nextUUID nextBinlogName =>
    some <| match fileSizeUpdated (root.file? d.currentUUID f.relayLogFile) (w.fullPath d f)
        f.latestPos with
      | .error err => w.fail err
      | .ok cmp =>
        if cmp < 0 then w.fail (.error (.fileSizeSmaller (w.fullPath d f)))
        else if cmp > 0 then w.reparse d f
        else w.switchSubDir nextUUID nextBinlogName
  | .watchAdd d f =>
    some <| match root.subDir? d.currentUUID with
      | none => w.fail (.error (.watchDir (w.dirPath d.currentUUID)))
      | some sub => { w with pc := .watchStat d f (snapshot sub) }
  | .watchStat d f snap =>
    some <| match fileSizeUpdated (root.file? d.currentUUID f.relayLogFile) (w.fullPath d f)
        f.latestPos with
      | .error err => w.fail err
      | .ok cmp =>
        if cmp < 0 then w.fail (.error (.fileSizeSmaller (w.fullPath d f)))
        else if cmp > 0 then w.afterUpdate d f (w.fullPath d f)
        else { w with pc := .waiting d f snap }
  | .waiting .. => none
  | .failed _ => none

/-- The watcher's result for a waiting worker: a create or modify event on `name`, an
    entry of the watched directory that changed since the watch was added and is named
    like a relay log. -/
def watch (root : RelayRoot) (name : String) : Option Worker :=
  match w.pc with
  | .waiting d f snap =>
    match root.file? d.currentUUID name with
    | some file =>
      if changedSince snap file && GetBinlogFileIndex name then
        some (w.afterUpdate d f (pathJoin (w.dirPath d.currentUUID) name))
      else none
    | none => none
  | _ => none

/-- The events a step on `root` hands to `onEvent`: the fake ROTATE event `parseFile` builds
    with the reader's `latestServerID`, and the events of the entries of the relay
    directory. -/
def Reads (root : RelayRoot) (e : BinlogEvent) : Prop :=
  (∃ name offset, e = GenFakeRotateEvent name offset w.reader.latestServerID) ∨
    ∃ d ∈ root.subDirs, ∃ F ∈ d.files, e ∈ F.events

section Closure

variable {w} {w' : Worker} {d : DirState} {f : FileState} {P : Worker → Prop}

theorem onEvent_eq_ok_inv {e : BinlogEvent} {f' : FileState} (h : w.onEvent f e = .ok (w', f')) :
    ∃ out sid L, onEventFunc f.uuidSuffix w.reader.latestServerID f.latestPos e =
      .ok (out, sid, L) ∧
      w' = ⟨{ w.reader with latestServerID := sid }, w.sent ++ out.toList, w.pc⟩ := by
  unfold onEvent at h
  cases hr : onEventFunc f.uuidSuffix w.reader.latestServerID f.latestPos e with
  | error p => simp [hr, Except.map] at h
  | ok r =>
    obtain ⟨out, sid, L⟩ := r
    simp only [hr, Except.map, Except.ok.injEq, Prod.mk.injEq] at h
    exact ⟨out, sid, L, rfl, h.1.symm⟩

/-- A property of the worker kept by a change of program point and by a call of
    `onEvent` on an event a step on `root` reads: every step and every watcher event on
    `root` keep it, being made of these. -/
structure StepClosed (root : RelayRoot) (P : Worker → Prop) : Prop where
  pc : ∀ w (pc : Pc), P w → P { w with pc := pc }
  onEvent : ∀ w f e w' f', P w → w.Reads root e → Worker.onEvent w f e = .ok (w', f') → P w'

namespace StepClosed

variable {root : RelayRoot} (hP : StepClosed root P) (hw : P w)
include hP hw

theorem fail (err : ReaderFailure) : P (w.fail err) := hP.pc w _ hw

theorem parseFile (name : String) (offset : Nat) (firstParse : Bool) :
    P (w.parseFile d name offset firstParse) := by
  unfold Worker.parseFile
  split
  · exact hP.fail hw _
  · dsimp only
    split
    · split
      · exact hP.fail hw _
      · exact hP.pc _ _ (hP.onEvent _ _ _ _ _ hw (.inl ⟨_, _, rfl⟩) ‹_›)
    · exact hP.pc _ _ hw

theorem fileDone : P (w.fileDone d f) := by
  unfold Worker.fileDone
  split
  · exact hP.parseFile hw _ _ _
  · exact hP.pc _ _ hw

theorem parseFileEnd (out : ParseOutcome) : P (w.parseFileEnd d f out) := by
  unfold Worker.parseFileEnd
  dsimp only
  split
  · exact hP.fail hw _
  · split
    · exact hP.fileDone hw
    · split <;> exact hP.pc _ _ hw

theorem afterUpdate (path : String) : P (w.afterUpdate d f path) := by
  unfold Worker.afterUpdate
  split
  · exact hP.parseFile hw _ _ _
  · exact hP.fileDone hw

theorem parseStep (stage : ParseStage) : P (w.parseStep root d f stage) := by
  unfold Worker.parseStep
  split
  · exact hP.parseFileEnd hw _
  · rename_i hfile
    split
    · rename_i he
      split
      · exact hP.parseFileEnd hw _
      · split
        · exact hP.fail hw _
        · exact hP.pc _ _ (hP.onEvent _ _ _ _ _ hw (.inr (RelayRoot.frameAt_mem hfile he)) ‹_›)
    · split
      · exact hP.pc _ _ hw
      · exact hP.parseFileEnd hw _
    · exact hP.parseFileEnd hw _
    · exact hP.parseFileEnd hw _

theorem switchSubDir (nextUUID name : String) : P (w.switchSubDir nextUUID name) := by
  unfold Worker.switchSubDir
  split
  · exact hP.fail hw _
  · split
    · exact hP.fail hw _
    · exact hP.pc _ _ hw

theorem step (h : w.step root = some w') : P w' := by
  unfold Worker.step at h
  split at h <;> cases h
  · split
    · exact hP.fail hw _
    · exact hP.pc _ _ hw
  · split
    · exact hP.fail hw _
    · exact hP.fail hw _
    · split
      · exact hP.fail hw _
      · exact hP.parseFile hw _ _ _
  · exact hP.parseStep hw _
  · split
    · exact hP.fail hw _
    · exact hP.pc _ _ hw
  · split
    · exact hP.fail hw _
    · split
      · exact hP.fail hw _
      · split
        · exact hP.parseFile hw _ _ _
        · exact hP.switchSubDir hw _ _
  · split
    · exact hP.fail hw _
    · exact hP.pc _ _ hw
  · split
    · exact hP.fail hw _
    · split
      · exact hP.fail hw _
      · split
        · exact hP.afterUpdate hw _
        · exact hP.pc _ _ hw

theorem watch {name : String} (h : w.watch root name = some w') : P w' := by
  unfold Worker.watch at h
  split at h
  · split at h
    · split at h
      · cases h
        exact hP.afterUpdate hw _
      · cases h
    · cases h
  · cases h

end StepClosed

/-- What the stream says of server ids: `latestServerID` is the server id of the last event
    sent, and an event sent with a zero timestamp is a ROTATE event carrying the server id
    of the event sent before it. -/
structure ServerIDs (w : Worker) : Prop where
  latest : w.reader.latestServerID = lastServerID w.sent
  fakeRotate : ∀ pre e, pre ++ [e] <+: w.sent → e.header.timestamp = 0 →
    e.isRotate ∧ e.header.serverID = lastServerID pre

theorem serverIDs_stepClosed {root : RelayRoot} (hroot : root.Stamped) :
    StepClosed root ServerIDs := by
  refine ⟨fun _ _ h => ⟨h.1, h.2⟩, fun w₁ f e w₂ f' h hread hev => ?_⟩
  obtain ⟨out, sid, L, hr, rfl⟩ := onEvent_eq_ok_inv hev
  rcases onEventFunc_ok hr with ⟨rfl, rfl⟩ | ⟨e', rfl, hhdr, hrot, rfl⟩
  · simpa using h
  · refine ⟨by simp [lastServerID, hhdr], fun pre x hx hts => ?_⟩
    rw [Option.toList_some, List.prefix_concat_iff] at hx
    rcases hx with heq | hx
    · obtain ⟨rfl, hx⟩ := List.append_inj' heq rfl
      obtain rfl : x = e' := List.singleton_injective hx
      rw [hhdr] at hts ⊢
      rw [hrot]
      rcases hread with ⟨name, offset, rfl⟩ | ⟨d, hd, F, hF, he⟩
      · exact ⟨rfl, h.latest⟩
      · exact absurd hts (hroot d hd F hF e he)
    · exact h.fakeRotate pre x hx hts

end Closure

/-- `extractPos` reads the base name of a start position through the `*binlogFile` that
    `parseBinlogFile` returned, without looking at its error: for every name the parser
    rejects and any non-empty index, the worker's first step is that nil dereference. -/
theorem step_relay_panics_of_parseBinlogFile_none {root : RelayRoot} {pos : Position}
    (hrelay : w.pc = .relay pos) (huuids : w.reader.uuids ≠ [])
    (hname : parseBinlogFile pos.name = none) :
    w.step root = some (w.fail (.panic (.nilBinlogFile pos.name))) := by
  simp [step, hrelay, extractPos, huuids, hname]

/-- `StartSync` accepts the name `mysql-bin`, which has no sequence number. -/
theorem step_relay_panics_without_sequence :
    let w : Worker := ⟨⟨"/data/relay", ["c6ae5afe-c7a3-11e8-a19d-0242ac130006.000001"], 0⟩, [],
      .relay ⟨"mysql-bin", 4⟩⟩
    w.step ⟨[]⟩ = some (w.fail (.panic (.nilBinlogFile "mysql-bin"))) :=
  step_relay_panics_of_parseBinlogFile_none _ rfl (by decide) (by decide)

end Worker

/-- `StartSync`: a start position needs a name and the reader must not be running; the index
    is reloaded (`index` is what `updateUUIDs` read, `none` when that failed), and the worker
    starts at the top of `parseRelay` with `latestServerID` reset and nothing sent. -/
def StartSync (running : Bool) (relayDir : String) (index : Option (List String))
    (pos : Position) : Except ReaderError Worker :=
  if pos.name = "" then .error .binlogFileNotSpecified
  else if running then .error .readerRunning
  else match index with
    | none => .error .uuidIndex
    | some uuids => .ok ⟨⟨relayDir, uuids, 0⟩, [], .relay pos⟩

theorem StartSync_eq_ok {w : Worker} {running : Bool} {relayDir : String}
    {index : Option (List String)} {pos : Position} :
    StartSync running relayDir index pos = .ok w ↔
      pos.name ≠ "" ∧ running = false ∧ ∃ uuids, index = some uuids ∧
        w = ⟨⟨relayDir, uuids, 0⟩, [], .relay pos⟩ := by
  unfold StartSync
  split
  · simp_all
  · split
    · simp_all
    · split <;> simp_all [eq_comm]

end dm.streamer
