import BinlogRelay.Streamer.Drain

open dm.binlog

namespace dm.streamer

instance instDecidableEqExcept {ε α : Type} [DecidableEq ε] [DecidableEq α] :
    DecidableEq (Except ε α)
  | .error a, .error b => decidable_of_iff (a = b) (by simp)
  | .ok a, .ok b => decidable_of_iff (a = b) (by simp)
  | .error _, .ok _ => isFalse (by simp)
  | .ok _, .error _ => isFalse (by simp)

/-- The moves of the reader's side of the system: a step of the worker and a watcher event.
    The relay writer makes the others. -/
def Action.byReader : Action → Bool
  | .work | .watch _ => true
  | .append _ | .create _ => false

/-- `s'` is reached from `s` by moves of the worker and the watcher alone. -/
def ReaderRun (s s' : System) : Prop :=
  ∃ moves : List Action, moves.all Action.byReader ∧ s.run moves = some s'

namespace ReaderRun

variable {s s' s'' : System}

theorem refl (s : System) : ReaderRun s s := ⟨[], rfl, rfl⟩

theorem trans (h : ReaderRun s s') (h' : ReaderRun s' s'') : ReaderRun s s'' := by
  obtain ⟨ms, hms, hrun⟩ := h
  obtain ⟨ms', hms', hrun'⟩ := h'
  exact ⟨ms ++ ms', by simp [hms, hms'],
    by rw [System.run_append, hrun, Option.some_bind, hrun']⟩

theorem of_workRun (h : WorkRun s s') : ReaderRun s s' := by
  obtain ⟨n, hrun⟩ := h
  exact ⟨List.replicate n .work, by simp [Action.byReader], hrun⟩

theorem of_watch {root : RelayRoot} {w w' : Worker} {name : String}
    (h : w.watch root name = some w') : ReaderRun ⟨root, w⟩ ⟨root, w'⟩ :=
  ⟨[.watch name], rfl, by simp [System.step, h]⟩

end ReaderRun

/-- The sub directory and file locals of a program point inside `parseDirAsPossible`. -/
def Pc.dirFile? : Pc → Option (DirState × FileState)
  | .parse d f _ | .nextDir d f _ | .switchStat d f _ _ | .watchAdd d f | .watchStat d f _
  | .waiting d f _ => some (d, f)
  | .relay _ | .collect .. | .failed _ => none

/-- Inside `parseDirAsPossible` the files the worker has left to parse are those
    `CollectBinlogFilesCmp` would list now after its current relay log: no relay log was
    opened in its sub directory since the worker listed it. -/
def Worker.ListedAll (w : Worker) (root : RelayRoot) : Prop :=
  ∀ x ∈ w.pc.dirFile?, collectBinlogFiles (root.subDir? x.1.currentUUID)
    (w.dirPath x.1.currentUUID) x.2.relayLogFile = .ok (x.2.relayLogFile :: x.1.rest)

instance (w : Worker) (root : RelayRoot) : Decidable (w.ListedAll root) :=
  inferInstanceAs (Decidable (∀ x ∈ w.pc.dirFile?, _))

theorem hasSuffix_pathJoin (dir name : String) : hasSuffix (pathJoin dir name) name = true := by
  simpa [hasSuffix, pathJoin, List.isSuffixOf_iff_suffix] using
    List.suffix_append (dir.data ++ ['/']) name.data

theorem Worker.afterUpdate_current (w : Worker) (d : DirState) (f : FileState) (dir : String) :
    w.afterUpdate d f (pathJoin dir f.relayLogFile) = w.reparse d f := by
  simp [Worker.afterUpdate, hasSuffix_pathJoin]

section Steps

variable {st : StreamStart} {root : RelayRoot} {w : Worker} {d : DirState} {f : FileState}
  {j p l r : Nat} {F : RelayLogFile}

theorem InFile.rest_eq_of_listed {sent : List BinlogEvent} (hroot : root.WF)
    (h : InFile st root sent d f j p F l r) {path : String}
    (hc : collectBinlogFiles (root.subDir? d.currentUUID) path f.relayLogFile =
      .ok (f.relayLogFile :: d.rest)) :
    d.rest = ((st.planFiles root j).drop (p + 1)).map (·.name) := by
  rw [h.uuid, h.file, StreamStart.collect_planFiles hroot h.slot, Except.ok.injEq,
    List.cons.injEq] at hc
  exact hc.2.symm

theorem InFile.last_of_rest_nil {sent : List BinlogEvent} (h : InFile st root sent d f j p F l r)
    (hrest : ((st.planFiles root j).drop (p + 1)).map (·.name) = []) :
    p + 1 = (st.planFiles root j).length := by
  have := (List.getElem?_eq_some_iff.mp h.slot).1
  simp only [List.map_eq_nil_iff, List.drop_eq_nil_iff] at hrest
  omega

theorem InFile.last_of_listed {sent : List BinlogEvent} (hroot : root.WF)
    (h : InFile st root sent d f j p F l r) {path : String}
    (hc : collectBinlogFiles (root.subDir? d.currentUUID) path f.relayLogFile =
      .ok (f.relayLogFile :: d.rest)) (hr : d.rest = []) :
    p + 1 = (st.planFiles root j).length :=
  h.last_of_rest_nil ((h.rest_eq_of_listed hroot hc).symm.trans hr)

theorem InFile.sentView_eq_idealStream {sent : List BinlogEvent}
    (h : InFile st root sent d f j p F l F.events.length)
    (hp : p + 1 = (st.planFiles root j).length) (hj : j + 1 = st.entries.length) :
    sentView sent = st.idealStream root := by
  rw [h.sent, partialSlot_length, ← StreamStart.streamBefore_succ h.slot, hp,
    StreamStart.streamBefore_newest h.epoch_le hj]

theorem InFile.reparse_reading (hidx : IndexWF st.entries) (hroot : root.WF)
    (hu : w.reader.uuids = st.uuids) (h : InFile st root w.sent d f j p F l r)
    (hrest : d.rest = ((st.planFiles root j).drop (p + 1)).map (·.name)) :
    Reading st root (w.reparse d f) j p F l := by
  have hat := h.atLast
  obtain ⟨out, hw, hin, hstage⟩ := InFile.parseFile (w := w) hidx hroot h.epoch_le h.epoch_lt
    h.slot hat.read_le h.lastForwarded.restart h.uuid h.rest_isPrefix h.rest_eq false
    (by simpa using hat.sent)
  unfold Worker.reparse
  rw [h.file, h.latestPos, hw]
  exact ⟨hu, d, _, _, _, rfl, hin, hstage, hrest⟩

end Steps

section CatchUp

variable {st : StreamStart} {root : RelayRoot} {w : Worker} {d : DirState} {f : FileState}
  {j p l r : Nat} {F : RelayLogFile}
variable (hidx : IndexWF st.entries) (hroot : root.WF)
  (hrot : ∀ j, ∀ G ∈ st.planFiles root j, ∀ e ∈ G.events, rotateNameParses e = true)
  (hne : ∀ j < st.entries.length, st.epoch < j → st.planFiles root j ≠ [])
  (hend : ∀ j < st.entries.length - 1, st.epoch ≤ j → EndsForwarded st root j)
  (hindex : ∀ j, ∀ G ∈ st.planFiles root j, GetBinlogFileIndex G.name = true)
include hidx hroot hrot hne hend

theorem InFile.run_reparse (hu : w.reader.uuids = st.uuids)
    (h : InFile st root w.sent d f j p F l r)
    (hrest : d.rest = ((st.planFiles root j).drop (p + 1)).map (·.name)) :
    ∃ w', WorkRun ⟨root, w.reparse d f⟩ ⟨root, w'⟩ ∧ sentView w'.sent = st.idealStream root :=
  (h.reparse_reading hidx hroot hu hrest).run_to_ideal hidx hroot hrot hne hend

theorem InFile.run_watchStat (hu : w.reader.uuids = st.uuids)
    (h : InFile st root w.sent d f j p F l r) (hr : d.rest = [])
    (hp : p + 1 = (st.planFiles root j).length) (hj : j + 1 = st.entries.length)
    {snap : List (String × Nat)} (hpc : w.pc = .watchStat d f snap) :
    ∃ w', ReaderRun ⟨root, w⟩ ⟨root, w'⟩ ∧ sentView w'.sent = st.idealStream root := by
  obtain ⟨hF, hfile⟩ := h.file? hroot
  have hrest : d.rest = ((st.planFiles root j).drop (p + 1)).map (·.name) := by
    rw [hr, List.drop_eq_nil_of_le (by omega), List.map_nil]
  by_cases hl : l = F.events.length
  · have hr' : r = F.events.length := by
      have := h.lastForwarded.le_read; have := h.read_le; omega
    subst hr'
    exact ⟨w, .refl _, h.sentView_eq_idealStream hp hj⟩
  · have hstep : w.step root = some (w.reparse d f) := by
      simp [Worker.step, hpc, hfile, h.latestPos, hF.fileSizeUpdated h.atLast.read_le, hl,
        Worker.fullPath, Worker.afterUpdate_current]
    obtain ⟨w', hrun, hideal⟩ := h.run_reparse hidx hroot hrot hne hend hu hrest
    exact ⟨w', .of_workRun ((WorkRun.of_step hstep).trans hrun), hideal⟩

include hindex

theorem InFile.run_waiting (hu : w.reader.uuids = st.uuids)
    (h : InFile st root w.sent d f j p F l r) (hr : d.rest = [])
    (hp : p + 1 = (st.planFiles root j).length) (hj : j + 1 = st.entries.length)
    {snap : List (String × Nat)} (hsnap : ∀ y, (F.name, y) ∈ snap → y ≤ offsetOf F.events r)
    (hpc : w.pc = .waiting d f snap) :
    ∃ w', ReaderRun ⟨root, w⟩ ⟨root, w'⟩ ∧ sentView w'.sent = st.idealStream root := by
  obtain ⟨hF, hfile⟩ := h.file? hroot
  have hrest : d.rest = ((st.planFiles root j).drop (p + 1)).map (·.name) := by
    rw [hr, List.drop_eq_nil_of_le (by omega), List.map_nil]
  rcases h.read_le.eq_or_lt with hr' | hr'
  · subst hr'
    exact ⟨w, .refl _, h.sentView_eq_idealStream hp hj⟩
  · have hchanged : changedSince snap F = true := by
      have hsize : F.size = offsetOf F.events F.events.length := by
        simp [RelayLogFile.size, offsetOf_length, hF.complete]
      have hlt := offsetOf_lt_offsetOf hF.laidOut hr' le_rfl
      have hnot : (F.name, F.size) ∉ snap := fun hmem => absurd (hsnap F.size hmem) (by omega)
      simpa [changedSince] using hnot
    have hname : GetBinlogFileIndex f.relayLogFile = true :=
      h.file ▸ hindex j F (List.getElem?_mem h.slot)
    have hwatch : w.watch root f.relayLogFile = some (w.reparse d f) := by
      simp [Worker.watch, hpc, hfile, hchanged, hname, Worker.afterUpdate_current]
    obtain ⟨w', hrun, hideal⟩ := h.run_reparse hidx hroot hrot hne hend hu hrest
    exact ⟨w', (ReaderRun.of_watch hwatch).trans (.of_workRun hrun), hideal⟩

theorem Synced.run_to_ideal (h : Synced st root w) (hstop : ∀ err, w.pc ≠ .failed err)
    (hlisted : w.ListedAll root) :
    ∃ w', ReaderRun ⟨root, w⟩ ⟨root, w'⟩ ∧ sentView w'.sent = st.idealStream root := by
  obtain ⟨hu, h⟩ := h
  have hrest : ∀ {d f}, w.pc.dirFile? = some (d, f) → collectBinlogFiles
      (root.subDir? d.currentUUID) (w.dirPath d.currentUUID) f.relayLogFile =
      .ok (f.relayLogFile :: d.rest) := fun hdf => hlisted _ hdf
  cases hpc : w.pc with
  | relay pos =>
    rw [hpc] at h
    obtain ⟨j, F, s, hb, hext⟩ := h
    obtain ⟨w', hrun, hideal⟩ :=
      Relaying.run_to_ideal hidx hroot hrot hne hend ⟨hu, pos, s, hpc, hb, hext⟩
    exact ⟨w', .of_workRun hrun, hideal⟩
  | collect u pos firstParse =>
    rw [hpc] at h
    cases firstParse with
    | true =>
      obtain ⟨j, F, hb, rfl, rfl⟩ := h
      obtain ⟨w1, hrun1, hread⟩ := BeforeEpoch.run_to_reading hidx hroot hu hb hpc
      obtain ⟨w2, hrun2, hideal⟩ := hread.run_to_ideal hidx hroot hrot hne hend
      exact ⟨w2, .of_workRun (hrun1.trans hrun2), hideal⟩
    | false =>
      obtain ⟨j, p, F, l, ha, hlast, rfl, rfl⟩ := h
      obtain ⟨w1, hrun1, hread⟩ := AtSlot.run_to_reading hidx hroot hu ha hlast hpc
      obtain ⟨w2, hrun2, hideal⟩ := hread.run_to_ideal hidx hroot hrot hne hend
      exact ⟨w2, .of_workRun (hrun1.trans hrun2), hideal⟩
  | parse d f stage =>
    rw [hpc] at h
    obtain ⟨j, p, F, l, r, hi, hstage⟩ := h
    have hread : Reading st root w j p F r :=
      ⟨hu, d, f, stage, l, hpc, hi, hstage, hi.rest_eq_of_listed hroot (hrest (by rw [hpc]; rfl))⟩
    obtain ⟨w', hrun, hideal⟩ := hread.run_to_ideal hidx hroot hrot hne hend
    exact ⟨w', .of_workRun hrun, hideal⟩
  | nextDir d f next =>
    rw [hpc] at h
    obtain ⟨j, p, F, l, hi, hr, hj, rfl⟩ := h
    have hp := hi.last_of_rest_nil ((hi.rest_eq hj).symm.trans hr)
    obtain rfl := hi.eq_length_of_endsForwarded hp (hend j (by omega) hi.epoch_le)
    obtain ⟨w1, G, hrun1, hrel⟩ := InFile.run_nextDir hidx hroot hu hi hr hj
      (hne (j + 1) hj (by have := hi.epoch_le; omega)) hpc
    obtain ⟨w2, hrun2, hideal⟩ := hrel.run_to_ideal hidx hroot hrot hne hend
    exact ⟨w2, .of_workRun (hrun1.trans hrun2), hideal⟩
  | switchStat d f next name =>
    rw [hpc] at h
    obtain ⟨j, p, F, l, G, hi, hr, hj, rfl, hG, rfl⟩ := h
    have hp := hi.last_of_rest_nil ((hi.rest_eq hj).symm.trans hr)
    obtain rfl := hi.eq_length_of_endsForwarded hp (hend j (by omega) hi.epoch_le)
    obtain ⟨w1, hrun1, hrel⟩ := InFile.run_switchStat hidx hroot hu hi hr hj hG hpc
    obtain ⟨w2, hrun2, hideal⟩ := hrel.run_to_ideal hidx hroot hrot hne hend
    exact ⟨w2, .of_workRun (hrun1.trans hrun2), hideal⟩
  | watchAdd d f =>
    rw [hpc] at h
    obtain ⟨j, p, F, l, r, hi, hr, hj⟩ := h
    have hp := hi.last_of_listed hroot (hrest (by rw [hpc]; rfl)) hr
    obtain ⟨-, hfile⟩ := hi.file? hroot
    obtain ⟨sub, hsub⟩ : ∃ sub, root.subDir? d.currentUUID = some sub := by
      cases hs : root.subDir? d.currentUUID with
      | none => simp [RelayRoot.file?, hs] at hfile
      | some sub => exact ⟨sub, rfl⟩
    let w1 : Worker := { w with pc := .watchStat d f (snapshot sub) }
    have hstep : w.step root = some w1 := by simp [w1, Worker.step, hpc, hsub]
    obtain ⟨w2, hrun2, hideal⟩ :=
      InFile.run_watchStat (w := w1) hidx hroot hrot hne hend hu hi hr hp hj rfl
    exact ⟨w2, (ReaderRun.of_workRun (.of_step hstep)).trans hrun2, hideal⟩
  | watchStat d f snap =>
    rw [hpc] at h
    obtain ⟨j, p, F, l, r, hi, hr, hj, -⟩ := h
    have hp := hi.last_of_listed hroot (hrest (by rw [hpc]; rfl)) hr
    exact hi.run_watchStat hidx hroot hrot hne hend hu hr hp hj hpc
  | waiting d f snap =>
    rw [hpc] at h
    obtain ⟨j, p, F, l, r, hi, hr, hj, hsnap⟩ := h
    have hp := hi.last_of_listed hroot (hrest (by rw [hpc]; rfl)) hr
    exact hi.run_waiting hidx hroot hrot hne hend hindex hu hr hp hj hsnap hpc
  | failed err => exact absurd hpc (hstop err)

end CatchUp

/-- No event is lost once the relay writer stops: from any point of a run, unless the worker
    has stopped or a relay log was opened in its sub directory after it listed it, the
    worker and the watcher alone bring it to the whole ideal stream of the directory. -/
theorem reaches_idealStream_after_writer_stops (st : StreamStart) (hidx : IndexWF st.entries)
    (hk : st.epoch < st.entries.length) {s0 : System} (hroot : s0.root.WF) {F0 : RelayLogFile}
    (hF0 : F0 ∈ epochLogs s0.root (st.epochUUID st.epoch)) (hname : F0.name = st.file)
    (hm : st.event ≤ F0.events.length) {pos : Position} {suffix : String}
    (hpos : extractPos st.uuids pos =
      .ok (st.epochUUID st.epoch, suffix, ⟨st.file, (offsetOf F0.events st.event).toUInt32⟩))
    {relayDir : String} {sid : UInt32}
    (hw : s0.worker = ⟨⟨relayDir, st.uuids, sid⟩, [], .relay pos⟩)
    {as : List Action} {s : System} (hrun : s0.run as = some s)
    (hstop : ∀ err, s.worker.pc ≠ .failed err) (hlisted : s.worker.ListedAll s.root)
    (hrot : ∀ d ∈ s.root.subDirs, ∀ F ∈ d.files, ∀ e ∈ F.events, rotateNameParses e = true)
    (hindex : ∀ d ∈ s.root.subDirs, ∀ F ∈ relayLogs d, GetBinlogFileIndex F.name = true)
    (hne : ∀ j < st.entries.length, st.epoch < j → st.planFiles s.root j ≠ [])
    (hend : ∀ j < st.entries.length - 1, st.epoch ≤ j → EndsForwarded st s.root j) :
    ∃ moves s', moves.all Action.byReader ∧ s.run moves = some s' ∧ s'.root = s.root ∧
      sentView s'.worker.sent = st.idealStream s.root := by
  obtain ⟨hroot', -, hsync⟩ := System.run_invariant (fun _ _ _ h hs => h.step hidx hs)
    (Delivers.start hk hroot hF0 hname hm hpos hw) hrun
  have hplan : ∀ j, ∀ G ∈ st.planFiles s.root j, ∃ d ∈ s.root.subDirs, G ∈ relayLogs d := by
    intro j G hG
    obtain ⟨d, hsub, hmem⟩ := StreamStart.planFiles_mem hG
    exact ⟨d, (RelayRoot.subDir?_mem hsub).1, hmem⟩
  obtain ⟨w', ⟨moves, hall, hrun'⟩, hideal⟩ := hsync.run_to_ideal hidx hroot'
    (fun j G hG => by
      obtain ⟨d, hd, hmem⟩ := hplan j G hG
      exact hrot d hd G (List.mem_of_mem_filter hmem))
    hne hend (fun j G hG => by
      obtain ⟨d, hd, hmem⟩ := hplan j G hG
      exact hindex d hd G hmem) hstop hlisted
  exact ⟨moves, _, hall, hrun', rfl, hideal⟩

/-- The writer appends an event while the worker waits at the end of the newest sub
    directory; the watcher reports it and the worker reads it. -/
theorem twoEpochs_reads_append_after_wait :
    ∃ s, twoEpochsSystem.run (List.replicate 18 .work ++
        [.append (exampleQuery 2 244 "INSERT INTO t VALUES (4)")]) = some s ∧
      ∃ moves s', moves.all Action.byReader ∧ s.run moves = some s' ∧ s'.root = s.root ∧
        sentView s'.worker.sent = twoEpochs.idealStream s.root :=
  ⟨_, rfl, @reaches_idealStream_after_writer_stops twoEpochs ⟨by decide, by decide, by decide⟩
    (by decide) twoEpochsSystem ⟨by decide, fun d hd => ⟨"mysql-bin", 6, by revert d; decide⟩⟩
    (exampleLog "mysql-bin.000001" [exampleQuery 1 184 "INSERT INTO t VALUES (1)",
        ⟨⟨1, 1, 47, 231, 0⟩, .rotate "mysql-bin.000002" 4⟩]) (by decide) rfl (by decide)
    ⟨"mysql-bin|000001.000001", 124⟩ "000001" rfl "/data/relay" 0 rfl
    (List.replicate 18 Action.work ++
      [Action.append (exampleQuery 2 244 "INSERT INTO t VALUES (4)")]) _ rfl
    (fun _ h => by cases h) (by decide) (by decide) (by decide) (by decide) (by decide)⟩

end dm.streamer
