import BinlogRelay.Streamer.Ideal

open dm.binlog

namespace dm.streamer

section Files

variable {root : RelayRoot} {d : RelaySubDir} {base : String} {width : Nat} {F : RelayLogFile}

theorem RelaySubDir.WF.names_nodup (hd : d.WF base width) : ((relayLogs d).map (·.name)).Nodup :=
  List.pairwise_map.mpr (hd.sorted.imp fun h heq => by simp [heq, stringLt_irrefl] at h)

theorem RelayRoot.WF.subDir_WF (hroot : root.WF) {u : String} (h : root.subDir? u = some d) :
    ∃ base width, d.WF base width :=
  hroot.dirs d (RelayRoot.subDir?_mem h).1

theorem RelayRoot.WF.getFirstBinlogName_error (hroot : root.WF) {relayDir uuid : String}
    {e : ReaderError} (h : getFirstBinlogName relayDir root uuid = .error e) :
    e = .readDir (pathJoin relayDir uuid) ∨ e = .binlogFilesNotFound (pathJoin relayDir uuid) := by
  unfold getFirstBinlogName at h
  cases hsub : root.subDir? uuid with
  | none =>
    simp only [hsub, Except.error.injEq] at h
    exact .inl h.symm
  | some d =>
    obtain ⟨base, width, hd⟩ := hroot.subDir_WF hsub
    simp only [hsub, hd.firstBinlogName_readDir] at h
    split at h
    · exact .inr (Except.error.inj h).symm
    · cases h

theorem RelaySubDir.snapshot_mem {sub : RelaySubDir} (hnodup : (sub.files.map (·.name)).Nodup)
    (hF : sub.file? F.name = some F) {y : Nat} (hy : (F.name, y) ∈ snapshot sub) : y = F.size := by
  obtain ⟨G, hG, hname, rfl⟩ : ∃ G ∈ sub.files, G.name = F.name ∧ G.size = y := by
    simpa [snapshot] using hy
  have hG' := RelaySubDir.file?_eq_some hnodup hG
  rw [hname, hF, Option.some.injEq] at hG'
  rw [hG']

theorem dropWhile_name_ne_eq_drop : ∀ {L : List RelayLogFile}, (L.map (·.name)).Nodup →
    ∀ {i : Nat} (hi : i < L.length), L.dropWhile (·.name ≠ L[i].name) = L.drop i
  | G :: L, _, 0, _ => by simp [List.dropWhile_cons]
  | G :: L, hnodup, i + 1, hi => by
    obtain ⟨hG, hL⟩ := List.nodup_cons.mp hnodup
    have hi' : i < L.length := Nat.lt_of_succ_lt_succ hi
    have hne : G.name ≠ L[i].name := fun h =>
      hG (List.mem_map.mpr ⟨L[i], List.getElem_mem hi', h.symm⟩)
    show (G :: L).dropWhile (·.name ≠ L[i].name) = L.drop i
    rw [List.dropWhile_cons, if_pos (by simpa using hne)]
    exact dropWhile_name_ne_eq_drop hL hi'

theorem offsetOf_zero (es : List BinlogEvent) : offsetOf es 0 = 4 := by
  simp [offsetOf]

theorem four_le_offsetOf (es : List BinlogEvent) (r : Nat) : 4 ≤ offsetOf es r := by
  simp [offsetOf]

theorem hasSuffix_self (s : String) : hasSuffix s s = true := by
  simp [hasSuffix, List.isSuffixOf_iff_suffix]

theorem forward_of_isFormatDescription {suffix : String} {e : BinlogEvent}
    (h : e.isFormatDescription = true) : forward suffix e = none := by
  simp [forward, h]

theorem RelayLogFile.WF.fileSizeUpdated (hF : F.WF) {l : Nat} (hl : l ≤ F.events.length)
    (path : String) :
    fileSizeUpdated (some F) path (offsetOf F.events l) =
      .ok (if l = F.events.length then 0 else 1) := by
  have hsize : F.size = offsetOf F.events F.events.length := by
    simp [RelayLogFile.size, offsetOf_length, hF.complete]
  by_cases hlen : l = F.events.length
  · simp [dm.streamer.fileSizeUpdated, hsize, hlen]
  · have := offsetOf_lt_offsetOf hF.laidOut (Nat.lt_of_le_of_ne hl hlen) le_rfl
    simp only [dm.streamer.fileSizeUpdated, hsize, if_neg hlen]
    rw [if_neg (by omega), if_pos (by omega)]

theorem drop_map_name_cons {L : List RelayLogFile} {q : Nat} {next : String}
    {rest : List String} (h : next :: rest <+: (L.drop q).map (·.name)) :
    ∃ G, L[q]? = some G ∧ G.name = next ∧
      (L.drop q).map (·.name) = next :: (L.drop (q + 1)).map (·.name) := by
  cases hL : L.drop q with
  | nil => simp [hL] at h
  | cons G L' =>
    rw [hL, List.map_cons] at h
    obtain ⟨rfl, -⟩ := List.cons_prefix_cons.mp h
    have hG : L[q]? = some G := by rw [← List.head?_drop, hL]; rfl
    exact ⟨G, hG, rfl, by rw [← List.drop_drop, hL]; rfl⟩

end Files

namespace StreamStart

variable {st : StreamStart} {root : RelayRoot} {j p : Nat} {F : RelayLogFile}

theorem planFiles_eq_drop (st : StreamStart) (root : RelayRoot) (j : Nat) :
    ∃ q, st.planFiles root j = (epochLogs root (st.epochUUID j)).drop q := by
  unfold planFiles
  split
  · exact ⟨_, List.dropWhile_eq_drop_findIdx_not⟩
  · exact ⟨0, rfl⟩

theorem planFiles_mem (hF : F ∈ st.planFiles root j) :
    ∃ d, root.subDir? (st.epochUUID j) = some d ∧ F ∈ relayLogs d := by
  obtain ⟨q, hq⟩ := st.planFiles_eq_drop root j
  rw [hq] at hF
  have hF' := List.mem_of_mem_drop hF
  unfold epochLogs at hF'
  cases hsub : root.subDir? (st.epochUUID j) with
  | none => simp [hsub] at hF'
  | some d => exact ⟨d, rfl, by simpa [hsub] using hF'⟩

theorem slot_file (hroot : root.WF) (hF : (st.planFiles root j)[p]? = some F) :
    F.WF ∧ root.file? (st.epochUUID j) F.name = some F ∧ ∃ parsed,
      parseBinlogFile F.name = some parsed ∧ parsed.baseName ≠ "" ∧
        posUUIDSuffixSeparator ∉ parsed.baseName.data := by
  obtain ⟨d, hsub, hmem⟩ := planFiles_mem (List.getElem?_mem hF)
  obtain ⟨base, width, hd⟩ := hroot.subDir_WF hsub
  obtain ⟨seq, hparse, -⟩ := (hd.relayLogs_name hmem).parseBinlogFile hd.dot_not_mem
  refine ⟨hd.logs F hmem, ?_, _, hparse, hd.base_ne, hd.bar_not_mem⟩
  simp [RelayRoot.file?, hsub, RelaySubDir.file?_eq_some hd.nodup (List.mem_of_mem_filter hmem)]

theorem collect_planFiles_drop (hroot : root.WF) (hF : (st.planFiles root j)[p]? = some F)
    (path : String) :
    collectBinlogFiles (root.subDir? (st.epochUUID j)) path F.name =
      .ok (((st.planFiles root j).drop p).map (·.name)) := by
  obtain ⟨d, hsub, hmem⟩ := planFiles_mem (List.getElem?_mem hF)
  obtain ⟨base, width, hd⟩ := hroot.subDir_WF hsub
  obtain ⟨q, hq⟩ := st.planFiles_eq_drop root j
  have hlogs : epochLogs root (st.epochUUID j) = relayLogs d := by simp [epochLogs, hsub]
  rw [hq, hlogs] at hF ⊢
  obtain ⟨hp, rfl⟩ := List.getElem?_eq_some_iff.mp hF
  have hqp : q + p < (relayLogs d).length := by simp at hp; omega
  rw [hsub, hd.collectBinlogFiles_eq hmem, List.getElem_drop,
    dropWhile_name_ne_eq_drop hd.names_nodup hqp, List.drop_drop, Nat.add_comm]

theorem collect_planFiles (hroot : root.WF) (hF : (st.planFiles root j)[p]? = some F)
    (path : String) :
    collectBinlogFiles (root.subDir? (st.epochUUID j)) path F.name =
      .ok (F.name :: ((st.planFiles root j).drop (p + 1)).map (·.name)) := by
  rw [collect_planFiles_drop hroot hF path]
  obtain ⟨hp, rfl⟩ := List.getElem?_eq_some_iff.mp hF
  rw [List.drop_eq_getElem_cons hp, List.map_cons]

theorem epochUUID_length_ne (st : StreamStart) (j : Nat) : (st.epochUUID j).length ≠ 0 := by
  simp [epochUUID, AddSuffixForUUID, String.length_append]

theorem getFirstBinlogName_eq (hroot : root.WF) (hne : j ≠ st.epoch) {d : RelaySubDir}
    (hsub : root.subDir? (st.epochUUID j) = some d) (relayDir : String) :
    getFirstBinlogName relayDir root (st.epochUUID j) = match st.planFiles root j with
      | [] => .error (.binlogFilesNotFound (pathJoin relayDir (st.epochUUID j)))
      | G :: _ => .ok G.name := by
  obtain ⟨base, width, hd⟩ := hroot.subDir_WF hsub
  have hplan : st.planFiles root j = relayLogs d := by simp [planFiles, hne, epochLogs, hsub]
  rw [hplan]
  cases hl : relayLogs d <;> simp only [getFirstBinlogName, hsub, hd.firstBinlogName_readDir, hl]

theorem first_planFiles (hroot : root.WF) (hne : j ≠ st.epoch) {relayDir name : String}
    (h : getFirstBinlogName relayDir root (st.epochUUID j) = .ok name) :
    ∃ G, (st.planFiles root j)[0]? = some G ∧ G.name = name := by
  cases hsub : root.subDir? (st.epochUUID j) with
  | none => simp [getFirstBinlogName, hsub] at h
  | some d =>
    rw [getFirstBinlogName_eq hroot hne hsub] at h
    split at h
    · cases h
    · rename_i G _ hplan
      exact ⟨G, by simp [hplan], Except.ok.inj h⟩

theorem getFirstBinlogName_planFiles (hroot : root.WF) (hne : j ≠ st.epoch) {G : RelayLogFile}
    (hG : (st.planFiles root j)[0]? = some G) (relayDir : String) :
    getFirstBinlogName relayDir root (st.epochUUID j) = .ok G.name := by
  obtain ⟨d, hsub, -⟩ := planFiles_mem (List.getElem?_mem hG)
  rw [getFirstBinlogName_eq hroot hne hsub]
  cases hplan : st.planFiles root j with
  | nil => simp [hplan] at hG
  | cons G' _ =>
    obtain rfl : G' = G := by simpa [hplan] using hG
    rfl

theorem planFiles_start (hroot : root.WF) {F0 : RelayLogFile}
    (hF0 : F0 ∈ epochLogs root (st.epochUUID st.epoch)) (hname : F0.name = st.file) :
    (st.planFiles root st.epoch)[0]? = some F0 := by
  unfold epochLogs at hF0
  cases hsub : root.subDir? (st.epochUUID st.epoch) with
  | none => simp [hsub] at hF0
  | some d =>
    obtain ⟨base, width, hd⟩ := hroot.subDir_WF hsub
    simp only [hsub, Option.map_some', Option.getD_some] at hF0
    obtain ⟨i, hi, rfl⟩ := List.getElem_of_mem hF0
    have hplan : st.planFiles root st.epoch = (relayLogs d).drop i := by
      rw [planFiles, if_pos rfl, epochLogs, hsub, ← hname]
      exact dropWhile_name_ne_eq_drop hd.names_nodup hi
    simp [hplan]

end StreamStart

section Invariant

variable (st : StreamStart) (root : RelayRoot) (sent : List BinlogEvent)

/-- The reader has sent the ideal stream up to the slot of the `p`th relay log `F` of the
    `j`th sub directory, and that slot up to event `r`. -/
structure AtSlot (j p : Nat) (F : RelayLogFile) (r : Nat) : Prop where
  epoch_le : st.epoch ≤ j
  epoch_lt : j < st.entries.length
  slot : (st.planFiles root j)[p]? = some F
  start_le : st.planStart j p ≤ r
  read_le : r ≤ F.events.length
  sent : sentView sent =
    st.streamBefore root j p ++ partialSlot (st.epochSuffix j) F (st.planStart j p) r

/-- Inside `parseFile` on that relay log: the locals name it, `latestPos` is the offset just
    past the last event the reader forwarded, and the files left in `parseDirAsPossible`
    are those after it in the plan, all of them unless the sub directory is the newest. -/
structure InFile (d : DirState) (f : FileState) (j p : Nat) (F : RelayLogFile) (l r : Nat)
    extends AtSlot st root sent j p F r : Prop where
  uuid : d.currentUUID = st.epochUUID j
  file : f.relayLogFile = F.name
  suffix : f.uuidSuffix = st.epochSuffix j
  latestPos : f.latestPos = offsetOf F.events l
  lastForwarded : LastForwarded (st.epochSuffix j) F.events (st.planStart j p) r l
  rest_isPrefix : d.rest <+: ((st.planFiles root j).drop (p + 1)).map (·.name)
  rest_eq : j + 1 < st.entries.length →
    d.rest = ((st.planFiles root j).drop (p + 1)).map (·.name)

/-- The reader has sent the ideal stream up to the `j`th sub directory, whose first relay
    log in the plan is `F`. -/
structure BeforeEpoch (j : Nat) (F : RelayLogFile) : Prop where
  epoch_le : st.epoch ≤ j
  epoch_lt : j < st.entries.length
  slot : (st.planFiles root j)[0]? = some F
  start_le : st.planStart j 0 ≤ F.events.length
  sent : sentView sent = st.streamBefore root j 0

/-- Where `ParseFile` is in relay log `F` read up to event `r`: about to read the event at
    that boundary, or the event at offset 4 before it seeks there. -/
def StageAt (F : RelayLogFile) (f : FileState) (r : Nat) : ParseStage → Prop
  | .events o => o = offsetOf F.events r
  | .formatDescription => f.offset = offsetOf F.events r ∧ 0 < r

/-- The failures the relay directory sets off: the nil dereference on a ROTATE event at the
    read position whose next name `parseBinlogFile` rejects, and a later sub directory that
    is missing or holds no relay log. -/
def ReaderFailure.FromDirectory (relayDir : String) : ReaderFailure → Prop
  | .panic (.nilBinlogFile name) => ∃ j p F r e position, AtSlot st root sent j p F r ∧
      F.events[r]? = some e ∧ e.body = .rotate name position ∧ parseBinlogFile name = none
  | .error (.readDir dir) | .error (.binlogFilesNotFound dir) =>
    ∃ j, st.epoch < j ∧ j < st.entries.length ∧ dir = pathJoin relayDir (st.epochUUID j) ∧
      sentView sent = st.streamBefore root j 0
  | _ => False

/-- Where the worker is in the ideal stream, program point by program point. A stopped
    worker has sent a prefix of it, and stopped on a failure the relay directory set off. -/
def Synced (w : Worker) : Prop :=
  w.reader.uuids = st.uuids ∧
  match w.pc with
  | .relay pos => ∃ j F s, BeforeEpoch st root w.sent j F ∧ extractPos st.uuids pos =
      .ok (st.epochUUID j, s, ⟨F.name, (offsetOf F.events (st.planStart j 0)).toUInt32⟩)
  | .collect u pos true => ∃ j F, BeforeEpoch st root w.sent j F ∧ u = st.epochUUID j ∧
      pos = ⟨F.name, (offsetOf F.events (st.planStart j 0)).toUInt32⟩
  | .collect u pos false => ∃ j p F l, AtSlot st root w.sent j p F l ∧
      LastForwarded (st.epochSuffix j) F.events (st.planStart j p) l l ∧ u = st.epochUUID j ∧
      pos = ⟨F.name, (offsetOf F.events l).toUInt32⟩
  | .parse d f stage => ∃ j p F l r, InFile st root w.sent d f j p F l r ∧ StageAt F f r stage
  | .nextDir d f next => ∃ j p F l, InFile st root w.sent d f j p F l F.events.length ∧
      d.rest = [] ∧ j + 1 < st.entries.length ∧ next = st.epochUUID (j + 1)
  | .switchStat d f next name => ∃ j p F l G,
      InFile st root w.sent d f j p F l F.events.length ∧ d.rest = [] ∧
      j + 1 < st.entries.length ∧ next = st.epochUUID (j + 1) ∧
      (st.planFiles root (j + 1))[0]? = some G ∧ G.name = name
  | .watchAdd d f => ∃ j p F l r, InFile st root w.sent d f j p F l r ∧ d.rest = [] ∧
      j + 1 = st.entries.length
  | .watchStat d f snap => ∃ j p F l r, InFile st root w.sent d f j p F l r ∧ d.rest = [] ∧
      j + 1 = st.entries.length ∧
      ∀ y, (F.name, y) ∈ snap → y ≤ offsetOf F.events F.events.length
  | .waiting d f snap => ∃ j p F l r, InFile st root w.sent d f j p F l r ∧ d.rest = [] ∧
      j + 1 = st.entries.length ∧ ∀ y, (F.name, y) ∈ snap → y ≤ offsetOf F.events r
  | .failed err => sentView w.sent <+: st.idealStream root ∧
      err.FromDirectory st root w.sent w.reader.relayDir

/-- The worker at the top of `parseRelay` at the position of the first relay log `F` of the
    plan of the `j`th sub directory, having sent the ideal stream up to that sub
    directory. -/
def Relaying (w : Worker) (j : Nat) (F : RelayLogFile) : Prop :=
  w.reader.uuids = st.uuids ∧ ∃ pos s, w.pc = .relay pos ∧ BeforeEpoch st root w.sent j F ∧
    extractPos st.uuids pos =
      .ok (st.epochUUID j, s, ⟨F.name, (offsetOf F.events (st.planStart j 0)).toUInt32⟩)

variable {st root sent} {w : Worker}

theorem Relaying.synced {j : Nat} {F : RelayLogFile} (h : Relaying st root w j F) :
    Synced st root w := by
  obtain ⟨hu, pos, s, hpc, hb, hext⟩ := h
  refine ⟨hu, ?_⟩
  rw [hpc]
  exact ⟨j, F, s, hb, hext⟩

theorem AtSlot.isPrefix {j p : Nat} {F : RelayLogFile} {r : Nat}
    (h : AtSlot st root sent j p F r) : sentView sent <+: st.idealStream root :=
  h.sent ▸ StreamStart.streamBefore_partialSlot_isPrefix h.epoch_le h.epoch_lt h.slot r

theorem BeforeEpoch.isPrefix {j : Nat} {F : RelayLogFile} (h : BeforeEpoch st root sent j F) :
    sentView sent <+: st.idealStream root :=
  h.sent ▸ StreamStart.streamBefore_prefix_idealStream h.epoch_le h.epoch_lt

theorem Synced.isPrefix (h : Synced st root w) : sentView w.sent <+: st.idealStream root := by
  obtain ⟨-, h⟩ := h
  split at h
  · obtain ⟨_, _, _, h, -⟩ := h; exact h.isPrefix
  · obtain ⟨_, _, h, -⟩ := h; exact h.isPrefix
  · obtain ⟨_, _, _, _, h, -⟩ := h; exact h.isPrefix
  · obtain ⟨_, _, _, _, _, h, -⟩ := h; exact h.isPrefix
  · obtain ⟨_, _, _, _, h, -⟩ := h; exact h.isPrefix
  · obtain ⟨_, _, _, _, _, h, -⟩ := h; exact h.isPrefix
  · obtain ⟨_, _, _, _, _, h, -⟩ := h; exact h.isPrefix
  · obtain ⟨_, _, _, _, _, h, -⟩ := h; exact h.isPrefix
  · obtain ⟨_, _, _, _, _, h, -⟩ := h; exact h.isPrefix
  · exact h.1

theorem AtSlot.fail {j p : Nat} {F : RelayLogFile} {r : Nat} (h : AtSlot st root w.sent j p F r)
    (huuids : w.reader.uuids = st.uuids) {err : ReaderFailure}
    (herr : err.FromDirectory st root w.sent w.reader.relayDir) : Synced st root (w.fail err) :=
  ⟨huuids, h.isPrefix, herr⟩

/-- A panic of `onEventFunc` on the event at the read position is set off by that event, a
    ROTATE event of the relay log. -/
theorem AtSlot.fromDirectory_of_onEvent {j p : Nat} {F : RelayLogFile} {r : Nat}
    (h : AtSlot st root w.sent j p F r) {e : BinlogEvent} (he : F.events[r]? = some e)
    {f : FileState} {pn : ReaderPanic} (hev : w.onEvent f e = .error pn) (relayDir : String) :
    (ReaderFailure.panic pn).FromDirectory st root w.sent relayDir := by
  obtain ⟨next, position, hbody, hp, rfl⟩ := onEventFunc_eq_error (Worker.onEvent_eq_error hev)
  exact ⟨j, p, F, r, e, position, h, he, hbody, hp⟩

end Invariant

theorem LastForwarded.restart {suffix : String} {es : List BinlogEvent} {m r l : Nat}
    (h : LastForwarded suffix es m r l) : LastForwarded suffix es m l l :=
  ⟨h.start_le, le_rfl, h.forwarded, fun _ _ h1 h2 => absurd h1 (by omega)⟩

section Steps

variable {st : StreamStart} {root : RelayRoot} {w : Worker} {d : DirState} {f : FileState}
  {j p l r : Nat} {F : RelayLogFile}

theorem InFile.parseFile (hidx : IndexWF st.entries) (hroot : root.WF) (hk : st.epoch ≤ j)
    (hj : j < st.entries.length) (hF : (st.planFiles root j)[p]? = some F)
    (hl : l ≤ F.events.length)
    (hlast : LastForwarded (st.epochSuffix j) F.events (st.planStart j p) l l)
    (hd : d.currentUUID = st.epochUUID j)
    (hrest : d.rest <+: ((st.planFiles root j).drop (p + 1)).map (·.name))
    (hrest' : j + 1 < st.entries.length →
      d.rest = ((st.planFiles root j).drop (p + 1)).map (·.name))
    (firstParse : Bool)
    (hsent : sentView w.sent ++ (if firstParse then (forward (st.epochSuffix j)
        (GenFakeRotateEvent F.name (offsetOf F.events l) 0)).toList else []) =
      st.streamBefore root j p ++ partialSlot (st.epochSuffix j) F (st.planStart j p) l) :
    let f : FileState :=
      ⟨F.name, offsetOf F.events l, offsetOf F.events l, st.epochSuffix j⟩
    ∃ out, w.parseFile d F.name (offsetOf F.events l) firstParse =
        { w with sent := w.sent ++ out, pc := .parse d f (.start (offsetOf F.events l)) } ∧
      InFile st root (w.sent ++ out) d f j p F l l ∧
      StageAt F f l (.start (offsetOf F.events l)) := by
  obtain ⟨hFwf, -, parsed, hname, -⟩ := StreamStart.slot_file hroot hF
  obtain ⟨out, hw, hout⟩ := Worker.parseFile_eq (w := w) (hd ▸ hidx.parseSuffix hj) hname
    (offsetOf F.events l) firstParse
  refine ⟨out, hw, ⟨⟨hk, hj, hF, hlast.start_le, hl, ?_⟩, hd, rfl, rfl, rfl, hlast, hrest,
    hrest'⟩, ?_⟩
  · rw [sentView_append, hout]
    exact hsent
  · rcases Nat.eq_zero_or_pos l with rfl | hpos
    · rw [ParseStage.start_offsetOf_zero]
      rfl
    · rw [ParseStage.start_offsetOf_pos hFwf.laidOut hpos hl]
      exact ⟨rfl, hpos⟩

theorem Synced.parseFile (hidx : IndexWF st.entries) (hroot : root.WF)
    (huuids : w.reader.uuids = st.uuids) (hk : st.epoch ≤ j) (hj : j < st.entries.length)
    (hF : (st.planFiles root j)[p]? = some F) (hl : l ≤ F.events.length)
    (hlast : LastForwarded (st.epochSuffix j) F.events (st.planStart j p) l l)
    (hd : d.currentUUID = st.epochUUID j)
    (hrest : d.rest <+: ((st.planFiles root j).drop (p + 1)).map (·.name))
    (hrest' : j + 1 < st.entries.length →
      d.rest = ((st.planFiles root j).drop (p + 1)).map (·.name))
    (firstParse : Bool)
    (hsent : sentView w.sent ++ (if firstParse then (forward (st.epochSuffix j)
        (GenFakeRotateEvent F.name (offsetOf F.events l) 0)).toList else []) =
      st.streamBefore root j p ++ partialSlot (st.epochSuffix j) F (st.planStart j p) l) :
    Synced st root (w.parseFile d F.name (offsetOf F.events l) firstParse) := by
  obtain ⟨out, hw, hin, hstage⟩ :=
    InFile.parseFile hidx hroot hk hj hF hl hlast hd hrest hrest' firstParse hsent
  rw [hw]
  exact ⟨huuids, j, p, F, l, l, hin, hstage⟩

namespace InFile

variable (hidx : IndexWF st.entries) (hroot : root.WF) (huuids : w.reader.uuids = st.uuids)

theorem file? (hroot : root.WF) (h : InFile st root sent d f j p F l r) :
    F.WF ∧ root.file? d.currentUUID f.relayLogFile = some F := by
  obtain ⟨hFwf, hfile, -⟩ := StreamStart.slot_file hroot h.slot
  exact ⟨hFwf, h.uuid ▸ h.file ▸ hfile⟩

theorem atLast (h : InFile st root sent d f j p F l r) : AtSlot st root sent j p F l :=
  { h.toAtSlot with
    start_le := h.lastForwarded.start_le
    read_le := h.lastForwarded.le_read.trans h.read_le
    sent := by rw [partialSlot_eq_of_lastForwarded h.lastForwarded h.read_le]; exact h.sent }

theorem onEvent_formatDescription (h : InFile st root w.sent d f j p F l r) (hF : F.WF)
    (hne : 0 < F.events.length) {w' : Worker} {f' : FileState}
    (hev : w.onEvent f F.events[0] = .ok (w', f')) :
    w'.reader.uuids = w.reader.uuids ∧ f' = f ∧ InFile st root w'.sent d f j p F l r := by
  obtain ⟨sid, out, rfl, hout, rfl⟩ :=
    Worker.onEvent_eq_ok (hF.laidOut.get hne).timestamp_ne (hF.logPos_ne hne) hev
  have hfd := @forward_of_isFormatDescription f.uuidSuffix _ (hF.first_isFormatDescription hne)
  refine ⟨rfl, by rw [hfd]; rfl, { h with sent := ?_ }⟩
  rw [sentView_append, hout, hfd, Option.toList_none, List.append_nil]
  exact h.sent

theorem onEvent (h : InFile st root w.sent d f j p F l r) (hF : F.WF) (hr : r < F.events.length)
    {w' : Worker} {f' : FileState} (hev : w.onEvent f F.events[r] = .ok (w', f')) :
    w'.reader.uuids = w.reader.uuids ∧ InFile st root w'.sent d f' j p F
      (if (forward (st.epochSuffix j) F.events[r]).isSome then r + 1 else l) (r + 1) := by
  obtain ⟨sid, out, rfl, hout, rfl⟩ :=
    Worker.onEvent_eq_ok (hF.laidOut.get hr).timestamp_ne (hF.logPos_ne hr) hev
  rw [h.suffix] at hout ⊢
  refine ⟨rfl,
    { h with
      start_le := h.start_le.trans (Nat.le_succ r)
      read_le := hr
      suffix := rfl
      sent := by rw [sentView_append, hout, h.sent, List.append_assoc,
        partialSlot_succ h.start_le hr]
      latestPos := ?_
      lastForwarded := h.lastForwarded.succ (List.getElem?_eq_getElem hr) }⟩
  split
  · exact hF.logPos_eq hr
  · exact h.latestPos

theorem parseFile_next (hidx : IndexWF st.entries) (hroot : root.WF)
    (h : InFile st root w.sent d f j p F l F.events.length) {next : String}
    {rest : List String} (hr : d.rest = next :: rest) :
    ∃ G, (st.planFiles root j)[p + 1]? = some G ∧ G.name = next ∧
      ((st.planFiles root j).drop (p + 1)).map (·.name) =
        next :: ((st.planFiles root j).drop (p + 2)).map (·.name) ∧
      let d' : DirState := ⟨d.currentUUID, rest⟩
      let f' : FileState := ⟨G.name, 4, 4, st.epochSuffix j⟩
      ∃ out, w.parseFile d' next 4 true = { w with sent := w.sent ++ out, pc := .parse d' f' (.events 4) } ∧
        InFile st root (w.sent ++ out) d' f' j (p + 1) G 0 0 := by
  have hpre := h.rest_isPrefix
  rw [hr] at hpre
  obtain ⟨G, hG, rfl, hnames⟩ := drop_map_name_cons hpre
  rw [hnames] at hpre
  obtain ⟨out, hw, hin, -⟩ := InFile.parseFile (d := ⟨d.currentUUID, rest⟩) (w := w) hidx hroot
    h.epoch_le h.epoch_lt hG (Nat.zero_le _) (by rw [StreamStart.planStart_succ]; exact .refl 0)
    h.uuid ((List.prefix_cons_inj _).mp hpre)
    (fun hj => List.cons_injective (hr.symm.trans ((h.rest_eq hj).trans hnames))) true (by
      rw [h.sent, StreamStart.streamBefore_succ h.slot, StreamStart.planStart_succ,
        partialSlot_self, partialSlot_length, if_pos rfl])
  rw [offsetOf_zero] at hw hin
  exact ⟨G, hG, rfl, hnames, out, hw, hin⟩

theorem parseFileEnd_last (hidx : IndexWF st.entries) (huuids : w.reader.uuids = st.uuids)
    (h : InFile st root sent d f j p F l r) (hr : d.rest = []) :
    w.parseFileEnd d f .done = if j + 1 < st.entries.length then
      { w with pc := .nextDir d f (st.epochUUID (j + 1)) } else { w with pc := .watchAdd d f } := by
  unfold Worker.parseFileEnd
  rw [if_neg (by simp), hr, if_neg (by simp), huuids, h.uuid, hidx.getNextUUID h.epoch_lt]
  split
  · rw [if_neg (StreamStart.epochUUID_length_ne st (j + 1))]
  · rfl

include hidx hroot huuids

theorem reparse (h : InFile st root w.sent d f j p F l r) : Synced st root (w.reparse d f) := by
  have hat := h.atLast
  unfold Worker.reparse
  rw [h.file, h.latestPos]
  exact Synced.parseFile hidx hroot huuids h.epoch_le h.epoch_lt h.slot hat.read_le
    h.lastForwarded.restart h.uuid h.rest_isPrefix h.rest_eq false (by simpa using hat.sent)

theorem fileDone (h : InFile st root w.sent d f j p F l F.events.length) :
    Synced st root (w.fileDone d f) := by
  cases hr : d.rest with
  | nil =>
    simp only [Worker.fileDone, hr]
    refine ⟨huuids, j, p, F, l, h.atLast, h.lastForwarded.restart, h.uuid, ?_⟩
    rw [h.file, h.latestPos]
  | cons next rest =>
    obtain ⟨G, -, rfl, -, out, hw, hin⟩ := h.parseFile_next hidx hroot hr
    simp only [Worker.fileDone, hr, hw]
    exact ⟨huuids, j, p + 1, G, 0, 0, hin, (offsetOf_zero G.events).symm⟩

theorem parseFileEnd_done (h : InFile st root w.sent d f j p F l F.events.length) :
    Synced st root (w.parseFileEnd d f .done) := by
  cases hr : d.rest with
  | cons next rest =>
    rw [Worker.parseFileEnd_done_cons hr]
    exact h.fileDone hidx hroot huuids
  | nil =>
    rw [h.parseFileEnd_last hidx huuids hr]
    split
    · exact ⟨huuids, j, p, F, l, h, hr, ‹_›, rfl⟩
    · exact ⟨huuids, j, p, F, l, _, h, hr, by have := h.epoch_lt; omega⟩

theorem parseStep (h : InFile st root w.sent d f j p F l r) {stage : ParseStage}
    (hstage : StageAt F f r stage) : Synced st root (w.parseStep root d f stage) := by
  obtain ⟨hFwf, hfile⟩ := h.file? hroot
  cases stage with
  | formatDescription =>
    obtain ⟨hoff, hr⟩ := hstage
    have hne : 0 < F.events.length := by have := h.read_le; omega
    rw [Worker.parseStep_formatDescription hfile hFwf hne]
    split
    · rename_i pn hev
      obtain ⟨next, position, hbody, -⟩ := onEventFunc_eq_error (Worker.onEvent_eq_error hev)
      have hfd := hFwf.first_isFormatDescription hne
      simp [BinlogEvent.isFormatDescription, hbody] at hfd
    · rename_i w' f' hev
      obtain ⟨hu, rfl, h'⟩ := h.onEvent_formatDescription hFwf hne hev
      refine ⟨hu.trans huuids, j, p, F, l, r, h', ?_⟩
      have := four_le_offsetOf F.events r
      show max _ 4 = _
      omega
  | events o =>
    obtain rfl : o = offsetOf F.events r := hstage
    rcases Nat.lt_or_ge r F.events.length with hr | hr
    · rw [Worker.parseStep_event hfile hFwf hr]
      split
      · rename_i pn hev
        exact h.fail huuids
          (h.toAtSlot.fromDirectory_of_onEvent (List.getElem?_eq_getElem hr) hev _)
      · rename_i w' f' hev
        obtain ⟨hu, h'⟩ := h.onEvent hFwf hr hev
        exact ⟨hu.trans huuids, j, p, F, _, r + 1, h', rfl⟩
    · obtain rfl : r = F.events.length := le_antisymm h.read_le hr
      rw [Worker.parseStep_eof hfile hFwf]
      exact h.parseFileEnd_done hidx hroot huuids

theorem afterUpdate (h : InFile st root w.sent d f j p F l r) (hr : d.rest = [])
    (path : String) : Synced st root (w.afterUpdate d f path) := by
  unfold Worker.afterUpdate
  split
  · exact h.reparse hidx hroot huuids
  · unfold Worker.fileDone
    rw [hr]
    refine ⟨huuids, j, p, F, l, h.atLast, h.lastForwarded.restart, h.uuid, ?_⟩
    rw [h.file, h.latestPos]

end InFile

theorem InFile.sent_streamBefore_succ (h : InFile st root w.sent d f j p F l F.events.length)
    (hr : d.rest = []) (hj : j + 1 < st.entries.length) :
    sentView w.sent = st.streamBefore root (j + 1) 0 := by
  have hplen : p + 1 = (st.planFiles root j).length := by
    have h1 := (h.rest_eq hj).symm.trans hr
    have h2 := (List.getElem?_eq_some_iff.mp h.slot).1
    simp only [List.map_drop, List.drop_eq_nil_iff, List.length_map] at h1
    omega
  rw [StreamStart.streamBefore_zero_succ h.epoch_le, ← hplen, StreamStart.streamBefore_succ h.slot,
    h.sent, partialSlot_length]

theorem InFile.switchSubDir (hidx : IndexWF st.entries) (hroot : root.WF)
    (h : InFile st root w.sent d f j p F l F.events.length) (hr : d.rest = [])
    (hj : j + 1 < st.entries.length) {G : RelayLogFile}
    (hG : (st.planFiles root (j + 1))[0]? = some G) :
    ∃ pos, w.switchSubDir (st.epochUUID (j + 1)) G.name = { w with pc := .relay pos } ∧
      BeforeEpoch st root w.sent (j + 1) G ∧ extractPos st.uuids pos =
        .ok (st.epochUUID (j + 1), st.epochSuffix (j + 1),
          ⟨G.name, (offsetOf G.events (st.planStart (j + 1) 0)).toUInt32⟩) := by
  have hjk : j + 1 ≠ st.epoch := by have := h.epoch_le; omega
  obtain ⟨-, -, parsed, hname, hbase, hbar⟩ := StreamStart.slot_file hroot hG
  unfold Worker.switchSubDir
  rw [hidx.parseSuffix hj]
  simp only [hname]
  refine ⟨_, rfl,
    ⟨h.epoch_le.trans (Nat.le_succ j), hj, hG, by simp [StreamStart.planStart_of_ne hjk],
      h.sent_streamBefore_succ hr hj⟩, ?_⟩
  rw [StreamStart.planStart_of_ne hjk, offsetOf_zero]
  exact hidx.extractPos_epoch hj hname hbase hbar 4

/-- Every step of the worker keeps it in step with the ideal stream. -/
theorem Synced.step (hidx : IndexWF st.entries) (hroot : root.WF) (h : Synced st root w)
    {w' : Worker} (hw : w.step root = some w') : Synced st root w' := by
  obtain ⟨huuids, h⟩ := h
  unfold Worker.step at hw
  cases hpc : w.pc with
  | relay pos =>
    rw [hpc] at h hw
    obtain ⟨j, F, s, hb, hpos⟩ := h
    simp only [huuids, hpos, Option.some.injEq] at hw
    subst hw
    exact ⟨huuids, j, F, hb, rfl, rfl⟩
  | collect u pos firstParse =>
    rw [hpc] at h hw
    cases firstParse with
    | true =>
      obtain ⟨j, F, hb, rfl, rfl⟩ := h
      obtain ⟨hFwf, -⟩ := StreamStart.slot_file hroot hb.slot
      simp only [StreamStart.collect_planFiles hroot hb.slot, hasSuffix_self, Bool.not_true,
        Bool.false_eq_true, if_false, Option.some.injEq, hFwf.toUInt32_offsetOf hb.start_le] at hw
      subst hw
      exact Synced.parseFile hidx hroot huuids hb.epoch_le hb.epoch_lt hb.slot hb.start_le (.refl _)
        rfl (List.prefix_refl _) (fun _ => rfl) true (by rw [hb.sent, partialSlot_self, if_pos rfl])
    | false =>
      obtain ⟨j, p, F, l, ha, hlast, rfl, rfl⟩ := h
      obtain ⟨hFwf, -⟩ := StreamStart.slot_file hroot ha.slot
      simp only [StreamStart.collect_planFiles hroot ha.slot, hasSuffix_self, Bool.not_true,
        Bool.false_eq_true, if_false, Option.some.injEq, hFwf.toUInt32_offsetOf ha.read_le] at hw
      subst hw
      exact Synced.parseFile hidx hroot huuids ha.epoch_le ha.epoch_lt ha.slot ha.read_le hlast
        rfl (List.prefix_refl _) (fun _ => rfl) false (by simpa using ha.sent)
  | parse d f stage =>
    rw [hpc] at h hw
    obtain ⟨j, p, F, l, r, hi, hstage⟩ := h
    cases Option.some.inj hw
    exact hi.parseStep hidx hroot huuids hstage
  | nextDir d f next =>
    rw [hpc] at h hw
    obtain ⟨j, p, F, l, hi, hr, hj, rfl⟩ := h
    cases hn : getFirstBinlogName w.reader.relayDir root (st.epochUUID (j + 1)) with
    | error e =>
      simp only [hn, Option.some.injEq] at hw
      subst hw
      have hk := hi.epoch_le
      rcases hroot.getFirstBinlogName_error hn with rfl | rfl <;>
        exact hi.fail huuids ⟨j + 1, by omega, hj, rfl, hi.sent_streamBefore_succ hr hj⟩
    | ok name =>
      simp only [hn, Option.some.injEq] at hw
      subst hw
      obtain ⟨G, hG, hGname⟩ :=
        StreamStart.first_planFiles hroot (by have := hi.epoch_le; omega) hn
      exact ⟨huuids, j, p, F, l, G, hi, hr, hj, rfl, hG, hGname⟩
  | switchStat d f next name =>
    rw [hpc] at h hw
    obtain ⟨j, p, F, l, G, hi, hr, hj, rfl, hG, rfl⟩ := h
    obtain ⟨hFwf, hfile⟩ := hi.file? hroot
    dsimp only at hw
    rw [hfile, hi.latestPos, hFwf.fileSizeUpdated hi.atLast.read_le] at hw
    by_cases hlen : l = F.events.length <;> simp [hlen] at hw <;> subst hw
    · obtain ⟨pos, hpos, hb, hext⟩ := hi.switchSubDir hidx hroot hr hj hG
      rw [hpos]
      exact ⟨huuids, j + 1, G, _, hb, hext⟩
    · exact hi.reparse hidx hroot huuids
  | watchAdd d f =>
    rw [hpc] at h hw
    obtain ⟨j, p, F, l, r, hi, hr, hnew⟩ := h
    obtain ⟨hFwf, hfile⟩ := hi.file? hroot
    cases hsub : root.subDir? d.currentUUID with
    | none => simp [RelayRoot.file?, hsub] at hfile
    | some sub =>
      simp only [hsub, Option.some.injEq] at hw
      subst hw
      obtain ⟨_, _, hd⟩ := hroot.subDir_WF hsub
      simp only [RelayRoot.file?, hsub, Option.some_bind, hi.file] at hfile
      refine ⟨huuids, j, p, F, l, r, hi, hr, hnew, fun y hy => ?_⟩
      rw [RelaySubDir.snapshot_mem hd.nodup hfile hy, RelayLogFile.size, offsetOf_length,
        hFwf.complete, Nat.add_zero]
  | watchStat d f snap =>
    rw [hpc] at h hw
    obtain ⟨j, p, F, l, r, hi, hr, hnew, hsnap⟩ := h
    obtain ⟨hFwf, hfile⟩ := hi.file? hroot
    dsimp only at hw
    rw [hfile, hi.latestPos, hFwf.fileSizeUpdated hi.atLast.read_le] at hw
    by_cases hlen : l = F.events.length <;> simp [hlen] at hw <;> subst hw
    · have hr' : r = F.events.length := by
        have := hi.lastForwarded.le_read; have := hi.read_le; omega
      exact ⟨huuids, j, p, F, l, r, hi, hr, hnew, hr' ▸ hsnap⟩
    · exact hi.afterUpdate hidx hroot huuids hr _
  | waiting => rw [hpc] at hw; cases hw
  | failed => rw [hpc] at hw; cases hw

/-- A watcher event for a waiting worker keeps it in step with the ideal stream. -/
theorem Synced.watch (hidx : IndexWF st.entries) (hroot : root.WF) (h : Synced st root w)
    {name : String} {w' : Worker} (hw : w.watch root name = some w') : Synced st root w' := by
  obtain ⟨huuids, h⟩ := h
  unfold Worker.watch at hw
  cases hpc : w.pc <;> rw [hpc] at h
  case waiting d f snap =>
    rw [hpc] at hw
    obtain ⟨j, p, F, l, r, hi, hr, -⟩ := h
    cases hfile : root.file? d.currentUUID name with
    | none => simp [hfile] at hw
    | some file =>
      by_cases hc : (changedSince snap file && GetBinlogFileIndex name) = true <;>
        simp [hfile, hc] at hw
      subst hw
      exact hi.afterUpdate hidx hroot huuids hr _
  all_goals rw [hpc] at hw; simp at hw

end Steps

theorem StageAt.grows {F F' : RelayLogFile} {f : FileState} {r : Nat} {stage : ParseStage}
    (h : StageAt F f r stage) (hg : F.Grows F') (hr : r ≤ F.events.length) :
    StageAt F' f r stage := by
  cases stage <;> simpa only [StageAt, hg.offsetOf_eq hr] using h

section Writer

variable {st : StreamStart} {root root' : RelayRoot} {sent : List BinlogEvent} {w : Worker}
  {d : DirState} {f : FileState} {j p l r : Nat} {F : RelayLogFile}
variable (hidx : IndexWF st.entries) (hg : RelayRoot.Grows st.uuids.getLast? root root')
include hidx hg

theorem AtSlot.grows (h : AtSlot st root sent j p F r) :
    ∃ F', F.Grows F' ∧ AtSlot st root' sent j p F' r := by
  obtain ⟨F', hF', hgF⟩ := (StreamStart.planFiles_grows hg j).getElem? h.slot
  have hp := (List.getElem?_eq_some_iff.mp h.slot).1
  refine ⟨F', hgF, h.epoch_le, h.epoch_lt, hF', h.start_le,
    h.read_le.trans hgF.events_isPrefix.length_le, ?_⟩
  rw [StreamStart.streamBefore_grows hidx hg h.epoch_lt (.inl hp),
    hgF.partialSlot_eq h.start_le h.read_le]
  exact h.sent

theorem BeforeEpoch.grows (h : BeforeEpoch st root sent j F) :
    ∃ F', F.Grows F' ∧ BeforeEpoch st root' sent j F' := by
  obtain ⟨F', hF', hgF⟩ := (StreamStart.planFiles_grows hg j).getElem? h.slot
  refine ⟨F', hgF, h.epoch_le, h.epoch_lt, hF', h.start_le.trans hgF.events_isPrefix.length_le, ?_⟩
  rw [StreamStart.streamBefore_grows hidx hg h.epoch_lt (.inr rfl)]
  exact h.sent

theorem InFile.grows (h : InFile st root sent d f j p F l r) :
    ∃ F', F.Grows F' ∧ InFile st root' sent d f j p F' l r := by
  obtain ⟨F', hgF, ha⟩ := h.toAtSlot.grows hidx hg
  refine ⟨F', hgF, { ha with
    uuid := h.uuid
    file := h.file.trans hgF.name_eq.symm
    suffix := h.suffix
    latestPos := by rw [hgF.offsetOf_eq (h.lastForwarded.le_read.trans h.read_le)]; exact h.latestPos
    lastForwarded := h.lastForwarded.of_grows hgF h.read_le
    rest_isPrefix := h.rest_isPrefix.trans ((StreamStart.planFiles_grows hg j).drop_names (p + 1))
    rest_eq := fun hj => by
      rw [StreamStart.planFiles_frozen hg (hidx.getLast_ne hj)]
      exact h.rest_eq hj }⟩

theorem InFile.frozen (h : InFile st root sent d f j p F l r) (hj : j + 1 < st.entries.length) :
    InFile st root' sent d f j p F l r := by
  obtain ⟨F', -, h'⟩ := h.grows hidx hg
  have hF' := h'.slot
  rw [StreamStart.planFiles_frozen hg (hidx.getLast_ne hj), h.slot, Option.some.injEq] at hF'
  exact hF' ▸ h'

theorem ReaderFailure.FromDirectory.grows {err : ReaderFailure} {relayDir : String}
    (h : err.FromDirectory st root sent relayDir) : err.FromDirectory st root' sent relayDir := by
  unfold ReaderFailure.FromDirectory at h ⊢
  split at h
  · obtain ⟨j, p, F, r, e, position, ha, he, hbody, hp⟩ := h
    obtain ⟨F', hgF, ha'⟩ := ha.grows hidx hg
    exact ⟨j, p, F', r, e, position, ha',
      (hgF.getElem? (List.getElem?_eq_some_iff.mp he).1).trans he, hbody, hp⟩
  all_goals first
    | exact h.elim
    | obtain ⟨j, hk, hj, hdir, hsent⟩ := h
      exact ⟨j, hk, hj, hdir, hsent.trans (StreamStart.streamBefore_grows hidx hg hj (.inr rfl)).symm⟩

/-- A move of the relay writer keeps the worker in step with the ideal stream. -/
theorem Synced.grows (hm : ∀ F ∈ (st.planFiles root st.epoch).head?, st.event ≤ F.events.length)
    (h : Synced st root w) : Synced st root' w := by
  unfold Synced at h ⊢
  refine ⟨h.1, ?_⟩
  replace h := h.2
  cases hpc : w.pc <;> rw [hpc] at h
  case relay pos =>
    obtain ⟨j, F, s, hb, hpos⟩ := h
    obtain ⟨F', hgF, hb'⟩ := hb.grows hidx hg
    refine ⟨j, F', s, hb', ?_⟩
    rw [hgF.name_eq, hgF.offsetOf_eq hb.start_le]
    exact hpos
  case collect u pos firstParse =>
    cases firstParse with
    | true =>
      obtain ⟨j, F, hb, rfl, rfl⟩ := h
      obtain ⟨F', hgF, hb'⟩ := hb.grows hidx hg
      exact ⟨j, F', hb', rfl, by rw [hgF.name_eq, hgF.offsetOf_eq hb.start_le]⟩
    | false =>
      obtain ⟨j, p, F, l, ha, hlast, rfl, rfl⟩ := h
      obtain ⟨F', hgF, ha'⟩ := ha.grows hidx hg
      exact ⟨j, p, F', l, ha', hlast.of_grows hgF ha.read_le, rfl,
        by rw [hgF.name_eq, hgF.offsetOf_eq ha.read_le]⟩
  case parse d f stage =>
    obtain ⟨j, p, F, l, r, hi, hstage⟩ := h
    obtain ⟨F', hgF, hi'⟩ := hi.grows hidx hg
    exact ⟨j, p, F', l, r, hi', hstage.grows hgF hi.read_le⟩
  case nextDir d f next =>
    obtain ⟨j, p, F, l, hi, hr, hj, rfl⟩ := h
    exact ⟨j, p, F, l, hi.frozen hidx hg hj, hr, hj, rfl⟩
  case switchStat d f next name =>
    obtain ⟨j, p, F, l, G, hi, hr, hj, rfl, hG, rfl⟩ := h
    obtain ⟨G', hG', hgG⟩ := (StreamStart.planFiles_grows hg (j + 1)).getElem? hG
    exact ⟨j, p, F, l, G', hi.frozen hidx hg hj, hr, hj, rfl, hG', hgG.name_eq⟩
  case watchAdd d f =>
    obtain ⟨j, p, F, l, r, hi, hr, hnew⟩ := h
    obtain ⟨F', -, hi'⟩ := hi.grows hidx hg
    exact ⟨j, p, F', l, r, hi', hr, hnew⟩
  case watchStat d f snap =>
    obtain ⟨j, p, F, l, r, hi, hr, hnew, hsnap⟩ := h
    obtain ⟨F', hgF, hi'⟩ := hi.grows hidx hg
    refine ⟨j, p, F', l, r, hi', hr, hnew, fun y hy => (hsnap y (hgF.name_eq ▸ hy)).trans ?_⟩
    rw [← hgF.offsetOf_eq le_rfl]
    exact offsetOf_mono hgF.events_isPrefix.length_le
  case waiting d f snap =>
    obtain ⟨j, p, F, l, r, hi, hr, hnew, hsnap⟩ := h
    obtain ⟨F', hgF, hi'⟩ := hi.grows hidx hg
    exact ⟨j, p, F', l, r, hi', hr, hnew, fun y hy => (hsnap y (hgF.name_eq ▸ hy)).trans_eq
      (hgF.offsetOf_eq hi.read_le).symm⟩
  case failed err =>
    exact ⟨h.1.trans (StreamStart.idealStream_grows hidx hg hm), h.2.grows hidx hg⟩

end Writer

/-- What holds from the start of a run on: the relay directory is well formed, the first
    relay log of the plan holds the start event, and the worker is in step with the ideal
    stream. -/
def Delivers (st : StreamStart) (s : System) : Prop :=
  s.root.WF ∧ (∃ F, (st.planFiles s.root st.epoch)[0]? = some F ∧ st.event ≤ F.events.length) ∧
    Synced st s.root s.worker

/-- Every move of the system, by the worker, the watcher or the relay writer, keeps
    `Delivers`. -/
theorem Delivers.step {st : StreamStart} (hidx : IndexWF st.entries) {s s' : System} {a : Action}
    (h : Delivers st s) (hs : s.step a = some s') : Delivers st s' := by
  obtain ⟨hroot, ⟨F0, hF0, hm⟩, hsync⟩ := h
  have hroot' := System.step_root_WF hroot hs
  rcases System.step_cases hs with ⟨hr, hw | ⟨name, hw⟩⟩ | ⟨hw, hg⟩
  · unfold Delivers
    rw [hr]
    exact ⟨hroot, ⟨F0, hF0, hm⟩, hsync.step hidx hroot hw⟩
  · unfold Delivers
    rw [hr]
    exact ⟨hroot, ⟨F0, hF0, hm⟩, hsync.watch hidx hroot hw⟩
  · rw [hsync.1] at hg
    obtain ⟨F0', hF0', hgF⟩ := (StreamStart.planFiles_grows hg st.epoch).getElem? hF0
    have hhead : ∀ F ∈ (st.planFiles s.root st.epoch).head?, st.event ≤ F.events.length := by
      rw [List.head?_eq_getElem?, hF0]
      rintro F ⟨⟩
      exact hm
    refine ⟨hroot', ⟨F0', hF0', hm.trans hgF.events_isPrefix.length_le⟩, ?_⟩
    rw [hw]
    exact hsync.grows hidx hg hhead

namespace StreamStart

theorem streamBefore_epoch_zero (st : StreamStart) (root : RelayRoot) :
    st.streamBefore root st.epoch 0 = [] := by
  simp [streamBefore, slots]

end StreamStart

theorem Relaying.start {st : StreamStart} (hk : st.epoch < st.entries.length) {s0 : System}
    (hroot : s0.root.WF) {F0 : RelayLogFile}
    (hF0 : F0 ∈ epochLogs s0.root (st.epochUUID st.epoch)) (hname : F0.name = st.file)
    (hm : st.event ≤ F0.events.length) {pos : Position} {suffix : String}
    (hpos : extractPos st.uuids pos =
      .ok (st.epochUUID st.epoch, suffix, ⟨st.file, (offsetOf F0.events st.event).toUInt32⟩))
    {relayDir : String} {sid : UInt32}
    (hw : s0.worker = ⟨⟨relayDir, st.uuids, sid⟩, [], .relay pos⟩) :
    Relaying st s0.root s0.worker st.epoch F0 := by
  have hstart : st.planStart st.epoch 0 = st.event := by simp [StreamStart.planStart]
  rw [hw]
  refine ⟨rfl, pos, suffix, rfl, ⟨le_rfl, hk, st.planFiles_start hroot hF0 hname, hstart ▸ hm,
    (st.streamBefore_epoch_zero s0.root).symm⟩, ?_⟩
  rw [hstart, hname]
  exact hpos

theorem Delivers.start {st : StreamStart} (hk : st.epoch < st.entries.length) {s0 : System}
    (hroot : s0.root.WF) {F0 : RelayLogFile}
    (hF0 : F0 ∈ epochLogs s0.root (st.epochUUID st.epoch)) (hname : F0.name = st.file)
    (hm : st.event ≤ F0.events.length) {pos : Position} {suffix : String}
    (hpos : extractPos st.uuids pos =
      .ok (st.epochUUID st.epoch, suffix, ⟨st.file, (offsetOf F0.events st.event).toUInt32⟩))
    {relayDir : String} {sid : UInt32}
    (hw : s0.worker = ⟨⟨relayDir, st.uuids, sid⟩, [], .relay pos⟩) : Delivers st s0 :=
  ⟨hroot, ⟨F0, st.planFiles_start hroot hF0 hname, hm⟩,
    (Relaying.start hk hroot hF0 hname hm hpos hw).synced⟩

/-- Exactly-once, in-order delivery: at every point of every run, whatever the relay writer
    and the watcher did, the worker has sent a prefix of the ideal stream. -/
theorem sentView_prefix_idealStream (st : StreamStart) (hidx : IndexWF st.entries)
    (hk : st.epoch < st.entries.length) {s0 : System} (hroot : s0.root.WF) {F0 : RelayLogFile}
    (hF0 : F0 ∈ epochLogs s0.root (st.epochUUID st.epoch)) (hname : F0.name = st.file)
    (hm : st.event ≤ F0.events.length) {pos : Position} {suffix : String}
    (hpos : extractPos st.uuids pos =
      .ok (st.epochUUID st.epoch, suffix, ⟨st.file, (offsetOf F0.events st.event).toUInt32⟩))
    {relayDir : String} {sid : UInt32}
    (hw : s0.worker = ⟨⟨relayDir, st.uuids, sid⟩, [], .relay pos⟩)
    {as : List Action} {s : System} (hrun : s0.run as = some s) :
    sentView s.worker.sent <+: st.idealStream s.root :=
  (System.run_invariant (fun _ _ _ h hs => h.step hidx hs)
    (Delivers.start hk hroot hF0 hname hm hpos hw) hrun).2.2.isPrefix

section TwoEpochs

def exampleLog (name : String) (es : List BinlogEvent) : RelayLogFile :=
  ⟨name, ⟨⟨1, 1, 120, 124, 0⟩, .formatDescription⟩ :: es, 0⟩

def exampleQuery (sid : UInt32) (logPos : UInt32) (text : String) : BinlogEvent :=
  ⟨⟨1, sid, 60, logPos, 0⟩, .query text ⟨""⟩⟩

/-- Two sub directories in the index: the first holds two relay logs joined by a ROTATE
    event, the second one relay log. -/
def twoEpochs : StreamStart :=
  ⟨[("c6ae5afe-c7a3-11e8-a19d-0242ac130006", 1), ("d7bf1a52-c7a3-11e8-a19d-0242ac130007", 2)],
    0, "mysql-bin.000001", 1⟩

def twoEpochsRoot : RelayRoot :=
  ⟨[⟨"c6ae5afe-c7a3-11e8-a19d-0242ac130006.000001",
      [exampleLog "mysql-bin.000001" [exampleQuery 1 184 "INSERT INTO t VALUES (1)",
        ⟨⟨1, 1, 47, 231, 0⟩, .rotate "mysql-bin.000002" 4⟩],
       exampleLog "mysql-bin.000002" [exampleQuery 1 184 "INSERT INTO t VALUES (2)"]]⟩,
    ⟨"d7bf1a52-c7a3-11e8-a19d-0242ac130007.000002",
      [exampleLog "mysql-bin.000001" [exampleQuery 2 184 "INSERT INTO t VALUES (3)"]]⟩]⟩

def twoEpochsSystem : System :=
  ⟨twoEpochsRoot, ⟨⟨"/data/relay", twoEpochs.uuids, 0⟩, [],
    .relay ⟨"mysql-bin|000001.000001", 124⟩⟩⟩

/-- The worker reads both sub directories to the end; the writer then appends an event,
    which the worker reads from its watch. -/
def twoEpochsMoves : List Action :=
  List.replicate 14 .work ++ [.append (exampleQuery 2 244 "INSERT INTO t VALUES (4)")] ++
    List.replicate 5 .work

theorem sentView_prefix_idealStream_across_epochs :
    ∃ s, twoEpochsSystem.run twoEpochsMoves = some s ∧ sentView s.worker.sent <+: twoEpochs.idealStream s.root :=
  ⟨_, rfl, @sentView_prefix_idealStream twoEpochs ⟨by decide, by decide, by decide⟩ (by decide)
    twoEpochsSystem ⟨by decide, fun d hd => ⟨"mysql-bin", 6, by revert d; decide⟩⟩
    (exampleLog "mysql-bin.000001" [exampleQuery 1 184 "INSERT INTO t VALUES (1)",
        ⟨⟨1, 1, 47, 231, 0⟩, .rotate "mysql-bin.000002" 4⟩]) (by decide) rfl (by decide)
    ⟨"mysql-bin|000001.000001", 124⟩ "000001" rfl "/data/relay" 0 rfl twoEpochsMoves _ rfl⟩

end TwoEpochs

/-- At every point of every run of a worker `StartSync` started, on a relay directory whose
    events all carry a timestamp, `latestServerID` is the server id of the last event sent,
    and each fake ROTATE event on the stream carries the server id of the event before it. -/
theorem latestServerID_eq_lastServerID {running : Bool} {relayDir : String}
    {index : Option (List String)} {pos : Position} {w0 : Worker}
    (hstart : StartSync running relayDir index pos = .ok w0) {root : RelayRoot}
    (hts : root.Stamped) {as : List Action} {s : System}
    (hrun : (System.mk root w0).run as = some s) :
    s.worker.reader.latestServerID = lastServerID s.worker.sent ∧
      ∀ pre e, pre ++ [e] <+: s.worker.sent → e.header.timestamp = 0 →
        e.isRotate ∧ e.header.serverID = lastServerID pre := by
  obtain ⟨-, -, uuids, -, rfl⟩ := StartSync_eq_ok.mp hstart
  have h := System.run_worker (P := Worker.ServerIDs) (fun h hs => System.step_stamped h hs)
    (fun hq hw h => (Worker.serverIDs_stepClosed hq).step hw h)
    (fun hq hw h => (Worker.serverIDs_stepClosed hq).watch hw h) hts
    ⟨rfl, fun pre e h => by simp at h⟩ hrun
  exact ⟨h.latest, h.fakeRotate⟩

/-- Along the run across both sub directories the three fake ROTATE events carry the server
    ids 0, 1 and 1: nothing was sent before the first. -/
theorem twoEpochs_latestServerID :
    ∃ s, twoEpochsSystem.run twoEpochsMoves = some s ∧
      (s.worker.sent.filter (·.header.timestamp == 0)).map (·.header.serverID) = [0, 1, 1] ∧
      s.worker.reader.latestServerID = lastServerID s.worker.sent ∧
      ∀ pre e, pre ++ [e] <+: s.worker.sent → e.header.timestamp = 0 →
        e.isRotate ∧ e.header.serverID = lastServerID pre :=
  ⟨_, rfl, rfl, @latestServerID_eq_lastServerID false "/data/relay" (some twoEpochs.uuids)
    ⟨"mysql-bin|000001.000001", 124⟩ twoEpochsSystem.worker rfl twoEpochsRoot (by decide)
    twoEpochsMoves _ rfl⟩

/-- A relay log that does not start with a FORMAT_DESCRIPTION event: started after its
    first event, `ParseFile` reads the event at offset 4 before it seeks to the start and
    sends it, after the fake ROTATE event and before the start event. -/
theorem sentView_not_prefix_without_formatDescription :
    let q1 : BinlogEvent := ⟨⟨1, 1, 60, 64, 0⟩, .query "INSERT INTO t VALUES (1)" ⟨""⟩⟩
    let q2 : BinlogEvent := ⟨⟨1, 1, 60, 124, 0⟩, .query "INSERT INTO t VALUES (2)" ⟨""⟩⟩
    let st : StreamStart :=
      ⟨[("c6ae5afe-c7a3-11e8-a19d-0242ac130006", 1)], 0, "mysql-bin.000001", 1⟩
    let s0 : System :=
      ⟨⟨[⟨"c6ae5afe-c7a3-11e8-a19d-0242ac130006.000001", [⟨"mysql-bin.000001", [q1, q2], 0⟩]⟩]⟩,
        ⟨⟨"/data/relay", st.uuids, 0⟩, [], .relay ⟨"mysql-bin|000001.000001", 64⟩⟩⟩
    IndexWF st.entries ∧ LaidOut FileHeaderLen.toNat [q1, q2] ∧
      extractPos st.uuids ⟨"mysql-bin|000001.000001", 64⟩ =
        .ok (st.epochUUID 0, "000001", ⟨"mysql-bin.000001", 64⟩) ∧
      ∃ s, s0.run (List.replicate 4 .work) = some s ∧
        ¬ sentView s.worker.sent <+: st.idealStream s.root :=
  ⟨⟨by decide, by decide, by decide⟩, by decide, rfl, _, rfl, by decide⟩

section NoSequence

end NoSequence

end dm.streamer
