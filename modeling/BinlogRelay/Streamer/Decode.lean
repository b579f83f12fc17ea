import BinlogRelay.Streamer.Layout

open dm.binlog

namespace dm.streamer

/-- What a consumer of the stream should receive for an event of a relay log of the sub
    directory with suffix `suffix`: nothing for an event the relay writer added or a
    FORMAT_DESCRIPTION event, a ROTATE event with its next name carrying the suffix, any
    other event as it is. -/
def forward (suffix : String) (e : BinlogEvent) : Option BinlogEvent :=
  if e.fromRelayWriter || e.isFormatDescription then none else
  match e.body with
  | .rotate nextLogName position => (parseBinlogFile nextLogName).map fun parsed =>
    { e with body := .rotate (constructBinlogName parsed suffix) position }
  | _ => some e

theorem filterMap_singleton_forward {suffix : String} (e : BinlogEvent) :
    [e].filterMap (forward suffix) = (forward suffix e).toList := by
  cases h : forward suffix e <;> simp [h]

/-- A fake ROTATE event, told apart by its zero timestamp, with its server id cleared: the
    reader fills in the last server id it saw, which depends on how often it re-read. -/
def eraseFakeServerID (e : BinlogEvent) : BinlogEvent :=
  if e.header.timestamp = 0 then { e with header := { e.header with serverID := 0 } } else e

/-- The events sent on the stream as a consumer compares them: FORMAT_DESCRIPTION events
    removed, fake ROTATE events without their server id. -/
def sentView (sent : List BinlogEvent) : List BinlogEvent :=
  (sent.filter fun e => !e.isFormatDescription).map eraseFakeServerID

@[simp] theorem sentView_nil : sentView [] = [] := rfl

@[simp] theorem sentView_append (a b : List BinlogEvent) :
    sentView (a ++ b) = sentView a ++ sentView b := by
  simp [sentView]

/-- A ROTATE event names a next file that `parseBinlogFile` accepts. -/
def rotateNameParses (e : BinlogEvent) : Bool :=
  match e.body with
  | .rotate nextLogName _ => (parseBinlogFile nextLogName).isSome
  | _ => true

theorem fromRelayWriter_of_artificial {e : BinlogEvent}
    (h : e.header.flags = LOG_EVENT_ARTIFICIAL_F) : e.fromRelayWriter = false := by
  rw [BinlogEvent.fromRelayWriter, h]
  decide

section OnEvent

variable {suffix : String} {sid sid' : UInt32} {L L' : Nat} {e : BinlogEvent}
  {out : Option BinlogEvent}

/-- On an event of a relay log, `onEventFunc` sends what a consumer should see of it, and
    moves `latestPos` to the event's log position exactly when that is something. -/
theorem onEventFunc_eq_ok (hts : e.header.timestamp ≠ 0) (hpos : e.header.logPos ≠ 0)
    (h : onEventFunc suffix sid L e = .ok (out, sid', L')) :
    sentView out.toList = (forward suffix e).toList ∧
      L' = if (forward suffix e).isSome then e.header.logPos.toNat else L := by
  rcases e with ⟨hdr, body⟩
  unfold onEventFunc at h
  cases hw : BinlogEvent.fromRelayWriter ⟨hdr, body⟩
  · simp only [hw, Bool.false_eq_true, ↓reduceIte] at h
    cases body with
    | formatDescription =>
      simp only [Except.ok.injEq, Prod.mk.injEq] at h
      obtain ⟨rfl, -, rfl⟩ := h
      simp [forward, sentView, BinlogEvent.isFormatDescription]
    | rotate next position =>
      cases hp : parseBinlogFile next with
      | none => simp [hp] at h
      | some parsed =>
        simp only [hp, Except.ok.injEq, Prod.mk.injEq] at h
        obtain ⟨rfl, -, rfl⟩ := h
        simp_all [forward, sentView, eraseFakeServerID, BinlogEvent.isFormatDescription]
    | _ =>
      simp only [Except.ok.injEq, Prod.mk.injEq] at h
      obtain ⟨rfl, -, rfl⟩ := h
      simp_all [forward, sentView, eraseFakeServerID, BinlogEvent.isFormatDescription]
  · simp only [hw, ↓reduceIte, Except.ok.injEq, Prod.mk.injEq] at h
    obtain ⟨rfl, -, rfl⟩ := h
    simp [forward, hw]

/-- `onEventFunc` fails only on a ROTATE event whose next name does not parse, with the
    nil dereference of that name. -/
theorem onEventFunc_eq_error {p : ReaderPanic} (h : onEventFunc suffix sid L e = .error p) :
    ∃ next position, e.body = .rotate next position ∧ parseBinlogFile next = none ∧
      p = .nilBinlogFile next := by
  rcases e with ⟨hdr, body⟩
  unfold onEventFunc at h
  split at h
  · cases h
  · cases body with
    | rotate next position =>
      cases hp : parseBinlogFile next with
      | none =>
        simp only [hp, Except.error.injEq] at h
        exact ⟨next, position, rfl, hp, h.symm⟩
      | some parsed => simp [hp] at h
    | _ => cases h

theorem onEventFunc_isOk (hrot : rotateNameParses e = true) :
    ∃ r, onEventFunc suffix sid L e = .ok r := by
  cases h : onEventFunc suffix sid L e with
  | ok r => exact ⟨r, rfl⟩
  | error p =>
    obtain ⟨next, position, hb, hp, -⟩ := onEventFunc_eq_error h
    simp [rotateNameParses, hb, hp] at hrot

theorem onEventFunc_GenFakeRotateEvent {name : String} {parsed : binlogFile}
    (hname : parseBinlogFile name = some parsed) (offset : Nat) :
    ∃ e', onEventFunc suffix sid L (GenFakeRotateEvent name offset sid) =
        .ok (some e', sid, L) ∧
      sentView [e'] = (forward suffix (GenFakeRotateEvent name offset 0)).toList := by
  refine ⟨{ GenFakeRotateEvent name offset sid with
    body := .rotate (constructBinlogName parsed suffix) offset }, ?_, ?_⟩
  · simp [onEventFunc, GenFakeRotateEvent, hname, fromRelayWriter_of_artificial]
  · simp [forward, hname, sentView, eraseFakeServerID, GenFakeRotateEvent,
      BinlogEvent.isFormatDescription, fromRelayWriter_of_artificial]

end OnEvent

namespace Worker

variable {w w' : Worker} {f f' : FileState} {e : BinlogEvent}

theorem onEvent_eq_ok (hts : e.header.timestamp ≠ 0) (hpos : e.header.logPos ≠ 0)
    (h : w.onEvent f e = .ok (w', f')) :
    ∃ sid out,
      w' = { w with reader := { w.reader with latestServerID := sid }, sent := w.sent ++ out } ∧
      sentView out = (forward f.uuidSuffix e).toList ∧
      f' = { f with latestPos :=
        if (forward f.uuidSuffix e).isSome then e.header.logPos.toNat else f.latestPos } := by
  unfold onEvent at h
  cases hr : onEventFunc f.uuidSuffix w.reader.latestServerID f.latestPos e with
  | error p => simp [hr, Except.map] at h
  | ok r =>
    obtain ⟨out, sid, L⟩ := r
    simp only [hr, Except.map, Except.ok.injEq, Prod.mk.injEq] at h
    obtain ⟨hview, hL⟩ := onEventFunc_eq_ok hts hpos hr
    exact ⟨sid, out.toList, h.1.symm, hview, by rw [← h.2, hL]⟩

theorem onEvent_eq_error {p : ReaderPanic} (h : w.onEvent f e = .error p) :
    onEventFunc f.uuidSuffix w.reader.latestServerID f.latestPos e = .error p := by
  unfold onEvent at h
  cases hr : onEventFunc f.uuidSuffix w.reader.latestServerID f.latestPos e <;>
    simp_all [Except.map]

theorem onEvent_isOk (hrot : rotateNameParses e = true) : ∃ r, w.onEvent f e = .ok r := by
  obtain ⟨r, hr⟩ := @onEventFunc_isOk f.uuidSuffix w.reader.latestServerID f.latestPos e hrot
  rw [onEvent, hr]
  exact ⟨_, rfl⟩

theorem parseFile_eq {d : DirState} {x : String} {n : Int}
    (hu : ParseSuffixForUUID d.currentUUID = some (x, n)) {name : String} {parsed : binlogFile}
    (hname : parseBinlogFile name = some parsed) (offset : Nat) (firstParse : Bool) :
    ∃ out, w.parseFile d name offset firstParse =
        { w with sent := w.sent ++ out,
                 pc := .parse d ⟨name, offset, offset, SuffixIntToStr n⟩ (.start offset) } ∧
      sentView out = if firstParse then
        (forward (SuffixIntToStr n) (GenFakeRotateEvent name offset 0)).toList else [] := by
  cases firstParse with
  | false => exact ⟨[], by simp [parseFile, hu], rfl⟩
  | true =>
    obtain ⟨e', he', hview⟩ := @onEventFunc_GenFakeRotateEvent (SuffixIntToStr n)
      w.reader.latestServerID offset name parsed hname offset
    refine ⟨[e'], ?_, hview⟩
    simp [parseFile, hu, onEvent, he', Except.map]

end Worker

section Events

variable {F : RelayLogFile} {r : Nat}

theorem RelayLogFile.WF.logPos_eq (hF : F.WF) (hr : r < F.events.length) :
    F.events[r].header.logPos.toNat = offsetOf F.events (r + 1) := by
  rw [offsetOf_succ hr]
  exact (hF.laidOut.get hr).logPos_eq

theorem RelayLogFile.WF.logPos_ne (hF : F.WF) (hr : r < F.events.length) :
    F.events[r].header.logPos ≠ 0 := by
  intro h
  have := hF.logPos_eq hr
  simp only [h, offsetOf] at this
  simp at this
  omega

theorem RelayLogFile.WF.first_isFormatDescription (hF : F.WF) (hne : 0 < F.events.length) :
    F.events[0].isFormatDescription = true :=
  hF.startsWithFD _ (by simp [List.head?_eq_getElem?, List.getElem?_eq_getElem hne])

theorem ParseStage.start_offsetOf_zero (es : List BinlogEvent) :
    ParseStage.start (offsetOf es 0) = .events (offsetOf es 0) := by
  simp [ParseStage.start, offsetOf]

theorem ParseStage.start_offsetOf_pos {es : List BinlogEvent}
    (h : LaidOut FileHeaderLen.toNat es) (hr : 0 < r) (hle : r ≤ es.length) :
    ParseStage.start (offsetOf es r) = .formatDescription := by
  have := offsetOf_lt_offsetOf h hr hle
  simp only [offsetOf, List.take_zero, eventsLen_nil] at this
  simp [ParseStage.start, offsetOf, FileHeaderLen_toNat] at this ⊢
  omega

end Events

/-- `l` is the index just past the last of the events `es[m, r)` that the reader forwards,
    or `m` when it forwards none of them. -/
structure LastForwarded (suffix : String) (es : List BinlogEvent) (m r l : Nat) : Prop where
  start_le : m ≤ l
  le_read : l ≤ r
  forwarded : m < l → ∃ e, es[l - 1]? = some e ∧ (forward suffix e).isSome
  quiet : ∀ i e, l ≤ i → i < r → es[i]? = some e → forward suffix e = none

namespace LastForwarded

variable {suffix : String} {es : List BinlogEvent} {m r l : Nat}

theorem refl (m : Nat) : LastForwarded suffix es m m m :=
  ⟨le_rfl, le_rfl, fun h => absurd h (lt_irrefl m), fun _ _ h1 h2 => absurd h1 (by omega)⟩

theorem succ (h : LastForwarded suffix es m r l) {e : BinlogEvent} (he : es[r]? = some e) :
    LastForwarded suffix es m (r + 1) (if (forward suffix e).isSome then r + 1 else l) := by
  have := h.start_le
  have := h.le_read
  by_cases hf : (forward suffix e).isSome
  · rw [if_pos hf]
    exact ⟨by omega, le_rfl, fun _ => ⟨e, by simpa using he, hf⟩,
      fun _ _ h1 h2 => absurd h1 (by omega)⟩
  · rw [if_neg hf]
    refine ⟨h.start_le, by omega, h.forwarded, fun i e' h1 h2 hi => ?_⟩
    rcases Nat.lt_succ_iff_lt_or_eq.mp h2 with h2 | rfl
    · exact h.quiet i e' h1 h2 hi
    · rw [he] at hi
      cases hi
      simpa using hf

end LastForwarded

section ParseFile

variable {root : RelayRoot} {w : Worker} {d : DirState} {f : FileState} {F : RelayLogFile}
  {r : Nat}

namespace Worker

theorem parseStep_event (hfile : root.file? d.currentUUID f.relayLogFile = some F) (hF : F.WF)
    (hr : r < F.events.length) :
    w.parseStep root d f (.events (offsetOf F.events r)) =
      match w.onEvent f F.events[r] with
      | .error p => w.fail (.panic p)
      | .ok (w', f') => { w' with pc := .parse d f' (.events (offsetOf F.events (r + 1))) } := by
  have hlong := (hF.laidOut.get hr).long
  simp only [parseStep, hfile, ParseStage.offset, RelayLogFile.frameAt_offsetOf hF hr,
    offsetOf_succ hr]
  exact if_neg (by omega)

theorem parseFileEnd_done_cons {next : String} {rest : List String}
    (hr : d.rest = next :: rest) : w.parseFileEnd d f .done = w.fileDone d f := by
  simp [parseFileEnd, hr]

theorem parseStep_eof (hfile : root.file? d.currentUUID f.relayLogFile = some F) (hF : F.WF) :
    w.parseStep root d f (.events (offsetOf F.events F.events.length)) =
      w.parseFileEnd d f .done := by
  simp [parseStep, hfile, ParseStage.offset, RelayLogFile.frameAt_offsetOf_length hF]

theorem parseStep_formatDescription (hfile : root.file? d.currentUUID f.relayLogFile = some F)
    (hF : F.WF) (hne : 0 < F.events.length) :
    w.parseStep root d f .formatDescription =
      match w.onEvent f F.events[0] with
      | .error p => w.fail (.panic p)
      | .ok (w', f') => { w' with pc := .parse d f' (.events (max f.offset 4)) } := by
  have hlong := (hF.laidOut.get hne).long
  have h4 : ParseStage.offset .formatDescription = offsetOf F.events 0 := by
    simp [ParseStage.offset, offsetOf]
  simp only [parseStep, hfile, h4, RelayLogFile.frameAt_offsetOf hF hne]
  exact if_neg (by omega)

end Worker

theorem Worker.step_parse {stage : ParseStage} (hpc : w.pc = .parse d f stage) :
    w.step root = some (w.parseStep root d f stage) := by
  simp [Worker.step, hpc]

theorem System.step_work_parse {stage : ParseStage} (hpc : w.pc = .parse d f stage) :
    (System.mk root w).step .work = some ⟨root, w.parseStep root d f stage⟩ := by
  simp [System.step, Worker.step_parse hpc]

/-- From event `r` the worker reads a well formed relay log to its end, one step per event,
    sending what a consumer should see of each; `latestPos` ends past the last one it
    forwarded. -/
theorem System.run_parse_to_eof (hfile : root.file? d.currentUUID F.name = some F) (hF : F.WF)
    (hrot : ∀ e ∈ F.events, rotateNameParses e = true) {m : Nat} :
    ∀ k r (w : Worker) (f : FileState) l, r + k = F.events.length →
      w.pc = .parse d f (.events (offsetOf F.events r)) → f.relayLogFile = F.name →
      f.latestPos = offsetOf F.events l → LastForwarded f.uuidSuffix F.events m r l →
      ∃ w' l', (System.mk root w).run (List.replicate k .work) = some ⟨root, w'⟩ ∧
        w'.pc = .parse d { f with latestPos := offsetOf F.events l' }
          (.events (offsetOf F.events F.events.length)) ∧
        LastForwarded f.uuidSuffix F.events m F.events.length l' ∧
        w'.reader.uuids = w.reader.uuids ∧
        sentView w'.sent = sentView w.sent ++ (F.events.drop r).filterMap (forward f.uuidSuffix) := by
  intro k
  induction k with
  | zero =>
    intro r w f l hk hpc _ hlat hlast
    rw [Nat.add_zero] at hk
    subst hk
    refine ⟨w, l, rfl, ?_, hlast, rfl, by simp⟩
    rw [hpc, ← hlat]
  | succ k ih =>
    intro r w f l hk hpc hname hlat hlast
    have hr : r < F.events.length := by omega
    have hfile' : root.file? d.currentUUID f.relayLogFile = some F := hname ▸ hfile
    obtain ⟨⟨w', f'⟩, hok⟩ := @Worker.onEvent_isOk w f _ (hrot _ (List.getElem_mem hr))
    obtain ⟨sid, out, hw', hout, hf'⟩ :=
      Worker.onEvent_eq_ok (hF.laidOut.get hr).timestamp_ne (hF.logPos_ne hr) hok
    have hnext := hlast.succ (List.getElem?_eq_getElem hr)
    obtain ⟨w'', l', hrun, hpc', hlast', hu, hsent⟩ :=
      ih (r + 1) { w' with pc := .parse d f' (.events (offsetOf F.events (r + 1))) } f'
        (if (forward f.uuidSuffix F.events[r]).isSome then r + 1 else l) (by omega) rfl
        (by rw [hf', hname]) (by rw [hf']; split <;> simp [hF.logPos_eq hr, hlat])
        (by rw [hf']; exact hnext)
    rw [hf'] at hlast' hsent
    refine ⟨w'', l', ?_, by rw [hpc', hf'], hlast', by rw [hu, hw'], ?_⟩
    · rw [List.replicate_succ, System.run_cons, System.step_work_parse hpc,
        Worker.parseStep_event hfile' hF hr, hok, Option.some_bind]
      exact hrun
    · rw [hsent, hw', sentView_append, hout, List.drop_eq_getElem_cons hr,
        ← List.singleton_append, List.filterMap_append, filterMap_singleton_forward,
        List.append_assoc]

/-- `parseFile` at an event boundary of a well formed relay log reaches its end with
    `latestPos` the end offset of the last event it forwarded, or the offset it was called
    with when it forwarded none. -/
theorem parseFile_latestPos_end_of_last_forwarded {x : String} {n : Int} {parsed : binlogFile}
    {m : Nat} (hu : ParseSuffixForUUID d.currentUUID = some (x, n))
    (hname : parseBinlogFile F.name = some parsed) (hfile : root.file? d.currentUUID F.name = some F)
    (hF : F.WF) (hrot : ∀ e ∈ F.events, rotateNameParses e = true) (hm : m ≤ F.events.length)
    (firstParse : Bool) :
    ∃ w' l, (System.mk root (w.parseFile d F.name (offsetOf F.events m) firstParse)).run
        (List.replicate (F.events.length - m + if 0 < m then 1 else 0) .work) = some ⟨root, w'⟩ ∧
      w'.pc = .parse d ⟨F.name, offsetOf F.events m, offsetOf F.events l, SuffixIntToStr n⟩
        (.events (offsetOf F.events F.events.length)) ∧
      LastForwarded (SuffixIntToStr n) F.events m F.events.length l ∧
      (offsetOf F.events l).toUInt32.toNat = offsetOf F.events l := by
  obtain ⟨out, hpf, -⟩ :=
    @Worker.parseFile_eq w d x n hu F.name parsed hname (offsetOf F.events m) firstParse
  rw [hpf]
  let f0 : FileState := ⟨F.name, offsetOf F.events m, offsetOf F.events m, SuffixIntToStr n⟩
  have hfile0 : root.file? d.currentUUID f0.relayLogFile = some F := hfile
  rcases Nat.eq_zero_or_pos m with rfl | hpos
  · -- from offset 4 `ParseFile` reads the events at once
    obtain ⟨w', l, hrun, hpc, hlast, -⟩ := System.run_parse_to_eof hfile hF hrot
      (F.events.length - 0 + 0) 0
      { w with sent := w.sent ++ out, pc := .parse d f0 (.start (offsetOf F.events 0)) } f0
      0 (by omega) (by simp [ParseStage.start_offsetOf_zero]) rfl rfl (LastForwarded.refl 0)
    exact ⟨w', l, by simpa using hrun, hpc, hlast, hF.toUInt32_offsetOf hlast.le_read⟩
  · -- past offset 4 it first reads the FORMAT_DESCRIPTION event again
    have hne : 0 < F.events.length := by omega
    let w0 : Worker :=
      { w with sent := w.sent ++ out, pc := .parse d f0 (.start (offsetOf F.events m)) }
    have hpc0 : w0.pc = .parse d f0 .formatDescription := by
      simp [w0, ParseStage.start_offsetOf_pos hF.laidOut hpos hm]
    obtain ⟨⟨w1, f1⟩, hok⟩ := @Worker.onEvent_isOk w0 f0 _ (hrot _ (List.getElem_mem hne))
    obtain ⟨sid, out1, -, -, hf1⟩ :=
      Worker.onEvent_eq_ok (hF.laidOut.get hne).timestamp_ne (hF.logPos_ne hne) hok
    have hfd : forward f0.uuidSuffix F.events[0] = none := by
      simp [forward, hF.first_isFormatDescription hne]
    rw [hfd] at hf1
    subst hf1
    obtain ⟨w', l, hrun, hpc, hlast, -⟩ := System.run_parse_to_eof hfile hF hrot
      (F.events.length - m) m { w1 with pc := .parse d f0 (.events (offsetOf F.events m)) } f0 m
      (by omega) rfl rfl rfl (LastForwarded.refl m)
    refine ⟨w', l, ?_, hpc, hlast, hF.toUInt32_offsetOf hlast.le_read⟩
    have hmax : max f0.offset 4 = offsetOf F.events m :=
      Nat.max_eq_left (by simp [f0, offsetOf])
    rw [if_pos hpos, List.replicate_succ, System.run_cons, System.step_work_parse hpc0,
      Worker.parseStep_formatDescription hfile0 hF hne, hok, Option.some_bind]
    simpa [hmax] using hrun

/-- A relay log read from the end of its DDL event, whose last event was added by the relay
    writer: `latestPos` ends at 184, the end of the DDL event. -/
theorem parseFile_latestPos_after_gap_event :
    let F : RelayLogFile := ⟨"mysql-bin.000001", [⟨⟨1, 1, 120, 124, 0⟩, .formatDescription⟩,
      ⟨⟨1, 1, 60, 184, 0⟩, .query "CREATE TABLE t (a INT)" ⟨""⟩⟩,
      ⟨⟨1, 1, 30, 214, 0x40⟩, .ignorable⟩], 0⟩
    let d : DirState := ⟨"c6ae5afe-c7a3-11e8-a19d-0242ac130006.000001", []⟩
    let w : Worker := ⟨⟨"/data/relay", [d.currentUUID], 0⟩, [], .relay ⟨F.name, 4⟩⟩
    ∃ w' l, (System.mk ⟨[⟨d.currentUUID, [F]⟩]⟩ (w.parseFile d F.name (offsetOf F.events 2) true)).run
        (List.replicate (F.events.length - 2 + if 0 < 2 then 1 else 0) .work) =
          some ⟨⟨[⟨d.currentUUID, [F]⟩]⟩, w'⟩ ∧
      w'.pc = .parse d ⟨F.name, offsetOf F.events 2, offsetOf F.events l, SuffixIntToStr 1⟩
        (.events (offsetOf F.events F.events.length)) ∧
      LastForwarded (SuffixIntToStr 1) F.events 2 F.events.length l ∧
      (offsetOf F.events l).toUInt32.toNat = offsetOf F.events l :=
  parseFile_latestPos_end_of_last_forwarded
    (show ParseSuffixForUUID "c6ae5afe-c7a3-11e8-a19d-0242ac130006.000001" =
      some ("c6ae5afe-c7a3-11e8-a19d-0242ac130006", 1) by decide)
    (show parseBinlogFile "mysql-bin.000001" = some ⟨"mysql-bin", "000001"⟩ by decide)
    (by decide) (by decide) (by decide) (by decide) true

/-- Past `2^32` bytes the 32-bit log position wraps, and `latestPos` with it: once `parseFile`
    has sent an event that ends at `2^32 + 24` and returned, `latestPos` is `24`. -/
theorem latestPos_wraps_past_maxRelayLogSize :
    let fd : BinlogEvent := ⟨⟨1, 1, 120, 124, 0⟩, .formatDescription⟩
    let big : BinlogEvent := ⟨⟨1, 1, 4294967196, 24, 0⟩, .other⟩
    let uuid := "c6ae5afe-c7a3-11e8-a19d-0242ac130006.000001"
    let root : RelayRoot := ⟨[⟨uuid, [⟨"mysql-bin.000001", [fd, big], 0⟩]⟩]⟩
    ∃ w, (System.mk root ⟨⟨"/data/relay", [uuid], 0⟩, [], .relay ⟨"mysql-bin.000001", 4⟩⟩).run
        (List.replicate 5 .work) = some ⟨root, w⟩ ∧ w.sent.getLast? = some big ∧
      w.pc = .watchAdd ⟨uuid, []⟩ ⟨"mysql-bin.000001", 4, 24, "000001"⟩ ∧
      offsetOf [fd, big] 2 = 2 ^ 32 + 24 :=
  ⟨_, rfl, rfl, rfl, rfl⟩

end ParseFile

end dm.streamer
