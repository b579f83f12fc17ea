import BinlogRelay.Streamer.Delivery

open dm.binlog

namespace dm.streamer

/-- `s'` is reached from `s` by steps of the worker alone, the relay directory untouched. -/
def WorkRun (s s' : System) : Prop := ∃ n, s.run (List.replicate n .work) = some s'

namespace WorkRun

variable {s s' s'' : System}

theorem refl (s : System) : WorkRun s s := ⟨0, rfl⟩

theorem trans (h : WorkRun s s') (h' : WorkRun s' s'') : WorkRun s s'' := by
  obtain ⟨n, hn⟩ := h
  obtain ⟨m, hm⟩ := h'
  exact ⟨n + m, by rw [List.replicate_add, System.run_append, hn, Option.some_bind, hm]⟩

theorem of_step {root : RelayRoot} {w w' : Worker} (h : w.step root = some w') :
    WorkRun ⟨root, w⟩ ⟨root, w'⟩ :=
  ⟨1, by simp [System.step, h]⟩

end WorkRun

/-- The last relay log of the plan of the `j`th sub directory ends with an event the reader
    forwards, or holds nothing after the event the reader starts it at: read to its end, it
    leaves `latestPos` at its size. -/
def EndsForwarded (st : StreamStart) (root : RelayRoot) (j : Nat) : Prop :=
  ∀ G ∈ (st.planFiles root j).getLast?,
    st.planStart j ((st.planFiles root j).length - 1) = G.events.length ∨
      ∃ e ∈ G.events.getLast?, (forward (st.epochSuffix j) e).isSome

instance (st : StreamStart) (root : RelayRoot) (j : Nat) : Decidable (EndsForwarded st root j) :=
  inferInstanceAs (Decidable (∀ G ∈ (st.planFiles root j).getLast?, _ ∨ _))

theorem LastForwarded.eq_length {suffix : String} {es : List BinlogEvent} {m l : Nat}
    (h : LastForwarded suffix es m es.length l)
    (hend : m = es.length ∨ ∃ e ∈ es.getLast?, (forward suffix e).isSome) : l = es.length := by
  have hle := h.le_read
  rcases hend with rfl | ⟨e, he, hf⟩
  · exact le_antisymm hle h.start_le
  · by_contra hne
    rw [List.getLast?_eq_getElem?] at he
    have hquiet := h.quiet (es.length - 1) e (by omega) (by have := h.start_le; omega) he
    simp [hquiet] at hf

namespace StreamStart

theorem streamBefore_length_zero (st : StreamStart) (root : RelayRoot) :
    st.streamBefore root st.entries.length 0 = st.idealStream root := by
  simp [streamBefore, idealStream, slots]

theorem streamBefore_newest {st : StreamStart} {root : RelayRoot} {j : Nat} (hk : st.epoch ≤ j)
    (hj : j + 1 = st.entries.length) :
    st.streamBefore root j (st.planFiles root j).length = st.idealStream root := by
  rw [← streamBefore_zero_succ hk, hj, streamBefore_length_zero]

end StreamStart

section Drain

variable {st : StreamStart} {root : RelayRoot} {w : Worker} {d : DirState} {j p r : Nat}
  {F : RelayLogFile}

/-- The worker inside `ParseFile` on the `p`th relay log `F` of the plan of the `j`th sub
    directory, read up to event `r`, with the relay logs after it in the plan still to
    parse. -/
def Reading (st : StreamStart) (root : RelayRoot) (w : Worker) (j p : Nat) (F : RelayLogFile)
    (r : Nat) : Prop :=
  w.reader.uuids = st.uuids ∧ ∃ d f stage l, w.pc = .parse d f stage ∧
    InFile st root w.sent d f j p F l r ∧ StageAt F f r stage ∧
    d.rest = ((st.planFiles root j).drop (p + 1)).map (·.name)

/-- The worker at the end of the `p`th relay log `F` of the plan, where `ParseFile` finds
    no more event. -/
def AtEnd (st : StreamStart) (root : RelayRoot) (w : Worker) (j p : Nat) (F : RelayLogFile) :
    Prop :=
  w.reader.uuids = st.uuids ∧ ∃ d f l,
    w.pc = .parse d f (.events (offsetOf F.events F.events.length)) ∧
    InFile st root w.sent d f j p F l F.events.length ∧
    d.rest = ((st.planFiles root j).drop (p + 1)).map (·.name)

theorem Reading.mem_planFiles (h : Reading st root w j p F r) : F ∈ st.planFiles root j := by
  obtain ⟨-, _, _, _, _, -, hin, -⟩ := h
  exact List.getElem?_mem hin.slot

theorem InFile.run_to_end (hroot : root.WF) (hrot : ∀ e ∈ F.events, rotateNameParses e = true)
    {w : Worker} {f : FileState} {l r : Nat} (h : InFile st root w.sent d f j p F l r)
    (hpc : w.pc = .parse d f (.events (offsetOf F.events r))) :
    ∃ w' f' l', WorkRun ⟨root, w⟩ ⟨root, w'⟩ ∧ w'.reader.uuids = w.reader.uuids ∧
      w'.pc = .parse d f' (.events (offsetOf F.events F.events.length)) ∧
      InFile st root w'.sent d f' j p F l' F.events.length := by
  obtain ⟨hF, hfile⟩ := h.file? hroot
  have hlast := h.lastForwarded
  rw [← h.suffix] at hlast
  obtain ⟨w', l', hrun, hpc', hlast', hu, hsent⟩ := System.run_parse_to_eof (h.file ▸ hfile) hF
    hrot (F.events.length - r) r w f l (by have := h.read_le; omega) hpc h.file h.latestPos hlast
  rw [h.suffix] at hlast' hsent
  refine ⟨w', _, l', ⟨_, hrun⟩, hu, hpc', { h with
    start_le := h.start_le.trans h.read_le
    read_le := le_rfl
    sent := ?_
    latestPos := rfl
    lastForwarded := hlast' }⟩
  rw [hsent, h.sent, List.append_assoc, partialSlot_append_drop h.start_le, partialSlot_length]

theorem Reading.run_to_end (hroot : root.WF) (hrot : ∀ e ∈ F.events, rotateNameParses e = true)
    (h : Reading st root w j p F r) :
    ∃ w', WorkRun ⟨root, w⟩ ⟨root, w'⟩ ∧ AtEnd st root w' j p F := by
  obtain ⟨hu, d, f, stage, l, hpc, hin, hstage, hrest⟩ := h
  obtain ⟨hF, hfile⟩ := hin.file? hroot
  obtain ⟨w1, f1, hrun1, hu1, hpc1, hin1⟩ : ∃ w1 f1, WorkRun ⟨root, w⟩ ⟨root, w1⟩ ∧
      w1.reader.uuids = w.reader.uuids ∧ w1.pc = .parse d f1 (.events (offsetOf F.events r)) ∧
      InFile st root w1.sent d f1 j p F l r := by
    cases stage with
    | events o =>
      obtain rfl : o = offsetOf F.events r := hstage
      exact ⟨w, f, .refl _, rfl, hpc, hin⟩
    | formatDescription =>
      obtain ⟨hoff, hr⟩ := hstage
      have hne : 0 < F.events.length := by have := hin.read_le; omega
      obtain ⟨⟨w', f'⟩, hok⟩ := @Worker.onEvent_isOk w f _ (hrot _ (List.getElem_mem hne))
      obtain ⟨hu', rfl, hin'⟩ := hin.onEvent_formatDescription hF hne hok
      have hstep : w.step root =
          some { w' with pc := .parse d f' (.events (offsetOf F.events r)) } := by
        rw [Worker.step_parse hpc, Worker.parseStep_formatDescription hfile hF hne, hok, hoff,
          Nat.max_eq_left (four_le_offsetOf F.events r)]
      exact ⟨_, f', .of_step hstep, hu', rfl, hin'⟩
  obtain ⟨w2, f2, l2, hrun2, hu2, hpc2, hin2⟩ :=
    hin1.run_to_end hroot hrot hpc1
  exact ⟨w2, hrun1.trans hrun2, hu2.trans (hu1.trans hu), d, f2, l2, hpc2, hin2, hrest⟩

theorem AtEnd.run_next_file (hidx : IndexWF st.entries) (hroot : root.WF)
    (h : AtEnd st root w j p F) {G : RelayLogFile} (hG : (st.planFiles root j)[p + 1]? = some G) :
    ∃ w', WorkRun ⟨root, w⟩ ⟨root, w'⟩ ∧ Reading st root w' j (p + 1) G 0 := by
  obtain ⟨hu, d, f, l, hpc, hin, hrest⟩ := h
  obtain ⟨hF, hfile⟩ := hin.file? hroot
  obtain ⟨hlt, hGeq⟩ := List.getElem?_eq_some_iff.mp hG
  have hr : d.rest = G.name :: ((st.planFiles root j).drop (p + 2)).map (·.name) := by
    rw [hrest, List.drop_eq_getElem_cons hlt, List.map_cons, hGeq]
  obtain ⟨G', hG', hname, -, out, hw, hin'⟩ := hin.parseFile_next hidx hroot hr
  obtain rfl : G' = G := Option.some.inj (hG'.symm.trans hG)
  have hstep : w.step root = some (w.parseFile ⟨d.currentUUID,
      ((st.planFiles root j).drop (p + 2)).map (·.name)⟩ G'.name 4 true) := by
    rw [Worker.step_parse hpc, Worker.parseStep_eof hfile hF, Worker.parseFileEnd_done_cons hr]
    simp only [Worker.fileDone, hr]
  rw [hname, hw] at hstep
  exact ⟨_, .of_step hstep, hu, _, _, _, 0, rfl, hin', (offsetOf_zero G'.events).symm, rfl⟩

theorem Reading.run_to_last (hidx : IndexWF st.entries) (hroot : root.WF)
    (hrot : ∀ G ∈ st.planFiles root j, ∀ e ∈ G.events, rotateNameParses e = true) :
    ∀ k {w : Worker} {p : Nat} {F : RelayLogFile} {r : Nat},
      p + 1 + k = (st.planFiles root j).length → Reading st root w j p F r →
      ∃ w' G, WorkRun ⟨root, w⟩ ⟨root, w'⟩ ∧
        AtEnd st root w' j ((st.planFiles root j).length - 1) G
  | 0, w, p, F, r, hk, h => by
    obtain ⟨w', hrun, hend⟩ := h.run_to_end hroot (hrot F h.mem_planFiles)
    exact ⟨w', F, hrun, by rw [← hk]; exact hend⟩
  | k + 1, w, p, F, r, hk, h => by
    obtain ⟨w1, hrun1, hend1⟩ := h.run_to_end hroot (hrot F h.mem_planFiles)
    have hlt : p + 1 < (st.planFiles root j).length := by omega
    obtain ⟨G, hG⟩ : ∃ G, (st.planFiles root j)[p + 1]? = some G :=
      ⟨_, List.getElem?_eq_getElem hlt⟩
    obtain ⟨w2, hrun2, hread⟩ := hend1.run_next_file hidx hroot hG
    obtain ⟨w3, G', hrun3, hend3⟩ := Reading.run_to_last hidx hroot hrot k (by omega) hread
    exact ⟨w3, G', hrun1.trans (hrun2.trans hrun3), hend3⟩

theorem BeforeEpoch.run_to_reading (hidx : IndexWF st.entries) (hroot : root.WF)
    (hu : w.reader.uuids = st.uuids) (hb : BeforeEpoch st root w.sent j F)
    (hpc : w.pc = .collect (st.epochUUID j)
      ⟨F.name, (offsetOf F.events (st.planStart j 0)).toUInt32⟩ true) :
    ∃ w', WorkRun ⟨root, w⟩ ⟨root, w'⟩ ∧ Reading st root w' j 0 F (st.planStart j 0) := by
  obtain ⟨hF, -⟩ := StreamStart.slot_file hroot hb.slot
  obtain ⟨out, hw, hin, hstage⟩ := InFile.parseFile (w := w)
    (d := ⟨st.epochUUID j, ((st.planFiles root j).drop 1).map (·.name)⟩) hidx hroot hb.epoch_le
    hb.epoch_lt hb.slot hb.start_le (.refl _) rfl (List.prefix_refl _) (fun _ => rfl) true
    (by rw [hb.sent, partialSlot_self, if_pos rfl])
  have hstep : w.step root = some (w.parseFile ⟨st.epochUUID j,
      ((st.planFiles root j).drop 1).map (·.name)⟩ F.name (offsetOf F.events (st.planStart j 0))
      true) := by
    simp only [Worker.step, hpc, StreamStart.collect_planFiles hroot hb.slot, hasSuffix_self,
      Bool.not_true, Bool.false_eq_true, if_false, hF.toUInt32_offsetOf hb.start_le]
  rw [hw] at hstep
  exact ⟨_, .of_step hstep, hu, _, _, _, _, rfl, hin, hstage, rfl⟩

theorem Relaying.run_to_reading (hidx : IndexWF st.entries) (hroot : root.WF)
    (h : Relaying st root w j F) :
    ∃ w', WorkRun ⟨root, w⟩ ⟨root, w'⟩ ∧ Reading st root w' j 0 F (st.planStart j 0) := by
  obtain ⟨hu, pos, s, hpc, hb, hext⟩ := h
  let w1 : Worker := { w with pc := (.collect (st.epochUUID j)
    ⟨F.name, (offsetOf F.events (st.planStart j 0)).toUInt32⟩ true) }
  have h1 : w.step root = some w1 := by simp only [w1, Worker.step, hpc, hu, hext]
  obtain ⟨w', hrun, hread⟩ := BeforeEpoch.run_to_reading (w := w1) hidx hroot hu hb rfl
  exact ⟨w', (WorkRun.of_step h1).trans hrun, hread⟩

theorem AtSlot.run_to_reading (hidx : IndexWF st.entries) (hroot : root.WF)
    (hu : w.reader.uuids = st.uuids) {l : Nat} (ha : AtSlot st root w.sent j p F l)
    (hlast : LastForwarded (st.epochSuffix j) F.events (st.planStart j p) l l)
    (hpc : w.pc = .collect (st.epochUUID j) ⟨F.name, (offsetOf F.events l).toUInt32⟩ false) :
    ∃ w', WorkRun ⟨root, w⟩ ⟨root, w'⟩ ∧ Reading st root w' j p F l := by
  obtain ⟨hF, -⟩ := StreamStart.slot_file hroot ha.slot
  obtain ⟨out, hw, hin, hstage⟩ := InFile.parseFile (w := w)
    (d := ⟨st.epochUUID j, ((st.planFiles root j).drop (p + 1)).map (·.name)⟩) hidx hroot
    ha.epoch_le ha.epoch_lt ha.slot ha.read_le hlast rfl (List.prefix_refl _) (fun _ => rfl) false
    (by simpa using ha.sent)
  have hstep : w.step root = some (w.parseFile ⟨st.epochUUID j,
      ((st.planFiles root j).drop (p + 1)).map (·.name)⟩ F.name (offsetOf F.events l) false) := by
    simp only [Worker.step, hpc, StreamStart.collect_planFiles hroot ha.slot, hasSuffix_self,
      Bool.not_true, Bool.false_eq_true, if_false, hF.toUInt32_offsetOf ha.read_le]
  rw [hw] at hstep
  exact ⟨_, .of_step hstep, hu, _, _, _, _, rfl, hin, hstage, rfl⟩

theorem InFile.eq_length_of_endsForwarded {sent : List BinlogEvent} {f : FileState} {l : Nat}
    (hin : InFile st root sent d f j p F l F.events.length)
    (hp : p + 1 = (st.planFiles root j).length) (hend : EndsForwarded st root j) :
    l = F.events.length := by
  have hlast : (st.planFiles root j).getLast? = some F := by
    rw [List.getLast?_eq_getElem?, ← hp, Nat.add_sub_cancel]
    exact hin.slot
  refine hin.lastForwarded.eq_length ?_
  rw [← Nat.add_sub_cancel p 1, hp]
  exact hend F hlast

theorem InFile.run_switchStat (hidx : IndexWF st.entries) (hroot : root.WF)
    (hu : w.reader.uuids = st.uuids) {f : FileState}
    (hin : InFile st root w.sent d f j p F F.events.length F.events.length) (hr : d.rest = [])
    (hj : j + 1 < st.entries.length) {G : RelayLogFile}
    (hG : (st.planFiles root (j + 1))[0]? = some G)
    (hpc : w.pc = .switchStat d f (st.epochUUID (j + 1)) G.name) :
    ∃ w', WorkRun ⟨root, w⟩ ⟨root, w'⟩ ∧ Relaying st root w' (j + 1) G := by
  obtain ⟨hF, hfile⟩ := hin.file? hroot
  obtain ⟨pos, hpos, hb, hext⟩ := hin.switchSubDir hidx hroot hr hj hG
  have hstep : w.step root = some { w with pc := .relay pos } := by
    simp [Worker.step, hpc, hfile, hin.latestPos, hF.fileSizeUpdated le_rfl, ← hpos]
  exact ⟨_, .of_step hstep, hu, pos, _, rfl, hb, hext⟩

theorem InFile.run_nextDir (hidx : IndexWF st.entries) (hroot : root.WF)
    (hu : w.reader.uuids = st.uuids) {f : FileState}
    (hin : InFile st root w.sent d f j p F F.events.length F.events.length) (hr : d.rest = [])
    (hj : j + 1 < st.entries.length) (hne : st.planFiles root (j + 1) ≠ [])
    (hpc : w.pc = .nextDir d f (st.epochUUID (j + 1))) :
    ∃ w' G, WorkRun ⟨root, w⟩ ⟨root, w'⟩ ∧ Relaying st root w' (j + 1) G := by
  obtain ⟨G, hG⟩ : ∃ G, (st.planFiles root (j + 1))[0]? = some G :=
    ⟨_, List.getElem?_eq_getElem (List.length_pos.mpr hne)⟩
  have hjk : j + 1 ≠ st.epoch := by have := hin.epoch_le; omega
  let w' : Worker := { w with pc := .switchStat d f (st.epochUUID (j + 1)) G.name }
  have hstep : w.step root = some w' := by
    simp only [w', Worker.step, hpc, StreamStart.getFirstBinlogName_planFiles hroot hjk hG]
  obtain ⟨w'', hrun, hrel⟩ := InFile.run_switchStat (w := w') hidx hroot hu hin hr hj hG rfl
  exact ⟨w'', G, (WorkRun.of_step hstep).trans hrun, hrel⟩

theorem AtEnd.slot (h : AtEnd st root w j p F) :
    st.epoch ≤ j ∧ j < st.entries.length ∧ (st.planFiles root j)[p]? = some F := by
  obtain ⟨-, _, _, _, -, hin, -⟩ := h
  exact ⟨hin.epoch_le, hin.epoch_lt, hin.slot⟩

theorem AtEnd.sentView_eq (h : AtEnd st root w j p F) :
    sentView w.sent = st.streamBefore root j (p + 1) := by
  obtain ⟨-, _, _, _, -, hin, -⟩ := h
  rw [hin.sent, StreamStart.streamBefore_succ hin.slot, partialSlot_length]

theorem AtEnd.run_switch (hidx : IndexWF st.entries) (hroot : root.WF)
    (h : AtEnd st root w j p F) (hp : p + 1 = (st.planFiles root j).length)
    (hj : j + 1 < st.entries.length) (hne : st.planFiles root (j + 1) ≠ [])
    (hend : EndsForwarded st root j) :
    ∃ w' G, WorkRun ⟨root, w⟩ ⟨root, w'⟩ ∧ Relaying st root w' (j + 1) G := by
  obtain ⟨hu, d, f, l, hpc, hin, hrest⟩ := h
  obtain ⟨hF, hfile⟩ := hin.file? hroot
  have hr : d.rest = [] := by rw [hrest, List.drop_eq_nil_of_le (by omega), List.map_nil]
  obtain rfl := hin.eq_length_of_endsForwarded hp hend
  let w' : Worker := { w with pc := .nextDir d f (st.epochUUID (j + 1)) }
  have hstep : w.step root = some w' := by
    rw [Worker.step_parse hpc, Worker.parseStep_eof hfile hF, hin.parseFileEnd_last hidx hu hr,
      if_pos hj]
  obtain ⟨w'', G, hrun, hrel⟩ := InFile.run_nextDir (w := w') hidx hroot hu hin hr hj hne rfl
  exact ⟨w'', G, (WorkRun.of_step hstep).trans hrun, hrel⟩

section Rest

variable (hidx : IndexWF st.entries) (hroot : root.WF)
  (hrot : ∀ j, ∀ G ∈ st.planFiles root j, ∀ e ∈ G.events, rotateNameParses e = true)
  (hne : ∀ j < st.entries.length, st.epoch < j → st.planFiles root j ≠ [])
  (hend : ∀ j < st.entries.length - 1, st.epoch ≤ j → EndsForwarded st root j)
include hidx hroot hrot hne hend

theorem AtEnd.run_to_ideal (k : Nat) {w : Worker} {j : Nat} {G : RelayLogFile}
    (hk : j + 1 + k = st.entries.length)
    (h : AtEnd st root w j ((st.planFiles root j).length - 1) G) :
    ∃ w', WorkRun ⟨root, w⟩ ⟨root, w'⟩ ∧ sentView w'.sent = st.idealStream root := by
  obtain ⟨hkj, -, hG⟩ := h.slot
  have hlen : 0 < (st.planFiles root j).length := by
    have := (List.getElem?_eq_some_iff.mp hG).1; omega
  induction k generalizing w j G with
  | zero =>
    refine ⟨w, .refl _, ?_⟩
    rw [h.sentView_eq, Nat.sub_add_cancel hlen, StreamStart.streamBefore_newest hkj hk]
  | succ k ih =>
    obtain ⟨w1, G1, hrun1, hrel⟩ := h.run_switch hidx hroot (Nat.sub_add_cancel hlen)
      (by omega) (hne (j + 1) (by omega) (by omega)) (hend j (by omega) hkj)
    obtain ⟨w2, hrun2, hread⟩ := hrel.run_to_reading hidx hroot
    have hlen' := List.length_pos_of_mem hread.mem_planFiles
    obtain ⟨w3, G3, hrun3, hend3⟩ :=
      hread.run_to_last hidx hroot (hrot (j + 1)) ((st.planFiles root (j + 1)).length - 1)
        (by omega)
    obtain ⟨w4, hrun4, hideal⟩ := ih (by omega) hend3 hend3.slot.1 hend3.slot.2.2 (by omega)
    exact ⟨w4, hrun1.trans (hrun2.trans (hrun3.trans hrun4)), hideal⟩

theorem Reading.run_to_ideal (h : Reading st root w j p F r) :
    ∃ w', WorkRun ⟨root, w⟩ ⟨root, w'⟩ ∧ sentView w'.sent = st.idealStream root := by
  obtain ⟨-, _, _, _, _, -, hin, -⟩ := id h
  have hp := (List.getElem?_eq_some_iff.mp hin.slot).1
  obtain ⟨w1, G, hrun1, hend1⟩ :=
    h.run_to_last hidx hroot (hrot j) ((st.planFiles root j).length - (p + 1)) (by omega)
  obtain ⟨w2, hrun2, hideal⟩ := hend1.run_to_ideal hidx hroot hrot hne hend
    (st.entries.length - (j + 1)) (by have := hin.epoch_lt; omega)
  exact ⟨w2, hrun1.trans hrun2, hideal⟩

theorem Relaying.run_to_ideal (h : Relaying st root w j F) :
    ∃ w', WorkRun ⟨root, w⟩ ⟨root, w'⟩ ∧ sentView w'.sent = st.idealStream root := by
  obtain ⟨w1, hrun1, hread⟩ := h.run_to_reading hidx hroot
  obtain ⟨w2, hrun2, hideal⟩ := hread.run_to_ideal hidx hroot hrot hne hend
  exact ⟨w2, hrun1.trans hrun2, hideal⟩

end Rest

end Drain

/-- No event is lost once the relay writer stops: on a relay directory nobody writes to,
    the worker reaches by its own steps a point where it has sent the whole ideal
    stream. -/
theorem sentView_eq_idealStream_of_quiescent (st : StreamStart) (hidx : IndexWF st.entries)
    (hk : st.epoch < st.entries.length) {s0 : System} (hroot : s0.root.WF) {F0 : RelayLogFile}
    (hF0 : F0 ∈ epochLogs s0.root (st.epochUUID st.epoch)) (hname : F0.name = st.file)
    (hm : st.event ≤ F0.events.length) {pos : Position} {suffix : String}
    (hpos : extractPos st.uuids pos =
      .ok (st.epochUUID st.epoch, suffix, ⟨st.file, (offsetOf F0.events st.event).toUInt32⟩))
    {relayDir : String} {sid : UInt32}
    (hw : s0.worker = ⟨⟨relayDir, st.uuids, sid⟩, [], .relay pos⟩)
    (hrot : ∀ d ∈ s0.root.subDirs, ∀ F ∈ d.files, ∀ e ∈ F.events, rotateNameParses e = true)
    (hne : ∀ j < st.entries.length, st.epoch < j → st.planFiles s0.root j ≠ [])
    (hend : ∀ j < st.entries.length - 1, st.epoch ≤ j → EndsForwarded st s0.root j) :
    ∃ n s, s0.run (List.replicate n .work) = some s ∧ s.root = s0.root ∧
      sentView s.worker.sent = st.idealStream s0.root := by
  have hrot' : ∀ j, ∀ G ∈ st.planFiles s0.root j, ∀ e ∈ G.events, rotateNameParses e = true := by
    intro j G hG
    obtain ⟨d, hsub, hmem⟩ := StreamStart.planFiles_mem hG
    exact hrot d (RelayRoot.subDir?_mem hsub).1 G (List.mem_of_mem_filter hmem)
  obtain ⟨w', ⟨n, hrun⟩, hsent⟩ := (Relaying.start hk hroot hF0 hname hm hpos hw).run_to_ideal
    hidx hroot hrot' hne hend
  exact ⟨n, _, hrun, rfl, hsent⟩

/-- Started after the first event of `twoEpochsSystem`, nobody writing, the worker sends the
    ideal stream of both sub directories. -/
theorem twoEpochs_drained :
    ∃ n s, twoEpochsSystem.run (List.replicate n .work) = some s ∧ s.root = twoEpochsSystem.root ∧
      sentView s.worker.sent = twoEpochs.idealStream twoEpochsSystem.root :=
  @sentView_eq_idealStream_of_quiescent twoEpochs ⟨by decide, by decide, by decide⟩ (by decide)
    twoEpochsSystem ⟨by decide, fun d hd => ⟨"mysql-bin", 6, by revert d; decide⟩⟩
    (exampleLog "mysql-bin.000001" [exampleQuery 1 184 "INSERT INTO t VALUES (1)",
        ⟨⟨1, 1, 47, 231, 0⟩, .rotate "mysql-bin.000002" 4⟩]) (by decide) rfl (by decide)
    ⟨"mysql-bin|000001.000001", 124⟩ "000001" rfl "/data/relay" 0 rfl (by decide) (by decide)
    (by decide)

end dm.streamer
