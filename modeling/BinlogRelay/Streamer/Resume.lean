import BinlogRelay.Streamer.Delivery

open dm.binlog

namespace dm.streamer

section Slots

variable {suffix : String} {F : RelayLogFile} {e x : BinlogEvent} {name : String} {p m : Nat}

theorem forward_header (h : forward suffix x = some e) : e.header = x.header := by
  unfold forward at h
  split at h
  · cases h
  · split at h
    · obtain ⟨f, -, rfl⟩ := Option.map_eq_some'.mp h
      rfl
    · cases h
      rfl

theorem forward_eq_rotate (h : forward suffix x = some e) (hb : e.body = .rotate name p) :
    ∃ n f, x.body = .rotate n p ∧ parseBinlogFile n = some f ∧
      name = constructBinlogName f suffix := by
  unfold forward at h
  split at h
  · cases h
  · split at h
    · rename_i n q hx
      obtain ⟨f, hf, rfl⟩ := Option.map_eq_some'.mp h
      obtain ⟨rfl, rfl⟩ := EventBody.rotate.inj hb
      exact ⟨n, f, hx, hf, rfl⟩
    · rename_i hx
      cases h
      exact absurd hb (hx name p)

theorem forward_GenFakeRotateEvent_of_mem (hF : F.WF) (he : e ∈ fileSlot suffix F m)
    (hts : e.header.timestamp = 0) :
    forward suffix (GenFakeRotateEvent F.name (offsetOf F.events m) 0) = some e := by
  obtain ⟨x, hx, hfx⟩ := List.mem_filterMap.mp he
  rcases List.mem_cons.mp hx with rfl | hx
  · exact hfx
  · obtain ⟨r, hr, rfl⟩ := List.getElem_of_mem (List.mem_of_mem_drop hx)
    have := (hF.laidOut.get hr).timestamp_ne
    rw [← forward_header hfx, hts] at this
    exact absurd rfl this

theorem mem_slots : ∀ {m : Nat} {Fs : List RelayLogFile}, e ∈ slots suffix m Fs →
    ∃ q F, Fs[q]? = some F ∧ e ∈ fileSlot suffix F (if q = 0 then m else 0)
  | _, [], he => by cases he
  | _, F :: Fs, he => by
    rcases List.mem_append.mp he with he | he
    · exact ⟨0, F, by simp, he⟩
    · obtain ⟨q, G, hG, he'⟩ := mem_slots he
      exact ⟨q + 1, G, by simpa using hG, by simpa using he'⟩

theorem slots_eq_take_append_drop : ∀ (m : Nat) (Fs : List RelayLogFile) (q : Nat),
    slots suffix m Fs =
      slots suffix m (Fs.take q) ++ slots suffix (if q = 0 then m else 0) (Fs.drop q)
  | _, [], _ => by simp [slots]
  | _, _ :: _, 0 => by simp [slots]
  | _, F :: Fs, q + 1 => by
    simp [slots, slots_eq_take_append_drop 0 Fs q]

end Slots

theorem eraseFakeServerID_body (e : BinlogEvent) : (eraseFakeServerID e).body = e.body := by
  unfold eraseFakeServerID
  split <;> rfl

theorem eraseFakeServerID_timestamp (e : BinlogEvent) :
    (eraseFakeServerID e).header.timestamp = e.header.timestamp := by
  unfold eraseFakeServerID
  split <;> rfl

theorem mem_sentView {sent : List BinlogEvent} {e : BinlogEvent} (he : e ∈ sent)
    (hfd : e.isFormatDescription = false) : eraseFakeServerID e ∈ sentView sent :=
  List.mem_map_of_mem _ (List.mem_filter.mpr ⟨he, by simp [hfd]⟩)

namespace StreamStart

variable {st : StreamStart} {root : RelayRoot} {i j q : Nat} {F : RelayLogFile}
  {e : BinlogEvent} {file : String}

theorem planStart_ite (j q : Nat) :
    (if q = 0 then st.planStart j 0 else 0) = st.planStart j q := by
  cases q <;> simp [planStart_succ]

theorem mem_idealStream (he : e ∈ st.idealStream root) :
    ∃ j, st.epoch ≤ j ∧ j < st.entries.length ∧ e ∈ st.epochStream root j := by
  obtain ⟨j, hj, he⟩ := List.mem_flatMap.mp he
  obtain ⟨h1, h2⟩ := List.mem_range'_1.mp hj
  exact ⟨j, h1, by omega, he⟩

theorem mem_epochStream (he : e ∈ st.epochStream root j) :
    ∃ q F, (st.planFiles root j)[q]? = some F ∧
      e ∈ fileSlot (st.epochSuffix j) F (st.planStart j q) := by
  obtain ⟨q, F, hF, he⟩ := mem_slots he
  exact ⟨q, F, hF, planStart_ite j q ▸ he⟩

/-- Where a reader starts that is started at relay log `file`, the `q`th of the plan of sub
    directory `j`, at the event the plan reads it from. -/
def resumeAt (st : StreamStart) (j q : Nat) (file : String) : StreamStart :=
  ⟨st.entries, j, file, st.planStart j q⟩

@[simp] theorem resumeAt_entries : (st.resumeAt j q file).entries = st.entries := rfl

@[simp] theorem resumeAt_epoch : (st.resumeAt j q file).epoch = j := rfl

@[simp] theorem resumeAt_file : (st.resumeAt j q file).file = file := rfl

@[simp] theorem resumeAt_event : (st.resumeAt j q file).event = st.planStart j q := rfl

@[simp] theorem resumeAt_epochUUID : (st.resumeAt j q file).epochUUID i = st.epochUUID i := rfl

@[simp] theorem resumeAt_epochSuffix :
    (st.resumeAt j q file).epochSuffix i = st.epochSuffix i := rfl

@[simp] theorem resumeAt_uuids : (st.resumeAt j q file).uuids = st.uuids := rfl

theorem planFiles_resumeAt (hroot : root.WF) (hF : (st.planFiles root j)[q]? = some F) :
    (st.resumeAt j q F.name).planFiles root j = (st.planFiles root j).drop q := by
  obtain ⟨d, hsub, -⟩ := planFiles_mem (List.getElem?_mem hF)
  obtain ⟨base, width, hd⟩ := hroot.subDir_WF hsub
  obtain ⟨i, hi⟩ := st.planFiles_eq_drop root j
  have hlogs : epochLogs root (st.epochUUID j) = relayLogs d := by simp [epochLogs, hsub]
  rw [hi, hlogs] at hF ⊢
  obtain ⟨hq, rfl⟩ := List.getElem?_eq_some_iff.mp hF
  have hiq : i + q < (relayLogs d).length := by simp at hq; omega
  simp only [planFiles, resumeAt_epoch, resumeAt_epochUUID, resumeAt_file, if_pos, hlogs,
    List.getElem_drop, dropWhile_name_ne_eq_drop hd.names_nodup hiq, List.drop_drop]

theorem epochStream_resumeAt (hroot : root.WF) (hF : (st.planFiles root j)[q]? = some F) :
    (st.resumeAt j q F.name).epochStream root j =
      slots (st.epochSuffix j) (st.planStart j q) ((st.planFiles root j).drop q) := by
  simp [epochStream, planFiles_resumeAt hroot hF, planStart]

theorem epochStream_resumeAt_of_lt (hk : st.epoch ≤ j) (hi : j < i) :
    (st.resumeAt j q file).epochStream root i = st.epochStream root i := by
  have hij : i ≠ j := by omega
  have hik : i ≠ st.epoch := by omega
  simp [epochStream, planFiles, planStart, hij, hik]

theorem idealStream_eq_streamBefore_append (hroot : root.WF) (hk : st.epoch ≤ j)
    (hj : j < st.entries.length) (hF : (st.planFiles root j)[q]? = some F) :
    st.idealStream root =
      st.streamBefore root j q ++ (st.resumeAt j q F.name).idealStream root := by
  have hlen : st.entries.length - st.epoch =
      ((st.entries.length - (j + 1)) + 1) + (j - st.epoch) := by omega
  have hlen' : st.entries.length - j = (st.entries.length - (j + 1)) + 1 := by omega
  have hsplit : st.epochStream root j =
      slots (st.epochSuffix j) (st.planStart j 0) ((st.planFiles root j).take q) ++
        slots (st.epochSuffix j) (st.planStart j q) ((st.planFiles root j).drop q) := by
    rw [epochStream, slots_eq_take_append_drop _ _ q, planStart_ite]
  have hlater : ∀ i ∈ List.range' (j + 1) (st.entries.length - (j + 1)),
      (st.resumeAt j q F.name).epochStream root i = st.epochStream root i := fun i hi =>
    epochStream_resumeAt_of_lt hk (by have := (List.mem_range'_1.mp hi).1; omega)
  simp only [idealStream, streamBefore, resumeAt_epoch, resumeAt_entries]
  rw [hlen, ← List.range'_append_1, Nat.add_sub_cancel' hk, hlen', List.range'_succ]
  simp only [List.flatMap_append, List.flatMap_cons, epochStream_resumeAt hroot hF, hsplit,
    List.flatMap_congr hlater, List.append_assoc]

theorem extractPos_epochSuffix (hidx : IndexWF st.entries) (hj : j < st.entries.length)
    {n : String} {f : binlogFile} (hf : parseBinlogFile n = some f) (hbase : f.baseName ≠ "")
    (hbar : posUUIDSuffixSeparator ∉ f.baseName.data) (pos : UInt32) :
    extractPos st.uuids ⟨constructBinlogName f (st.epochSuffix j), pos⟩ =
      .ok (st.epochUUID j, st.epochSuffix j, ⟨n, pos⟩) := by
  simpa [epochUUID, epochSuffix, List.getElem?_eq_getElem hj] using
    extractPos_suffixed hidx.nodup (List.getElem_mem hj) hf hbase hbar pos

theorem mem_epochLogs_of_planFiles (hF : (st.planFiles root j)[q]? = some F) :
    F ∈ epochLogs root (st.epochUUID j) := by
  obtain ⟨i, hi⟩ := st.planFiles_eq_drop root j
  exact List.mem_of_mem_drop (hi ▸ List.getElem?_mem hF)

end StreamStart

theorem System.run_planFiles_name {st : StreamStart} {j q : Nat} {F : RelayLogFile}
    {root : RelayRoot} {w : Worker} {s' : System} {as : List Action}
    (hF : (st.planFiles root j)[q]? = some F) (hrun : (System.mk root w).run as = some s') :
    ∃ F', (st.planFiles s'.root j)[q]? = some F' ∧ F'.name = F.name := by
  refine System.run_invariant
    (P := fun t => ∃ F', (st.planFiles t.root j)[q]? = some F' ∧ F'.name = F.name)
    ?_ ?_ hrun
  · rintro t a t' ⟨G, hG, hGn⟩ ht
    rcases System.step_cases ht with ⟨hr, -⟩ | ⟨-, hg⟩
    · exact ⟨G, hr ▸ hG, hGn⟩
    · obtain ⟨G', hG', hgG⟩ := (StreamStart.planFiles_grows hg j).getElem? hG
      exact ⟨G', hG', hgG.name_eq.trans hGn⟩
  · exact ⟨F, hF, rfl⟩

/-- Restarting the reader at the position of a fake ROTATE event on the stream resumes the
    ideal stream at the slot that event opens: nothing before it is sent again, nothing
    from it on is skipped. -/
theorem sentView_restart_at_fake_rotate (st : StreamStart) (hidx : IndexWF st.entries)
    (hk : st.epoch < st.entries.length) {s0 : System} (hroot : s0.root.WF) {F0 : RelayLogFile}
    (hF0 : F0 ∈ epochLogs s0.root (st.epochUUID st.epoch)) (hname : F0.name = st.file)
    (hm : st.event ≤ F0.events.length) {pos : Position} {suffix : String}
    (hpos : extractPos st.uuids pos =
      .ok (st.epochUUID st.epoch, suffix, ⟨st.file, (offsetOf F0.events st.event).toUInt32⟩))
    {relayDir : String} {sid : UInt32}
    (hw : s0.worker = ⟨⟨relayDir, st.uuids, sid⟩, [], .relay pos⟩)
    {as : List Action} {s : System} (hrun : s0.run as = some s) :
    ∀ e ∈ s.worker.sent, ∀ name p, e.body = .rotate name p → e.header.timestamp = 0 →
      ∃ j q F, st.epoch ≤ j ∧ j < st.entries.length ∧
        (st.planFiles s.root j)[q]? = some F ∧ forward (st.epochSuffix j)
          (GenFakeRotateEvent F.name (offsetOf F.events (st.planStart j q)) 0) =
            some (eraseFakeServerID e) ∧
        ∀ (relayDir' : String) (sid' : UInt32) (as' : List Action) (s' : System),
          (System.mk s.root ⟨⟨relayDir', st.uuids, sid'⟩, [],
            .relay ⟨name, p.toUInt32⟩⟩).run as' = some s' →
          st.streamBefore s'.root j q ++ sentView s'.worker.sent <+: st.idealStream s'.root := by
  intro e he name p hb hts
  obtain ⟨hroot', ⟨G0, hG0, hmG⟩, hsync⟩ := System.run_invariant
    (fun _ _ _ h hs => h.step hidx hs) (Delivers.start hk hroot hF0 hname hm hpos hw) hrun
  have hview := mem_sentView he (by simp [BinlogEvent.isFormatDescription, hb])
  obtain ⟨j, hj, hjlt, hmem⟩ := StreamStart.mem_idealStream (hsync.isPrefix.subset hview)
  obtain ⟨q, F, hF, hslot⟩ := StreamStart.mem_epochStream hmem
  obtain ⟨hFwf, -, parsed, hparse, hbase, hbar⟩ := StreamStart.slot_file hroot' hF
  have hfake := forward_GenFakeRotateEvent_of_mem hFwf hslot
    ((eraseFakeServerID_timestamp e).trans hts)
  obtain ⟨n, f, hxb, hf, rfl⟩ := forward_eq_rotate hfake ((eraseFakeServerID_body e).trans hb)
  obtain ⟨rfl, rfl⟩ := EventBody.rotate.inj hxb
  obtain rfl : f = parsed := Option.some.inj (hf.symm.trans hparse)
  refine ⟨j, q, F, hj, hjlt, hF, hfake, fun relayDir' sid' as' s' hrun' => ?_⟩
  have hmF : st.planStart j q ≤ F.events.length := by
    unfold StreamStart.planStart
    split
    · rename_i hjq
      obtain ⟨rfl, rfl⟩ := hjq
      obtain rfl : G0 = F := Option.some.inj (hG0.symm.trans hF)
      exact hmG
    · exact Nat.zero_le _
  have hstart : Delivers (st.resumeAt j q F.name) ⟨s.root, ⟨⟨relayDir', st.uuids, sid'⟩, [],
      .relay ⟨constructBinlogName f (st.epochSuffix j),
        (offsetOf F.events (st.planStart j q)).toUInt32⟩⟩⟩ :=
    Delivers.start hjlt hroot' (StreamStart.mem_epochLogs_of_planFiles hF :) rfl hmF
      (StreamStart.extractPos_epochSuffix hidx hjlt hparse hbase hbar _ :) rfl
  obtain ⟨hroot'', -, hsync'⟩ := System.run_invariant
    (fun _ _ _ h hs => @Delivers.step (st.resumeAt j q F.name) hidx _ _ _ h hs) hstart hrun'
  obtain ⟨F', hF', hname'⟩ := System.run_planFiles_name hF hrun'
  rw [StreamStart.idealStream_eq_streamBefore_append hroot'' hj hjlt hF', hname']
  exact (List.prefix_append_right_inj _).mpr hsync'.isPrefix

/-- A consumer that restarts the reader at the fake ROTATE event that opened the second sub
    directory gets that sub directory's part of the ideal stream on. -/
theorem twoEpochs_restart_at_second_epoch :
    ∃ s, twoEpochsSystem.run twoEpochsMoves = some s ∧
      ∃ j q F, twoEpochs.epoch ≤ j ∧ j < twoEpochs.entries.length ∧
        (twoEpochs.planFiles s.root j)[q]? = some F ∧
        forward (twoEpochs.epochSuffix j)
          (GenFakeRotateEvent F.name (offsetOf F.events (twoEpochs.planStart j q)) 0) =
            some (eraseFakeServerID
              ⟨⟨0, 1, 43, 0, 32⟩, .rotate "mysql-bin|000002.000001" 4⟩) ∧
        ∀ (relayDir' : String) (sid' : UInt32) (as' : List Action) (s' : System),
          (System.mk s.root ⟨⟨relayDir', twoEpochs.uuids, sid'⟩, [],
            .relay ⟨"mysql-bin|000002.000001", (4 : Nat).toUInt32⟩⟩).run as' = some s' →
          twoEpochs.streamBefore s'.root j q ++ sentView s'.worker.sent <+:
            twoEpochs.idealStream s'.root :=
  ⟨_, rfl, @sentView_restart_at_fake_rotate twoEpochs ⟨by decide, by decide, by decide⟩
    (by decide) twoEpochsSystem
    ⟨by decide, fun d hd => ⟨"mysql-bin", 6, by revert d; decide⟩⟩
    (exampleLog "mysql-bin.000001" [exampleQuery 1 184 "INSERT INTO t VALUES (1)",
        ⟨⟨1, 1, 47, 231, 0⟩, .rotate "mysql-bin.000002" 4⟩]) (by decide) rfl (by decide)
    ⟨"mysql-bin|000001.000001", 124⟩ "000001" rfl "/data/relay" 0 rfl twoEpochsMoves _ rfl
    _ (by decide) _ _ rfl rfl⟩

end dm.streamer
