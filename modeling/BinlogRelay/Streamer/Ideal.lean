import BinlogRelay.Streamer.Decode

open dm.binlog

namespace dm.streamer

/-- The slot of a relay log in the ideal stream: the fake ROTATE event that names it at the
    offset the reader starts at, then what the reader forwards of its events from there. -/
def fileSlot (suffix : String) (F : RelayLogFile) (m : Nat) : List BinlogEvent :=
  (GenFakeRotateEvent F.name (offsetOf F.events m) 0 :: F.events.drop m).filterMap
    (forward suffix)

/-- The slot of a relay log up to its event `r`. -/
def partialSlot (suffix : String) (F : RelayLogFile) (m r : Nat) : List BinlogEvent :=
  (GenFakeRotateEvent F.name (offsetOf F.events m) 0 :: (F.events.take r).drop m).filterMap
    (forward suffix)

/-- The slots of relay logs read one after the other, the first from its event `m`, the
    others from their start. -/
def slots (suffix : String) (m : Nat) : List RelayLogFile → List BinlogEvent
  | [] => []
  | F :: Fs => fileSlot suffix F m ++ slots suffix 0 Fs

/-- The relay logs of sub directory `uuid`, in creation order; none when it is missing. -/
def epochLogs (root : RelayRoot) (uuid : String) : List RelayLogFile :=
  ((root.subDir? uuid).map relayLogs).getD []

/-- The index of sub directories, as `(uuid, suffix)` entries, and where `StartSync` starts
    in it: the entry, the name of its relay log and the event. -/
structure StreamStart where
  entries : List (String × Nat)
  epoch : Nat
  file : String
  event : Nat
  deriving DecidableEq, Repr

/-- The index as the relay writer keeps it: no dot in a server UUID, suffix numbers that
    fit an `int`, pairwise distinct. -/
structure IndexWF (entries : List (String × Nat)) : Prop where
  no_dot : ∀ x ∈ entries, uuidIndexSeparator ∉ x.1.data
  suffix_lt : ∀ x ∈ entries, x.2 < 2 ^ 63
  nodup : (entries.map Prod.snd).Nodup

namespace StreamStart

variable (st : StreamStart) (root : RelayRoot)

def uuids : List String := st.entries.map fun x => AddSuffixForUUID x.1 x.2

def epochUUID (j : Nat) : String :=
  AddSuffixForUUID (st.entries.getD j ("", 0)).1 (st.entries.getD j ("", 0)).2

/-- The suffix the reader adds to names in the `j`th sub directory. -/
def epochSuffix (j : Nat) : String := SuffixIntToStr (st.entries.getD j ("", 0)).2

/-- The relay logs the reader reads in the `j`th sub directory, in creation order: from the
    start file on in the start one, all of them in later ones. -/
def planFiles (j : Nat) : List RelayLogFile :=
  if j = st.epoch then (epochLogs root (st.epochUUID j)).dropWhile (·.name ≠ st.file)
  else epochLogs root (st.epochUUID j)

/-- The event the reader starts the `p`th file of the `j`th sub directory at. -/
def planStart (j p : Nat) : Nat := if j = st.epoch ∧ p = 0 then st.event else 0

def epochStream (j : Nat) : List BinlogEvent :=
  slots (st.epochSuffix j) (st.planStart j 0) (st.planFiles root j)

/-- The stream a consumer should receive: for each sub directory from the start one on, in
    index order, the slots of its relay logs in creation order. -/
def idealStream : List BinlogEvent :=
  (List.range' st.epoch (st.entries.length - st.epoch)).flatMap (st.epochStream root)

/-- The ideal stream before the slot of the `p`th file of the `j`th sub directory. -/
def streamBefore (j p : Nat) : List BinlogEvent :=
  (List.range' st.epoch (j - st.epoch)).flatMap (st.epochStream root) ++
    slots (st.epochSuffix j) (st.planStart j 0) ((st.planFiles root j).take p)

end StreamStart

section Slots

variable {suffix : String} {F F' : RelayLogFile} {m r l : Nat}

theorem partialSlot_self : partialSlot suffix F m m =
    (forward suffix (GenFakeRotateEvent F.name (offsetOf F.events m) 0)).toList := by
  simp [partialSlot, List.drop_take, ← filterMap_singleton_forward]

theorem partialSlot_length : partialSlot suffix F m F.events.length = fileSlot suffix F m := by
  simp [partialSlot, fileSlot]

theorem partialSlot_succ (hmr : m ≤ r) (hr : r < F.events.length) :
    partialSlot suffix F m (r + 1) =
      partialSlot suffix F m r ++ (forward suffix F.events[r]).toList := by
  have hlen : m ≤ (F.events.take r).length := by simp; omega
  simp only [partialSlot, List.take_succ, List.getElem?_eq_getElem hr, Option.toList_some,
    List.drop_append_of_le_length hlen, ← List.cons_append, List.filterMap_append,
    filterMap_singleton_forward]

theorem partialSlot_prefix_fileSlot : partialSlot suffix F m r <+: fileSlot suffix F m := by
  unfold partialSlot fileSlot
  rw [List.drop_take]
  exact ((List.prefix_cons_inj _).mpr (List.take_prefix _ _)).filterMap _

theorem partialSlot_append_drop (hmr : m ≤ r) :
    partialSlot suffix F m r ++ (F.events.drop r).filterMap (forward suffix) =
      fileSlot suffix F m := by
  have hdrop : F.events.drop r = (F.events.drop m).drop (r - m) := by
    rw [List.drop_drop, Nat.add_sub_cancel' hmr]
  unfold partialSlot fileSlot
  rw [← List.filterMap_append, List.cons_append, List.drop_take, hdrop, List.take_append_drop]

theorem partialSlot_eq_of_lastForwarded (h : LastForwarded suffix F.events m r l)
    (hr : r ≤ F.events.length) : partialSlot suffix F m l = partialSlot suffix F m r := by
  obtain ⟨k, rfl⟩ := Nat.exists_eq_add_of_le h.le_read
  induction k with
  | zero => rfl
  | succ k ih =>
    have hlt : l + k < F.events.length := by omega
    have hquiet := h.quiet (l + k) _ (by omega) (by omega) (List.getElem?_eq_getElem hlt)
    rw [← Nat.add_assoc, partialSlot_succ (by have := h.start_le; omega) hlt, hquiet,
      Option.toList_none, List.append_nil]
    exact ih ⟨h.start_le, by omega, h.forwarded, fun i e h1 h2 => h.quiet i e h1 (by omega)⟩
      (by omega)

/-- A relay log after the writer's moves: the same name, more events. -/
structure RelayLogFile.Grows (F F' : RelayLogFile) : Prop where
  name_eq : F'.name = F.name
  events_isPrefix : F.events <+: F'.events

theorem RelayLogFile.Grows.refl (F : RelayLogFile) : F.Grows F := ⟨rfl, List.prefix_refl _⟩

theorem RelayLogFile.Grows.offsetOf_eq (hg : F.Grows F') (hm : m ≤ F.events.length) :
    offsetOf F'.events m = offsetOf F.events m := by
  obtain ⟨t, ht⟩ := hg.events_isPrefix
  rw [← ht, offsetOf_append_of_le hm]

theorem RelayLogFile.Grows.getElem? (hg : F.Grows F') (hr : r < F.events.length) :
    F'.events[r]? = F.events[r]? := by
  obtain ⟨t, ht⟩ := hg.events_isPrefix
  rw [← ht, List.getElem?_append_left hr]

theorem RelayLogFile.Grows.partialSlot_eq (hg : F.Grows F') (hmr : m ≤ r)
    (hr : r ≤ F.events.length) : partialSlot suffix F' m r = partialSlot suffix F m r := by
  obtain ⟨t, ht⟩ := hg.events_isPrefix
  unfold partialSlot
  rw [hg.name_eq, hg.offsetOf_eq (by omega), ← ht, List.take_append_of_le_length hr]

theorem RelayLogFile.Grows.fileSlot_isPrefix (hg : F.Grows F') (hm : m ≤ F.events.length) :
    fileSlot suffix F m <+: fileSlot suffix F' m := by
  obtain ⟨t, ht⟩ := hg.events_isPrefix
  unfold fileSlot
  rw [hg.name_eq, hg.offsetOf_eq hm, ← ht, List.drop_append_of_le_length hm]
  exact ((List.prefix_cons_inj _).mpr (List.prefix_append _ _)).filterMap _

theorem LastForwarded.of_grows {suffix : String} (h : LastForwarded suffix F.events m r l)
    (hg : F.Grows F') (hr : r ≤ F.events.length) : LastForwarded suffix F'.events m r l := by
  have heq : ∀ i, i < r → F'.events[i]? = F.events[i]? := fun i hi => hg.getElem? (by omega)
  refine ⟨h.start_le, h.le_read, fun hml => ?_, fun i e h1 h2 hi => ?_⟩
  · have := h.le_read
    rw [heq _ (by omega)]
    exact h.forwarded hml
  · rw [heq i h2] at hi
    exact h.quiet i e h1 h2 hi

theorem slots_take_succ {m : Nat} : ∀ {L : List RelayLogFile} {p : Nat} (hp : p < L.length),
    slots suffix m (L.take (p + 1)) =
      slots suffix m (L.take p) ++ fileSlot suffix L[p] (if p = 0 then m else 0)
  | F :: L, 0, _ => by simp [slots]
  | F :: L, p + 1, hp => by
    simp only [List.take_succ_cons, slots, List.getElem_cons_succ,
      slots_take_succ (Nat.lt_of_succ_lt_succ hp), ite_self, List.append_assoc,
      Nat.add_one_ne_zero, if_false]

theorem slots_take_isPrefix (m : Nat) :
    ∀ (L : List RelayLogFile) (p : Nat), slots suffix m (L.take p) <+: slots suffix m L
  | [], _ => by simp
  | _ :: _, 0 => by simp [slots]
  | F :: L, p + 1 => by
    simpa [slots] using slots_take_isPrefix 0 L p

end Slots

/-- The relay logs of a sub directory after the writer's moves: all but the newest as they
    were, the newest grown, and new ones after it. -/
inductive FilesGrow : List RelayLogFile → List RelayLogFile → Prop
  | nil (L' : List RelayLogFile) : FilesGrow [] L'
  | last {F F' : RelayLogFile} (h : F.Grows F') (L' : List RelayLogFile) : FilesGrow [F] (F' :: L')
  | cons (F : RelayLogFile) {L L' : List RelayLogFile} (hL : L ≠ []) (h : FilesGrow L L') :
      FilesGrow (F :: L) (F :: L')

namespace FilesGrow

variable {L L' : List RelayLogFile}

theorem append : ∀ (L X : List RelayLogFile), FilesGrow L (L ++ X)
  | [], X => .nil X
  | [F], X => .last (.refl F) X
  | F :: G :: L, X => .cons F (List.cons_ne_nil G L) (append (G :: L) X)

theorem refl (L : List RelayLogFile) : FilesGrow L L := by
  simpa using append L []

theorem append_last {F F' : RelayLogFile} (h : F.Grows F') :
    ∀ A : List RelayLogFile, FilesGrow (A ++ [F]) (A ++ [F'])
  | [] => .last h []
  | a :: A => .cons a (by simp) (append_last h A)

theorem getElem? (h : FilesGrow L L') {p : Nat} {F : RelayLogFile} (hp : L[p]? = some F) :
    ∃ F', L'[p]? = some F' ∧ F.Grows F' := by
  induction h generalizing p with
  | nil => simp at hp
  | @last F0 F1 hg L' =>
    obtain ⟨rfl, rfl⟩ : p = 0 ∧ F0 = F := by
      cases p with
      | zero => exact ⟨rfl, by simpa using hp⟩
      | succ p => simp at hp
    exact ⟨F1, by simp, hg⟩
  | cons G hL h ih =>
    cases p with
    | zero =>
      obtain rfl : G = F := by simpa using hp
      exact ⟨G, by simp, .refl G⟩
    | succ p => simpa using ih (by simpa using hp)

theorem length_le (h : FilesGrow L L') : L.length ≤ L'.length := by
  induction h with
  | nil => simp
  | last => simp
  | cons _ _ _ ih => simpa using ih

theorem take_eq (h : FilesGrow L L') {p : Nat} (hp : p < L.length) : L'.take p = L.take p := by
  induction h generalizing p with
  | nil => simp at hp
  | last =>
    obtain rfl : p = 0 := by simpa using hp
    rfl
  | cons F hL h ih =>
    cases p with
    | zero => rfl
    | succ p => simpa using ih (by simpa using hp)

theorem drop_names (h : FilesGrow L L') (p : Nat) :
    (L.drop p).map (·.name) <+: (L'.drop p).map (·.name) := by
  induction h generalizing p with
  | nil => simp
  | last hg L' =>
    cases p with
    | zero => simp [hg.name_eq]
    | succ p => simp
  | cons F hL h ih =>
    cases p with
    | zero => simpa using ih 0
    | succ p => simpa using ih p

theorem slots_isPrefix {suffix : String} (h : FilesGrow L L') {m : Nat}
    (hm : ∀ F ∈ L.head?, m ≤ F.events.length) : slots suffix m L <+: slots suffix m L' := by
  induction h generalizing m with
  | nil => simp [slots]
  | last hg L' =>
    simpa [slots] using
      (hg.fileSlot_isPrefix (hm _ rfl)).trans (List.prefix_append _ (slots suffix 0 L'))
  | cons F hL h ih =>
    simpa [slots] using ih (fun _ _ => Nat.zero_le _)

theorem dropWhile (h : FilesGrow L L') (n : String) :
    FilesGrow (L.dropWhile (·.name ≠ n)) (L'.dropWhile (·.name ≠ n)) := by
  induction h with
  | nil => exact .nil _
  | @last F0 F1 hg L' =>
    by_cases hn : F0.name = n
    · simpa [List.dropWhile_cons, hn, hg.name_eq] using FilesGrow.last hg L'
    · simpa [List.dropWhile_cons, hn, hg.name_eq] using FilesGrow.nil (L'.dropWhile (·.name ≠ n))
  | cons F hL h ih =>
    by_cases hn : F.name = n
    · simpa [List.dropWhile_cons, hn] using FilesGrow.cons F hL h
    · simpa [List.dropWhile_cons, hn] using ih

end FilesGrow

theorem flatMap_isPrefix {α β : Type} {l₁ l₂ : List α} (h : l₁ <+: l₂) (f : α → List β) :
    l₁.flatMap f <+: l₂.flatMap f := by
  obtain ⟨t, rfl⟩ := h
  simp

theorem range'_isPrefix (s : Nat) {m n : Nat} (hmn : m ≤ n) :
    List.range' s m <+: List.range' s n := by
  have h := List.range'_append s m (n - m) 1
  simp only [Nat.one_mul, Nat.sub_add_cancel hmn, Nat.add_sub_cancel' hmn] at h
  exact ⟨_, h⟩

theorem flatMap_isPrefix_of_last {α β : Type} {f g : α → List β} :
    ∀ {l : List α}, (∀ a ∈ l, f a <+: g a) → (∀ a ∈ l.dropLast, f a = g a) →
      l.flatMap f <+: l.flatMap g
  | [], _, _ => by simp
  | [a], hfg, _ => by simpa using hfg a (List.mem_singleton_self a)
  | a :: b :: l, hfg, heq => by
    rw [List.flatMap_cons, List.flatMap_cons, heq a (by simp)]
    exact (List.prefix_append_right_inj _).mpr (flatMap_isPrefix_of_last
      (fun x hx => hfg x (List.mem_cons_of_mem a hx))
      (fun x hx => heq x (by simp only [List.dropLast_cons₂]; exact List.mem_cons_of_mem a hx)))

theorem mem_dropLast_range' {s n i : Nat} (h : i ∈ (List.range' s n).dropLast) :
    s ≤ i ∧ i + 1 < s + n := by
  cases n with
  | zero => simp at h
  | succ n =>
    rw [List.range'_concat, List.dropLast_concat] at h
    have := List.mem_range'_1.mp h
    omega

namespace StreamStart

variable {st : StreamStart} {root root' : RelayRoot} {j p : Nat}

theorem planStart_succ (j p : Nat) : st.planStart j (p + 1) = 0 := by
  simp [planStart]

theorem planStart_of_ne (hj : j ≠ st.epoch) (p : Nat) : st.planStart j p = 0 := by
  simp [planStart, hj]

theorem streamBefore_succ {F : RelayLogFile} (hF : (st.planFiles root j)[p]? = some F) :
    st.streamBefore root j (p + 1) =
      st.streamBefore root j p ++ fileSlot (st.epochSuffix j) F (st.planStart j p) := by
  obtain ⟨hp, rfl⟩ := List.getElem?_eq_some_iff.mp hF
  have hstart : (if p = 0 then st.planStart j 0 else 0) = st.planStart j p := by
    cases p <;> simp [planStart_succ]
  simp only [streamBefore, slots_take_succ hp, hstart, List.append_assoc]

theorem streamBefore_zero_succ (hk : st.epoch ≤ j) :
    st.streamBefore root (j + 1) 0 = st.streamBefore root j (st.planFiles root j).length := by
  have hrange : List.range' st.epoch (j + 1 - st.epoch) =
      List.range' st.epoch (j - st.epoch) ++ [j] := by
    rw [show j + 1 - st.epoch = (j - st.epoch) + 1 by omega, List.range'_concat]
    congr 2
    omega
  simp [streamBefore, hrange, epochStream, slots]

theorem streamBefore_prefix_idealStream (hk : st.epoch ≤ j) (hj : j < st.entries.length) :
    st.streamBefore root j p <+: st.idealStream root := by
  have hslots := @slots_take_isPrefix (st.epochSuffix j) (st.planStart j 0)
    (st.planFiles root j) p
  calc st.streamBefore root j p
      <+: st.streamBefore root (j + 1) 0 := by
        rw [streamBefore_zero_succ hk]
        simpa [streamBefore] using hslots
    _ <+: st.idealStream root := by
        simpa [streamBefore, idealStream, slots] using
          flatMap_isPrefix (range'_isPrefix st.epoch (by omega : j + 1 - st.epoch ≤
            st.entries.length - st.epoch)) (st.epochStream root)

theorem streamBefore_partialSlot_isPrefix (hk : st.epoch ≤ j) (hj : j < st.entries.length)
    {F : RelayLogFile} (hF : (st.planFiles root j)[p]? = some F) (r : Nat) :
    st.streamBefore root j p ++ partialSlot (st.epochSuffix j) F (st.planStart j p) r <+:
      st.idealStream root := by
  refine ((List.prefix_append_right_inj _).mpr partialSlot_prefix_fileSlot).trans ?_
  rw [← streamBefore_succ hF]
  exact streamBefore_prefix_idealStream hk hj

end StreamStart

section Index

variable {st : StreamStart} {j : Nat}

theorem StreamStart.entry_mem (hj : j < st.entries.length) :
    st.entries.getD j ("", 0) ∈ st.entries := by
  simp [List.getElem?_eq_getElem hj]

theorem StreamStart.uuids_getElem? (hj : j < st.entries.length) :
    st.uuids[j]? = some (st.epochUUID j) := by
  simp [StreamStart.uuids, StreamStart.epochUUID, List.getElem?_eq_getElem hj]

theorem StreamStart.length_uuids : st.uuids.length = st.entries.length := by
  simp [StreamStart.uuids]

variable (hidx : IndexWF st.entries)
include hidx

theorem IndexWF.uuids_nodup : st.uuids.Nodup := by
  refine List.Nodup.map_on (fun x hx y hy hxy => List.inj_on_of_nodup_map hidx.nodup hx hy ?_)
    (List.Nodup.of_map _ hidx.nodup)
  have h : hasSuffix (AddSuffixForUUID y.1 y.2) (⟨[uuidIndexSeparator]⟩ ++ SuffixIntToStr y.2) :=
    hasSuffix_AddSuffixForUUID.mpr rfl
  rw [← hxy] at h
  exact (hasSuffix_AddSuffixForUUID.mp h).symm

theorem IndexWF.getNextUUID (hj : j < st.entries.length) :
    getNextUUID st.uuids (st.epochUUID j) =
      if j + 1 < st.entries.length then st.epochUUID (j + 1) else "" := by
  have hj' : j < st.uuids.length := by rw [StreamStart.length_uuids]; exact hj
  have hget : st.uuids[j] = st.epochUUID j :=
    Option.some.inj ((List.getElem?_eq_getElem hj').symm.trans (StreamStart.uuids_getElem? hj))
  rw [dm.streamer.getNextUUID, ← hget, findNextUUID_getElem hidx.uuids_nodup hj']
  split
  · rw [StreamStart.uuids_getElem? ‹_›]
    rfl
  · rw [List.getElem?_eq_none (by rw [StreamStart.length_uuids]; omega)]
    rfl

theorem IndexWF.parseSuffix (hj : j < st.entries.length) :
    ParseSuffixForUUID (st.epochUUID j) =
      some ((st.entries.getD j ("", 0)).1, ((st.entries.getD j ("", 0)).2 : Int)) :=
  ParseSuffixForUUID_AddSuffixForUUID (hidx.no_dot _ (StreamStart.entry_mem hj))
    (hidx.suffix_lt _ (StreamStart.entry_mem hj))

theorem IndexWF.extractPos_epoch (hj : j < st.entries.length) {n : String} {f : binlogFile}
    (hf : parseBinlogFile n = some f) (hbase : f.baseName ≠ "")
    (hbar : posUUIDSuffixSeparator ∉ f.baseName.data) (p : UInt32) :
    extractPos st.uuids ⟨constructBinlogName f (st.epochSuffix j), p⟩ =
      .ok (st.epochUUID j, st.epochSuffix j, ⟨n, p⟩) :=
  extractPos_suffixed hidx.nodup (StreamStart.entry_mem hj) hf hbase hbar p

theorem IndexWF.getLast_ne (hj : j + 1 < st.entries.length) :
    st.uuids.getLast? ≠ some (st.epochUUID j) := by
  intro h
  have hlast : st.uuids[st.entries.length - 1]? = some (st.epochUUID j) := by
    rw [← h, List.getLast?_eq_getElem?, StreamStart.length_uuids]
  have hl : st.entries.length - 1 < st.uuids.length := by rw [StreamStart.length_uuids]; omega
  have hj' : j < st.uuids.length := by rw [StreamStart.length_uuids]; omega
  have heq : st.uuids[st.entries.length - 1] = st.uuids[j] := by
    rw [List.getElem?_eq_getElem hl] at hlast
    rw [Option.some.inj hlast]
    exact Option.some.inj ((StreamStart.uuids_getElem? (by omega)).symm.trans
      (List.getElem?_eq_getElem hj'))
  have := (hidx.uuids_nodup.getElem_inj_iff).mp heq
  omega

end Index

/-- What a move of the relay writer does to the relay directory: the relay logs of every sub
    directory grow, and only those of the newest one change. -/
structure RelayRoot.Grows (newest : Option String) (root root' : RelayRoot) : Prop where
  grows : ∀ u, FilesGrow (epochLogs root u) (epochLogs root' u)
  frozen : ∀ u, newest ≠ some u → epochLogs root' u = epochLogs root u

section Writer

variable {root : RelayRoot} {uuid : String} {g : RelaySubDir → RelaySubDir} {d : RelaySubDir}

theorem RelayRoot.Grows.of_modify (huuid : ∀ d, (g d).uuid = d.uuid)
    (hd : root.subDir? uuid = some d) (hg : FilesGrow (relayLogs d) (relayLogs (g d))) :
    RelayRoot.Grows (some uuid) root (root.modify uuid g) := by
  have hlogs : ∀ u, epochLogs (root.modify uuid g) u =
      if u = uuid then relayLogs (g d) else epochLogs root u := by
    intro u
    by_cases hu : u = uuid
    · subst hu
      simp [epochLogs, RelayRoot.subDir?_modify huuid, hd]
    · simp [epochLogs, RelayRoot.subDir?_modify huuid, hu]
  refine ⟨fun u => ?_, fun u hu => by simp [hlogs, Ne.symm (Option.some_injective _ |>.ne_iff.mp hu)]⟩
  by_cases hu : u = uuid
  · subst hu
    rw [hlogs, if_pos rfl]
    simpa [epochLogs, hd] using hg
  · simpa [hlogs, hu] using FilesGrow.refl _

/-- What one move does: a move of the worker leaves the relay directory as it is, and a move
    of the relay writer leaves the worker as it is and only grows the newest sub directory. -/
theorem System.step_cases {s s' : System} {a : Action} (h : s.step a = some s') :
    (s'.root = s.root ∧ (s.worker.step s.root = some s'.worker ∨
      ∃ name, s.worker.watch s.root name = some s'.worker)) ∨
    (s'.worker = s.worker ∧ RelayRoot.Grows s.worker.reader.uuids.getLast? s.root s'.root) := by
  cases a with
  | work =>
    obtain ⟨w, hw, rfl⟩ := Option.map_eq_some'.mp h
    exact .inl ⟨rfl, .inl hw⟩
  | watch name =>
    obtain ⟨w, hw, rfl⟩ := Option.map_eq_some'.mp h
    exact .inl ⟨rfl, .inr ⟨name, hw⟩⟩
  | append e =>
    obtain ⟨uuid, f, hnewest, -, rfl⟩ := System.step_append h
    obtain ⟨hlast, d, hd, hflast, hf⟩ := System.newest_eq_some hnewest
    obtain ⟨fs, hfs⟩ := List.getLast?_eq_some_iff.mp hflast
    refine .inr ⟨rfl, hlast ▸ RelayRoot.Grows.of_modify (fun _ => rfl) hd ?_⟩
    have hfs' : (d.appendNewest e).files = fs ++ [{ f with events := f.events ++ [e] }] := by
      simp [RelaySubDir.appendNewest, hfs]
    rw [relayLogs_append_last hfs hf, relayLogs_append_last hfs' hf]
    exact FilesGrow.append_last
      (show f.Grows { f with events := f.events ++ [e] } from ⟨rfl, List.prefix_append _ _⟩) _
  | create name =>
    obtain ⟨uuid, f, hnewest, -, rfl⟩ := System.step_create h
    obtain ⟨hlast, d, hd, -, -⟩ := System.newest_eq_some hnewest
    refine .inr ⟨rfl, hlast ▸ RelayRoot.Grows.of_modify (fun _ => rfl) hd ?_⟩
    have : relayLogs (d.create name) =
        relayLogs d ++ [(⟨name, [], 0⟩ : RelayLogFile)].filter (·.name != MetaFilename) := by
      simp [relayLogs, RelaySubDir.create]
    rw [this]
    exact FilesGrow.append _ _

end Writer

namespace StreamStart

variable {st : StreamStart} {newest : Option String} {root root' : RelayRoot} {j p : Nat}

theorem planFiles_grows (hg : RelayRoot.Grows newest root root') (j : Nat) :
    FilesGrow (st.planFiles root j) (st.planFiles root' j) := by
  unfold planFiles
  split
  · exact (hg.grows _).dropWhile _
  · exact hg.grows _

theorem planFiles_frozen (hg : RelayRoot.Grows newest root root')
    (hn : newest ≠ some (st.epochUUID j)) : st.planFiles root' j = st.planFiles root j := by
  simp [planFiles, hg.frozen _ hn]

variable (hidx : IndexWF st.entries) (hg : RelayRoot.Grows st.uuids.getLast? root root')
include hidx hg

theorem streamBefore_grows (hj : j < st.entries.length)
    (hp : p < (st.planFiles root j).length ∨ p = 0) :
    st.streamBefore root' j p = st.streamBefore root j p := by
  have hepochs : ∀ i ∈ List.range' st.epoch (j - st.epoch),
      st.epochStream root' i = st.epochStream root i := by
    intro i hi
    have hi' := List.mem_range'_1.mp hi
    simp [epochStream, planFiles_frozen hg (hidx.getLast_ne (j := i) (by omega))]
  have htake : (st.planFiles root' j).take p = (st.planFiles root j).take p := by
    rcases hp with hp | rfl
    · exact (planFiles_grows hg j).take_eq hp
    · rfl
  simp only [streamBefore, htake, List.flatMap_congr hepochs]

theorem idealStream_grows
    (hm : ∀ F ∈ (st.planFiles root st.epoch).head?, st.event ≤ F.events.length) :
    st.idealStream root <+: st.idealStream root' := by
  refine flatMap_isPrefix_of_last (fun i _ => ?_) (fun i hi => ?_)
  · refine (planFiles_grows hg i).slots_isPrefix fun F hF => ?_
    by_cases hi : i = st.epoch
    · subst hi
      simpa [planStart] using hm F hF
    · simp [planStart, hi]
  · have hi' := mem_dropLast_range' hi
    simp [epochStream, planFiles_frozen hg (hidx.getLast_ne (j := i) (by omega))]

end StreamStart

end dm.streamer
