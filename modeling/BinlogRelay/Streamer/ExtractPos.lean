import BinlogRelay.Streamer.Filename

open dm.binlog

namespace dm.streamer

/-- The errors the reader returns, one constructor per error site, with the data
    its message prints. -/
inductive ReaderError
  /-- `ErrBinlogFileNotSpecified`: "binlog file must be specified". -/
  | binlogFileNotSpecified
  /-- `ErrReaderRunning`: "binlog reader is already running". -/
  | readerRunning
  /-- "relay sub dir with index file %s" not found. -/
  | relaySubDirNotFound
  /-- "UUID suffix %s with UUIDs %v" not found. -/
  | uuidSuffixNotFound (suffix : String)
  /-- `ParseSuffixForUUID` rejected an index entry. -/
  | invalidUUIDSuffix (uuid : String)
  /-- `parseBinlogFile` rejected a file name. -/
  | invalidBinlogFilename (name : String)
  /-- Reading a sub directory that does not exist. -/
  | readDir (dir : String)
  /-- "no relay log files match pos %v". -/
  | noRelayLogFilesMatch (pos : Position)
  /-- "the first relay log %s not match the start pos %v". -/
  | firstRelayLogMismatch (file : String) (pos : Position)
  /-- The event decoder failed in `ParseFile`. -/
  | parseFile (path : String) (offset : Nat)
  /-- "binlog file %s" not valid, in `getFirstBinlogName`. -/
  | binlogFileNotValid (file : String)
  /-- "binlog files in dir %s" not found, in `getFirstBinlogName`. -/
  | binlogFilesNotFound (dir : String)
  /-- "get stat for relay log %s". -/
  | stat (path : String)
  /-- "file size of relay log %s become smaller". -/
  | fileSizeSmaller (path : String)
  /-- "add watch for relay log dir %s". -/
  | watchDir (dir : String)
  /-- `updateUUIDs`: the UUID index file could not be read or parsed. -/
  | uuidIndex
  deriving DecidableEq, Repr

/-- The Go runtime panics the reader can hit. -/
inductive ReaderPanic
  /-- A field read through the nil `*binlogFile` of a rejected name. -/
  | nilBinlogFile (name : String)
  /-- `fileSizeUpdated`: "relay log file size has changed from %d to %d". -/
  | fileSizeChanged (latestSize currSize : Nat)
  deriving DecidableEq, Repr

/-- How a step of the reader can fail: with an error value, which ends the stream
    through `closeWithError`, or with a panic, which ends the process. -/
inductive ReaderFailure
  | error (e : ReaderError)
  | panic (p : ReaderPanic)
  deriving DecidableEq, Repr

/-- `BinlogReader.extractPos`: the sub directory a position belongs to (the index
    entry with the suffix its name carries, or the newest entry for a name without
    one), the suffix string, and the position inside that sub directory. -/
def extractPos (uuids : List String) (pos : Position) :
    Except ReaderFailure (String × String × Position) :=
  if uuids = [] then .error (.error .relaySubDirNotFound) else
  let useLatest : Except ReaderFailure (String × String × Position) :=
    let uuid := uuids.getLastD ""
    match ParseSuffixForUUID uuid with
    | none => .error (.error (.invalidUUIDSuffix uuid))
    | some (_, suffixInt) => .ok (uuid, SuffixIntToStr suffixInt, pos)
  match parseBinlogFile pos.name with
  | none => .error (.panic (.nilBinlogFile pos.name))
  | some parsed =>
    let b := parsed.baseName.data
    match b.findIdx? (· == posUUIDSuffixSeparator) with
    | some sepIdx =>
      if 0 < sepIdx ∧ sepIdx + 1 < b.length then
        let realBaseName : String := ⟨b.take sepIdx⟩
        let masterUUIDSuffix : String := ⟨b.drop (sepIdx + 1)⟩
        let uuid := GetUUIDBySuffix uuids masterUUIDSuffix
        if uuid.length > 0 then
          .ok (uuid, masterUUIDSuffix,
            ⟨constructBinlogFilename realBaseName parsed.seq, pos.pos⟩)
        else .error (.error (.uuidSuffixNotFound masterUUIDSuffix))
      else useLatest
    | none => useLatest

/-- The entry after the last occurrence of `uuid` before the end of the index. -/
def findNextUUID : List String → String → Option String
  | a :: b :: rest, uuid =>
    (findNextUUID (b :: rest) uuid).orElse fun _ => if a = uuid then some b else none
  | _, _ => none

/-- `BinlogReader.getNextUUID`: the index is scanned backwards from its second to
    last entry; the empty string when there is no next sub directory. The suffix it
    also returns is discarded by its only caller. -/
def getNextUUID (uuids : List String) (uuid : String) : String :=
  (findNextUUID uuids uuid).getD ""

section NextUUID

theorem findNextUUID_of_not_mem {uuid : String} :
    ∀ {l : List String}, uuid ∉ l → findNextUUID l uuid = none
  | [], _ => rfl
  | [_], _ => rfl
  | a :: b :: rest, h => by
    have hrest : uuid ∉ b :: rest := fun hm => h (List.mem_cons_of_mem a hm)
    have ha : a ≠ uuid := fun ha => h (ha ▸ List.mem_cons_self a _)
    simp [findNextUUID, findNextUUID_of_not_mem hrest, ha]

theorem findNextUUID_getElem : ∀ {l : List String}, l.Nodup → ∀ {j : Nat} (hj : j < l.length),
    findNextUUID l l[j] = l[j + 1]?
  | [], _, _, hj => absurd hj (Nat.not_lt_zero _)
  | [a], _, j, hj => by
    obtain rfl : j = 0 := by simpa using hj
    rfl
  | a :: b :: rest, hl, j, hj => by
    obtain ⟨ha, hl'⟩ := List.nodup_cons.mp hl
    cases j with
    | zero => simp [findNextUUID, findNextUUID_of_not_mem ha]
    | succ j =>
      have hj' : j < (b :: rest).length := by simpa using hj
      have hne : a ≠ (b :: rest)[j] := fun h => ha (h ▸ List.getElem_mem hj')
      simp only [findNextUUID, List.getElem_cons_succ, findNextUUID_getElem hl' hj', hne,
        if_false, List.getElem?_cons_succ]
      cases rest[j]? <;> rfl

end NextUUID

section Roundtrip

theorem findIdx?_append_cons {p : Char → Bool} {xs ys : List Char} {a : Char}
    (hxs : ∀ x ∈ xs, p x = false) (ha : p a = true) :
    (xs ++ a :: ys).findIdx? p = some xs.length := by
  simp [List.findIdx?_append, List.findIdx?_eq_none_iff.mpr hxs, List.findIdx?_cons, ha]

theorem findIdx?_eq_none_of_not_mem {xs : List Char} {a : Char} (h : a ∉ xs) :
    xs.findIdx? (· == a) = none := by
  rw [List.findIdx?_eq_none_iff]
  intro x hx
  simpa using fun hxa : x = a => h (hxa ▸ hx)

variable {entries : List (String × Nat)}

theorem GetUUIDBySuffix_AddSuffixForUUID (hnodup : (entries.map Prod.snd).Nodup)
    {u : String × Nat} (hu : u ∈ entries) :
    GetUUIDBySuffix (entries.map fun x => AddSuffixForUUID x.1 x.2) (SuffixIntToStr u.2) =
      AddSuffixForUUID u.1 u.2 := by
  induction entries with
  | nil => cases hu
  | cons x entries ih =>
    simp only [List.map_cons, List.nodup_cons, List.mem_map] at hnodup
    simp only [GetUUIDBySuffix, List.map_cons] at ih ⊢
    let matches_u := fun uuid => hasSuffix uuid (⟨[uuidIndexSeparator]⟩ ++ SuffixIntToStr u.2)
    by_cases hx : u.2 = x.2
    · have hux : u = x := by
        rcases List.mem_cons.mp hu with h | h
        · exact h
        · exact absurd ⟨u, h, hx⟩ hnodup.1
      subst hux
      have hs : matches_u (AddSuffixForUUID u.1 u.2) = true := hasSuffix_AddSuffixForUUID.mpr rfl
      rw [List.find?_cons_of_pos _ hs]
      rfl
    · have hu' : u ∈ entries := by
        rcases List.mem_cons.mp hu with h | h
        · exact absurd (congrArg Prod.snd h) hx
        · exact h
      have hs : ¬ matches_u (AddSuffixForUUID x.1 x.2) = true := by
        rwa [hasSuffix_AddSuffixForUUID]
      rw [List.find?_cons_of_neg _ hs]
      exact ih hnodup.2 hu'

theorem extractPos_suffixed (hnodup : (entries.map Prod.snd).Nodup) {u : String × Nat}
    (hu : u ∈ entries) {n : String} {f : binlogFile} (hf : parseBinlogFile n = some f)
    (hbase : f.baseName ≠ "") (hbar : posUUIDSuffixSeparator ∉ f.baseName.data) (p : UInt32) :
    extractPos (entries.map fun x => AddSuffixForUUID x.1 x.2)
        ⟨constructBinlogName f (SuffixIntToStr u.2), p⟩ =
      .ok (AddSuffixForUUID u.1 u.2, SuffixIntToStr u.2, ⟨n, p⟩) := by
  obtain ⟨hn_data, hdot_base, hdot_seq⟩ := parseBinlogFile_eq_some.mp hf
  have hne : entries.map (fun x => AddSuffixForUUID x.1 x.2) ≠ [] := by
    simpa using List.ne_nil_of_mem hu
  have hparse : parseBinlogFile (constructBinlogName f (SuffixIntToStr u.2)) =
      some ⟨f.baseName ++ ⟨[posUUIDSuffixSeparator]⟩ ++ SuffixIntToStr u.2, f.seq⟩ := by
    refine parseBinlogFile_eq_some.mpr ⟨by simp [constructBinlogName], ?_, hdot_seq⟩
    simpa [posUUIDSuffixSeparator, baseSeqSeparator] using
      ⟨hdot_base, dot_not_mem_SuffixIntToStr u.2⟩
  have hidx : (f.baseName.data ++ posUUIDSuffixSeparator :: (SuffixIntToStr u.2).data).findIdx?
      (· == posUUIDSuffixSeparator) = some f.baseName.data.length :=
    findIdx?_append_cons (fun x hx => beq_eq_false_iff_ne.mpr (by rintro rfl; exact hbar hx))
      (by simp)
  have hpos : 0 < f.baseName.data.length := by
    rcases hb : f.baseName.data with _ | ⟨c, cs⟩
    · exact absurd (String.ext hb) hbase
    · simp
  have hsplit : f.baseName.data ++ posUUIDSuffixSeparator :: (SuffixIntToStr u.2).data =
      (f.baseName.data ++ [posUUIDSuffixSeparator]) ++ (SuffixIntToStr u.2).data := by simp
  have hsuffix : (⟨(f.baseName.data ++ posUUIDSuffixSeparator :: (SuffixIntToStr u.2).data).drop
      (f.baseName.data.length + 1)⟩ : String) = SuffixIntToStr u.2 := by
    rw [hsplit, List.drop_left' (by simp)]
  have hreal : constructBinlogFilename ⟨(f.baseName.data ++ posUUIDSuffixSeparator ::
      (SuffixIntToStr u.2).data).take f.baseName.data.length⟩ f.seq = n := by
    rw [List.take_left' rfl]
    exact String.ext (by simp [constructBinlogFilename, hn_data])
  have hlen : f.baseName.data.length + 1 <
      (f.baseName.data ++ posUUIDSuffixSeparator :: (SuffixIntToStr u.2).data).length := by
    simpa using List.length_pos.mpr (SuffixIntToStr_ne_nil u.2)
  have huuid := GetUUIDBySuffix_AddSuffixForUUID hnodup hu
  have hfound : (AddSuffixForUUID u.1 u.2).length > 0 :=
    show 0 < (AddSuffixForUUID u.1 u.2).data.length by
      simp only [AddSuffixForUUID, String.data_append, List.length_append, List.length_singleton]
      omega
  simp only [extractPos, hne, ↓reduceIte, hparse, String.data_append, List.append_assoc,
    List.singleton_append, hidx, if_pos (And.intro hpos hlen), hsuffix, hreal]
  rw [huuid, if_pos hfound]

theorem extractPos_unsuffixed (hid : ∀ x ∈ entries, uuidIndexSeparator ∉ x.1.data)
    (hn : ∀ x ∈ entries, x.2 < 2 ^ 63) {l : String × Nat} (hl : entries.getLast? = some l)
    {n : String} {f : binlogFile} (hf : parseBinlogFile n = some f)
    (hbar : posUUIDSuffixSeparator ∉ f.baseName.data) (p : UInt32) :
    extractPos (entries.map fun x => AddSuffixForUUID x.1 x.2) ⟨n, p⟩ =
      .ok (AddSuffixForUUID l.1 l.2, SuffixIntToStr l.2, ⟨n, p⟩) := by
  have hlmem : l ∈ entries := List.mem_of_mem_getLast? hl
  have hne : entries.map (fun x => AddSuffixForUUID x.1 x.2) ≠ [] := by
    simpa using List.ne_nil_of_mem hlmem
  have hlatest : (entries.map fun x => AddSuffixForUUID x.1 x.2).getLast?.getD "" =
      AddSuffixForUUID l.1 l.2 := by
    simp [List.getLast?_map, hl]
  have hidx := findIdx?_eq_none_of_not_mem hbar
  have hsuffix := ParseSuffixForUUID_AddSuffixForUUID (hid l hlmem) (hn l hlmem)
  simp only [extractPos, hne, ↓reduceIte, hf, hidx, List.getLastD_eq_getLast?, hlatest, hsuffix]

/-- Every position name the reader builds resolves back, a suffixed name to the sub
    directory of its suffix and an unsuffixed one to the newest, with the original file
    name and offset. -/
theorem extractPos_constructBinlogName (entries : List (String × Nat))
    (hid : ∀ x ∈ entries, uuidIndexSeparator ∉ x.1.data) (hn : ∀ x ∈ entries, x.2 < 2 ^ 63)
    (hnodup : (entries.map Prod.snd).Nodup)
    {n : String} {f : binlogFile} (hf : parseBinlogFile n = some f)
    (hbase : f.baseName ≠ "") (hbar : posUUIDSuffixSeparator ∉ f.baseName.data)
    {u : String × Nat} (hu : u ∈ entries) (p : UInt32) :
    let uuids := entries.map fun x => AddSuffixForUUID x.1 x.2
    extractPos uuids ⟨constructBinlogName f (SuffixIntToStr u.2), p⟩ =
        .ok (AddSuffixForUUID u.1 u.2, SuffixIntToStr u.2, ⟨n, p⟩) ∧
      ∃ l, entries.getLast? = some l ∧
        extractPos uuids ⟨n, p⟩ = .ok (AddSuffixForUUID l.1 l.2, SuffixIntToStr l.2, ⟨n, p⟩) := by
  obtain ⟨l, hl⟩ : ∃ l, entries.getLast? = some l :=
    Option.isSome_iff_exists.mp (List.getLast?_isSome.mpr (List.ne_nil_of_mem hu))
  exact ⟨extractPos_suffixed hnodup hu hf hbase hbar p, l, hl,
    extractPos_unsuffixed hid hn hl hf hbar p⟩

/-- Two epochs, a file name of the second server and a suffixed name of the first. -/
theorem extractPos_constructBinlogName_two_epochs :
    let entries := [("c6ae5afe-c7a3-11e8-a19d-0242ac130006", 1),
                    ("d7bf1a52-c7a3-11e8-a19d-0242ac130007", 2)]
    let uuids := entries.map fun x => AddSuffixForUUID x.1 x.2
    extractPos uuids ⟨constructBinlogName ⟨"mysql-bin", "000003"⟩ (SuffixIntToStr 1), 4⟩ =
        .ok (AddSuffixForUUID "c6ae5afe-c7a3-11e8-a19d-0242ac130006" 1, SuffixIntToStr 1,
          ⟨"mysql-bin.000003", 4⟩) ∧
      ∃ l, entries.getLast? = some l ∧
        extractPos uuids ⟨"mysql-bin.000003", 4⟩ =
          .ok (AddSuffixForUUID l.1 l.2, SuffixIntToStr l.2, ⟨"mysql-bin.000003", 4⟩) :=
  extractPos_constructBinlogName _ (by decide) (by decide) (by decide) (by decide) (by decide)
    (by decide) (List.mem_cons_self _ _) 4

end Roundtrip

end dm.streamer
