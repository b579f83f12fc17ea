import BinlogRelay.Streamer.System

open dm.binlog

namespace dm.streamer

section StringOrder

theorem stringLt_irrefl : ∀ a : List Char, stringLt a a = false
  | [] => rfl
  | c :: cs => by simp [stringLt, Char.lt_irrefl, stringLt_irrefl cs]

theorem stringLt_trans : ∀ {a b c : List Char},
    stringLt a b = true → stringLt b c = true → stringLt a c = true
  | _, [], _, hab, _ => by simp [stringLt] at hab
  | _, _ :: _, [], _, hbc => by simp [stringLt] at hbc
  | [], _ :: _, _ :: _, _, _ => rfl
  | a :: as, b :: bs, c :: cs, hab, hbc => by
    simp only [stringLt, Bool.or_eq_true, decide_eq_true_eq, Bool.and_eq_true, beq_iff_eq]
      at hab hbc ⊢
    rcases hab with hab | ⟨rfl, hab⟩ <;> rcases hbc with hbc | ⟨rfl, hbc⟩
    · exact .inl (Char.lt_trans hab hbc)
    · exact .inl hab
    · exact .inl hbc
    · exact .inr ⟨rfl, stringLt_trans hab hbc⟩

theorem stringLt_asymm {a b : List Char} (h : stringLt a b = true) : stringLt b a = false := by
  cases hba : stringLt b a
  · rfl
  · simpa [stringLt_irrefl] using stringLt_trans h hba

theorem stringLt_total : ∀ {a b : List Char}, a ≠ b → stringLt a b = true ∨ stringLt b a = true
  | [], [], h => absurd rfl h
  | [], _ :: _, _ => .inl rfl
  | _ :: _, [], _ => .inr rfl
  | a :: as, b :: bs, h => by
    simp only [stringLt, Bool.or_eq_true, decide_eq_true_eq, Bool.and_eq_true, beq_iff_eq]
    by_cases hab : a = b
    · subst hab
      have hne : as ≠ bs := fun h' => h (h' ▸ rfl)
      rcases stringLt_total hne with h' | h'
      · exact .inl (.inr ⟨rfl, h'⟩)
      · exact .inr (.inr ⟨rfl, h'⟩)
    · have hval : a.val.toNat ≠ b.val.toNat := fun h' => hab (Char.ext (UInt32.toNat.inj h'))
      rcases Nat.lt_or_gt_of_ne hval with h' | h'
      · exact .inl (.inl h')
      · exact .inr (.inl h')

@[simp] theorem stringLt_append_left (p a b : List Char) :
    stringLt (p ++ a) (p ++ b) = stringLt a b := by
  induction p with
  | nil => rfl
  | cons c p ih => simp [stringLt, Char.lt_irrefl, ih]

instance : IsTotal String nameLe where
  total a b := by
    unfold nameLe
    by_cases h : a.data = b.data
    · simp [h, stringLt_irrefl]
    · rcases stringLt_total h with h' | h'
      · exact .inl (stringLt_asymm h')
      · exact .inr (stringLt_asymm h')

instance : IsTrans String nameLe where
  trans a b c hab hbc := by
    unfold nameLe at *
    cases hca : stringLt c.data a.data
    · rfl
    · exfalso
      by_cases h : a.data = b.data
      · rw [← h, hca] at hbc
        cases hbc
      · rcases stringLt_total h with h' | h'
        · rw [stringLt_trans hca h'] at hbc
          cases hbc
        · rw [h'] at hab
          cases hab

instance : IsAntisymm String nameLe where
  antisymm a b hab hba := by
    unfold nameLe at *
    by_contra h
    rcases stringLt_total (fun h' => h (String.ext h')) with h' | h'
    · rw [h'] at hba
      cases hba
    · rw [h'] at hab
      cases hab

end StringOrder

/-- The offset of the `n`th event of a relay log, just past the events before it. -/
def offsetOf (es : List BinlogEvent) (n : Nat) : Nat :=
  FileHeaderLen.toNat + eventsLen (es.take n)

/-- An event as the relay writer writes it at offset `start`: longer than an event
    header, its log position the offset it ends at, its timestamp set. -/
structure EventLaidOut (start : Nat) (e : BinlogEvent) : Prop where
  long : EventHeaderSize < eventLen e
  logPos_eq : e.header.logPos.toNat = start + eventLen e
  timestamp_ne : e.header.timestamp ≠ 0

/-- Events written one after the other from offset `start`. -/
def LaidOut : Nat → List BinlogEvent → Prop
  | _, [] => True
  | start, e :: es => EventLaidOut start e ∧ LaidOut (start + eventLen e) es

/-- A relay log as the relay writer leaves it between two writes: no unfinished event,
    its events laid out from the header on, the first one its FORMAT_DESCRIPTION
    event, and shorter than `2^32` bytes. -/
structure RelayLogFile.WF (f : RelayLogFile) : Prop where
  complete : f.partialBytes = 0
  laidOut : LaidOut FileHeaderLen.toNat f.events
  startsWithFD : ∀ e ∈ f.events.head?, e.isFormatDescription
  small : f.size < maxRelayLogSize

instance (start : Nat) (e : BinlogEvent) : Decidable (EventLaidOut start e) :=
  decidable_of_iff (EventHeaderSize < eventLen e ∧ e.header.logPos.toNat = start + eventLen e ∧
      e.header.timestamp ≠ 0)
    ⟨fun ⟨a, b, c⟩ => ⟨a, b, c⟩, fun ⟨a, b, c⟩ => ⟨a, b, c⟩⟩

instance LaidOut.instDecidable : (start : Nat) → (es : List BinlogEvent) →
    Decidable (LaidOut start es)
  | _, [] => isTrue trivial
  | start, e :: es =>
    have := LaidOut.instDecidable (start + eventLen e) es
    inferInstanceAs (Decidable (EventLaidOut start e ∧ LaidOut (start + eventLen e) es))

instance (f : RelayLogFile) : Decidable f.WF :=
  decidable_of_iff (f.partialBytes = 0 ∧ LaidOut FileHeaderLen.toNat f.events ∧
      (∀ e ∈ f.events.head?, e.isFormatDescription) ∧ f.size < maxRelayLogSize)
    ⟨fun ⟨a, b, c, d⟩ => ⟨a, b, c, d⟩, fun ⟨a, b, c, d⟩ => ⟨a, b, c, d⟩⟩

section Offsets

variable {es es' : List BinlogEvent} {start n : Nat}

theorem laidOut_append :
    LaidOut start (es ++ es') ↔ LaidOut start es ∧ LaidOut (start + eventsLen es) es' := by
  induction es generalizing start with
  | nil => simp [LaidOut]
  | cons e es ih => simp [LaidOut, ih, and_assoc, Nat.add_assoc]

theorem LaidOut.get (h : LaidOut start es) (hn : n < es.length) :
    EventLaidOut (start + eventsLen (es.take n)) es[n] := by
  induction es generalizing start n with
  | nil => cases hn
  | cons e es ih =>
    cases n with
    | zero => simpa using h.1
    | succ n =>
      simpa [Nat.add_assoc] using ih h.2 (Nat.lt_of_succ_lt_succ hn)

theorem LaidOut.eventLen_pos (h : LaidOut start es) : ∀ e ∈ es, 0 < eventLen e := by
  induction es generalizing start with
  | nil => simp
  | cons e es ih =>
    intro x hx
    rcases List.mem_cons.mp hx with rfl | hx
    · exact Nat.lt_of_le_of_lt (Nat.zero_le _) h.1.long
    · exact ih h.2 x hx

theorem offsetOf_succ (hn : n < es.length) :
    offsetOf es (n + 1) = offsetOf es n + eventLen es[n] := by
  unfold offsetOf
  rw [List.take_succ, List.getElem?_eq_getElem hn, Option.toList_some, eventsLen_append,
    eventsLen_cons, eventsLen_nil]
  omega

theorem offsetOf_length : offsetOf es es.length = FileHeaderLen.toNat + eventsLen es := by
  simp [offsetOf]

theorem offsetOf_mono {a b : Nat} (hab : a ≤ b) : offsetOf es a ≤ offsetOf es b := by
  unfold offsetOf
  have h := congrArg eventsLen (List.take_append_drop a (es.take b))
  rw [List.take_take, Nat.min_eq_left hab, eventsLen_append] at h
  omega

theorem offsetOf_append_of_le (hn : n ≤ es.length) : offsetOf (es ++ es') n = offsetOf es n := by
  simp [offsetOf, List.take_append_of_le_length hn]

theorem offsetOf_lt_offsetOf (h : LaidOut FileHeaderLen.toNat es) {a b : Nat} (hab : a < b)
    (hb : b ≤ es.length) : offsetOf es a < offsetOf es b := by
  induction b with
  | zero => cases hab
  | succ b ih =>
    have hpos := h.eventLen_pos _ (List.getElem_mem (by omega : b < es.length))
    rw [offsetOf_succ (by omega)]
    rcases Nat.lt_succ_iff_lt_or_eq.mp hab with hab | rfl
    · have := ih hab (by omega)
      omega
    · omega

end Offsets

section Frames

variable {f : RelayLogFile} {n : Nat}

theorem RelayLogFile.frameAt_offsetOf (hf : f.WF) (hn : n < f.events.length) :
    f.frameAt (offsetOf f.events n) = .event f.events[n] :=
  frameIn_take hf.laidOut.eventLen_pos hn

theorem RelayLogFile.WF.offsetOf_lt (hf : f.WF) (hn : n ≤ f.events.length) :
    offsetOf f.events n < maxRelayLogSize := by
  have hle : offsetOf f.events n ≤ offsetOf f.events f.events.length := offsetOf_mono hn
  have hsmall := hf.small
  simp only [offsetOf_length, RelayLogFile.size, hf.complete] at hle hsmall
  omega

theorem RelayLogFile.WF.toUInt32_offsetOf (hf : f.WF) (hn : n ≤ f.events.length) :
    (offsetOf f.events n).toUInt32.toNat = offsetOf f.events n :=
  UInt32.toNat_ofNat_of_lt (hf.offsetOf_lt hn)

theorem RelayLogFile.frameAt_offsetOf_length (hf : f.WF) :
    f.frameAt (offsetOf f.events f.events.length) = .eof := by
  unfold RelayLogFile.frameAt
  refine frameIn_of_le hf.laidOut.eventLen_pos ?_
  simp [offsetOf, hf.complete]

end Frames

/-- The name of a relay log of base name `base`: `base.seq`, with `seq` made of `width`
    decimal digits. -/
def IsRelayLogName (base : String) (width : Nat) (name : String) : Prop :=
  ∃ seq : List Char, name.data = base.data ++ baseSeqSeparator :: seq ∧ seq.length = width ∧
    seq.all isDigit

theorem isRelayLogName_iff {base : String} {width : Nat} {name : String} :
    IsRelayLogName base width name ↔
      (base.data ++ [baseSeqSeparator]).isPrefixOf name.data = true ∧
        (name.data.drop (base.data.length + 1)).length = width ∧
        (name.data.drop (base.data.length + 1)).all isDigit = true := by
  constructor
  · rintro ⟨seq, h, hlen, hdig⟩
    have hd : name.data.drop (base.data.length + 1) = seq := by
      rw [h, show base.data ++ baseSeqSeparator :: seq = (base.data ++ [baseSeqSeparator]) ++ seq
        by simp, List.drop_left' (by simp)]
    exact ⟨List.isPrefixOf_iff_prefix.mpr ⟨seq, by rw [h]; simp⟩, hd ▸ hlen, hd ▸ hdig⟩
  · rintro ⟨hpre, hlen, hdig⟩
    obtain ⟨t, ht⟩ := List.isPrefixOf_iff_prefix.mp hpre
    have hd : name.data.drop (base.data.length + 1) = t := by
      rw [← ht, List.drop_left' (by simp)]
    exact ⟨t, by rw [← ht]; simp, hd ▸ hlen, hd ▸ hdig⟩

instance (base : String) (width : Nat) (name : String) :
    Decidable (IsRelayLogName base width name) :=
  decidable_of_iff _ isRelayLogName_iff.symm

/-- The relay logs of a sub directory: its entries other than the meta file, in creation
    order. -/
def relayLogs (d : RelaySubDir) : List RelayLogFile :=
  d.files.filter (·.name != MetaFilename)

/-- A relay sub directory as the relay writer keeps it: relay logs of one base name and
    one sequence width, created in increasing order, and the meta file. -/
structure RelaySubDir.WF (base : String) (width : Nat) (d : RelaySubDir) : Prop where
  base_ne : base ≠ ""
  bar_not_mem : posUUIDSuffixSeparator ∉ base.data
  dot_not_mem : baseSeqSeparator ∉ base.data
  base_ne_relay : base ≠ "relay"
  names : ∀ f ∈ d.files, f.name = MetaFilename ∨ IsRelayLogName base width f.name
  nodup : (d.files.map (·.name)).Nodup
  sorted : (relayLogs d).Pairwise fun f g => stringLt f.name.data g.name.data = true
  logs : ∀ f ∈ relayLogs d, f.WF

instance (base : String) (width : Nat) (d : RelaySubDir) : Decidable (d.WF base width) :=
  decidable_of_iff (base ≠ "" ∧ posUUIDSuffixSeparator ∉ base.data ∧
      baseSeqSeparator ∉ base.data ∧ base ≠ "relay" ∧
      (∀ f ∈ d.files, f.name = MetaFilename ∨ IsRelayLogName base width f.name) ∧
      (d.files.map (·.name)).Nodup ∧
      (relayLogs d).Pairwise (fun f g => stringLt f.name.data g.name.data = true) ∧
      ∀ f ∈ relayLogs d, f.WF)
    ⟨fun ⟨a, b, c, d, e, f, g, h⟩ => ⟨a, b, c, d, e, f, g, h⟩,
      fun ⟨a, b, c, d, e, f, g, h⟩ => ⟨a, b, c, d, e, f, g, h⟩⟩

/-- A relay directory whose sub directories have distinct names and are kept by the
    relay writer. -/
structure RelayRoot.WF (root : RelayRoot) : Prop where
  nodup : (root.subDirs.map (·.uuid)).Nodup
  dirs : ∀ d ∈ root.subDirs, ∃ base width, d.WF base width

section Names

variable {base : String} {width : Nat} {name : String}

theorem IsRelayLogName.parseBinlogFile (h : IsRelayLogName base width name)
    (hdot : baseSeqSeparator ∉ base.data) :
    ∃ seq : List Char, parseBinlogFile name = some ⟨base, ⟨seq⟩⟩ ∧
      name.data = base.data ++ baseSeqSeparator :: seq ∧ seq.all isDigit := by
  obtain ⟨seq, hname, -, hdigits⟩ := h
  exact ⟨seq, parseBinlogFile_eq_some.mpr ⟨hname, hdot,
    not_mem_of_all_isDigit hdigits (by decide)⟩, hname, hdigits⟩

theorem parseBinlogFile_MetaFilename : parseBinlogFile MetaFilename = some ⟨"relay", "meta"⟩ := by
  decide

theorem IsRelayLogName.ne_MetaFilename (h : IsRelayLogName base width name)
    (hdot : baseSeqSeparator ∉ base.data) : name ≠ MetaFilename := by
  rintro rfl
  obtain ⟨seq, hparse, -, hdigits⟩ := h.parseBinlogFile hdot
  rw [parseBinlogFile_MetaFilename, Option.some.injEq, binlogFile.mk.injEq] at hparse
  have hseq : seq = "meta".data := congrArg String.data hparse.2.symm
  rw [hseq] at hdigits
  exact absurd hdigits (by decide)

end Names

section Listing

theorem find?_key_eq_some {α β : Type} [DecidableEq β] (key : α → β) {l : List α}
    (hnodup : (l.map key).Nodup) {x : α} (hx : x ∈ l) : l.find? (key · == key x) = some x := by
  induction l with
  | nil => cases hx
  | cons y l ih =>
    simp only [List.map_cons, List.nodup_cons, List.mem_map] at hnodup
    by_cases hyx : key y = key x
    · have : y = x := by
        rcases List.mem_cons.mp hx with rfl | hx
        · rfl
        · exact absurd ⟨x, hx, hyx.symm⟩ hnodup.1
      subst this
      simp
    · have hx' : x ∈ l := by
        rcases List.mem_cons.mp hx with rfl | hx
        · exact absurd rfl hyx
        · exact hx
      rw [List.find?_cons_of_neg _ (by simpa using hyx)]
      exact ih hnodup.2 hx'

theorem RelaySubDir.file?_eq_some {d : RelaySubDir} (hnodup : (d.files.map (·.name)).Nodup)
    {f : RelayLogFile} (hf : f ∈ d.files) : d.file? f.name = some f :=
  find?_key_eq_some RelayLogFile.name hnodup hf

theorem RelayRoot.subDir?_eq_some {root : RelayRoot} (hnodup : (root.subDirs.map (·.uuid)).Nodup)
    {d : RelaySubDir} (hd : d ∈ root.subDirs) : root.subDir? d.uuid = some d :=
  find?_key_eq_some RelaySubDir.uuid hnodup hd

theorem filter_insertionSort_nameLe {l : List String} (q : String → Bool)
    (h : (l.filter q).Sorted nameLe) : (l.insertionSort nameLe).filter q = l.filter q :=
  List.eq_of_perm_of_sorted ((List.perm_insertionSort nameLe l).filter q)
    ((List.sorted_insertionSort nameLe l).filter q) h

theorem filter_not_lt_eq_dropWhile {L : List RelayLogFile}
    (hs : L.Pairwise fun f g => stringLt f.name.data g.name.data = true) {F : RelayLogFile}
    (hF : F ∈ L) :
    L.filter (fun G => !stringLt G.name.data F.name.data) = L.dropWhile (·.name ≠ F.name) := by
  induction L with
  | nil => cases hF
  | cons G L ih =>
    rw [List.pairwise_cons] at hs
    by_cases hGF : G = F
    · subst hGF
      have hrest : L.filter (fun x => !stringLt x.name.data G.name.data) = L :=
        List.filter_eq_self.mpr fun x hx => by simp [stringLt_asymm (hs.1 x hx)]
      simp [List.filter_cons, stringLt_irrefl, hrest]
    · have hF' : F ∈ L := by
        rcases List.mem_cons.mp hF with h | h
        · exact absurd h.symm hGF
        · exact h
      have hlt := hs.1 F hF'
      have hname : G.name ≠ F.name := fun h => by simp [h, stringLt_irrefl] at hlt
      simp [List.filter_cons, hlt, hname, ih hs.2 hF']

variable {d : RelaySubDir} {base : String} {width : Nat}

theorem RelaySubDir.WF.relayLogs_name (hd : d.WF base width) {f : RelayLogFile}
    (hf : f ∈ relayLogs d) : IsRelayLogName base width f.name := by
  obtain ⟨hmem, hmeta⟩ := List.mem_filter.mp hf
  rcases hd.names f hmem with h | h
  · simp [h] at hmeta
  · exact h

theorem RelaySubDir.WF.filter_names (hd : d.WF base width) (q : String → Bool)
    (hq : q MetaFilename = false) :
    (d.files.map (·.name)).filter q = ((relayLogs d).map (·.name)).filter q ∧
      (((relayLogs d).map (·.name)).filter q).Sorted nameLe := by
  refine ⟨?_, ?_⟩
  · simp only [relayLogs, List.filter_map, List.filter_filter]
    congr 1
    refine List.filter_congr fun f _ => ?_
    by_cases hf : f.name = MetaFilename <;> simp [hf, hq]
  · refine List.Sorted.filter q ?_
    rw [List.Sorted, List.pairwise_map]
    exact hd.sorted.imp fun h => stringLt_asymm h

@[simp] theorem stringLt_cons_self (c : Char) (a b : List Char) :
    stringLt (c :: a) (c :: b) = stringLt a b := by
  simp [stringLt, Char.lt_irrefl]

theorem RelaySubDir.WF.collect_pred (hd : d.WF base width) {F G : RelayLogFile} {sF : List Char}
    (hF : F.name.data = base.data ++ baseSeqSeparator :: sF) (hG : G ∈ relayLogs d) :
    (hasPrefix G.name base && (parseBinlogFile G.name).any
        (·.BiggerOrEqualThan ⟨base, ⟨sF⟩⟩)) = !stringLt G.name.data F.name.data := by
  obtain ⟨sG, hparse, hdata, -⟩ := (hd.relayLogs_name hG).parseBinlogFile hd.dot_not_mem
  have hpre : hasPrefix G.name base = true :=
    List.isPrefixOf_iff_prefix.mpr (hdata ▸ List.prefix_append _ _)
  simp [hpre, hparse, binlogFile.BiggerOrEqualThan, hdata, hF]

theorem collect_pred_MetaFilename (hbase : base ≠ "relay") (sF : List Char) :
    (hasPrefix MetaFilename base && (parseBinlogFile MetaFilename).any
        (·.BiggerOrEqualThan ⟨base, ⟨sF⟩⟩)) = false := by
  simp [parseBinlogFile_MetaFilename, binlogFile.BiggerOrEqualThan, Ne.symm hbase]

theorem RelaySubDir.WF.collectBinlogFiles_eq (hd : d.WF base width) {F : RelayLogFile}
    (hF : F ∈ relayLogs d) (path : String) :
    collectBinlogFiles (some d) path F.name =
      .ok (((relayLogs d).dropWhile (·.name ≠ F.name)).map (·.name)) := by
  obtain ⟨sF, hparse, hdata, -⟩ := (hd.relayLogs_name hF).parseBinlogFile hd.dot_not_mem
  obtain ⟨hnames, hsorted⟩ := hd.filter_names
    (fun f => hasPrefix f base && (parseBinlogFile f).any (·.BiggerOrEqualThan ⟨base, ⟨sF⟩⟩))
    (collect_pred_MetaFilename hd.base_ne_relay sF)
  simp only [collectBinlogFiles, hparse, readDir]
  rw [filter_insertionSort_nameLe _ (hnames ▸ hsorted), hnames, List.filter_map,
    ← filter_not_lt_eq_dropWhile hd.sorted hF]
  congr 2
  exact List.filter_congr fun G hG => hd.collect_pred hdata hG

theorem firstBinlogName_eq_filter (fpath : String) (l : List String) :
    firstBinlogName fpath l = match l.filter (· != MetaFilename) with
      | [] => .error (.binlogFilesNotFound fpath)
      | f :: _ => if (parseBinlogFile f).isSome then .ok f else .error (.binlogFileNotValid f) := by
  induction l with
  | nil => rfl
  | cons f fs ih =>
    by_cases hf : f = MetaFilename
    · simp [firstBinlogName, hf, ih]
    · simp [firstBinlogName, hf, List.filter_cons]

theorem RelaySubDir.WF.firstBinlogName_readDir (hd : d.WF base width) (fpath : String) :
    firstBinlogName fpath (readDir d) = match relayLogs d with
      | [] => .error (.binlogFilesNotFound fpath)
      | G :: _ => .ok G.name := by
  obtain ⟨hnames, hsorted⟩ := hd.filter_names (· != MetaFilename) (by simp)
  have hrelay : ((relayLogs d).map (·.name)).filter (· != MetaFilename) =
      (relayLogs d).map (·.name) := by
    refine List.filter_eq_self.mpr fun x hx => ?_
    obtain ⟨G, hG, rfl⟩ := List.mem_map.mp hx
    simpa using (hd.relayLogs_name hG).ne_MetaFilename hd.dot_not_mem
  rw [firstBinlogName_eq_filter, readDir, filter_insertionSort_nameLe _ (hnames ▸ hsorted), hnames,
    hrelay]
  cases h : relayLogs d with
  | nil => rfl
  | cons G Gs =>
    obtain ⟨seq, hparse, -⟩ :=
      (hd.relayLogs_name (h ▸ List.mem_cons_self G Gs)).parseBinlogFile hd.dot_not_mem
    simp [hparse]

end Listing

section Writer

variable {f : RelayLogFile} {e : BinlogEvent}

theorem RelayLogFile.WF.append (hf : f.WF) (he : appendable f e = true) :
    RelayLogFile.WF { f with events := f.events ++ [e] } := by
  simp only [appendable, Bool.and_eq_true, beq_iff_eq, bne_iff_ne, ne_eq, decide_eq_true_eq,
    Bool.or_eq_true, Bool.not_eq_true', List.isEmpty_eq_false] at he
  obtain ⟨⟨⟨⟨⟨-, hpos⟩, hts⟩, hlong⟩, hsmall⟩, hfirst⟩ := he
  have hsize : f.size = FileHeaderLen.toNat + eventsLen f.events := by
    simp [RelayLogFile.size, hf.complete]
  refine ⟨hf.complete, laidOut_append.mpr ⟨hf.laidOut, ⟨hlong, by omega, hts⟩, trivial⟩, ?_, ?_⟩
  · cases hes : f.events with
    | nil => simpa [hes] using hfirst
    | cons x xs => simpa [hes] using hf.startsWithFD
  · simpa [RelayLogFile.size, hf.complete, Nat.add_assoc] using hsmall

variable {d : RelaySubDir} {base : String} {width : Nat}

theorem relayLogs_append_last {fs : List RelayLogFile} (hd : d.files = fs ++ [f])
    (hf : f.name ≠ MetaFilename) :
    relayLogs d = fs.filter (·.name != MetaFilename) ++ [f] := by
  simp [relayLogs, hd, hf]

theorem RelaySubDir.WF.replace_last (hd : d.WF base width) {fs : List RelayLogFile}
    (hfs : d.files = fs ++ [f]) (hf : f.name ≠ MetaFilename) {d' : RelaySubDir} {f' : RelayLogFile}
    (hfs' : d'.files = fs ++ [f']) (hname : f'.name = f.name) (hwf : f'.WF) :
    d'.WF base width := by
  have hlogs := relayLogs_append_last hfs hf
  have hlogs' := relayLogs_append_last hfs' (hname ▸ hf)
  have hmap : (relayLogs d').map (·.name) = (relayLogs d).map (·.name) := by
    simp [hlogs, hlogs', hname]
  refine ⟨hd.base_ne, hd.bar_not_mem, hd.dot_not_mem, hd.base_ne_relay, ?_, ?_, ?_, ?_⟩
  · intro g hg
    rw [hfs', List.mem_append, List.mem_singleton] at hg
    rcases hg with hg | rfl
    · exact hd.names g (hfs ▸ List.mem_append_left _ hg)
    · exact hname ▸ hd.names f (by simp [hfs])
  · simpa [hfs, hfs', hname] using hd.nodup
  · have := hd.sorted
    rw [← List.pairwise_map (R := fun a b : String => stringLt a.data b.data = true)] at this ⊢
    rwa [hmap]
  · intro g hg
    rw [hlogs', List.mem_append, List.mem_singleton] at hg
    rcases hg with hg | rfl
    · exact hd.logs g (by rw [hlogs]; exact List.mem_append_left _ hg)
    · exact hwf

theorem RelaySubDir.WF.create (hd : d.WF base width) (hlast : d.files.getLast? = some f)
    (hf : f.name ≠ MetaFilename) {name : String} (hnext : nextRelayLogName f name = true) :
    (d.create name).WF base width := by
  obtain ⟨fs, hfs⟩ := List.getLast?_eq_some_iff.mp hlast
  have hlogs := relayLogs_append_last hfs hf
  have hflog : f ∈ relayLogs d := by simp [hlogs]
  obtain ⟨seqF, hdataF, hlenF, hdigF⟩ := hd.relayLogs_name hflog
  have hparseF : parseBinlogFile f.name = some ⟨base, ⟨seqF⟩⟩ :=
    parseBinlogFile_eq_some.mpr ⟨hdataF, hd.dot_not_mem, not_mem_of_all_isDigit hdigF (by decide)⟩
  unfold nextRelayLogName at hnext
  rw [hparseF] at hnext
  cases hparse : parseBinlogFile name with
  | none => simp [hparse] at hnext
  | some next =>
    simp only [hparse, Bool.and_eq_true, beq_iff_eq] at hnext
    obtain ⟨⟨⟨hbase, hlen⟩, hdig⟩, hlt⟩ := hnext
    obtain ⟨hdataN, -, -⟩ := parseBinlogFile_eq_some.mp hparse
    have hname : IsRelayLogName base width name :=
      ⟨next.seq.data, by rw [hdataN, ← hbase], by simpa [hlenF] using hlen, hdig⟩
    have hmeta := hname.ne_MetaFilename hd.dot_not_mem
    have hfnew : stringLt f.name.data name.data = true := by
      rw [hdataF, hdataN, ← hbase]
      simpa using hlt
    have hsorted := hd.sorted
    rw [hlogs, List.pairwise_append] at hsorted
    have hlt_new : ∀ g ∈ relayLogs d, stringLt g.name.data name.data = true := by
      intro g hg
      rw [hlogs, List.mem_append, List.mem_singleton] at hg
      rcases hg with hg | rfl
      · exact stringLt_trans (hsorted.2.2 g hg f (List.mem_singleton_self f)) hfnew
      · exact hfnew
    have hlogs' : relayLogs (d.create name) = relayLogs d ++ [⟨name, [], 0⟩] := by
      simp [relayLogs, RelaySubDir.create, hmeta]
    have hfresh : name ∉ d.files.map (·.name) := by
      intro hmem
      obtain ⟨g, hg, rfl⟩ := List.mem_map.mp hmem
      have hglog : g ∈ relayLogs d := List.mem_filter.mpr ⟨hg, by simpa using hmeta⟩
      simpa [stringLt_irrefl] using hlt_new g hglog
    refine ⟨hd.base_ne, hd.bar_not_mem, hd.dot_not_mem, hd.base_ne_relay, ?_, ?_, ?_, ?_⟩
    · intro g hg
      simp only [RelaySubDir.create, List.mem_append, List.mem_singleton] at hg
      rcases hg with hg | rfl
      · exact hd.names g hg
      · exact .inr hname
    · simpa [RelaySubDir.create] using List.nodup_append.mpr
        ⟨hd.nodup, List.nodup_singleton name, List.disjoint_singleton.mpr hfresh⟩
    · rw [hlogs']
      exact List.pairwise_append.mpr ⟨hd.sorted, List.pairwise_singleton _ _,
        fun g hg x hx => List.mem_singleton.mp hx ▸ hlt_new g hg⟩
    · intro g hg
      rw [hlogs', List.mem_append, List.mem_singleton] at hg
      rcases hg with hg | rfl
      · exact hd.logs g hg
      · exact ⟨rfl, trivial, by simp, by simp [RelayLogFile.size, maxRelayLogSize]⟩

variable {root : RelayRoot} {uuid : String} {g : RelaySubDir → RelaySubDir}

theorem RelayRoot.subDir?_modify (huuid : ∀ d, (g d).uuid = d.uuid) (u : String) :
    (root.modify uuid g).subDir? u = (root.subDir? u).map fun d => if u = uuid then g d else d := by
  unfold RelayRoot.subDir? RelayRoot.modify
  rw [List.find?_map]
  have hp : ((fun d : RelaySubDir => d.uuid == u) ∘ fun d => if d.uuid = uuid then g d else d) =
      (·.uuid == u) := by
    funext d
    by_cases h : d.uuid = uuid <;> simp [h, huuid]
  rw [hp]
  cases hfind : root.subDirs.find? (·.uuid == u) with
  | none => rfl
  | some d =>
    have hu : d.uuid = u := by simpa using List.find?_some hfind
    simp [hu]

theorem RelayRoot.WF.modify (hr : root.WF) (huuid : ∀ d, (g d).uuid = d.uuid)
    (hd : root.subDir? uuid = some d) (hg : ∀ base width, d.WF base width → (g d).WF base width) :
    (root.modify uuid g).WF := by
  refine ⟨?_, ?_⟩
  · have hmap : (root.modify uuid g).subDirs.map (·.uuid) = root.subDirs.map (·.uuid) := by
      simp [RelayRoot.modify, Function.comp_def, apply_ite, huuid]
    exact hmap ▸ hr.nodup
  · intro d' hd'
    obtain ⟨d0, hd0, rfl⟩ := List.mem_map.mp hd'
    by_cases h : d0.uuid = uuid
    · have hd0eq : d0 = d := by
        rw [← h, RelayRoot.subDir?_eq_some hr.nodup hd0] at hd
        exact Option.some.inj hd
      subst hd0eq
      obtain ⟨base, width, hwf⟩ := hr.dirs d0 hd0
      exact ⟨base, width, by simpa [h] using hg base width hwf⟩
    · simpa [h] using hr.dirs d0 hd0

theorem RelaySubDir.Stamped.appendNewest {d : RelaySubDir} (hd : d.Stamped) {e : BinlogEvent}
    (he : e.header.timestamp ≠ 0) : (d.appendNewest e).Stamped := by
  intro F hF x hx
  rcases List.mem_append.mp hF with hF | hF
  · exact hd F (List.mem_of_mem_dropLast hF) x hx
  · obtain ⟨f, hf, rfl⟩ : ∃ f, d.files.getLast? = some f ∧
        { f with events := f.events ++ [e] } = F := by simpa using hF
    rcases List.mem_append.mp hx with hx | hx
    · exact hd f (List.mem_of_getLast?_eq_some hf) x hx
    · exact List.mem_singleton.mp hx ▸ he

theorem RelaySubDir.Stamped.create {d : RelaySubDir} (hd : d.Stamped) (name : String) :
    (d.create name).Stamped := by
  intro F hF x hx
  rcases List.mem_append.mp hF with hF | hF
  · exact hd F hF x hx
  · rw [List.mem_singleton.mp hF] at hx
    cases hx

theorem RelayRoot.Stamped.modify (h : root.Stamped) (hg : ∀ d : RelaySubDir, d.Stamped → (g d).Stamped) :
    (root.modify uuid g).Stamped := by
  intro d' hd'
  obtain ⟨d, hd, rfl⟩ := List.mem_map.mp hd'
  split
  · exact hg d (h d hd)
  · exact h d hd

end Writer

section Moves

variable {s s' : System}

theorem System.newest_eq_some {uuid : String} {f : RelayLogFile}
    (h : s.newest = some (uuid, f)) :
    s.worker.reader.uuids.getLast? = some uuid ∧ ∃ d, s.root.subDir? uuid = some d ∧
      d.files.getLast? = some f ∧ f.name ≠ MetaFilename := by
  simp only [System.newest, Option.bind_eq_bind, Option.bind_eq_some] at h
  obtain ⟨u, hu, d, hd, f', hf', hmeta⟩ := h
  split at hmeta
  · cases hmeta
  · cases hmeta
    exact ⟨hu, d, hd, hf', by assumption⟩

/-- The relay writer keeps the relay directory kept, and the worker does not write it. -/
theorem System.step_root_WF (hs : s.root.WF) {a : Action} (hstep : s.step a = some s') :
    s'.root.WF := by
  cases a with
  | work | watch name =>
    obtain ⟨w, -, rfl⟩ := Option.map_eq_some'.mp hstep
    exact hs
  | append e =>
    obtain ⟨uuid, f, hnewest, happ, rfl⟩ := System.step_append hstep
    obtain ⟨-, d, hd, hlast, hf⟩ := System.newest_eq_some hnewest
    obtain ⟨fs, hfs⟩ := List.getLast?_eq_some_iff.mp hlast
    refine hs.modify (fun _ => rfl) hd fun base width hwf => ?_
    have hfwf := hwf.logs f (by simp [relayLogs_append_last hfs hf])
    exact hwf.replace_last hfs hf (show (d.appendNewest e).files =
      fs ++ [{ f with events := f.events ++ [e] }] by simp [RelaySubDir.appendNewest, hfs]) rfl
      (hfwf.append happ)
  | create name =>
    obtain ⟨uuid, f, hnewest, hcond, rfl⟩ := System.step_create hstep
    obtain ⟨-, d, hd, hlast, hf⟩ := System.newest_eq_some hnewest
    exact hs.modify (fun _ => rfl) hd fun base width hwf =>
      hwf.create hlast hf (Bool.and_eq_true _ _ ▸ hcond).2

/-- The relay writer appends only events with a timestamp. -/
theorem System.step_stamped (hs : s.root.Stamped) {a : Action} (hstep : s.step a = some s') :
    s'.root.Stamped := by
  cases a with
  | work | watch name =>
    obtain ⟨w, -, rfl⟩ := Option.map_eq_some'.mp hstep
    exact hs
  | append e =>
    obtain ⟨_, _, -, happ, rfl⟩ := System.step_append hstep
    simp only [appendable, Bool.and_eq_true, bne_iff_ne] at happ
    exact hs.modify fun d hd => hd.appendNewest happ.1.1.1.2
  | create name =>
    obtain ⟨_, _, -, -, rfl⟩ := System.step_create hstep
    exact hs.modify fun d hd => hd.create name

end Moves

end dm.streamer
