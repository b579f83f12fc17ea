import Mathlib.Data.List.Basic
import Mathlib.Data.List.Infix
import Mathlib.Tactic.IntervalCases
import Mathlib.Tactic.Ring
import Mathlib.Data.Nat.Digits
import BinlogRelay.Binlog.Event

open dm.binlog

namespace dm.streamer

/-- `baseSeqSeparator`: between a relay file's base name and its sequence number. -/
def baseSeqSeparator : Char := '.'

/-- `posUUIDSuffixSeparator`: between a base name and the sub directory suffix in a
    position name that crosses epochs, e.g. `mysql-bin|000002.000003`. -/
def posUUIDSuffixSeparator : Char := '|'

/-- Modelled from the spec: `utils.uuidIndexSeparator` is not under src/. The index
    names each sub directory `<uuid>.<suffix>`. -/
def uuidIndexSeparator : Char := '.'

/-- Modelled from the spec: the type `binlogFile` is not under src/. A relay file name
    decomposes into a base name and a sequence number. -/
structure binlogFile where
  baseName : String
  seq : String
  deriving DecidableEq, Repr

/-- Modelled from the spec: `parseBinlogFile` is not under src/. A relay file name is
    `<baseName>.<sequenceNumber>`; any other number of separators is rejected, which
    the code reports as a nil `*binlogFile` with an error. -/
def parseBinlogFile (filename : String) : Option binlogFile :=
  match filename.data.splitOn baseSeqSeparator with
  | [b, s] => some ⟨⟨b⟩, ⟨s⟩⟩
  | _ => none

/-- Modelled from the spec: `constructBinlogFilename` is not under src/. -/
def constructBinlogFilename (baseName seq : String) : String :=
  baseName ++ ⟨[baseSeqSeparator]⟩ ++ seq

/-- `BinlogReader.constructBinlogName`: `base|suffix.seq`. -/
def constructBinlogName (originalName : binlogFile) (uuidSuffix : String) : String :=
  originalName.baseName ++ ⟨[posUUIDSuffixSeparator]⟩ ++ uuidSuffix ++ ⟨[baseSeqSeparator]⟩ ++
    originalName.seq

/-- The decimal digits Go's `%d` prints for a natural number. -/
def decimal (n : Nat) : List Char := Nat.toDigits 10 n

/-- Go's `%0<width>d` zero padding. -/
def zeroPad (width : Nat) (ds : List Char) : List Char :=
  List.replicate (width - ds.length) '0' ++ ds

/-- Modelled from the spec: `utils.SuffixIntToStr` is not under src/. It prints the
    integer suffix as `fmt.Sprintf("%06d", suffix)` does; the sign counts towards the
    width. -/
def SuffixIntToStr (suffix : Int) : String :=
  if suffix < 0 then ⟨'-' :: zeroPad 5 (decimal suffix.natAbs)⟩
  else ⟨zeroPad 6 (decimal suffix.toNat)⟩

def isDigit (c : Char) : Bool := '0' ≤ c && c ≤ '9'

def digitsValue (ds : List Char) : Nat :=
  ds.foldl (fun acc c => 10 * acc + (c.toNat - '0'.toNat)) 0

def decimalValue? (ds : List Char) : Option Nat :=
  if ds ≠ [] ∧ ds.all isDigit then some (digitsValue ds) else none

/-- `strconv.Atoi` on a 64-bit platform: an optional sign, then at least one decimal
    digit, in the range of `int`. -/
def atoi (s : String) : Option Int :=
  match s.data with
  | '-' :: ds => (decimalValue? ds).bind fun v => if v ≤ 2 ^ 63 then some (-(v : Int)) else none
  | '+' :: ds => (decimalValue? ds).bind fun v => if v < 2 ^ 63 then some (v : Int) else none
  | ds => (decimalValue? ds).bind fun v => if v < 2 ^ 63 then some (v : Int) else none

/-- Modelled from the spec: `utils.ParseSuffixForUUID` is not under src/. It splits an
    index entry into the UUID and its integer suffix. -/
def ParseSuffixForUUID (uuid : String) : Option (String × Int) :=
  match uuid.data.splitOn uuidIndexSeparator with
  | [id, suffix] => if suffix = [] then none else (atoi ⟨suffix⟩).map (⟨id⟩, ·)
  | _ => none

/-- Go's `strings.HasSuffix`. -/
def hasSuffix (s suffix : String) : Bool :=
  suffix.data.isSuffixOf s.data

/-- Go's `strings.HasPrefix`. -/
def hasPrefix (s pre : String) : Bool :=
  pre.data.isPrefixOf s.data

/-- Go's `<` on strings: byte by byte, which on UTF-8 text is the order of the code
    points. -/
def stringLt : List Char → List Char → Bool
  | _, [] => false
  | [], _ :: _ => true
  | a :: as, b :: bs => a < b || (a == b && stringLt as bs)

/-- Modelled from the spec: `binlogFile.BiggerOrEqualThan` is not under src/. Files of
    one base name compare by their sequence strings, as Go compares strings. -/
def binlogFile.BiggerOrEqualThan (f other : binlogFile) : Bool :=
  f.baseName == other.baseName && !stringLt f.seq.data other.seq.data

/-- Modelled from the spec: `utils.GetUUIDBySuffix` is not under src/. It returns the
    first index entry ending in `.<suffix>`, or the empty string. -/
def GetUUIDBySuffix (uuids : List String) (suffix : String) : String :=
  (uuids.find? fun uuid => hasSuffix uuid (⟨[uuidIndexSeparator]⟩ ++ suffix)).getD ""

section Digits

theorem digitsValue_append (xs ys : List Char) :
    digitsValue (xs ++ ys) = digitsValue xs * 10 ^ ys.length + digitsValue ys := by
  unfold digitsValue
  induction ys using List.reverseRecOn with
  | nil => simp
  | append_singleton ys c ih =>
    rw [← List.append_assoc, List.foldl_append, ih, List.foldl_append]
    simp only [List.foldl_cons, List.foldl_nil, List.length_append, List.length_singleton,
      Nat.pow_succ]
    ring

theorem digitsValue_zeros (k : Nat) : digitsValue (List.replicate k '0') = 0 := by
  induction k with
  | zero => rfl
  | succ k ih =>
    rw [List.replicate_succ', digitsValue_append, ih]
    rfl

theorem digitsValue_digitChar {d : Nat} (hd : d < 10) : digitsValue [Nat.digitChar d] = d := by
  interval_cases d <;> rfl

theorem isDigit_digitChar {d : Nat} (hd : d < 10) : isDigit (Nat.digitChar d) = true := by
  interval_cases d <;> rfl

private theorem toDigitsCore_spec (fuel n : Nat) (ds : List Char) (hn : n < fuel) :
    digitsValue (Nat.toDigitsCore 10 fuel n ds) = n * 10 ^ ds.length + digitsValue ds ∧
      ((Nat.toDigitsCore 10 fuel n ds).all isDigit = ds.all isDigit) ∧
      Nat.toDigitsCore 10 fuel n ds ≠ [] := by
  induction fuel generalizing n ds with
  | zero => omega
  | succ fuel ih =>
    have hd : n % 10 < 10 := Nat.mod_lt _ (by decide)
    have hcons : digitsValue (Nat.digitChar (n % 10) :: ds) =
        n % 10 * 10 ^ ds.length + digitsValue ds := by
      rw [← List.singleton_append, digitsValue_append, digitsValue_digitChar hd]
    unfold Nat.toDigitsCore
    simp only
    split
    · rename_i h0
      refine ⟨?_, by simp [isDigit_digitChar hd], by simp⟩
      rw [hcons]
      have : n % 10 = n := by omega
      rw [this]
    · rename_i h0
      obtain ⟨h1, h2, h3⟩ := ih (n / 10) (Nat.digitChar (n % 10) :: ds) (by omega)
      refine ⟨?_, by rw [h2]; simp [isDigit_digitChar hd], h3⟩
      rw [h1, hcons, List.length_cons, Nat.pow_succ]
      have := Nat.div_add_mod n 10
      calc n / 10 * (10 ^ ds.length * 10) + (n % 10 * 10 ^ ds.length + digitsValue ds)
          = (10 * (n / 10) + n % 10) * 10 ^ ds.length + digitsValue ds := by ring
        _ = n * 10 ^ ds.length + digitsValue ds := by rw [this]

theorem digitsValue_decimal (n : Nat) : digitsValue (decimal n) = n := by
  simpa using (toDigitsCore_spec (n + 1) n [] (by omega)).1

theorem decimal_all_isDigit (n : Nat) : (decimal n).all isDigit = true := by
  simpa using (toDigitsCore_spec (n + 1) n [] (by omega)).2.1

theorem decimal_ne_nil (n : Nat) : decimal n ≠ [] :=
  (toDigitsCore_spec (n + 1) n [] (by omega)).2.2

theorem SuffixIntToStr_natCast (n : Nat) :
    (SuffixIntToStr n).data = zeroPad 6 (decimal n) := by
  simp [SuffixIntToStr, Int.not_lt.mpr (Int.natCast_nonneg n)]

theorem digitsValue_SuffixIntToStr (n : Nat) : digitsValue (SuffixIntToStr n).data = n := by
  rw [SuffixIntToStr_natCast, zeroPad, digitsValue_append, digitsValue_zeros,
    digitsValue_decimal, Nat.zero_mul, Nat.zero_add]

theorem SuffixIntToStr_all_isDigit (n : Nat) : (SuffixIntToStr n).data.all isDigit = true := by
  rw [SuffixIntToStr_natCast, zeroPad, List.all_append, decimal_all_isDigit]
  simp [List.all_replicate, show isDigit '0' = true by decide]

theorem SuffixIntToStr_ne_nil (n : Nat) : (SuffixIntToStr n).data ≠ [] := by
  rw [SuffixIntToStr_natCast, zeroPad]
  simp [decimal_ne_nil]

theorem SuffixIntToStr_injective {m n : Nat} (h : SuffixIntToStr m = SuffixIntToStr n) : m = n := by
  rw [← digitsValue_SuffixIntToStr m, h, digitsValue_SuffixIntToStr]

theorem atoi_of_digits {ds : List Char} (hne : ds ≠ []) (hd : ds.all isDigit = true)
    (hv : digitsValue ds < 2 ^ 63) : atoi ⟨ds⟩ = some (digitsValue ds) := by
  unfold atoi
  split
  · rename_i ds' h
    cases h
    simp only [List.all_cons, Bool.and_eq_true] at hd
    exact absurd hd.1 (by decide)
  · rename_i ds' h
    cases h
    simp only [List.all_cons, Bool.and_eq_true] at hd
    exact absurd hd.1 (by decide)
  · simpa [decimalValue?, hne, hd] using hv

theorem atoi_SuffixIntToStr {n : Nat} (hn : n < 2 ^ 63) : atoi (SuffixIntToStr n) = some n := by
  have h := atoi_of_digits (SuffixIntToStr_ne_nil n) (SuffixIntToStr_all_isDigit n)
    (by rw [digitsValue_SuffixIntToStr]; exact hn)
  rwa [digitsValue_SuffixIntToStr] at h

end Digits

section Names

theorem not_mem_of_mem_splitOn {x : Char} {xs l : List Char} (h : l ∈ xs.splitOn x) : x ∉ l := by
  induction xs generalizing l with
  | nil => simp_all
  | cons a xs ih =>
    simp only [List.splitOn, List.splitOnP_cons] at h ih
    split at h
    · rcases List.mem_cons.mp h with rfl | h
      · simp
      · exact ih h
    · rename_i ha
      obtain ⟨hd, tl, hsplit⟩ := List.exists_cons_of_ne_nil (List.splitOnP_ne_nil (· == x) xs)
      rw [hsplit, List.modifyHead_cons] at h
      rw [hsplit] at ih
      rcases List.mem_cons.mp h with rfl | h
      · have hne : a ≠ x := fun hax => ha (by simp [hax])
        simp only [List.mem_cons, not_or]
        exact ⟨fun hxa => hne hxa.symm, ih (List.mem_cons_self hd tl)⟩
      · exact ih (List.mem_cons_of_mem hd h)

theorem splitOn_two {x : Char} {b s : List Char} (hb : x ∉ b) (hs : x ∉ s) :
    (b ++ x :: s).splitOn x = [b, s] := by
  have h := List.splitOn_intercalate [b, s] x (by simp [hb, hs]) (by simp)
  simpa [List.intercalate, List.intersperse] using h

theorem parseBinlogFile_eq_some {n : String} {f : binlogFile} :
    parseBinlogFile n = some f ↔
      n.data = f.baseName.data ++ baseSeqSeparator :: f.seq.data ∧
        baseSeqSeparator ∉ f.baseName.data ∧ baseSeqSeparator ∉ f.seq.data := by
  constructor
  · intro h
    unfold parseBinlogFile at h
    split at h
    · rename_i b q hsplit
      cases h
      have hn := List.intercalate_splitOn n.data baseSeqSeparator
      rw [hsplit] at hn
      refine ⟨by simpa [List.intercalate, List.intersperse] using hn.symm,
        not_mem_of_mem_splitOn (show b ∈ n.data.splitOn baseSeqSeparator by rw [hsplit]; simp),
        not_mem_of_mem_splitOn (show q ∈ n.data.splitOn baseSeqSeparator by rw [hsplit]; simp)⟩
    · cases h
  · rintro ⟨hn, hb, hs⟩
    simp [parseBinlogFile, hn, splitOn_two hb hs]

theorem not_mem_of_all_isDigit {ds : List Char} {c : Char} (hd : ds.all isDigit = true)
    (hc : isDigit c = false) : c ∉ ds := by
  intro hmem
  have := List.all_eq_true.mp hd c hmem
  simp_all

theorem dot_not_mem_SuffixIntToStr (n : Nat) : '.' ∉ (SuffixIntToStr n).data :=
  not_mem_of_all_isDigit (SuffixIntToStr_all_isDigit n) (by decide)

/-- Modelled from the spec: `utils.AddSuffixForUUID` is not under src/. The relay
    writer names each sub directory `<uuid>.<SuffixIntToStr suffix>`, and the index
    lists those names. -/
def AddSuffixForUUID (uuid : String) (suffix : Nat) : String :=
  uuid ++ ⟨[uuidIndexSeparator]⟩ ++ SuffixIntToStr suffix

theorem ParseSuffixForUUID_AddSuffixForUUID {uuid : String} {n : Nat}
    (hid : uuidIndexSeparator ∉ uuid.data) (hn : n < 2 ^ 63) :
    ParseSuffixForUUID (AddSuffixForUUID uuid n) = some (uuid, (n : Int)) := by
  have hsplit : (AddSuffixForUUID uuid n).data.splitOn uuidIndexSeparator =
      [uuid.data, (SuffixIntToStr n).data] := by
    simpa [AddSuffixForUUID] using splitOn_two hid (dot_not_mem_SuffixIntToStr n)
  simp [ParseSuffixForUUID, hsplit, SuffixIntToStr_ne_nil, atoi_SuffixIntToStr hn]

theorem hasSuffix_AddSuffixForUUID {uuid : String} {k m : Nat} :
    hasSuffix (AddSuffixForUUID uuid k) (⟨[uuidIndexSeparator]⟩ ++ SuffixIntToStr m) = true ↔
      m = k := by
  constructor
  · intro h
    simp only [hasSuffix, AddSuffixForUUID, String.data_append, List.isSuffixOf_iff_suffix] at h
    have hk : uuidIndexSeparator :: (SuffixIntToStr k).data <:+
        uuid.data ++ [uuidIndexSeparator] ++ (SuffixIntToStr k).data := by
      simp
    have hm : uuidIndexSeparator :: (SuffixIntToStr m).data <:+
        uuid.data ++ [uuidIndexSeparator] ++ (SuffixIntToStr k).data := by simpa using h
    rcases Nat.lt_trichotomy (SuffixIntToStr m).data.length (SuffixIntToStr k).data.length with
      hlt | heq | hgt
    · have := List.suffix_of_suffix_length_le hm (List.suffix_append _ _) (by simpa using hlt)
      exact absurd (this.mem (List.mem_cons_self _ _)) (dot_not_mem_SuffixIntToStr k)
    · have := List.suffix_of_suffix_length_le hm hk (by simp [heq])
      have heq' := this.eq_of_length (by simp [heq])
      exact SuffixIntToStr_injective (String.ext (by simpa using heq'))
    · have hm' : (SuffixIntToStr m).data <:+ uuid.data ++ [uuidIndexSeparator] ++
          (SuffixIntToStr k).data := (List.suffix_cons _ _).trans hm
      have := List.suffix_of_suffix_length_le hk hm' (by simpa using hgt)
      exact absurd (this.mem (List.mem_cons_self _ _)) (dot_not_mem_SuffixIntToStr m)
  · rintro rfl
    simp [hasSuffix, AddSuffixForUUID, List.isSuffixOf_iff_suffix]

end Names

end dm.streamer
