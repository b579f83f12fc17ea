import BinlogRelay.Binlog.Event

open dm.binlog

namespace dm.syncer

/-- `locationRecorder`, without its mutex: `update` and `reset` are modelled as
    atomic, which is what holding `mu` for the whole body gives. -/
structure LocationRecorder where
  curStartLocation : Location
  curEndLocation : Location
  txnEndLocation : Location
  inDML : Bool
  deriving DecidableEq, Repr

/-- `shouldUpdatePos`: false for header, heartbeat and other events that do not
    come from a real upstream write. -/
def shouldUpdatePos (e : BinlogEvent) : Bool :=
  match e.body with
  | .formatDescription | .heartbeat | .ignorable | .previousGTIDs | .mariadbGTIDList => false
  | _ => e.header.flags &&& LOG_EVENT_ARTIFICIAL_F == 0

/-- Go's `unicode.IsSpace`, the test `strings.TrimSpace` trims by. -/
def isSpace (c : Char) : Bool :=
  c = '\t' || c = '\n' || c = '\x0b' || c = '\x0c' || c = '\r' || c = ' ' ||
  c = '\x85' || c = '\xa0' || c = '\u1680' || ('\u2000' ≤ c && c ≤ '\u200a') ||
  c = '\u2028' || c = '\u2029' || c = '\u202f' || c = '\u205f' || c = '\u3000'

/-- `strings.TrimSpace`. -/
def trimSpace (s : String) : String :=
  ⟨((s.data.dropWhile isSpace).reverse.dropWhile isSpace).reverse⟩

/-- The DML flag after a query event: `BEGIN` opens a statement-mode DML
    transaction, `COMMIT` closes it, any other statement leaves the flag. -/
def queryInDML (query : String) (inDML : Bool) : Bool :=
  match trimSpace query with
  | "BEGIN" => true
  | "COMMIT" => false
  | _ => inDML

namespace LocationRecorder

def reset (l : LocationRecorder) (loc : Location) : LocationRecorder :=
  { l with curStartLocation := loc, curEndLocation := loc, txnEndLocation := loc }

def saveTxnEndLocation (l : LocationRecorder) : LocationRecorder :=
  { l with txnEndLocation := l.curEndLocation }

def setCurrentGTID (l : LocationRecorder) (gset : GTIDSet) : LocationRecorder :=
  { l with curEndLocation := { l.curEndLocation with gtidSet := gset } }

/-- `update`: move the start location to the previous end, then advance the end
    location and, at the last event of a transaction, the transaction end. -/
def update (l : LocationRecorder) (e : BinlogEvent) : LocationRecorder :=
  let l := { l with curStartLocation := l.curEndLocation }
  if !shouldUpdatePos e then l else
  match e.body with
  | .rotate nextLogName _ =>
    if l.curEndLocation.position.name ≠ nextLogName then
      saveTxnEndLocation { l with curEndLocation :=
        { l.curEndLocation with position := ⟨nextLogName, FileHeaderLen⟩ } }
    else l
  | body =>
    let l := { l with curEndLocation := { l.curEndLocation with
      position := { l.curEndLocation.position with pos := e.header.logPos } } }
    match body with
    | .xid gset => { (l.setCurrentGTID gset).saveTxnEndLocation with inDML := false }
    | .query query gset =>
      let l := { l with inDML := queryInDML query l.inDML }
      if l.inDML then l else (l.setCurrentGTID gset).saveTxnEndLocation
    | .mariadbGTID isDDL => if !isDDL then { l with inDML := true } else l
    | _ => l

/-- Feed the recorder a sequence of events, one `update` each. -/
def updateAll (l : LocationRecorder) (es : List BinlogEvent) : LocationRecorder :=
  es.foldl update l

@[simp] theorem updateAll_nil (l : LocationRecorder) : l.updateAll [] = l := rfl

@[simp] theorem updateAll_append (l : LocationRecorder) (es es' : List BinlogEvent) :
    l.updateAll (es ++ es') = (l.updateAll es).updateAll es' := List.foldl_append ..

@[simp] theorem updateAll_cons (l : LocationRecorder) (e : BinlogEvent) (es : List BinlogEvent) :
    l.updateAll (e :: es) = (l.update e).updateAll es := rfl

@[simp] theorem reset_curStartLocation (l : LocationRecorder) (loc : Location) :
    (l.reset loc).curStartLocation = loc := rfl

@[simp] theorem reset_curEndLocation (l : LocationRecorder) (loc : Location) :
    (l.reset loc).curEndLocation = loc := rfl

@[simp] theorem reset_txnEndLocation (l : LocationRecorder) (loc : Location) :
    (l.reset loc).txnEndLocation = loc := rfl

@[simp] theorem reset_inDML (l : LocationRecorder) (loc : Location) :
    (l.reset loc).inDML = l.inDML := rfl

variable {l : LocationRecorder} {e : BinlogEvent}

theorem update_of_shouldUpdatePos_false (h : shouldUpdatePos e = false) :
    l.update e = { l with curStartLocation := l.curEndLocation } := by
  simp [update, h]

theorem update_rotate (h : shouldUpdatePos e = true) {n : String} {p : Nat}
    (hb : e.body = .rotate n p) :
    l.update e = if l.curEndLocation.position.name ≠ n then
      { l with curStartLocation := l.curEndLocation,
               curEndLocation := { l.curEndLocation with position := ⟨n, FileHeaderLen⟩ },
               txnEndLocation := { l.curEndLocation with position := ⟨n, FileHeaderLen⟩ } }
    else { l with curStartLocation := l.curEndLocation } := by
  simp only [update, h, hb, Bool.not_true, Bool.false_eq_true, ↓reduceIte]
  split <;> rfl

theorem update_xid (h : shouldUpdatePos e = true) {g : GTIDSet} (hb : e.body = .xid g) :
    l.update e =
      { curStartLocation := l.curEndLocation,
        curEndLocation := ⟨⟨l.curEndLocation.position.name, e.header.logPos⟩, g⟩,
        txnEndLocation := ⟨⟨l.curEndLocation.position.name, e.header.logPos⟩, g⟩,
        inDML := false } := by
  simp only [update, h, hb, Bool.not_true, Bool.false_eq_true, ↓reduceIte]
  rfl

theorem update_query (h : shouldUpdatePos e = true) {q : String} {g : GTIDSet}
    (hb : e.body = .query q g) :
    l.update e = if queryInDML q l.inDML then
      { l with curStartLocation := l.curEndLocation,
               curEndLocation := { l.curEndLocation with
                 position := ⟨l.curEndLocation.position.name, e.header.logPos⟩ },
               inDML := true }
    else
      { curStartLocation := l.curEndLocation,
        curEndLocation := ⟨⟨l.curEndLocation.position.name, e.header.logPos⟩, g⟩,
        txnEndLocation := ⟨⟨l.curEndLocation.position.name, e.header.logPos⟩, g⟩,
        inDML := false } := by
  simp only [update, h, hb, Bool.not_true, Bool.false_eq_true, ↓reduceIte]
  cases queryInDML q l.inDML <;> rfl

theorem update_mariadbGTID (h : shouldUpdatePos e = true) {ddl : Bool}
    (hb : e.body = .mariadbGTID ddl) :
    l.update e =
      { l with curStartLocation := l.curEndLocation,
               curEndLocation := { l.curEndLocation with
                 position := ⟨l.curEndLocation.position.name, e.header.logPos⟩ },
               inDML := !ddl || l.inDML } := by
  simp only [update, h, hb, Bool.not_true, Bool.false_eq_true, ↓reduceIte]
  cases ddl <;> rfl

theorem update_other (h : shouldUpdatePos e = true)
    (hr : ∀ n p, e.body ≠ .rotate n p) (hx : ∀ g, e.body ≠ .xid g)
    (hq : ∀ q g, e.body ≠ .query q g) (hm : ∀ ddl, e.body ≠ .mariadbGTID ddl) :
    l.update e =
      { l with curStartLocation := l.curEndLocation,
               curEndLocation := { l.curEndLocation with
                 position := ⟨l.curEndLocation.position.name, e.header.logPos⟩ } } := by
  unfold update
  split
  · simp_all
  · split
    · exact absurd ‹_› (hr _ _)
    · split
      · exact absurd ‹_› (hx _)
      · exact absurd ‹_› (hq _ _)
      · exact absurd ‹_› (hm _)
      · rfl

@[simp] theorem update_curStartLocation : (l.update e).curStartLocation = l.curEndLocation := by
  unfold update
  dsimp only
  split
  · rfl
  · split
    · split <;> rfl
    · split
      · rfl
      · split <;> rfl
      · split <;> rfl
      · rfl

theorem update_curEndLocation_position :
    (l.update e).curEndLocation.position =
      if shouldUpdatePos e then
        match e.body with
        | .rotate n _ =>
          if l.curEndLocation.position.name ≠ n then ⟨n, FileHeaderLen⟩
          else l.curEndLocation.position
        | _ => ⟨l.curEndLocation.position.name, e.header.logPos⟩
      else l.curEndLocation.position := by
  cases hs : shouldUpdatePos e
  · simp [update_of_shouldUpdatePos_false hs]
  · rcases hb : e.body with _ | _ | _ | _ | _ | ⟨n, p⟩ | g | ⟨q, g⟩ | ddl | _
    all_goals try (simp [shouldUpdatePos, hb] at hs; done)
    · rw [update_rotate hs hb]
      split <;> simp_all
    · simp [update_xid hs hb]
    · rw [update_query hs hb]
      split <;> simp
    · simp [update_mariadbGTID hs hb]
    · simp [update_other hs (by simp [hb]) (by simp [hb]) (by simp [hb]) (by simp [hb])]

end LocationRecorder

end dm.syncer
