import BinlogRelay.Syncer.LocationRecorder

open dm.binlog

namespace dm.syncer

/-- The classes of events the transaction grammar is written over: what `update`
    distinguishes, with a query classified by its trimmed text. -/
inductive TxEventKind
  | noise | rotate | xid | begin | commit | query | mariadbDML | mariadbDDL | other
  deriving DecidableEq, Repr

/-- The class of an event. Noise is every event `shouldUpdatePos` rejects; `other`
    is every position-advancing event that is not a query, an XID, a rotation or
    a MariaDB GTID event. -/
def txEventKind (e : BinlogEvent) : TxEventKind :=
  if shouldUpdatePos e then
    match e.body with
    | .rotate .. => .rotate
    | .xid _ => .xid
    | .query q _ =>
      match trimSpace q with
      | "BEGIN" => .begin
      | "COMMIT" => .commit
      | _ => .query
    | .mariadbGTID ddl => if ddl then .mariadbDDL else .mariadbDML
    | _ => .other
  else .noise

/-- A transaction body event: position-advancing, and not a rotation, an XID, a
    MariaDB GTID event or `COMMIT`. -/
def IsBody (e : BinlogEvent) : Prop :=
  txEventKind e = .begin ∨ txEventKind e = .query ∨ txEventKind e = .other

/-- The last event of a DML transaction: an XID event or a `COMMIT` query. -/
def IsTxEnd (e : BinlogEvent) : Prop :=
  txEventKind e = .xid ∨ txEventKind e = .commit

/-- One transaction, noise removed: MySQL DML `[H] BEGIN Body* End`, MySQL DDL
    `[H] Query(q)`, MariaDB DML `GTID(not DDL) Body* End` and MariaDB DDL
    `GTID(DDL) Query(q)`, where `q` is neither `BEGIN` nor `COMMIT`. -/
inductive TxShape : List BinlogEvent → Prop
  | mysqlDML {h : Option BinlogEvent} {b c : BinlogEvent} {body : List BinlogEvent} :
      (∀ x ∈ h, txEventKind x = .other) → txEventKind b = .begin → (∀ x ∈ body, IsBody x) →
      IsTxEnd c → TxShape (h.toList ++ b :: body ++ [c])
  | mysqlDDL {h : Option BinlogEvent} {q : BinlogEvent} :
      (∀ x ∈ h, txEventKind x = .other) → txEventKind q = .query → TxShape (h.toList ++ [q])
  | mariadbDML {g c : BinlogEvent} {body : List BinlogEvent} :
      txEventKind g = .mariadbDML → (∀ x ∈ body, IsBody x) → IsTxEnd c →
      TxShape (g :: body ++ [c])
  | mariadbDDL {g q : BinlogEvent} :
      txEventKind g = .mariadbDDL → txEventKind q = .query → TxShape [g, q]

/-- `(Tx | Rotate)*` over noise-free event lists. -/
inductive StreamShape : List BinlogEvent → Prop
  | nil : StreamShape []
  | tx {s t : List BinlogEvent} : StreamShape s → TxShape t → StreamShape (s ++ t)
  | rotate {s : List BinlogEvent} {r : BinlogEvent} :
      StreamShape s → txEventKind r = .rotate → StreamShape (s ++ [r])

def coreEvents (s : List BinlogEvent) : List BinlogEvent :=
  s.filter (fun e => shouldUpdatePos e)

/-- `Stream ::= (Tx | Rotate | Noise)*`, noise allowed anywhere, inside a `Tx` too.
    The same predicate on a prefix says the prefix ends between two units. -/
def WellFormedStream (s : List BinlogEvent) : Prop :=
  StreamShape (coreEvents s)

/-- The state of a left-to-right recogniser of `WellFormedStream`: between units,
    after a MySQL GTID event, inside a DML transaction, or after a MariaDB DDL
    GTID event. -/
inductive TxPhase
  | top | afterH | inTx | ddlQuery
  deriving DecidableEq, Repr

namespace TxPhase

def next : TxPhase → TxEventKind → Option TxPhase
  | φ, .noise => some φ
  | .top, .other => some .afterH
  | .top, .begin => some .inTx
  | .top, .query => some .top
  | .top, .mariadbDML => some .inTx
  | .top, .mariadbDDL => some .ddlQuery
  | .top, .rotate => some .top
  | .afterH, .begin => some .inTx
  | .afterH, .query => some .top
  | .inTx, .xid => some .top
  | .inTx, .commit => some .top
  | .inTx, .begin => some .inTx
  | .inTx, .query => some .inTx
  | .inTx, .other => some .inTx
  | .ddlQuery, .query => some .top
  | _, _ => none

def run : TxPhase → List BinlogEvent → Option TxPhase
  | φ, [] => some φ
  | φ, e :: es => (φ.next (txEventKind e)).bind (·.run es)

@[simp] theorem run_nil (φ : TxPhase) : φ.run [] = some φ := rfl

@[simp] theorem run_cons (φ : TxPhase) (e : BinlogEvent) (es : List BinlogEvent) :
    φ.run (e :: es) = (φ.next (txEventKind e)).bind (·.run es) := rfl

theorem run_append (φ : TxPhase) (s t : List BinlogEvent) :
    φ.run (s ++ t) = (φ.run s).bind (·.run t) := by
  induction s generalizing φ with
  | nil => rfl
  | cons e s ih => cases h : φ.next (txEventKind e) <;> simp [h, ih]

theorem run_singleton (φ : TxPhase) (e : BinlogEvent) :
    φ.run [e] = φ.next (txEventKind e) := by
  cases h : φ.next (txEventKind e) <;> simp [h]

theorem run_coreEvents (φ : TxPhase) (s : List BinlogEvent) : φ.run (coreEvents s) = φ.run s := by
  induction s generalizing φ with
  | nil => rfl
  | cons e s ih =>
    by_cases h : shouldUpdatePos e
    · simp [coreEvents, List.filter_cons, h, ← ih]
    · have hk : txEventKind e = .noise := by simp [txEventKind, h]
      simp [coreEvents, List.filter_cons, h, hk, next, ← ih]

end TxPhase

section Kinds

variable {e : BinlogEvent}

theorem txEventKind_noise : txEventKind e = .noise ↔ shouldUpdatePos e = false := by
  unfold txEventKind
  split
  · simp_all only [true_iff, Bool.true_eq_false, iff_false]
    split <;> (try split) <;> simp
  · simp_all

theorem txEventKind_advances (h : txEventKind e ≠ .noise) : shouldUpdatePos e = true := by
  simpa [txEventKind_noise] using h

theorem txEventKind_rotate (h : txEventKind e = .rotate) :
    ∃ n p, e.body = .rotate n p := by
  unfold txEventKind at h
  split at h
  · split at h <;> (try split at h) <;> simp_all
  · cases h

theorem txEventKind_xid (h : txEventKind e = .xid) : ∃ g, e.body = .xid g := by
  unfold txEventKind at h
  split at h
  · split at h <;> (try split at h) <;> simp_all
  · cases h

theorem txEventKind_query_text {k : TxEventKind} (h : txEventKind e = k)
    (hk : k = .begin ∨ k = .commit ∨ k = .query) :
    ∃ q g, e.body = .query q g ∧ queryInDML q true = (k != .commit) ∧
      queryInDML q false = (k == .begin) := by
  unfold txEventKind at h
  split at h
  · split at h
    · subst h; simp at hk
    · subst h; simp at hk
    · rename_i q g hb
      refine ⟨q, g, hb, ?_⟩
      split at h <;> subst h <;> simp_all [queryInDML]
    · split at h <;> subst h <;> simp at hk
    · subst h; simp at hk
  · subst h; simp at hk

theorem txEventKind_mariadbGTID {k : TxEventKind} (h : txEventKind e = k)
    (hk : k = .mariadbDML ∨ k = .mariadbDDL) :
    e.body = .mariadbGTID (k == .mariadbDDL) := by
  unfold txEventKind at h
  split at h
  · split at h
    · subst h; simp at hk
    · subst h; simp at hk
    · split at h <;> subst h <;> simp at hk
    · rename_i ddl hb
      cases ddl <;> simp at h <;> subst h <;> simp [hb]
    · subst h; simp at hk
  · subst h; simp at hk

theorem txEventKind_other (h : txEventKind e = .other) :
    (∀ n p, e.body ≠ .rotate n p) ∧ (∀ g, e.body ≠ .xid g) ∧ (∀ q g, e.body ≠ .query q g) ∧
      ∀ ddl, e.body ≠ .mariadbGTID ddl := by
  unfold txEventKind at h
  split at h
  · split at h
    · cases h
    · cases h
    · split at h <;> cases h
    · split at h <;> cases h
    · rename_i hr hx hq hm
      exact ⟨hr, hx, hq, hm⟩
  · cases h

end Kinds

namespace LocationRecorder

variable {l : LocationRecorder} {e : BinlogEvent}

/-- What `update` does to the transaction end and the DML flag, by event class. -/
def KindEffect (l l' : LocationRecorder) : TxEventKind → Prop
  | .noise => l' = { l with curStartLocation := l.curEndLocation }
  | .rotate => l'.inDML = l.inDML ∧ (l'.txnEndLocation = l'.curEndLocation ∨
      l'.txnEndLocation = l.txnEndLocation ∧ l'.curEndLocation = l.curEndLocation)
  | .xid | .commit => l'.txnEndLocation = l'.curEndLocation ∧ l'.inDML = false
  | .begin | .mariadbDML => l'.txnEndLocation = l.txnEndLocation ∧ l'.inDML = true
  | .query => if l.inDML then l'.txnEndLocation = l.txnEndLocation ∧ l'.inDML = true
      else l'.txnEndLocation = l'.curEndLocation ∧ l'.inDML = false
  | .mariadbDDL | .other => l'.txnEndLocation = l.txnEndLocation ∧ l'.inDML = l.inDML

theorem update_kindEffect : KindEffect l (l.update e) (txEventKind e) := by
  cases hk : txEventKind e with
  | noise => exact update_of_shouldUpdatePos_false (txEventKind_noise.mp hk)
  | rotate =>
    obtain ⟨n, p, hb⟩ := txEventKind_rotate hk
    simp only [KindEffect, update_rotate (txEventKind_advances (by simp [hk])) hb]
    split <;> simp
  | xid =>
    obtain ⟨g, hb⟩ := txEventKind_xid hk
    simp [KindEffect, update_xid (txEventKind_advances (by simp [hk])) hb]
  | mariadbDML | mariadbDDL =>
    have hb := txEventKind_mariadbGTID hk (by simp)
    simp [KindEffect, update_mariadbGTID (txEventKind_advances (by simp [hk])) hb]
  | other =>
    obtain ⟨hr, hx, hq, hm⟩ := txEventKind_other hk
    simp [KindEffect, update_other (txEventKind_advances (by simp [hk])) hr hx hq hm]
  | begin | commit | query =>
    obtain ⟨q, g, hb, htrue, hfalse⟩ := txEventKind_query_text hk (by simp)
    simp only [KindEffect, update_query (txEventKind_advances (by simp [hk])) hb]
    cases hdml : l.inDML <;> simp_all

end LocationRecorder

namespace TxPhase

variable {φ φ' : TxPhase} {c : List BinlogEvent}

theorem run_body {body : List BinlogEvent} (h : ∀ x ∈ body, IsBody x) :
    inTx.run body = some .inTx := by
  induction body with
  | nil => rfl
  | cons x body ih =>
    have hrest := ih fun y hy => h y (List.mem_cons_of_mem x hy)
    obtain hx | hx | hx := h x (List.mem_cons_self x body) <;> simp [hx, next, hrest]

theorem run_txShape {t : List BinlogEvent} (ht : TxShape t) : top.run t = some .top := by
  cases ht with
  | @mysqlDML h b c body hh hb hbody hc =>
    rcases h with _ | x <;> rcases hc with hc | hc <;>
      simp [run_append, hb, hc, hh, next, run_body hbody]
  | @mysqlDDL h q hh hq => rcases h with _ | x <;> simp [run_append, hh, hq, next]
  | mariadbDML hg hbody hc =>
    rcases hc with hc | hc <;> simp [run_append, hg, hc, next, run_body hbody]
  | mariadbDDL hg hq => simp [hg, hq, next]

theorem run_streamShape (hc : StreamShape c) : top.run c = some .top := by
  induction hc with
  | nil => rfl
  | tx _ ht ih => rw [run_append, ih]; exact run_txShape ht
  | rotate _ hr ih => rw [run_append, ih]; simp [hr, next]

/-- A transaction opener: `[H] BEGIN` or a MariaDB DML GTID event. -/
def TxOpener (o : List BinlogEvent) : Prop :=
  (∃ (h : Option BinlogEvent) (b : BinlogEvent), (∀ x ∈ h, txEventKind x = .other) ∧ txEventKind b = .begin ∧
      o = h.toList ++ [b]) ∨
    ∃ g, txEventKind g = .mariadbDML ∧ o = [g]

/-- The noise-free lists the recogniser takes from between two units to a phase. -/
def Reaches : TxPhase → List BinlogEvent → Prop
  | .top, c => StreamShape c
  | .afterH, c => ∃ s h, StreamShape s ∧ txEventKind h = .other ∧ c = s ++ [h]
  | .inTx, c => ∃ s o body, StreamShape s ∧ TxOpener o ∧ (∀ x ∈ body, IsBody x) ∧
      c = s ++ o ++ body
  | .ddlQuery, c => ∃ s g, StreamShape s ∧ txEventKind g = .mariadbDDL ∧ c = s ++ [g]

theorem Reaches.step {e : BinlogEvent} (hr : φ.Reaches c) (hk : txEventKind e ≠ .noise)
    (hn : φ.next (txEventKind e) = some φ') : φ'.Reaches (c ++ [e]) := by
  cases φ <;> cases he : txEventKind e <;>
    simp only [he, next, Option.some.injEq, reduceCtorEq, ne_eq, not_true_eq_false] at hn hk <;>
    subst hn <;> simp only [Reaches] at hr ⊢
  -- from between two units
  · exact .rotate hr he
  · exact ⟨c, [e], [], hr, .inl ⟨none, e, by simp, he, rfl⟩, by simp, by simp⟩
  · simpa using StreamShape.tx hr (.mysqlDDL (h := none) (by simp) he)
  · exact ⟨c, [e], [], hr, .inr ⟨e, he, rfl⟩, by simp, by simp⟩
  · exact ⟨c, e, hr, he, rfl⟩
  · exact ⟨c, e, hr, he, rfl⟩
  -- after a MySQL GTID event
  · obtain ⟨s, h, hs, hh, rfl⟩ := hr
    exact ⟨s, [h, e], [], hs, .inl ⟨some h, e, by simpa using hh, he, rfl⟩, by simp, by simp⟩
  · obtain ⟨s, h, hs, hh, rfl⟩ := hr
    simpa using StreamShape.tx hs (.mysqlDDL (h := some h) (by simpa using hh) he)
  -- inside a DML transaction: an end event, or one more body event
  all_goals try
    obtain ⟨s, o, body, hs, ho, hbody, rfl⟩ := hr
    first
      | (have hend : IsTxEnd e := by simp [IsTxEnd, he]
         rcases ho with ⟨h, b, hh, hb, rfl⟩ | ⟨g, hg, rfl⟩
         · simpa using StreamShape.tx hs (.mysqlDML hh hb hbody hend)
         · simpa using StreamShape.tx hs (.mariadbDML hg hbody hend))
      | (refine ⟨s, o, body ++ [e], hs, ho, ?_, by simp⟩
         intro x hx
         rcases List.mem_append.mp hx with hx | hx
         · exact hbody x hx
         · simp only [List.mem_singleton] at hx; subst hx; simp [IsBody, he])
  -- after a MariaDB DDL GTID event
  obtain ⟨s, g, hs, hg, rfl⟩ := hr
  simpa using StreamShape.tx hs (.mariadbDDL hg he)

theorem reaches_of_run (hc : ∀ x ∈ c, shouldUpdatePos x = true) (hr : top.run c = some φ) :
    φ.Reaches c := by
  induction c using List.reverseRecOn generalizing φ with
  | nil => cases hr; exact .nil
  | append_singleton c e ih =>
    rw [run_append] at hr
    cases hrc : top.run c with
    | none => simp [hrc] at hr
    | some ψ =>
      simp only [hrc, Option.bind_some, run_singleton] at hr
      have hk : txEventKind e ≠ .noise := by
        simp [txEventKind_noise, hc e (by simp)]
      exact (ih (fun x hx => hc x (by simp [hx])) hrc).step hk hr

theorem wellFormedStream_iff_run (s : List BinlogEvent) :
    WellFormedStream s ↔ top.run s = some .top := by
  rw [← run_coreEvents]
  exact ⟨run_streamShape, reaches_of_run (by simp [coreEvents])⟩

/-- The recorder's state in each phase of the recogniser. -/
def Inv : TxPhase → LocationRecorder → Prop
  | .top, l => l.txnEndLocation = l.curEndLocation ∧ l.inDML = false
  | .afterH, l | .ddlQuery, l => l.inDML = false
  | .inTx, l => l.inDML = true

theorem Inv.update {l : LocationRecorder} {e : BinlogEvent} (hi : φ.Inv l)
    (hn : φ.next (txEventKind e) = some φ') :
    φ'.Inv (l.update e) ∧ (φ' ≠ .top → (l.update e).txnEndLocation = l.txnEndLocation) := by
  have he := l.update_kindEffect (e := e)
  cases φ <;> cases hk : txEventKind e <;> simp only [hk, next, Option.some.injEq, reduceCtorEq] at hn <;>
    subst hn <;> rw [hk] at he <;> simp only [LocationRecorder.KindEffect] at he <;>
    simp only [Inv] at hi ⊢
  all_goals first
    | (rw [he]; simpa using hi)
    | (obtain ⟨hd, ht | ⟨ht, hc⟩⟩ := he
       · simp_all
       · simp_all)
    | simp_all

theorem Inv.updateAll {l : LocationRecorder} {p : List BinlogEvent} (hi : φ.Inv l)
    (hr : φ.run p = some φ') : φ'.Inv (l.updateAll p) := by
  induction p generalizing φ l with
  | nil => cases hr; exact hi
  | cons e p ih =>
    simp only [run_cons] at hr
    cases hn : φ.next (txEventKind e) with
    | none => simp [hn] at hr
    | some ψ =>
      simp only [hn, Option.bind_some] at hr
      exact ih (hi.update hn).1 hr

end TxPhase

/-- Fed a prefix of a well-formed stream after a reset, the recorder moves its transaction
    end only at the event that closes a transaction or a rotation, and there to the
    current end with the DML flag clear. -/
theorem update_txnEnd_only_at_unit_end (s : List BinlogEvent) (hs : WellFormedStream s)
    (l : LocationRecorder) (hl : l.inDML = false) (loc : Location)
    (p : List BinlogEvent) (e : BinlogEvent) (hp : p ++ [e] <+: s) :
    let before := (l.reset loc).updateAll p
    let after := before.update e
    (WellFormedStream (p ++ [e]) →
        after.txnEndLocation = after.curEndLocation ∧ after.inDML = false) ∧
      (¬ WellFormedStream (p ++ [e]) → after.txnEndLocation = before.txnEndLocation) := by
  obtain ⟨r, rfl⟩ := hp
  simp only [TxPhase.wellFormedStream_iff_run, TxPhase.run_append, TxPhase.run_singleton] at hs
  cases hrp : TxPhase.top.run p with
  | none => simp [hrp] at hs
  | some φ =>
    cases hn : φ.next (txEventKind e) with
    | none => simp [hrp, hn] at hs
    | some φ' =>
      have hi : φ.Inv ((l.reset loc).updateAll p) :=
        TxPhase.Inv.updateAll (φ := .top) ⟨rfl, hl⟩ hrp
      have hwf : WellFormedStream (p ++ [e]) ↔ φ' = .top := by
        simp [TxPhase.wellFormedStream_iff_run, TxPhase.run_append, hrp, TxPhase.run_singleton, hn]
      obtain ⟨hi', hkeep⟩ := hi.update hn
      rw [hwf]
      exact ⟨fun h => by subst h; exact hi', hkeep⟩

/-- `BEGIN` then an XID event: the stream is well formed, `BEGIN` leaves the transaction end
    at the reset location, and the XID event moves it to the end location it reached,
    offset 95 with the XID event's GTID set. -/
theorem update_txnEnd_at_xid_example :
    let loc : Location := ⟨⟨"mysql-bin.000001", 4⟩, ⟨""⟩⟩
    let b : BinlogEvent := ⟨⟨1, 1, 60, 64, 0⟩, .query " BEGIN" ⟨""⟩⟩
    let x : BinlogEvent := ⟨⟨1, 1, 31, 95, 0⟩, .xid ⟨"u:1"⟩⟩
    let before := (LocationRecorder.reset ⟨loc, loc, loc, false⟩ loc).updateAll [b]
    let after := before.update x
    WellFormedStream [b, x] ∧ before.txnEndLocation = loc ∧
      after.curEndLocation = ⟨⟨"mysql-bin.000001", 95⟩, ⟨"u:1"⟩⟩ ∧
      after.txnEndLocation = ⟨⟨"mysql-bin.000001", 95⟩, ⟨"u:1"⟩⟩ ∧
      (WellFormedStream ([b] ++ [x]) →
        after.txnEndLocation = after.curEndLocation ∧ after.inDML = false) :=
  have hwf := (TxPhase.wellFormedStream_iff_run _).mpr (by decide)
  ⟨hwf, rfl, rfl, rfl, (update_txnEnd_only_at_unit_end _ hwf _ rfl _ _ _ (List.prefix_refl _)).1⟩

/-- Fed a prefix of a well-formed stream after a reset, the recorder's `inDML` is set
    exactly when the prefix ends inside a DML transaction. -/
theorem inDML_iff_inTx (s : List BinlogEvent) (hs : WellFormedStream s)
    (l : LocationRecorder) (hl : l.inDML = false) (loc : Location)
    (p : List BinlogEvent) (hp : p <+: s) :
    ((l.reset loc).updateAll p).inDML = true ↔ TxPhase.top.run p = some .inTx := by
  obtain ⟨r, rfl⟩ := hp
  rw [TxPhase.wellFormedStream_iff_run, TxPhase.run_append] at hs
  cases hrp : TxPhase.top.run p with
  | none => simp [hrp] at hs
  | some φ =>
    have hi : φ.Inv ((l.reset loc).updateAll p) :=
      TxPhase.Inv.updateAll (φ := .top) ⟨rfl, hl⟩ hrp
    cases φ <;> simp_all [TxPhase.Inv]

/-- Inside `BEGIN` ... XID the flag is set, and the XID event clears it. -/
theorem inDML_iff_inTx_example :
    let loc : Location := ⟨⟨"mysql-bin.000001", 4⟩, ⟨""⟩⟩
    let b : BinlogEvent := ⟨⟨1, 1, 60, 64, 0⟩, .query " BEGIN" ⟨""⟩⟩
    let x : BinlogEvent := ⟨⟨1, 1, 31, 95, 0⟩, .xid ⟨"u:1"⟩⟩
    let l : LocationRecorder := ⟨loc, loc, loc, false⟩
    WellFormedStream [b, x] ∧ [b] <+: [b, x] ∧
      (((l.reset loc).updateAll [b]).inDML = true ↔ TxPhase.top.run [b] = some .inTx) :=
  have hwf := (TxPhase.wellFormedStream_iff_run _).mpr (by decide)
  ⟨hwf, ⟨[_], rfl⟩, inDML_iff_inTx _ hwf _ rfl _ _ ⟨[_], rfl⟩⟩

end dm.syncer
