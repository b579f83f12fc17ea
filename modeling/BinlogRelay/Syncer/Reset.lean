import BinlogRelay.Syncer.LocationRecorder

open dm.binlog

namespace dm.syncer

namespace LocationRecorder

/-- Two recorders agree on the positions of their end locations: the part of
    the state that no DML flag or GTID set feeds into. -/
def SamePosition (a b : LocationRecorder) : Prop :=
  a.curEndLocation.position = b.curEndLocation.position

/-- Two recorders agree on everything `update` reads. -/
def SameCore (a b : LocationRecorder) : Prop :=
  a.curEndLocation = b.curEndLocation ∧ a.txnEndLocation = b.txnEndLocation ∧ a.inDML = b.inDML

/-- A position-advancing XID event or `COMMIT` query: after it the DML flag is
    false and the transaction end is the current end, whatever came before. -/
def ClearsDML (e : BinlogEvent) : Prop :=
  shouldUpdatePos e = true ∧
    ((∃ g, e.body = .xid g) ∨ ∃ q g, e.body = .query q g ∧ trimSpace q = "COMMIT")

variable {a b : LocationRecorder} {e : BinlogEvent}

theorem SamePosition.update (h : SamePosition a b) : SamePosition (a.update e) (b.update e) := by
  unfold SamePosition at *
  simp only [update_curEndLocation_position, h]

theorem SameCore.update_eq (h : SameCore a b) : a.update e = b.update e := by
  obtain ⟨_, _, _, _⟩ := a
  obtain ⟨_, _, _, _⟩ := b
  obtain ⟨rfl, rfl, rfl⟩ := h
  rfl

theorem SameCore.update (h : SameCore a b) : SameCore (a.update e) (b.update e) := by
  rw [h.update_eq]
  exact ⟨rfl, rfl, rfl⟩

theorem SamePosition.update_of_clearsDML (h : SamePosition a b) (hc : ClearsDML e) :
    SameCore (a.update e) (b.update e) := by
  obtain ⟨hs, ⟨g, hb⟩ | ⟨q, g, hb, hq⟩⟩ := hc
  · simp only [update_xid hs hb]
    exact ⟨by rw [h], by rw [h], rfl⟩
  · have hdml : ∀ dml, queryInDML q dml = false := by simp [queryInDML, hq]
    simp only [update_query hs hb, hdml, Bool.false_eq_true, ↓reduceIte]
    exact ⟨by rw [h], by rw [h], rfl⟩

theorem SamePosition.updateAll (h : SamePosition a b) (es : List BinlogEvent) :
    SamePosition (a.updateAll es) (b.updateAll es) := by
  induction es generalizing a b with
  | nil => exact h
  | cons e es ih => exact ih h.update

theorem SameCore.updateAll (h : SameCore a b) (es : List BinlogEvent) :
    SameCore (a.updateAll es) (b.updateAll es) := by
  induction es generalizing a b with
  | nil => exact h
  | cons e es ih => exact ih h.update

/-- `reset` does not clear the DML flag: a recorder whose previous stream ended
    inside a statement-mode DML transaction does not save the transaction end at
    the next DDL query, while a clean one does. -/
theorem reset_keeps_inDML_counterexample :
    ¬ ∀ (s1 s2 : LocationRecorder) (loc : Location) (es : List BinlogEvent), ∀ p, p <+: es →
      ((s1.reset loc).updateAll p).curStartLocation = ((s2.reset loc).updateAll p).curStartLocation ∧
      ((s1.reset loc).updateAll p).curEndLocation = ((s2.reset loc).updateAll p).curEndLocation ∧
      ((s1.reset loc).updateAll p).txnEndLocation = ((s2.reset loc).updateAll p).txnEndLocation := by
  intro h
  let loc : Location := ⟨⟨"mysql-bin.000001", 4⟩, ⟨""⟩⟩
  let ddl : BinlogEvent := ⟨⟨1, 1, 40, 44, 0⟩, .query "DROP TABLE t" ⟨"u:1"⟩⟩
  have := (h ⟨loc, loc, loc, true⟩ ⟨loc, loc, loc, false⟩ loc [ddl] [ddl] (List.prefix_refl _)).2.2
  revert this
  decide

/-- After `reset`, the previous stream reaches later locations only through the DML flag:
    end positions never depend on it, equal flags give identical runs, and from the first
    XID event or `COMMIT` query on the two runs agree. -/
theorem reset_removes_all_but_inDML (s1 s2 : LocationRecorder) (loc : Location)
    (p : List BinlogEvent) :
      let r1 := (s1.reset loc).updateAll p
      let r2 := (s2.reset loc).updateAll p
      (r1.curStartLocation.position = r2.curStartLocation.position ∧
        r1.curEndLocation.position = r2.curEndLocation.position) ∧
      (s1.inDML = s2.inDML → r1 = r2) ∧
      (∀ q e r, p = q ++ e :: r → ClearsDML e →
        r1.curEndLocation = r2.curEndLocation ∧ r1.txnEndLocation = r2.txnEndLocation ∧
          r1.inDML = r2.inDML) := by
  have hpos : SamePosition (s1.reset loc) (s2.reset loc) := rfl
  refine ⟨⟨?_, (hpos.updateAll p)⟩, ?_, ?_⟩
  · cases p using List.reverseRecOn with
    | nil => rfl
    | append_singleton p e _ =>
      simpa only [updateAll_append, updateAll_cons, updateAll_nil, update_curStartLocation]
        using hpos.updateAll p
  · intro hdml
    have hsame : s1.reset loc = s2.reset loc := by cases s1; cases s2; simp_all [reset]
    rw [hsame]
  · rintro q e r rfl hc
    simp only [updateAll_append, updateAll_cons]
    exact ((hpos.updateAll q).update_of_clearsDML hc).updateAll r

end LocationRecorder

end dm.syncer
