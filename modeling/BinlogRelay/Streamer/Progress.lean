import BinlogRelay.Streamer.System

open dm.binlog

namespace dm.streamer

namespace Worker

variable {w : Worker} {root : RelayRoot}

/-- A waiting worker the watcher has nothing to report to: every entry of the watched
    directory is as the snapshot recorded it, or is not named like a relay log. -/
def blocked (w : Worker) (root : RelayRoot) : Bool :=
  match w.pc with
  | .waiting d _ snap =>
    ((root.subDir? d.currentUUID).map fun sub =>
      sub.files.all fun f => !(changedSince snap f && GetBinlogFileIndex f.name)).getD true
  | _ => false

theorem watch_eq_none_of_blocked (h : w.blocked root) (name : String) :
    w.watch root name = none := by
  unfold watch
  cases hpc : w.pc with
  | waiting d f snap =>
    simp only [blocked, hpc] at h
    simp only [RelayRoot.file?]
    cases hsub : root.subDir? d.currentUUID with
    | none => rfl
    | some sub =>
      cases hfile : sub.file? name with
      | none => simp [hfile]
      | some file =>
        have hname : file.name = name := by simpa using List.find?_some hfile
        simp only [hsub, Option.map_some', Option.getD_some, List.all_eq_true] at h
        have hquiet := h file (List.mem_of_find?_eq_some hfile)
        subst hname
        simp only [Bool.not_eq_true', Bool.and_eq_false_iff] at hquiet
        rcases hquiet with hc | hc <;> simp [hfile, hc]
  | _ => simp [blocked, hpc] at h

/-- A blocked worker has no move left: it takes no step and the watcher reports
    nothing, whatever the name. -/
theorem step_eq_none_of_blocked (h : w.blocked root) : w.step root = none := by
  unfold step
  cases hpc : w.pc <;> simp_all [blocked]

end Worker

/-- The relay writer opens the next relay log between the worker's end of file and its
    watch on the directory: the worker then waits for a watcher event that no write
    will cause while the newer relay log, already holding an event, is never read. -/
theorem relaySubDirUpdated_blocked_with_newer_file :
    let fd : BinlogEvent := ⟨⟨1, 1, 120, 124, 0⟩, .formatDescription⟩
    let uuid := "c6ae5afe-c7a3-11e8-a19d-0242ac130006.000001"
    let ddl : BinlogEvent := ⟨⟨1, 1, 60, 184, 0⟩, .query "CREATE TABLE t (a INT)" ⟨""⟩⟩
    let rotate : BinlogEvent := ⟨⟨1, 1, 47, 231, 0⟩, .rotate "mysql-bin.000002" 4⟩
    let s0 : System := ⟨⟨[⟨uuid, [⟨"mysql-bin.000001", [fd, ddl, rotate], 0⟩]⟩]⟩,
      ⟨⟨"/data/relay", [uuid], 0⟩, [], .relay ⟨"mysql-bin.000001", 4⟩⟩⟩
    ∃ s, System.run s0 [.work, .work, .work, .work, .work, .work, .create "mysql-bin.000002",
        .append fd, .work, .work] = some s ∧
      Worker.blocked s.worker s.root ∧ RelayRoot.file? s.root uuid "mysql-bin.000002" = some
        ⟨"mysql-bin.000002", [fd], 0⟩ :=
  ⟨_, rfl, by decide, by decide⟩

section Reparse

/-- A relay directory whose one relay log holds only the FORMAT_DESCRIPTION event the
    writer starts a file with, an event that does not move `latestPos`. -/
def reparseRoot : RelayRoot :=
  ⟨[⟨"c6ae5afe-c7a3-11e8-a19d-0242ac130006.000001",
    [⟨"mysql-bin.000001", [⟨⟨1, 1, 120, 124, 0⟩, .formatDescription⟩], 0⟩]⟩]⟩

def reparseWorker (sid : UInt32) (sent : List BinlogEvent) : Worker :=
  ⟨⟨"/data/relay", ["c6ae5afe-c7a3-11e8-a19d-0242ac130006.000001"], sid⟩, sent,
    .parse ⟨"c6ae5afe-c7a3-11e8-a19d-0242ac130006.000001", []⟩
      ⟨"mysql-bin.000001", 4, 4, "000001"⟩ (.events 4)⟩

theorem reparse_cycle (sid : UInt32) (sent : List BinlogEvent) :
    ∃ sid' sent', (System.mk reparseRoot (reparseWorker sid sent)).run
      (List.replicate 4 .work) = some ⟨reparseRoot, reparseWorker sid' sent'⟩ :=
  ⟨_, _, rfl⟩

/-- On a relay log that ends with an event that does not move `latestPos`, nobody writing,
    the worker calls `parseFile` again every four steps from the same offset and never
    reaches the watcher. -/
theorem parseFileAsPossible_reparses_unchanged_file (n : Nat) :
    ∃ sid sent, (System.mk reparseRoot
        ⟨⟨"/data/relay", ["c6ae5afe-c7a3-11e8-a19d-0242ac130006.000001"], 0⟩, [],
          .relay ⟨"mysql-bin.000001", 4⟩⟩).run (List.replicate (2 + 4 * n) .work) =
      some ⟨reparseRoot, reparseWorker sid sent⟩ := by
  induction n with
  | zero => exact ⟨_, _, rfl⟩
  | succ n ih =>
    obtain ⟨sid, sent, hrun⟩ := ih
    obtain ⟨sid', sent', hcycle⟩ := reparse_cycle sid sent
    refine ⟨sid', sent', ?_⟩
    rw [show 2 + 4 * (n + 1) = (2 + 4 * n) + 4 by omega, List.replicate_add, System.run_append,
      hrun, Option.some_bind, hcycle]

end Reparse

end dm.streamer
