import TruthTables.CommandLine.Run
import TruthTables.Proofs.Journals

namespace TruthTables.CommandLine

variable {convention : Convention} {openFile : Path → Opened} {j : Journal}
  {arguments : List String} {options : Options}

theorem run_eq (sound : j.Sound) (asked : read convention arguments = .ok (.run options)) :
    (run convention openFile j arguments).1 =
      ⟨.returned (course convention openFile options).code,
        lines ((course convention openFile options).records.filter
          ((Verbosity.mk (!options.quiet) options.debug).level ≤ ·.level))⟩ := by
  simp only [run, asked, sound.written_configure]

theorem sound_run (sound : j.Sound) : (run convention openFile j arguments).2.Sound := by
  unfold run
  split
  · exact sound
  · exact sound
  · exact sound.configure _

theorem run_eq_run_empty (sound : j.Sound) :
    (run convention openFile j arguments).1 = (run convention openFile .empty arguments).1 := by
  cases asked : read convention arguments with
  | error error => simp only [run, asked]
  | ok request =>
    cases request with
    | help => simp only [run, asked]
    | run options => rw [run_eq sound asked, run_eq Journal.sound_empty asked]

-- What each run hands on is sound again, so the next one starts with a sound journal.
theorem map_runAll (sound : j.Sound) (lists : List (List String)) :
    (runAll convention openFile j lists).map (·.1) =
      lists.map fun arguments => (run convention openFile .empty arguments).1 := by
  induction lists generalizing j with
  | nil => rfl
  | cons arguments rest ih =>
    simp only [runAll, List.map_cons]
    rw [run_eq_run_empty sound, ih (sound_run sound)]

theorem runs_do_not_interact (convention : Convention) (openFile : Path → Opened)
    (lists : List (List String)) :
    (runAll convention openFile .empty lists).map (·.1) =
      lists.map fun arguments => (run convention openFile .empty arguments).1 :=
  map_runAll Journal.sound_empty lists

end TruthTables.CommandLine
