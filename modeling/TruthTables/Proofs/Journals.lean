import Mathlib.Data.List.Basic
import TruthTables.Log.Journal

namespace TruthTables

namespace Channel

@[simp] theorem setLevel_single (old level : Int) :
    (single old).setLevel level = single level := rfl

theorem write_single (level : Int) (r : Record) :
    (single level).write r = if level ≤ r.level then [r] else [] := by
  by_cases passes : level ≤ r.level <;> simp [write, single, passes]

theorem flatMap_write_single (level : Int) (records : List Record) :
    records.flatMap (single level).write = records.filter (level ≤ ·.level) := by
  induction records with
  | nil => rfl
  | cons r rest ih =>
    rw [List.flatMap_cons, ih, write_single, List.filter_cons]
    by_cases passes : level ≤ r.level <;> simp [passes]

end Channel

namespace Journal

variable {j : Journal}

-- Every channel has one outlet, of its own level, and the selected channel is there.
structure Sound (j : Journal) : Prop where
  single : ∀ name c, j.channels.get? name = some c → c = Channel.single c.level
  present : ∀ name, j.selected = some name → (j.channels.get? name).isSome

theorem sound_empty : empty.Sound where
  single _ _ found := by cases found
  present _ selected := by cases selected

theorem Sound.set (sound : j.Sound) (name : String) (level : Int) :
    Sound { j with channels := j.channels.set name (Channel.single level) } where
  single other c found := by
    rw [Entries.get?_set] at found
    split at found
    · cases found
      rfl
    · exact sound.single other c found
  present other selected := by
    rw [Entries.get?_set]
    split
    · rfl
    · exact sound.present other selected

theorem Sound.create (sound : j.Sound) (name : String) (level : Int) :
    (j.create name level).Sound := sound.set (channelName name) level

theorem Sound.select (sound : j.Sound) (name : String) : (j.select name).2.Sound := by
  unfold Journal.select
  split
  · exact sound
  · refine ⟨(sound.create name Level.info).single, fun other selected => ?_⟩
    cases selected
    simp [Journal.create]

theorem selected_select (name : String) :
    (j.select name).2.selected = some (j.select name).1 := by
  unfold Journal.select
  split
  · assumption
  · rfl

theorem Sound.current_eq (sound : j.Sound) : ∃ level, j.current = Channel.single level := by
  unfold current
  split
  · exact ⟨_, rfl⟩
  · rename_i name selected
    obtain ⟨c, found⟩ := Option.isSome_iff_exists.mp (sound.present name selected)
    rw [found]
    exact ⟨_, sound.single name c found⟩

theorem Sound.setLevel_eq (sound : j.Sound) (level : Int) :
    j.setLevel level =
      ⟨(j.select defaultName).2.channels.set (j.select defaultName).1 (Channel.single level),
        (j.select defaultName).2.selected⟩ := by
  obtain ⟨old, current⟩ := (sound.select defaultName).current_eq
  simp only [Journal.setLevel, current, Channel.setLevel_single]

theorem Sound.setLevel (sound : j.Sound) (level : Int) : (j.setLevel level).Sound := by
  rw [sound.setLevel_eq]
  exact (sound.select defaultName).set _ level

theorem Sound.current_setLevel (sound : j.Sound) (level : Int) :
    (j.setLevel level).current = Channel.single level := by
  have selected := selected_select (j := j) defaultName
  rw [sound.setLevel_eq]
  simp only [current, selected, Entries.get?_set, ↓reduceIte, Option.getD_some]

theorem Sound.configure (sound : j.Sound) (verbosity : Verbosity) :
    (j.configure verbosity).Sound := sound.setLevel verbosity.level

theorem written_of_current {level : Int} (current : j.current = Channel.single level)
    (records : List Record) : j.written records = records.filter (level ≤ ·.level) := by
  rw [written, current, Channel.flatMap_write_single]

theorem Sound.written_configure (sound : j.Sound) (verbosity : Verbosity) (records : List Record) :
    (j.configure verbosity).written records = records.filter (verbosity.level ≤ ·.level) :=
  written_of_current (sound.current_setLevel verbosity.level) records

end Journal

end TruthTables
