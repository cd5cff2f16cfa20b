import TruthTables.Proofs.Journals

namespace TruthTables

namespace JournalCall

def requested? : JournalCall → Option String
  | request name => some name
  | setLevel _ | configure _ | log _ => some Journal.defaultName
  | create _ _ | setLevelOf _ _ | logTo _ _ => none

def created? : JournalCall → Option String
  | create name _ => some (Journal.channelName name)
  | _ => none

-- The channel whose level a call sets, and the level, where the given channel is selected.
def sets (selected : Option String) : JournalCall → Option (String × Int)
  | request name => if selected.isNone then some (Journal.channelName name, Level.info) else none
  | create name level | setLevelOf name level => some (Journal.channelName name, level)
  | setLevel level => some (selected.getD Journal.defaultName, level)
  | configure verbosity => some (selected.getD Journal.defaultName, verbosity.level)
  | log _ => if selected.isNone then some (Journal.defaultName, Level.info) else none
  | logTo _ _ => none

end JournalCall

namespace Journal

def after : List JournalCall → Journal
  | [] => empty
  | call :: earlier => ((after earlier).call call).2

-- The channel that was asked for first is selected and stays so.
def selected? : List JournalCall → Option String
  | [] => none
  | call :: earlier => (selected? earlier).or (call.requested?.map channelName)

def Made (calls : List JournalCall) (name : String) : Prop :=
  (∃ call ∈ calls, call.created? = some name) ∨ selected? calls = some name

def settings : List JournalCall → List (String × Int)
  | [] => []
  | call :: earlier => (call.sets (selected? earlier)).toList ++ settings earlier

def lastLevel? (calls : List JournalCall) (name : String) : Option Int :=
  (settings calls).lookup name

-- The calls have left the journal with the channels that they made, at the levels that they set.
structure Kept (calls : List JournalCall) (j : Journal) : Prop where
  selected : j.selected = selected? calls
  made : ∀ name, Made calls name ↔ (j.channels.get? name).isSome
  last : ∀ name c, j.channels.get? name = some c →
    ∃ level, lastLevel? calls name = some level ∧ c = Channel.single level

section Calls

variable {calls : List JournalCall} {call : JournalCall} {j next : Journal} {name : String}
  {level : Int}

theorem lastLevel?_cons_of_none (sets : call.sets (selected? calls) = none) (other : String) :
    lastLevel? (call :: calls) other = lastLevel? calls other := by
  rw [lastLevel?, settings, sets]
  rfl

theorem lastLevel?_cons (sets : call.sets (selected? calls) = some (name, level))
    (other : String) : lastLevel? (call :: calls) other =
      if name = other then some level else lastLevel? calls other := by
  rw [lastLevel?, settings, sets, Option.toList_some, List.singleton_append, List.lookup_cons]
  by_cases same : name = other
  · simp [same]
  · rw [beq_false_of_ne (Ne.symm same), if_neg same]
    rfl

theorem made_cons (other : String) : Made (call :: calls) other ↔
    Made calls other ∨ call.created? = some other ∨
      selected? calls = none ∧ call.requested?.map channelName = some other := by
  unfold Made
  rw [List.exists_mem_cons_iff, selected?]
  cases selected? calls with
  | none => simp [or_assoc, or_comm, or_left_comm]
  | some name => simp [or_comm, or_left_comm]

theorem kept_empty : Kept [] empty where
  selected := rfl
  made _ := by simp [Made, selected?, empty, Entries.get?]
  last _ _ found := by cases found

theorem Kept.sound (kept : Kept calls j) : j.Sound where
  single name c found := by
    obtain ⟨level, _, rfl⟩ := kept.last name c found
    rfl
  present name selected := by
    rw [kept.selected] at selected
    exact (kept.made name).mp (.inr selected)

theorem Kept.rest (kept : Kept calls j) (sets : call.sets (selected? calls) = none)
    (selected : selected? (call :: calls) = selected? calls)
    (made : ∀ other, Made (call :: calls) other ↔ Made calls other) : Kept (call :: calls) j where
  selected := by rw [kept.selected, selected]
  made other := by rw [made, kept.made]
  last other c found := by
    rw [lastLevel?_cons_of_none sets]
    exact kept.last other c found

theorem Kept.move (kept : Kept calls j) (sets : call.sets (selected? calls) = some (name, level))
    (selected : next.selected = selected? (call :: calls))
    (made : ∀ other, Made (call :: calls) other ↔ name = other ∨ Made calls other)
    (channels : ∀ other, next.channels.get? other =
      if name = other then some (Channel.single level) else j.channels.get? other) :
    Kept (call :: calls) next where
  selected := selected
  made other := by
    rw [made, channels, kept.made]
    by_cases same : name = other <;> simp [same]
  last other c found := by
    rw [channels] at found
    rw [lastLevel?_cons sets]
    by_cases same : name = other
    · rw [if_pos same] at found ⊢
      cases found
      exact ⟨level, rfl, rfl⟩
    · rw [if_neg same] at found ⊢
      exact kept.last other c found

theorem Kept.create (kept : Kept calls j) (name : String) (level : Int) :
    Kept (.create name level :: calls) (j.create name level) := by
  refine kept.move rfl ?_ ?_ fun other => ?_
  · rw [Journal.create, kept.selected, selected?, JournalCall.requested?, Option.map_none,
      Option.or_none]
  · intro other
    rw [made_cons]
    simp [JournalCall.created?, JournalCall.requested?]
    tauto
  · rw [Journal.create, Entries.get?_set]

theorem Kept.select (kept : Kept calls j) (requested : call.requested? = some name)
    (created : call.created? = none)
    (sets : call.sets (selected? calls) =
      if (selected? calls).isNone then some (channelName name, Level.info) else none) :
    Kept (call :: calls) (j.select name).2 := by
  have selected := kept.selected
  unfold Journal.select
  cases known : selected? calls with
  | some other =>
    rw [known] at selected sets
    rw [selected]
    refine kept.rest (by rw [known]; exact sets) (by rw [selected?, known]; rfl) fun other => ?_
    rw [made_cons, created, known]
    simp
  | none =>
    have opened : call.sets (selected? calls) = some (channelName name, Level.info) := by
      rw [sets, known]
      rfl
    rw [known] at selected
    rw [selected]
    refine kept.move opened ?_ (fun other => ?_) fun other => ?_
    · rw [selected?, known, requested]
      rfl
    · rw [made_cons, created, known, requested]
      simp [or_comm]
    · simp only [Journal.create, Entries.get?_set]

theorem Kept.setLevel (kept : Kept calls j) (requested : call.requested? = some defaultName)
    (created : call.created? = none)
    (sets : call.sets (selected? calls) = some ((selected? calls).getD defaultName, level)) :
    Kept (call :: calls) (j.setLevel level) := by
  have selected := kept.selected
  have named : channelName defaultName = defaultName := rfl
  refine kept.move sets ?_ (fun other => ?_) fun other => ?_
  · rw [kept.sound.setLevel_eq, selected_select, selected?, requested, Journal.select, selected]
    cases selected? calls <;> rfl
  · rw [made_cons, created, requested, Made]
    cases selected? calls <;> simp [named, or_comm]
  · rw [kept.sound.setLevel_eq, Entries.get?_set, Journal.select, selected]
    cases selected? calls with
    | some name => rfl
    | none =>
      simp only [Journal.create, Entries.get?_set, named, Option.getD_none]
      by_cases same : defaultName = other <;> simp [same]

theorem Kept.setLevelOf (kept : Kept calls j) (name : String) (level : Int) :
    Kept (.setLevelOf name level :: calls) (j.setLevelOf name level) := by
  have made : ∀ other, Made (.setLevelOf name level :: calls) other ↔ Made calls other := by
    intro other
    simp [made_cons, JournalCall.created?, JournalCall.requested?]
  have selected : selected? (.setLevelOf name level :: calls) = selected? calls := by
    simp [selected?, JournalCall.requested?]
  unfold Journal.setLevelOf channel?
  cases found : j.channels.get? (channelName name) with
  | some c =>
    obtain ⟨old, _, rfl⟩ := kept.last _ c found
    refine kept.move rfl (by rw [selected, kept.selected]) (fun other => ?_) fun other => ?_
    · rw [made, kept.made, or_iff_right_of_imp]
      intro same
      rw [← same, found]
      rfl
    · rw [Entries.get?_set, Channel.setLevel_single]
  | none =>
    refine ⟨by rw [selected, kept.selected], fun other => by rw [made, kept.made], ?_⟩
    intro other c known
    have apart : channelName name ≠ other := by
      intro same
      rw [← same, found] at known
      cases known
    rw [lastLevel?_cons rfl, if_neg apart]
    exact kept.last other c known

theorem Kept.step (kept : Kept calls j) (call : JournalCall) :
    Kept (call :: calls) (j.call call).2 := by
  cases call with
  | request name => exact kept.select rfl rfl rfl
  | create name level => exact kept.create name level
  | setLevelOf name level => exact kept.setLevelOf name level
  | setLevel level => exact kept.setLevel rfl rfl rfl
  | configure verbosity => exact kept.setLevel rfl rfl rfl
  | logTo name records =>
    refine kept.rest rfl ?_ fun other => ?_
    · simp [selected?, JournalCall.requested?]
    · simp [made_cons, JournalCall.created?, JournalCall.requested?]
  | log records => exact kept.select rfl rfl rfl

theorem kept_after (calls : List JournalCall) : Kept calls (Journal.after calls) := by
  induction calls with
  | nil => exact kept_empty
  | cons call earlier kept => exact kept.step call

-- The request for the selected channel is part of the call.
theorem Kept.written_log (kept : Kept calls j) (records : List Record) :
    ∃ name level, selected? (.log records :: calls) = some name ∧
      lastLevel? (.log records :: calls) name = some level ∧
      (j.call (.log records)).1 = records.filter (level ≤ ·.level) := by
  have later := kept.step (.log records)
  have selected : (j.call (.log records)).2.selected = some (j.select defaultName).1 :=
    selected_select defaultName
  obtain ⟨c, found⟩ := Option.isSome_iff_exists.mp (later.sound.present _ selected)
  obtain ⟨level, last, rfl⟩ := later.last _ c found
  refine ⟨_, level, later.selected.symm.trans selected, last, written_of_current ?_ records⟩
  have current : (j.call (.log records)).2.current = Channel.single level := by
    rw [Journal.current, selected]
    simp only [found, Option.getD_some]
  exact current

theorem Kept.written_logTo (kept : Kept calls j) {name : String}
    (made : Made calls (channelName name)) :
    ∃ level, lastLevel? calls (channelName name) = some level ∧
      ∀ records, (j.call (.logTo name records)).1 = records.filter (level ≤ ·.level) := by
  obtain ⟨c, found⟩ := Option.isSome_iff_exists.mp ((kept.made _).mp made)
  obtain ⟨level, last, rfl⟩ := kept.last _ c found
  refine ⟨level, last, fun records => ?_⟩
  rw [Journal.call, writtenTo, channel?, found]
  exact Channel.flatMap_write_single level records

end Calls

theorem each_record_is_written_once (calls : List JournalCall) :
    (∀ name, Made calls name ↔ ((after calls).channels.get? name).isSome) ∧
    (∀ name c, (after calls).channels.get? name = some c →
      c.outlets = [c.level] ∧ lastLevel? calls name = some c.level) ∧
    (∀ records, ∃ name level, selected? (.log records :: calls) = some name ∧
      lastLevel? (.log records :: calls) name = some level ∧
      ((after calls).call (.log records)).1 = records.filter (level ≤ ·.level)) ∧
    ∀ name, Made calls (channelName name) → ∃ level,
      lastLevel? calls (channelName name) = some level ∧
      ∀ records, ((after calls).call (.logTo name records)).1 =
        records.filter (level ≤ ·.level) := by
  have kept := kept_after calls
  refine ⟨kept.made, fun name c found => ?_, kept.written_log,
    fun name made => kept.written_logTo made⟩
  obtain ⟨level, last, rfl⟩ := kept.last name c found
  exact ⟨rfl, last⟩

theorem each_record_is_written_once_after_a_second_making :
    let calls := [JournalCall.create "x" Level.error, .setLevel Level.debug, .request "x"]
    ((after calls).call (.log [.warning "a", .error "b"])).1 = [.error "b"] := by
  intro calls
  obtain ⟨_, _, written, _⟩ := each_record_is_written_once calls
  obtain ⟨name, level, selected, last, kept⟩ := written [.warning "a", .error "b"]
  have shared : "x" = name := by
    cases selected
    rfl
  subst shared
  have moved : Level.error = level := by
    cases last
    rfl
  rw [kept, ← moved]
  rfl

end Journal

end TruthTables
