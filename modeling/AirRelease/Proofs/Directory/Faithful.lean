import AirRelease.Proofs.Directory.Mirror

namespace AirRelease

open FileTree (Fits)
open AirRelease.Path (IsName)

-- The system takes the names of the file.
structure Location.Taken (l : Location) : Prop where
  check : l.path.check = .ok ()
  fits : Fits l.file

namespace Directory

variable {a : Approach} {d : Directory} {s s' : Memory} {h : Host} {l : Location} {slot : Slot}
  {key : AccessKey} {target : LockTarget}

section Read

variable (root : d.root = a.root) (on : a.On h) (mirrors : a.Mirrors s h.files.kind)
include on mirrors

theorem read_of_taken {α : Type} {decoder : Decoder α} {toJson : α → Json} {empty x : α} {c : Char}
    (locates : a.Locates l slot.trail) (ends : Ends c l.file)
    (dot : c ≠ '.') (file : l.file = slot.file) (taken : l.Taken)
    (shows : Shows toJson empty x (h.files.kind (a.file slot)))
    (back : Json.decode decoder (toJson x).pretty = .ok x) :
    answer decoder empty l.path (h.files.read h.base l.path) = .ok x := by
  have spells := locates.spells_path (ends.isName dot)
  have follows := locates.follows on.holds (ends.proper dot)
  have fits : ∀ y ∈ a.below ++ slot.trail ++ [l.file], Fits y :=
    List.forall_mem_append.mpr ⟨locates.fits on.holds, List.forall_mem_singleton.mpr taken.fits⟩
  rw [Approach.file, ← file] at shows
  rw [on.base]
  rcases shows with ⟨none, rfl⟩ | there
  · have misses : h.files.Misses a.base true l.path :=
      on.holds.misses spells follows taken.check fits (mirrors.clear slot) none
    rw [FileTree.read_of_misses misses, answer]
  · rw [(on.holds.read_eq_ok spells follows).mpr ⟨taken.check, fits, there⟩, answer, fromUTF8?_toUTF8]
    simp only [back]
    rfl

include root

theorem loadApps_of_taken (taken : d.apps.Taken) (storable : s.apps.Storable) :
    d.onHost.loadApps h = (.ok s.apps, h) := by
  rw [loadApps_apply, read_of_taken on mirrors (locates_apps root) ends_apps (by decide) rfl taken
    (mirrors.slots .apps) (Registry.decode_pretty storable)]

theorem loadHistory_of_taken (located : d.history? key = .ok l) (taken : l.Taken)
    (storable : (s.history key).Storable) : d.onHost.loadHistory key h = (.ok (s.history key), h) := by
  have file : l.file = (Slot.history key).file := by
    rw [(history_eq_ok.mp located).2]
    rfl
  rw [loadHistory_apply, located]
  simp only [read_of_taken on mirrors (locates_history root located) (ends_history located) (by decide) file taken
    (Memory.shows_history (mirrors.slots (.history key))) (History.decode_pretty storable)]

end Read

-- The system takes the names of the lock's file and of its draft.
def Lockable (d : Directory) (target : LockTarget) : Prop :=
  ∃ l, d.lock? target = .ok l ∧ (l.temporary d.mark).check = .ok () ∧ Fits (l.draft d.mark)

-- The file of the slot, of which the system takes the names.
structure Keeps (d : Directory) (a : Approach) (slot : Slot) (l : Location) : Prop where
  drafts : a.Drafts l slot.trail d.mark
  nameable : d.Nameable a l slot.trail
  file : l.file = slot.file

section Keeps

variable (root : d.root = a.root) (whole : '/' ∉ d.mark.toList) (on : a.On h)
include root whole on

theorem keeps_lock (lockable : d.Lockable target) :
    ∃ l, d.lock? target = .ok l ∧ d.Keeps a (.lock target) l := by
  obtain ⟨l, located, check, fits⟩ := lockable
  have locates := locates_lock root located
  have ends := ends_lock located
  refine ⟨l, located, locates.drafts ends whole nofun nofun,
    nameable_of_draft on whole locates ends nofun check fits, ?_⟩
  rw [(lock_eq_ok.mp located).2]
  rfl

theorem keeps_apps (lockable : d.Lockable .registry) : d.Keeps a .apps d.apps := by
  obtain ⟨l, located, check, fits⟩ := lockable
  exact ⟨(locates_apps root).drafts ends_apps whole nofun nofun,
    nameable_apps on whole root located check fits, rfl⟩

theorem keeps_history (lockable : d.Lockable (.history key)) :
    ∃ l, d.history? key = .ok l ∧ d.Keeps a (.history key) l := by
  obtain ⟨l, located, check, fits⟩ := lockable
  have safe := (lock_eq_ok.mp located).1 key rfl
  have located' := (history_eq_ok (d := d)).mpr ⟨safe, rfl⟩
  exact ⟨_, located', (locates_history root located').drafts (ends_history located') whole nofun nofun,
    nameable_history on whole root located' located check fits, rfl⟩

end Keeps

section File

variable (keeps : d.Keeps a slot l) (on : a.On h) (mirrors : a.Mirrors s h.files.kind)
include keeps

theorem Keeps.taken : l.Taken :=
  ⟨keeps.nameable.check, keeps.nameable.fits⟩

theorem Keeps.fits : ∀ y ∈ a.below ++ slot.trail ++ [l.file], Fits y :=
  List.forall_mem_append.mpr ⟨keeps.nameable.folder_fits, List.forall_mem_singleton.mpr keeps.nameable.fits⟩

theorem Keeps.place : a.here ++ (a.below ++ slot.trail) ++ [l.file] = a.file slot := by
  rw [keeps.file, Approach.file]

theorem Keeps.clear (clear : ∀ front, front <+: a.below ++ slot.trail →
    h.files.kind (a.here ++ front) = none ∨ h.files.kind (a.here ++ front) = some .directory) :
    a.Clear (a.below ++ slot.trail) h.files where
  check front pre ne := by
    have way : a.way front = .ofNames l.folder.IsAbsolute (a.above ++ front) := by
      simp only [Approach.way, keeps.drafts.start]
    have names : (a.above ++ front).Sublist l.folder.names := by
      rw [keeps.drafts.folder]
      exact pre.sublist.append_left _
    rw [way]
    exact Path.check_ofNames names ne (Path.text_prefix_join keeps.drafts.named.whole)
      keeps.nameable.check
  fits := keeps.nameable.folder_fits
  clear := clear

include mirrors on

theorem write_of_keeps {j : Json} (expects : s'.Expects slot (some (.file j.pretty.toUTF8)))
    (others : ∀ other, other ≠ slot → ∀ k, s.Expects other k → s'.Expects other k) :
    ∃ h', (d.write j l : StateM Host _) h = (.ok (), h') ∧ a.On h' ∧ a.Mirrors s' h'.files.kind := by
  have follows := keeps.drafts.follows on.holds keeps.drafts.proper_file
  obtain ⟨r, h₁, made, along, on₁, there, _, clear⟩ :=
    Approach.makeLineage_spec on keeps.drafts.names (follows.of_prefix (List.prefix_append ..))
  cases clear (keeps.clear (mirrors.clear slot))
  have mirrors₁ := mirrors.makesAlong slot along
  have folder := there rfl
  rw [← keeps.drafts.lineage] at made
  obtain ⟨r, h', ran, on', kinds, _, able⟩ := write_of_made keeps.drafts made on₁ folder (j := j)
  have leaf : h₁.files.kind (a.here ++ (a.below ++ slot.trail) ++ [l.file]) ≠ some .directory := by
    rw [keeps.place]
    exact (mirrors₁.slots slot).ne_directory
  cases able.mpr ⟨keeps.nameable, mirrors₁.drafts _ _ keeps.drafts.ends_draft, leaf⟩
  refine ⟨h', ran, on', ?_⟩
  rw [kinds rfl, keeps.place]
  have mirrors₂ := mirrors₁.update_draft (q := slot.trail) (k := none) keeps.drafts.ends_draft nofun
  exact mirrors₂.update_file expects others

-- A file that is not there counts as removed.
theorem remove_of_keeps (expects : s'.Expects slot none)
    (others : ∀ other, other ≠ slot → ∀ k, s.Expects other k → s'.Expects other k) :
    ∃ h', (remove l : StateM Host _) h = (.ok (), h') ∧ a.On h' ∧ a.Mirrors s' h'.files.kind := by
  have follows := keeps.drafts.follows on.holds keeps.drafts.proper_file
  have place := keeps.place
  rcases eq : h.files.kind (a.file slot) with _ | k
  case none =>
    have misses : h.files.Misses a.base false l.path := on.holds.misses keeps.drafts.spells_file follows
      keeps.nameable.check keeps.fits (mirrors.clear slot) (place ▸ eq)
    have lost : (Disk.remove l.path : StateM Host _) h = (.error .notFound, h) := by
      rw [Disk.remove_apply]
      exact Host.attempt_error (on.base ▸ FileTree.remove_of_misses misses)
    refine ⟨h, by simp only [remove, bind_apply, lost, pure_apply], on, ?_⟩
    have same : Function.update h.files.kind (a.file slot) none = h.files.kind := by
      rw [← eq, Function.update_eq_self]
    rw [← same]
    exact mirrors.update_file expects others
  case some =>
    have folder : h.files.kind (a.here ++ (a.below ++ slot.trail)) = some .directory :=
      FileTree.kind_folder (by rw [place, eq]; exact Option.some_ne_none _)
    rcases Approach.remove_tries on keeps.drafts.spells_file follows with
      ⟨h', removed, on', _, kinds⟩ | ⟨_, _, blocked⟩
    · refine ⟨h', by simp only [remove, bind_apply, removed, pure_apply], on', ?_⟩
      rw [kinds, place]
      exact mirrors.update_file expects others
    · refine absurd ⟨⟨keeps.nameable.check, keeps.fits, folder⟩, ?_, ?_⟩ blocked
      · rw [place, eq]
        exact Option.some_ne_none _
      · rw [place]
        exact (mirrors.slots slot).ne_directory

end File

section Operations

variable (root : d.root = a.root) (whole : '/' ∉ d.mark.toList) (on : a.On h)
  (mirrors : a.Mirrors s h.files.kind)
include root whole on mirrors

theorem loadApps_of_mirrors (lockable : d.Lockable .registry) (storable : s.apps.Storable) :
    d.onHost.loadApps h = (.ok s.apps, h) :=
  loadApps_of_taken root on mirrors (keeps_apps root whole on lockable).taken storable

theorem loadHistory_of_mirrors (lockable : d.Lockable (.history key)) (storable : (s.history key).Storable) :
    d.onHost.loadHistory key h = (.ok (s.history key), h) := by
  obtain ⟨l, located, keeps⟩ := keeps_history root whole on lockable
  exact loadHistory_of_taken root on mirrors located keeps.taken storable

theorem saveApps_of_mirrors (lockable : d.Lockable .registry) (apps : Registry) :
    ∃ h', d.onHost.saveApps apps h = (.ok (), h') ∧ a.On h' ∧ a.Mirrors { s with apps } h'.files.kind := by
  refine write_of_keeps (keeps_apps root whole on lockable) on mirrors (.inr rfl) fun other ne k expects => ?_
  cases other with
  | apps => exact absurd rfl ne
  | history | lock => exact expects

theorem saveHistory_of_mirrors (lockable : d.Lockable (.history key)) (history : History) :
    ∃ h', d.onHost.saveHistory key history h = (.ok (), h') ∧ a.On h' ∧
      a.Mirrors (s.setHistory key history) h'.files.kind := by
  obtain ⟨l, located, keeps⟩ := keeps_history root whole on lockable
  rw [saveHistory_apply, located]
  refine write_of_keeps keeps on mirrors ?_ fun other ne k expects => ?_
  · rw [Memory.Expects, Memory.lookup_setHistory_self]
    rfl
  · cases other with
    | apps | lock => exact expects
    | history other =>
      have other_ne : other ≠ key := fun same => ne (congrArg Slot.history same)
      rwa [Memory.Expects, Memory.lookup_setHistory_of_ne s other_ne]

theorem deleteHistory_of_mirrors (lockable : d.Lockable (.history key)) :
    ∃ h', d.onHost.deleteHistory key h = (.ok (), h') ∧ a.On h' ∧
      a.Mirrors (s.eraseHistory key) h'.files.kind := by
  obtain ⟨l, located, keeps⟩ := keeps_history root whole on lockable
  rw [deleteHistory_apply, located]
  have gone : (s.eraseHistory key).Expects (.history key) none := by
    rw [Memory.Expects, Memory.lookup_eraseHistory_self]
    rfl
  refine remove_of_keeps keeps on mirrors gone fun other ne k expects => ?_
  cases other with
  | apps | lock => exact expects
  | history other =>
    have other_ne : other ≠ key := fun same => ne (congrArg Slot.history same)
    rwa [Memory.Expects, Memory.lookup_eraseHistory_of_ne s other_ne]

theorem tryLock_of_mirrors (lockable : d.Lockable target) (free : target ∉ s.held) :
    ∃ h', d.onHost.tryLock target h = (.ok true, h') ∧ a.On h' ∧
      a.Mirrors { s with held := target :: s.held } h'.files.kind := by
  obtain ⟨l, located, keeps⟩ := keeps_lock root whole on lockable
  have place : a.here ++ (a.below ++ ["locks"]) ++ [l.file] = a.file (.lock target) := keeps.place
  have creatable : d.Creatable a l h.files := {
    clear := keeps.clear (mirrors.clear (.lock target))
    draft_check := keeps.nameable.draft_check
    draft_fits := keeps.nameable.draft_fits
    draft := mirrors.drafts _ _ keeps.drafts.ends_draft
    check := keeps.nameable.check
    fits := keeps.nameable.fits
    free := by
      rw [place]
      simpa only [Memory.Expects, if_neg free] using mirrors.slots (.lock target)
  }
  obtain ⟨r, h', created, taken, _, able⟩ := createLock_spec root whole on located
  cases able creatable
  obtain ⟨holding, h₁, along, kinds⟩ := taken rfl
  refine ⟨h', ?_, holding.on, ?_⟩
  · rw [tryLock_apply, located]
    simp only [takeLock, bind_apply, created]
    rfl
  · have mirrors₁ := mirrors.makesAlong (.lock target) along
    have mirrors₂ := mirrors₁.update_draft (q := ["locks"]) (k := none) keeps.drafts.ends_draft (by simp)
    rw [kinds, place]
    refine mirrors₂.update_file ?_ fun other ne k expects => ?_
    · simp [Memory.Expects]
    · cases other with
      | apps | history => exact expects
      | lock other =>
        have other_ne : other ≠ target := fun same => ne (congrArg Slot.lock same)
        simpa [Memory.Expects, other_ne] using expects

theorem unlock_of_mirrors (lockable : d.Lockable target) :
    a.On (d.onHost.unlock target h).2 ∧
      a.Mirrors (s.unlock target) (d.onHost.unlock target h).2.files.kind := by
  obtain ⟨l, located, keeps⟩ := keeps_lock root whole on lockable
  have dropped : (d.onHost.unlock target h).2 = ((remove l : StateM Host _) h).2 := by
    rw [unlock_apply, located, remove_state]
  have gone : (s.unlock target).Expects (.lock target) none := by simp [Memory.Expects, Memory.unlock]
  obtain ⟨h', removed, on', mirrors'⟩ := remove_of_keeps keeps on mirrors gone fun other ne k expects => by
    cases other with
    | apps | history => exact expects
    | lock other =>
      have other_ne : other ≠ target := fun same => ne (congrArg Slot.lock same)
      simpa [Memory.Expects, Memory.unlock, other_ne] using expects
  rw [dropped, removed]
  exact ⟨on', mirrors'⟩

end Operations

end Directory
end AirRelease
