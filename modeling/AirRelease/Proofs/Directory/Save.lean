import AirRelease.Proofs.Directory.Lock

namespace AirRelease

open FileTree (Proper Fits)
open AirRelease.Path (IsName)

namespace Directory

variable {a : Approach} {d : Directory} {h h' h₁ : Host} {l : Location} {trail : List String}
  {target : LockTarget} {j : Json}

-- The system takes the names of the file and of its draft.
structure Nameable (d : Directory) (a : Approach) (l : Location) (trail : List String) : Prop where
  folder_fits : ∀ x ∈ a.below ++ trail, Fits x
  draft_check : (l.temporary d.mark).check = .ok ()
  draft_fits : Fits (l.draft d.mark)
  check : l.path.check = .ok ()
  fits : Fits l.file

-- Nothing keeps the file from being written, once there is a directory for it.
structure Writable (d : Directory) (a : Approach) (l : Location) (trail : List String) (t : FileTree) :
    Prop extends d.Nameable a l trail where
  draft : t.kind (a.here ++ (a.below ++ trail) ++ [l.draft d.mark]) ≠ some .directory
  file : t.kind (a.here ++ (a.below ++ trail) ++ [l.file]) ≠ some .directory

theorem write_of_unmade {e : Fault}
    (made : (Disk.makeDirectories l.folder : StateM Host _) h = (.error e, h₁)) :
    (d.write j l : StateM Host _) h = (.error (.inaccessible l.path e), h₁) := by
  simp only [write, bind_apply, made, pure_apply]

theorem write_of_made (drafts : a.Drafts l trail d.mark)
    (made : (Disk.makeDirectories l.folder : StateM Host _) h = (.ok (), h₁)) (on : a.On h₁)
    (folder : h₁.files.kind (a.here ++ (a.below ++ trail)) = some .directory) :
    ∃ r h', (d.write j l : StateM Host _) h = (r, h') ∧ a.On h' ∧
      (r = .ok () → h'.files.kind = Function.update
        (Function.update h₁.files.kind (a.here ++ (a.below ++ trail) ++ [l.draft d.mark]) none)
        (a.here ++ (a.below ++ trail) ++ [l.file]) (some (.file j.pretty.toUTF8))) ∧
      (r ≠ .ok () → ∃ k, h'.files.kind =
        Function.update h₁.files.kind (a.here ++ (a.below ++ trail) ++ [l.draft d.mark]) k ∧
        (k = h₁.files.kind (a.here ++ (a.below ++ trail) ++ [l.draft d.mark]) ∨ k = none ∧
          h₁.files.kind (a.here ++ (a.below ++ trail) ++ [l.draft d.mark]) ≠ some .directory)) ∧
      (r = .ok () ↔ d.Writable a l trail h₁.files) := by
  have follows := drafts.follows on.holds drafts.proper_file
  have follows' := drafts.follows on.holds (drafts.ends_draft.proper nofun)
  have fits {y : String} (able : d.Writable a l trail h₁.files) (last : Fits y) :
      ∀ x ∈ a.below ++ trail ++ [y], Fits x :=
    List.forall_mem_append.mpr ⟨able.folder_fits, List.forall_mem_singleton.mpr last⟩
  simp only [write, bind_apply, made]
  rcases Approach.write_tries on drafts.spells_draft follows' j.pretty.toUTF8 with
    ⟨h₂, written, on₂, ⟨drafted, leaf⟩, kinds₂⟩ | ⟨e, failed, blocked⟩
  case inr =>
    simp only [failed]
    refine ⟨_, _, rfl, on, nofun, fun _ => ⟨_, (Function.update_eq_self _ _).symm, .inl rfl⟩,
      iff_of_false nofun fun able => ?_⟩
    exact blocked ⟨⟨able.draft_check, fits able able.draft_fits, folder⟩, able.draft⟩
  case inl =>
    simp only [written, bind_apply]
    have file₂ : h₂.files.kind (a.here ++ (a.below ++ trail) ++ [l.draft d.mark]) =
        some (.file j.pretty.toUTF8) := by rw [kinds₂, Function.update_self]
    have elsewhere : h₂.files.kind (a.here ++ (a.below ++ trail) ++ [l.file]) =
        h₁.files.kind (a.here ++ (a.below ++ trail) ++ [l.file]) := by
      rw [kinds₂, Function.update_of_ne (by simpa using drafts.ne)]
    rcases Approach.rename_tries on₂ drafts.spells_draft follows' drafts.spells_file follows file₂ with
      ⟨h₃, renamed, on₃, ⟨_, reach, free⟩, kinds₃⟩ | ⟨e, failed, blocked⟩
    case inl =>
      simp only [renamed]
      refine ⟨_, _, rfl, on₃, fun _ => ?_, fun bad => absurd rfl bad, iff_of_true rfl ?_⟩
      · rw [kinds₃, kinds₂, Function.update_idem]
      · exact {
          folder_fits := (List.forall_mem_append.mp reach.fits).1
          draft_check := drafted.check
          draft_fits := drafted.fits _ (by simp)
          check := reach.check
          fits := reach.fits _ (by simp)
          draft := leaf
          file := elsewhere ▸ free
        }
    case inr =>
      simp only [failed]
      have able_not (able : d.Writable a l trail h₁.files) : False := by
        have reach : a.Reachable h₁.files l.path (a.below ++ trail) l.file :=
          ⟨able.check, fits able able.fits, folder⟩
        exact blocked ⟨drafted.update kinds₂, reach.update kinds₂, elsewhere ▸ able.file⟩
      rcases Approach.remove_tries on₂ drafts.spells_draft follows' with
        ⟨h₃, removed, on₃, _, kinds₃⟩ | ⟨_, _, stuck⟩
      · simp only [bind_apply, removed]
        refine ⟨_, _, rfl, on₃, nofun, fun _ => ⟨none, ?_, .inr ⟨rfl, leaf⟩⟩, iff_of_false nofun able_not⟩
        rw [kinds₃, kinds₂, Function.update_idem]
      · rw [file₂] at stuck
        exact absurd ⟨drafted.update kinds₂, nofun, nofun⟩ stuck

section Failure

variable {r : Except StoreError Unit} (on : a.On h) (drafts : a.Drafts l trail d.mark)
  (there : h.files.kind (a.here ++ a.below) = some .directory)
  (nameable : h.files.kind (a.here ++ (a.below ++ trail)) = none → d.Nameable a l trail)
  (failed : (d.write j l : StateM Host _) h = (r, h')) (bad : r ≠ .ok ())
include on drafts there nameable failed bad

-- A new directory for the file cannot be what has changed, since the file could then be written.
theorem kinds_of_failed_write (short : trail.length ≤ 1) : a.On h' ∧ ∃ k, h'.files.kind =
    Function.update h.files.kind (a.here ++ (a.below ++ trail) ++ [l.draft d.mark]) k := by
  have follows := drafts.follows on.holds drafts.proper_file
  obtain ⟨made, h₁, ran, along, on₁, folder, unmade, _⟩ :=
    Approach.makeLineage_spec on drafts.names (follows.of_prefix (List.prefix_append ..))
  rw [← drafts.lineage] at ran
  have standing (front : List String) (pre : front <+: a.below) :
      h.files.kind (a.here ++ front) = some .directory := by
    obtain ⟨rest, eq⟩ := pre
    exact FileTree.directory_of_append (by rw [List.append_assoc, eq, there])
  have elsewhere (place : Place) (ne : place ≠ a.here ++ (a.below ++ trail)) :
      h₁.files.kind place = h.files.kind place := by
    refine (along.kind place).resolve_right fun ⟨free, _, front, pre, at_⟩ => ?_
    have inside : front <+: a.below := by
      match trail, short with
      | [], _ => simpa using pre
      | [x], _ =>
        exact (List.prefix_concat_iff.mp pre).resolve_left fun last => ne (at_.trans (last ▸ rfl))
    exact absurd ((at_ ▸ free).symm.trans (standing front inside)) nofun
  have same (folder : h₁.files.kind (a.here ++ (a.below ++ trail)) =
      h.files.kind (a.here ++ (a.below ++ trail))) : h₁.files.kind = h.files.kind := by
    funext place
    by_cases at_ : place = a.here ++ (a.below ++ trail)
    · rw [at_, folder]
    · exact elsewhere place at_
  cases made with
  | error e =>
    rw [write_of_unmade ran] at failed
    cases failed
    rw [same (unmade nofun)]
    exact ⟨on₁, _, (Function.update_eq_self _ _).symm⟩
  | ok =>
    have folder := folder rfl
    obtain ⟨r', h'', ran', on', _, draft, able⟩ := write_of_made drafts ran on₁ folder (j := j)
    cases failed.symm.trans ran'
    refine ⟨on', ?_⟩
    obtain ⟨k, kinds, _⟩ := draft bad
    rcases along.kind (a.here ++ (a.below ++ trail)) with kept | ⟨free, _⟩
    case inl => exact ⟨k, same kept ▸ kinds⟩
    case inr =>
      have bare (y : String) : h₁.files.kind (a.here ++ (a.below ++ trail) ++ [y]) ≠ some .directory := by
        rw [elsewhere _ (by simp)]
        intro there
        have folder := FileTree.kind_folder (ne_of_eq_of_ne there (Option.some_ne_none _))
        exact absurd (free.symm.trans folder) nofun
      exact absurd (able.mpr ⟨nameable free, bare _, bare _⟩) bad

end Failure

theorem place_ne_draft {front : Place} {x : String} {c : Char} (drafts : a.Drafts l trail d.mark)
    (ends : Ends c x) (ne : c ≠ 'p') :
    front ++ [x] ≠ a.here ++ (a.below ++ trail) ++ [l.draft d.mark] := by
  intro same
  have last := congrArg List.getLast? same
  rw [List.getLast?_concat, List.getLast?_concat] at last
  exact ends.ne drafts.ends_draft ne (Option.some.inj last)

-- A save that fails leaves the lock with its holder and everything else as it was.
theorem holding_of_failed_save {h₀ : Host} {r : Except StoreError Unit} (root : d.root = a.root)
    (drafts : a.Drafts l trail d.mark) (short : trail.length ≤ 1) (holding : d.Holding a target h₀ h)
    (nameable : h.files.kind (a.here ++ (a.below ++ trail)) = none → d.Nameable a l trail)
    (failed : (d.write j l : StateM Host _) h = (r, h')) (bad : r ≠ .ok ()) :
    d.Holding a target h₀ h' := by
  obtain ⟨on, unchanged, l', located, drafted, reach, bytes, file⟩ := holding
  have there : h.files.kind (a.here ++ a.below) = some .directory :=
    FileTree.directory_of_append (by rw [List.append_assoc]; exact reach.folder)
  obtain ⟨on', k, kinds⟩ := kinds_of_failed_write on drafts there nameable failed bad short
  have folder : h'.files.kind (a.here ++ (a.below ++ ["locks"])) = some .directory := by
    rw [kinds, Function.update_of_ne, reach.folder]
    rw [← List.append_assoc]
    exact place_ne_draft drafts ends_lockFolder nofun
  refine ⟨on', unchanged.trans (unchanged_of_draft root on on' drafts kinds), l', located, ?_⟩
  exact {
    drafted := { drafted with folder }
    reach := { reach with folder }
    there := ⟨bytes, by
      rw [kinds, Function.update_of_ne (place_ne_draft drafts (ends_lock located) nofun), file]⟩
  }

theorem saveHistory_apply (d : Directory) (key : AccessKey) (history : History) (h : Host) :
    d.onHost.saveHistory key history h =
      match d.history? key with
      | .ok l => (d.write history.toJson l : StateM Host _) h
      | .error e => (.error e, h) := by
  cases located : d.history? key <;> simp [onHost, store, located]

theorem deleteHistory_apply (d : Directory) (key : AccessKey) (h : Host) :
    d.onHost.deleteHistory key h =
      match d.history? key with
      | .ok l => (remove l : StateM Host _) h
      | .error e => (.error e, h) := by
  cases located : d.history? key <;> simp [onHost, store, located]

section Names

variable (on : a.On h) (whole : '/' ∉ d.mark.toList)
include on whole

-- The name of a draft is longer than that of the file.
theorem nameable_of_draft {c : Char} (locates : a.Locates l trail) (ends : Ends c l.file) (dot : c ≠ '.')
    (check : (l.temporary d.mark).check = .ok ()) (fits : Fits (l.draft d.mark)) :
    d.Nameable a l trail := by
  have part := (ends.isName dot).whole
  have draft := (ends_draft ends whole).whole
  have filled := (ends.isName dot).not_empty
  have check' := Path.check_eq_ok.mp check
  rw [Location.temporary_eq, Path.text_join draft] at check'
  have fits' := fits
  simp only [Location.draft, Fits, String.utf8ByteSize_append, String.toList_append, List.mem_append,
    not_or] at check' fits'
  obtain ⟨clean, _, short⟩ := check'
  constructor
  case folder_fits => exact locates.fits on.holds
  case draft_check => exact check
  case draft_fits => exact fits
  case check =>
    rw [Location.path, Path.check_eq_ok, Path.text_join part]
    simp only [String.utf8ByteSize_append, String.toList_append, List.mem_append, not_or]
    refine ⟨⟨clean.1, clean.2.1.1.1⟩, by simp [filled], by omega⟩
  case fits =>
    simp only [Fits]
    omega

-- The names of a history are not longer than those of its lock.
theorem nameable_history {key : AccessKey} {l' : Location} (root : d.root = a.root)
    (located : d.history? key = .ok l) (located' : d.lock? (.history key) = .ok l')
    (check : (l'.temporary d.mark).check = .ok ()) (fits : Fits (l'.draft d.mark)) :
    d.Nameable a l ["history"] := by
  have draft := (ends_draft (ends_history located) whole).whole
  have draft' := (ends_draft (ends_lock located') whole).whole
  have nameable := nameable_of_draft on whole (locates_history root located) (ends_history located) (by decide)
  obtain ⟨safe, rfl⟩ := history_eq_ok.mp located
  obtain ⟨_, rfl⟩ := lock_eq_ok.mp located'
  rw [Location.temporary_eq, Path.check_eq_ok, Path.text_join_join isName_lockFolder draft'] at check
  obtain ⟨clean, _, short⟩ := check
  have sizes : "history".utf8ByteSize = 7 ∧ "locks".utf8ByteSize = 5 ∧ "history-".utf8ByteSize = 8 ∧
      ".json".utf8ByteSize = 5 ∧ ".lock".utf8ByteSize = 5 := by decide
  simp only [Location.draft, lockFile, Fits, String.utf8ByteSize_append, String.toList_append,
    List.mem_append, not_or] at clean short fits
  apply nameable
  case check =>
    rw [Location.temporary_eq, Path.check_eq_ok, Path.text_join_join isName_historyFolder draft]
    simp only [Location.draft, String.utf8ByteSize_append, String.toList_append, List.mem_append, not_or]
    refine ⟨by simp [clean], by simp, by omega⟩
  case fits =>
    simp only [Location.draft, Fits, String.utf8ByteSize_append]
    omega

-- Neither are those of the registry.
theorem nameable_apps {l' : Location} (root : d.root = a.root) (located' : d.lock? .registry = .ok l')
    (check : (l'.temporary d.mark).check = .ok ()) (fits : Fits (l'.draft d.mark)) :
    d.Nameable a d.apps [] := by
  have draft := (ends_draft (ends_apps (d := d)) whole).whole
  have draft' := (ends_draft (ends_lock located') whole).whole
  obtain ⟨_, rfl⟩ := lock_eq_ok.mp located'
  rw [Location.temporary_eq, Path.check_eq_ok, Path.text_join_join isName_lockFolder draft'] at check
  obtain ⟨clean, _, short⟩ := check
  have sizes : "apps.json".utf8ByteSize = 9 ∧ "apps.lock".utf8ByteSize = 9 := by decide
  simp only [Location.draft, lockFile, Fits, String.utf8ByteSize_append, String.toList_append,
    List.mem_append, not_or] at clean short fits
  apply nameable_of_draft on whole (locates_apps root) ends_apps (by decide)
  case check =>
    rw [Location.temporary_eq, Path.check_eq_ok, Path.text_join draft]
    simp only [Location.draft, apps, String.utf8ByteSize_append, String.toList_append, List.mem_append,
      not_or]
    refine ⟨by simp [clean], by simp, by omega⟩
  case fits =>
    simp only [Location.draft, apps, Fits, String.utf8ByteSize_append]
    omega

end Names

end Directory
end AirRelease
