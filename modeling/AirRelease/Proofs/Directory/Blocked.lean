import AirRelease.Proofs.Directory.Lock
import AirRelease.Proofs.Files.Linkless

namespace AirRelease

open FileTree (Proper Fits)
open AirRelease.Path (IsName)

namespace Approach

variable {a : Approach} {h : Host} {q : List String} {e : Fault}

-- There is no way through the first names, and not because one of them is missing.
structure Blocked (a : Approach) (t : FileTree) (e : Fault) : Prop where
  lost : t.walk true FileTree.maxLinks (a.root.start a.base) a.above = .error e
  found : e ≠ .notFound

theorem makeLineage_of_blocked (base : h.base = a.base) (blocked : a.Blocked h.files e)
    (names : ∀ y ∈ a.above ++ q, IsName y) :
    ∃ e', (Disk.makeLineage (a.ways q) : StateM Host _) h = (.error e', h) := by
  have onward : h.files.walk true FileTree.maxLinks (a.root.start a.base) (a.above ++ q) = .error e := by
    by_cases more : q = []
    case pos => rw [more, List.append_nil, blocked.lost]
    case neg => exact FileTree.walk_append_of_error more blocked.lost
  have ne : a.above ++ q ≠ [] := by
    intro none
    rw [none, FileTree.walk_nil] at onward
    cases onward
  have ⟨e', found, failed⟩ := makeDirectory_of_stopped names ne
    ((FileTree.walk_unfollowed_of_error onward).imp_left fun lost => ⟨e, blocked.found, lost⟩)
  have absent : ¬((Disk.isDirectory (a.way q) : StateM Host Bool) h).1 = true := by
    rw [Disk.isDirectory_eq_true, base]
    rintro ⟨place, reached, _⟩
    rw [locate_way names ne] at reached
    obtain ⟨_, _, reached⟩ := bind_eq_ok.mp reached
    cases onward.symm.trans reached
  rw [← base] at failed
  have ⟨rest, ways⟩ := ways_of_ne_nil ne
  rw [ways, Disk.makeLineage_of_error found (Host.attempt_error failed), Disk.settle_apply, if_neg absent]
  exact ⟨e', rfl⟩

end Approach

namespace Directory

variable {d : Directory} {h h' : Host} {l : Location} {target : LockTarget} {r : Except StoreError Bool}

-- There is no way through the names of the directory's path, and not because one of them is missing: a
-- file stands where they lead through a directory, say, or one of them is too long.
def Blocked (d : Directory) (h : Host) : Prop :=
  ∃ e, (Approach.toFolder h.base d.root).Blocked h.files e

namespace Blocked

variable (blocked : d.Blocked h)
include blocked

theorem congr (files : h'.files = h.files) (base : h'.base = h.base) : d.Blocked h' := by
  rw [Blocked, files, base]
  exact blocked

theorem takeLock (located : d.lock? target = .ok l) :
    ∃ e, (d.takeLock target l : StateM Host _) h = (.error e, h) := by
  have ⟨_, lost⟩ := blocked
  have locates : (Approach.toFolder h.base d.root).Locates l ["locks"] := locates_lock rfl located
  have names : ∀ y ∈ l.folder.names, IsName y := fun _ => Path.isName_of_mem_names
  rw [locates.folder] at names
  have ⟨e, unmade⟩ := Approach.makeLineage_of_blocked rfl lost names
  rw [← locates.lineage] at unmade
  refine ⟨.inaccessible l.path e, ?_⟩
  simp only [Directory.takeLock, createLock, Disk.makeDirectories, bind_apply, unmade, pure_apply]

theorem tryLock (tried : d.onHost.tryLock target h = (r, h')) : r ≠ .ok true ∧ h' = h := by
  rw [tryLock_apply] at tried
  cases located : d.lock? target with
  | error e =>
    rw [located] at tried
    cases tried
    exact ⟨nofun, rfl⟩
  | ok l =>
    have ⟨e, refused⟩ := blocked.takeLock located
    rw [located] at tried
    cases refused.symm.trans tried
    exact ⟨nofun, rfl⟩

end Blocked

-- The system takes no path that starts like that of the directory.
def Refused (d : Directory) : Prop :=
  ∃ e, e ≠ .notFound ∧ d.root.check = .error e

theorem Refused.read (refused : d.Refused) {p : Path} (pre : d.root.text.toList <+: p.text.toList) :
    ∃ e, ∀ h : Host, h.files.read h.base p = .error e := by
  obtain ⟨e, found, refused⟩ := refused
  have filled : d.root.text ≠ "" := by
    intro empty
    have missing : d.root.check = .error .notFound := by simp [Path.check, empty]
    exact found (Except.error.inj (refused.symm.trans missing))
  cases check : p.check with
  | error e' => exact ⟨e', fun h => by rw [FileTree.read_eq, FileTree.locate_eq, check]; rfl⟩
  | ok => cases refused.symm.trans (Path.check_of_sublist filled pre.sublist check)

theorem prefix_path {x : String} (name : IsName x) (whole : '/' ∉ l.file.toList)
    (folder : l.folder = d.root ∨ l.folder = d.root.join ⟨x⟩) : d.root.text.toList <+: l.path.text.toList := by
  have last : l.folder.text.toList <+: l.path.text.toList := Path.text_prefix_join whole
  rcases folder with root | below
  · rwa [root] at last
  · exact (below ▸ Path.text_prefix_join name.whole).trans last

theorem unchanged_of_refused (refused : d.Refused) (h h' : Host) : d.Unchanged none h h' := by
  refine unchanged_of_reads (fun l holds => ?_) fun target bytes _ ⟨l, located, read⟩ => ?_
  case refine_1 =>
    have pre : d.root.text.toList <+: l.path.text.toList := by
      rcases holds with rfl | ⟨key, located⟩
      · exact prefix_path isName_historyFolder ends_apps.whole (.inl rfl)
      · have ⟨_, eq⟩ := history_eq_ok.mp located
        exact prefix_path isName_historyFolder (ends_history located).whole (.inr (by rw [eq]))
    have ⟨e, unread⟩ := refused.read pre
    rw [unread, unread]
  case refine_2 =>
    have ⟨_, eq⟩ := lock_eq_ok.mp located
    have ⟨e, unread⟩ := refused.read
      (prefix_path isName_lockFolder (ends_lock located).whole (.inr (by rw [eq])))
    cases (unread h').symm.trans read

theorem unchanged_of_files (files : h'.files = h.files) (base : h'.base = h.base) : d.Unchanged none h h' :=
  unchanged_of_reads (fun _ _ => by rw [files, base]) fun _ _ _ ⟨l, located, read⟩ =>
    ⟨l, located, by rwa [files, base] at read⟩

-- The path of the directory leads to a place from where it goes straight on, past no link and by names
-- that a directory can have. Or it leads nowhere, and not because something is missing.
def Steady (d : Directory) (h : Host) : Prop :=
  (∃ a : Approach, d.root = a.root ∧ a.On h) ∨ d.Blocked h ∨ d.Refused

section Linkless

-- Where the path comes to a missing entry, it goes on without steps back and by names that are not too
-- long.
def Grows (d : Directory) (h : Host) : Prop :=
  ∀ above below place, d.root.names = above ++ below →
    h.files.walk true FileTree.maxLinks (d.root.start h.base) above = .ok place →
    h.files.kind place = none → ∀ x ∈ below, x ≠ ".." ∧ Fits x

-- The names lead into directories, or up to the first one that does not.
theorem enter_cases (t : FileTree) (here : Place) (names : List String) :
    (∃ place, names.foldlM t.into here = .ok place) ∨
      ∃ above x below place, names = above ++ x :: below ∧ above.foldlM t.into here = .ok place ∧
        ∀ next, t.into place x ≠ .ok next := by
  induction names generalizing here with
  | nil => exact .inl ⟨here, rfl⟩
  | cons x names ih =>
    cases first : t.into here x with
    | error => exact .inr ⟨[], x, names, here, rfl, rfl, fun _ eq => nomatch first.symm.trans eq⟩
    | ok next =>
      simp only [List.foldlM_cons]
      rcases ih next with ⟨place, entered⟩ | ⟨above, y, below, place, rfl, entered, stop⟩
      · exact .inl ⟨place, by rw [first, ok_bind, entered]⟩
      · exact .inr ⟨x :: above, y, below, place, rfl, by rw [List.foldlM_cons, first, ok_bind, entered], stop⟩

theorem proper_of_stop {t : FileTree} {place : Place} {x : String} (name : IsName x)
    (directory : t.kind place = some .directory) (stop : ∀ next, t.into place x ≠ .ok next) : Proper x := by
  refine ⟨name.not_dot, ?_⟩
  rintro rfl
  exact stop _ (FileTree.into_eq_ok.mpr ⟨by decide, rfl, FileTree.directory_dropLast directory⟩)

-- Where the names lead no further, an entry is missing or a file stands there.
theorem kind_of_stop {t : FileTree} {place : Place} {x : String} (linkless : t.Linkless) (proper : Proper x)
    (fits : Fits x) (stop : ∀ next, t.into place x ≠ .ok next) :
    t.kind (place ++ [x]) = none ∨ ∃ bytes, t.kind (place ++ [x]) = some (.file bytes) := by
  cases there : t.kind (place ++ [x]) with
  | none => exact .inl rfl
  | some k =>
    cases k with
    | file bytes => exact .inr ⟨bytes, rfl⟩
    | link target => exact absurd there (linkless _ target)
    | directory =>
      exact absurd (FileTree.into_eq_ok.mpr ⟨fits, FileTree.turn_of_proper proper, there⟩) (stop _)

variable (sound : h.Linkless)
include sound

theorem on_of_entered {above below : List String} {x : String} {place : Place}
    (split : d.root.names = above ++ x :: below)
    (entered : above.foldlM h.files.into (d.root.start h.base) = .ok place) (proper : Proper x) (fits : Fits x)
    (straight : ∀ y ∈ below, y ≠ ".." ∧ Fits y) : ∃ a : Approach, d.root = a.root ∧ a.On h := by
  have start := Path.directory_start sound d.root
  refine ⟨⟨h.base, d.root, above, place, x :: below, split⟩, rfl, ?_, rfl⟩
  refine ⟨sound.distinct, FileTree.walk_of_enter sound.linkless start entered,
    FileTree.directory_of_enter start entered, fun y mem => ?_, fun _ _ target => sound.linkless _ target⟩
  rcases List.mem_cons.mp mem with rfl | among
  · exact ⟨proper, fits⟩
  · have named : IsName y := Path.isName_of_mem_names (split ▸ List.mem_append_right above mem)
    exact ⟨⟨named.not_dot, (straight y among).1⟩, (straight y among).2⟩

-- Without links, only a missing entry can keep the directory from being steady.
theorem Steady.of_grows (grows : d.Grows h) : d.Steady h := by
  have start := Path.directory_start sound d.root
  rcases enter_cases h.files (d.root.start h.base) d.root.names with
    entered | ⟨above, x, below, place, split, entered, stop⟩
  case inl => exact .inl ⟨_, rfl, Approach.on_toFolder sound rfl entered⟩
  have directory := FileTree.directory_of_enter start entered
  have name : IsName x := Path.isName_of_mem_names (p := d.root) (by simp [split])
  have proper : Proper x := proper_of_stop name directory stop
  obtain ⟨m, on⟩ := FileTree.walk_append (FileTree.walk_of_enter sound.linkless start entered) directory
  have onward (rest : List String) := on h.files (.refl _) true rest (.inr rfl)
  have blocked {e : Fault} (found : e ≠ .notFound)
      (lost : h.files.walk true m place (x :: below) = .error e) : d.Steady h := by
    refine .inr (.inl ⟨e, ?_, found⟩)
    rw [← onward, ← split] at lost
    exact lost
  by_cases fits : Fits x
  case neg => exact blocked (e := .nameTooLong) nofun (FileTree.walk_long proper (Nat.lt_of_not_le fits))
  rcases kind_of_stop sound.linkless proper fits stop with missing | ⟨bytes, file⟩
  case inl =>
    refine .inl (on_of_entered sound split entered proper fits ?_)
    refine grows (above ++ [x]) below (place ++ [x]) (by simp [split]) ?_ missing
    rw [onward, FileTree.walk_cons proper fits, missing]
    exact if_pos rfl
  case inr =>
    by_cases last : below = []
    case pos => exact .inl (on_of_entered sound split entered proper fits (last ▸ nofun))
    case neg =>
      refine blocked (e := .notDirectory) nofun ?_
      rw [FileTree.walk_cons proper fits, file]
      exact if_neg last

end Linkless

end Directory
end AirRelease
