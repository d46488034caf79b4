import AirRelease.Proofs.Files.Lineage
import AirRelease.Store.Directory

namespace AirRelease

open FileTree (Proper Fits)
open AirRelease.Path (IsName)

-- A name of something in a directory that ends on this character.
structure Ends (c : Char) (name : String) : Prop where
  whole : '/' ∉ name.toList
  last : name.toList.getLast? = some c

namespace Ends

variable {c c' : Char} {x y : String}

theorem append (front : String) (whole : '/' ∉ front.toList) (ends : Ends c x) : Ends c (front ++ x) where
  whole := by simp [whole, ends.whole]
  last := by simp [ends.last]

theorem ne (hx : Ends c x) (hy : Ends c' y) (ne : c ≠ c') : x ≠ y := by
  rintro rfl
  exact ne (Option.some.inj (hx.last.symm.trans hy.last))

theorem isName (ends : Ends c x) (ne : c ≠ '.') : IsName x where
  whole := ends.whole
  not_empty empty := by simp [empty] at ends; exact nomatch ends.last
  not_dot dot := ne (by simpa [dot] using ends.last.symm)

theorem proper (ends : Ends c x) (ne : c ≠ '.') : Proper x where
  not_dot := (ends.isName ne).not_dot
  not_up up := ne (by simpa [up] using ends.last.symm)

end Ends

-- The folder of the location is reached by these names from the end of the approach.
structure Approach.Locates (a : Approach) (l : Location) (trail : List String) : Prop where
  spells : ∀ y, IsName y → a.Spells (l.folder.join ⟨y⟩) (a.below ++ trail ++ [y])
  start : l.folder.IsAbsolute ↔ a.root.IsAbsolute
  folder : l.folder.names = a.above ++ (a.below ++ trail)
  passes : ∀ x ∈ trail, IsName x ∧ Proper x ∧ Fits x

namespace Approach

variable {a : Approach} {x : String}

theorem Locates.follows {l : Location} {t : FileTree} {trail : List String} {y : String}
    (locates : a.Locates l trail) (holds : a.Holds t) (proper : Proper y) :
    a.Follows (a.below ++ trail ++ [y]) where
  along := .inr (by rw [List.append_assoc]; exact List.prefix_append ..)
  proper x mem := by
    rcases List.mem_append.mp mem with mem | mem
    · rcases List.mem_append.mp mem with mem | mem
      · exact (holds.straight x mem).1
      · exact (locates.passes x mem).2.1
    · exact List.mem_singleton.mp mem ▸ proper

theorem Locates.fits {l : Location} {t : FileTree} {trail : List String} (locates : a.Locates l trail)
    (holds : a.Holds t) : ∀ x ∈ a.below ++ trail, Fits x :=
  List.forall_mem_append.mpr
    ⟨fun x mem => (holds.straight x mem).2, fun x mem => (locates.passes x mem).2.2⟩

theorem Locates.spells_path {l : Location} {trail : List String} (locates : a.Locates l trail)
    (name : IsName l.file) : a.Spells l.path (a.below ++ trail ++ [l.file]) :=
  locates.spells l.file name

theorem Locates.lineage {l : Location} {trail : List String} (locates : a.Locates l trail) :
    l.folder.lineage = a.ways (a.below ++ trail) :=
  lineage_eq locates.start locates.folder

theorem locates_root (file : String) : a.Locates ⟨a.root, file⟩ [] where
  spells y name := by simpa using spells_join name
  start := .rfl
  folder := by simp [a.split]
  passes := nofun

theorem locates_sub (name : IsName x) (proper : Proper x) (fits : Fits x) (file : String) :
    a.Locates ⟨a.root.join ⟨x⟩, file⟩ [x] where
  spells y second := spells_join_join name second
  start := Path.isAbsolute_join name.whole
  folder := by rw [Path.names_join name, a.split, List.append_assoc]
  passes y mem := by
    cases List.mem_singleton.mp mem
    exact ⟨name, proper, fits⟩

end Approach

namespace Location

-- The name of the file while it is written.
def draft (l : Location) (mark : String) : String :=
  l.file ++ "." ++ mark ++ ".tmp"

theorem temporary_eq (l : Location) (mark : String) : l.temporary mark = l.folder.join ⟨l.draft mark⟩ :=
  rfl

end Location

theorem ends_draft {l : Location} {mark : String} {c : Char} (ends : Ends c l.file)
    (whole : '/' ∉ mark.toList) : Ends 'p' (l.draft mark) := by
  refine Ends.append _ ?_ ⟨by decide, by decide⟩
  have file := ends.whole
  simp [file, whole]

-- The file of the location can be written under the name of a draft first.
structure Approach.Drafts (a : Approach) (l : Location) (trail : List String) (mark : String) : Prop
    extends a.Locates l trail where
  names : ∀ y ∈ a.above ++ (a.below ++ trail), IsName y
  named : IsName l.file
  spells_file : a.Spells l.path (a.below ++ trail ++ [l.file])
  spells_draft : a.Spells (l.temporary mark) (a.below ++ trail ++ [l.draft mark])
  proper_file : Proper l.file
  ends_draft : Ends 'p' (l.draft mark)
  ne : l.file ≠ l.draft mark

theorem Approach.Locates.drafts {a : Approach} {l : Location} {trail : List String} {mark : String}
    {c : Char} (locates : a.Locates l trail) (ends : Ends c l.file) (whole : '/' ∉ mark.toList)
    (dot : c ≠ '.') (ne : c ≠ 'p') : a.Drafts l trail mark where
  toLocates := locates
  names y mem := by
    rw [← List.append_assoc, ← a.split] at mem
    rcases List.mem_append.mp mem with mem | mem
    · exact Path.isName_of_mem_names mem
    · exact (locates.passes y mem).1
  named := ends.isName dot
  spells_file := locates.spells l.file (ends.isName dot)
  spells_draft := locates.spells (l.draft mark) ((ends_draft ends whole).isName nofun)
  proper_file := ends.proper dot
  ends_draft := ends_draft ends whole
  ne := ends.ne (ends_draft ends whole) ne

namespace Directory

variable {a : Approach} {d : Directory} {l l' : Location} {key : AccessKey} {target target' : LockTarget}

theorem locates_apps (root : d.root = a.root) : a.Locates d.apps [] := by
  rw [apps, root]
  exact Approach.locates_root _

theorem history_eq_ok : d.history? key = .ok l ↔
    key.PathSafe ∧ l = ⟨d.root.join ⟨"history"⟩, key.text ++ ".json"⟩ := by
  simp only [history?, ite_else_error_eq_ok, Except.ok.injEq]
  exact and_congr_right fun _ => eq_comm

theorem ends_historyFolder : Ends 'y' "history" :=
  ⟨by decide, by decide⟩

theorem ends_lockFolder : Ends 's' "locks" :=
  ⟨by decide, by decide⟩

theorem isName_historyFolder : IsName "history" :=
  ends_historyFolder.isName nofun

theorem isName_lockFolder : IsName "locks" :=
  ends_lockFolder.isName nofun

theorem locates_history (root : d.root = a.root) (located : d.history? key = .ok l) :
    a.Locates l ["history"] := by
  obtain ⟨_, rfl⟩ := history_eq_ok.mp located
  rw [root]
  exact Approach.locates_sub isName_historyFolder (ends_historyFolder.proper nofun) (by decide) _

def lockFile : LockTarget → String
  | .registry => "apps.lock"
  | .history key => "history-" ++ key.text ++ ".lock"

theorem lock_eq_ok : d.lock? target = .ok l ↔
    (∀ key, target = .history key → key.PathSafe) ∧ l = ⟨d.root.join ⟨"locks"⟩, lockFile target⟩ := by
  cases target with
  | registry => simp [lock?, lockFile, eq_comm]
  | history key =>
    simp only [lock?, ite_else_error_eq_ok, Except.ok.injEq, LockTarget.history.injEq, forall_eq']
    exact and_congr_right fun _ => eq_comm

theorem locates_lock (root : d.root = a.root) (located : d.lock? target = .ok l) :
    a.Locates l ["locks"] := by
  obtain ⟨_, rfl⟩ := lock_eq_ok.mp located
  rw [root]
  exact Approach.locates_sub isName_lockFolder (ends_lockFolder.proper nofun) (by decide) _

theorem whole_of_pathSafe (safe : key.PathSafe) : '/' ∉ key.text.toList := by
  intro mem
  have bad := List.all_eq_true.mp safe.2 _ mem
  exact absurd bad (by decide)

section Names

theorem ends_apps : Ends 'n' d.apps.file :=
  show Ends 'n' "apps.json" from ⟨by decide, by decide⟩

theorem ends_history (located : d.history? key = .ok l) : Ends 'n' l.file := by
  obtain ⟨safe, rfl⟩ := history_eq_ok.mp located
  exact Ends.append _ (whole_of_pathSafe safe) ⟨by decide, by decide⟩

theorem ends_lock (located : d.lock? target = .ok l) : Ends 'k' l.file := by
  obtain ⟨safe, rfl⟩ := lock_eq_ok.mp located
  cases target with
  | registry => exact show Ends 'k' "apps.lock" from ⟨by decide, by decide⟩
  | history key =>
    refine Ends.append _ ?_ ⟨by decide, by decide⟩
    have whole := whole_of_pathSafe (safe key rfl)
    simp [whole]

theorem lockFile_inj (same : lockFile target = lockFile target') : target = target' := by
  have first (key : AccessKey) : "apps.lock" ≠ "history-" ++ key.text ++ ".lock" := by
    intro eq
    have first := congrArg (·.toList.head?) eq
    simp at first
  match target, target' with
  | .registry, .registry => rfl
  | .registry, .history key => exact absurd same (first key)
  | .history key, .registry => exact absurd same.symm (first key)
  | .history ⟨key⟩, .history ⟨key'⟩ =>
    have text : key = key' := by simpa [lockFile] using same
    rw [text]

theorem file_lock_inj (located : d.lock? target = .ok l) (located' : d.lock? target' = .ok l')
    (same : l.file = l'.file) : target = target' := by
  obtain ⟨_, rfl⟩ := lock_eq_ok.mp located
  obtain ⟨_, rfl⟩ := lock_eq_ok.mp located'
  exact lockFile_inj same

end Names

end Directory
end AirRelease
