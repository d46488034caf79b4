import AirRelease.Proofs.Directory.Mirror

namespace AirRelease

open FileTree (Proper)
open AirRelease.Path (IsName)

namespace Path

-- The name up to its last dot, if anything precedes it.
def fileStem (name : String) : String :=
  match name.toList.reverse.span (· ≠ '.') with
  | (_, '.' :: c :: before) => String.ofList (c :: before).reverse
  | _ => name

theorem fileStem_append {stem ext : String} (some : stem ≠ "") (none : '.' ∉ ext.toList) :
    fileStem (stem ++ "." ++ ext) = stem := by
  obtain ⟨c, before, eq⟩ : ∃ c before, stem.toList.reverse = c :: before :=
    List.exists_cons_of_ne_nil (by simpa using some)
  have split : (stem ++ "." ++ ext).toList.reverse = ext.toList.reverse ++ '.' :: c :: before := by
    simp [← eq]
  have past : ∀ x ∈ ext.toList.reverse, decide (x ≠ '.') := fun x mem =>
    decide_eq_true fun dot => none (dot ▸ List.mem_reverse.mp mem)
  have span : (ext.toList.reverse ++ '.' :: c :: before).span (· ≠ '.') =
      (ext.toList.reverse, '.' :: c :: before) := by
    rw [List.span_eq_takeWhile_dropWhile, List.takeWhile_append_of_pos past, List.dropWhile_append_of_pos past]
    simp
  rw [fileStem, split, span]
  show String.ofList (c :: before).reverse = stem
  rw [← eq, List.reverse_reverse, String.ofList_toList]

end Path

namespace Location

-- The path with another extension of the file.
def withExtension (l : Location) (ext : String) : Path :=
  l.folder.join ⟨Path.fileStem l.file ++ "." ++ ext⟩

-- The path is the folder's and one more name, which leads to something in it.
structure In (l : Location) (folder : Path) : Prop where
  text   : l.path.text = folder.text ++ "/" ++ l.file
  names  : l.path.names = folder.names ++ [l.file]
  isName : IsName l.file
  proper : Proper l.file

-- What is written first goes to another place in the folder, which no file of a store has.
structure DraftsApart (l : Location) (ext mark : String) : Prop where
  replaces : l.temporary mark = l.withExtension (ext ++ "." ++ mark ++ ".tmp")
  beside   : l.temporary mark = l.folder.join ⟨l.draft mark⟩
  isName   : IsName (l.draft mark)
  proper   : Proper (l.draft mark)
  apart    : ∀ slot : Slot, l.draft mark ≠ slot.file

variable {l : Location} {mark : String} {c : Char}

theorem in_of_ends {root : Path} {x : String} (folder : l.folder = root.join ⟨x⟩) (name : IsName x)
    (ends : Ends c l.file) (dot : c ≠ '.') : l.In l.folder where
  text := by
    have isName := ends.isName dot
    rw [path, folder, Path.text_join_join name isName.whole, Path.text_join name.whole]
  names := Path.names_join (ends.isName dot)
  isName := ends.isName dot
  proper := ends.proper dot

theorem draftsApart_of_ends {stem ext : String} (ends : Ends c l.file) (file : l.file = stem ++ "." ++ ext)
    (some : stem ≠ "") (none : '.' ∉ ext.toList) (whole : '/' ∉ mark.toList) : l.DraftsApart ext mark where
  replaces := by
    rw [temporary_eq, withExtension, file, Path.fileStem_append some none, draft, file]
    simp [String.append_assoc]
  beside := l.temporary_eq mark
  isName := (ends_draft ends whole).isName nofun
  proper := (ends_draft ends whole).proper nofun
  apart slot := (slot.file_ne (ends_draft ends whole) nofun nofun).symm

end Location

namespace Slot

def extension : Slot → String
  | apps | history _ => "json"
  | lock _ => "lock"

theorem extension_whole (slot : Slot) : '.' ∉ slot.extension.toList := by
  match slot with
  | apps | history _ => exact show '.' ∉ "json".toList by decide
  | lock _ => exact show '.' ∉ "lock".toList by decide

end Slot

namespace Directory

variable {d : Directory} {l l' : Location} {slot slot' : Slot} {mark : String}

def locate? (d : Directory) : Slot → Except StoreError Location
  | .apps => .ok d.apps
  | .history key => d.history? key
  | .lock target => d.lock? target

def folder (d : Directory) : Slot → Path
  | .apps => d.root
  | .history _ => d.root.join ⟨"history"⟩
  | .lock _ => d.root.join ⟨"locks"⟩

theorem names_folder (d : Directory) (slot : Slot) : (d.folder slot).names = d.root.names ++ slot.trail := by
  cases slot with
  | apps => exact (List.append_nil _).symm
  | history => exact Path.names_join isName_historyFolder
  | lock => exact Path.names_join isName_lockFolder

theorem eq_of_locate? (located : d.locate? slot = .ok l) : l = ⟨d.folder slot, slot.file⟩ := by
  cases slot with
  | apps =>
    cases located
    rfl
  | history => exact (history_eq_ok.mp located).2
  | lock => exact (lock_eq_ok.mp located).2

theorem ends_of_locate? (located : d.locate? slot = .ok l) : ∃ c, Ends c l.file ∧ c ≠ '.' := by
  cases slot with
  | apps =>
    cases located
    exact ⟨'n', ends_apps, nofun⟩
  | history key => exact ⟨'n', ends_history located, nofun⟩
  | lock target => exact ⟨'k', ends_lock located, nofun⟩

theorem path_names_of_locate? (located : d.locate? slot = .ok l) :
    l.path.names = d.root.names ++ slot.trail ++ [slot.file] := by
  obtain ⟨c, ends, dot⟩ := ends_of_locate? located
  rw [Location.path, Path.names_join (ends.isName dot), eq_of_locate? located, names_folder]

theorem slot_eq_of_path_names (located : d.locate? slot = .ok l) (located' : d.locate? slot' = .ok l')
    (same : l.path.names = l'.path.names) : slot = slot' := by
  rw [path_names_of_locate? located, path_names_of_locate? located'] at same
  obtain ⟨trail, file⟩ := List.append_inj' same rfl
  exact Slot.eq_of_file (List.append_cancel_left trail) (List.cons.inj file).1

theorem stem_of_locate? (located : d.locate? slot = .ok l) :
    ∃ stem, stem ≠ "" ∧ l.file = stem ++ "." ++ slot.extension := by
  rw [eq_of_locate? located]
  match slot with
  | .apps => exact ⟨"apps", by decide, rfl⟩
  | .history key =>
    have safe := (history_eq_ok.mp located).1
    exact ⟨key.text, safe.1, by simp [Slot.file, Slot.extension, String.append_assoc]⟩
  | .lock .registry => exact ⟨"apps", by decide, rfl⟩
  | .lock (.history key) =>
    exact ⟨"history-" ++ key.text, by simp, by simp [Slot.file, lockFile, Slot.extension, String.append_assoc]⟩

theorem draftsApart_of_locate? (located : d.locate? slot = .ok l) (whole : '/' ∉ mark.toList) :
    l.DraftsApart slot.extension mark := by
  obtain ⟨c, ends, _⟩ := ends_of_locate? located
  obtain ⟨stem, some, file⟩ := stem_of_locate? located
  exact Location.draftsApart_of_ends ends file some slot.extension_whole whole

theorem history_in_folder (d : Directory) (key : AccessKey) :
    d.history? key = .error (.badKey key) ∨ ∃ l, d.history? key = .ok l ∧ l.In (d.root.join ⟨"history"⟩) := by
  by_cases safe : key.PathSafe
  case neg => exact .inl (if_neg safe)
  case pos =>
    have located : d.history? key = .ok _ := history_eq_ok.mpr ⟨safe, rfl⟩
    exact .inr ⟨_, located, Location.in_of_ends rfl isName_historyFolder (ends_history located) nofun⟩

theorem lock_in_folder (d : Directory) (target : LockTarget) :
    (∃ key, target = .history key ∧ d.lock? target = .error (.badKey key)) ∨
      ∃ l, d.lock? target = .ok l ∧ l.In (d.root.join ⟨"locks"⟩) := by
  by_cases safe : ∀ key, target = .history key → key.PathSafe
  case neg =>
    push Not at safe
    obtain ⟨key, rfl, bad⟩ := safe
    exact .inl ⟨key, rfl, if_neg bad⟩
  case pos =>
    have located : d.lock? target = .ok _ := lock_eq_ok.mpr ⟨safe, rfl⟩
    exact .inr ⟨_, located, Location.in_of_ends rfl isName_lockFolder (ends_lock located) nofun⟩

theorem files_apart (d : Directory) (whole : '/' ∉ d.mark.toList) :
    (∀ key, d.history? key = .error (.badKey key) ∨
      ∃ l, d.history? key = .ok l ∧ l.In (d.root.join ⟨"history"⟩)) ∧
    (∀ target, (∃ key, target = .history key ∧ d.lock? target = .error (.badKey key)) ∨
      ∃ l, d.lock? target = .ok l ∧ l.In (d.root.join ⟨"locks"⟩)) ∧
    (∀ slot slot' l l', d.locate? slot = .ok l → d.locate? slot' = .ok l' → slot ≠ slot' →
      l.path.names ≠ l'.path.names) ∧
    ∀ slot l, d.locate? slot = .ok l → l.DraftsApart slot.extension d.mark ∧
      ∀ slot' l', d.locate? slot' = .ok l' → (l.temporary d.mark).names ≠ l'.path.names := by
  refine ⟨d.history_in_folder, d.lock_in_folder, ?_, fun slot l located => ?_⟩
  · exact fun slot slot' l l' located located' => mt (slot_eq_of_path_names located located')
  · have draft := draftsApart_of_locate? located whole
    refine ⟨draft, fun slot' l' located' same => draft.apart slot' ?_⟩
    rw [draft.beside, Path.names_join draft.isName, path_names_of_locate? located'] at same
    exact (List.cons.inj (List.append_inj' same rfl).2).1

-- A key that would lead out of the folder, and one that is in order.
theorem files_apart_of_keys :
    let d : Directory := ⟨⟨"/srv/store"⟩, "ann", 1, "0f"⟩
    d.history? ⟨"../apps"⟩ = .error (.badKey ⟨"../apps"⟩) ∧
    ∃ l l', d.history? ⟨"a-b"⟩ = .ok l ∧ d.lock? (.history ⟨"a-b"⟩) = .ok l' ∧
      l.path = ⟨"/srv/store/history/a-b.json"⟩ ∧ l'.path = ⟨"/srv/store/locks/history-a-b.lock"⟩ ∧
      l.In (d.root.join ⟨"history"⟩) ∧ l.path.names ≠ l'.path.names ∧ l.DraftsApart "json" d.mark ∧
      (l'.temporary d.mark).names ≠ l.path.names := by
  intro d
  obtain ⟨histories, _, apart, drafts⟩ := files_apart d (by decide)
  have history : d.locate? (.history ⟨"a-b"⟩) = .ok _ := rfl
  have lock : d.locate? (.lock (.history ⟨"a-b"⟩)) = .ok _ := rfl
  refine ⟨?_, _, _, history, lock, by decide +kernel, by decide +kernel, ?_, ?_, ?_, ?_⟩
  · rcases histories ⟨"../apps"⟩ with bad | ⟨l, located, _⟩
    · exact bad
    · exact absurd located nofun
  · obtain ⟨l, located, within⟩ := (histories ⟨"a-b"⟩).resolve_left nofun
    cases located
    exact within
  · exact apart _ _ _ _ history lock nofun
  · exact (drafts _ _ history).1
  · exact (drafts _ _ lock).2 _ _ history

end Directory
end AirRelease
