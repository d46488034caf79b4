import AirRelease.Proofs.Directory.Save
import AirRelease.Proofs.Files.Folder
import AirRelease.Proofs.Store.Format

namespace AirRelease

open FileTree (Proper Fits)
open AirRelease.Path (IsName)

namespace Directory

variable {d : Directory} {l : Location} {j : Json} {h h' h₁ : Host} {r : Except StoreError Unit}

-- Nothing keeps the file from being saved.
structure Saves (d : Directory) (l : Location) (h : Host) : Prop where
  folder : h.Open l.folder.lineage
  draft_check : (l.temporary d.mark).check = .ok ()
  draft_fits : Fits (l.draft d.mark)
  check : l.path.check = .ok ()
  fits : Fits l.file
  free : h.files.kind (l.path.place h.base) ≠ some .directory
  apart : ∀ p ∈ l.folder.lineage, p.place h.base ≠ l.path.place h.base ∧
    p.place h.base ≠ (l.temporary d.mark).place h.base

-- What becomes of the files. The one that is saved is replaced as a whole, or it is as it was. Only a path
-- with steps back can lead into a directory that was made for it.
structure Saved (d : Directory) (l : Location) (j : Json) (h : Host) (r : Except StoreError Unit)
    (h' : Host) : Prop where
  base : h'.base = h.base
  written : r = .ok () → h'.files.kind (l.path.place h.base) = some (.file j.pretty.toUTF8) ∧
    h'.files.read h'.base l.path = .ok j.pretty.toUTF8
  kept : r ≠ .ok () → h'.files.kind (l.path.place h.base) = h.files.kind (l.path.place h.base) ∨
    ".." ∈ l.folder.names ∧ Host.Made l.folder.lineage h h' (l.path.place h.base)
  elsewhere : ∀ place, place ≠ l.path.place h.base →
    h'.files.kind place = h.files.kind place ∨ Host.Made l.folder.lineage h h' place
  no_draft : ∀ bytes, h'.files.kind ((l.temporary d.mark).place h.base) ≠ some (.file bytes)
  complete : d.Saves l h → r = .ok ()

section Write

variable (sound : h.Linkless) (whole : '/' ∉ d.mark.toList) (ends : Ends 'n' l.file)
  (unused : h.files.kind ((l.temporary d.mark).place h.base) = none)
include sound whole ends

omit sound in
theorem place_temporary (base : Place) :
    (l.temporary d.mark).place base = l.folder.place base ++ [l.draft d.mark] := by
  have ends := ends_draft ends whole
  rw [Location.temporary_eq, Path.place_join (ends.isName nofun) (ends.proper nofun)]

omit sound whole in
theorem place_path (base : Place) : l.path.place base = l.folder.place base ++ [l.file] := by
  rw [Location.path, Path.place_join (ends.isName (by decide)) (ends.proper (by decide))]

include unused

-- First the folder is made. Then either the file changes or nothing else does.
theorem write_linkless : ∃ r h' h₁, (d.write j l : StateM Host _) h = (r, h') ∧
    h.Adds l.folder.lineage h₁ ∧ h'.base = h.base ∧
    (r = .ok () → h'.files.read h'.base l.path = .ok j.pretty.toUTF8 ∧ h'.files.kind =
      Function.update h₁.files.kind (l.path.place h.base) (some (.file j.pretty.toUTF8))) ∧
    (r ≠ .ok () → h'.files.kind = h₁.files.kind) ∧
    (d.Saves l h → r = .ok ()) := by
  have ⟨made, h₁, ran, adds, entered, complete⟩ := makeDirectories_linkless sound l.folder
  cases made with
  | error e =>
    exact ⟨_, h₁, h₁, write_of_unmade ran, adds, adds.base, nofun, fun _ => rfl,
      fun saves => nomatch complete saves.folder⟩
  | ok =>
    let a := Approach.toFolder h.base l.folder
    have on : a.On h₁ := Approach.on_toFolder (adds.linkless sound) adds.base (entered rfl)
    have drafts : a.Drafts l [] d.mark := (a.locates_root l.file).drafts ends whole nofun nofun
    have here : a.here ++ (a.below ++ []) = l.folder.place h.base := List.append_nil _
    have draft : a.here ++ (a.below ++ []) ++ [l.draft d.mark] = (l.temporary d.mark).place h.base := by
      rw [here, place_temporary whole ends]
    have file : a.here ++ (a.below ++ []) ++ [l.file] = l.path.place h.base := by rw [here, place_path ends]
    have ⟨r, h', ran, on', written, failed, able⟩ :=
      write_of_made drafts ran on (here ▸ on.holds.directory) (j := j)
    rw [draft, file] at written
    rw [draft] at failed
    have free (leaf : h₁.files.kind ((l.temporary d.mark).place h.base) ≠ some .directory) :
        Function.update h₁.files.kind ((l.temporary d.mark).place h.base) none = h₁.files.kind := by
      rcases adds.kind ((l.temporary d.mark).place h.base) with same | made
      · rw [← same.trans unused, Function.update_eq_self]
      · exact absurd made.made leaf
    refine ⟨r, h', h₁, ran, adds, on'.base, fun ok => ?_, fun bad => ?_, fun saves => ?_⟩
    case refine_1 =>
      have able := able.mp ok
      have kinds := written ok
      rw [free (draft ▸ able.draft)] at kinds
      refine ⟨?_, kinds⟩
      rw [on'.base]
      refine (on'.holds.read_eq_ok drafts.spells_file (drafts.follows on'.holds drafts.proper_file)).mpr
        ⟨able.check, ?_, ?_⟩
      · exact List.forall_mem_singleton.mpr able.fits
      · rw [file, kinds, Function.update_self]
    case refine_2 =>
      have ⟨k, kinds, before⟩ := failed bad
      rw [kinds]
      rcases before with rfl | ⟨rfl, leaf⟩
      · exact Function.update_eq_self _ _
      · exact free leaf
    case refine_3 =>
      have standing (place : Place) (leaf : h.files.kind place ≠ some .directory)
          (apart : ∀ p ∈ l.folder.lineage, p.place h.base ≠ place) :
          h₁.files.kind place ≠ some .directory := by
        rcases adds.kind place with same | ⟨_, _, p, mem, at_⟩
        · rwa [same]
        · exact absurd at_ (apart p mem)
      refine able.mpr ⟨⟨nofun, saves.draft_check, saves.draft_fits, saves.check, saves.fits⟩, ?_, ?_⟩
      · rw [draft]
        exact standing _ (ne_of_eq_of_ne unused nofun) fun p mem => (saves.apart p mem).2
      · rw [file]
        exact standing _ saves.free fun p mem => (saves.apart p mem).1

theorem saved_of_write : ∃ r h', (d.write j l : StateM Host _) h = (r, h') ∧ d.Saved l j h r h' := by
  have ⟨r, h', h₁, ran, adds, base, written, failed, complete⟩ := write_linkless sound whole ends unused (j := j)
  have elsewhere (place : Place) (ne : place ≠ l.path.place h.base) :
      h'.files.kind place = h.files.kind place ∨ Host.Made l.folder.lineage h h' place := by
    have same : h'.files.kind place = h₁.files.kind place := by
      by_cases ok : r = .ok ()
      · rw [(written ok).2, Function.update_of_ne ne]
      · rw [failed ok]
    rw [same]
    exact (adds.kind place).imp_right fun ⟨free, made, along⟩ => ⟨free, same.trans made, along⟩
  refine ⟨r, h', ran, base, fun ok => ?_, fun bad => ?_, elsewhere, fun bytes => ?_, complete⟩
  · have ⟨read, kinds⟩ := written ok
    exact ⟨by rw [kinds, Function.update_self], read⟩
  · have same := failed bad
    rcases adds.kind (l.path.place h.base) with kept | ⟨free, made, p, mem, at_⟩
    · exact .inl (by rw [same, kept])
    · refine .inr ⟨?_, free, by rw [same, made], p, mem, at_⟩
      by_contra straight
      exact Path.place_ne_entry mem straight (at_.trans (place_path ends h.base))
  · have ne : (l.temporary d.mark).place h.base ≠ l.path.place h.base := by
      rw [place_temporary whole ends, place_path ends]
      have other := ends.ne (ends_draft ends whole) nofun
      simpa using other.symm
    rcases elsewhere _ ne with same | made
    · rw [same, unused]
      exact nofun
    · rw [made.made]
      exact nofun

end Write

theorem loadApps_of_read {apps : Registry} (storable : apps.Storable)
    (read : h.files.read h.base d.apps.path = .ok apps.toJson.pretty.toUTF8) :
    d.onHost.loadApps h = (.ok apps, h) := by
  rw [loadApps_apply, read, answer, fromUTF8?_toUTF8]
  simp only [Registry.decode_pretty storable, mapError_ok]

theorem loadHistory_of_read {key : AccessKey} {history : History} (storable : history.Storable)
    (located : d.history? key = .ok l) (read : h.files.read h.base l.path = .ok history.toJson.pretty.toUTF8) :
    d.onHost.loadHistory key h = (.ok history, h) := by
  rw [loadHistory_apply, located]
  simp only [read, answer, fromUTF8?_toUTF8, History.decode_pretty storable, mapError_ok]

end Directory

-- The path of the directory may be any, and so may what stands there and around it, but for links. No
-- file has a name like those that are made for the drafts.
theorem save_all_or_nothing (d : Directory) (h : Host) (sound : h.Linkless) (whole : '/' ∉ d.mark.toList)
    (unused : ∀ (l : Location) (folder : Place), h.files.kind (folder ++ [l.draft d.mark]) = none) :
    (∀ apps : Registry, apps.Storable → ∃ r h', d.onHost.saveApps apps h = (r, h') ∧
      d.Saved d.apps apps.toJson h r h' ∧ (r = .ok () → d.onHost.loadApps h' = (.ok apps, h'))) ∧
    ∀ (key : AccessKey) (history : History),
      (¬key.PathSafe → d.onHost.saveHistory key history h = (.error (.badKey key), h)) ∧
      (key.PathSafe → history.Storable → ∃ r h', d.onHost.saveHistory key history h = (r, h') ∧
        d.Saved ⟨d.root.join ⟨"history"⟩, key.text ++ ".json"⟩ history.toJson h r h' ∧
        (r = .ok () → d.onHost.loadHistory key h' = (.ok history, h'))) := by
  have saved (l : Location) (ends : Ends 'n' l.file) (j : Json) :
      ∃ r h', (d.write j l : StateM Host _) h = (r, h') ∧ d.Saved l j h r h' :=
    Directory.saved_of_write sound whole ends (by rw [Directory.place_temporary whole ends, unused])
  refine ⟨fun apps storable => ?_, fun key history => ⟨fun other => ?_, fun safe storable => ?_⟩⟩
  case refine_1 =>
    obtain ⟨r, h', ran, spec⟩ := saved d.apps Directory.ends_apps apps.toJson
    exact ⟨r, h', ran, spec, fun ok => Directory.loadApps_of_read storable (spec.written ok).2⟩
  case refine_2 =>
    rw [Directory.saveHistory_apply, Directory.history?, if_neg other]
  case refine_3 =>
    have located := (Directory.history_eq_ok (d := d)).mpr ⟨safe, rfl⟩
    obtain ⟨r, h', ran, spec⟩ := saved _ (Directory.ends_history located) history.toJson
    refine ⟨r, h', ?_, spec, fun ok => Directory.loadHistory_of_read storable located (spec.written ok).2⟩
    rw [Directory.saveHistory_apply, located]
    exact ran

-- A computer where a directory has the name of the registry.
def misplaced : Host :=
  ⟨⟨[("apps.json", .directory [])]⟩, [], ⟨0, 0⟩, []⟩

theorem kind_misplaced {place : Place} (there : misplaced.files.kind place ≠ none) :
    place = [] ∨ place = ["apps.json"] := by
  match place with
  | [] => exact .inl rfl
  | name :: rest =>
    by_cases same : "apps.json" = name
    case pos =>
      subst same
      cases rest with
      | nil => exact .inr rfl
      | cons => exact absurd rfl there
    case neg => simp [misplaced, FileTree.kind, FileTree.at?, Node.at?, Node.under?, same] at there

theorem linkless_misplaced : misplaced.Linkless where
  distinct := .directory (List.pairwise_singleton ..) (List.forall_mem_singleton.mpr Node.distinct_empty)
  linkless := .of_node (.directory (List.forall_mem_singleton.mpr (.directory nofun)))
  base := rfl

theorem save_all_or_nothing_misplaced :
    let d : Directory := ⟨⟨"."⟩, "host", 1, "1"⟩
    let key : AccessKey := ⟨"k"⟩
    let fault : StoreError := .inaccessible ⟨"./apps.json"⟩ .isDirectory
    '/' ∉ d.mark.toList ∧ Registry.empty.Storable ∧ key.PathSafe ∧ History.empty.Storable ∧
      (d.onHost.saveApps .empty misplaced).1 = .error fault ∧
      (d.onHost.saveHistory key .empty misplaced).1 = .ok () ∧
      (∀ (l : Location) (folder : Place), misplaced.files.kind (folder ++ [l.draft d.mark]) = none) ∧
      d.Saved d.apps Registry.empty.toJson misplaced (.error fault) (d.onHost.saveApps .empty misplaced).2 ∧
      (d.onHost.loadHistory key (d.onHost.saveHistory key .empty misplaced).2).1 = .ok .empty := by
  intro d key fault
  have whole : '/' ∉ d.mark.toList := by decide
  have apps : Registry.empty.Storable := nofun
  have safe : key.PathSafe := by decide
  have history : History.empty.Storable := nofun
  have blocked : (d.onHost.saveApps .empty misplaced).1 = .error fault := by decide +kernel
  have saved : (d.onHost.saveHistory key .empty misplaced).1 = .ok () := by decide +kernel
  have unused (l : Location) (folder : Place) : misplaced.files.kind (folder ++ [l.draft d.mark]) = none := by
    by_contra there
    rcases kind_misplaced there with root | same
    · exact absurd root (by simp)
    · have last := congrArg (List.getLast? ·) same
      rw [List.getLast?_concat, List.getLast?_singleton] at last
      have text := congrArg (·.toList.getLast?) (Option.some.inj last)
      simp [Location.draft, d] at text
  obtain ⟨onApps, onHistory⟩ := save_all_or_nothing d misplaced linkless_misplaced whole unused
  obtain ⟨r, h', ran, spec, _⟩ := onApps .empty apps
  obtain ⟨r', h'', ran', _, loads⟩ := (onHistory key .empty).2 safe history
  rw [ran] at blocked
  rw [ran'] at saved
  cases blocked
  refine ⟨whole, apps, safe, history, by rw [ran], by rw [ran', saved], unused, ?_, ?_⟩
  · rw [ran]
    exact spec
  · rw [ran', loads saved]

theorem linkless_bare : bare.Linkless where
  distinct := Node.distinct_empty
  linkless := .of_node (.directory nofun)
  base := rfl

-- The directory that is made for the file to be in has the file's own name.
theorem not_kept_of_steps_back :
    ¬∀ (d : Directory) (h : Host), h.Linkless → '/' ∉ d.mark.toList →
      (∀ (l : Location) (folder : Place), h.files.kind (folder ++ [l.draft d.mark]) = none) →
      ∀ apps : Registry, apps.Storable → (d.onHost.saveApps apps h).1 ≠ .ok () →
        (d.onHost.saveApps apps h).2.files.kind (d.apps.path.place h.base) =
          h.files.kind (d.apps.path.place h.base) := by
  intro kept
  let d : Directory := ⟨⟨"apps.json/.."⟩, "host", 1, "1"⟩
  have unused (l : Location) (folder : Place) : bare.files.kind (folder ++ [l.draft d.mark]) = none := by
    cases folder <;> rfl
  have failed : (d.onHost.saveApps .empty bare).1 =
      .error (.inaccessible ⟨"apps.json/../apps.json"⟩ .isDirectory) := by decide +kernel
  have made : ((d.onHost.saveApps .empty bare).2.files.kind ["apps.json"]).isSome := by decide +kernel
  have target : d.apps.path.place bare.base = ["apps.json"] := by decide +kernel
  have same := kept d bare linkless_bare (by decide) unused .empty nofun (by rw [failed]; exact nofun)
  rw [target] at same
  rw [same] at made
  cases made

end AirRelease
