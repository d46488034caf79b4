import AirRelease.Proofs.Directory.Mirror
import AirRelease.Proofs.Service.Drops

namespace AirRelease

open FileTree (Proper Fits)
open AirRelease.Path (IsName)

namespace Approach

variable {a : Approach} {h h' h'' : Host} {k : Option Kind} {trail : List String} {x : String}

theorem history_ne_entry {rest : List String} (elsewhere : (trail ++ [x]).head? ≠ some "history") :
    a.here ++ (a.below ++ "history" :: rest) ≠ a.here ++ (a.below ++ trail) ++ [x] := by
  intro same
  rw [List.append_assoc, List.append_assoc] at same
  have same := List.append_cancel_left (List.append_cancel_left same)
  exact elsewhere (same ▸ rfl)

-- On the way to a history.
theorem way_cases {r : List String} {file : String} (pre : r <+: a.below ++ ["history"] ++ [file]) :
    r <+: a.below ∨ ∃ rest, r = a.below ++ "history" :: rest := by
  rw [List.append_assoc] at pre
  rcases List.prefix_or_prefix_of_prefix pre (List.prefix_append ..) with short | ⟨s, rfl⟩
  · exact .inl short
  · cases s with
    | nil => exact .inl (by simp)
    | cons x rest =>
      have ⟨first, _⟩ := List.cons_prefix_cons.mp ((List.prefix_append_right_inj _).mp pre)
      exact .inr ⟨rest, by rw [first]⟩

theorem way_ne_entry {r : List String} {file : String} (pre : r <+: a.below ++ ["history"] ++ [file])
    (elsewhere : (trail ++ [x]).head? ≠ some "history") : a.here ++ r ≠ a.here ++ (a.below ++ trail) ++ [x] := by
  rcases way_cases pre with short | ⟨rest, rfl⟩
  · exact entry_ne_way (short.trans (List.prefix_append ..))
  · exact history_ne_entry elsewhere

-- The removal of a file and the reading of it miss the same.
theorem misses_of_remove {p : Path} {q : List String} (on : a.On h) (spells : a.Spells p q)
    (follows : a.Follows q) (ne : q ≠ []) (failed : (Disk.remove p : StateM Host _) h = (.error .notFound, h)) :
    h.files.Misses a.base true p := by
  have lost : h.files.remove a.base p = .error .notFound := by
    rw [Disk.remove_apply] at failed
    rcases Host.attempt_cases (·.remove · p) h with ⟨_, _, ran⟩ | ⟨_, lost, ran⟩
    · cases ran.symm.trans failed
    · cases ran.symm.trans failed
      exact on.base ▸ lost
  have same : h.files.locate a.base true p = h.files.locate a.base false p := by
    rw [on.holds.locate_eq spells follows ne, on.holds.locate_eq spells follows ne]
  rw [FileTree.Misses, same]
  exact FileTree.misses_of_remove lost

-- Nothing has changed in the directory of the histories.
def SparesHistories (a : Approach) (h h' : Host) : Prop :=
  ∀ rest, h'.files.kind (a.here ++ (a.below ++ "history" :: rest)) =
    h.files.kind (a.here ++ (a.below ++ "history" :: rest))

namespace SparesHistories

theorem refl (a : Approach) (h : Host) : a.SparesHistories h h :=
  fun _ => rfl

theorem trans (first : a.SparesHistories h h') (second : a.SparesHistories h' h'') : a.SparesHistories h h'' :=
  fun rest => (second rest).trans (first rest)

theorem of_update (changed : h'.files.kind = Function.update h.files.kind (a.here ++ (a.below ++ trail) ++ [x]) k)
    (elsewhere : (trail ++ [x]).head? ≠ some "history") : a.SparesHistories h h' := by
  intro rest
  rw [changed, Function.update_of_ne (history_ne_entry elsewhere)]

theorem of_makesAlong (makes : a.MakesAlong (a.below ++ trail) h h') (elsewhere : trail.head? ≠ some "history") :
    a.SparesHistories h h' := by
  intro rest
  refine (makes.kind _).resolve_right fun ⟨_, _, front, pre, at_⟩ => ?_
  rw [← List.append_cancel_left at_] at pre
  obtain ⟨more, eq⟩ := (List.prefix_append_right_inj _).mp pre
  exact elsewhere (eq ▸ rfl)

end SparesHistories

end Approach

namespace Directory

variable {a : Approach} {d : Directory} {h h' : Host} {l : Location} {key : AccessKey} {target : LockTarget}
  (root : d.root = a.root)
include root

section Lock

variable (on : a.On h)
include on

theorem spares_removeLock (located : d.lock? target = .ok l) :
    a.SparesHistories h ((Disk.remove l.path : StateM Host _) h).2 := by
  have locates := locates_lock root located
  have ends := ends_lock located
  rcases Approach.remove_tries on (locates.spells_path (ends.isName nofun))
    (locates.follows on.holds (ends.proper nofun)) with ⟨h', removed, _, _, kinds⟩ | ⟨_, kept, _⟩
  · rw [removed]
    exact .of_update kinds (by simp)
  · rw [kept]
    exact .refl a h

theorem spares_breakLock (located : d.lock? target = .ok l) :
    a.SparesHistories h ((breakLock l : StateM Host _) h).2 := by
  have goes : a.SparesHistories h ((breakLock.go l : StateM Host _) h).2 := by
    simp only [breakLock.go, bind_apply, pure_apply, remove_state]
    exact spares_removeLock root on located
  simp only [breakLock, bind_apply, readText_apply]
  cases textOf (h.files.read h.base l.path) with
  | error e => cases e <;> exact .refl a h
  | ok text =>
    have now : (Clock.now : StateM Host _) h = (h.time, h) := rfl
    simp only [bind_apply, now]
    cases Json.decode LockNote.decoder text with
    | error => exact goes
    | ok note =>
      by_cases stale : note.Stale h.time
      case pos => simpa only [if_pos stale] using goes
      case neg =>
        simp only [if_neg stale]
        exact .refl a h

variable (whole : '/' ∉ d.mark.toList)
include whole

theorem spares_createLock (located : d.lock? target = .ok l) :
    a.SparesHistories h ((d.createLock target l : StateM Host _) h).2 := by
  have drafts := (locates_lock root located).drafts (ends_lock located) whole nofun nofun
  have follows := drafts.follows on.holds drafts.proper_file
  have follows' := drafts.follows on.holds (drafts.ends_draft.proper nofun)
  have ⟨r, h₁, made, along, on₁, _⟩ :=
    Approach.makeLineage_spec on drafts.names (follows.of_prefix (List.prefix_append ..))
  have way : a.SparesHistories h h₁ := .of_makesAlong along (by simp)
  simp only [createLock, bind_apply, Disk.makeDirectories, drafts.lineage, made]
  cases r with
  | error => exact way
  | ok =>
    have now : (Clock.now : StateM Host _) h₁ = (h₁.time, h₁) := rfl
    simp only [bind_apply, now]
    generalize (LockNote.toJson ⟨d.holder, d.process, h₁.time, target.text⟩).line.toUTF8 = bytes
    rcases Approach.write_tries on₁ drafts.spells_draft follows' bytes with
      ⟨h₂, written, on₂, _, kinds₂⟩ | ⟨e, failed, _⟩
    case inr =>
      simp only [failed]
      exact way
    case inl =>
      have file₂ : h₂.files.kind (a.here ++ (a.below ++ ["locks"]) ++ [l.draft d.mark]) =
          some (.file bytes) := by rw [kinds₂, Function.update_self]
      have drafted : a.SparesHistories h₁ h₂ := .of_update kinds₂ (by simp)
      simp only [written, bind_apply]
      have cleaned {h₃ : Host} (on₃ : a.On h₃) :
          a.SparesHistories h₃ ((Disk.remove (l.temporary d.mark) : StateM Host _) h₃).2 := by
        rcases Approach.remove_tries on₃ drafts.spells_draft follows' with
          ⟨h₄, removed, _, _, kinds₄⟩ | ⟨_, kept, _⟩
        · rw [removed]
          exact .of_update kinds₄ (by simp)
        · rw [kept]
          exact .refl a h₃
      rcases Approach.link_tries on₂ drafts.spells_draft follows' drafts.spells_file follows file₂ with
        ⟨h₃, linked, on₃, _, kinds₃⟩ | ⟨e, failed, _⟩
      case inl =>
        simp only [linked]
        exact (way.trans drafted).trans (.trans (.of_update kinds₃ (by simp)) (cleaned on₃))
      case inr =>
        simp only [failed]
        have spares := (way.trans drafted).trans (cleaned on₂)
        cases e <;> simpa only [pure_apply] using spares

theorem spares_tryLock (target : LockTarget) : a.SparesHistories h (d.onHost.tryLock target h).2 := by
  rw [tryLock_apply]
  cases located : d.lock? target with
  | error e => exact .refl a h
  | ok l =>
    have ⟨r, h₁, created, _, unchanged, _⟩ := createLock_spec root whole on located
    have spares := spares_createLock root on whole located
    simp only [takeLock, bind_apply, created] at spares ⊢
    by_cases busy : r = .ok false
    case neg =>
      rcases r with _ | _ | _
      · exact spares
      · exact absurd rfl busy
      · exact spares
    case pos =>
      subst busy
      have on₁ := (unchanged (by simp)).2
      have spares := spares.trans (spares_breakLock root on₁ located)
      have on₂ := (breakLock_spec root located on₁).1
      simp only [bind_apply]
      rcases broke : (breakLock l : StateM Host _) h₁ with ⟨e | _ | _, h₂⟩
      all_goals rw [broke] at on₂ spares
      · exact spares
      · exact spares
      · exact spares.trans (spares_createLock root on₂ whole located)

end Lock

-- The history is stored as it was: it loads as before, and the same is in its place.
structure SameHistory (d : Directory) (a : Approach) (key : AccessKey) (h h' : Host) : Prop where
  loads : (d.onHost.loadHistory key h').1 = (d.onHost.loadHistory key h).1
  files : ∀ rest, h'.files.kind (a.file (.history key) ++ rest) = h.files.kind (a.file (.history key) ++ rest)

namespace SameHistory

omit root

theorem refl (d : Directory) (a : Approach) (key : AccessKey) (h : Host) : d.SameHistory a key h h :=
  ⟨rfl, fun _ => rfl⟩

theorem trans {h'' : Host} (first : d.SameHistory a key h h') (second : d.SameHistory a key h' h'') :
    d.SameHistory a key h h'' where
  loads := second.loads.trans first.loads
  files rest := (second.files rest).trans (first.files rest)

theorem of_spares (loads : (d.onHost.loadHistory key h').1 = (d.onHost.loadHistory key h).1)
    (spares : a.SparesHistories h h') : d.SameHistory a key h h' where
  loads := loads
  files rest := by
    have same := spares ((Slot.history key).file :: rest)
    simpa [Approach.file, Slot.trail] using same

end SameHistory

-- The histories do not notice a change that is neither of them nor on the way to them.
theorem loadHistory_of_kinds (on : a.On h) (on' : a.On h')
    (same : ∀ l, d.history? key = .ok l → ∀ r, r <+: a.below ++ ["history"] ++ [l.file] →
      h'.files.kind (a.here ++ r) = h.files.kind (a.here ++ r)) :
    (d.onHost.loadHistory key h').1 = (d.onHost.loadHistory key h).1 := by
  rw [loadHistory_apply, loadHistory_apply]
  cases located : d.history? key with
  | error => rfl
  | ok l =>
    have locates := locates_history root located
    have ends := ends_history located
    have read : h'.files.read a.base l.path = h.files.read a.base l.path :=
      on.holds.read_congr on'.holds (locates.spells_path (ends.isName nofun))
        (locates.follows on.holds (ends.proper nofun)) (by simp) (same l located)
    simp only [on.base, on'.base, read]

section Whole

variable (on : a.On h) (whole : '/' ∉ d.mark.toList)
include on whole

theorem spares_of_tryLock (target : LockTarget) :
    d.onHost.Spares a.On (d.SameHistory a) h (d.onHost.tryLock target h).2 := by
  have spares := spares_tryLock root on whole target
  obtain ⟨r, h', tried, taken, busy⟩ := tryLock_spec root whole on
  rw [tried] at spares ⊢
  by_cases free : r = .ok true
  case pos =>
    have ⟨on', unchanged, _⟩ := taken free
    exact ⟨on', fun key => .of_spares (unchanged.history key) spares, unchanged.apps⟩
  case neg =>
    have ⟨on', unchanged⟩ := busy free
    exact ⟨on', fun key => .of_spares (unchanged.history key) spares, unchanged.apps⟩

omit whole in
theorem spares_of_unlock (target : LockTarget) :
    d.onHost.Spares a.On (d.SameHistory a) h (d.onHost.unlock target h).2 := by
  rw [unlock_apply]
  cases located : d.lock? target with
  | error => exact ⟨on, fun key => .refl d a key h, rfl⟩
  | ok l =>
    have ⟨on', unchanged⟩ := remove_lock root located on none
    exact ⟨on', fun key => .of_spares (unchanged.history key) (spares_removeLock root on located), unchanged.apps⟩

theorem sameHistory_of_saveApps {apps : Registry} (saved : d.onHost.saveApps apps h = (.ok (), h')) :
    a.On h' ∧ ∀ key, d.SameHistory a key h h' := by
  have drafts := (locates_apps root).drafts ends_apps whole nofun nofun
  have follows := drafts.follows on.holds drafts.proper_file
  have ⟨r, h₁, made, along, on₁, there, _⟩ :=
    Approach.makeLineage_spec on drafts.names (follows.of_prefix (List.prefix_append ..))
  rw [← drafts.lineage] at made
  have saved : (d.write apps.toJson d.apps : StateM Host _) h = (.ok (), h') := saved
  cases r with
  | error e =>
    rw [write_of_unmade made] at saved
    exact nomatch (Prod.mk.inj saved).1
  | ok =>
    have ⟨r, h₂, ran, on', kinds, _⟩ := write_of_made drafts made on₁ (there rfl) (j := apps.toJson)
    cases saved.symm.trans ran
    have kinds := kinds rfl
    have draft : ([] ++ [d.apps.draft d.mark]).head? ≠ some "history" := by
      simpa using drafts.ends_draft.ne ends_historyFolder nofun
    have file : ([] ++ [d.apps.file]).head? ≠ some "history" :=
      show some "apps.json" ≠ some "history" by decide
    have pre : a.below ++ [] <+: a.below ++ ["locks"] := by simp
    have unchanged : d.Unchanged none h h₁ := (unchanged_of_makesAlong root on (along.mono pre)).1
    have way : a.SparesHistories h h₁ := .of_makesAlong along nofun
    have spares : a.SparesHistories h₁ h' := fun rest => by
      rw [kinds, Function.update_of_ne (Approach.history_ne_entry file),
        Function.update_of_ne (Approach.history_ne_entry draft)]
    refine ⟨on', fun key => .of_spares ?_ (way.trans spares)⟩
    refine (loadHistory_of_kinds root on₁ on' fun l _ r pre => ?_).trans (unchanged.history key)
    rw [kinds, Function.update_of_ne (Approach.way_ne_entry pre file),
      Function.update_of_ne (Approach.way_ne_entry pre draft)]

omit whole in
-- Unless something keeps it, the file is gone afterwards, and nothing else has changed.
theorem remove_history (located : d.history? key = .ok l) :
    (∃ h' k, (remove l : StateM Host _) h = (.ok (), h') ∧ a.On h' ∧ h'.files.Misses a.base true l.path ∧
      h'.files.kind = Function.update h.files.kind (a.file (.history key)) k) ∨
    ∃ e, (remove l : StateM Host _) h = (.error e, h) := by
  have locates := locates_history root located
  have ends := ends_history located
  have spells := locates.spells_path (ends.isName nofun)
  have follows := locates.follows on.holds (ends.proper nofun)
  have place : a.here ++ (a.below ++ ["history"]) ++ [l.file] = a.file (.history key) := by
    rw [(history_eq_ok.mp located).2]
    rfl
  rcases Approach.remove_tries on spells follows with ⟨h', removed, on', ⟨reach, _⟩, kinds⟩ | ⟨e, failed, _⟩
  case inl =>
    have gone : h'.files.kind (a.here ++ (a.below ++ ["history"]) ++ [l.file]) = none := by
      rw [kinds, Function.update_self]
    have found : h'.files.locate a.base true l.path = .ok _ :=
      (Approach.locate_iff on'.holds spells follows).mpr ⟨rfl, reach.update kinds⟩
    exact .inl ⟨h', none, by simp only [remove, bind_apply, removed, pure_apply], on', .inr ⟨_, found, gone⟩,
      place ▸ kinds⟩
  case inr =>
    by_cases missing : e = .notFound
    case neg =>
      refine .inr ⟨.inaccessible l.path e, ?_⟩
      simp only [remove, bind_apply, failed]
      rfl
    case pos =>
      subst missing
      have misses := Approach.misses_of_remove on spells follows (by simp) failed
      exact .inl ⟨h, _, by simp only [remove, bind_apply, failed, pure_apply], on, misses,
        (Function.update_eq_self _ _).symm⟩

omit whole in
theorem eq_of_deleteHistory_eq_error {e : StoreError} (failed : d.onHost.deleteHistory key h = (.error e, h')) :
    h' = h := by
  rw [deleteHistory_apply] at failed
  cases located : d.history? key with
  | error =>
    rw [located] at failed
    exact (Prod.mk.inj failed).2.symm
  | ok l =>
    simp only [located] at failed
    rcases remove_history root on located with ⟨_, _, removed, _⟩ | ⟨_, kept⟩
    · exact nomatch removed.symm.trans failed
    · exact (Prod.mk.inj (failed.symm.trans kept)).2

omit whole in
theorem deleted_of_deleteHistory (deleted : d.onHost.deleteHistory key h = (.ok (), h')) :
    a.On h' ∧ (d.onHost.loadHistory key h').1 = .ok .empty ∧ ∀ other, other ≠ key → d.SameHistory a other h h' := by
  rw [deleteHistory_apply] at deleted
  cases located : d.history? key with
  | error =>
    rw [located] at deleted
    exact nomatch (Prod.mk.inj deleted).1
  | ok l =>
    simp only [located] at deleted
    rcases remove_history root on located with ⟨h₁, k, removed, on', misses, kinds⟩ | ⟨_, kept⟩
    case inr => exact nomatch kept.symm.trans deleted
    case inl =>
      cases removed.symm.trans deleted
      refine ⟨on', ?_, fun other ne => ⟨?_, fun rest => ?_⟩⟩
      case refine_1 =>
        rw [loadHistory_apply, located, on'.base]
        simp only [FileTree.read_of_misses misses, answer]
      case refine_2 =>
        refine loadHistory_of_kinds root on on' fun l' located' r pre => ?_
        rw [kinds, Function.update_of_ne]
        rcases List.prefix_concat_iff.mp pre with rfl | inside
        · rw [(history_eq_ok.mp located').2, ← List.append_assoc]
          exact fun same => ne (Slot.history.inj (Approach.file_inj same))
        · exact Approach.entry_ne_way inside
      case refine_3 =>
        rw [kinds, Function.update_of_ne]
        intro same
        have first : (Slot.history other).file = (Slot.history key).file := by
          simp only [Approach.file, Slot.trail, List.append_assoc, List.append_cancel_left_eq] at same
          exact (List.cons.inj same).1
        exact ne (Slot.history.inj (Slot.eq_of_file rfl first))

end Whole

theorem separates (whole : '/' ∉ d.mark.toList) : d.onHost.Separates a.On (d.SameHistory a) where
  refl key h := .refl d a key h
  trans := .trans
  loadHistory same := same.loads
  loadApps h := by rw [loadApps_apply]
  tryLock target _ on := spares_of_tryLock root on whole target
  pause pause h on := by
    have unchanged := unchanged_of_pause (d := d) pause h
    exact ⟨⟨on.holds, on.base⟩, fun key => .of_spares (unchanged.history key) (.refl a h), unchanged.apps⟩
  unlock target _ on := spares_of_unlock root on target
  saveApps on saved := sameHistory_of_saveApps root on whole saved
  kept on failed := eq_of_deleteHistory_eq_error root on failed
  deleted on deleted := deleted_of_deleteHistory root on deleted

end Directory
end AirRelease
