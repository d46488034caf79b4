import AirRelease.Proofs.Directory.Faithful
import AirRelease.Proofs.Store.LockNote

namespace AirRelease

open FileTree (Fits)

-- A lock that has been taken then counts as given up now.
def Instant.Lapsed (since now : Instant) : Prop :=
  LockNote.patience ≤ now.nanosecondsSince since

instance (since now : Instant) : Decidable (since.Lapsed now) :=
  inferInstanceAs (Decidable (_ ≤ _))

-- The lock can be taken: nobody has it, or whoever has taken it is taken to be gone.
def Vacant (standing : LockTarget → Option Instant) (target : LockTarget) (now : Instant) : Prop :=
  ∀ since, standing target = some since → since.Lapsed now

-- What the place of a lock's file says: since when the lock has been taken.
def Tells (since : Option Instant) (k : Option Kind) : Prop :=
  since = none ∧ k = none ∨ ∃ note : LockNote, note.Readable ∧ since = some note.started ∧
    k = some (.file note.toJson.line.toUTF8)

namespace Approach

variable {a : Approach} {standing : LockTarget → Option Instant} {target : LockTarget}
  {kinds : Place → Option Kind} {since : Option Instant} {k : Option Kind} {q : List String} {x : String}

-- The directory of the locks holds the files of those that stand, and nothing else.
structure Locked (a : Approach) (standing : LockTarget → Option Instant) (kinds : Place → Option Kind) :
    Prop where
  clear : ∀ front, front <+: a.below ++ ["locks"] →
    kinds (a.here ++ front) = none ∨ kinds (a.here ++ front) = some .directory
  file : ∀ target, Tells (standing target) (kinds (a.file (.lock target)))
  only : ∀ x, (∀ target, x ≠ Directory.lockFile target) →
    kinds (a.here ++ (a.below ++ ["locks"]) ++ [x]) = none

-- The directory of the locks is empty, or it can still be made.
structure Unlocked (a : Approach) (kinds : Place → Option Kind) : Prop where
  clear : ∀ front, front <+: a.below ++ ["locks"] →
    kinds (a.here ++ front) = none ∨ kinds (a.here ++ front) = some .directory
  empty : ∀ x, kinds (a.here ++ (a.below ++ ["locks"]) ++ [x]) = none

theorem lock_ne_way {front : List String} (pre : front <+: a.below ++ ["locks"]) :
    a.here ++ front ≠ a.file (.lock target) :=
  entry_ne_way pre

namespace Locked

theorem makesAlong {h h' : Host} (locked : a.Locked standing h.files.kind)
    (makes : a.MakesAlong (a.below ++ ["locks"]) h h') : a.Locked standing h'.files.kind := by
  constructor
  case clear =>
    intro front pre
    rcases makes.kind (a.here ++ front) with same | ⟨_, made, _⟩
    · exact same ▸ locked.clear front pre
    · exact .inr made
  case file => exact fun target => makes.kind_entry (Directory.lockFile target) ▸ locked.file target
  case only => exact fun x other => makes.kind_entry x ▸ locked.only x other

variable (locked : a.Locked standing kinds)
include locked

theorem update (target : LockTarget) (tells : Tells since k) :
    a.Locked (Function.update standing target since) (Function.update kinds (a.file (.lock target)) k) := by
  constructor
  case clear =>
    intro front pre
    rw [Function.update_of_ne (lock_ne_way pre)]
    exact locked.clear front pre
  case file =>
    intro other
    by_cases same : other = target
    case pos =>
      subst same
      simpa only [Function.update_self] using tells
    case neg =>
      have apart : a.file (.lock other) ≠ a.file (.lock target) :=
        fun eq => same (Slot.lock.inj (file_inj eq))
      rw [Function.update_of_ne same, Function.update_of_ne apart]
      exact locked.file other
  case only =>
    intro x other
    have apart : a.here ++ (a.below ++ ["locks"]) ++ [x] ≠ a.file (.lock target) := by
      intro eq
      exact other target (List.cons.inj (List.append_inj' eq rfl).2).1
    rw [Function.update_of_ne apart]
    exact locked.only x other

theorem draft (ends : Ends 'p' x) : kinds (a.here ++ (a.below ++ ["locks"]) ++ [x]) = none :=
  locked.only x fun target same => (Slot.lock target).file_ne ends nofun nofun same.symm

theorem free (nobody : standing target = none) : kinds (a.file (.lock target)) = none := by
  rcases locked.file target with ⟨_, free⟩ | ⟨_, _, taken, _⟩
  · exact free
  · exact absurd (nobody.symm.trans taken) nofun

theorem taken {since : Instant} (stands : standing target = some since) :
    ∃ note : LockNote, note.Readable ∧ note.started = since ∧
      kinds (a.file (.lock target)) = some (.file note.toJson.line.toUTF8) := by
  rcases locked.file target with ⟨none, _⟩ | ⟨note, readable, taken, file⟩
  · exact absurd (none.symm.trans stands) nofun
  · exact ⟨note, readable, Option.some.inj (taken.symm.trans stands), file⟩

end Locked

theorem Unlocked.locked (unlocked : a.Unlocked kinds) : a.Locked (fun _ => none) kinds where
  clear := unlocked.clear
  file target := .inl ⟨rfl, unlocked.empty (Directory.lockFile target)⟩
  only x _ := unlocked.empty x

end Approach

namespace Directory

variable {a : Approach} {d : Directory} {standing : LockTarget → Option Instant} {target : LockTarget}
  {h : Host} {l : Location} {since : Instant}

section Timeless

theorem timeless_remove (l : Location) : Host.Timeless (remove l) := by
  intro h
  rw [remove_state]
  exact Host.Timeless.attempt _ h

theorem timeless_createLock (d : Directory) (target : LockTarget) (l : Location) :
    Host.Timeless (d.createLock target l) := by
  refine .bind (Disk.timeless_makeLineage _) fun r => ?_
  cases r with
  | error => exact .pure _
  | ok =>
    refine .bind (fun _ => rfl) fun now => .bind (.attempt _) fun r => ?_
    cases r with
    | error => exact .pure _
    | ok =>
      refine .bind (.attempt _) fun linked => .bind (.attempt _) fun _ => ?_
      match linked with
      | .ok () => exact .pure _
      | .error .alreadyExists => exact .pure _
      | .error .notFound | .error .notDirectory | .error .isDirectory | .error .tooManyLinks
      | .error .nameTooLong | .error .badPath | .error .notText | .error (.other _) => exact .pure _

theorem timeless_breakLock (l : Location) : Host.Timeless (breakLock l) := by
  have go : Host.Timeless (breakLock.go l) := .bind (timeless_remove l) fun _ => .pure _
  refine .bind (Disk.timeless_readText _) fun r => ?_
  match r with
  | .ok text =>
    refine .bind (fun _ => rfl) fun now => ?_
    match Json.decode LockNote.decoder text with
    | .error _ => exact go
    | .ok note =>
      by_cases stale : note.Stale now
      · simpa only [if_pos stale] using go
      · simpa only [if_neg stale] using .pure _
  | .error .notFound => exact .pure _
  | .error .notDirectory | .error .isDirectory | .error .alreadyExists | .error .tooManyLinks
  | .error .nameTooLong | .error .badPath | .error .notText | .error (.other _) => exact .pure _

theorem timeless_takeLock (d : Directory) (target : LockTarget) (l : Location) :
    Host.Timeless (d.takeLock target l) := by
  refine .bind (timeless_createLock d target l) fun r => ?_
  match r with
  | .ok true | .error _ => exact .pure _
  | .ok false =>
    refine .bind (timeless_breakLock l) fun r => ?_
    match r with
    | .ok true => exact timeless_createLock d target l
    | .ok false | .error _ => exact .pure _

theorem timeless_tryLock (d : Directory) (target : LockTarget) : Host.Timeless (d.onHost.tryLock target) := by
  intro h
  rw [tryLock_apply]
  cases d.lock? target with
  | error => rfl
  | ok l => exact timeless_takeLock d target l h

theorem timeless_unlock (d : Directory) (target : LockTarget) : Host.Timeless (d.onHost.unlock target) := by
  intro h
  rw [unlock_apply]
  cases d.lock? target with
  | error => rfl
  | ok l => exact Host.Timeless.attempt _ h

end Timeless

section Located

variable (keeps : d.Keeps a (.lock target) l) (on : a.On h) (locked : a.Locked standing h.files.kind)
include keeps on locked

theorem folder_of_locked : ∃ h₁, (Disk.makeDirectories l.folder : StateM Host _) h = (.ok (), h₁) ∧
    a.On h₁ ∧ a.Locked standing h₁.files.kind ∧ h₁.time = h.time ∧
    h₁.files.kind (a.here ++ (a.below ++ ["locks"])) = some .directory := by
  have follows := keeps.drafts.follows on.holds keeps.drafts.proper_file
  obtain ⟨r, h₁, made, along, on₁, there, _, clear⟩ :=
    Approach.makeLineage_spec on keeps.drafts.names (follows.of_prefix (List.prefix_append ..))
  cases clear (keeps.clear locked.clear)
  have same := Disk.timeless_makeLineage (a.ways (a.below ++ ["locks"])) h
  rw [← keeps.drafts.lineage] at made
  refine ⟨h₁, made, on₁, locked.makesAlong along, ?_, there rfl⟩
  rwa [show a.below ++ ["locks"] = a.below ++ (Slot.lock target).trail from rfl, ← keeps.drafts.lineage,
    show (Disk.makeLineage l.folder.lineage : StateM Host _) h = _ from made] at same

-- The file of a lock that stands keeps its name, and the draft for another one goes.
theorem createLock_of_taken (stands : standing target = some since) :
    ∃ h', (d.createLock target l : StateM Host _) h = (.ok false, h') ∧ a.On h' ∧
      a.Locked standing h'.files.kind := by
  have drafts := keeps.drafts
  obtain ⟨h₁, made, on₁, locked₁, _, folder⟩ := folder_of_locked keeps on locked
  have follows := drafts.follows on₁.holds drafts.proper_file
  have follows' := drafts.follows on₁.holds (drafts.ends_draft.proper (by decide))
  have fits (y : String) (last : Fits y) : ∀ x ∈ a.below ++ ["locks"] ++ [y], Fits x :=
    List.forall_mem_append.mpr ⟨keeps.nameable.folder_fits, List.forall_mem_singleton.mpr last⟩
  have draft := locked₁.draft drafts.ends_draft
  obtain ⟨note, _, _, file⟩ := locked₁.taken stands
  rw [← keeps.place] at file
  have now : (Clock.now : StateM Host _) h₁ = (h₁.time, h₁) := rfl
  simp only [createLock, bind_apply, made, now]
  generalize (LockNote.toJson ⟨d.holder, d.process, h₁.time, target.text⟩).line.toUTF8 = bytes
  rcases Approach.write_tries on₁ drafts.spells_draft follows' bytes with
    ⟨h₂, written, on₂, ⟨drafted, _⟩, kinds₂⟩ | ⟨_, _, blocked⟩
  case inr =>
    refine absurd ⟨⟨keeps.nameable.draft_check, fits _ keeps.nameable.draft_fits, folder⟩, ?_⟩ blocked
    exact ne_of_eq_of_ne draft (Option.some_ne_none _).symm
  have reach : a.Reachable h₁.files l.path (a.below ++ ["locks"]) l.file :=
    ⟨keeps.nameable.check, fits _ keeps.nameable.fits, folder⟩
  have file₂ : h₂.files.kind (a.here ++ (a.below ++ ["locks"]) ++ [l.draft d.mark]) = some (.file bytes) := by
    rw [kinds₂]
    exact Function.update_self ..
  have taken₂ : h₂.files.kind (a.here ++ (a.below ++ ["locks"]) ++ [l.file]) ≠ none := by
    have apart : a.here ++ (a.below ++ ["locks"]) ++ [l.file] ≠
        a.here ++ (a.below ++ ["locks"]) ++ [l.draft d.mark] := by simpa using drafts.ne
    rw [kinds₂]
    exact ne_of_eq_of_ne ((Function.update_of_ne apart ..).trans file) (Option.some_ne_none _)
  have linked : (Disk.link (l.temporary d.mark) l.path : StateM Host _) h₂ = (.error .alreadyExists, h₂) := by
    refine Host.attempt_error ?_
    rw [on₂.base]
    exact FileTree.link_of_ne_none
      ((Approach.locate_iff on₂.holds drafts.spells_draft follows').mpr ⟨rfl, drafted.update kinds₂⟩)
      (ne_of_eq_of_ne file₂ (by simp))
      ((Approach.locate_iff on₂.holds drafts.spells_file follows).mpr ⟨rfl, reach.update kinds₂⟩) taken₂
  rcases Approach.remove_tries on₂ drafts.spells_draft follows' with
    ⟨h₃, removed, on₃, _, kinds₃⟩ | ⟨_, _, blocked⟩
  case inr =>
    refine absurd ⟨drafted.update kinds₂, ?_⟩ blocked
    exact ⟨ne_of_eq_of_ne file₂ (by simp), ne_of_eq_of_ne file₂ (by simp)⟩
  simp only [written, bind_apply, linked, removed]
  refine ⟨h₃, rfl, on₃, ?_⟩
  have back : h₃.files.kind = h₁.files.kind := by
    rw [kinds₃, kinds₂, Function.update_idem]
    exact (congrArg _ draft.symm).trans (Function.update_eq_self ..)
  exact back ▸ locked₁

theorem createLock_of_free (root : d.root = a.root) (whole : '/' ∉ d.mark.toList)
    (located : d.lock? target = .ok l) (process : d.process < LockNote.processBound)
    (nobody : standing target = none) :
    ∃ h', (d.createLock target l : StateM Host _) h = (.ok true, h') ∧ a.On h' ∧
      (h.time.Regular → a.Locked (Function.update standing target (some h.time)) h'.files.kind) := by
  have creatable : d.Creatable a l h.files := {
    clear := keeps.clear locked.clear
    draft_check := keeps.nameable.draft_check
    draft_fits := keeps.nameable.draft_fits
    draft := ne_of_eq_of_ne (locked.draft keeps.drafts.ends_draft) nofun
    check := keeps.nameable.check
    fits := keeps.nameable.fits
    free := keeps.place ▸ locked.free nobody
  }
  obtain ⟨r, h', created, taken, _, able⟩ := createLock_spec root whole on located
  cases able creatable
  obtain ⟨holding, h₁, along, kinds⟩ := taken rfl
  refine ⟨h', created, holding.on, fun regular => ?_⟩
  have locked₁ := locked.makesAlong along
  have draft := locked₁.draft keeps.drafts.ends_draft
  have back : Function.update h₁.files.kind (a.here ++ (a.below ++ ["locks"]) ++ [l.draft d.mark])
      none = h₁.files.kind := (congrArg _ draft.symm).trans (Function.update_eq_self ..)
  rw [kinds, back, show a.here ++ (a.below ++ ["locks"]) ++ [l.file] = a.file (.lock target) from keeps.place]
  exact locked₁.update target (.inr ⟨d.note target h.time, ⟨process, regular⟩, rfl, rfl⟩)

theorem removeFile_of_locked : ∃ r h', (Disk.remove l.path : StateM Host _) h = (r, h') ∧ a.On h' ∧
    a.Locked (Function.update standing target none) h'.files.kind ∧
    (standing target ≠ none → r = .ok ()) := by
  have follows := keeps.drafts.follows on.holds keeps.drafts.proper_file
  have place : a.here ++ (a.below ++ ["locks"]) ++ [l.file] = a.file (.lock target) := keeps.place
  rcases Approach.remove_tries on keeps.drafts.spells_file follows with
    ⟨h', removed, on', _, kinds⟩ | ⟨e, kept, blocked⟩
  case inl =>
    refine ⟨_, h', removed, on', ?_, fun _ => rfl⟩
    rw [kinds, keeps.place]
    exact locked.update target (.inl ⟨rfl, rfl⟩)
  case inr =>
    rcases stands : standing target with _ | since
    case none =>
      refine ⟨_, h, kept, on, ?_, fun bad => absurd rfl bad⟩
      rwa [show Function.update standing target none = standing from stands ▸ Function.update_eq_self ..]
    case some =>
      obtain ⟨note, _, _, file⟩ := locked.taken stands
      have folder : h.files.kind (a.here ++ (a.below ++ ["locks"])) = some .directory :=
        FileTree.kind_folder (by rw [place, file]; exact nofun)
      refine absurd ⟨⟨keeps.nameable.check, keeps.fits, folder⟩, ?_⟩ blocked
      rw [keeps.place, file]
      exact ⟨nofun, nofun⟩

theorem readText_of_locked (stands : standing target = some since) : ∃ note : LockNote,
    (Disk.readText l.path : StateM Host _) h = (.ok note.toJson.line, h) ∧
      Json.decode LockNote.decoder note.toJson.line = .ok note ∧ note.started = since := by
  obtain ⟨note, readable, started, file⟩ := locked.taken stands
  have follows := keeps.drafts.follows on.holds keeps.drafts.proper_file
  rw [← keeps.place] at file
  have read := (on.holds.read_eq_ok keeps.drafts.spells_file follows).mpr
    ⟨keeps.nameable.check, keeps.fits, file⟩
  refine ⟨note, ?_, LockNote.decode_line readable, started⟩
  rw [readText_apply, on.base, read]
  simp only [textOf, fromUTF8?_toUTF8]

theorem breakLock_of_held (stands : standing target = some since) (held : ¬since.Lapsed h.time) :
    (breakLock l : StateM Host _) h = (.ok false, h) := by
  obtain ⟨note, read, back, rfl⟩ := readText_of_locked keeps on locked stands
  have now : (Clock.now : StateM Host _) h = (h.time, h) := rfl
  have fresh : ¬note.Stale h.time := held
  simp only [breakLock, bind_apply, read, now, back, if_neg fresh, pure_apply]

theorem breakLock_of_lapsed (stands : standing target = some since) (lapsed : since.Lapsed h.time) :
    ∃ h', (breakLock l : StateM Host _) h = (.ok true, h') ∧ a.On h' ∧
      a.Locked (Function.update standing target none) h'.files.kind := by
  obtain ⟨note, read, back, rfl⟩ := readText_of_locked keeps on locked stands
  have now : (Clock.now : StateM Host _) h = (h.time, h) := rfl
  have stale : note.Stale h.time := lapsed
  obtain ⟨r, h', removed, on', locked', ok⟩ := removeFile_of_locked keeps on locked
  cases ok (stands ▸ nofun)
  refine ⟨h', ?_, on', locked'⟩
  simp only [breakLock, bind_apply, read, now, back, if_pos stale, breakLock.go, remove, removed, pure_apply]
  rfl

end Located

section Request

variable (root : d.root = a.root) (whole : '/' ∉ d.mark.toList) (on : a.On h)
  (locked : a.Locked standing h.files.kind)
include root whole on locked

theorem tryLock_of_vacant (process : d.process < LockNote.processBound) (lockable : d.Lockable target)
    (vacant : Vacant standing target h.time) :
    ∃ h', d.onHost.tryLock target h = (.ok true, h') ∧ a.On h' ∧
      (h.time.Regular → a.Locked (Function.update standing target (some h.time)) h'.files.kind) := by
  obtain ⟨l, located, keeps⟩ := keeps_lock root whole on lockable
  simp only [tryLock_apply, located, takeLock, bind_apply]
  cases stands : standing target with
  | none =>
    obtain ⟨h', created, rest⟩ := createLock_of_free keeps on locked root whole located process stands
    exact ⟨h', by simp only [created, pure_apply], rest⟩
  | some since =>
    -- The first try leaves the files as they were, the second one finds none for the lock.
    obtain ⟨h₁, refused, on₁, locked₁⟩ := createLock_of_taken keeps on locked stands
    have same : h₁.time = h.time := by
      have timeless := timeless_createLock d target l h
      rwa [refused] at timeless
    obtain ⟨h₂, broken, on₂, locked₂⟩ :=
      breakLock_of_lapsed keeps on₁ locked₁ stands (same ▸ vacant since stands)
    have same₂ : h₂.time = h.time := by
      have timeless := timeless_breakLock l h₁
      rw [broken] at timeless
      exact timeless.trans same
    obtain ⟨h', created, on', rest⟩ :=
      createLock_of_free keeps on₂ locked₂ root whole located process (Function.update_self ..)
    refine ⟨h', by simp only [refused, bind_apply, broken, created], on', fun regular => ?_⟩
    rw [same₂, Function.update_idem] at rest
    exact rest regular

theorem tryLock_of_held (lockable : d.Lockable target) (stands : standing target = some since)
    (held : ¬since.Lapsed h.time) :
    ∃ h', d.onHost.tryLock target h = (.ok false, h') ∧ a.On h' ∧ a.Locked standing h'.files.kind := by
  obtain ⟨l, located, keeps⟩ := keeps_lock root whole on lockable
  obtain ⟨h', refused, on', locked'⟩ := createLock_of_taken keeps on locked stands
  have same : h'.time = h.time := by
    have timeless := timeless_createLock d target l h
    rwa [refused] at timeless
  have kept := breakLock_of_held keeps on' locked' stands (same ▸ held)
  refine ⟨h', ?_, on', locked'⟩
  simp only [tryLock_apply, located, takeLock, bind_apply, refused, kept, pure_apply]

-- A name that the system does not take is refused before anything is written.
theorem tryLock_of_not_lockable (not : ¬d.Lockable target) :
    ∃ e h', d.onHost.tryLock target h = (.error e, h') ∧ a.On h' ∧ a.Locked standing h'.files.kind := by
  cases located : d.lock? target with
  | error e => exact ⟨e, h, by simp only [tryLock_apply, located], on, locked⟩
  | ok l =>
    have drafts := (locates_lock root located).drafts (ends_lock located) whole nofun nofun
    have follows := drafts.follows on.holds drafts.proper_file
    have follows' := drafts.follows on.holds (drafts.ends_draft.proper nofun)
    obtain ⟨r, h₁, made, along, on₁, _⟩ :=
      Approach.makeLineage_spec on drafts.names (follows.of_prefix (List.prefix_append ..))
    have locked₁ := locked.makesAlong along
    simp only [tryLock_apply, located, takeLock, createLock, bind_apply, Disk.makeDirectories,
      drafts.lineage, made]
    cases r with
    | error e => exact ⟨_, h₁, rfl, on₁, locked₁⟩
    | ok =>
      have now : (Clock.now : StateM Host _) h₁ = (h₁.time, h₁) := rfl
      simp only [bind_apply, now]
      generalize (LockNote.toJson ⟨d.holder, d.process, h₁.time, target.text⟩).line.toUTF8 = bytes
      rcases Approach.write_tries on₁ drafts.spells_draft follows' bytes with
        ⟨_, _, _, ⟨drafted, _⟩, _⟩ | ⟨e, failed, _⟩
      case inl => exact absurd ⟨l, located, drafted.check, drafted.fits _ (by simp)⟩ not
      case inr =>
        simp only [failed]
        exact ⟨_, h₁, rfl, on₁, locked₁⟩

theorem lockHeld_iff_standing (lockable : d.Lockable target) :
    (∃ bytes, d.LockHeld h target bytes) ↔ standing target ≠ none := by
  obtain ⟨l, located, keeps⟩ := keeps_lock root whole on lockable
  have place : a.here ++ (a.below ++ ["locks"]) ++ [l.file] = a.file (.lock target) := keeps.place
  simp only [lockHeld_iff root on located, place]
  constructor
  · rintro ⟨_, _, _, file⟩ nobody
    exact nomatch (locked.free nobody).symm.trans file
  · intro stands
    obtain ⟨since, stands⟩ := Option.ne_none_iff_exists'.mp stands
    obtain ⟨note, _, _, file⟩ := locked.taken stands
    exact ⟨_, keeps.nameable.check, keeps.fits, file⟩

theorem unlock_of_locked (lockable : d.Lockable target) :
    a.On (d.onHost.unlock target h).2 ∧
      a.Locked (Function.update standing target none) (d.onHost.unlock target h).2.files.kind := by
  obtain ⟨l, located, keeps⟩ := keeps_lock root whole on lockable
  obtain ⟨r, h', removed, on', locked', _⟩ := removeFile_of_locked keeps on locked
  rw [unlock_apply, located]
  simp only [removed]
  exact ⟨on', locked'⟩

end Request

end Directory
end AirRelease
