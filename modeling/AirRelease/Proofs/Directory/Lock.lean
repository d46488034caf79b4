import AirRelease.Proofs.Directory.Unchanged

namespace AirRelease

open FileTree (Proper Fits)
open AirRelease.Path (IsName)

namespace Directory

variable {a : Approach} {d : Directory} {h h' : Host} {l : Location} {target : LockTarget}

-- The lock's file stands, and its draft could be written there again.
structure Owns (d : Directory) (a : Approach) (l : Location) (t : FileTree) : Prop where
  drafted : a.Reachable t (l.temporary d.mark) (a.below ++ ["locks"]) (l.draft d.mark)
  reach : a.Reachable t l.path (a.below ++ ["locks"]) l.file
  there : ∃ bytes, t.kind (a.here ++ (a.below ++ ["locks"]) ++ [l.file]) = some (.file bytes)

-- The lock has been taken, and nothing else has changed.
structure Holding (d : Directory) (a : Approach) (target : LockTarget) (h h' : Host) : Prop where
  on : a.On h'
  unchanged : d.Unchanged (some target) h h'
  owns : ∃ l, d.lock? target = .ok l ∧ d.Owns a l h'.files

-- The note of a lock that is taken at this moment.
def note (d : Directory) (target : LockTarget) (now : Instant) : LockNote :=
  ⟨d.holder, d.process, now, target.text⟩

-- The files are those from before but for the lock's, in a directory that may be new.
def Creates (d : Directory) (a : Approach) (target : LockTarget) (l : Location) (h h' : Host) : Prop :=
  ∃ h₁, a.MakesAlong (a.below ++ ["locks"]) h h₁ ∧
    h'.files.kind = Function.update
      (Function.update h₁.files.kind (a.here ++ (a.below ++ ["locks"]) ++ [l.draft d.mark]) none)
      (a.here ++ (a.below ++ ["locks"]) ++ [l.file])
      (some (.file (d.note target h.time).toJson.line.toUTF8))

-- Nothing keeps the lock's file from being created.
structure Creatable (d : Directory) (a : Approach) (l : Location) (t : FileTree) : Prop where
  clear : a.Clear (a.below ++ ["locks"]) t
  draft_check : (l.temporary d.mark).check = .ok ()
  draft_fits : Fits (l.draft d.mark)
  draft : t.kind (a.here ++ (a.below ++ ["locks"]) ++ [l.draft d.mark]) ≠ some .directory
  check : l.path.check = .ok ()
  fits : Fits l.file
  free : t.kind (a.here ++ (a.below ++ ["locks"]) ++ [l.file]) = none

theorem Holding.of_unchanged {h₁ : Host} (unchanged : d.Unchanged none h h₁)
    (holding : d.Holding a target h₁ h') : d.Holding a target h h' :=
  { holding with unchanged := unchanged.mono.trans holding.unchanged }

section Create

variable (root : d.root = a.root) (whole : '/' ∉ d.mark.toList)
include root whole

-- The file gets its name, and the name of the draft goes.
theorem link_of_drafted {h₁ h₂ : Host} {bytes : ByteArray} (located : d.lock? target = .ok l)
    (on₁ : a.On h₁) (on₂ : a.On h₂)
    (drafted : a.Reachable h₁.files (l.temporary d.mark) (a.below ++ ["locks"]) (l.draft d.mark))
    (kinds₂ : h₂.files.kind = Function.update h₁.files.kind
      (a.here ++ (a.below ++ ["locks"]) ++ [l.draft d.mark]) (some (.file bytes))) :
    ∃ r h₃ r' h₄, (Disk.link (l.temporary d.mark) l.path : StateM Host _) h₂ = (r, h₃) ∧
      (Disk.remove (l.temporary d.mark) : StateM Host _) h₃ = (r', h₄) ∧
      (r = .ok () → d.Holding a target h₁ h₄ ∧ h₄.files.kind = Function.update
        (Function.update h₁.files.kind (a.here ++ (a.below ++ ["locks"]) ++ [l.draft d.mark]) none)
        (a.here ++ (a.below ++ ["locks"]) ++ [l.file]) (some (.file bytes))) ∧
      (r ≠ .ok () → d.Unchanged none h₁ h₄ ∧ a.On h₄) ∧
      (a.Reachable h₁.files l.path (a.below ++ ["locks"]) l.file →
        h₁.files.kind (a.here ++ (a.below ++ ["locks"]) ++ [l.file]) = none → r = .ok ()) := by
  have drafts := (locates_lock root located).drafts (ends_lock located) whole nofun nofun
  have follows := drafts.follows on₁.holds drafts.proper_file
  have follows' := drafts.follows on₁.holds (drafts.ends_draft.proper nofun)
  have unchanged : d.Unchanged none h₁ h₂ := unchanged_of_draft root on₁ on₂ drafts kinds₂
  have file₂ : h₂.files.kind (a.here ++ (a.below ++ ["locks"]) ++ [l.draft d.mark]) =
      some (.file bytes) := by rw [kinds₂, Function.update_self]
  rcases Approach.link_tries on₂ drafts.spells_draft follows' drafts.spells_file follows file₂ with
    ⟨h₃, linked, on₃, ⟨drafted, reach, free⟩, kinds₃⟩ | ⟨e, failed, blocked⟩
  case inr =>
    have removed : d.Unchanged none h₂ ((Disk.remove (l.temporary d.mark) : StateM Host _) h₂).2 ∧
        a.On ((Disk.remove (l.temporary d.mark) : StateM Host _) h₂).2 := by
      rcases Approach.remove_tries on₂ drafts.spells_draft follows' with
        ⟨h₃, removed, on₃, _, kinds₃⟩ | ⟨_, kept, _⟩
      · rw [removed]
        exact ⟨unchanged_of_draft root on₂ on₃ drafts kinds₃, on₃⟩
      · rw [kept]
        exact ⟨.refl d h₂, on₂⟩
    refine ⟨_, h₂, _, _, failed, rfl, nofun, fun _ => ⟨unchanged.trans removed.1, removed.2⟩,
      fun reach free => absurd ?_ blocked⟩
    refine ⟨drafted.update kinds₂, reach.update kinds₂, ?_⟩
    rw [kinds₂, Function.update_of_ne (by simpa using drafts.ne), free]
  case inl =>
    rcases Approach.remove_tries on₃ drafts.spells_draft follows' with
      ⟨h₄, removed, on₄, _, kinds₄⟩ | ⟨e, _, blocked⟩
    case inl =>
      refine ⟨_, h₃, _, h₄, linked, removed, fun _ => ?_, fun bad => absurd rfl bad, fun _ _ => rfl⟩
      have file₄ : h₄.files.kind (a.here ++ (a.below ++ ["locks"]) ++ [l.file]) = some (.file bytes) := by
        rw [kinds₄, Function.update_of_ne (by simpa using drafts.ne), kinds₃, Function.update_self]
      have owns : d.Owns a l h₄.files :=
        ⟨(drafted.update kinds₃).update kinds₄, (reach.update kinds₃).update kinds₄, bytes, file₄⟩
      have taken : d.Unchanged (some target) h₂ h₃ := by
        refine unchanged_of_update root on₂ on₃ (q := ["locks", l.file]) (by simpa using kinds₃)
          ⟨"locks", by simp, .inl ⟨by decide, by decide⟩⟩ fun _ _ target' l' other located' same => ?_
        have files : l.file = l'.file := by simpa using same
        exact other (congrArg some (file_lock_inj located located' files))
      have unchanged := (unchanged.mono.trans taken).trans
        (unchanged_of_draft root on₃ on₄ drafts kinds₄)
      refine ⟨⟨on₄, unchanged, l, located, owns⟩, ?_⟩
      rw [kinds₄, kinds₃, kinds₂, Function.update_comm (by simpa using drafts.ne),
        Function.update_idem]
    case inr =>
      refine absurd ⟨drafted.update kinds₃, ?_⟩ blocked
      have file₃ : h₃.files.kind (a.here ++ (a.below ++ ["locks"]) ++ [l.draft d.mark]) =
          some (.file bytes) := by
        rw [kinds₃, Function.update_of_ne (by simpa using drafts.ne.symm), file₂]
      rw [file₃]
      exact ⟨nofun, nofun⟩

variable (on : a.On h) (located : d.lock? target = .ok l)
include on located

theorem createLock_spec : ∃ r h', (d.createLock target l : StateM Host _) h = (r, h') ∧
    (r = .ok true → d.Holding a target h h' ∧ d.Creates a target l h h') ∧
    (r ≠ .ok true → d.Unchanged none h h' ∧ a.On h') ∧
    (d.Creatable a l h.files → r = .ok true) := by
  have drafts := (locates_lock root located).drafts (ends_lock located) whole nofun nofun
  have follows := drafts.follows on.holds drafts.proper_file
  have follows' := drafts.follows on.holds (drafts.ends_draft.proper nofun)
  obtain ⟨r, h₁, made, along, on₁, there, _, clear⟩ :=
    Approach.makeLineage_spec on drafts.names (follows.of_prefix (List.prefix_append ..))
  have unchanged : d.Unchanged none h h₁ := (unchanged_of_makesAlong root on along).1
  simp only [createLock, bind_apply, Disk.makeDirectories, drafts.lineage, made]
  cases r with
  | error => exact ⟨_, _, rfl, nofun, fun _ => ⟨unchanged, on₁⟩, fun able => nomatch clear able.clear⟩
  | ok =>
    have now : (Clock.now : StateM Host _) h₁ = (h₁.time, h₁) := rfl
    have same : h₁.time = h.time := by
      have timeless := Disk.timeless_makeLineage (a.ways (a.below ++ ["locks"])) h
      rwa [made] at timeless
    simp only [bind_apply, now, same, Creates, note]
    generalize (LockNote.toJson ⟨d.holder, d.process, h.time, target.text⟩).line.toUTF8 = bytes
    have kept := along.kind_entry
    have folder := there rfl
    have reach {p : Path} {y : String} (able : d.Creatable a l h.files) (check : p.check = .ok ())
        (fits : Fits y) : a.Reachable h₁.files p (a.below ++ ["locks"]) y :=
      ⟨check, List.forall_mem_append.mpr ⟨able.clear.fits, List.forall_mem_singleton.mpr fits⟩, folder⟩
    rcases Approach.write_tries on₁ drafts.spells_draft follows' bytes with
      ⟨h₂, written, on₂, ⟨drafted, _⟩, kinds₂⟩ | ⟨e, failed, blocked⟩
    case inr =>
      simp only [failed]
      exact ⟨_, _, rfl, nofun, fun _ => ⟨unchanged, on₁⟩, fun able => absurd
        ⟨reach able able.draft_check able.draft_fits, (kept _).symm ▸ able.draft⟩ blocked⟩
    case inl =>
      obtain ⟨r, h₃, r', h₄, linked, removed, holding, other, able⟩ :=
        link_of_drafted root whole located on₁ on₂ drafted kinds₂
      simp only [written, bind_apply, linked, removed]
      cases r with
      | ok =>
        obtain ⟨holding, kinds⟩ := holding rfl
        exact ⟨_, _, rfl, fun _ => ⟨holding.of_unchanged unchanged, h₁, along, kinds⟩,
          fun bad => absurd rfl bad, fun _ => rfl⟩
      | error e =>
        obtain ⟨stays, on₄⟩ := other nofun
        have refused : (if e = .alreadyExists then .ok false else .error (.inaccessible l.path e)) ≠
            (.ok true : Except StoreError Bool) := by split <;> simp
        exact ⟨_, _, by cases e <;> rfl, fun ok => absurd ok refused, fun _ => ⟨unchanged.trans stays, on₄⟩,
          fun free => nomatch able (reach free free.check free.fits) ((kept _).trans free.free)⟩

end Create

theorem remove_state (l : Location) (h : Host) :
    ((remove l : StateM Host _) h).2 = ((Disk.remove l.path : StateM Host _) h).2 := by
  simp only [remove, bind_apply]
  rcases (Disk.remove l.path : StateM Host _) h with ⟨e | _, _⟩
  · cases e <;> rfl
  · rfl

section Release

variable (root : d.root = a.root) (located : d.lock? target = .ok l) (on : a.On h)
include root located on

theorem remove_lock (taken : Option LockTarget) :
    a.On ((Disk.remove l.path : StateM Host _) h).2 ∧
      d.Unchanged taken h ((Disk.remove l.path : StateM Host _) h).2 := by
  have locates := locates_lock root located
  have ends := ends_lock located
  rcases Approach.remove_tries on (locates.spells_path (ends.isName nofun))
    (locates.follows on.holds (ends.proper nofun)) with ⟨h', removed, on', _, kinds⟩ | ⟨_, kept, _⟩
  · rw [removed]
    refine ⟨on', unchanged_of_update root on on' (q := ["locks", l.file]) (k := none)
      (by simpa using kinds) ⟨"locks", by simp, .inl ⟨by decide, by decide⟩⟩ nofun⟩
  · rw [kept]
    exact ⟨on, .refl d h⟩

theorem gone_of_remove (owns : d.Owns a l h.files) (bytes : ByteArray) :
    ¬d.LockHeld ((Disk.remove l.path : StateM Host _) h).2 target bytes := by
  have locates := locates_lock root located
  have ends := ends_lock located
  obtain ⟨_, file⟩ := owns.there
  rcases Approach.remove_tries on (locates.spells_path (ends.isName nofun))
    (locates.follows on.holds (ends.proper nofun)) with ⟨h', removed, on', _, kinds⟩ | ⟨_, _, blocked⟩
  · rw [removed]
    intro held
    obtain ⟨_, _, there⟩ := (lockHeld_iff root on' located).mp held
    rw [kinds, Function.update_self] at there
    cases there
  · exact absurd ⟨owns.reach, by rw [file]; exact ⟨nofun, nofun⟩⟩ blocked

theorem breakLock_spec :
    a.On ((breakLock l : StateM Host _) h).2 ∧ d.Unchanged none h ((breakLock l : StateM Host _) h).2 := by
  have stays : a.On h ∧ d.Unchanged none h h := ⟨on, .refl d h⟩
  have goes : a.On ((breakLock.go l : StateM Host _) h).2 ∧
      d.Unchanged none h ((breakLock.go l : StateM Host _) h).2 := by
    simp only [breakLock.go, bind_apply, pure_apply, remove_state]
    exact remove_lock root located on none
  simp only [breakLock, bind_apply, readText_apply]
  cases textOf (h.files.read h.base l.path) with
  | error e => cases e <;> exact stays
  | ok text =>
    have now : (Clock.now : StateM Host _) h = (h.time, h) := rfl
    simp only [bind_apply, now]
    cases Json.decode LockNote.decoder text with
    | error => exact goes
    | ok note =>
      by_cases stale : note.Stale h.time
      case pos => simpa only [if_pos stale] using goes
      case neg => simpa only [if_neg stale, pure_apply] using stays

end Release

theorem tryLock_apply (d : Directory) (target : LockTarget) (h : Host) : d.onHost.tryLock target h =
    match d.lock? target with
    | .ok l => (d.takeLock target l : StateM Host _) h
    | .error e => (.error e, h) := by
  cases located : d.lock? target <;> simp [onHost, store, located]

theorem unlock_apply (d : Directory) (target : LockTarget) (h : Host) : d.onHost.unlock target h =
    match d.lock? target with
    | .ok l => ((), ((Disk.remove l.path : StateM Host _) h).2)
    | .error _ => ((), h) := by
  cases located : d.lock? target with
  | error => simp [onHost, store, located]
  | ok => simp only [onHost, store, located, dropLock, bind_apply, pure_apply]

-- Giving a lock back leaves nothing of it.
theorem unchanged_of_unlock (root : d.root = a.root) (holding : d.Holding a target h h') :
    a.On (d.onHost.unlock target h').2 ∧ d.Unchanged none h (d.onHost.unlock target h').2 := by
  obtain ⟨l, located, owns⟩ := holding.owns
  obtain ⟨on, unchanged⟩ := remove_lock root located holding.on (some target)
  rw [unlock_apply, located]
  exact ⟨on, (holding.unchanged.trans unchanged).release (gone_of_remove root located holding.on owns)⟩

theorem tryLock_spec (root : d.root = a.root) (whole : '/' ∉ d.mark.toList) (on : a.On h) :
    ∃ r h', d.onHost.tryLock target h = (r, h') ∧ (r = .ok true → d.Holding a target h h') ∧
      (r ≠ .ok true → a.On h' ∧ d.Unchanged none h h') := by
  rw [tryLock_apply]
  cases located : d.lock? target with
  | error e => exact ⟨.error e, h, rfl, nofun, fun _ => ⟨on, .refl d h⟩⟩
  | ok l =>
    obtain ⟨r, h₁, created, holding, unchanged, _⟩ := createLock_spec root whole on located
    simp only [takeLock, bind_apply, created]
    by_cases busy : r = .ok false
    case neg =>
      refine ⟨r, h₁, ?_, fun ok => (holding ok).1, fun bad => (unchanged bad).symm⟩
      rcases r with _ | _ | _
      · rfl
      · exact absurd rfl busy
      · rfl
    case pos =>
      subst busy
      obtain ⟨unchanged, on₁⟩ := unchanged nofun
      obtain ⟨on₂, broken⟩ := breakLock_spec root located on₁
      have unchanged := unchanged.trans broken
      simp only [bind_apply]
      rcases broke : (breakLock l : StateM Host _) h₁ with ⟨e | _ | _, h₂⟩
      all_goals rw [broke] at on₂ unchanged
      · exact ⟨_, _, rfl, nofun, fun _ => ⟨on₂, unchanged⟩⟩
      · exact ⟨_, _, rfl, nofun, fun _ => ⟨on₂, unchanged⟩⟩
      · obtain ⟨r, h₃, created, holding, unchanged', _⟩ := createLock_spec root whole on₂ located
        refine ⟨r, h₃, created, fun ok => ?_, fun bad => ?_⟩
        · exact (holding ok).1.of_unchanged unchanged
        · exact ⟨(unchanged' bad).2, unchanged.trans (unchanged' bad).1⟩

end Directory
end AirRelease
