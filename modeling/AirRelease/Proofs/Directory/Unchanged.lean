import AirRelease.Proofs.Directory.Layout

namespace AirRelease

open FileTree (Proper Fits)
open AirRelease.Path (IsName)

namespace Directory

-- The store of the directory, on a computer.
abbrev onHost (d : Directory) : Store (StateM Host) :=
  d.store

-- The lock's file stands and holds these bytes.
def LockHeld (d : Directory) (h : Host) (target : LockTarget) (bytes : ByteArray) : Prop :=
  ∃ l, d.lock? target = .ok l ∧ h.files.read h.base l.path = .ok bytes

-- Everything that is loaded is as before. The locks that stand stood before, but for one that may have
-- been taken.
structure Unchanged (d : Directory) (taken : Option LockTarget) (h h' : Host) : Prop where
  apps : (d.onHost.loadApps h').1 = (d.onHost.loadApps h).1
  history : ∀ key, (d.onHost.loadHistory key h').1 = (d.onHost.loadHistory key h).1
  locks : ∀ target bytes, taken ≠ some target → d.LockHeld h' target bytes → d.LockHeld h target bytes

namespace Unchanged

variable {d : Directory} {taken : Option LockTarget} {h h' h'' : Host}

theorem refl (d : Directory) (h : Host) : d.Unchanged taken h h :=
  ⟨rfl, fun _ => rfl, fun _ _ _ held => held⟩

theorem trans (first : d.Unchanged taken h h') (second : d.Unchanged taken h' h'') :
    d.Unchanged taken h h'' where
  apps := second.apps.trans first.apps
  history key := (second.history key).trans (first.history key)
  locks target bytes other held := first.locks target bytes other (second.locks target bytes other held)

theorem mono (unchanged : d.Unchanged none h h') : d.Unchanged taken h h' :=
  { unchanged with locks := fun target bytes _ => unchanged.locks target bytes nofun }

-- The lock that was taken does not stand any more.
theorem release {target : LockTarget} (unchanged : d.Unchanged (some target) h h')
    (gone : ∀ bytes, ¬d.LockHeld h' target bytes) : d.Unchanged none h h' where
  apps := unchanged.apps
  history := unchanged.history
  locks target' bytes _ held := by
    by_cases same : target = target'
    case pos => exact absurd (same ▸ held) (gone bytes)
    case neg => exact unchanged.locks target' bytes (fun eq => same (Option.some.inj eq)) held

end Unchanged

theorem fromUTF8?_toUTF8 (text : String) : String.fromUTF8? text.toUTF8 = some text := by
  rw [String.fromUTF8?, String.toUTF8_eq_toByteArray, dif_pos text.isValidUTF8]
  rfl

-- The text that bytes stand for.
def textOf : Except Fault ByteArray → Except Fault String
  | .error e => .error e
  | .ok bytes =>
    match String.fromUTF8? bytes with
    | some text => .ok text
    | none => .error .notText

theorem readText_apply (p : Path) (h : Host) :
    (Disk.readText p : StateM Host _) h = (textOf (h.files.read h.base p), h) := by
  have disk : (Disk.read p : StateM Host _) h = (h.files.read h.base p, h) := rfl
  simp only [Disk.readText, bind_apply, disk]
  cases h.files.read h.base p with
  | error => rfl
  | ok bytes => cases decoded : String.fromUTF8? bytes <;> simp only [decoded, pure_apply, textOf]

section Read

variable {α : Type} (decoder : Decoder α) (absent : α)

-- What the bytes of a file say, or the fault that kept them from being read.
def answer (path : Path) : Except Fault ByteArray → Except StoreError α
  | .error .notFound => .ok absent
  | .error fault => .error (.inaccessible path fault)
  | .ok bytes =>
    match String.fromUTF8? bytes with
    | none => .error (.inaccessible path .notText)
    | some text => (Json.decode decoder text).mapError fun _ => .unreadable path

theorem read_apply (l : Location) (h : Host) :
    (read decoder absent l : StateM Host _) h =
      (answer decoder absent l.path (h.files.read h.base l.path), h) := by
  simp only [read, bind_apply, readText_apply, textOf]
  cases h.files.read h.base l.path with
  | error e => cases e <;> rfl
  | ok bytes =>
    cases decoded : String.fromUTF8? bytes <;> simp only [decoded, pure_apply, answer]

end Read

variable {a : Approach} {d : Directory} {h h' : Host} {l : Location} {q : List String}
  {k : Option Kind} {taken : Option LockTarget}

theorem loadApps_apply (d : Directory) (h : Host) : d.onHost.loadApps h =
    (answer Registry.decoder .empty d.apps.path (h.files.read h.base d.apps.path), h) :=
  read_apply ..

theorem loadHistory_apply (d : Directory) (key : AccessKey) (h : Host) : d.onHost.loadHistory key h =
    (match d.history? key with
      | .ok l => answer History.decoder .empty l.path (h.files.read h.base l.path)
      | .error e => .error e, h) := by
  change (match d.history? key with | .ok l => read _ _ l | .error e => _ : StateM Host _) h = _
  cases d.history? key with
  | error => rfl
  | ok l => exact read_apply ..

-- A file that is loaded.
def Holds (d : Directory) (l : Location) : Prop :=
  l = d.apps ∨ ∃ key, d.history? key = .ok l

theorem unchanged_of_reads
    (data : ∀ l, d.Holds l → h'.files.read h'.base l.path = h.files.read h.base l.path)
    (locks : ∀ target bytes, taken ≠ some target →
      d.LockHeld h' target bytes → d.LockHeld h target bytes) :
    d.Unchanged taken h h' where
  apps := by rw [loadApps_apply, loadApps_apply, data _ (.inl rfl)]
  history key := by
    rw [loadHistory_apply, loadHistory_apply]
    cases located : d.history? key with
    | error => rfl
    | ok l => simp only [data l (.inr ⟨key, located⟩)]
  locks := locks

theorem unchanged_of_pause (pause : Duration) (h : Host) : d.Unchanged none h (d.onHost.pause pause h).2 :=
  unchanged_of_reads (fun _ _ => rfl) fun _ _ _ held => held

-- A name that is on the way to no file that is loaded.
def Foreign (name : String) : Prop :=
  Ends 's' name ∨ Ends 'p' name

theorem Holds.locates (holds : d.Holds l) (root : d.root = a.root) :
    ∃ trail, a.Locates l trail ∧ Ends 'n' l.file ∧ (∀ x ∈ trail ++ [l.file], ¬Foreign x) ∧
      ∀ x ∈ (trail ++ [l.file]).head?, Fits x := by
  have native {c : Char} {x : String} (ends : Ends c x) (s : c ≠ 's') (p : c ≠ 'p') : ¬Foreign x :=
    fun foreign => foreign.elim (fun other => ends.ne other s rfl) (fun other => ends.ne other p rfl)
  rcases holds with rfl | ⟨key, located⟩
  · refine ⟨[], locates_apps root, ends_apps, fun x mem => ?_, fun x head => ?_⟩
    · cases List.mem_singleton.mp mem
      exact native ends_apps (by decide) (by decide)
    · cases head
      exact show Fits "apps.json" by decide
  · refine ⟨["history"], locates_history root located, ends_history located, fun x mem => ?_,
      fun x head => ?_⟩
    · simp only [List.mem_append, List.mem_singleton] at mem
      rcases mem with rfl | rfl
      · exact native (c := 'y') ⟨by decide, by decide⟩ (by decide) (by decide)
      · exact native (ends_history located) (by decide) (by decide)
    · cases head
      decide

section Frame

variable (root : d.root = a.root) (on : a.On h)
include root on

theorem lockHeld_iff {target : LockTarget} {bytes : ByteArray} (located : d.lock? target = .ok l) :
    d.LockHeld h target bytes ↔ l.path.check = .ok () ∧
      (∀ x ∈ a.below ++ ["locks"] ++ [l.file], Fits x) ∧
      h.files.kind (a.here ++ (a.below ++ ["locks"]) ++ [l.file]) = some (.file bytes) := by
  have locates := locates_lock root located
  have ends := ends_lock located
  have spells := locates.spells l.file (ends.isName nofun)
  refine .trans ?_ (on.holds.read_eq_ok spells (locates.follows on.holds (ends.proper nofun)))
  rw [← on.base]
  exact ⟨fun ⟨_, located', held⟩ => Except.ok.inj (located'.symm.trans located) ▸ held,
    fun held => ⟨l, located, held⟩⟩

variable (on' : a.On h')
include on'

theorem unchanged_of_kinds
    (above : ∀ r, r <+: a.below → h'.files.kind (a.here ++ r) = h.files.kind (a.here ++ r))
    (data : ∀ s, (∀ x ∈ s, ¬Foreign x) →
      h'.files.kind (a.here ++ (a.below ++ s)) = h.files.kind (a.here ++ (a.below ++ s)))
    (locks : ∀ target l bytes, taken ≠ some target → d.lock? target = .ok l →
      h'.files.kind (a.here ++ (a.below ++ ["locks"]) ++ [l.file]) = some (.file bytes) →
      h.files.kind (a.here ++ (a.below ++ ["locks"]) ++ [l.file]) = some (.file bytes)) :
    d.Unchanged taken h h' := by
  apply unchanged_of_reads
  case data =>
    intro l holds
    obtain ⟨trail, locates, ends, native, _⟩ := holds.locates root
    have spells := locates.spells l.file (ends.isName nofun)
    have follows := locates.follows on.holds (ends.proper nofun)
    rw [on.base, on'.base]
    refine on.holds.read_congr on'.holds spells follows (by simp) fun r pre => ?_
    rw [List.append_assoc] at pre
    rcases List.prefix_or_prefix_of_prefix pre (List.prefix_append ..) with short | ⟨s, rfl⟩
    · exact above r short
    · exact data s fun x mem => native x (((List.prefix_append_right_inj _).mp pre).subset mem)
  case locks =>
    rintro target bytes other ⟨l, located, held⟩
    obtain ⟨check, fits, there⟩ := (lockHeld_iff root on' located).mp ⟨l, located, held⟩
    exact (lockHeld_iff root on located).mpr ⟨check, fits, locks target l bytes other located there⟩

-- A change at foreign names is not noticed, unless it is a lock that is taken.
theorem unchanged_of_update (changed : h'.files.kind = Function.update h.files.kind (a.here ++ (a.below ++ q)) k)
    (foreign : ∃ x ∈ q, Foreign x)
    (free : ∀ bytes, k = some (.file bytes) → ∀ target l, taken ≠ some target →
      d.lock? target = .ok l → q ≠ ["locks", l.file]) :
    d.Unchanged taken h h' := by
  obtain ⟨x, mem, foreign⟩ := foreign
  refine unchanged_of_kinds root on on' (fun r pre => ?_) (fun s native => ?_)
    fun target l bytes other located there => ?_
  · rw [changed, Function.update_of_ne]
    intro same
    have shorter := (List.append_cancel_left same ▸ pre).length_le
    have longer := List.length_pos_of_mem mem
    rw [List.length_append] at shorter
    omega
  · rw [changed, Function.update_of_ne]
    intro same
    have same := List.append_cancel_left (List.append_cancel_left same)
    exact native x (same ▸ mem) foreign
  · rw [changed, Function.update_apply] at there
    split at there
    case isTrue same =>
      have same : ["locks", l.file] = q := by simpa using same
      exact absurd same.symm (free bytes there target l other located)
    case isFalse => exact there

-- Drafts are not noticed.
theorem unchanged_of_draft {trail : List String} {mark : String} (drafts : a.Drafts l trail mark)
    (changed : h'.files.kind =
      Function.update h.files.kind (a.here ++ (a.below ++ trail) ++ [l.draft mark]) k) :
    d.Unchanged taken h h' := by
  have changed : h'.files.kind =
      Function.update h.files.kind (a.here ++ (a.below ++ (trail ++ [l.draft mark]))) k := by
    simpa using changed
  refine unchanged_of_update root on on' changed ⟨l.draft mark, by simp, .inr drafts.ends_draft⟩
    fun _ _ target l' _ located same => ?_
  have last := congrArg List.getLast? same
  simp only [List.getLast?_concat, List.getLast?_cons_cons, List.getLast?_singleton,
    Option.some.injEq] at last
  exact (ends_lock located).ne drafts.ends_draft nofun last.symm

theorem unchanged_of_made {front : List String} (pre : front <+: a.below ++ ["locks"])
    (made : a.Makes front h h') : d.Unchanged taken h h' := by
  rcases List.prefix_concat_iff.mp pre with rfl | inside
  case inl =>
    exact unchanged_of_update root on on' made.changed
      ⟨"locks", by simp, .inl ⟨by decide, by decide⟩⟩ nofun
  case inr =>
    obtain ⟨q, x, rfl, folder⟩ := made.split
    have free := made.free
    have changes : a.Changes h.files h'.files _ _ := ⟨made.on.holds, made.changed⟩
    rw [← List.append_assoc] at free changes
    apply unchanged_of_reads
    case data =>
      intro l holds
      obtain ⟨trail, locates, ends, _, fits⟩ := holds.locates root
      have spells := locates.spells l.file (ends.isName nofun)
      have follows := locates.follows on.holds (ends.proper nofun)
      rw [List.append_assoc] at spells follows
      rw [on.base, on'.base]
      exact Approach.read_of_new_directory on.holds free folder changes inside spells follows
        (by simp) fits
    case locks =>
      rintro target bytes _ ⟨l, located, held⟩
      obtain ⟨check, fits, there⟩ := (lockHeld_iff root on' located).mp ⟨l, located, held⟩
      refine (lockHeld_iff root on located).mpr ⟨check, fits, ?_⟩
      rw [changes.changed, Function.update_apply] at there
      split at there
      · exact nomatch there
      · exact there

end Frame

theorem unchanged_of_makesAlong (root : d.root = a.root) (on : a.On h)
    (makes : a.MakesAlong (a.below ++ ["locks"]) h h') : d.Unchanged taken h h' ∧ a.On h' := by
  induction makes with
  | refl => exact ⟨.refl d h, on⟩
  | tail _ made ih =>
    obtain ⟨front, pre, made⟩ := made
    exact ⟨ih.1.trans (unchanged_of_made root ih.2 made.on pre made), made.on⟩

end Directory
end AirRelease
