import AirRelease.Proofs.Directory.Blocked
import AirRelease.Proofs.Directory.Save
import AirRelease.Proofs.Service.Failure
import AirRelease.Store.Memory

namespace AirRelease

namespace Memory

-- The lock was free and has been taken.
structure Holding (target : LockTarget) (s s' : Memory) : Prop where
  free : target ∉ s.held
  taken : s' = { s with held := target :: s.held }

theorem Holding.of_tryLock {target : LockTarget} {s s' : Memory} (taken : s.tryLock target = (true, s')) :
    Holding target s s' := by
  rw [tryLock] at taken
  split at taken
  case isTrue => exact nomatch taken
  case isFalse free => exact ⟨free, (congrArg Prod.snd taken).symm⟩

theorem unlock_of_holding {target : LockTarget} {s s' : Memory} (holding : Holding target s s') :
    s'.unlock target = s := by
  obtain ⟨free, rfl⟩ := holding
  have others : s.held.filter (· ≠ target) = s.held :=
    List.filter_eq_self.mpr fun other mem => decide_eq_true (ne_of_mem_of_not_mem mem free)
  rw [unlock, List.filter_cons_of_neg (by simp), others]

theorem restores : store.Restores (fun s s' => s' = s) Holding where
  refl _ := rfl
  trans first second := second.trans first
  loadApps _ := rfl
  loadHistory _ _ := rfl
  tryLock {target s r s'} tried := by
    obtain ⟨rfl, rfl⟩ := Prod.mk.inj tried
    constructor
    case left =>
      intro taken
      exact .of_tryLock (Prod.ext (Except.ok.inj taken) rfl)
    case right =>
      intro busy
      rw [Memory.tryLock] at busy ⊢
      split at busy
      case isTrue held => rw [if_pos held]
      case isFalse => exact absurd rfl busy
  pause _ _ := rfl
  unlock := unlock_of_holding
  hold same holding := same ▸ holding
  saveApps _ saved bad := absurd (congrArg Prod.fst saved).symm bad
  saveHistory _ saved bad := absurd (congrArg Prod.fst saved).symm bad

end Memory

namespace Directory

variable {a : Approach} {d : Directory} {target : LockTarget} {h h' h'' : Host}

theorem holding_of_failed_saveApps {apps : Registry} {r : Except StoreError Unit}
    (root : d.root = a.root) (whole : '/' ∉ d.mark.toList) (holding : d.Holding a target h h')
    (saved : d.onHost.saveApps apps h' = (r, h'')) (failed : r ≠ .ok ()) :
    d.Holding a target h h'' := by
  have drafts := (locates_apps root).drafts ends_apps whole nofun nofun
  obtain ⟨l, _, owns⟩ := holding.owns
  have there : h'.files.kind (a.here ++ (a.below ++ [])) = some .directory := by
    have folder := owns.reach.folder
    rw [← List.append_assoc] at folder
    rw [List.append_nil]
    exact FileTree.directory_of_append folder
  exact holding_of_failed_save root drafts (Nat.zero_le 1) holding
    (fun missing => nomatch missing.symm.trans there) saved failed

theorem holding_of_failed_saveHistory {key : AccessKey} {history : History}
    {r : Except StoreError Unit} (root : d.root = a.root) (whole : '/' ∉ d.mark.toList)
    (holding : d.Holding a (.history key) h h')
    (saved : d.onHost.saveHistory key history h' = (r, h'')) (failed : r ≠ .ok ()) :
    d.Holding a (.history key) h h'' := by
  rw [saveHistory_apply] at saved
  cases located : d.history? key with
  | error e =>
    rw [located] at saved
    cases saved
    exact holding
  | ok l =>
    rw [located] at saved
    have drafts := (locates_history root located).drafts (ends_history located) whole nofun nofun
    obtain ⟨l', located', owns⟩ := holding.owns
    exact holding_of_failed_save root drafts (Nat.le_refl 1) holding
      (fun _ => nameable_history holding.on whole root located located' owns.drafted.check
        (owns.drafted.fits _ (by simp))) saved failed

-- Where the way to the directory is blocked, no request comes as far as to hold a lock.
theorem restores_of_blocked (d : Directory) :
    d.onHost.Restores (fun h h' => d.Blocked h → h'.files = h.files ∧ h'.base = h.base)
      (fun _ h _ => ¬d.Blocked h) where
  refl _ _ := ⟨rfl, rfl⟩
  trans first second blocked := by
    have ⟨files, base⟩ := first blocked
    have ⟨files', base'⟩ := second (blocked.congr files base)
    exact ⟨files'.trans files, base'.trans base⟩
  loadApps h := by rw [loadApps_apply]
  loadHistory key h := by rw [loadHistory_apply]
  tryLock tried := by
    refine ⟨fun taken blocked => (blocked.tryLock tried).1 taken, fun _ blocked => ?_⟩
    cases (blocked.tryLock tried).2
    exact ⟨rfl, rfl⟩
  pause _ _ _ := ⟨rfl, rfl⟩
  unlock holding blocked := absurd blocked holding
  hold same holding blocked := by
    have ⟨files, base⟩ := same blocked
    exact holding (blocked.congr files base)
  saveApps holding _ _ := holding
  saveHistory holding _ _ := holding

theorem restores (root : d.root = a.root) (whole : '/' ∉ d.mark.toList) :
    d.onHost.Restores (fun h h' => a.On h → a.On h' ∧ d.Unchanged none h h')
      (fun target h h' => a.On h → d.Holding a target h h') where
  refl h on := ⟨on, .refl d h⟩
  trans first second on := ⟨(second (first on).1).1, (first on).2.trans (second (first on).1).2⟩
  loadApps h := by rw [loadApps_apply]
  loadHistory key h := by rw [loadHistory_apply]
  tryLock {target h r h'} tried := by
    have spec (on : a.On h) : (r = .ok true → d.Holding a target h h') ∧
        (r ≠ .ok true → a.On h' ∧ d.Unchanged none h h') := by
      obtain ⟨_, _, tried', spec⟩ := tryLock_spec root whole on
      cases tried.symm.trans tried'
      exact spec
    exact ⟨fun taken on => (spec on).1 taken, fun busy on => (spec on).2 busy⟩
  pause pause h on := ⟨⟨on.holds, on.base⟩, unchanged_of_pause pause h⟩
  unlock holding on := unchanged_of_unlock root (holding on)
  hold same holding on := .of_unchanged (same on).2 (holding (same on).1)
  saveApps holding saved failed on := holding_of_failed_saveApps root whole (holding on) saved failed
  saveHistory holding saved failed on :=
    holding_of_failed_saveHistory root whole (holding on) saved failed

end Directory

-- The store in memory is in the very same state. What a directory holds is loaded as before, whatever
-- it is, and it has no new locks.
theorem unchanged_of_handle_eq_error (account : Email) (deployments : List Name) (timeout : Duration)
    (o : Occasion) (request : Request) :
    (∀ (s : Memory) e,
      (Service.handle ⟨Memory.store, account, deployments, timeout⟩ o request s).1.result = .error e →
      (Service.handle ⟨Memory.store, account, deployments, timeout⟩ o request s).2 = s) ∧
    ∀ (d : Directory) (h : Host) e, '/' ∉ d.mark.toList → d.Steady h →
      (Service.handle ⟨d.onHost, account, deployments, timeout⟩ o request h).1.result = .error e →
      d.Unchanged none h (Service.handle ⟨d.onHost, account, deployments, timeout⟩ o request h).2 := by
  constructor
  case left =>
    intro s e failed
    exact Memory.restores.same_of_handle_eq_error rfl o request failed
  case right =>
    intro d h e whole steady failed
    rcases steady with ⟨a, root, on⟩ | blocked | refused
    · exact ((Directory.restores root whole).same_of_handle_eq_error rfl o request failed on).2
    · obtain ⟨files, base⟩ :=
        (Directory.restores_of_blocked d).same_of_handle_eq_error rfl o request failed blocked
      exact Directory.unchanged_of_files files base
    · exact Directory.unchanged_of_refused refused h _

theorem linkless_oneFile (folder name : String) (bytes : ByteArray) :
    Host.Linkless ⟨⟨[(folder, .directory [(name, .file bytes)])]⟩, [], ⟨0, 0⟩, []⟩ where
  distinct := by
    refine .directory (List.pairwise_singleton ..) (List.forall_mem_singleton.mpr ?_)
    exact .directory (List.pairwise_singleton ..) (List.forall_mem_singleton.mpr .file)
  linkless := by
    refine .of_node (.directory (List.forall_mem_singleton.mpr ?_))
    exact .directory (List.forall_mem_singleton.mpr .file)
  base := rfl

-- A computer where the stored registry is damaged.
def damaged : Host :=
  ⟨⟨[("data", .directory [("apps.json", .file ⟨#[0x7b]⟩)])]⟩, [], ⟨0, 0⟩, []⟩

theorem grows_damaged : Directory.Grows ⟨⟨"data"⟩, "host", 1, "1"⟩ damaged := by
  intro above below place split reached missing
  match above, below, split with
  | [], _, rfl =>
    cases reached
    exact nomatch missing
  | _, [], _ => exact List.forall_mem_nil _
  | [_], _ :: _, split => exact nomatch split
  | _ :: _ :: _, _ :: _, split => exact nomatch split

theorem unchanged_of_handle_eq_error_damaged :
    let ann : Email := ⟨"ann@example.com"⟩
    let data : Directory := ⟨⟨"data"⟩, "host", 1, "1"⟩
    let o : Occasion := ⟨0, fun _ => ⟨"a"⟩⟩
    let onMemory : Service (StateM Memory) := ⟨Memory.store, ann, [], ⟨0⟩⟩
    let onHost : Service (StateM Host) := ⟨data.onHost, ann, [], ⟨0⟩⟩
    (onMemory.handle o (.removeApp "X") .empty).1.result = .error (.registry (.appNotFound "X")) ∧
      (onMemory.handle o (.removeApp "X") .empty).2 = .empty ∧
      (onHost.handle o (.removeApp "X") damaged).1.result =
        .error (.store (.unreadable ⟨"data/apps.json"⟩)) ∧
      data.Unchanged none damaged (onHost.handle o (.removeApp "X") damaged).2 := by
  intro ann data o onMemory onHost
  have unknown : (onMemory.handle o (.removeApp "X") .empty).1.result =
      .error (.registry (.appNotFound "X")) := by decide
  have unreadable : (onHost.handle o (.removeApp "X") damaged).1.result =
      .error (.store (.unreadable ⟨"data/apps.json"⟩)) := by decide +kernel
  have ⟨memory, directory⟩ := unchanged_of_handle_eq_error ann [] ⟨0⟩ o (.removeApp "X")
  exact ⟨unknown, memory .empty _ unknown, unreadable,
    directory data damaged _ (by decide) (.of_grows (linkless_oneFile ..) grows_damaged) unreadable⟩

-- A computer where the path of the directory steps back from a directory that is missing. A request makes
-- it before it fails, and then the path leads to a registry, which is damaged.
def detoured : Host :=
  ⟨⟨[("b", .directory [("apps.json", .file ⟨#[0x7b]⟩)])]⟩, [], ⟨0, 0⟩, []⟩

theorem not_unchanged_of_detour :
    ¬∀ (account : Email) (deployments : List Name) (timeout : Duration) (o : Occasion) (request : Request)
      (d : Directory) (h : Host) e, '/' ∉ d.mark.toList → h.Linkless →
      (Service.handle ⟨d.onHost, account, deployments, timeout⟩ o request h).1.result = .error e →
      d.Unchanged none h (Service.handle ⟨d.onHost, account, deployments, timeout⟩ o request h).2 := by
  intro unchanged
  let data : Directory := ⟨⟨"a/../b"⟩, "host", 1, "1"⟩
  let service : Service (StateM Host) := ⟨data.onHost, ⟨"ann@example.com"⟩, [], ⟨0⟩⟩
  let o : Occasion := ⟨0, fun _ => ⟨"a"⟩⟩
  have failed : (service.handle o (.removeApp "X") detoured).1.result =
      .error (.store (.unreadable ⟨"a/../b/apps.json"⟩)) := by decide +kernel
  have before : (data.onHost.loadApps detoured).1.isOk = true := by decide +kernel
  have after : (data.onHost.loadApps (service.handle o (.removeApp "X") detoured).2).1.isOk = false := by
    decide +kernel
  have same := (unchanged _ _ _ o _ data detoured _ (by decide) (linkless_oneFile ..) failed).apps
  exact Bool.false_ne_true (after.symm.trans ((congrArg _ same).trans before))

end AirRelease
