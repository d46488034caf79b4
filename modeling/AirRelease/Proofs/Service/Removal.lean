import AirRelease.Proofs.Directory.Histories
import AirRelease.Proofs.Files.Linkless

namespace AirRelease

namespace Memory

def SameHistory (key : AccessKey) (s s' : Memory) : Prop :=
  s'.histories.lookup key = s.histories.lookup key

theorem spares_of_histories {s s' : Memory} (histories : s'.histories = s.histories) (apps : s'.apps = s.apps) :
    store.Spares (fun _ => True) SameHistory s s' where
  valid := trivial
  same key := congrArg (List.lookup key) histories
  apps := congrArg Except.ok apps

theorem data_tryLock (s : Memory) (target : LockTarget) :
    (s.tryLock target).2.histories = s.histories ∧ (s.tryLock target).2.apps = s.apps := by
  rw [tryLock]
  split <;> exact ⟨rfl, rfl⟩

theorem separates : store.Separates (fun _ => True) SameHistory where
  refl _ _ := rfl
  trans first second := second.trans first
  loadHistory same := congrArg (Except.ok <| Option.getD · History.empty) same
  loadApps _ := rfl
  tryLock target s _ := by
    have ⟨histories, apps⟩ := data_tryLock s target
    exact spares_of_histories histories apps
  pause _ _ _ := spares_of_histories rfl rfl
  unlock _ _ _ := spares_of_histories rfl rfl
  saveApps _ saved := by
    cases saved
    exact ⟨trivial, fun _ => rfl⟩
  kept _ failed := nomatch (Prod.mk.inj failed).1
  deleted {key s _} _ deleted := by
    cases deleted
    exact ⟨trivial, congrArg Except.ok (history_eraseHistory_self s key),
      fun other ne => s.lookup_eraseHistory_of_ne ne⟩

end Memory

-- An app with three histories: another process works on the first one, and a directory is in the place of
-- the second one.
def deserted : Registry :=
  ⟨[⟨⟨"X", by decide⟩, Collaborators.empty.insert ⟨"ann@example.com"⟩ .owner,
    [⟨⟨"A", by decide⟩, ⟨"a"⟩⟩, ⟨⟨"B", by decide⟩, ⟨"b"⟩⟩, ⟨⟨"C", by decide⟩, ⟨"c"⟩⟩]⟩]⟩

def cluttered : Host :=
  ⟨⟨[("data", .directory [
    ("apps.json", .file deserted.toJson.line.toUTF8),
    ("history", .directory [("b.json", .directory []), ("c.json", .file ⟨#[]⟩)]),
    ("locks", .directory [
      ("history-a.lock", .file (LockNote.toJson ⟨"other", 2, ⟨0, 0⟩, "history a"⟩).line.toUTF8)])])]⟩,
    [], ⟨0, 0⟩, []⟩

theorem linkless_cluttered : cluttered.Linkless where
  distinct := by
    refine .directory (List.pairwise_singleton ..) (List.forall_mem_singleton.mpr (.directory (by decide) ?_))
    simp only [List.forall_mem_cons]
    refine ⟨.file, .directory (by decide) ?_, .directory (List.pairwise_singleton ..) ?_, nofun⟩
    case refine_1 => exact List.forall_mem_cons.mpr ⟨Node.distinct_empty, List.forall_mem_singleton.mpr .file⟩
    case refine_2 => exact List.forall_mem_singleton.mpr .file
  linkless := by
    refine .of_node (.directory (List.forall_mem_singleton.mpr (.directory ?_)))
    simp only [List.forall_mem_cons]
    refine ⟨.file, .directory ?_, .directory (List.forall_mem_singleton.mpr .file), nofun⟩
    exact List.forall_mem_cons.mpr ⟨.directory nofun, List.forall_mem_singleton.mpr .file⟩
  base := rfl

end AirRelease
