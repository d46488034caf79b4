import AirRelease.Proofs.Locking.Users
import AirRelease.Store.Memory

namespace AirRelease

theorem Instant.nanosecondsSince_addNanoseconds (now since : Instant) (n : Nat) :
    (now.addNanoseconds n).nanosecondsSince since = now.nanosecondsSince since + n := by
  have split := Nat.div_add_mod (now.nanoseconds + n) nanosecondsPerSecond
  simp only [addNanoseconds, nanosecondsSince, nanosecondsPerSecond] at split ⊢
  omega

theorem Instant.Lapsed.addNanoseconds {since now : Instant} (lapsed : since.Lapsed now) (n : Nat) :
    since.Lapsed (now.addNanoseconds n) := by
  rw [Lapsed, nanosecondsSince_addNanoseconds]
  have before : LockNote.patience ≤ now.nanosecondsSince since := lapsed
  omega

theorem Instant.not_lapsed_self (now : Instant) : ¬now.Lapsed now :=
  LockNote.not_stale_started ⟨"", 0, now, ""⟩

namespace Locking

-- A store in memory. There is nothing like a clock in it.
def memory : Shared Unit Memory where
  store _ := Memory.store
  time _ := ⟨0, 0⟩
  Takes _ _ := True

theorem guarded_memory :
    memory.Guarded fun standing s => ∀ target,
      standing target = if target ∈ s.held then some ⟨0, 0⟩ else none where
  vacant {standing s user target} stands _ vacant := by
    have free : target ∉ s.held := by
      intro held
      exact Instant.not_lapsed_self _ (vacant ⟨0, 0⟩ ((stands target).trans (if_pos held)))
    refine ⟨{ s with held := target :: s.held }, ?_, fun _ other => ?_⟩
    · simp only [memory, Memory.store, Memory.tryLock, if_neg free]
    · by_cases same : other = target
      · simp [same, memory]
      · simp [same, stands other]
  held {standing s user target since} stands _ taken _ := by
    have held : target ∈ s.held := by
      by_contra free
      exact nomatch taken.symm.trans ((stands target).trans (if_neg free))
    exact ⟨s, by simp only [memory, Memory.store, Memory.tryLock, if_pos held], stands⟩
  refused _ not := absurd trivial not
  unlock {standing s user target} stands _ other := by
    by_cases same : other = target
    · simp [same, memory, Memory.store, Memory.unlock]
    · simp [same, stands other, memory, Memory.store, Memory.unlock]
  pause _ _ stands := stands
  time_tryLock _ _ _ := rfl
  time_unlock _ _ _ := rfl
  onward_pause _ _ _ := fun _ lapsed => lapsed

-- One of those who use the directory at a path.
structure Member (root : Path) where
  directory : Directory
  root : directory.root = root
  whole : '/' ∉ directory.mark.toList
  process : directory.process < LockNote.processBound

-- The directory at a path, for all who use it.
def directories (root : Path) : Shared (Member root) Host where
  store member := member.directory.onHost
  time h := h.time
  Takes member target := member.directory.Lockable target

theorem guarded_directories (a : Approach) :
    (directories a.root).Guarded fun standing h => a.On h ∧ a.Locked standing h.files.kind where
  vacant {_ _ member _} stands lockable vacant := by
    obtain ⟨h', granted, on', locked⟩ := Directory.tryLock_of_vacant member.root member.whole stands.1 stands.2
      member.process lockable vacant
    exact ⟨h', granted, fun regular => ⟨on', locked regular⟩⟩
  held {_ _ member _ _} stands lockable taken held :=
    Directory.tryLock_of_held member.root member.whole stands.1 stands.2 lockable taken held
  refused {_ _ member _} stands not :=
    Directory.tryLock_of_not_lockable member.root member.whole stands.1 stands.2 not
  unlock {_ _ member _} stands lockable :=
    Directory.unlock_of_locked member.root member.whole stands.1 stands.2 lockable
  pause _ _ stands := ⟨⟨stands.1.holds, stands.1.base⟩, stands.2⟩
  time_tryLock member target h := Directory.timeless_tryLock member.directory target h
  time_unlock member target h := Directory.timeless_unlock member.directory target h
  onward_pause _ d _ := fun _ lapsed => lapsed.addNanoseconds d.nanoseconds

-- Two who share a directory that is still to be made.
def ann : Member toNewData.root :=
  ⟨⟨toNewData.root, "host", 1, "1"⟩, rfl, by decide, by decide⟩

def bob : Member toNewData.root :=
  ⟨⟨toNewData.root, "host", 2, "2"⟩, rfl, by decide, by decide⟩

theorem unlocked_bare : toNewData.Unlocked bare.files.kind where
  clear front _ := by
    cases front with
    | nil => exact .inr rfl
    | cons => exact .inl rfl
  empty _ := rfl

end Locking
end AirRelease
