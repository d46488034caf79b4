import AirRelease.Proofs.Locking.Sound
import AirRelease.Proofs.Locking.Stores

namespace AirRelease.Locking

variable {root : Path} {a : Approach} {h : Host} {number : Nat}

-- The drop of the lock removes a file that was created for another one.
def RemovesOther (w : Users (Member root) Host) (number : Nat) : Prop :=
  ∃ l ∈ w.live, l.number = number ∧ w.last l.target ≠ some number ∧
    (∃ bytes, l.user.directory.LockHeld w.state l.target bytes) ∧
    ¬∃ bytes, l.user.directory.LockHeld ((directories root).step w (.drop number)).state l.target bytes

def SparesOthers (h : Host) (actions : List (Action (Member root))) : Prop :=
  ∀ done number, done ++ [.drop number] <+: actions → ¬RemovesOther ((directories root).run h done) number

def NeverLate (h : Host) (actions : List (Action (Member root))) : Prop :=
  ∀ done number, done ++ [.drop number] <+: actions → ¬((directories root).run h done).Late number

-- Of the locks on a target, one at most is younger than ten minutes.
def OneYoung (w : Users (Member root) Host) : Prop :=
  ∀ l ∈ w.live, ∀ l' ∈ w.live, l.target = l'.target →
    ¬l.since.Lapsed w.state.time → ¬l'.since.Lapsed w.state.time → l.number = l'.number

instance (w : Users (Member root) Host) : Decidable (OneYoung w) :=
  inferInstanceAs (Decidable (∀ l ∈ w.live, ∀ l' ∈ w.live, l.target = l'.target →
    ¬l.since.Lapsed w.state.time → ¬l'.since.Lapsed w.state.time → l.number = l'.number))

section Sound

variable {w : Users (Member a.root) Host} {standing : LockTarget → Option Instant}
  (sound : Sound (directories a.root) (fun standing h => a.On h ∧ a.Locked standing h.files.kind) w standing)
include sound

theorem oneYoung_of_sound : OneYoung w := by
  intro l mem l' mem' same young young'
  have latest (l : Live (Member a.root)) (mem : l ∈ w.live) (young : ¬l.since.Lapsed w.state.time) :
      w.last l.target = some l.number := by
    by_contra old
    exact young (sound.lapsed l mem old)
  have eq := latest l mem young
  rw [same, latest l' mem' young'] at eq
  exact (Option.some.inj eq).symm

-- What stands is the file of the latest lock. Only a late drop meets it in the place of its own.
theorem removesOther_iff_late : RemovesOther w number ↔ w.Late number := by
  have held (l : Live (Member a.root)) (mem : l ∈ w.live) :=
    Directory.lockHeld_iff_standing l.user.root l.user.whole sound.stands.1 sound.stands.2 (sound.takes l mem)
  constructor
  case mp =>
    rintro ⟨l, mem, rfl, other, there, _⟩
    obtain ⟨since, stands⟩ := Option.ne_none_iff_exists'.mp ((held l mem).mp there)
    obtain ⟨l', mem', latest, targets, _⟩ := (sound.shown _ _).mp stands
    exact ⟨l, mem, rfl, other, l', mem', latest, targets⟩
  case mpr =>
    rintro ⟨l, mem, rfl, old, l', mem', latest, targets⟩
    have stands := (sound.shown l.target l'.since).mpr ⟨l', mem', latest, targets, rfl⟩
    refine ⟨l, mem, rfl, old, (held l mem).mpr (ne_of_eq_of_ne stands nofun), ?_⟩
    have ⟨on, locked⟩ := (guarded_directories a).unlock sound.stands (sound.takes l mem)
    rw [sound.state_drop mem]
    refine (Directory.lockHeld_iff_standing l.user.root l.user.whole on locked (sound.takes l mem)).not.mpr ?_
    exact not_not.mpr (Function.update_self ..)

end Sound

theorem spares_others_iff (a : Approach) (h : Host) (actions : List (Action (Member a.root))) (on : a.On h)
    (unlocked : a.Unlocked h.files.kind)
    (regular : ∀ done, done <+: actions → ((directories a.root).run h done).state.time.Regular) :
    (SparesOthers h actions ↔ NeverLate h actions) ∧
      (NeverLate h actions → ∀ done, done <+: actions → OneYoung ((directories a.root).run h done)) := by
  have sound := Sound.of_run (guarded_directories a) ⟨on, unlocked.locked⟩ actions regular
  have of_neverLate (never : NeverLate h actions) := sound fun done number pre _ => never done number pre
  constructor
  case left =>
    constructor
    case mp =>
      intro spares
      have sound := sound fun done number pre ⟨_, sound⟩ =>
        (removesOther_iff_late sound).not.mp (spares done number pre)
      intro done number pre
      obtain ⟨_, sound⟩ := sound done ((List.prefix_append ..).trans pre)
      exact (removesOther_iff_late sound).not.mp (spares done number pre)
    case mpr =>
      intro never done number pre
      obtain ⟨_, sound⟩ := of_neverLate never done ((List.prefix_append ..).trans pre)
      exact (removesOther_iff_late sound).not.mpr (never done number pre)
  case right =>
    intro never done pre
    obtain ⟨_, sound⟩ := of_neverLate never done pre
    exact oneYoung_of_sound sound

-- Bob takes over what Ann has had for ten minutes, and both give it back.
def bobFirst : List (Action (Member toNewData.root)) :=
  [.tryLock ann .registry, .wait ann ⟨600000000000⟩, .tryLock bob .registry, .drop 1, .drop 0]

theorem spares_others_iff_bobFirst :
    toNewData.On bare ∧ toNewData.Unlocked bare.files.kind ∧
      (∀ done, done <+: bobFirst → ((directories toNewData.root).run bare done).state.time.Regular) ∧
      NeverLate bare bobFirst ∧ SparesOthers bare bobFirst ∧
      ∀ done, done <+: bobFirst → OneYoung ((directories toNewData.root).run bare done) := by
  have regular : ∀ done, done <+: bobFirst → ((directories toNewData.root).run bare done).state.time.Regular := by
    decide +kernel
  have never : NeverLate bare bobFirst := by
    rintro done number ⟨rest, eq⟩
    have at_ : bobFirst[done.length]? = some (.drop number) := by simp [← eq]
    have before : bobFirst.take done.length = done := by simp [← eq]
    rw [← before]
    match done.length, at_ with
    | 0, at_ | 1, at_ | 2, at_ | k + 5, at_ => simp [bobFirst] at at_
    | 3, at_ =>
      obtain rfl : 1 = number := by simpa [bobFirst] using at_
      decide +kernel
    | 4, at_ =>
      obtain rfl : 0 = number := by simpa [bobFirst] using at_
      decide +kernel
  have ⟨spares, young⟩ := spares_others_iff toNewData bare bobFirst on_bare unlocked_bare regular
  exact ⟨on_bare, unlocked_bare, regular, never, spares.mpr never, young never⟩

-- Ann is first instead, and asks again.
def annFirst : List (Action (Member toNewData.root)) :=
  [.tryLock ann .registry, .wait ann ⟨600000000000⟩, .tryLock bob .registry, .drop 0, .tryLock ann .registry]

-- She has removed Bob's file, so that now both of them have the lock.
theorem late_drop_removes_other :
    ¬SparesOthers bare annFirst ∧ ¬OneYoung ((directories toNewData.root).run bare annFirst) := by
  refine ⟨fun spares => ?_, by decide +kernel⟩
  have regular : ∀ done, done <+: annFirst.take 3 →
      ((directories toNewData.root).run bare done).state.time.Regular := by
    decide +kernel
  have sound := Sound.of_run (guarded_directories toNewData)
    ⟨on_bare, unlocked_bare.locked⟩ (annFirst.take 3) regular
    fun done number pre _ =>
      absurd (pre.subset (List.mem_append_right done List.mem_cons_self)) (by simp [annFirst])
  obtain ⟨_, sound⟩ := sound _ (List.prefix_refl _)
  exact spares (annFirst.take 3) 0 ⟨[.tryLock ann .registry], rfl⟩
    ((removesOther_iff_late sound).mpr (by decide +kernel))

end AirRelease.Locking
