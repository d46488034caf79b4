import AirRelease.Proofs.Locking.Sound
import AirRelease.Proofs.Locking.Stores

namespace AirRelease.Locking

variable {ι σ : Type}

-- Nobody has had a lock for so long that it counts as given up.
def Users.Young (c : Shared ι σ) (w : Users ι σ) : Prop :=
  ∀ l ∈ w.live, ¬l.since.Lapsed (c.time w.state)

instance (c : Shared ι σ) (w : Users ι σ) : Decidable (w.Young c) :=
  inferInstanceAs (Decidable (∀ l ∈ w.live, ¬l.since.Lapsed (c.time w.state)))

-- A lock is granted to whoever asks for it if and only if nobody has it.
def Users.expected (w : Users ι σ) (target : LockTarget) : Outcome :=
  if target ∈ w.live.map (·.target) then .busy else .granted

-- What users can rely on throughout a run.
structure Exclusive (c : Shared ι σ) (s : σ) (actions : List (Action ι)) : Prop where
  alone : ∀ done, done <+: actions → ((c.run s done).live.map (·.target)).Nodup
  answer : ∀ done a user target, done ++ [a] <+: actions → a.request? = some (user, target) →
    c.Takes user target → (c.perform (c.run s done) a).1 = a.answer ((c.run s done).expected target)
  refuse : ∀ done a user target, done ++ [a] <+: actions → a.request? = some (user, target) →
    ¬c.Takes user target → ∃ o, o ≠ .granted ∧ (c.perform (c.run s done) a).1 = a.answer o
  again : ∀ done, done <+: actions → (c.run s done).live = [] → ∀ (a : Action ι) user target,
    a.request? = some (user, target) → c.Takes user target →
      (c.perform (c.run s done) a).1 = a.answer .granted

section Young

variable {c : Shared ι σ} {Stands : (LockTarget → Option Instant) → σ → Prop} {w : Users ι σ}
  {standing : LockTarget → Option Instant} {s : σ} {user : ι} {target : LockTarget}

section Sound

variable (sound : Sound c Stands w standing) (young : w.Young c)
include sound young

theorem latest_of_young {l : Live ι} (mem : l ∈ w.live) : w.Latest l := by
  by_contra old
  exact young l mem (sound.lapsed l mem old)

theorem not_late_of_young (number : Nat) : ¬w.Late number :=
  fun ⟨_, mem, _, old, _⟩ => old (latest_of_young sound young mem)

theorem nodup_of_young : (w.live.map (·.target)).Nodup := by
  refine sound.numbers.of_map.map_on fun l mem l' mem' same => ?_
  have latest : w.last l.target = some l.number := latest_of_young sound young mem
  have latest' : w.last l'.target = some l'.number := latest_of_young sound young mem'
  rw [same] at latest
  exact sound.eq_of_number mem mem' (Option.some.inj (latest.symm.trans latest'))

-- A lock that is granted has been free, since none can have lapsed.
theorem expected_of_answered {now : Instant} {o : Outcome} (answered : Answered c w standing user target now o)
    (takes : c.Takes user target) (held : ∀ l ∈ w.live, ¬l.since.Lapsed now) : o = w.expected target := by
  rw [Users.expected]
  cases o with
  | granted =>
    rw [if_neg]
    intro mem
    obtain ⟨l, mem, same⟩ := List.mem_map.mp mem
    have taken := (sound.shown target l.since).mpr ⟨l, mem, latest_of_young sound young mem, same, rfl⟩
    exact held l mem (answered.2 _ taken)
  | busy =>
    obtain ⟨l, mem, same⟩ := answered
    rw [if_pos (List.mem_map.mpr ⟨l, mem, same⟩)]
  | refused => exact absurd takes answered

end Sound

theorem exclusive_of_sound {actions : List (Action ι)} (guarded : c.Guarded Stands)
    (sound : ∀ done, done <+: actions → ∃ standing, Sound c Stands (c.run s done) standing)
    (young : ∀ done, done <+: actions → (c.run s done).Young c) : Exclusive c s actions where
  alone done pre := by
    obtain ⟨_, sound⟩ := sound done pre
    exact nodup_of_young sound (young done pre)
  answer done a user target pre asks takes := by
    have before := (List.prefix_append ..).trans pre
    obtain ⟨_, sound⟩ := sound done before
    obtain ⟨o, eq, answered, stays, _⟩ := sound.request guarded asks
    have after := young _ pre
    rw [run_concat] at after
    rw [eq, expected_of_answered sound (young done before) answered takes fun l mem => after l (stays l mem)]
  refuse done a user target pre asks not := by
    obtain ⟨_, sound⟩ := sound done ((List.prefix_append ..).trans pre)
    obtain ⟨o, eq, answered, _⟩ := sound.request guarded asks
    refine ⟨o, ?_, eq⟩
    rintro rfl
    exact not answered.1
  again done pre empty a user target asks takes := by
    obtain ⟨_, sound⟩ := sound done pre
    obtain ⟨o, eq, answered, _⟩ := sound.request guarded asks
    have nobody : ∀ l ∈ (c.run s done).live, ¬l.since.Lapsed (c.time (c.step (c.run s done) a).state) := by
      rw [empty]
      exact nofun
    rw [eq, expected_of_answered sound (young done pre) answered takes nobody, Users.expected, empty]
    rfl

theorem tried_of_not_takes (guarded : c.Guarded Stands) (stands : Stands standing w.state)
    (not : ¬c.Takes user target) : ∃ e, (c.perform w (.tryLock user target)).1 = .tried (.error e) := by
  obtain ⟨e, s', refused, _⟩ := guarded.refused stands not
  exact ⟨e, by simp only [Shared.perform, refused]⟩

end Young

theorem regular_zero : (⟨0, 0⟩ : Instant).Regular := by
  decide

-- In memory no time passes.
theorem young_of_memory {Stands : (LockTarget → Option Instant) → Memory → Prop} {w : Users Unit Memory}
    {standing : LockTarget → Option Instant} (sound : Sound memory Stands w standing) : w.Young memory := by
  intro l mem
  obtain ⟨s, read⟩ := sound.read l mem
  rw [read]
  exact Instant.not_lapsed_self _

theorem exclusive_of_run :
    (∀ (s : Memory) (actions : List (Action Unit)), s.held = [] → Exclusive memory s actions) ∧
    ∀ (a : Approach) (h : Host) (actions : List (Action (Member a.root))), a.On h →
      a.Unlocked h.files.kind →
      (∀ done, done <+: actions → ((directories a.root).run h done).state.time.Regular ∧
        ((directories a.root).run h done).Young (directories a.root)) →
      Exclusive (directories a.root) h actions ∧
        ∀ done, done <+: actions → ∀ x,
          ((directories a.root).run h done).state.files.kind (a.here ++ (a.below ++ ["locks"]) ++ [x]) ≠ none →
            ∃ l ∈ ((directories a.root).run h done).live, x = Directory.lockFile l.target := by
  constructor
  case left =>
    intro s actions free
    have stands (target : LockTarget) : (none : Option Instant) =
        if target ∈ s.held then some ⟨0, 0⟩ else none := by
      simp [free]
    have sound := Sound.of_run guarded_memory stands actions (fun _ _ => regular_zero)
      fun _ number _ ⟨_, sound⟩ => not_late_of_young sound (young_of_memory sound) number
    exact exclusive_of_sound guarded_memory sound fun done pre => young_of_memory (sound done pre).choose_spec
  case right =>
    intro a h actions on unlocked within
    have guarded := guarded_directories a
    have sound := Sound.of_run guarded ⟨on, unlocked.locked⟩ actions
      (fun done pre => (within done pre).1) fun done number pre ⟨_, sound⟩ =>
        not_late_of_young sound (within done ((List.prefix_append ..).trans pre)).2 number
    refine ⟨exclusive_of_sound guarded sound fun done pre => (within done pre).2, fun done pre x there => ?_⟩
    obtain ⟨standing, sound⟩ := sound done pre
    by_cases lock : ∃ target, x = Directory.lockFile target
    case neg => exact absurd (sound.stands.2.only x fun target same => lock ⟨target, same⟩) there
    case pos =>
      obtain ⟨target, rfl⟩ := lock
      obtain ⟨l, mem, rfl⟩ := live_of_standing sound fun nobody => there (sound.stands.2.free nobody)
      exact ⟨l, mem, rfl⟩

-- Bob asks for what Ann has, and again when she has given it back.
def annThenBob : List (Action (Member toNewData.root)) :=
  [.acquire ann 0 ⟨0⟩ .registry (.registry ⟨0⟩), .wait bob ⟨60000000000⟩, .tryLock bob .registry,
    .forget 0 ⟨"k1"⟩, .drop 0, .acquire bob 1 ⟨0⟩ .registry (.registry ⟨0⟩)]

theorem exclusive_of_run_annThenBob :
    Memory.empty.held = [] ∧ Exclusive memory Memory.empty [.tryLock () .registry, .tryLock () .registry] ∧
      toNewData.On bare ∧ toNewData.Unlocked bare.files.kind ∧
      (∀ done, done <+: annThenBob → ((directories toNewData.root).run bare done).state.time.Regular ∧
        ((directories toNewData.root).run bare done).Young (directories toNewData.root)) ∧
      Exclusive (directories toNewData.root) bare annThenBob ∧
      ((directories toNewData.root).run bare annThenBob).live.map (·.number) = [1] := by
  have within : ∀ done, done <+: annThenBob → ((directories toNewData.root).run bare done).state.time.Regular ∧
      ((directories toNewData.root).run bare done).Young (directories toNewData.root) := by
    decide +kernel
  exact ⟨rfl, exclusive_of_run.1 _ _ rfl, on_bare, unlocked_bare, within,
    (exclusive_of_run.2 toNewData bare annThenBob on_bare unlocked_bare within).1, by decide +kernel⟩

-- A key may be safe in a path and still make the name of a file too long.
def keyOfLength (n : Nat) : AccessKey :=
  ⟨String.ofList (List.replicate n 'k')⟩

theorem utf8ByteSize_keyOfLength (n : Nat) : (keyOfLength n).text.utf8ByteSize = n := by
  induction n with
  | zero => rfl
  | succ n ih =>
    rw [keyOfLength] at ih ⊢
    rw [List.replicate_succ, String.ofList_cons, String.utf8ByteSize_append, ih, Nat.add_comm]
    rfl

theorem pathSafe_keyOfLength {n : Nat} (pos : 0 < n) : (keyOfLength n).PathSafe := by
  constructor
  · intro empty
    have size := utf8ByteSize_keyOfLength n
    rw [empty] at size
    exact absurd size.symm pos.ne'
  · rw [keyOfLength, String.toList_ofList, List.all_replicate, if_neg pos.ne']
    decide

theorem not_lockable_of_long (d : Directory) {key : AccessKey}
    (long : FileTree.maxNameLength < key.text.utf8ByteSize) : ¬d.Lockable (.history key) := by
  rintro ⟨l, located, _, fits⟩
  obtain ⟨_, rfl⟩ := Directory.lock_eq_ok.mp located
  simp only [FileTree.Fits, Location.draft, Directory.lockFile, String.utf8ByteSize_append] at fits
  omega

-- Nobody has the lock, and it is not granted.
theorem long_key_refused : (keyOfLength 300).PathSafe ∧ ∃ e,
    ((directories toNewData.root).perform (.start bare) (.tryLock ann (.history (keyOfLength 300)))).1 =
      .tried (.error e) := by
  refine ⟨pathSafe_keyOfLength (by decide), tried_of_not_takes (guarded_directories toNewData)
    ⟨on_bare, unlocked_bare.locked⟩ (not_lockable_of_long ann.directory ?_)⟩
  rw [utf8ByteSize_keyOfLength]
  decide

end AirRelease.Locking
