import Mathlib.Data.List.Induction
import Mathlib.Data.List.Infix
import Mathlib.Data.List.Nodup
import AirRelease.Proofs.Locking.Users

namespace AirRelease.Locking

variable {ι σ : Type}

-- Somebody else has taken the lock over and still has it.
def Users.Late (w : Users ι σ) (number : Nat) : Prop :=
  ∃ l ∈ w.live, l.number = number ∧ ¬w.Latest l ∧ ∃ l' ∈ w.live, w.Latest l' ∧ l'.target = l.target

-- The store shows the latest locks of those that are live. All others have been given up.
structure Sound (c : Shared ι σ) (Stands : (LockTarget → Option Instant) → σ → Prop) (w : Users ι σ)
    (standing : LockTarget → Option Instant) : Prop where
  tables : ∀ n, Tidy (w.tables n) n w.live
  numbers : (w.live.map (·.number)).Nodup
  fresh : ∀ l ∈ w.live, l.number < w.next
  takes : ∀ l ∈ w.live, c.Takes l.user l.target
  read : ∀ l ∈ w.live, ∃ s, l.since = c.time s
  stands : Stands standing w.state
  shown : ∀ target since, standing target = some since ↔
    ∃ l ∈ w.live, w.Latest l ∧ l.target = target ∧ l.since = since
  lapsed : ∀ l ∈ w.live, ¬w.Latest l → l.since.Lapsed (c.time w.state)

instance (w : Users ι σ) (l : Live ι) : Decidable (w.Latest l) :=
  inferInstanceAs (Decidable (_ = _))

instance (w : Users ι σ) (number : Nat) : Decidable (w.Late number) :=
  inferInstanceAs (Decidable (∃ l ∈ w.live, l.number = number ∧ ¬w.Latest l ∧
    ∃ l' ∈ w.live, w.Latest l' ∧ l'.target = l.target))

variable {c : Shared ι σ} {Stands : (LockTarget → Option Instant) → σ → Prop} {w : Users ι σ}
  {standing : LockTarget → Option Instant} {s s' : σ} {user : ι} {target : LockTarget} {busy : LockBusy}
  {tables : Nat → LockTable} {queue : Option (Nat × Nat)} {l : Live ι} {number : Nat}

namespace Sound

theorem start (stands : Stands (fun _ => none) s) : Sound c Stands (.start s) fun _ => none where
  tables n := .empty n
  numbers := List.nodup_nil
  fresh := nofun
  takes := nofun
  read := nofun
  stands := stands
  shown _ _ := ⟨nofun, nofun⟩
  lapsed := nofun

variable (sound : Sound c Stands w standing)
include sound

theorem eq_of_number {l' : Live ι} (mem : l ∈ w.live) (mem' : l' ∈ w.live) (same : l.number = l'.number) :
    l = l' :=
  List.inj_on_of_nodup_map sound.numbers mem mem' same

theorem keep (tidy : ∀ n, Tidy (tables n) n w.live) (stands : Stands standing s')
    (onward : c.Onward w.state s') : Sound c Stands { w with tables, state := s' } standing :=
  { sound with
    tables := tidy
    stands := stands
    shown := sound.shown
    lapsed := fun l mem old => onward _ (sound.lapsed l mem old) }

theorem take (tidy : ∀ n, Tidy (tables n) n (⟨target, user, w.next, c.time s', queue⟩ :: w.live))
    (takes : c.Takes user target) (vacant : Vacant standing target (c.time s'))
    (stands : Stands (Function.update standing target (some (c.time s'))) s') (onward : c.Onward w.state s') :
    Sound c Stands ({ w with tables, state := s' }.take target user (c.time s') queue)
      (Function.update standing target (some (c.time s'))) := by
  have older (l : Live ι) (mem : l ∈ w.live) : Function.update w.last target (some w.next) l.target =
      some l.number ↔ l.target ≠ target ∧ w.Latest l := by
    by_cases same : l.target = target
    case pos =>
      have ne : w.next ≠ l.number := Nat.ne_of_gt (sound.fresh l mem)
      simp [same, ne]
    case neg => simp [same, Users.Latest]
  constructor
  case tables => exact tidy
  case numbers =>
    refine List.nodup_cons.mpr ⟨fun mem => ?_, sound.numbers⟩
    obtain ⟨l, mem, same⟩ := List.mem_map.mp mem
    exact Nat.ne_of_lt (sound.fresh l mem) same
  case fresh =>
    rintro l (_ | ⟨_, mem⟩)
    · exact Nat.lt_succ_self _
    · exact Nat.lt_succ_of_lt (sound.fresh l mem)
  case takes =>
    rintro l (_ | ⟨_, mem⟩)
    · exact takes
    · exact sound.takes l mem
  case read =>
    rintro l (_ | ⟨_, mem⟩)
    · exact ⟨s', rfl⟩
    · exact sound.read l mem
  case stands => exact stands
  case shown =>
    intro other since
    by_cases same : other = target
    case pos =>
      subst same
      rw [Function.update_self]
      constructor
      · intro eq
        exact ⟨_, List.mem_cons_self, Function.update_self .., rfl, Option.some.inj eq⟩
      · rintro ⟨l, _ | ⟨_, mem⟩, latest, targets, eq⟩
        · exact congrArg some eq
        · exact absurd targets ((older l mem).mp latest).1
    case neg =>
      rw [Function.update_of_ne same, sound.shown]
      constructor
      · rintro ⟨l, mem, latest, rfl, eq⟩
        exact ⟨l, List.mem_cons_of_mem _ mem, (older l mem).mpr ⟨same, latest⟩, rfl, eq⟩
      · rintro ⟨l, _ | ⟨_, mem⟩, latest, targets, eq⟩
        · exact absurd targets.symm same
        · exact ⟨l, mem, ((older l mem).mp latest).2, targets, eq⟩
  case lapsed =>
    rintro l (_ | ⟨_, mem⟩) old
    · exact absurd (Function.update_self ..) old
    · by_cases latest : w.Latest l
      case neg => exact onward _ (sound.lapsed l mem latest)
      case pos =>
        -- The lock is the one that has been taken over.
        have same : l.target = target := by
          by_contra other
          exact old ((older l mem).mpr ⟨other, latest⟩)
        exact vacant _ ((sound.shown target l.since).mpr ⟨l, mem, latest, same, rfl⟩)

theorem drop (mem : l ∈ w.live) (live : ¬w.Late l.number)
    (tidy : ∀ n, Tidy (tables n) n (w.live.filter (·.number ≠ l.number)))
    (stands : Stands (Function.update standing l.target none) s') (onward : c.Onward w.state s') :
    Sound c Stands { w with live := w.live.filter (·.number ≠ l.number), tables, state := s' }
      (Function.update standing l.target none) := by
  have left {l' : Live ι} : l' ∈ w.live.filter (·.number ≠ l.number) ↔ l' ∈ w.live ∧ l'.number ≠ l.number := by
    simp
  constructor
  case tables => exact tidy
  case numbers => exact sound.numbers.sublist (List.filter_sublist.map _)
  case fresh => exact fun l' mem' => sound.fresh l' (left.mp mem').1
  case takes => exact fun l' mem' => sound.takes l' (left.mp mem').1
  case read => exact fun l' mem' => sound.read l' (left.mp mem').1
  case stands => exact stands
  case lapsed => exact fun l' mem' old => onward _ (sound.lapsed l' (left.mp mem').1 old)
  case shown =>
    intro target since
    by_cases same : target = l.target
    case pos =>
      subst same
      rw [Function.update_self]
      refine ⟨nofun, fun ⟨l', mem', latest, targets, _⟩ => ?_⟩
      obtain ⟨mem', ne⟩ := left.mp mem'
      have latest : w.Latest l' := latest
      by_cases own : w.Latest l
      case pos => exact absurd (Option.some.inj (latest.symm.trans ((congrArg w.last targets).trans own))) ne
      case neg => exact absurd ⟨l, mem, rfl, own, l', mem', latest, targets⟩ live
    case neg =>
      rw [Function.update_of_ne same, sound.shown]
      constructor
      · rintro ⟨l', mem', latest, rfl, eq⟩
        refine ⟨l', left.mpr ⟨mem', fun number => same ?_⟩, latest, rfl, eq⟩
        rw [sound.eq_of_number mem' mem number]
      · rintro ⟨l', mem', latest, targets, eq⟩
        exact ⟨l', (left.mp mem').1, latest, targets, eq⟩

theorem find?_number : w.live.find? (·.number = number) = some l ↔ l ∈ w.live ∧ l.number = number := by
  constructor
  case mp =>
    intro found
    exact ⟨List.mem_of_find?_eq_some found, by simpa using List.find?_some found⟩
  case mpr =>
    rintro ⟨mem, rfl⟩
    cases found : w.live.find? (·.number = l.number) with
    | none => exact absurd (decide_eq_true rfl) (List.find?_eq_none.mp found l mem)
    | some l' =>
      have same : l'.number = l.number := by simpa using List.find?_some found
      rw [sound.eq_of_number (List.mem_of_find?_eq_some found) mem same]

theorem state_drop (mem : l ∈ w.live) : (c.step w (.drop l.number)).state =
    ((c.store l.user).unlock l.target w.state).2 := by
  simp only [Shared.step, Shared.perform, sound.find?_number.mpr ⟨mem, rfl⟩]
  split <;> rfl

end Sound

section Request

-- Who asks for which lock.
def Action.request? : Action ι → Option (ι × LockTarget)
  | acquire user _ _ target _ => some (user, target)
  | tryLock user target => some (user, target)
  | _ => none

-- How a request that ends like this is answered.
def Action.answer : Action ι → Outcome → Answer
  | acquire _ _ _ _ busy, o => .acquired (o.acquired busy)
  | tryLock .., o => .tried o.tried
  | _, _ => .done

-- What has become of the users after a request.
def Users.settled (w : Users ι σ) (tables : Nat → LockTable) (state : σ) (target : LockTarget) (user : ι)
    (since : Instant) (queue : Option (Nat × Nat)) : Outcome → Users ι σ
  | .granted => { w with tables, state }.take target user since queue
  | _ => { w with tables, state }

-- What an answer says about the locks that are live, and about those that stand.
def Answered (c : Shared ι σ) (w : Users ι σ) (standing : LockTarget → Option Instant) (user : ι)
    (target : LockTarget) (now : Instant) : Outcome → Prop
  | .granted => c.Takes user target ∧ Vacant standing target now
  | .busy => ∃ l ∈ w.live, l.target = target
  | .refused _ => ¬c.Takes user target

theorem tidy_update {live : List (Live ι)} {n : Nat} {t : LockTable}
    (others : ∀ m, m ≠ n → Tidy (tables m) m live) (own : Tidy t n live) (m : Nat) :
    Tidy (Function.update tables n t m) m live := by
  rw [Function.update_apply]
  split
  case isTrue same => exact same ▸ own
  case isFalse other => exact others m other

variable (guarded : c.Guarded Stands) (sound : Sound c Stands w standing)
include sound

theorem live_of_standing (ne : standing target ≠ none) : ∃ l ∈ w.live, l.target = target := by
  obtain ⟨since, stands⟩ := Option.ne_none_iff_exists'.mp ne
  obtain ⟨l, mem, _, targets, _⟩ := (sound.shown target since).mp stands
  exact ⟨l, mem, targets⟩

-- A request that the store has settled. The queue of a lock that is granted is in its table.
theorem Sound.settled {o : Outcome} (settles : c.Settles Stands standing user target s' o)
    (onward : c.Onward w.state s')
    (kept : o ≠ .granted → ∀ n, Tidy (tables n) n w.live)
    (taken : o = .granted → ∀ n, Tidy (tables n) n (⟨target, user, w.next, c.time s', queue⟩ :: w.live)) :
    Answered c w standing user target (c.time s') o ∧ ((c.time s').Regular →
      ∃ standing', Sound c Stands (w.settled tables s' target user (c.time s') queue o) standing') := by
  cases o with
  | granted =>
    obtain ⟨takes, vacant, stands⟩ := settles
    exact ⟨⟨takes, vacant⟩, fun regular => ⟨_, sound.take (taken rfl) takes vacant (stands regular) onward⟩⟩
  | busy =>
    obtain ⟨_, stood, stands⟩ := settles
    exact ⟨live_of_standing sound stood, fun _ => ⟨_, sound.keep (kept nofun) stands onward⟩⟩
  | refused e =>
    obtain ⟨not, stands⟩ := settles
    exact ⟨not, fun _ => ⟨_, sound.keep (kept nofun) stands onward⟩⟩

include guarded

theorem Sound.tryLock (user : ι) (target : LockTarget) : ∃ o s',
    c.perform w (.tryLock user target) =
      (.tried o.tried, w.settled w.tables s' target user (c.time s') none o) ∧
    Answered c w standing user target (c.time s') o ∧ ((c.time s').Regular →
      ∃ standing', Sound c Stands (w.settled w.tables s' target user (c.time s') none o) standing') := by
  obtain ⟨o, s', tried, settles, onward⟩ := tryLock_settles guarded user target sound.stands
  refine ⟨o, s', ?_, sound.settled settles onward (fun _ => sound.tables) fun _ n => ?_⟩
  · simp only [Shared.perform, tried]
    cases o <;> rfl
  · exact (sound.tables n).take_other nofun

theorem Sound.acquire (user : ι) (n : Nat) (timeout : Duration) (target : LockTarget) (busy : LockBusy) :
    ∃ o tables s' queue, c.perform w (.acquire user n timeout target busy) =
      (.acquired (o.acquired busy), w.settled tables s' target user (c.time s') queue o) ∧
    Answered c w standing user target (c.time s') o ∧ ((c.time s').Regular →
      ∃ standing', Sound c Stands (w.settled tables s' target user (c.time s') queue o) standing') := by
  obtain ⟨tidy, mem⟩ := (sound.tables n).of_queue target
  have others (m : Nat) (_ : m ≠ n) := sound.tables m
  rcases found : (w.tables n).queue target with ⟨q, t⟩
  rw [found] at tidy mem
  by_cases taken : q ∈ t.taken
  case pos =>
    -- Somebody else of the same table has the lock, and the store is not asked.
    refine ⟨.busy, Function.update w.tables n t, ((c.store user).pause timeout w.state).2, none, ?_,
      tidy.live_of_taken mem taken, fun _ => ⟨standing, ?_⟩⟩
    · simp only [Shared.perform, LockTable.acquire, found, if_pos taken, bind_apply, pure_apply]
      rfl
    · exact sound.keep (tidy_update others tidy) (guarded.pause user timeout sound.stands)
        (guarded.onward_pause user timeout _)
  case neg =>
    obtain ⟨o, s', polled, settles, onward⟩ := poll_settles guarded user target busy
      ⟨timeout.nanoseconds % Store.pollInterval.nanoseconds⟩
      (timeout.nanoseconds / Store.pollInterval.nanoseconds) _ sound.stands
    have acquired : (c.store user).acquire timeout target busy w.state = (o.acquired busy, s') := polled
    cases o with
    | granted =>
      refine ⟨.granted, Function.update w.tables n { t with taken := q :: t.taken }, s', some (n, q), ?_,
        sound.settled settles onward (fun bad => absurd rfl bad) fun _ => tidy_update ?_ ?_⟩
      · simp only [Shared.perform, LockTable.acquire, found, if_neg taken, bind_apply, acquired]
        rfl
      · exact fun m ne => (sound.tables m).take_other fun _ same => ne (Prod.mk.inj (Option.some.inj same)).1.symm
      · exact tidy.take mem rfl rfl
    | busy | refused e =>
      refine ⟨_, Function.update w.tables n t, s', none, ?_,
        sound.settled settles onward (fun _ => tidy_update others tidy) nofun⟩
      simp only [Shared.perform, LockTable.acquire, found, if_neg taken, bind_apply, acquired]
      rfl

-- A request is answered by the locks that are live, and takes none of them away.
theorem Sound.request {a : Action ι} (asks : a.request? = some (user, target)) : ∃ o,
    (c.perform w a).1 = a.answer o ∧ Answered c w standing user target (c.time (c.step w a).state) o ∧
      (∀ l ∈ w.live, l ∈ (c.step w a).live) ∧
      ((c.time (c.step w a).state).Regular → ∃ standing', Sound c Stands (c.step w a) standing') := by
  have stays (tables : Nat → LockTable) (s' : σ) (since : Instant) (queue : Option (Nat × Nat)) (o : Outcome) :
      (∀ l ∈ w.live, l ∈ (w.settled tables s' target user since queue o).live) ∧
        (w.settled tables s' target user since queue o).state = s' := by
    cases o with
    | granted => exact ⟨fun l mem => List.mem_cons_of_mem _ mem, rfl⟩
    | busy | refused => exact ⟨fun _ mem => mem, rfl⟩
  match a, asks with
  | .acquire user n timeout target busy, rfl =>
    obtain ⟨o, tables, s', queue, performed, answered, after⟩ :=
      sound.acquire guarded user n timeout target busy
    obtain ⟨live, state⟩ := stays tables s' (c.time s') queue o
    simp only [Shared.step, performed, state]
    exact ⟨o, rfl, answered, live, after⟩
  | .tryLock user target, rfl =>
    obtain ⟨o, s', performed, answered, after⟩ := sound.tryLock guarded user target
    obtain ⟨live, state⟩ := stays w.tables s' (c.time s') none o
    simp only [Shared.step, performed, state]
    exact ⟨o, rfl, answered, live, after⟩

theorem Sound.giveBack (live : ¬w.Late number) :
    ∃ standing', Sound c Stands (c.step w (.drop number)) standing' := by
  cases found : w.live.find? (·.number = number) with
  | none => exact ⟨standing, by simpa only [Shared.step, Shared.perform, found] using sound⟩
  | some l =>
    obtain ⟨mem, rfl⟩ := sound.find?_number.mp found
    have sub (l' : Live ι) (left : l' ∈ w.live.filter (·.number ≠ l.number)) : l' ∈ w.live :=
      (List.mem_filter.mp left).1
    have rest (l' : Live ι) (mem' : l' ∈ w.live) (other : l' ≠ l) : l' ∈ w.live.filter (·.number ≠ l.number) :=
      List.mem_filter.mpr ⟨mem', decide_eq_true fun same => other (sound.eq_of_number mem' mem same)⟩
    have stands := guarded.unlock sound.stands (sound.takes l mem)
    have onward : c.Onward w.state ((c.store l.user).unlock l.target w.state).2 :=
      .of_eq (guarded.time_unlock l.user l.target _)
    have others (m : Nat) (elsewhere : ∀ q, l.queue ≠ some (m, q)) :
        Tidy (w.tables m) m (w.live.filter (·.number ≠ l.number)) :=
      (sound.tables m).drop_other sub fun l' mem' q at_ => rest l' mem' fun same => elsewhere q (same ▸ at_)
    refine ⟨Function.update standing l.target none, ?_⟩
    rcases queue : l.queue with _ | ⟨n, q⟩
    case none =>
      simp only [Shared.step, Shared.perform, found, queue]
      exact sound.drop mem live (fun m => others m (by rw [queue]; exact nofun)) stands onward
    case some =>
      have released : ((w.tables n).release (c.store l.user) ⟨l.target, q⟩ : StateM σ _) w.state =
          ((w.tables n).free q, ((c.store l.user).unlock l.target w.state).2) := rfl
      simp only [Shared.step, Shared.perform, found, queue, released]
      refine sound.drop mem live (tidy_update (fun m ne => others m fun q' same => ?_) ?_) stands onward
      · exact ne (Prod.mk.inj (Option.some.inj (queue.symm.trans same))).1.symm
      · exact (sound.tables n).free sub fun l' mem' other => rest l' mem' fun same => other (same ▸ queue)

theorem Sound.step {a : Action ι} (live : ∀ number, a = .drop number → ¬w.Late number)
    (regular : (c.time (c.step w a).state).Regular) : ∃ standing', Sound c Stands (c.step w a) standing' := by
  match a with
  | .acquire .. =>
    obtain ⟨_, _, _, _, after⟩ := sound.request guarded (a := .acquire ..) rfl
    exact after regular
  | .tryLock .. =>
    obtain ⟨_, _, _, _, after⟩ := sound.request guarded (a := .tryLock ..) rfl
    exact after regular
  | .forget n key =>
    exact ⟨standing, sound.keep (tidy_update (fun m _ => sound.tables m) ((sound.tables n).forget key))
      sound.stands fun _ lapsed => lapsed⟩
  | .drop number => exact sound.giveBack guarded (live number rfl)
  | .wait user time =>
    exact ⟨standing, sound.keep sound.tables (guarded.pause user time sound.stands)
      (guarded.onward_pause user time _)⟩

end Request

-- What holds all the way through a run can be looked up.
instance decidableThroughout {α : Type} {p : List α → Prop} [DecidablePred p] (whole : List α) :
    Decidable (∀ done, done <+: whole → p done) :=
  decidable_of_iff (∀ done ∈ whole.inits, p done) (forall_congr' fun _ => by rw [List.mem_inits])

theorem run_concat (c : Shared ι σ) (s : σ) (done : List (Action ι)) (a : Action ι) :
    c.run s (done ++ [a]) = c.step (c.run s done) a := by
  rw [Shared.run, List.foldl_append]
  rfl

-- What holds after every run that meets no late drop.
theorem Sound.of_run (guarded : c.Guarded Stands) (stands : Stands (fun _ => none) s)
    (actions : List (Action ι)) (regular : ∀ done, done <+: actions → (c.time (c.run s done).state).Regular)
    (early : ∀ done number, done ++ [.drop number] <+: actions →
      (∃ standing, Sound c Stands (c.run s done) standing) → ¬(c.run s done).Late number) :
    ∀ done, done <+: actions → ∃ standing, Sound c Stands (c.run s done) standing := by
  intro done pre
  induction done using List.reverseRecOn with
  | nil => exact ⟨_, .start stands⟩
  | append_singleton done a ih =>
    have before := ih ((List.prefix_append ..).trans pre)
    have now := regular _ pre
    obtain ⟨_, sound⟩ := before
    rw [run_concat] at now ⊢
    refine sound.step guarded (fun number eq => ?_) now
    subst eq
    exact early done number pre ⟨_, sound⟩

end AirRelease.Locking
