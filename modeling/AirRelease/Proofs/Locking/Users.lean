import AirRelease.Proofs.Directory.Standing
import AirRelease.Store.LockTable

namespace AirRelease.Locking

-- A store that several users share, each of whom may see it in a way of their own.
structure Shared (ι σ : Type) where
  store : ι → Store (StateM σ)
  time : σ → Instant
  -- Whether the system accepts what the user calls the files of the lock.
  Takes : ι → LockTarget → Prop

-- A lock that has been taken and not given back.
structure Live (ι : Type) where
  target : LockTarget
  user : ι
  -- Locks are numbered in the order in which they are taken.
  number : Nat
  since : Instant
  -- The table through which it was taken, and the queue there.
  queue : Option (Nat × Nat)

structure Users (ι σ : Type) where
  tables : Nat → LockTable
  live : List (Live ι)
  next : Nat
  -- The lock that was the last one to be taken on a target. What stands for the target is its file.
  last : LockTarget → Option Nat
  state : σ

inductive Action (ι : Type)
  | acquire (user : ι) (table : Nat) (timeout : Duration) (target : LockTarget) (busy : LockBusy)
  | tryLock (user : ι) (target : LockTarget)
  | forget (table : Nat) (key : AccessKey)
  | drop (number : Nat)
  | wait (user : ι) (time : Duration)

inductive Answer
  | acquired (result : Except LockError Unit)
  | tried (result : Except StoreError Bool)
  | done
deriving DecidableEq

variable {ι σ : Type}

namespace Users

-- Nobody has a lock.
def start (s : σ) : Users ι σ :=
  ⟨fun _ => .empty, [], 0, fun _ => none, s⟩

def take (w : Users ι σ) (target : LockTarget) (user : ι) (since : Instant) (queue : Option (Nat × Nat)) :
    Users ι σ :=
  { w with
    live := ⟨target, user, w.next, since, queue⟩ :: w.live
    next := w.next + 1
    last := Function.update w.last target (some w.next) }

-- Nobody has taken a lock on the target after this one.
def Latest (w : Users ι σ) (l : Live ι) : Prop :=
  w.last l.target = some l.number

end Users

variable (c : Shared ι σ)

def Shared.perform (w : Users ι σ) : Action ι → Answer × Users ι σ
  | .acquire user n timeout target busy =>
    match (w.tables n).acquire (c.store user) timeout target busy w.state with
    | ((r, t), state) =>
      let w := { w with tables := Function.update w.tables n t, state }
      match r with
      | .ok held => (.acquired (.ok ()), w.take target user (c.time state) (some (n, held.queue)))
      | .error e => (.acquired (.error e), w)
  | .tryLock user target =>
    match (c.store user).tryLock target w.state with
    | (.ok true, state) => (.tried (.ok true), { w with state }.take target user (c.time state) none)
    | (r, state) => (.tried r, { w with state })
  | .forget n key => (.done, { w with tables := Function.update w.tables n ((w.tables n).forget key) })
  | .drop number =>
    match w.live.find? (·.number = number) with
    | none => (.done, w)
    | some l =>
      let w := { w with live := w.live.filter (·.number ≠ number) }
      match l.queue with
      | none => (.done, { w with state := ((c.store l.user).unlock l.target w.state).2 })
      | some (n, q) =>
        match (w.tables n).release (c.store l.user) ⟨l.target, q⟩ w.state with
        | (t, state) => (.done, { w with tables := Function.update w.tables n t, state })
  | .wait user time => (.done, { w with state := ((c.store user).pause time w.state).2 })

def Shared.step (w : Users ι σ) (a : Action ι) : Users ι σ :=
  (c.perform w a).2

def Shared.run (s : σ) (actions : List (Action ι)) : Users ι σ :=
  actions.foldl c.step (.start s)

-- Time does not go back.
def Shared.Onward (s s' : σ) : Prop :=
  ∀ since : Instant, since.Lapsed (c.time s) → since.Lapsed (c.time s')

-- What the store does depends on the locks that stand in it, and so does what it says.
structure Shared.Guarded (Stands : (LockTarget → Option Instant) → σ → Prop) : Prop where
  vacant : Stands standing s → c.Takes user target → Vacant standing target (c.time s) →
    ∃ s', (c.store user).tryLock target s = (.ok true, s') ∧
      ((c.time s).Regular → Stands (Function.update standing target (some (c.time s))) s')
  held : Stands standing s → c.Takes user target → standing target = some since →
    ¬since.Lapsed (c.time s) → ∃ s', (c.store user).tryLock target s = (.ok false, s') ∧ Stands standing s'
  refused : Stands standing s → ¬c.Takes user target →
    ∃ e s', (c.store user).tryLock target s = (.error e, s') ∧ Stands standing s'
  unlock : Stands standing s → c.Takes user target →
    Stands (Function.update standing target none) ((c.store user).unlock target s).2
  pause (user : ι) (d : Duration) : Stands standing s → Stands standing ((c.store user).pause d s).2
  time_tryLock (user : ι) (target : LockTarget) (s : σ) : c.time ((c.store user).tryLock target s).2 = c.time s
  time_unlock (user : ι) (target : LockTarget) (s : σ) : c.time ((c.store user).unlock target s).2 = c.time s
  onward_pause (user : ι) (d : Duration) (s : σ) : c.Onward s ((c.store user).pause d s).2

-- How a request ends.
inductive Outcome
  | granted
  | busy
  | refused (e : StoreError)

namespace Outcome

def tried : Outcome → Except StoreError Bool
  | granted => .ok true
  | busy => .ok false
  | refused e => .error e

def acquired (b : LockBusy) : Outcome → Except LockError Unit
  | granted => .ok ()
  | busy => .error (.busy b)
  | refused e => .error (.store e)

end Outcome

-- What has become of a request for a lock, with these locks standing before.
def Shared.Settles (Stands : (LockTarget → Option Instant) → σ → Prop) (standing : LockTarget → Option Instant)
    (user : ι) (target : LockTarget) (s' : σ) : Outcome → Prop
  | .granted => c.Takes user target ∧ Vacant standing target (c.time s') ∧
      ((c.time s').Regular → Stands (Function.update standing target (some (c.time s'))) s')
  | .busy => c.Takes user target ∧ standing target ≠ none ∧ Stands standing s'
  | .refused _ => ¬c.Takes user target ∧ Stands standing s'

section Request

variable {c} {Stands : (LockTarget → Option Instant) → σ → Prop} {standing : LockTarget → Option Instant}
  {s s' s'' : σ}

theorem Shared.Onward.trans (first : c.Onward s s') (second : c.Onward s' s'') : c.Onward s s'' :=
  fun since lapsed => second since (first since lapsed)

theorem Shared.Onward.of_eq (same : c.time s' = c.time s) : c.Onward s s' :=
  fun _ lapsed => same.symm ▸ lapsed

variable (guarded : c.Guarded Stands)
include guarded

theorem tryLock_settles (user : ι) (target : LockTarget) (stands : Stands standing s) :
    ∃ o s', (c.store user).tryLock target s = (o.tried, s') ∧
      c.Settles Stands standing user target s' o ∧ c.Onward s s' := by
  have same := guarded.time_tryLock user target s
  by_cases takes : c.Takes user target
  case neg =>
    obtain ⟨e, s', refused, stands'⟩ := guarded.refused stands takes
    rw [refused] at same
    exact ⟨.refused e, s', refused, ⟨takes, stands'⟩, .of_eq same⟩
  by_cases vacant : Vacant standing target (c.time s)
  case pos =>
    obtain ⟨s', granted, stands'⟩ := guarded.vacant stands takes vacant
    rw [granted] at same
    rw [← same] at vacant stands'
    exact ⟨.granted, s', granted, ⟨takes, vacant, stands'⟩, .of_eq same⟩
  case neg =>
    simp only [Vacant, not_forall] at vacant
    obtain ⟨since, taken, held⟩ := vacant
    obtain ⟨s', busy, stands'⟩ := guarded.held stands takes taken held
    rw [busy] at same
    exact ⟨.busy, s', busy, ⟨takes, ne_of_eq_of_ne taken nofun, stands'⟩, .of_eq same⟩

theorem poll_settles (user : ι) (target : LockTarget) (busy : LockBusy) (last : Duration) (n : Nat) :
    ∀ s, Stands standing s → ∃ o s', (c.store user).poll target busy last n s = (o.acquired busy, s') ∧
      c.Settles Stands standing user target s' o ∧ c.Onward s s' := by
  induction n with
  | zero =>
    intro s stands
    obtain ⟨o, s', tried, settles, onward⟩ := tryLock_settles guarded user target stands
    simp only [Store.poll, bind_apply, tried]
    cases o with
    | granted => exact ⟨.granted, s', rfl, settles, onward⟩
    | refused e => exact ⟨.refused e, s', rfl, settles, onward⟩
    | busy =>
      by_cases whole : last.nanoseconds = 0
      case pos => exact ⟨.busy, s', by simp only [Outcome.tried, if_pos whole]; rfl, settles, onward⟩
      case neg =>
        simp only [Outcome.tried, if_neg whole, bind_apply]
        have paused := guarded.pause user last settles.2.2
        have onward' := onward.trans (guarded.onward_pause user last s')
        obtain ⟨o, s'', tried, settles, more⟩ := tryLock_settles guarded user target paused
        refine ⟨o, s'', ?_, settles, onward'.trans more⟩
        simp only [tried]
        cases o <;> rfl
  | succ n ih =>
    intro s stands
    obtain ⟨o, s', tried, settles, onward⟩ := tryLock_settles guarded user target stands
    simp only [Store.poll, bind_apply, tried]
    cases o with
    | granted => exact ⟨.granted, s', rfl, settles, onward⟩
    | refused e => exact ⟨.refused e, s', rfl, settles, onward⟩
    | busy =>
      have paused := guarded.pause user Store.pollInterval settles.2.2
      have onward' := onward.trans (guarded.onward_pause user Store.pollInterval s')
      obtain ⟨o, s'', polled, settles, more⟩ := ih _ paused
      exact ⟨o, s'', polled, settles, onward'.trans more⟩

end Request

-- A table knows the locks that were taken through it, and gives no two targets the same queue.
structure Tidy (t : LockTable) (n : Nat) (live : List (Live ι)) : Prop where
  numbered : ∀ e ∈ t.queues, e.2 < t.next
  apart : ∀ e ∈ t.queues, ∀ e' ∈ t.queues, e.2 = e'.2 → e.1 = e'.1
  taken : ∀ q ∈ t.taken, ∃ l ∈ live, l.queue = some (n, q)
  queue : ∀ l ∈ live, ∀ q, l.queue = some (n, q) → q < t.next ∧ ∀ e ∈ t.queues, e.2 = q → e.1 = l.target

namespace Tidy

variable {t : LockTable} {n q : Nat} {live live' : List (Live ι)} {target : LockTarget} {l : Live ι}

theorem empty (n : Nat) : Tidy .empty n ([] : List (Live ι)) :=
  ⟨nofun, nofun, nofun, nofun⟩

theorem forget (tidy : Tidy t n live) (key : AccessKey) : Tidy (t.forget key) n live where
  numbered e mem := tidy.numbered e (List.mem_filter.mp mem).1
  apart e mem e' mem' := tidy.apart e (List.mem_filter.mp mem).1 e' (List.mem_filter.mp mem').1
  taken := tidy.taken
  queue l mem q at_ :=
    ⟨(tidy.queue l mem q at_).1, fun e mem' => (tidy.queue l mem q at_).2 e (List.mem_filter.mp mem').1⟩

theorem of_queue (tidy : Tidy t n live) (target : LockTarget) :
    Tidy (t.queue target).2 n live ∧ (target, (t.queue target).1) ∈ (t.queue target).2.queues := by
  cases found : t.queues.lookup target with
  | some q =>
    have mem : (target, q) ∈ t.queues := by
      obtain ⟨before, after, eq, _⟩ := List.lookup_eq_some_iff.mp found
      simp [eq]
    simp only [LockTable.queue, found]
    exact ⟨tidy, mem⟩
  | none =>
    -- A new queue has a number that no other one has, and no lock that was taken before.
    simp only [LockTable.queue, found]
    refine ⟨⟨?_, ?_, tidy.taken, ?_⟩, List.mem_cons_self⟩
    case refine_1 =>
      rintro e (_ | ⟨_, mem⟩)
      · exact Nat.lt_succ_self _
      · exact Nat.lt_succ_of_lt (tidy.numbered e mem)
    case refine_2 =>
      rintro e (_ | ⟨_, mem⟩) e' (_ | ⟨_, mem'⟩) same
      · rfl
      · exact absurd same (Nat.ne_of_gt (tidy.numbered e' mem'))
      · exact absurd same (Nat.ne_of_lt (tidy.numbered e mem))
      · exact tidy.apart e mem e' mem' same
    case refine_3 =>
      intro l mem q at_
      obtain ⟨less, own⟩ := tidy.queue l mem q at_
      refine ⟨Nat.lt_succ_of_lt less, ?_⟩
      rintro e (_ | ⟨_, mem'⟩) same
      · exact absurd same (Nat.ne_of_gt less)
      · exact own e mem' same

theorem take (tidy : Tidy t n live) (mem : (target, q) ∈ t.queues) (queue : l.queue = some (n, q))
    (targets : l.target = target) : Tidy { t with taken := q :: t.taken } n (l :: live) where
  numbered := tidy.numbered
  apart := tidy.apart
  taken := by
    rintro q' (_ | ⟨_, mem'⟩)
    · exact ⟨l, List.mem_cons_self, queue⟩
    · obtain ⟨l', mem', at_⟩ := tidy.taken q' mem'
      exact ⟨l', List.mem_cons_of_mem _ mem', at_⟩
  queue := by
    rintro l' (_ | ⟨_, mem'⟩) q' at_
    · cases queue.symm.trans at_
      exact ⟨tidy.numbered _ mem, fun e mem' same => (tidy.apart e mem' _ mem same).trans targets.symm⟩
    · exact tidy.queue l' mem' q' at_

theorem take_other (tidy : Tidy t n live) (other : ∀ q, l.queue ≠ some (n, q)) : Tidy t n (l :: live) where
  numbered := tidy.numbered
  apart := tidy.apart
  taken q mem := by
    obtain ⟨l', mem', at_⟩ := tidy.taken q mem
    exact ⟨l', List.mem_cons_of_mem _ mem', at_⟩
  queue := by
    rintro l' (_ | ⟨_, mem'⟩) q' at_
    · exact absurd at_ (other q')
    · exact tidy.queue l' mem' q' at_

theorem free (tidy : Tidy t n live) (sub : ∀ l' ∈ live', l' ∈ live)
    (rest : ∀ l' ∈ live, l'.queue ≠ some (n, q) → l' ∈ live') : Tidy (t.free q) n live' where
  numbered := tidy.numbered
  apart := tidy.apart
  taken q' mem := by
    obtain ⟨mem, ne⟩ := List.mem_filter.mp mem
    obtain ⟨l', mem', at_⟩ := tidy.taken q' mem
    have other : l'.queue ≠ some (n, q) := by
      rw [at_]
      simpa using ne
    exact ⟨l', rest l' mem' other, at_⟩
  queue l' mem := tidy.queue l' (sub l' mem)

theorem drop_other (tidy : Tidy t n live) (sub : ∀ l' ∈ live', l' ∈ live)
    (rest : ∀ l' ∈ live, ∀ q, l'.queue = some (n, q) → l' ∈ live') : Tidy t n live' where
  numbered := tidy.numbered
  apart := tidy.apart
  taken q mem := by
    obtain ⟨l', mem', at_⟩ := tidy.taken q mem
    exact ⟨l', rest l' mem' q at_, at_⟩
  queue l' mem := tidy.queue l' (sub l' mem)

-- Whoever has the queue has the lock.
theorem live_of_taken (tidy : Tidy t n live) (mem : (target, q) ∈ t.queues) (taken : q ∈ t.taken) :
    ∃ l ∈ live, l.target = target := by
  obtain ⟨l, mem', at_⟩ := tidy.taken q taken
  exact ⟨l, mem', ((tidy.queue l mem' q at_).2 _ mem rfl).symm⟩

end Tidy

end AirRelease.Locking
