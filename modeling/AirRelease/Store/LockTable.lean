import AirRelease.Store

namespace AirRelease

-- The queues are numbered. A target that has been forgotten gets another queue.
structure LockTable where
  queues : List (LockTarget × Nat)
  taken : List Nat
  next : Nat

structure HeldLock where
  target : LockTarget
  queue : Nat

namespace LockTable

def empty : LockTable :=
  ⟨[], [], 0⟩

-- The target's queue, which begins now if there is none.
def queue (t : LockTable) (target : LockTarget) : Nat × LockTable :=
  match t.queues.lookup target with
  | some n => (n, t)
  | none => (t.next, { t with queues := (target, t.next) :: t.queues, next := t.next + 1 })

def forget (t : LockTable) (key : AccessKey) : LockTable :=
  { t with queues := t.queues.filter (·.1 ≠ .history key) }

def free (t : LockTable) (n : Nat) : LockTable :=
  { t with taken := t.taken.filter (· ≠ n) }

variable {m : Type → Type} [Monad m]

-- Waits for a lock. While someone else of the same table has it, the store is not asked.
def acquire (t : LockTable) (store : Store m) (timeout : Duration) (target : LockTarget)
    (busy : LockBusy) : m (Except LockError HeldLock × LockTable) := do
  let (n, t) := t.queue target
  if n ∈ t.taken then
    store.pause timeout
    return (.error (.busy busy), t)
  match ← store.acquire timeout target busy with
  | .error e => return (.error e, t)
  | .ok () => return (.ok ⟨target, n⟩, { t with taken := n :: t.taken })

def release (t : LockTable) (store : Store m) (l : HeldLock) : m LockTable := do
  store.unlock l.target
  return t.free l.queue

end LockTable
end AirRelease
