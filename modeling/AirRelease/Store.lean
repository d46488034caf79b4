import AirRelease.History
import AirRelease.Registry
import AirRelease.Store.Error

namespace AirRelease

structure Store (m : Type → Type) where
  loadApps : m (Except StoreError Registry)
  saveApps : Registry → m (Except StoreError Unit)
  -- A history that has never been saved is empty.
  loadHistory : AccessKey → m (Except StoreError History)
  saveHistory : AccessKey → History → m (Except StoreError Unit)
  deleteHistory : AccessKey → m (Except StoreError Unit)
  -- Whether the lock was free. If so, it is taken.
  tryLock : LockTarget → m (Except StoreError Bool)
  unlock : LockTarget → m Unit
  -- Lets time pass before a lock is tried again.
  pause : Duration → m Unit

namespace Store

variable {m : Type → Type} [Monad m]

def pollInterval : Duration :=
  .ofMilliseconds 20

-- Tries to take a lock, then again after every pause: `n` pauses of the interval and a last one.
def poll (store : Store m) (target : LockTarget) (busy : LockBusy) (last : Duration) :
    Nat → m (Except LockError Unit)
  | n + 1 => do
    match ← store.tryLock target with
    | .error e => return .error (.store e)
    | .ok true => return .ok ()
    | .ok false =>
      store.pause pollInterval
      store.poll target busy last n
  | 0 => do
    match ← store.tryLock target with
    | .error e => return .error (.store e)
    | .ok true => return .ok ()
    | .ok false =>
      if last.nanoseconds = 0 then return .error (.busy busy)
      store.pause last
      match ← store.tryLock target with
      | .error e => return .error (.store e)
      | .ok true => return .ok ()
      | .ok false => return .error (.busy busy)

-- Waits for a lock, but not longer than the timeout.
def acquire (store : Store m) (timeout : Duration) (target : LockTarget) (busy : LockBusy) :
    m (Except LockError Unit) :=
  store.poll target busy ⟨timeout.nanoseconds % pollInterval.nanoseconds⟩
    (timeout.nanoseconds / pollInterval.nanoseconds)

end Store
end AirRelease
