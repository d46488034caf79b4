import AirRelease.Json.Decode
import AirRelease.Time.Instant

namespace AirRelease

structure LockNote where
  -- The name of the holder's computer.
  holder : String
  process : Nat
  started : Instant
  -- What the lock protects.
  resource : String
deriving DecidableEq

namespace LockNote

-- A holder that has not given a lock back after ten minutes is taken to be gone.
def patience : Nat :=
  600 * Instant.nanosecondsPerSecond

def Stale (note : LockNote) (now : Instant) : Prop :=
  patience ≤ now.nanosecondsSince note.started

instance (note : LockNote) (now : Instant) : Decidable (note.Stale now) :=
  inferInstanceAs (Decidable (_ ≤ _))

theorem not_stale_started (note : LockNote) : ¬note.Stale note.started := by
  simp only [Stale, Instant.nanosecondsSince, patience, Instant.nanosecondsPerSecond]
  omega

def toJson (note : LockNote) : Json :=
  .ofFields [
    ("holder", .ofString note.holder),
    ("pid", .ofNat note.process),
    ("started_at", .ofString note.started.text),
    ("resource", .ofString note.resource)
  ]

def instant : Decoder Instant :=
  fun j => do
    match Instant.ofText? (← Json.text j) with
    | some i => return i
    | none => throw .malformed

structure Draft where
  holder : Option String := none
  process : Option Nat := none
  started : Option Instant := none
  resource : Option String := none

def processBound : Nat :=
  UInt32.size

def Draft.read (d : Draft) (field : String) (j : Json) : Except ReadError Draft :=
  match field with
  | "holder" => do return { d with holder := ← Record.once d.holder (Json.text j) }
  | "pid" => do return { d with process := ← Record.once d.process (Json.natural processBound j) }
  | "started_at" => do return { d with started := ← Record.once d.started (instant j) }
  | "resource" => do return { d with resource := ← Record.once d.resource (Json.text j) }
  | _ => .error .malformed

def decoder : Decoder LockNote :=
  fun j => do
    let d ← Json.record ["holder", "pid", "started_at", "resource"] Draft.read {} j
    return {
      holder := ← Record.required d.holder
      process := ← Record.required d.process
      started := ← Record.required d.started
      resource := ← Record.required d.resource
    }

end LockNote
end AirRelease
