import AirRelease.Proofs.Json.Line
import AirRelease.Proofs.Store.Format
import AirRelease.Proofs.Time.Instant
import AirRelease.Store.LockNote

namespace AirRelease.LockNote

theorem instant_text {i : Instant} (regular : i.Regular) : instant (.ofString i.text) = .ok i := by
  have read := Instant.ofText?_text regular
  simp only [instant, Json.text_ofString, bind, Except.bind, read]
  rfl

-- The number of the process and the moment are such as systems give.
structure Readable (note : LockNote) : Prop where
  process : note.process < processBound
  started : note.started.Regular

theorem decoder_toJson {note : LockNote} (readable : note.Readable) : decoder note.toJson = .ok note := by
  rw [decoder, toJson, Json.record_ofFields (by simp)]
  simp [Draft.read, Json.text_ofString, Json.natural_ofNat readable.process, instant_text readable.started,
    Record.once_none, Record.required]

theorem decode_line {note : LockNote} (readable : note.Readable) :
    Json.decode decoder note.toJson.line = .ok note := by
  have short : ∀ f ∈ [("holder", Json.ofString note.holder), ("pid", .ofNat note.process),
      ("started_at", .ofString note.started.text), ("resource", .ofString note.resource)], Json.Short f.2 := by
    simp only [List.forall_mem_cons]
    exact ⟨Json.short_ofString _, Json.short_ofNat _, Json.short_ofString _, Json.short_ofString _, nofun⟩
  rw [toJson, Json.decode_line (List.cons_ne_nil _ _) short]
  exact decoder_toJson readable

end AirRelease.LockNote
