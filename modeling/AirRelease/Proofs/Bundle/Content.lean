import AirRelease.Proofs.Bundle.Load

namespace AirRelease

-- A fingerprint as it is written: 64 hexadecimal digits in lower case.
structure Sha256.Spelt (s : String) : Prop where
  length : s.length = 64
  digits : ∀ c ∈ s.toList, '0' ≤ c ∧ c ≤ '9' ∨ 'a' ≤ c ∧ c ≤ 'f'

theorem Text.hexDigit_cases (n : Nat) :
    '0' ≤ hexDigit n ∧ hexDigit n ≤ '9' ∨ 'a' ≤ hexDigit n ∧ hexDigit n ≤ 'f' := by
  have digits : ∀ k < 16, '0' ≤ Nat.digitChar k ∧ Nat.digitChar k ≤ '9' ∨
    'a' ≤ Nat.digitChar k ∧ Nat.digitChar k ≤ 'f' := by decide
  exact digits (n % 16) (Nat.mod_lt n (by decide))

theorem Sha256.spelt_hex (bytes : ByteArray) : Spelt (hex bytes) where
  length := length_hex bytes
  digits c mem := by
    simp only [hex, State.hex, wordHex, String.toList_ofList, List.mem_flatMap, List.mem_map] at mem
    obtain ⟨_, _, _, _, rfl⟩ := mem
    exact Text.hexDigit_cases _

namespace Bundle

variable {path : Path} {b : Bundle}

-- There is something in it, and its fingerprint is one.
structure Sound (b : Bundle) : Prop where
  size : 1 ≤ b.size
  hash : Sha256.Spelt b.hash

theorem sound_of_ofDirectory {h : Host} (ok : ((ofDirectory (m := StateM Host) path).run h).1 = .ok b) : b.Sound := by
  rw [result_ofDirectory] at ok
  simp only [bind_eq_ok, ite_error_eq_ok, Except.ok.injEq] at ok
  obtain ⟨files, _, some, rfl⟩ := ok
  exact ⟨Nat.one_le_iff_ne_zero.mpr some, Sha256.spelt_hex _⟩

theorem sound_of_ofContents {bytes : ByteArray} (ok : ofContents path bytes = .ok b) : b.Sound := by
  simp only [ofContents, ite_error_eq_ok, Except.ok.injEq] at ok
  obtain ⟨_, some, rfl⟩ := ok
  exact ⟨Nat.one_le_iff_ne_zero.mpr some, Sha256.spelt_hex _⟩

theorem sound_of_ofFile {h : Host} (ok : ((ofFile (m := StateM Host) path).run h).1 = .ok b) : b.Sound := by
  rw [ofFile] at ok
  split at ok
  case isTrue => cases ok
  case isFalse =>
    have ok : ((look (m := StateM Host) path (Disk.read path) >>= fun bytes => liftM (ofContents path bytes)).run h).1 =
      .ok b := ok
    rw [Reads.result_bind (fun _ => rfl)] at ok
    obtain ⟨bytes, _, ok⟩ := bind_eq_ok.mp ok
    exact sound_of_ofContents ok

theorem sound_of_load {h : Host} (ok : ((load path : StateM Host _) h).1 = .ok b) : b.Sound := by
  rw [load, bind_apply] at ok
  cases type : ((Disk.fileType path : StateM Host _) h).1 with
  | error fault =>
    rw [type] at ok
    cases fault <;> cases ok
  | ok type' =>
    rw [type] at ok
    cases type'
    case directory => exact sound_of_ofDirectory ok
    all_goals exact sound_of_ofFile ok

end Bundle
end AirRelease
