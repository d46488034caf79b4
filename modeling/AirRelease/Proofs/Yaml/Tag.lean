import AirRelease.Proofs.Yaml.Cursor
import AirRelease.Yaml.Token.Tag

namespace AirRelease.Yaml

variable {c c' : Cursor}

namespace Tag

variable {t : Tag} {wide : Bool}

theorem not_isBreak_of_isWideUriChar {d : Char} (inside : isWideUriChar d) : isBreak d = false :=
  not_isBreak_of_kind (by decide) inside

theorem along_of_uri? {uri : String} (read : uri? wide c = some (uri, c')) : c.Along c' := by
  simp only [uri?, Option.bind_eq_bind, Option.bind_eq_some_iff] at read
  obtain ⟨bytes, _, text, _, eq⟩ := read
  cases eq
  refine Cursor.Along.skipWhile fun d inside => not_isBreak_of_isWideUriChar ?_
  cases wide with
  | true => simpa using inside
  | false => simp_all [isWideUriChar]

theorem handleAt_split (c : Cursor) :
    ∃ rest, c.rest = handleAt c ++ rest ∧ ∀ d ∈ handleAt c, isBreak d = false := by
  unfold handleAt
  split
  case h_2 => exact ⟨c.rest, rfl, nofun⟩
  case h_1 rest here =>
    have named : ∀ d ∈ rest.takeWhile isNameChar, isBreak d = false := fun d mem => by
      have name : isNameChar d := List.mem_takeWhile_imp mem
      exact not_isBreak_of_isWideUriChar (by simp [isWideUriChar, isUriChar, name])
    have split := List.prefix_iff_eq_append.mp (List.takeWhile_prefix (l := rest) isNameChar)
    dsimp only
    split
    case isFalse =>
      refine ⟨_, by rw [here, List.cons_append, split], List.forall_mem_cons.mpr ⟨rfl, named⟩⟩
    case isTrue closed =>
      obtain ⟨after, ended⟩ := List.head?_eq_some_iff.mp closed
      rw [ended] at split
      refine ⟨after, ?_, List.forall_mem_append.mpr ⟨List.forall_mem_cons.mpr ⟨rfl, named⟩, by simp [isBreak]⟩⟩
      rw [here, List.cons_append, List.cons_append, List.append_assoc, List.singleton_append, split]

theorem along_of_verbatim? {rest : List Char} (here : c.rest = '!' :: '<' :: rest)
    (read : verbatim? c = some (t, c')) : c.Along c' := by
  simp only [verbatim?, Option.bind_eq_bind, Option.bind_eq_some_iff] at read
  obtain ⟨⟨uri, c₁⟩, uri_read, read⟩ := read
  have start : c.Along (c.skip 2) := .skip ['!', '<'] here (by simp [isBreak])
  split at read
  case isTrue => cases read
  case isFalse closed =>
    simp only [not_or, Decidable.not_not] at closed
    obtain ⟨after, closed⟩ := List.head?_eq_some_iff.mp closed.2
    cases read
    exact (start.trans (along_of_uri? uri_read)).trans (.skip ['>'] closed (by simp [isBreak]))

theorem along_of_shorthand? {rest : List Char} (here : c.rest = '!' :: rest)
    (read : shorthand? c = some (t, c')) : c.Along c' := by
  rw [shorthand?] at read
  split at read
  case isTrue =>
    simp only [Option.bind_eq_bind, Option.bind_eq_some_iff] at read
    obtain ⟨⟨uri, c₁⟩, uri_read, read⟩ := read
    obtain ⟨rest, split, inside⟩ := handleAt_split c
    split at read
    · cases read
    · cases read
      exact (Cursor.Along.skip _ split inside).trans (along_of_uri? uri_read)
  case isFalse =>
    simp only [Option.bind_eq_bind, Option.bind_eq_some_iff] at read
    obtain ⟨⟨uri, c₁⟩, uri_read, read⟩ := read
    cases read
    exact (Cursor.Along.skip ['!'] here (by simp [isBreak])).trans (along_of_uri? uri_read)

-- A tag stands on its line, and outside of flow collections a gap follows it.
theorem along_of_ofCursor? {rest : List Char} (here : c.rest = '!' :: rest)
    (read : ofCursor? false c = some (t, c')) : c.Along c' ∧ isGap c'.rest := by
  have ended {tag : Option (Tag × Cursor)} (along : ∀ t c', tag = some (t, c') → c.Along c')
      (read : (tag.bind fun x => if isGap x.2.rest || (false && x.2.rest.head? = some ',') then some (x.1, x.2)
        else none) = some (t, c')) : c.Along c' ∧ isGap c'.rest := by
    obtain ⟨⟨tag, c₁⟩, tag_read, read⟩ := Option.bind_eq_some_iff.mp read
    simp only [Bool.false_and, Bool.or_false] at read
    split at read
    case isFalse => cases read
    case isTrue gap =>
      cases read
      exact ⟨along _ _ tag_read, gap⟩
  rw [ofCursor?] at read
  split at read
  case isFalse => exact ended (fun _ _ => along_of_shorthand? here) read
  case isTrue verbatim =>
    cases rest with
    | nil => simp [here] at verbatim
    | cons d rest =>
      have second : d = '<' := by simpa [here] using verbatim
      exact ended (fun _ _ => along_of_verbatim? (second ▸ here)) read

end Tag
end AirRelease.Yaml
