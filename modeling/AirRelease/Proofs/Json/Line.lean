import AirRelease.Proofs.Json.ReadBack

namespace AirRelease.Json

-- A value that has no lines of its own, so that it is written in the same way on one line.
structure Short (j : Json) : Prop where
  plain : Plain j
  line : j.write = j.layOut 0

theorem short_ofString (s : String) : Short (ofString s) :=
  ⟨.string s, rfl⟩

theorem short_ofNat (n : Nat) : Short (ofNat n) :=
  ⟨.number n, rfl⟩

theorem Short.scanValue {j : Json} (short : Short j) {fuel : Nat} {rest : List Char} (ended : Ended rest)
    (enough : 2 * j.write.length ≤ fuel) : scanValue fuel (j.write ++ rest) = (j, some rest) := by
  rw [short.line] at enough ⊢
  exact reads_of_plain short.plain ended enough

theorem ended_brace (cs : List Char) : Ended ('\x7d' :: cs) := by
  intro c first
  exact .inr (.inr (Option.some.inj first).symm)

section Members

variable {members : List (Option String × Json)}

theorem scanMembers_write (ne : members ≠ []) (keyed : ∀ m ∈ members, m.1.isSome)
    (short : ∀ m ∈ members, Short m.2) {fuel : Nat} {rest : List Char}
    (enough : 2 * (writeMembers members).length ≤ fuel) :
    scanMembers fuel (writeMembers members ++ '\x7d' :: rest) = (members, some rest) := by
  induction members generalizing fuel with
  | nil => exact absurd rfl ne
  | cons member others ih =>
    obtain ⟨key, value⟩ := member
    have first : Short value := short _ List.mem_cons_self
    obtain ⟨key, rfl⟩ := Option.isSome_iff_exists.mp (keyed _ List.mem_cons_self)
    obtain ⟨fuel, rfl⟩ : ∃ less, fuel = less + 1 := by
      refine Nat.exists_eq_succ_of_ne_zero fun none => ?_
      cases others <;> simp only [writeMembers, none, List.length_append, List.length_cons] at enough <;> omega
    cases others with
    | nil =>
      simp only [writeMembers, List.length_append, List.length_cons] at enough ⊢
      simp only [quoteKey, Option.getD_some, List.append_assoc, List.cons_append, scanMembers_key]
      rw [first.scanValue (ended_brace _) (by omega)]
      rfl
    | cons other others =>
      simp only [writeMembers, List.length_append, List.length_cons] at enough ⊢
      have after := ih (List.cons_ne_nil _ _) (fun m mem => keyed m (List.mem_cons_of_mem _ mem))
        (fun m mem => short m (List.mem_cons_of_mem _ mem)) (show _ ≤ fuel by omega)
      simp only [quoteKey, Option.getD_some, List.append_assoc, List.cons_append, scanMembers_key]
      rw [first.scanValue (ended_comma _) (by omega)]
      have comma (cs : List Char) : skipSpaces (',' :: cs) = ',' :: cs := rfl
      simp only [afterValue, comma, after]

end Members

theorem scan_line {fields : List (String × Json)} (ne : fields ≠ []) (short : ∀ f ∈ fields, Short f.2) :
    scan (ofFields fields).line = (ofFields fields, true) := by
  obtain ⟨⟨name, value⟩, others, rfl⟩ := List.exists_cons_of_ne_nil ne
  obtain ⟨members, whole⟩ : ∃ members, ofFields ((name, value) :: others) = object members := ⟨_, rfl⟩
  have made := object.inj whole
  have keyed : ∀ m ∈ members, m.1.isSome := by
    rw [← made]
    intro m mem
    obtain ⟨f, _, rfl⟩ := List.mem_map.mp mem
    rfl
  have values : ∀ m ∈ members, Short m.2 := by
    rw [← made]
    intro m mem
    obtain ⟨f, among, rfl⟩ := List.mem_map.mp mem
    exact short f among
  have filled : members ≠ [] := by
    rw [← made]
    exact List.cons_ne_nil _ _
  obtain ⟨more, first⟩ : ∃ more, skipSpaces (writeMembers members ++ ['\x7d']) = '"' :: more := by
    rw [← made]
    cases others <;> exact ⟨_, rfl⟩
  have line : (ofFields ((name, value) :: others)).line.toList = '\x7b' :: (writeMembers members ++ ['\x7d']) := by
    rw [whole, Json.line, write, String.toList_ofList, List.cons_append]
  have read : scanValue (2 * (ofFields ((name, value) :: others)).line.length + 2)
      ('\x7b' :: (writeMembers members ++ ['\x7d'])) = (object members, some []) := by
    rw [scanValue_members first nofun, scanMembers_write filled keyed values]
    rw [← String.length_toList, line]
    simp only [List.length_cons, List.length_append]
    omega
  rw [scan, line, read, whole]
  rfl

theorem decode_line {α : Type} {fields : List (String × Json)} (ne : fields ≠ [])
    (short : ∀ f ∈ fields, Short f.2) (d : Decoder α) : decode d (ofFields fields).line = d (ofFields fields) := by
  rw [decode, scan_line ne short]
  cases read : d (ofFields fields) <;> simp only [read] <;> rfl

end AirRelease.Json
