import AirRelease.Config
import AirRelease.Proofs.Email

namespace AirRelease.Config

variable {d d' : Draft} {member : Yaml × Yaml} {members : List (Yaml × Yaml)} {config : Config} {v : Yaml}
  {e : Email} {account : Option Email} {text : String}

namespace Draft

-- A field that has been read stays as it is, since it is not read again.
theorem account_of_read (known : d.account = some account) (read : d.read member = .ok d') :
    d'.account = some account := by
  rw [Draft.read] at read
  obtain ⟨name, _, read⟩ := bind_eq_ok.mp read
  split at read
  case h_1 =>
    rw [known, Record.once_some] at read
    cases read
  case h_2 | h_3 | h_4 =>
    obtain ⟨_, _, eq⟩ := bind_eq_ok.mp read
    cases eq
    exact known
  case h_5 =>
    split at read <;> cases read
    exact known

theorem account_of_foldlM (known : d.account = some account) (read : members.foldlM Draft.read d = .ok d') :
    d'.account = some account := by
  induction members generalizing d with
  | nil =>
    cases read
    exact known
  | cons member members ih =>
    rw [List.foldlM_cons] at read
    obtain ⟨d₁, first, rest⟩ := bind_eq_ok.mp read
    exact ih (account_of_read known first) rest

theorem read_account (v : Yaml) : Draft.read {} (.scalar "account" true none, v) =
    (Record.once none (readAccount v) >>= fun account => pure { account }) :=
  rfl

end Draft

-- Once the account has been read, later members do not matter for it.
theorem readAccount_of_ofYaml
    (read : ofYaml (.mapping ((.scalar "account" true none, v) :: members)) = .ok config) :
    readAccount v = .ok config.account := by
  obtain ⟨d, folded, eq⟩ := bind_eq_ok.mp read
  cases eq
  rw [List.foldlM_cons] at folded
  obtain ⟨d₁, first, rest⟩ := bind_eq_ok.mp folded
  rw [Draft.read_account] at first
  obtain ⟨_, once, eq⟩ := bind_eq_ok.mp first
  cases eq
  obtain ⟨account, value, rfl⟩ := map_eq_ok.mp once
  rw [value, Draft.finish, Draft.account_of_foldlM rfl rest, Option.getD_some]

theorem scalar_of_optionalText (read : v.optionalText = .ok (some text)) :
    ∃ plain tag, v = .scalar text plain tag := by
  unfold Yaml.optionalText at read
  split at read
  case h_1 =>
    split at read <;> cases read
    exact ⟨_, _, rfl⟩
  case h_2 =>
    split at read
    case isTrue =>
      cases read
      exact ⟨_, _, rfl⟩
    case isFalse => split at read <;> cases read
  case h_3 =>
    obtain ⟨text, read, eq⟩ := map_eq_ok.mp read
    cases eq
    unfold Yaml.text at read
    split at read <;> cases read
    exact ⟨_, _, rfl⟩

-- An account is read from a scalar.
theorem ofText_of_readAccount (read : readAccount v = .ok (some e)) :
    ∃ text plain tag, v = .scalar text plain tag ∧ Email.ofText text = .ok e := by
  obtain ⟨text, value, mapped⟩ := bind_eq_ok.mp read
  cases text with
  | none => cases mapped
  | some text =>
    obtain ⟨e', address, eq⟩ := map_eq_ok.mp (show (email text).map some = .ok (some e) from mapped)
    cases eq
    obtain ⟨plain, tag, rfl⟩ := scalar_of_optionalText value
    exact ⟨text, plain, tag, rfl, mapError_eq_ok.mp address⟩

theorem readAccount_of_canonical (canonical : e.Canonical) :
    readAccount (.scalar e.text true none) = .ok (some e) := by
  have at_sign : '@' ∈ e.text.toList := by
    obtain ⟨user, domain, split, _⟩ := Email.parts_of_ofText canonical
    simp [split]
  have filled : ¬(e.text = "" ∨ Yaml.IsNull e.text) := by
    rintro (eq | eq | eq | eq | eq) <;> exact absurd (eq ▸ at_sign) (by decide)
  have value : Yaml.optionalText (.scalar e.text true none) = .ok (some e.text) := by
    rw [Yaml.optionalText, if_neg filled]
  have address : email e.text = .ok e := by
    rw [email, show Email.ofText e.text = .ok e from canonical]
    rfl
  rw [readAccount, value, ok_bind, Option.mapM_some, address]
  rfl

theorem ofText_eq (text : String) : ofText text = (ofYaml (Yaml.ofText text).1 >>= fun config =>
    if (Yaml.ofText text).2 then .ok config else .error .malformed) :=
  rfl

end AirRelease.Config
