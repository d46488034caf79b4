import AirRelease.Proofs.Email
import AirRelease.Proofs.Json.ReadBack
import AirRelease.Proofs.Success
import AirRelease.Store.Format

namespace AirRelease

namespace Json

theorem text_ofString (s : String) : text (ofString s) = .ok s :=
  rfl

theorem natural_ofNat {n bound : Nat} (lt : n < bound) : natural bound (ofNat n) = .ok n := by
  simp only [ofNat, natural, Text.decimal?_writeDecimal, if_pos lt]

theorem integer_ofNat {n : Nat} (lt : n < UInt64.size / 2) : integer (ofNat n) = .ok (n : Int) := by
  unfold integer
  split
  case h_1 digits negative =>
    obtain ⟨c, cs, written, ne⟩ := writeDecimal_eq_cons n
    have written' : Text.writeDecimal n = '-' :: digits := number.inj negative
    exact absurd (List.cons.inj (written.symm.trans written')).1 (ne _ rfl)
  case h_2 =>
    rw [natural_ofNat lt]
    rfl

theorem list_map {α : Type} {d : Decoder α} {toJson : α → Json} {xs : List α}
    (back : ∀ x ∈ xs, d (toJson x) = .ok x) : list d (array (xs.map toJson)) = .ok xs := by
  rw [list]
  induction xs with
  | nil => rfl
  | cons x xs ih =>
    simp [back x List.mem_cons_self, ih fun y mem => back y (List.mem_cons_of_mem _ mem)]

theorem record_ofFields {δ : Type} {names : List String}
    {step : δ → String → Json → Except ReadError δ} {start : δ} {fields : List (String × Json)}
    (known : ∀ f ∈ fields, f.1 ∈ names) : record names step start (ofFields fields) =
      fields.foldlM (fun d (name, value) => step d name value) start := by
  simp only [ofFields, record, List.foldlM_map]
  induction fields generalizing start with
  | nil => rfl
  | cons f fields ih =>
    have first : names.contains f.1 := by simp [known f List.mem_cons_self]
    simp only [List.foldlM_cons, first, if_true]
    refine bind_congr fun d => ?_
    exact ih fun f mem => known f (List.mem_cons_of_mem _ mem)

end Json

theorem Label.decoder_toJson (l : Label) : decoder l.toJson = .ok l :=
  rfl

theorem AccessKey.decoder_toJson (k : AccessKey) : decoder k.toJson = .ok k :=
  rfl

theorem VersionRange.decoder_toJson (v : VersionRange) : decoder v.toJson = .ok v := by
  simp [decoder, Json.checked, toJson, Json.text_ofString, ofText_text]

theorem Rollout.decoder_toJson (r : Rollout) : decoder r.toJson = .ok r := by
  obtain ⟨percent, pos, le⟩ := r
  have read := Json.integer_ofNat (show percent < UInt64.size / 2 from Nat.lt_of_le_of_lt le (by decide))
  have valid : 1 ≤ (percent : Int) ∧ (percent : Int) ≤ 100 := by omega
  simp [decoder, Json.checked, toJson, read, ofInt, valid]

theorem Name.decoder_toJson (n : Name) : decoder n.toJson = .ok n := by
  simp [decoder, Json.checked, toJson, Json.text_ofString, ofText_text]

theorem ReleaseMethod.decoder_toJson (m : ReleaseMethod) : decoder m.toJson = .ok m := by
  cases m <;> decide

theorem Permission.decoder_toJson (p : Permission) : decoder p.toJson = .ok p := by
  cases p <;> decide

namespace Package

structure Storable (p : Package) : Prop where
  size : p.size < wordBound
  uploadTime : p.uploadTime < wordBound

theorem decoder_toJson {p : Package} (storable : p.Storable) : decoder p.toJson = .ok p := by
  have description : Json.optional Json.text (p.description.elim .null .ofString) = .ok p.description := by
    cases p.description <;> rfl
  rw [decoder, toJson, Json.record_ofFields (by simp [fields])]
  simp [Draft.read, Label.decoder_toJson, VersionRange.decoder_toJson, Json.text_ofString,
    Json.natural_ofNat storable.size, Json.natural_ofNat storable.uploadTime, description, Json.flag,
    Rollout.decoder_toJson, ReleaseMethod.decoder_toJson, Record.once_none]
  rfl

theorem plain_toJson (p : Package) : p.toJson.Plain := by
  have description : (p.description.elim .null .ofString : Json).Plain := by
    cases p.description with
    | none => exact .null
    | some text => exact .string text
  refine .ofFields ?_
  simp only [List.forall_mem_cons]
  exact ⟨.string _, .string _, .string _, .number _, .number _, description, .bool _, .bool _,
    .number _, .string _, nofun⟩

end Package

namespace History

def Storable (h : History) : Prop :=
  ∀ p ∈ h.packages, p.Storable

theorem decoder_toJson {h : History} (storable : h.Storable) : decoder h.toJson = .ok h := by
  simp [decoder, toJson, Json.list_map fun p mem => Package.decoder_toJson (storable p mem)]

theorem plain_toJson (h : History) : h.toJson.Plain := by
  refine .array _ fun j mem => ?_
  obtain ⟨p, _, rfl⟩ := List.mem_map.mp mem
  exact p.plain_toJson

theorem decode_pretty {h : History} (storable : h.Storable) :
    Json.decode decoder h.toJson.pretty = .ok h := by
  rw [Json.decode_pretty h.plain_toJson, decoder_toJson storable]

end History

namespace Collaborators

-- The addresses are as they are kept.
def Storable (cs : Collaborators) : Prop :=
  ∀ e, cs.Has e → e.Canonical

theorem has_of_mem {cs : Collaborators} {x : Email × Permission} (mem : x ∈ cs.entries) : cs.Has x.1 := by
  rw [Has, find, Option.isSome_map, List.find?_isSome]
  exact ⟨x, mem, by simp⟩

-- Addresses come from reading a text, so that every collaborator's is as it is kept.
theorem storable_of_read {cs : Collaborators}
    (read : ∀ e ∈ cs.emails, ∃ text, Email.ofText text = .ok e) : cs.Storable := by
  intro e has
  rw [Has, find, Option.isSome_map, List.find?_isSome] at has
  obtain ⟨x, mem, same⟩ := has
  obtain ⟨text, eq⟩ := read x.1 (List.mem_map_of_mem mem)
  rw [← of_decide_eq_true same]
  exact Email.canonical_of_ofText eq

theorem permissionDecoder_toJson (p : Permission) :
    permissionDecoder (.ofFields [("permission", p.toJson)]) = .ok p := by
  rw [permissionDecoder, Json.record_ofFields (by simp)]
  simp [readPermission, Permission.decoder_toJson, Record.once_none, Record.required]

-- An address that follows all others goes to the end.
theorem insertEntry_concat {es : List (Email × Permission)} {e : Email} (p : Permission)
    (last : ∀ x ∈ es, x.1 < e) : insertEntry e p es = es ++ [(e, p)] := by
  induction es with
  | nil => rfl
  | cons x es ih =>
    have before := last x List.mem_cons_self
    have not_before : ¬e < x.1 := fun after => Email.lt_irrefl e (Email.lt_trans after before)
    have ne : e ≠ x.1 := fun same => not_before (same ▸ before)
    rw [insertEntry, if_neg not_before, if_neg ne, ih fun y mem => last y (List.mem_cons_of_mem _ mem)]
    rfl

theorem foldlM_readEntry {rest : List (Email × Permission)} (canonical : ∀ x ∈ rest, x.1.Canonical)
    (cs : Collaborators) (sorted : (cs.entries ++ rest).Pairwise (·.1 < ·.1)) :
    ∃ cs', (rest.map fun (e, p) => (some e.text, Json.ofFields [("permission", p.toJson)])).foldlM
      readEntry cs = .ok cs' ∧ cs'.entries = cs.entries ++ rest := by
  induction rest generalizing cs with
  | nil => exact ⟨cs, rfl, by simp⟩
  | cons x rest ih =>
    obtain ⟨e, p⟩ := x
    have read : Email.ofText e.text = .ok e := canonical (e, p) List.mem_cons_self
    have last : ∀ x ∈ cs.entries, x.1 < e := fun x mem =>
      (List.pairwise_append.mp sorted).2.2 x mem _ List.mem_cons_self
    have entries : (cs.insert e p).entries = cs.entries ++ [(e, p)] := insertEntry_concat p last
    obtain ⟨cs', eq, whole⟩ := ih (fun x mem => canonical x (List.mem_cons_of_mem _ mem)) (cs.insert e p)
      (by rw [entries]; simpa using sorted)
    refine ⟨cs', ?_, by rw [whole, entries, List.append_assoc]; rfl⟩
    simpa [readEntry, read, permissionDecoder_toJson] using eq

theorem decoder_toJson {cs : Collaborators} (storable : cs.Storable) : decoder cs.toJson = .ok cs := by
  have canonical : ∀ x ∈ cs.entries, x.1.Canonical := fun x mem =>
    storable x.1 (has_of_mem mem)
  obtain ⟨cs', read, entries⟩ := foldlM_readEntry canonical empty cs.sorted
  rw [toJson, Json.ofFields, List.map_map, decoder]
  exact read.trans (congrArg _ (Collaborators.ext entries))

theorem plain_toJson (cs : Collaborators) : cs.toJson.Plain := by
  refine .ofFields fun f mem => ?_
  obtain ⟨e, _, rfl⟩ := List.mem_map.mp mem
  refine .ofFields ?_
  simp only [List.forall_mem_cons]
  exact ⟨.string _, nofun⟩

end Collaborators

namespace Deployment

theorem decoder_toJson (d : Deployment) : decoder d.toJson = .ok d := by
  rw [decoder, toJson, Json.record_ofFields (by simp)]
  simp [Draft.read, Name.decoder_toJson, AccessKey.decoder_toJson, Record.once_none, Record.required]

theorem plain_toJson (d : Deployment) : d.toJson.Plain := by
  refine .ofFields ?_
  simp only [List.forall_mem_cons]
  exact ⟨.string _, .string _, nofun⟩

end Deployment

namespace App

theorem decoder_toJson {app : App} (storable : app.collaborators.Storable) :
    decoder app.toJson = .ok app := by
  rw [decoder, toJson, Json.record_ofFields (by simp)]
  simp [Draft.read, Name.decoder_toJson, Collaborators.decoder_toJson storable,
    Json.list_map fun d _ => Deployment.decoder_toJson d, Record.once_none, Record.required]

theorem plain_toJson (app : App) : app.toJson.Plain := by
  have deployments : (Json.array (app.deployments.map Deployment.toJson)).Plain := by
    refine .array _ fun j mem => ?_
    obtain ⟨d, _, rfl⟩ := List.mem_map.mp mem
    exact d.plain_toJson
  refine .ofFields ?_
  simp only [List.forall_mem_cons]
  exact ⟨.string _, app.collaborators.plain_toJson, deployments, nofun⟩

end App

namespace Registry

def Storable (r : Registry) : Prop :=
  ∀ app ∈ r.apps, app.collaborators.Storable

theorem decoder_toJson {r : Registry} (storable : r.Storable) : decoder r.toJson = .ok r := by
  simp [decoder, toJson, Json.list_map fun app mem => App.decoder_toJson (storable app mem)]

theorem plain_toJson (r : Registry) : r.toJson.Plain := by
  refine .array _ fun j mem => ?_
  obtain ⟨app, _, rfl⟩ := List.mem_map.mp mem
  exact app.plain_toJson

theorem decode_pretty {r : Registry} (storable : r.Storable) :
    Json.decode decoder r.toJson.pretty = .ok r := by
  rw [Json.decode_pretty r.plain_toJson, decoder_toJson storable]

end Registry

theorem stored_reads_back (h : History) (r : Registry)
    (words : ∀ p ∈ h.packages, p.size < wordBound ∧ p.uploadTime < wordBound)
    (addresses : ∀ app ∈ r.apps, ∀ e ∈ app.collaborators.emails, ∃ text, Email.ofText text = .ok e) :
    Json.decode History.decoder h.toJson.pretty = .ok h ∧
      Json.decode Registry.decoder r.toJson.pretty = .ok r := by
  have packages : h.Storable := fun p mem => ⟨(words p mem).1, (words p mem).2⟩
  have collaborators : r.Storable := fun app mem => Collaborators.storable_of_read (addresses app mem)
  exact ⟨History.decode_pretty packages, Registry.decode_pretty collaborators⟩

-- Quotes, control characters and a description that seems to end the record.
def oddPackage : Package where
  label := ⟨"\"v\\"⟩
  version := ⟨"^1.2.0 || 2.0 - 3.0", by decide +kernel, by decide +kernel⟩
  hash := "\x00\x1f\x7f\n"
  size := wordBound - 1
  uploadTime := wordBound - 1
  description := some "\"\x7d, \x7b\"𝄞\\"
  disabled := true
  mandatory := false
  rollout := ⟨1, by decide, by decide⟩
  method := .rollback

-- One of the addresses ends in a sigma, and so does the name in front of its at sign.
def greekApp : App where
  name := ⟨"App", by decide⟩
  collaborators := ⟨[(⟨"ann@example.com"⟩, .owner), (⟨"οδος@οδος"⟩, .collaborator)], by decide +kernel⟩
  deployments := [⟨⟨"Live", by decide⟩, ⟨"\"key\"\n"⟩⟩]

theorem odd_values_read_back :
    Json.decode History.decoder (History.toJson ⟨[oddPackage, oddPackage]⟩).pretty =
        .ok ⟨[oddPackage, oddPackage]⟩ ∧
      Json.decode Registry.decoder (Registry.toJson ⟨[greekApp, greekApp]⟩).pretty =
        .ok ⟨[greekApp, greekApp]⟩ := by
  have read_ann : Email.ofText " Ann@Example.COM" = .ok ⟨"ann@example.com"⟩ := by decide +kernel
  have read_greek : Email.ofText "ΟΔΟΣ@ΟΔΟΣ\n" = .ok ⟨"οδος@οδος"⟩ := by decide +kernel
  have addresses : ∀ e ∈ greekApp.collaborators.emails, ∃ text, Email.ofText text = .ok e := by
    simp only [greekApp, Collaborators.emails, List.map_cons, List.map_nil, List.forall_mem_cons]
    exact ⟨⟨_, read_ann⟩, ⟨_, read_greek⟩, List.forall_mem_nil _⟩
  refine stored_reads_back ⟨[oddPackage, oddPackage]⟩ ⟨[greekApp, greekApp]⟩ (by decide) ?_
  simpa using addresses

end AirRelease
