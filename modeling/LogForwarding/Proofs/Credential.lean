/-
# What a credential depends on

The credential of an output is made from its secret alone: the output decides
which kind is taken, and is named when there is a fault, but the values come
from the secret. Two outputs with credentials of one kind from one secret
therefore have the same.

Key definitions: `Credential.secret?`, `Credential.ofSecret?`.
Key theorems: `Output.ofSecret?_of_credential`, `Output.credential_unique`,
`Output.kind_of_credential_error`.
-/
import LogForwarding.Credential
import LogForwarding.Proofs.FirstFault

namespace LogForwarding

namespace Credential

/-- The secret that a credential comes from. -/
def secret? : Credential → Option String
  | anonymous => none
  | mutualTls secret _ | basic secret .. | cloudIam secret _ => some secret

/-- The credential of a kind that the secret called `name` holds. -/
def ofSecret? (name : String) (secret : Secret) : Kind → Option Credential
  | .mutualTls => some (mutualTls name (SecretKey.trustedCa ∈ secret))
  | .basic => do
    let username ← secret.text? SecretKey.username
    let password ← secret.text? SecretKey.password
    return basic name username password
  | .cloudIam => (secret.text? SecretKey.credentialsPath).map (cloudIam name)
  | .anonymous => some anonymous

theorem kind_eq_anonymous_iff {credential : Credential} :
    credential.kind = .anonymous ↔ credential = anonymous := by
  cases credential <;> simp [kind]

theorem kind_of_ofSecret? {name : String} {secret : Secret} {kind : Kind} {credential : Credential}
    (h : ofSecret? name secret kind = some credential) : credential.kind = kind := by
  cases kind <;> simp [ofSecret?, Option.bind_eq_some_iff] at h
  · rw [← h]
    rfl
  · obtain ⟨_, _, _, _, rfl⟩ := h
    rfl
  · obtain ⟨_, _, rfl⟩ := h
    rfl
  · rw [← h]
    rfl

theorem secret?_of_ofSecret? {name : String} {secret : Secret} {kind : Kind}
    {credential : Credential} (h : ofSecret? name secret kind = some credential) :
    credential = anonymous ∨ credential.secret? = some name := by
  cases kind <;> simp [ofSecret?, Option.bind_eq_some_iff] at h
  · rw [← h]
    exact .inr rfl
  · obtain ⟨_, _, _, _, rfl⟩ := h
    exact .inr rfl
  · obtain ⟨_, _, rfl⟩ := h
    exact .inr rfl
  · rw [← h]
    exact .inl rfl

end Credential

namespace Output

variable {o o' : Output} {secrets : Secrets}

theorem secretText_eq_ok_iff {secret : Secret} {key text : String} :
    o.secretText secret key = .ok text ↔ secret.text? key = some text := by
  unfold secretText
  cases secret.text? key <;> simp

theorem secretText_eq_error_iff {secret : Secret} {key : String} {fault : Fault} :
    o.secretText secret key = .error fault ↔
      secret.text? key = none ∧ fault = .invalidSecretValue o.name key := by
  unfold secretText
  cases secret.text? key <;> simp [eq_comm]

/-- The output matters for the fault only. -/
theorem credentialOfKind_eq_ok_iff {name : String} {secret : Secret} {kind : Credential.Kind}
    {credential : Credential} :
    o.credentialOfKind name secret kind = .ok credential ↔
      Credential.ofSecret? name secret kind = some credential := by
  cases kind <;>
    simp [credentialOfKind, Credential.ofSecret?, bind_eq_ok_iff, secretText_eq_ok_iff,
      Option.bind_eq_some_iff, pure, Except.pure]

/-- An output has no credential, or one of which its secret holds all keys. -/
theorem ofSecret?_of_credential {credential : Credential}
    (h : o.credential secrets = .ok credential) :
    credential = .anonymous ∨ ∃ name secret, o.secret = some name ∧ secrets[name]? = some secret ∧
      (∀ key ∈ credential.kind.keys, key ∈ secret) ∧
      Credential.ofSecret? name secret credential.kind = some credential := by
  unfold Output.credential at h
  split at h
  · cases h
    exact .inl rfl
  · rename_i name hname
    split at h
    · cases h
    · rename_i secret hsecret
      split at h
      · cases h
        exact .inl rfl
      · rename_i kind hkind
        split at h
        · cases h
        · rename_i hkeys
          have hc := credentialOfKind_eq_ok_iff.1 h
          obtain rfl := Credential.kind_of_ofSecret? hc
          refine .inr ⟨name, secret, hname, hsecret, fun key hkey => ?_, hc⟩
          simpa using List.find?_eq_none.1 hkeys key hkey

/-- **One secret, one credential.** Credentials of one kind from one secret are equal. -/
theorem credential_unique {credential credential' : Credential}
    (h : o.credential secrets = .ok credential) (h' : o'.credential secrets = .ok credential')
    (hk : credential.kind = credential'.kind) (hs : credential.secret? = credential'.secret?) :
    credential = credential' := by
  by_cases ha : credential = .anonymous
  · rw [Credential.kind_eq_anonymous_iff.2 ha, eq_comm, Credential.kind_eq_anonymous_iff] at hk
    rw [ha, hk]
  have ha' : credential' ≠ .anonymous := by
    rwa [ne_eq, ← Credential.kind_eq_anonymous_iff, ← hk, Credential.kind_eq_anonymous_iff]
  obtain ⟨name, secret, _, hsecret, _, hc⟩ := (ofSecret?_of_credential h).resolve_left ha
  obtain ⟨name', secret', _, hsecret', _, hc'⟩ := (ofSecret?_of_credential h').resolve_left ha'
  rw [(Credential.secret?_of_ofSecret? hc).resolve_left ha,
    (Credential.secret?_of_ofSecret? hc').resolve_left ha', Option.some.injEq] at hs
  rw [hs, hsecret', Option.some.injEq] at hsecret
  rw [hs, hk, ← hsecret, hc', Option.some.injEq] at hc
  exact hc.symm

theorem kind_of_credentialOfKind_error {name : String} {secret : Secret} {kind : Credential.Kind}
    {fault : Fault} (h : o.credentialOfKind name secret kind = .error fault) :
    fault.kind = .credential := by
  cases kind <;>
    simp [credentialOfKind, bind_eq_error_iff, secretText_eq_error_iff, pure, Except.pure] at h
  · rcases h with ⟨_, rfl⟩ | ⟨_, _, _, rfl⟩ <;> rfl
  · rw [h.2]
    rfl

/-- Where an output has no credential, the secret is at fault. -/
theorem kind_of_credential_error {fault : Fault} (h : o.credential secrets = .error fault) :
    fault.kind = .credential := by
  unfold Output.credential at h
  split at h
  · cases h
  · split at h
    · cases h
      rfl
    · split at h
      · cases h
      · split at h
        · cases h
          rfl
        · exact kind_of_credentialOfKind_error h

end Output

end LogForwarding
