/-
# Which credential an output has

The kinds of credential that a type of output supports stand in an order, and
the strongest one of which the secret holds a key is taken. From there on no
other kind counts: if one of its keys is missing, or one of its values is not
text, there is a fault, and no weaker kind steps in. `Output.Chooses` says for
each outcome when it is the one, in terms of what is stored and without a
search; it holds of the credential and of nothing else.

Keys of weaker kinds, and keys that mean nothing, therefore have no part in the
outcome once a key of the kind that is taken is there.

Key definitions: `OutputType.Takes`, `Credential.ComesFrom`, `Output.Chooses`.
Key theorems: `Secret.text?_eq_some_iff`, `Output.credential_of_takes`,
`Output.credential_eq_iff_chooses`, `Output.credential_eq_of_agrees`,
`Output.credential_chosen`.
-/
import Mathlib.Data.List.Find
import LogForwarding.Proofs.Credential

namespace LogForwarding

/-! ### What is stored -/

/-- The bytes under the key are those of the text. -/
def Secret.Stores (secret : Secret) (key text : String) : Prop := secret[key]? = some text.toUTF8

/-- The value under a key is the text whose bytes are stored there, if there is one. -/
theorem Secret.text?_eq_some_iff {secret : Secret} {key text : String} (h : key ∈ secret) :
    secret.text? key = some text ↔ secret.Stores key text := by
  obtain ⟨bytes, hbytes⟩ := Option.isSome_iff_exists.1 (Std.ExtTreeMap.mem_iff_isSome_getElem?.1 h)
  rw [Stores, hbytes, Option.some.injEq]
  refine ⟨fun htext => ?_, fun htext => ?_⟩
  · rw [toUTF8_of_text? htext, hbytes, Option.getD_some]
  · rw [text?, hbytes, Option.getD_some, htext, String.fromUTF8?]
    exact dif_pos text.isValidUTF8

/-- The credential is the one that a secret called `name` holds: its texts have the bytes that are
stored, and a certificate is checked against trusted ones if there are any. -/
inductive Credential.ComesFrom (name : String) (secret : Secret) : Credential → Prop where
  | mutualTls {caBundle : Bool} (h : caBundle ↔ SecretKey.trustedCa ∈ secret) :
    ComesFrom name secret (mutualTls name caBundle)
  | basic {username password : String} (husername : secret.Stores SecretKey.username username)
      (hpassword : secret.Stores SecretKey.password password) :
    ComesFrom name secret (basic name username password)
  | cloudIam {path : String} (h : secret.Stores SecretKey.credentialsPath path) :
    ComesFrom name secret (cloudIam name path)

/-- Of the kinds that the type supports, `kind` is the strongest of which the secret holds a key;
`stronger` are those before it. -/
structure OutputType.Takes (type : OutputType) (secret : Secret)
    (stronger : List Credential.Kind) (kind : Credential.Kind) : Prop where
  /-- The kinds stand so in the order of the type. -/
  supported : stronger ++ [kind] <+: type.credentialKinds
  /-- No key of a stronger kind is there. -/
  absent : ∀ k ∈ stronger, ∀ key ∈ k.keys, key ∉ secret
  /-- Some key of the kind is there. -/
  present : ∃ key ∈ kind.keys, key ∈ secret

/-- What the choice of a credential for the output ends with. -/
inductive Output.Chooses (o : Output) (secrets : Secrets) : Except Fault Credential → Prop where
  /-- An output without a secret shows nothing. -/
  | unsecured (hname : o.secret = none) : Chooses o secrets (.ok .anonymous)
  /-- The secret is not there. -/
  | missingSecret {name : String} (hname : o.secret = some name) (hsecret : name ∉ secrets) :
    Chooses o secrets (.error (.missingSecret o.name name))
  /-- The secret holds no key of any kind. -/
  | keyless {name : String} {secret : Secret} (hname : o.secret = some name)
      (hsecret : secrets[name]? = some secret)
      (habsent : ∀ kind ∈ o.type.credentialKinds, ∀ key ∈ kind.keys, key ∉ secret) :
    Chooses o secrets (.ok .anonymous)
  /-- Of the kind that is taken a key is missing; the first of them is named. -/
  | missingKey {name key : String} {secret : Secret} {stronger : List Credential.Kind}
      {kind : Credential.Kind} {before after : List String} (hname : o.secret = some name)
      (hsecret : secrets[name]? = some secret) (htakes : o.type.Takes secret stronger kind)
      (hkeys : kind.keys = before ++ key :: after) (hbefore : ∀ k ∈ before, k ∈ secret)
      (hkey : key ∉ secret) :
    Chooses o secrets (.error (.missingSecretKey o.name name key))
  /-- A value of the kind that is taken is not text; the first of them is named. -/
  | invalidValue {name key : String} {secret : Secret} {stronger : List Credential.Kind}
      {kind : Credential.Kind} {before after : List String} (hname : o.secret = some name)
      (hsecret : secrets[name]? = some secret) (htakes : o.type.Takes secret stronger kind)
      (hpresent : ∀ k ∈ kind.keys, k ∈ secret) (hkind : kind ≠ .mutualTls)
      (hkeys : kind.keys = before ++ key :: after)
      (hbefore : ∀ k ∈ before, ∃ text, secret.Stores k text)
      (hkey : ∀ text, ¬ secret.Stores key text) :
    Chooses o secrets (.error (.invalidSecretValue o.name key))
  /-- The credential is of the kind that is taken. -/
  | taken {name : String} {secret : Secret} {stronger : List Credential.Kind}
      {credential : Credential} (hname : o.secret = some name)
      (hsecret : secrets[name]? = some secret)
      (htakes : o.type.Takes secret stronger credential.kind)
      (hpresent : ∀ k ∈ credential.kind.keys, k ∈ secret)
      (hc : credential.ComesFrom name secret) :
    Chooses o secrets (.ok credential)

/-! ### The kind that is taken -/

section Kind

variable {type : OutputType} {secret secret' : Secret} {stronger : List Credential.Kind}
  {kind : Credential.Kind}

theorem OutputType.find?_eq_some_iff :
    type.credentialKinds.find? (·.keys.any (· ∈ secret)) = some kind ↔
      ∃ stronger, type.Takes secret stronger kind := by
  rw [List.find?_eq_some_iff_append]
  constructor
  · rintro ⟨hkind, stronger, weaker, hkinds, hstronger⟩
    refine ⟨stronger, ⟨weaker, by simp [hkinds]⟩, fun k hk => ?_, ?_⟩
    · simpa using hstronger k hk
    · simpa using hkind
  · rintro ⟨stronger, ⟨weaker, hkinds⟩, habsent, hpresent⟩
    refine ⟨by simpa using hpresent, stronger, weaker, by simp [← hkinds], fun k hk => ?_⟩
    simpa using habsent k hk

theorem OutputType.find?_eq_none_iff :
    type.credentialKinds.find? (·.keys.any (· ∈ secret)) = none ↔
      ∀ kind ∈ type.credentialKinds, ∀ key ∈ kind.keys, key ∉ secret := by
  simp [List.find?_eq_none]

/-- A kind of which a key is there is not the one without keys. -/
theorem OutputType.Takes.ne_anonymous (h : type.Takes secret stronger kind) :
    kind ≠ .anonymous := by
  rintro rfl
  obtain ⟨key, hkey, _⟩ := h.present
  cases hkey

/-- Whether a key is there can be told from what is found under it. -/
theorem Secret.mem_congr {key : String} (h : secret'[key]? = secret[key]?) :
    key ∈ secret' ↔ key ∈ secret := by
  rw [Std.ExtTreeMap.mem_iff_isSome_getElem?, Std.ExtTreeMap.mem_iff_isSome_getElem?, h]

/-- Whether a kind is taken depends on its keys and those of the kinds before it. -/
theorem OutputType.Takes.of_agrees (h : type.Takes secret stronger kind)
    (hstronger : ∀ key ∈ stronger.flatMap Credential.Kind.keys, secret'[key]? = secret[key]?)
    (hkeys : ∀ key ∈ kind.keys, secret'[key]? = secret[key]?) :
    type.Takes secret' stronger kind := by
  refine ⟨h.supported, fun k hk key hkey => ?_, ?_⟩
  · rw [Secret.mem_congr (hstronger key (List.mem_flatMap.2 ⟨k, hk, hkey⟩))]
    exact h.absent k hk key hkey
  · obtain ⟨key, hkey, hmem⟩ := h.present
    exact ⟨key, hkey, (Secret.mem_congr (hkeys key hkey)).2 hmem⟩

/-- The first key that is missing. -/
theorem Credential.Kind.find?_eq_some_iff {key : String} :
    kind.keys.find? (· ∉ secret) = some key ↔
      ∃ before after, kind.keys = before ++ key :: after ∧ (∀ k ∈ before, k ∈ secret) ∧
        key ∉ secret := by
  rw [List.find?_eq_some_iff_append]
  constructor
  · rintro ⟨hkey, before, after, hkeys, hbefore⟩
    exact ⟨before, after, hkeys, by simpa using hbefore, by simpa using hkey⟩
  · rintro ⟨before, after, hkeys, hbefore, hkey⟩
    exact ⟨by simpa using hkey, before, after, hkeys, by simpa using hbefore⟩

theorem Credential.Kind.find?_eq_none_iff :
    kind.keys.find? (· ∉ secret) = none ↔ ∀ key ∈ kind.keys, key ∈ secret := by
  simp [List.find?_eq_none]

theorem Credential.Kind.find?_congr
    (h : ∀ key ∈ kind.keys, secret'[key]? = secret[key]?) :
    kind.keys.find? (· ∉ secret') = kind.keys.find? (· ∉ secret) :=
  List.find?_congr fun key hkey => by
    rw [decide_eq_decide, Secret.mem_congr (h key hkey)]

/-- A kind takes its credential from the texts under its keys. -/
theorem Credential.ofSecret?_eq_some_iff {name : String} {credential : Credential}
    (hpresent : ∀ key ∈ credential.kind.keys, key ∈ secret) (hkind : credential.kind ≠ .anonymous) :
    Credential.ofSecret? name secret credential.kind = some credential ↔
      credential.ComesFrom name secret := by
  cases credential with
  | anonymous => exact absurd rfl hkind
  | mutualTls other caBundle =>
    simp only [kind, ofSecret?, Option.some.injEq, mutualTls.injEq]
    constructor
    · rintro ⟨rfl, rfl⟩
      exact .mutualTls (by simp)
    · rintro ⟨h⟩
      exact ⟨rfl, by rw [Bool.eq_iff_iff, decide_eq_true_iff]; exact h.symm⟩
  | basic other username password =>
    have husername := hpresent SecretKey.username (by simp [kind, Kind.keys])
    have hpassword := hpresent SecretKey.password (by simp [kind, Kind.keys])
    simp only [kind, ofSecret?, Option.bind_eq_bind, Option.bind_eq_some_iff, Option.pure_def,
      Option.some.injEq, basic.injEq, Secret.text?_eq_some_iff husername,
      Secret.text?_eq_some_iff hpassword]
    constructor
    · rintro ⟨_, hu, _, hp, rfl, rfl, rfl⟩
      exact .basic hu hp
    · rintro ⟨⟩
      exact ⟨_, ‹_›, _, ‹_›, rfl, rfl, rfl⟩
  | cloudIam other path =>
    have hpath := hpresent SecretKey.credentialsPath (by simp [kind, Kind.keys])
    simp only [kind, ofSecret?, Option.map_eq_some_iff, cloudIam.injEq,
      Secret.text?_eq_some_iff hpath]
    constructor
    · rintro ⟨_, hp, rfl, rfl⟩
      exact .cloudIam hp
    · rintro ⟨⟩
      exact ⟨_, ‹_›, rfl, rfl⟩

end Kind

namespace Output

variable {o : Output} {secrets secrets' : Secrets} {name : String} {secret secret' : Secret}
  {stronger : List Credential.Kind} {kind : Credential.Kind}

/-- But for a certificate, the texts under the keys are read one after the other. -/
theorem credentialOfKind_eq_error_iff {fault : Fault} (hpresent : ∀ key ∈ kind.keys, key ∈ secret) :
    o.credentialOfKind name secret kind = .error fault ↔
      kind ≠ .mutualTls ∧ ∃ before key after, kind.keys = before ++ key :: after ∧
        (∀ k ∈ before, ∃ text, secret.Stores k text) ∧ (∀ text, ¬ secret.Stores key text) ∧
        fault = .invalidSecretValue o.name key := by
  have hread : o.credentialOfKind name secret kind = .error fault ↔
      kind ≠ .mutualTls ∧ kind.keys.mapM (o.secretText secret) = .error fault := by
    cases kind <;>
      simp [credentialOfKind, Credential.Kind.keys, bind_eq_error_iff, pure, Except.pure]
  rw [hread, mapM_eq_error_iff]
  refine and_congr_right fun _ => exists_congr fun before => exists_congr fun key =>
    exists_congr fun after => and_congr_right fun hkeys => ?_
  have hkey : key ∈ secret := hpresent key (by simp [hkeys])
  have hbefore : ∀ k ∈ before, k ∈ secret := fun k hk => hpresent k (by simp [hkeys, hk])
  have hnone : secret.text? key = none ↔ ∀ text, ¬ secret.Stores key text := by
    simp [Option.eq_none_iff_forall_ne_some, Secret.text?_eq_some_iff hkey]
  rw [secretText_eq_error_iff, hnone]
  refine and_congr_left fun _ => forall₂_congr fun k hk => exists_congr fun text => ?_
  rw [secretText_eq_ok_iff, Secret.text?_eq_some_iff (hbefore k hk)]

/-- The credential of a kind depends on its keys, and on whether certificates are trusted. -/
theorem credentialOfKind_congr (hkeys : ∀ key ∈ kind.keys, secret'[key]? = secret[key]?)
    (htrusted : secret'[SecretKey.trustedCa]? = secret[SecretKey.trustedCa]?) :
    o.credentialOfKind name secret' kind = o.credentialOfKind name secret kind := by
  have htext : ∀ key ∈ kind.keys, o.secretText secret' key = o.secretText secret key := by
    intro key hkey
    rw [secretText, secretText, Secret.text?, Secret.text?, hkeys key hkey]
  have hca := Secret.mem_congr htrusted
  cases kind with
  | mutualTls => simp only [credentialOfKind, hca]
  | basic =>
    rw [credentialOfKind, credentialOfKind, htext _ (by simp [Credential.Kind.keys]),
      htext _ (by simp [Credential.Kind.keys])]
  | cloudIam =>
    rw [credentialOfKind, credentialOfKind, htext _ (by simp [Credential.Kind.keys])]
  | anonymous => rfl

/-! ### The outcome -/

/-- Where a kind is taken, all depends on its keys. -/
theorem credential_of_takes (hname : o.secret = some name) (hsecret : secrets[name]? = some secret)
    (htakes : o.type.Takes secret stronger kind) :
    o.credential secrets =
      match kind.keys.find? (· ∉ secret) with
      | some key => .error (.missingSecretKey o.name name key)
      | none => o.credentialOfKind name secret kind := by
  have hkind := OutputType.find?_eq_some_iff.2 ⟨stronger, htakes⟩
  cases hkey : kind.keys.find? (· ∉ secret) <;>
    simp only [credential, hname, hsecret, hkind, hkey]

theorem credential_of_present (hname : o.secret = some name)
    (hsecret : secrets[name]? = some secret) (htakes : o.type.Takes secret stronger kind)
    (hpresent : ∀ key ∈ kind.keys, key ∈ secret) :
    o.credential secrets = o.credentialOfKind name secret kind := by
  rw [credential_of_takes hname hsecret htakes, Credential.Kind.find?_eq_none_iff.2 hpresent]

/-- The credential is an outcome that can be told from what is stored. -/
theorem chooses_credential (o : Output) (secrets : Secrets) :
    o.Chooses secrets (o.credential secrets) := by
  cases hname : o.secret with
  | none =>
    rw [credential, hname]
    exact .unsecured hname
  | some name =>
    cases hsecret : secrets[name]? with
    | none =>
      simp only [credential, hname, hsecret]
      exact .missingSecret hname (by simpa using hsecret)
    | some secret =>
      cases hfind : o.type.credentialKinds.find? (·.keys.any (· ∈ secret)) with
      | none =>
        simp only [credential, hname, hsecret, hfind]
        exact .keyless hname hsecret (OutputType.find?_eq_none_iff.1 hfind)
      | some kind =>
        obtain ⟨stronger, htakes⟩ := OutputType.find?_eq_some_iff.1 hfind
        cases hkey : kind.keys.find? (· ∉ secret) with
        | some key =>
          obtain ⟨before, after, hkeys, hbefore, habsent⟩ :=
            Credential.Kind.find?_eq_some_iff.1 hkey
          rw [credential_of_takes hname hsecret htakes, hkey]
          exact .missingKey hname hsecret htakes hkeys hbefore habsent
        | none =>
          have hpresent := Credential.Kind.find?_eq_none_iff.1 hkey
          rw [credential_of_present hname hsecret htakes hpresent]
          cases hc : o.credentialOfKind name secret kind with
          | error fault =>
            obtain ⟨hkind, before, key, after, hkeys, hbefore, hinvalid, rfl⟩ :=
              (credentialOfKind_eq_error_iff hpresent).1 hc
            exact .invalidValue hname hsecret htakes hpresent hkind hkeys hbefore hinvalid
          | ok credential =>
            have hof := credentialOfKind_eq_ok_iff.1 hc
            obtain rfl := Credential.kind_of_ofSecret? hof
            exact .taken hname hsecret htakes hpresent
              ((Credential.ofSecret?_eq_some_iff hpresent htakes.ne_anonymous).1 hof)

/-- There is no other outcome. -/
theorem Chooses.credential_eq {outcome : Except Fault Credential} (h : o.Chooses secrets outcome) :
    o.credential secrets = outcome := by
  cases h with
  | unsecured hname => rw [credential, hname]
  | missingSecret hname hsecret =>
    simp only [credential, hname, Std.ExtTreeMap.getElem?_eq_none hsecret]
  | keyless hname hsecret habsent =>
    simp only [credential, hname, hsecret, OutputType.find?_eq_none_iff.2 habsent]
  | missingKey hname hsecret htakes hkeys hbefore hkey =>
    have hfind := Credential.Kind.find?_eq_some_iff.2 ⟨_, _, hkeys, hbefore, hkey⟩
    rw [credential_of_takes hname hsecret htakes, hfind]
  | invalidValue hname hsecret htakes hpresent hkind hkeys hbefore hkey =>
    rw [credential_of_present hname hsecret htakes hpresent]
    exact (credentialOfKind_eq_error_iff hpresent).2
      ⟨hkind, _, _, _, hkeys, hbefore, hkey, rfl⟩
  | taken hname hsecret htakes hpresent hc =>
    rw [credential_of_present hname hsecret htakes hpresent, credentialOfKind_eq_ok_iff]
    exact (Credential.ofSecret?_eq_some_iff hpresent htakes.ne_anonymous).2 hc

theorem credential_eq_iff_chooses {outcome : Except Fault Credential} :
    o.credential secrets = outcome ↔ o.Chooses secrets outcome :=
  ⟨fun h => h ▸ o.chooses_credential secrets, Chooses.credential_eq⟩

/-! ### What has no part in it -/

/-- Where secrets agree on the keys of a kind and on those of the kinds before it, and on trusted
certificates, they give one outcome if that kind is taken. -/
theorem credential_eq_of_agrees (hname : o.secret = some name)
    (hsecret : secrets[name]? = some secret) (hsecret' : secrets'[name]? = some secret')
    (htakes : o.type.Takes secret stronger kind)
    (hagree : ∀ key ∈ stronger.flatMap Credential.Kind.keys ++ kind.keys ++ [SecretKey.trustedCa],
      secret'[key]? = secret[key]?) :
    o.credential secrets' = o.credential secrets := by
  simp only [List.forall_mem_append, List.forall_mem_singleton] at hagree
  obtain ⟨⟨hstronger, hkeys⟩, htrusted⟩ := hagree
  have htakes' := htakes.of_agrees hstronger hkeys
  rw [credential_of_takes hname hsecret htakes, credential_of_takes hname hsecret' htakes',
    Credential.Kind.find?_congr hkeys, credentialOfKind_congr hkeys htrusted]

/-- **No credential is silently weaker than it should be.** The credential of an output is what its
secret stores for the strongest kind of which it holds a key, or the first thing that is wrong with
the keys of this kind. Once one of them is there, keys of weaker kinds and keys that mean nothing
can be added, removed and changed without any effect. -/
theorem credential_chosen (o : Output) (secrets : Secrets) :
    (∀ outcome, o.credential secrets = outcome ↔ o.Chooses secrets outcome) ∧
    ∀ name secret stronger kind, o.secret = some name → secrets[name]? = some secret →
      o.type.Takes secret stronger kind →
      ∀ (secrets' : Secrets) secret', secrets'[name]? = some secret' →
        (∀ key ∈ stronger.flatMap Credential.Kind.keys ++ kind.keys ++ [SecretKey.trustedCa],
          secret'[key]? = secret[key]?) →
        o.credential secrets' = o.credential secrets :=
  ⟨fun _ => credential_eq_iff_chooses, fun _ _ _ _ hname hsecret htakes _ _ hsecret' hagree =>
    credential_eq_of_agrees hname hsecret hsecret' htakes hagree⟩

end Output

end LogForwarding
