/-
# What a configuration shows of its secrets

A configuration depends on which keys a secret holds, for they decide the
credential; of the values it shows the path of a file with credentials, and
the user name and the password if they are written as they are. Where these
are written as references, only whether they are text matters, because a value
that is not text is a fault. Two runs that agree in all this end alike, in a
text or in a fault: certificates, private keys, values under other keys and
secrets of outputs that no pipeline names leave no trace.

The comparison goes through what is shown of a credential
(`Credential.shown`): the rest of a sink is made from that.

Key definitions: `Topology.namedSecrets`, `Secret.Alike`, `Credential.shown`.
Key theorems: `Output.credential_shown`, `Topology.configuration_eq_of_alike`,
`Topology.configuration_independent`.
-/
import LogForwarding.Proofs.Configuration
import Mathlib.Data.List.Find

namespace LogForwarding

/-- The keys that a secret is searched for. -/
def SecretKey.all : List String :=
  [certificate, privateKey, trustedCa, username, password, credentialsPath]

/-- The keys of which the values may be written. -/
def SecretKey.written : List String := [username, password, credentialsPath]

/-- Two secrets are alike in the style: they hold the same of the keys that matter, have the same
path of a file with credentials, and user names and passwords that are written alike. -/
structure Secret.Alike (style : SecretStyle) (secret secret' : Secret) : Prop where
  /-- The same keys are there. -/
  keys : ∀ key ∈ SecretKey.all, key ∈ secret ↔ key ∈ secret'
  /-- The path is the same. -/
  credentialsPath : secret[SecretKey.credentialsPath]? = secret'[SecretKey.credentialsPath]?
  /-- The values are the same, or, where references are written, both text or both not. -/
  values : ∀ key ∈ [SecretKey.username, SecretKey.password],
    match style with
    | .inline => secret[key]? = secret'[key]?
    | .reference => (secret.text? key).isSome = (secret'.text? key).isSome

/-- The secrets of the outputs that some pipeline names. -/
def Topology.namedSecrets (t : Topology) : List String :=
  (t.allOutputs.filter fun o => t.pipelines.any (o.name ∈ ·.outputs)).filterMap Output.secret

/-! ### What is shown of a credential -/

/-- The credential, without the values that the style leaves out. -/
def Credential.shown (style : SecretStyle) : Credential → Credential
  | basic secret username password =>
    match style with
    | .inline => basic secret username password
    | .reference => basic secret "" ""
  | credential => credential

/-- A sink is made from what is shown. -/
theorem Credential.sinkPart_shown (settings : Settings) (sinkId : String)
    (trustedCa : Option String) (credential : Credential) :
    (credential.shown settings.secretStyle).sinkPart settings sinkId trustedCa =
      credential.sinkPart settings sinkId trustedCa := by
  cases credential with
  | basic secret username password =>
    cases hstyle : settings.secretStyle with
    | inline => rfl
    | reference => cases trustedCa <;> simp [shown, sinkPart, body, secretValue, hstyle]
  | _ => rfl

namespace Secret.Alike

variable {style : SecretStyle} {secret secret' : Secret}

theorem refl (style : SecretStyle) (secret : Secret) : secret.Alike style secret := by
  refine ⟨fun _ _ => Iff.rfl, rfl, fun key _ => ?_⟩
  cases style <;> rfl

/-- The credential of one kind is shown alike. -/
theorem credentialOfKind_shown (h : secret.Alike style secret') (o : Output) (name : String)
    (kind : Credential.Kind) :
    (o.credentialOfKind name secret kind).map (Credential.shown style) =
      (o.credentialOfKind name secret' kind).map (Credential.shown style) := by
  cases kind with
  | anonymous => rfl
  | mutualTls =>
    have hca : SecretKey.trustedCa ∈ secret ↔ SecretKey.trustedCa ∈ secret' :=
      h.keys _ (by simp [SecretKey.all])
    simp only [Output.credentialOfKind, hca]
  | cloudIam =>
    have hpath : secret.text? SecretKey.credentialsPath =
        secret'.text? SecretKey.credentialsPath := by
      rw [text?, text?, h.credentialsPath]
    simp only [Output.credentialOfKind, Output.secretText, hpath]
  | basic =>
    have husername := h.values SecretKey.username (by simp)
    have hpassword := h.values SecretKey.password (by simp)
    cases style with
    | inline =>
      simp only [Output.credentialOfKind, Output.secretText, text?, husername, hpassword]
    | reference =>
      simp only [Output.credentialOfKind, Output.secretText]
      cases hu : secret.text? SecretKey.username <;>
        cases hp : secret.text? SecretKey.password <;>
          cases hu' : secret'.text? SecretKey.username <;>
            cases hp' : secret'.text? SecretKey.password <;>
              simp [hu, hp, hu', hp'] at husername hpassword <;> rfl

/-- Values that are not written can be changed, and keys that do not matter added. -/
theorem insert {key : String} {value : ByteArray} (hw : key ∉ SecretKey.written)
    (hk : key ∈ secret ∨ key ∉ SecretKey.all) :
    Secret.Alike style (secret.insert key value) secret := by
  have hvalue : ∀ k ∈ SecretKey.written, (secret.insert key value)[k]? = secret[k]? := by
    intro k hmem
    have hne : key ≠ k := fun heq => hw (heq ▸ hmem)
    simp [Std.ExtTreeMap.getElem?_insert, hne]
  refine ⟨fun k hmem => ?_, hvalue _ (by simp [SecretKey.written]), fun k hmem => ?_⟩
  · rw [Std.ExtTreeMap.mem_insert]
    refine ⟨fun h => h.elim (fun heq => ?_) id, .inr⟩
    obtain rfl := Std.LawfulEqCmp.compare_eq_iff_eq.1 heq
    exact hk.resolve_right (not_not_intro hmem)
  · have hmem' : k ∈ SecretKey.written := by
      simp only [List.mem_cons, List.not_mem_nil, or_false] at hmem
      rcases hmem with rfl | rfl <;> simp [SecretKey.written]
    cases style with
    | inline => exact hvalue k hmem'
    | reference =>
      exact congrArg (fun v => (String.fromUTF8? (v.getD .empty)).isSome) (hvalue k hmem')

end Secret.Alike

namespace Output

variable {o : Output} {secrets secrets' : Secrets} {style : SecretStyle}

/-- The secrets of the output are alike: both there or both not. -/
def Agrees (o : Output) (style : SecretStyle) (secrets secrets' : Secrets) : Prop :=
  ∀ name ∈ o.secret, Option.Rel (Secret.Alike style) secrets[name]? secrets'[name]?

/-- Trusted certificates are there or not. -/
theorem Agrees.caSecret?_eq (h : o.Agrees style secrets secrets') :
    o.caSecret? secrets = o.caSecret? secrets' := by
  have hca : ∀ name ∈ o.secret, secrets[name]?.any (SecretKey.trustedCa ∈ ·) =
      secrets'[name]?.any (SecretKey.trustedCa ∈ ·) := by
    intro name hname
    have hrel := h name hname
    generalize secrets[name]? = found, secrets'[name]? = found' at hrel ⊢
    cases hrel with
    | none => rfl
    | some hs => simp [hs.keys SecretKey.trustedCa (by simp [SecretKey.all])]
  unfold caSecret?
  cases hsecret : o.secret with
  | none => rfl
  | some name => simp only [Option.filter_some, hca name hsecret]

/-- **The credential is shown alike**, and where there is none the fault is the same. -/
theorem Agrees.credential_shown (h : o.Agrees style secrets secrets') :
    (o.credential secrets).map (Credential.shown style) =
      (o.credential secrets').map (Credential.shown style) := by
  have hkeys : ∀ kind : Credential.Kind, ∀ key ∈ kind.keys, key ∈ SecretKey.all := by
    rintro (_ | _ | _ | _) <;> decide
  unfold Output.credential
  cases hsecret : o.secret with
  | none => rfl
  | some name =>
    have hrel := h name hsecret
    simp only
    generalize secrets[name]? = found, secrets'[name]? = found' at hrel ⊢
    cases hrel with
    | none => rfl
    | @some secret secret' hs =>
      have hkind : o.type.credentialKinds.find? (·.keys.any (· ∈ secret)) =
          o.type.credentialKinds.find? (·.keys.any (· ∈ secret')) := by
        refine List.find?_congr fun kind _ => ?_
        rw [Bool.eq_iff_iff, List.any_eq_true, List.any_eq_true]
        exact exists_congr fun key => and_congr_right fun hkey => by
          simp [hs.keys key (hkeys kind key hkey)]
      have hmissing : ∀ kind : Credential.Kind, kind.keys.find? (· ∉ secret) =
          kind.keys.find? (· ∉ secret') := fun kind =>
        List.find?_congr fun key hkey => by simp [hs.keys key (hkeys kind key hkey)]
      simp only [hkind]
      cases o.type.credentialKinds.find? (·.keys.any (· ∈ secret')) with
      | none => rfl
      | some kind =>
        simp only [hmissing]
        cases kind.keys.find? (· ∉ secret') with
        | some key => rfl
        | none => exact hs.credentialOfKind_shown o name kind

/-- The sink is the same, or refused for the same reason. -/
theorem Agrees.sink_eq {settings : Settings} (h : o.Agrees settings.secretStyle secrets secrets')
    (plan : Plan) : plan.sink secrets settings o = plan.sink secrets' settings o := by
  have hshown : ∀ s : Secrets, plan.sink s settings o =
      ((o.credential s).map (Credential.shown settings.secretStyle)).map
        (plan.sinkWith s settings o) := by
    intro s
    rw [Plan.sink_eq_map]
    cases o.credential s with
    | error fault => rfl
    | ok credential => simp [Except.map, Plan.sinkWith, Credential.sinkPart_shown]
  have hsame : plan.sinkWith secrets settings o = plan.sinkWith secrets' settings o := by
    funext credential
    rw [Plan.sinkWith, Plan.sinkWith, h.caSecret?_eq]
  rw [hshown, hshown, h.credential_shown, hsame]

end Output

namespace Topology

variable {t : Topology} {plan : Plan}

/-- The outputs of the plan that pipelines name have named secrets. -/
theorem mem_namedSecrets (h : t.resolve = .ok plan) {o : Output} (ho : o ∈ plan.referenced)
    {name : String} (hname : name ∈ o.secret) : name ∈ t.namedSecrets := by
  obtain ⟨hall, p, hp, hnamed⟩ := (mem_referenced_iff h).1 ho
  have hany : t.pipelines.any (o.name ∈ ·.outputs) = true :=
    List.any_eq_true.2 ⟨p, hp, decide_eq_true hnamed⟩
  exact List.mem_filterMap.2 ⟨o, List.mem_filter.2 ⟨hall, hany⟩, hname⟩

/-- Where the named secrets are alike, the configurations are equal, or fail alike. -/
theorem configuration_eq_of_alike {settings : Settings} {secrets secrets' : Secrets}
    (h : ∀ name ∈ t.namedSecrets,
      Option.Rel (Secret.Alike settings.secretStyle) secrets[name]? secrets'[name]?) :
    t.configuration secrets settings = t.configuration secrets' settings := by
  rw [configuration, configuration]
  refine bind_congr_ok fun plan hr => ?_
  have hsinks : plan.sinks secrets settings = plan.sinks secrets' settings :=
    mapM_congr fun o ho => Output.Agrees.sink_eq (fun name hname =>
      h name (mem_namedSecrets hr ho hname)) plan
  rw [Plan.elements, Plan.elements, hsinks]

/-- **A configuration shows little of its secrets.** It is the same, text or fault, for secrets
that are alike where an output that some pipeline names has them. So it does not depend on the
values that are never written, on keys that do not matter, or on secrets of other outputs. -/
theorem configuration_independent (t : Topology) (settings : Settings) :
    (∀ secrets secrets' : Secrets,
      (∀ name ∈ t.namedSecrets,
        Option.Rel (Secret.Alike settings.secretStyle) secrets[name]? secrets'[name]?) →
      t.configuration secrets settings = t.configuration secrets' settings) ∧
    (∀ (secrets : Secrets) (name key : String) (secret : Secret) (value : ByteArray),
      secrets[name]? = some secret → key ∉ SecretKey.written →
      key ∈ secret ∨ key ∉ SecretKey.all →
      t.configuration (secrets.insert name (secret.insert key value)) settings =
        t.configuration secrets settings) ∧
    ∀ (secrets : Secrets) (name : String) (secret : Secret), name ∉ t.namedSecrets →
      t.configuration (secrets.insert name secret) settings = t.configuration secrets settings := by
  have hrefl : ∀ found : Option Secret,
      Option.Rel (Secret.Alike settings.secretStyle) found found := by
    rintro (_ | secret)
    · exact .none
    · exact .some (.refl _ secret)
  refine ⟨fun _ _ h => configuration_eq_of_alike h, ?_, ?_⟩
  · intro secrets name key secret value hsecret hw hk
    refine configuration_eq_of_alike fun other _ => ?_
    rw [Std.ExtTreeMap.getElem?_insert]
    split
    · rename_i heq
      obtain rfl := Std.LawfulEqCmp.compare_eq_iff_eq.1 heq
      rw [hsecret]
      exact .some (.insert hw hk)
    · exact hrefl _
  · intro secrets name secret hname
    refine configuration_eq_of_alike fun other hother => ?_
    have hne : name ≠ other := fun heq => hname (heq ▸ hother)
    rw [Std.ExtTreeMap.getElem?_insert, if_neg (by simpa using hne)]
    exact hrefl _

/-- One pipeline to a server that asks for a user name and a password. -/
def guarded : Topology where
  pipelines := [{ name := "apps", inputs := ["application"], outputs := ["store"] }]
  outputs := [{ name := "store", type := .http, url := some "http://web", secret := some "login" }]

/-- A secret with a password, trusted certificates and a value under another key. -/
def login (password certificates remark : String) : Secret :=
  (∅ : Secret)
    |>.insert SecretKey.username "ann".toUTF8
    |>.insert SecretKey.password password.toUTF8
    |>.insert SecretKey.trustedCa certificates.toUTF8
    |>.insert "remark" remark.toUTF8

/-- Neither the password nor the certificates are shown. -/
theorem configuration_guarded :
    guarded.namedSecrets = ["login"] ∧
      (login "one" "old" "a").Alike .reference (login "two" "new" "b") ∧
      guarded.configuration ((∅ : Secrets).insert "login" (login "one" "old" "a")) {} =
        guarded.configuration ((∅ : Secrets).insert "login" (login "two" "new" "b")) {} := by
  have hnamed : guarded.namedSecrets = ["login"] := by decide +kernel
  have halike : (login "one" "old" "a").Alike .reference (login "two" "new" "b") :=
    ⟨by decide +kernel, by decide +kernel, by decide +kernel⟩
  refine ⟨hnamed, halike,
    (configuration_independent guarded {}).1 _ _ fun name hname => ?_⟩
  rw [hnamed, List.mem_singleton] at hname
  rw [hname, Std.ExtTreeMap.getElem?_insert_self, Std.ExtTreeMap.getElem?_insert_self]
  exact .some halike

end Topology

end LogForwarding
