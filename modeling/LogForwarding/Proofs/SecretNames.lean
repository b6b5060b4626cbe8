/-
# Secrets are told apart

A value of a secret is referred to in two ways: by a variable of the
environment, and by a file. The name of the variable is made from an id that
different secrets may share, and that may itself end as the names of variables
do. But the keys of a login have names of one length, so the id can be read
off the variable; and resolution accepts no two secrets with one id. The path
of the file holds the whole name of the secret, in which there may be slashes;
there are none in a key, so the last slash ends the name.

Key definitions: `SecretKey.login`.
Key theorems: `environmentReference_eq_iff`, `Settings.secretFile_eq_iff`,
`Topology.secrets_apart`.
-/
import LogForwarding.Proofs.Independence

namespace LogForwarding

/-- The keys of which the values are referred to by variables. -/
def SecretKey.login : List String := [username, password]

/-! ### Variables -/

/-- The keys of a login have different names in variables, all of one length. -/
theorem variable_key_eq_iff {key key' : String} (hk : key ∈ SecretKey.login)
    (hk' : key' ∈ SecretKey.login) :
    (upperCase (componentId key)).toList.length = (upperCase (componentId key')).toList.length ∧
      (upperCase (componentId key) = upperCase (componentId key') ↔ key = key') := by
  have hall : ∀ k ∈ SecretKey.login, ∀ k' ∈ SecretKey.login,
      (upperCase (componentId k)).toList.length = (upperCase (componentId k')).toList.length ∧
        (upperCase (componentId k) = upperCase (componentId k') ↔ k = k') := by
    decide +kernel
  exact hall key hk key' hk'

/-- **A variable tells the id and the key.** -/
theorem environmentReference_eq_iff {secret secret' key key' : String}
    (hk : key ∈ SecretKey.login) (hk' : key' ∈ SecretKey.login) :
    environmentReference secret key = environmentReference secret' key' ↔
      environmentId secret = environmentId secret' ∧ key = key' := by
  obtain ⟨hlength, hkeys⟩ := variable_key_eq_iff hk hk'
  constructor
  · intro h
    unfold environmentReference at h
    rw [String.append_left_inj] at h
    have hlist := String.toList_append.symm.trans
      ((congrArg String.toList h).trans String.toList_append)
    -- The id may end as a key does, so it is told from the key by the length of the key.
    obtain ⟨hfront, hkey⟩ := List.append_inj' hlist hlength
    have hid := String.toList_injective hfront
    rw [String.append_left_inj, String.append_right_inj] at hid
    exact ⟨hid, hkeys.1 (String.toList_injective hkey)⟩
  · rintro ⟨hid, rfl⟩
    rw [environmentReference, environmentReference, hid]

/-! ### Files -/

/-- What stands after the last separator, and what before it, can be told from the whole. -/
theorem append_inj_of_notMem {α : Type} {sep : α} {a b x y : List α} (hx : sep ∉ x) (hy : sep ∉ y)
    (h : a ++ sep :: x = b ++ sep :: y) : a = b ∧ x = y := by
  rcases List.append_eq_append_iff.1 h with ⟨middle, hb, hm⟩ | ⟨middle, ha, hm⟩
  · cases middle with
    | nil => exact ⟨by simpa using hb.symm, (List.cons.inj hm).2⟩
    | cons c middle =>
      exfalso
      apply hx
      rw [(List.cons.inj hm).2]
      simp
  · cases middle with
    | nil => exact ⟨by simpa using ha, (List.cons.inj hm).2.symm⟩
    | cons c middle =>
      exfalso
      apply hy
      rw [(List.cons.inj hm).2]
      simp

/-- **A file tells the secret and the key**, if there is no slash in the key. -/
theorem Settings.secretFile_eq_iff (settings : Settings) {secret secret' key key' : String}
    (hk : '/' ∉ key.toList) (hk' : '/' ∉ key'.toList) :
    settings.secretFile secret key = settings.secretFile secret' key' ↔
      secret = secret' ∧ key = key' := by
  constructor
  · intro h
    have hlist := congrArg String.toList h
    simp only [secretFile, String.toList_append, List.append_assoc,
      List.append_cancel_left_eq] at hlist
    obtain ⟨hsecret, hkey⟩ := append_inj_of_notMem hk hk' hlist
    exact ⟨String.toList_injective hsecret, String.toList_injective hkey⟩
  · rintro ⟨rfl, rfl⟩
    rfl

/-! ### The secrets of a plan -/

/-- Secrets that outputs of a plan name are told apart by their ids. -/
theorem Plan.secret_eq_of_environmentId_eq {t : Topology} {plan : Plan}
    (h : t.resolve = .ok plan) {o o' : Output} (ho : o ∈ plan.outputs.list)
    (ho' : o' ∈ plan.outputs.list) {secret secret' : String} (hs : secret ∈ o.secret)
    (hs' : secret' ∈ o'.secret) (hid : environmentId secret = environmentId secret') :
    secret = secret' := by
  have hdeclared : ∀ {o : Output} {secret : String}, o ∈ plan.outputs.list → secret ∈ o.secret →
      secret ∈ t.allOutputs.filterMap Output.secret := by
    intro o secret ho hs
    obtain ⟨name, hname⟩ := Outputs.mem_list.1 ho
    have hall := (((Topology.isPlan_of_resolve h).outputs name o).1 hname).1
    exact List.mem_filterMap.2 ⟨o, hall, hs⟩
  have hdistinguished := (Topology.wellFormed_of_resolve h).distinguished
  exact hdistinguished secret (hdeclared ho hs) secret' (hdeclared ho' hs') hid

/-- **Secrets are told apart.** Where two outputs of a plan have values of secrets that are referred
to by one variable, they have one secret, and the keys are the same. Values that lie in one file
belong to one secret and one key, whatever the secrets are called. -/
theorem Topology.secrets_apart {t : Topology} {plan : Plan} (h : t.resolve = .ok plan) :
    (∀ o ∈ plan.outputs.list, ∀ o' ∈ plan.outputs.list,
      ∀ secret ∈ o.secret, ∀ secret' ∈ o'.secret,
      ∀ key ∈ SecretKey.login, ∀ key' ∈ SecretKey.login,
        environmentReference secret key = environmentReference secret' key' →
          secret = secret' ∧ key = key') ∧
    ∀ (settings : Settings) (secret secret' : String),
      ∀ key ∈ SecretKey.all, ∀ key' ∈ SecretKey.all,
        settings.secretFile secret key = settings.secretFile secret' key' →
          secret = secret' ∧ key = key' := by
  constructor
  · intro o ho o' ho' secret hs secret' hs' key hk key' hk' heq
    obtain ⟨hid, hkey⟩ := (environmentReference_eq_iff hk hk').1 heq
    exact ⟨Plan.secret_eq_of_environmentId_eq h ho ho' hs hs' hid, hkey⟩
  · intro settings secret secret' key hk key' hk' heq
    have hslash : ∀ k ∈ SecretKey.all, '/' ∉ k.toList := by decide +kernel
    exact (settings.secretFile_eq_iff (hslash key hk) (hslash key' hk')).1 heq

/-- Two outputs, of which the secret of one is called as a variable of the other. -/
def namesakes : Topology where
  outputs :=
    [{ name := "a", type := .http, url := some "http://a", secret := some "es" },
      { name := "b", type := .http, url := some "http://b", secret := some "ES/username" }]

/-- The plan of these outputs. -/
def namesakesPlan : Plan where
  pipelines := []
  outputs := (∅ : Outputs)
    |>.insert "a" ⟨"a", "a", .http, some "http://a", some "es", none⟩
    |>.insert "b" ⟨"b", "b", .http, some "http://b", some "ES/username", none⟩

/-- The id of one is the beginning of the other, and no variable and no file belongs to both. -/
theorem secrets_apart_namesakes :
    namesakes.resolve = .ok namesakesPlan ∧
      environmentReference "es" "username" = "$\x7bSECRET_ES_USERNAME\x7d" ∧
      environmentReference "ES/username" "password" =
        "$\x7bSECRET_ES_USERNAME_PASSWORD\x7d" ∧
      (∀ key ∈ SecretKey.login, ∀ key' ∈ SecretKey.login,
        environmentReference "es" key ≠ environmentReference "ES/username" key') ∧
      ∀ key ∈ SecretKey.all, ∀ key' ∈ SecretKey.all,
        Settings.secretFile {} "es" key ≠ Settings.secretFile {} "ES/username" key' := by
  have hresolve : namesakes.resolve = .ok namesakesPlan := by decide +kernel
  obtain ⟨hvariables, hfiles⟩ := Topology.secrets_apart hresolve
  have ha : ⟨"a", "a", .http, some "http://a", some "es", none⟩ ∈ namesakesPlan.outputs.list := by
    decide +kernel
  have hb : ⟨"b", "b", .http, some "http://b", some "ES/username", none⟩ ∈
      namesakesPlan.outputs.list := by
    decide +kernel
  refine ⟨hresolve, by decide +kernel, by decide +kernel, ?_, ?_⟩
  · intro key hk key' hk' heq
    exact absurd (hvariables _ ha _ hb _ rfl _ rfl key hk key' hk' heq).1 (by decide)
  · intro key hk key' hk' heq
    exact absurd (hfiles {} _ _ key hk key' hk' heq).1 (by decide)

end LogForwarding
