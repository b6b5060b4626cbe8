/-
# Texts of secrets in JSON

Secrets in JSON are a dictionary of dictionaries of strings. A name may be
given more than once, and so may a key under it: the last object of a name
counts, and in it the last string of a key. The string is kept as its bytes,
and where it is needed as text these are read back as the string, whatever its
characters are.

So no value of such secrets is ever refused for its bytes, and a user name, a
password or a path in a credential is what the text of the secrets gives.

Key definitions: `GivenSecrets`, `GivenSecrets.Spelled`, `GivenSecrets.text?`,
`Secrets.ofGiven`.
Key theorems: `Secrets.ofJson_eq_ok_iff`, `Secret.stores_ofGiven_iff`,
`Secrets.configuration_ofGiven_ne`, `Secrets.texts_given`.
-/
import LogForwarding.Proofs.Configuration
import LogForwarding.Proofs.Credential.Choice
import LogForwarding.Proofs.Json.Dictionaries
import LogForwarding.Proofs.Resolution.Defects
import LogForwarding.Proofs.Spelling

namespace LogForwarding

open Json

/-- The objects that a text gives for secrets, each under a name and with strings under keys, in
the order in which they stand. -/
abbrev GivenSecrets := List (String × List (String × String))

namespace GivenSecrets

/-- The text is one for them, perhaps with blanks around it. -/
def Spelled (given : GivenSecrets) (text : String) : Prop :=
  Padded (SpellsDictionary (SpellsDictionary SpellsString) given) text.toList

/-- The last string that is given for the key in the last object for the name. -/
def text? (given : GivenSecrets) (name key : String) : Option String :=
  (last? name given).bind (last? key)

end GivenSecrets

/-- The secret that keeps the last string of each key. -/
def Secret.ofGiven (texts : List (String × String)) : Secret := ofTexts (ofEntries id texts)

/-- The secrets that keep the last object of each name. -/
def Secrets.ofGiven (given : GivenSecrets) : Secrets := ofEntries Secret.ofGiven given

/-! ### Reading -/

namespace Secrets

variable {given : GivenSecrets} {secrets : Secrets} {text : String}

/-- **Secrets are read as they are spelled**, and from nothing else. -/
theorem ofJson_eq_ok_iff :
    ofJson text = .ok secrets ↔ ∃ given, ofGiven given = secrets ∧ given.Spelled text := by
  have htext : Accepts (Json.text "a string") (SpellsVia id SpellsString) :=
    spellsVia_id ▸ accepts_text "a string"
  have hexact : Exact (Json.text "a string") (SpellsVia id SpellsString) :=
    spellsVia_id ▸ exact_text "a string"
  have haccepts := accepts_dictionary ((accepts_dictionary htext).map Secret.ofTexts)
  have hexacts := exact_dictionary ((exact_dictionary hexact).map Secret.ofTexts)
  constructor
  · intro h
    exact padded_spellsVia_iff.1 (hexacts.parse h)
  · intro h
    exact haccepts.parse (padded_spellsVia_iff.2 h)

end Secrets

/-! ### What is kept -/

/-- Under a key stand the bytes of its last string. -/
theorem Secret.getElem?_ofGiven (texts : List (String × String)) (key : String) :
    (Secret.ofGiven texts)[key]? = (last? key texts).map String.toUTF8 := by
  rw [ofGiven, ofTexts, Std.ExtTreeMap.getElem?_map, getElem?_ofEntries, Option.map_id]
  rfl

/-- A key stands for its last string: no other text has the same bytes. -/
theorem Secret.stores_ofGiven_iff {texts : List (String × String)} {key value : String} :
    (Secret.ofGiven texts).Stores key value ↔ last? key texts = some value := by
  rw [Stores, getElem?_ofGiven, Option.map_eq_some_iff]
  constructor
  · rintro ⟨last, hlast, hbytes⟩
    rw [hlast, String.toByteArray_inj.1 hbytes]
  · exact fun hlast => ⟨value, hlast, rfl⟩

/-- Whatever stands under a key is a text. -/
theorem Secret.exists_stores_ofGiven {texts : List (String × String)} {key : String}
    (h : key ∈ Secret.ofGiven texts) : ∃ value, (Secret.ofGiven texts).Stores key value := by
  rw [Std.ExtTreeMap.mem_iff_isSome_getElem?, getElem?_ofGiven, Option.isSome_map,
    Option.isSome_iff_exists] at h
  obtain ⟨value, hvalue⟩ := h
  exact ⟨value, stores_ofGiven_iff.2 hvalue⟩

namespace Secrets

variable {given : GivenSecrets} {secrets : Secrets} {secret : Secret} {text name : String}

/-- A name stands for its last object. -/
theorem getElem?_ofGiven_eq_some_iff :
    (ofGiven given)[name]? = some secret ↔
      ∃ texts, last? name given = some texts ∧ Secret.ofGiven texts = secret := by
  rw [ofGiven, getElem?_ofEntries, Option.map_eq_some_iff]

theorem text?_of_stores {key value : String} (h : (ofGiven given)[name]? = some secret)
    (hstores : secret.Stores key value) : given.text? name key = some value := by
  obtain ⟨texts, htexts, rfl⟩ := getElem?_ofGiven_eq_some_iff.1 h
  rw [GivenSecrets.text?, htexts, Option.bind_some]
  exact Secret.stores_ofGiven_iff.1 hstores

/-! ### Credentials -/

/-- No value is refused for its bytes. -/
theorem credential_ofGiven_ne (given : GivenSecrets) (o : Output) (output key : String) :
    o.credential (ofGiven given) ≠ .error (.invalidSecretValue output key) := by
  intro h
  cases Output.credential_eq_iff_chooses.1 h with
  | invalidValue hname hsecret htakes hpresent hkind hkeys hbefore hkey =>
    obtain ⟨texts, _, rfl⟩ := getElem?_ofGiven_eq_some_iff.1 hsecret
    obtain ⟨value, hvalue⟩ := Secret.exists_stores_ofGiven (hpresent key (by simp [hkeys]))
    exact hkey value hvalue

/-- Nor is any topology. -/
theorem configuration_ofGiven_ne (given : GivenSecrets) (t : Topology) (settings : Settings)
    (output key : String) :
    t.configuration (ofGiven given) settings ≠ .error (.invalidSecretValue output key) := by
  intro h
  cases hplan : t.resolve with
  | error fault =>
    have hfault : t.configuration (ofGiven given) settings = .error fault :=
      bind_eq_error_iff.2 (.inl hplan)
    obtain rfl := Except.error.inj (hfault.symm.trans h)
    obtain hkind | hkind := (Topology.Defect.of_resolve hplan).kind_eq
    · cases hkind
    · cases hkind
  | ok plan =>
    rw [Topology.configuration_eq_error_iff hplan, Plan.sinks_eq_error_iff] at h
    obtain ⟨_, o, _, _, _, ho⟩ := h
    exact credential_ofGiven_ne given o output key ho

theorem text?_of_basic {o : Output} {username password : String}
    (h : o.credential (ofGiven given) = .ok (.basic name username password)) :
    o.secret = some name ∧ given.text? name SecretKey.username = some username ∧
      given.text? name SecretKey.password = some password := by
  cases Output.credential_eq_iff_chooses.1 h with
  | taken hname hsecret htakes hpresent hc =>
    cases hc with
    | basic husername hpassword =>
      exact ⟨hname, text?_of_stores hsecret husername, text?_of_stores hsecret hpassword⟩

theorem text?_of_cloudIam {o : Output} {path : String}
    (h : o.credential (ofGiven given) = .ok (.cloudIam name path)) :
    o.secret = some name ∧ given.text? name SecretKey.credentialsPath = some path := by
  cases Output.credential_eq_iff_chooses.1 h with
  | taken hname hsecret htakes hpresent hc =>
    cases hc with
    | cloudIam hpath => exact ⟨hname, text?_of_stores hsecret hpath⟩

/-- **What a text gives for secrets is what credentials hold.** Where secrets are read from JSON,
no configuration fails because a value is not text. However the text is taken to spell them, a user
name, a password or a path is the last string that is given for its key in the last object for the
name of the secret. -/
theorem texts_given (h : ofJson text = .ok secrets) :
    (∀ (t : Topology) settings output key,
      t.configuration secrets settings ≠ .error (.invalidSecretValue output key)) ∧
    (∃ given : GivenSecrets, given.Spelled text) ∧
    ∀ given : GivenSecrets, given.Spelled text → ∀ (o : Output) name,
      (∀ username password, o.credential secrets = .ok (.basic name username password) →
        o.secret = some name ∧ given.text? name SecretKey.username = some username ∧
          given.text? name SecretKey.password = some password) ∧
      ∀ path, o.credential secrets = .ok (.cloudIam name path) →
        o.secret = some name ∧ given.text? name SecretKey.credentialsPath = some path := by
  obtain ⟨given, rfl, hgiven⟩ := ofJson_eq_ok_iff.1 h
  refine ⟨configuration_ofGiven_ne given, ⟨given, hgiven⟩, fun other hother o name => ?_⟩
  have hsame : ofJson text = .ok (ofGiven other) := ofJson_eq_ok_iff.2 ⟨other, rfl, hother⟩
  obtain heq := Except.ok.inj (h.symm.trans hsame)
  rw [heq]
  exact ⟨fun username password => text?_of_basic, fun path => text?_of_cloudIam⟩

end Secrets

/-- A secret that is given twice, the second time with two user names. -/
def repeatedSecrets : GivenSecrets :=
  [("s", [("password", "old")]),
    ("s", [("username", "a"), ("password", "p"), ("username", "\x00é")])]

/-- They are spelled without blanks, and one character is escaped. -/
def repeatedText : String :=
  "\x7b\"s\":\x7b\"password\":\"old\"\x7d,\"s\":\x7b\"username\":\"a\",\"password\":\"p\"," ++
    "\"username\":\"\\u0000é\"\x7d\x7d"

theorem texts_given_repeatedText :
    ∃ secrets, Secrets.ofJson repeatedText = .ok secrets ∧
      (∀ (t : Topology) settings output key,
        t.configuration secrets settings ≠ .error (.invalidSecretValue output key)) ∧
      Output.credential ⟨"web", "web", .http, none, some "s", none⟩ secrets =
        .ok (.basic "s" "\x00é" "p") ∧
      repeatedSecrets.text? "s" SecretKey.username = some "\x00é" ∧
      repeatedSecrets.text? "s" SecretKey.password = some "p" := by
  have hplain : ∀ text ∈ ["s", "username", "password", "a", "p", "old"],
      ∀ c ∈ text.toList, IsPlain c := by
    simp [IsPlain]
  have hname : SpellsString "\x00é" "\"\\u0000é\"".toList := by
    have hzero : HexUnit '\x00'.toNat ['0', '0', '0', '0'] :=
      HexUnit.digits (i := 0) (j := 0) (k := 0) (l := 0) (.inl rfl) (.inl rfl) (.inl rfl)
        (.inl rfl)
    exact ⟨[['\\', 'u', '0', '0', '0', '0'], ['é']],
      .cons (.unit hzero) (.cons (.plain (by decide)) .nil), rfl⟩
  have hmember := fun key hkey value => spellsMember_self (hplain key hkey) value
  have hfirst : SpellsDictionary SpellsString [("password", "old")]
      "\x7b\"password\":\"old\"\x7d".toList :=
    ⟨[("password", "\"old\"".toList)],
      .cons ⟨rfl, spellsString_self (hplain "old" (by simp))⟩ .nil,
      [_], .cons (hmember "password" (by simp) _) .nil, .some⟩
  have hsecond : SpellsDictionary SpellsString
      [("username", "a"), ("password", "p"), ("username", "\x00é")]
      ("\x7b\"username\":\"a\",\"password\":\"p\",\"username\":\"\\u0000é\"\x7d").toList :=
    ⟨[("username", "\"a\"".toList), ("password", "\"p\"".toList),
        ("username", "\"\\u0000é\"".toList)],
      .cons ⟨rfl, spellsString_self (hplain "a" (by simp))⟩
        (.cons ⟨rfl, spellsString_self (hplain "p" (by simp))⟩ (.cons ⟨rfl, hname⟩ .nil)),
      [_, _, _], .cons (hmember "username" (by simp) _)
        (.cons (hmember "password" (by simp) _) (.cons (hmember "username" (by simp) _) .nil)),
      .some⟩
  have hspelled : repeatedSecrets.Spelled repeatedText :=
    Padded.self ⟨[("s", _), ("s", _)], .cons ⟨rfl, hfirst⟩ (.cons ⟨rfl, hsecond⟩ .nil),
      [_, _], .cons (hmember "s" (by simp) _) (.cons (hmember "s" (by simp) _) .nil), .some⟩
  have hread : Secrets.ofJson repeatedText = .ok (.ofGiven repeatedSecrets) :=
    Secrets.ofJson_eq_ok_iff.2 ⟨_, rfl, hspelled⟩
  have hcredential : Output.credential ⟨"web", "web", .http, none, some "s", none⟩
      (.ofGiven repeatedSecrets) = .ok (.basic "s" "\x00é" "p") := by rfl
  obtain ⟨hvalid, _, hlast⟩ := Secrets.texts_given hread
  obtain ⟨_, hgiven⟩ := (hlast _ hspelled _ "s").1 _ _ hcredential
  exact ⟨_, hread, hvalid, hcredential, hgiven⟩

end LogForwarding
