/-
# What a command line asks for

A command line is made of options, a verb and further options. What it asks for
depends on which options it gives, with which values, and not on their order or
on how they are spelled: `SettingsOf` says which settings they make, `Makes`
which request, and `Asks` puts the parts together. Reading a command line from
left to right finds what it asks for, and is refused where it asks for nothing.

Key definitions: `Command.Chosen`, `Command.SettingsOf`, `Command.Makes`,
`Command.Asks`.
Key theorems: `Command.makes_generate_iff`, `Command.ofArgs_eq_ok_iff`,
`Command.asks_iff`.
-/
import LogForwarding.Proofs.Command.Words

namespace LogForwarding.Command

/-- The word that stands for the verb. -/
def Verb.name : Verb → String
  | generate => "generate"
  | validate => "validate"

/-- The value of an option: what it is given, or the default. -/
def Chosen (options : List (Flag × String)) (flag : Flag) (default value : String) : Prop :=
  (flag, value) ∈ options ∨ (∀ given, (flag, given) ∉ options) ∧ value = default

/-- The text is a number in decimal digits that is below 2^64, perhaps with a plus sign. -/
def SpellsNumber (text : String) (n : Nat) : Prop :=
  ∃ digits, (text = String.ofList digits ∨ text = "+" ++ String.ofList digits) ∧ digits ≠ [] ∧
    (∀ c ∈ digits, c.isDigit) ∧ n = Nat.ofDigitChars 10 digits 0 ∧ n < Nat.pow 2 64

/-- The settings that the options make. -/
structure SettingsOf (options : List (Flag × String)) (settings : Settings) : Prop where
  /-- Values are written only if this is asked for. -/
  style : settings.secretStyle =
    if .inlineSecrets ∈ options.map Prod.fst then .inline else .reference
  /-- The directory is the one that is given. -/
  secretsDir : Chosen options .secretsDir "/var/run/ocp-collector/secrets" settings.secretsDir
  /-- The age is the number that is given. -/
  auditIgnoreOlderSecs : ∃ text, Chosen options .auditIgnoreOlderSecs "600" text ∧
    SpellsNumber text settings.auditIgnoreOlderSecs

/-- The request that a verb with options makes. -/
inductive Makes (options : List (Flag × String)) : Verb → Request → Prop where
  /-- To generate needs a topology; the options decide on all else. -/
  | generate {topology : String} {secrets out : Option String} {settings : Settings}
      (htopology : (.topology, topology) ∈ options)
      (hsecrets : ∀ path, secrets = some path ↔ (.secrets, path) ∈ options)
      (hout : ∀ path, out = some path ↔ (.out, path) ∈ options)
      (hsettings : SettingsOf options settings) :
      Makes options .generate (.generate topology secrets out settings)
  /-- To validate needs a topology, and takes no other option of its own. -/
  | validate {topology : String} (htopology : (.topology, topology) ∈ options)
      (honly : ∀ option ∈ options, option.1 = .topology ∨ option.1 = .logLevel) :
      Makes options .validate (.validate topology)

/-- The words of a command line ask for something: options, a verb and further options, which may
be followed by two dashes. Before the verb there is at most the filter for log messages, and after
the verb it counts more. -/
inductive Asks : List String → Invocation → Prop where
  | intro {before after : List (Flag × String)} {spelled spelled' ends : List String}
      {verb : Verb} {outer level : String} {request : Request}
      (hbefore : GivesAll before spelled) (hafter : GivesAll after spelled')
      (honly : ∀ option ∈ before, option.1 = .logLevel) (hends : ends = [] ∨ ends = ["--"])
      (houter : Chosen before .logLevel "warn" outer)
      (hlevel : Chosen after .logLevel outer level) (hrequest : Makes after verb request) :
      Asks (spelled ++ verb.name :: (spelled' ++ ends)) ⟨level, request⟩

/-! ### Values of options -/

theorem digits64?_eq_some_iff {digits : List Char} {n : Nat} :
    digits64? digits = some n ↔
      digits ≠ [] ∧ (∀ c ∈ digits, c.isDigit) ∧ n = Nat.ofDigitChars 10 digits 0 ∧
        n < Nat.pow 2 64 := by
  simp only [digits64?, Option.ite_none_right_eq_some, List.all_eq_true, Option.some.injEq]
  constructor
  · rintro ⟨⟨hne, hdigits⟩, hlt, rfl⟩
    exact ⟨hne, hdigits, rfl, hlt⟩
  · rintro ⟨hne, hdigits, rfl, hlt⟩
    exact ⟨⟨hne, hdigits⟩, hlt, rfl⟩

theorem number64?_eq_some_iff {text : String} {n : Nat} :
    number64? text = some n ↔ SpellsNumber text n := by
  have hsign : ∀ digits : List Char, (∀ c ∈ digits, c.isDigit = true) →
      digits.head? ≠ some '+' := by
    intro digits hdigits hhead
    exact absurd (hdigits _ (List.mem_of_head? hhead)) (by decide)
  unfold number64?
  split
  · rename_i digits htext
    rw [digits64?_eq_some_iff]
    constructor
    · exact fun h => ⟨digits, .inr (String.ext (by simp [htext])), h⟩
    · rintro ⟨digits', rfl | rfl, h⟩
      · rw [String.toList_ofList] at htext
        exact absurd (by rw [htext, List.head?_cons]) (hsign digits' h.2.1)
      · obtain rfl : digits' = digits := by simpa using htext
        exact h
  · rename_i hplus
    rw [digits64?_eq_some_iff]
    constructor
    · exact fun h => ⟨text.toList, .inl String.ofList_toList.symm, h⟩
    · rintro ⟨digits', rfl | rfl, h⟩
      · rwa [String.toList_ofList]
      · exact absurd (by simp) (hplus digits')

theorem lookup_eq_some_iff_mem {options : List (Flag × String)} {flag : Flag} {value : String}
    (h : (options.map Prod.fst).Nodup) :
    options.lookup flag = some value ↔ (flag, value) ∈ options := by
  rw [List.lookup_eq_some_iff]
  constructor
  · rintro ⟨before, after, rfl, -⟩
    simp
  · intro hmem
    obtain ⟨before, after, rfl⟩ := List.append_of_mem hmem
    refine ⟨before, after, rfl, fun option hoption => bne_iff_ne.2 fun heq => ?_⟩
    rw [List.map_append, List.nodup_append'] at h
    exact h.2.2 (List.mem_map.2 ⟨option, hoption, heq.symm⟩) (by simp)

theorem get?_reverse_eq_some_iff {options : List (Flag × String)} {flag : Flag} {value : String}
    (h : (options.map Prod.fst).Nodup) :
    Given.get? options.reverse flag = some value ↔ (flag, value) ∈ options := by
  have hreverse : (options.reverse.map Prod.fst).Nodup := by
    rwa [List.map_reverse, List.nodup_reverse]
  rw [Given.get?, lookup_eq_some_iff_mem hreverse, List.mem_reverse]

theorem chosen_iff {options : List (Flag × String)} {flag : Flag} {default value : String}
    (h : (options.map Prod.fst).Nodup) :
    Chosen options flag default value ↔
      value = (Given.get? options.reverse flag).getD default := by
  simp only [Chosen, ← get?_reverse_eq_some_iff h]
  cases hget : Given.get? options.reverse flag with
  | none => simp
  | some given => simp [eq_comm]

/-! ### Requests -/

theorem ofGiven_generate_eq_ok_iff {given : Given} {request : Request} :
    Request.ofGiven .generate given = .ok request ↔
      ∃ topology n, given.get? .topology = some topology ∧
        number64? ((given.get? .auditIgnoreOlderSecs).getD "600") = some n ∧
        request = .generate topology (given.get? .secrets) (given.get? .out) {
          secretStyle := if (given.get? .inlineSecrets).isSome then .inline else .reference
          secretsDir := (given.get? .secretsDir).getD "/var/run/ocp-collector/secrets"
          auditIgnoreOlderSecs := n } := by
  have hdefault : number64? "600" = some 600 := by decide
  unfold Request.ofGiven
  cases given.get? .topology with
  | none => simp
  | some topology =>
    cases given.get? .auditIgnoreOlderSecs with
    | none => simpa [hdefault] using eq_comm
    | some text =>
      cases h : number64? text with
      | none => simp [h]
      | some n => simpa [h] using eq_comm

theorem ofGiven_validate_eq_ok_iff {given : Given} {request : Request} :
    Request.ofGiven .validate given = .ok request ↔
      ∃ topology, given.get? .topology = some topology ∧ request = .validate topology := by
  unfold Request.ofGiven
  cases given.get? .topology with
  | none => simp
  | some topology => simpa using eq_comm

section

variable {options : List (Flag × String)} {request : Request}

theorem makes_generate_iff (h : (options.map Prod.fst).Nodup) :
    Makes options .generate request ↔ Request.ofGiven .generate options.reverse = .ok request := by
  have hstyle : (Given.get? options.reverse .inlineSecrets).isSome ↔
      .inlineSecrets ∈ options.map Prod.fst := by
    simp [Option.isSome_iff_exists, get?_reverse_eq_some_iff h]
  have hstyles := if_congr hstyle (rfl : SecretStyle.inline = .inline)
    (rfl : SecretStyle.reference = .reference)
  rw [ofGiven_generate_eq_ok_iff]
  constructor
  · rintro (⟨htopology, hsecrets, hout, hsettings⟩ | _)
    rename_i topology secrets out settings
    obtain ⟨text, htext, hn⟩ := hsettings.auditIgnoreOlderSecs
    have hsecrets : secrets = Given.get? options.reverse .secrets :=
      Option.ext fun path => (hsecrets path).trans (get?_reverse_eq_some_iff h).symm
    have hout : out = Given.get? options.reverse .out :=
      Option.ext fun path => (hout path).trans (get?_reverse_eq_some_iff h).symm
    refine ⟨topology, settings.auditIgnoreOlderSecs, (get?_reverse_eq_some_iff h).2 htopology,
      ?_, ?_⟩
    · rw [← (chosen_iff h).1 htext]
      exact number64?_eq_some_iff.2 hn
    · rw [hstyles, ← (chosen_iff h).1 hsettings.secretsDir, ← hsettings.style, ← hsecrets, ← hout]
  · rintro ⟨topology, n, htopology, hn, rfl⟩
    refine .generate ((get?_reverse_eq_some_iff h).1 htopology)
      (fun path => get?_reverse_eq_some_iff h) (fun path => get?_reverse_eq_some_iff h) ?_
    exact ⟨hstyles, (chosen_iff h).2 rfl, _, (chosen_iff h).2 rfl, number64?_eq_some_iff.1 hn⟩

theorem makes_validate_iff (h : (options.map Prod.fst).Nodup) :
    Makes options .validate request ↔
      (∀ option ∈ options, option.1 = .topology ∨ option.1 = .logLevel) ∧
        Request.ofGiven .validate options.reverse = .ok request := by
  rw [ofGiven_validate_eq_ok_iff]
  constructor
  · rintro (_ | ⟨htopology, honly⟩)
    exact ⟨honly, _, (get?_reverse_eq_some_iff h).2 htopology, rfl⟩
  · rintro ⟨honly, topology, htopology, rfl⟩
    exact .validate ((get?_reverse_eq_some_iff h).1 htopology) honly

end

/-! ### Command lines -/

theorem Verb.ofName?_eq_some_iff {name : String} {verb : Verb} :
    Verb.ofName? name = some verb ↔ name = verb.name := by
  constructor
  · intro h
    unfold Verb.ofName? at h
    split_ifs at h <;> cases h <;> assumption
  · rintro rfl
    cases verb <;> rfl

/-- A command line is read up to its verb, and then from there to its end. -/
theorem ofArgs_eq_ok_iff {args : List String} {invocation : Invocation} :
    Invocation.ofArgs args = .ok invocation ↔
      ∃ before verb words given, readFlags none [] args = .ok (before, verb.name :: words) ∧
        readFlags (some verb) [] words = .ok (given, []) ∧
        Request.ofGiven verb given = .ok invocation.request ∧
        invocation.logLevel =
          (given.get? .logLevel).getD ((before.get? .logLevel).getD "warn") := by
  constructor
  · intro h
    unfold Invocation.ofArgs at h
    obtain ⟨⟨before, words⟩, hread, h⟩ := bind_eq_ok_iff.1 h
    dsimp only at h
    split at h
    · cases h
    · cases h
    · cases h
    · cases h
    · rename_i name words _ _ _
      split at h
      · cases h
      · rename_i verb hverb
        obtain ⟨⟨given, rest⟩, hread', h⟩ := bind_eq_ok_iff.1 h
        dsimp only at h
        split_ifs at h with hrest
        · cases h
        obtain ⟨request, hrequest, h⟩ := bind_eq_ok_iff.1 h
        cases h
        rw [Verb.ofName?_eq_some_iff.1 hverb] at hread
        rw [not_not.1 hrest] at hread'
        exact ⟨before, verb, words, given, hread, hread', hrequest, rfl⟩
  · rintro ⟨before, verb, words, given, hread, hread', hrequest, hlevel⟩
    obtain ⟨level, request⟩ := invocation
    dsimp only at hrequest hlevel
    rw [Invocation.ofArgs, hread, hlevel]
    cases verb <;>
      simp [Verb.name, Verb.ofName?, bind, Except.bind, hread', hrequest, pure, Except.pure]

theorem isPlain_name (verb : Verb) : IsPlain verb.name := by
  unfold IsPlain
  cases verb <;> decide

theorem accepts_of_ne {option : Flag × String} (h : option.1 ≠ .auditIgnoreOlderSecs) :
    option.1.accepts option.2 := by
  simp [Flag.accepts, h]

/-- An option can have the value with which it makes a request. -/
theorem Makes.accepts {options : List (Flag × String)} {verb : Verb} {request : Request}
    (hmakes : Makes options verb request) (h : (options.map Prod.fst).Nodup) :
    ∀ option ∈ options, option.1.accepts option.2 := by
  intro option hoption
  by_cases hflag : option.1 = .auditIgnoreOlderSecs
  · cases hmakes with
    | generate htopology hsecrets hout hsettings =>
      obtain ⟨text, htext, hn⟩ := hsettings.auditIgnoreOlderSecs
      obtain ⟨flag, value⟩ := option
      cases hflag
      rw [chosen_iff h, (get?_reverse_eq_some_iff h).2 hoption, Option.getD_some] at htext
      rw [htext, ← number64?_eq_some_iff] at hn
      simp [Flag.accepts, hn]
    | validate htopology honly =>
      obtain heq | heq := honly option hoption <;> cases hflag.symm.trans heq
  · exact accepts_of_ne hflag

/-- Every option can stand after a verb with which it makes a request. -/
theorem Makes.belongsTo {options : List (Flag × String)} {verb : Verb} {request : Request}
    (hmakes : Makes options verb request) :
    ∀ option ∈ options, option.1.belongsTo (some verb) := by
  rintro ⟨flag, value⟩ hoption
  cases hmakes with
  | generate => cases flag <;> rfl
  | validate htopology honly =>
    obtain rfl | rfl := honly _ hoption <;> rfl

theorem GivesAll.ne_help {options : List (Flag × String)} {words : List String}
    (h : GivesAll options words) : ∀ option ∈ options, option.1 ≠ .help := by
  obtain ⟨-, parts, -, hparts⟩ := h
  intro option hoption
  obtain ⟨part, -, hpart⟩ := exists_mem_of_forall₂ hparts.flip hoption
  cases hpart with
  | joined hi hh => exact hh
  | apart hi hh => exact hh
  | switch => decide

theorem eq_logLevel_of_belongsTo {flag : Flag} (hh : flag ≠ .help) (h : flag.belongsTo none) :
    flag = .logLevel := by
  cases flag <;> first | rfl | contradiction

theorem eq_of_belongsTo_validate {flag : Flag} (hh : flag ≠ .help)
    (h : flag.belongsTo (some .validate)) : flag = .topology ∨ flag = .logLevel := by
  cases flag <;> first | exact .inl rfl | exact .inr rfl | contradiction

/-- What a verb makes of options that can stand after it is the request that is read. -/
theorem makes_iff {options : List (Flag × String)} {words : List String} {verb : Verb}
    {request : Request} (hgives : GivesAll options words)
    (hplaces : ∀ option ∈ options, option.1.belongsTo (some verb)) :
    Makes options verb request ↔ Request.ofGiven verb options.reverse = .ok request := by
  cases verb with
  | generate => exact makes_generate_iff hgives.1
  | validate =>
    refine (makes_validate_iff hgives.1).trans (and_iff_right fun option hoption => ?_)
    exact eq_of_belongsTo_validate (hgives.ne_help option hoption) (hplaces option hoption)

/-- What a command line asks for is found from left to right. -/
theorem Asks.ofArgs_eq {args : List String} {invocation : Invocation}
    (h : Asks args invocation) : Invocation.ofArgs args = .ok invocation := by
  obtain ⟨hbefore, hafter, honly, hends, houter, hlevel, hrequest⟩ := h
  rename_i before after spelled spelled' ends verb outer level request
  have hplaces : ∀ option ∈ before, option.1.belongsTo none := by
    intro option hoption
    rw [honly option hoption]
    rfl
  have hvalues : ∀ option ∈ before, option.1.accepts option.2 := fun option hoption =>
    accepts_of_ne (by simp [honly option hoption])
  have hverb : Stops [] (verb.name :: (spelled' ++ ends)) := .plain (isPlain_name verb)
  have hstops : Stops ends [] := by
    obtain rfl | rfl := hends
    · exact .nil
    · exact .dashes
  have hread := readFlags_nil_eq_ok_iff.2 ⟨before, spelled, [], rfl, hbefore, hverb, hplaces,
    hvalues, rfl⟩
  have hread' := readFlags_nil_eq_ok_iff.2 ⟨after, spelled', ends, rfl, hafter, hstops,
    hrequest.belongsTo, hrequest.accepts hafter.1, rfl⟩
  rw [List.append_nil] at hread'
  have hmade := (makes_iff hafter hrequest.belongsTo).1 hrequest
  refine ofArgs_eq_ok_iff.2 ⟨_, verb, _, _, hread, hread', hmade, ?_⟩
  rw [← (chosen_iff hbefore.1).1 houter, ← (chosen_iff hafter.1).1 hlevel]

/-- What is found in a command line from left to right is what it asks for. -/
theorem asks_of_ofArgs {args : List String} {invocation : Invocation}
    (h : Invocation.ofArgs args = .ok invocation) : Asks args invocation := by
  obtain ⟨before, verb, words, given, hread, hread', hrequest, hlevel⟩ := ofArgs_eq_ok_iff.1 h
  obtain ⟨before, spelled, ends, rfl, hbefore, hends, hplaces, -, rfl⟩ :=
    readFlags_nil_eq_ok_iff.1 hread
  obtain ⟨after, spelled', ends', rfl, hafter, hends', hplaces', -, rfl⟩ :=
    readFlags_nil_eq_ok_iff.1 hread'
  obtain ⟨level, request⟩ := invocation
  rw [List.append_nil]
  -- Before the verb there is a word that is no option, so no dashes end the options there.
  cases hends with
  | plain =>
    have honly : ∀ option ∈ before, option.1 = .logLevel := fun option hoption =>
      eq_logLevel_of_belongsTo (hbefore.ne_help option hoption) (hplaces option hoption)
    have hdashes : ends' = [] ∨ ends' = ["--"] := by
      cases hends' with
      | nil => exact .inl rfl
      | dashes => exact .inr rfl
    exact .intro hbefore hafter honly hdashes ((chosen_iff hbefore.1).2 rfl)
      ((chosen_iff hafter.1).2 hlevel) ((makes_iff hafter hplaces').2 hrequest)

/-- **Reading from left to right finds what a command line asks for**, and nothing where it asks
for nothing. -/
theorem asks_iff {args : List String} {invocation : Invocation} :
    Asks args invocation ↔ Invocation.ofArgs args = .ok invocation :=
  ⟨Asks.ofArgs_eq, asks_of_ofArgs⟩

end LogForwarding.Command
