/-
# Words that give options

What the words of a command line say can be told without reading them one after
the other. An option is given by a word that names it and has the value in it,
by such a word and the value, or, if it takes none, by its name alone
(`Gives`). Options are given by such words in a row (`GivesAll`).

Reading finds just the options that the words give, up to a word that is no
option, or to two dashes at the end.

Key definitions: `Command.Names`, `Command.Gives`, `Command.GivesAll`,
`Command.Stops`.
Key theorems: `Command.Gives.readFlags_append`, `Command.of_readFlags`,
`Command.readFlags_nil_eq_ok_iff`.
-/
import LogForwarding.Command.Arguments
import LogForwarding.Proofs.FirstFault
import Mathlib.Data.List.Nodup

namespace LogForwarding.Command

/-- What stands after two dashes to name the option. -/
def Flag.name : Flag → String
  | logLevel => "log-level"
  | topology => "topology"
  | secrets => "secrets"
  | out => "out"
  | inlineSecrets => "inline-secrets"
  | secretsDir => "secrets-dir"
  | auditIgnoreOlderSecs => "audit-ignore-older-secs"
  | help => "help"

/-- The word names the option, and may have a value in it. -/
inductive Names : Flag → Option String → String → Prop where
  /-- Two dashes stand before the name. -/
  | long (flag : Flag) : Names flag none ("--" ++ flag.name)
  /-- An equals sign stands between the name and the value. -/
  | longWith (flag : Flag) (value : String) :
      Names flag (some value) ("--" ++ flag.name ++ "=" ++ value)
  /-- One option has a letter too. -/
  | letter : Names .out none "-o"
  /-- An equals sign can stand after the letter. -/
  | letterWith (value : String) : Names .out (some value) ("-o=" ++ value)
  /-- The value can stand right after the letter. -/
  | letterJoined {value : String} (hne : value ≠ "") (heq : value.toList.head? ≠ some '=') :
      Names .out (some value) ("-o" ++ value)

/-- The word is not taken for an option: it begins with no dash, or is one. -/
def IsPlain (word : String) : Prop := word.toList.head? = some '-' → word = "-"

/-- The words give the option the value. An option that takes none has the empty value. -/
inductive Gives : Flag × String → List String → Prop where
  /-- The value is in the word that names the option. -/
  | joined {flag : Flag} {value word : String} (hi : flag ≠ .inlineSecrets) (hh : flag ≠ .help)
      (hword : Names flag (some value) word) : Gives (flag, value) [word]
  /-- The value is the next word. -/
  | apart {flag : Flag} {value word : String} (hi : flag ≠ .inlineSecrets) (hh : flag ≠ .help)
      (hword : Names flag none word) (hvalue : IsPlain value) : Gives (flag, value) [word, value]
  /-- One option has no value. -/
  | switch : Gives (.inlineSecrets, "") ["--inline-secrets"]

/-- The words give the options, one after the other, and none twice. -/
def GivesAll (options : List (Flag × String)) (words : List String) : Prop :=
  (options.map Prod.fst).Nodup ∧
    ∃ parts, words = parts.flatten ∧ List.Forall₂ Gives options parts

/-! ### Reading a word -/

theorem Flag.ofLong?_eq_some_iff {text : String} {flag : Flag} :
    Flag.ofLong? text = some flag ↔ text = flag.name := by
  constructor
  · intro h
    unfold Flag.ofLong? at h
    split_ifs at h <;> cases h <;> assumption
  · rintro rfl
    cases flag <;> rfl

theorem looksLikeFlag_iff {word : String} : looksLikeFlag word = false ↔ IsPlain word := by
  rw [IsPlain, ← String.toList_inj, looksLikeFlag]
  split
  · rename_i hword
    simp [hword]
  · rename_i hword
    cases hlist : word.toList with
    | nil => simp
    | cons c rest =>
      cases rest with
      | nil => simp
      | cons d rest =>
        have hc : c ≠ '-' := fun hc => hword d rest (hc ▸ hlist)
        simp [hc]

/-- What stands after two dashes is read up to the first equals sign. -/
theorem ofString_of_dashes {word : String} {name rest : List Char} {flag : Flag}
    (hword : word.toList = '-' :: '-' :: (name ++ '=' :: rest)) (hname : '=' ∉ name)
    (hflag : Flag.ofLong? (String.ofList name) = some flag) :
    Word.ofString word = .flag flag (some (String.ofList rest)) := by
  have hall : ∀ c ∈ name, decide (c ≠ '=') = true := by
    intro c hc
    exact decide_eq_true fun heq => hname (heq ▸ hc)
  rw [Word.ofString, hword]
  split
  · rename_i heq
    simp at heq
  · rename_i read _ heq
    obtain rfl : name ++ '=' :: rest = read := (List.cons.inj (List.cons.inj heq).2).2
    rw [List.takeWhile_append_of_pos hall, List.dropWhile_append_of_pos hall]
    simp [hflag]
  · rename_i hother heq
    exact absurd (List.cons.inj (List.cons.inj heq).2).1.symm hother
  · rename_i hother _
    exact absurd rfl (hother _)

/-- What stands after the letter `o` is its value, without an equals sign in front. -/
theorem ofString_of_letter {word : String} {rest : List Char}
    (hword : word.toList = '-' :: 'o' :: rest) :
    Word.ofString word = .flag .out (letterValue rest) := by
  rw [Word.ofString, hword]
  rfl

theorem Names.ofString_eq {flag : Flag} {attached : Option String} {word : String}
    (h : Names flag attached word) : Word.ofString word = .flag flag attached := by
  cases h with
  | long => cases flag <;> rfl
  | longWith flag value =>
    have hname : '=' ∉ flag.name.toList := by cases flag <;> decide
    have hword : ("--" ++ flag.name ++ "=" ++ value).toList =
        '-' :: '-' :: (flag.name.toList ++ '=' :: value.toList) := by simp
    have hflag : Flag.ofLong? (String.ofList flag.name.toList) = some flag :=
      Flag.ofLong?_eq_some_iff.2 String.ofList_toList
    rw [ofString_of_dashes hword hname hflag, String.ofList_toList]
  | letter => rfl
  | letterWith value =>
    have hword : ("-o=" ++ value).toList = '-' :: 'o' :: '=' :: value.toList := by simp
    rw [ofString_of_letter hword]
    exact congrArg (Word.flag .out ∘ some) String.ofList_toList
  | @letterJoined value hne heq =>
    have hword : ("-o" ++ value).toList = '-' :: 'o' :: value.toList := by simp
    rw [ofString_of_letter hword, letterValue.eq_def]
    split
    · rename_i hnil
      exact absurd (String.toList_eq_nil_iff.1 hnil) hne
    · rename_i hequals
      exact absurd (by rw [hequals, List.head?_cons]) heq
    · rw [String.ofList_toList]

theorem names_letterValue {word : String} {rest : List Char}
    (hword : word.toList = '-' :: 'o' :: rest) : Names .out (letterValue rest) word := by
  rw [letterValue.eq_def]
  split
  · have ho : word = "-o" := String.ext hword
    exact ho ▸ .letter
  · rename_i value
    have ho : word = "-o=" ++ String.ofList value := String.ext (by simp [hword])
    exact ho ▸ .letterWith _
  · rename_i hne heq
    have ho : word = "-o" ++ String.ofList rest := String.ext (by simp [hword])
    refine ho ▸ .letterJoined (fun hnil => hne ?_) fun hhead => ?_
    · simpa using congrArg String.toList hnil
    · rw [String.toList_ofList] at hhead
      obtain ⟨value, hvalue⟩ := List.head?_eq_some_iff.1 hhead
      exact heq value hvalue

/-- A word with two dashes before the name of an option names it, with what stands after the
first equals sign as the value. -/
theorem names_of_dashes {word : String} {rest : List Char} {flag : Flag}
    (hword : word.toList = '-' :: '-' :: rest)
    (hflag : Flag.ofLong? (String.ofList (rest.takeWhile (· ≠ '='))) = some flag) :
    Names flag
      (match rest.dropWhile (· ≠ '=') with
        | [] => none
        | _ :: value => some (String.ofList value)) word := by
  have hname : rest.takeWhile (· ≠ '=') = flag.name.toList := by
    rw [← Flag.ofLong?_eq_some_iff.1 hflag, String.toList_ofList]
  have hrest := List.takeWhile_append_dropWhile (p := (· ≠ '=')) (l := rest)
  rw [hname] at hrest
  cases hdrop : rest.dropWhile (· ≠ '=') with
  | nil =>
    have hlong : word = "--" ++ flag.name := by
      rw [hdrop] at hrest
      exact String.ext (by simp [hword, ← hrest])
    exact hlong ▸ .long flag
  | cons c value =>
    have hc : c = '=' := by
      have hstop := List.head?_dropWhile_not (fun c => decide (c ≠ '=')) rest
      rw [hdrop] at hstop
      simpa using hstop
    have hlong : word = "--" ++ flag.name ++ "=" ++ String.ofList value := by
      rw [hdrop, hc] at hrest
      exact String.ext (by simp [hword, ← hrest])
    exact hlong ▸ .longWith flag _

theorem names_of_ofString {flag : Flag} {attached : Option String} {word : String}
    (h : Word.ofString word = .flag flag attached) : flag = .help ∨ Names flag attached word := by
  unfold Word.ofString at h
  split at h
  · cases h
  · rename_i rest _ hword
    dsimp only at h
    split at h
    · rename_i known hknown
      obtain ⟨rfl, rfl⟩ := Word.flag.inj h
      exact .inr (names_of_dashes hword hknown)
    · cases h
  · rename_i letter rest _ _ hword
    split at h
    · rename_i known hknown
      obtain ⟨rfl, rfl⟩ := Word.flag.inj h
      rw [Flag.ofLetter?] at hknown
      split_ifs at hknown with ho hhelp
      · cases hknown
        rw [ho] at hword
        exact .inr (names_letterValue hword)
      · cases hknown
        exact .inl rfl
    · cases h
  · cases h

/-- A word that looks like no option is none. -/
theorem ofString_of_plain {word : String} (h : IsPlain word) : Word.ofString word = .plain := by
  have hword := looksLikeFlag_iff.2 h
  unfold looksLikeFlag at hword
  split at hword
  · cases hword
  · rename_i hother
    unfold Word.ofString
    split
    · rename_i heq
      exact absurd heq (hother _ _)
    · rename_i heq
      exact absurd heq (hother _ _)
    · rename_i heq
      exact absurd heq (hother _ _)
    · rfl

theorem isPlain_of_ofString {word : String} (h : Word.ofString word = .plain) : IsPlain word := by
  rw [← looksLikeFlag_iff]
  unfold Word.ofString at h
  unfold looksLikeFlag
  split
  · rename_i heq
    rw [heq] at h
    split at h
    · cases h
    · dsimp only at h
      split at h <;> cases h
    · split at h <;> cases h
    · rename_i hother
      exact absurd rfl (hother _ _)
  · rfl

theorem eq_of_ofString_endOfFlags {word : String} (h : Word.ofString word = .endOfFlags) :
    word = "--" := by
  unfold Word.ofString at h
  split at h
  · rename_i heq
    exact String.ext heq
  · dsimp only at h
    split at h <;> cases h
  · split at h <;> cases h
  · cases h

theorem takesValue_iff {flag : Flag} :
    flag.takesValue = true ↔ flag ≠ .inlineSecrets ∧ flag ≠ .help := by
  cases flag <;> decide

/-- A word that names an option without a value, and does not ask for help, is its name. -/
theorem eq_of_names_none {flag : Flag} {word : String} (htakes : ¬ flag.takesValue)
    (hh : flag ≠ .help) (h : Names flag none word) :
    flag = .inlineSecrets ∧ word = "--inline-secrets" := by
  have hswitch : flag = .inlineSecrets := by
    rw [takesValue_iff, not_and_not_right] at htakes
    by_contra hne
    exact hh (htakes hne)
  subst hswitch
  cases h
  exact ⟨rfl, rfl⟩

/-- Words that give an option are read as this option. -/
theorem Gives.readFlags_append {verb : Option Verb} {given : Given} {flag : Flag} {value : String}
    {words rest : List String} (h : Gives (flag, value) words) (hverb : flag.belongsTo verb) :
    readFlags verb given (words ++ rest) = given.add flag value >>= (readFlags verb · rest) := by
  cases h with
  | joined hi hh hword =>
    rw [List.singleton_append, readFlags, hword.ofString_eq]
    simp [hverb, takesValue_iff.2 ⟨hi, hh⟩]
  | apart hi hh hword hvalue =>
    rw [List.cons_append, List.singleton_append, readFlags, hword.ofString_eq]
    simp [hverb, takesValue_iff.2 ⟨hi, hh⟩, looksLikeFlag_iff.2 hvalue]
  | switch =>
    have hword : Word.ofString "--inline-secrets" = .flag .inlineSecrets none := rfl
    rw [List.singleton_append, readFlags, hword]
    simp [hverb, Flag.takesValue]

/-- Reading stops at a word that is no option, or after a word that ends the options. -/
inductive Stops : List String → List String → Prop where
  /-- There are no more words. -/
  | nil : Stops [] []
  /-- The next word is no option. -/
  | plain {word : String} {rest : List String} (h : IsPlain word) : Stops [] (word :: rest)
  /-- The options have been ended. -/
  | dashes : Stops ["--"] []

theorem Stops.readFlags_append {verb : Option Verb} {given : Given} {ends rest : List String}
    (h : Stops ends rest) : readFlags verb given (ends ++ rest) = .ok (given, rest) := by
  cases h with
  | nil => rfl
  | plain hword => rw [List.nil_append, readFlags, ofString_of_plain hword]
  | dashes =>
    have hword : Word.ofString "--" = .endOfFlags := rfl
    rw [List.append_nil, readFlags, hword]
    rfl

/-- The words from which something is read either stop the reading or give an option first. -/
theorem of_readFlags {verb : Option Verb} {given given' : Given} {words rest : List String}
    (h : readFlags verb given words = .ok (given', rest)) :
    (given' = given ∧ ∃ ends, words = ends ++ rest ∧ Stops ends rest) ∨
      ∃ flag value first more next, words = first ++ more ∧ first ≠ [] ∧
        Gives (flag, value) first ∧ flag.belongsTo verb ∧ given.add flag value = .ok next ∧
        readFlags verb next more = .ok (given', rest) := by
  unfold readFlags at h
  split at h
  · cases h
    exact .inl ⟨rfl, [], rfl, .nil⟩
  · rename_i word more
    split at h
    · rename_i hword
      cases h
      exact .inl ⟨rfl, [], rfl, .plain (isPlain_of_ofString hword)⟩
    · rename_i hword
      split at h
      · rename_i hmore
        cases h
        rw [eq_of_ofString_endOfFlags hword, hmore]
        exact .inl ⟨rfl, ["--"], rfl, .dashes⟩
      · cases h
    · cases h
    · rename_i flag attached hword
      have hnames := names_of_ofString hword
      right
      split_ifs at h with hverb htakes hattached hhelp
      · obtain ⟨hi, hh⟩ := takesValue_iff.1 htakes
        replace hnames := hnames.resolve_left hh
        cases attached with
        | some value =>
          obtain ⟨next, hadd, hmore⟩ := bind_eq_ok_iff.1 h
          exact ⟨flag, value, [word], more, next, rfl, by simp, .joined hi hh hnames, hverb, hadd,
            hmore⟩
        | none =>
          cases more with
          | nil => cases h
          | cons value more =>
            dsimp only at h
            split_ifs at h with hvalue
            obtain ⟨next, hadd, hmore⟩ := bind_eq_ok_iff.1 h
            have hplain := looksLikeFlag_iff.1 (Bool.eq_false_iff.2 hvalue)
            exact ⟨flag, value, [word, value], more, next, rfl, by simp,
              .apart hi hh hnames hplain, hverb, hadd, hmore⟩
      · replace hnames := hnames.resolve_left hhelp
        rw [Option.not_isSome_iff_eq_none.1 hattached] at hnames
        obtain ⟨rfl, rfl⟩ := eq_of_names_none htakes hhelp hnames
        obtain ⟨next, hadd, hmore⟩ := bind_eq_ok_iff.1 h
        exact ⟨.inlineSecrets, "", ["--inline-secrets"], more, next, rfl, by simp, .switch, hverb,
          hadd, hmore⟩

/-! ### Options one after the other -/

/-- The options, added one after the other. -/
def Given.addAll (given : Given) : List (Flag × String) → Except Refusal Given
  | [] => .ok given
  | (flag, value) :: rest => given.add flag value >>= (·.addAll rest)

/-- Options are read from words that give them, up to where the reading stops. -/
theorem readFlags_eq_ok_iff {verb : Option Verb} {given given' : Given}
    {words rest : List String} :
    readFlags verb given words = .ok (given', rest) ↔
      ∃ options parts ends, words = parts.flatten ++ (ends ++ rest) ∧ Stops ends rest ∧
        List.Forall₂ Gives options parts ∧ (∀ option ∈ options, option.1.belongsTo verb) ∧
        given.addAll options = .ok given' := by
  constructor
  · intro h
    induction hn : words.length using Nat.strongRecOn generalizing words given with
    | _ n ih =>
      obtain ⟨rfl, ends, rfl, hends⟩ | ⟨flag, value, first, more, next, rfl, hfirst, hgives, hverb,
        hadd, hmore⟩ := of_readFlags h
      · exact ⟨[], [], ends, rfl, hends, .nil, by simp, rfl⟩
      · have hlt : more.length < n := by
          have hpos := List.length_pos_iff.2 hfirst
          rw [← hn, List.length_append]
          omega
        obtain ⟨options, parts, ends, rfl, hends, hparts, hverbs, hgiven⟩ := ih _ hlt hmore rfl
        refine ⟨(flag, value) :: options, first :: parts, ends, by simp, hends,
          .cons hgives hparts, List.forall_mem_cons.2 ⟨hverb, hverbs⟩, ?_⟩
        rw [Given.addAll, hadd]
        exact hgiven
  · rintro ⟨options, parts, ends, rfl, hends, hparts, hverbs, hgiven⟩
    induction hparts generalizing given with
    | nil =>
      cases hgiven
      exact hends.readFlags_append
    | @cons option part options parts hpart hparts ih =>
      obtain ⟨hverb, hverbs⟩ := List.forall_mem_cons.1 hverbs
      obtain ⟨next, hadd, hrest⟩ := bind_eq_ok_iff.1 hgiven
      rw [List.flatten_cons, List.append_assoc, hpart.readFlags_append hverb, hadd]
      exact ih hverbs hrest

theorem add_eq_ok_iff {given next : Given} {flag : Flag} {value : String} :
    given.add flag value = .ok next ↔
      flag ∉ given.map Prod.fst ∧ flag.accepts value ∧ next = (flag, value) :: given := by
  have hany : given.any (·.1 == flag) = true ↔ flag ∈ given.map Prod.fst := by
    simp
  rw [Given.add]
  split_ifs with h <;> rw [hany] at h
  · simp only [false_iff]
    rintro ⟨hnew, haccepts, -⟩
    exact h.elim hnew (absurd haccepts)
  · rw [not_or, not_not] at h
    simp [h, eq_comm]

/-- Options can be added if none is given twice and each can have its value. -/
theorem addAll_eq_ok_iff {options : List (Flag × String)} {given given' : Given}
    (h : (given.map Prod.fst).Nodup) :
    given.addAll options = .ok given' ↔
      ((options.reverse ++ given).map Prod.fst).Nodup ∧
        (∀ option ∈ options, option.1.accepts option.2) ∧ given' = options.reverse ++ given := by
  induction options generalizing given with
  | nil =>
    rw [Given.addAll, Except.ok.injEq]
    simpa [h] using eq_comm
  | cons option options ih =>
    obtain ⟨flag, value⟩ := option
    have hreverse : ((flag, value) :: options).reverse ++ given =
        options.reverse ++ (flag, value) :: given := by simp
    rw [Given.addAll, bind_eq_ok_iff, hreverse]
    simp only [add_eq_ok_iff]
    constructor
    · rintro ⟨next, ⟨hnew, haccepts, rfl⟩, hrest⟩
      have hgiven : (((flag, value) :: given).map Prod.fst).Nodup := List.nodup_cons.2 ⟨hnew, h⟩
      obtain ⟨hnodup, hvalues, rfl⟩ := (ih hgiven).1 hrest
      exact ⟨hnodup, List.forall_mem_cons.2 ⟨haccepts, hvalues⟩, rfl⟩
    · rintro ⟨hnodup, hvalues, rfl⟩
      have hgiven : (((flag, value) :: given).map Prod.fst).Nodup := by
        rw [List.map_append] at hnodup
        exact hnodup.of_append_right
      obtain ⟨haccepts, hvalues⟩ := List.forall_mem_cons.1 hvalues
      exact ⟨_, ⟨(List.nodup_cons.1 hgiven).1, haccepts, rfl⟩,
        (ih hgiven).2 ⟨hnodup, hvalues, rfl⟩⟩

/-- The words from which options are read give them, and stop the reading after them. -/
theorem readFlags_nil_eq_ok_iff {verb : Option Verb} {given : Given} {words rest : List String} :
    readFlags verb [] words = .ok (given, rest) ↔
      ∃ options spelled ends, words = spelled ++ (ends ++ rest) ∧ GivesAll options spelled ∧
        Stops ends rest ∧ (∀ option ∈ options, option.1.belongsTo verb) ∧
        (∀ option ∈ options, option.1.accepts option.2) ∧ given = options.reverse := by
  simp only [readFlags_eq_ok_iff, @addAll_eq_ok_iff _ [] _ List.nodup_nil, List.append_nil]
  constructor
  · rintro ⟨options, parts, ends, rfl, hends, hparts, hverbs, hnodup, hvalues, rfl⟩
    rw [List.map_reverse, List.nodup_reverse] at hnodup
    exact ⟨options, _, ends, rfl, ⟨hnodup, parts, rfl, hparts⟩, hends, hverbs, hvalues, rfl⟩
  · rintro ⟨options, _, ends, rfl, ⟨hnodup, parts, rfl, hparts⟩, hends, hverbs, hvalues, rfl⟩
    rw [← List.nodup_reverse, ← List.map_reverse] at hnodup
    exact ⟨options, parts, ends, rfl, hends, hparts, hverbs, hnodup, hvalues, rfl⟩

end LogForwarding.Command
