/-
# Blank lines of a configuration

A configuration without pipelines is empty. Every other one begins with its
first line and ends with its last: there are no blank lines at its ends, and
no two blank lines together in between. Each header has a blank line above it,
or a comment that has one; only what the configuration begins with has none.

Blank lines come from the tables alone, one above each. However many tables a
sink has, with or without a credential, and whatever the values hold, the
lines of a table are not blank, so the blank lines of different tables do not
meet.

Key definitions: `Text.SetOff`, `Text.Spaced`.
Key theorems: `Text.not_infix_of_isChain`, `Toml.isChain_blocks`,
`Toml.exists_table_of_isHeader`, `Toml.spaced_writeTables`,
`Topology.spaced_configuration`.
-/
import LogForwarding.Proofs.Document.Headers

namespace LogForwarding

open Toml

namespace Text

/-- Above stands nothing, or a blank line. -/
def Apart (above : List String) : Prop := above = [] ∨ above.getLast? = some ""

/-- Above stands nothing, or a blank line, or a comment that is set apart itself. -/
def SetOff (above : List String) : Prop :=
  Apart above ∨ ∃ before comment, above = before ++ [comment] ∧
    comment.toList.head? = some '#' ∧ Apart before

/-- Blank lines stand between the tables of the text, one at a time, and nowhere else. -/
structure Spaced (text : String) : Prop where
  /-- The text begins with no newline and ends in exactly one. -/
  closed : Closed text
  /-- No two blank lines stand together. -/
  single : ¬ ['\n', '\n', '\n'] <:+: text.toList
  /-- Each header is set off from what stands above it. -/
  headers : ∀ {above line below}, lines text = above ++ line :: below → isHeader line →
    SetOff above

/-- Three newlines together make two blank lines together. -/
theorem not_infix_of_isChain {text : String}
    (h : (lines text).IsChain fun a b => a ≠ "" ∨ b ≠ "") :
    ¬ ['\n', '\n', '\n'] <:+: text.toList := by
  rintro ⟨before, after, heq⟩
  have hlines : lines text =
      lines (String.ofList before) ++ "" :: "" :: lines (String.ofList after) := by
    have hsplit : text.toList = before ++ '\n' :: ([] ++ '\n' :: ([] ++ '\n' :: after)) := by
      rw [← heq, List.append_assoc]
      rfl
    simp only [lines, hsplit, List.splitOn_append_cons_self, List.splitOn_nil, List.map_append,
      String.toList_ofList]
    rfl
  rw [hlines] at h
  have hpair := (List.isChain_cons_cons.1 h.right_of_append).1
  simp at hpair

end Text

namespace Toml

variable {ts : List Table}

/-! ### Blank lines between tables -/

/-- In a table with what stands above it, only the first line is blank, and others follow it. -/
theorem Table.Proper.isChain_block {t : Table} (h : t.Proper) :
    (t.block.IsChain fun a b => a ≠ "" ∨ b ≠ "") ∧ ∀ line ∈ t.block.getLast?, line ≠ "" := by
  have hblock : t.block = "" :: t.block.tail := rfl
  have hne : t.block.tail ≠ [] := by simp [block, above]
  have hfilled : ∀ line ∈ t.block.tail, line ≠ "" := fun line hl => (h.mem_tail_block hl).1
  rw [hblock]
  constructor
  · refine List.isChain_cons.2 ⟨fun line hl => .inr (hfilled line (List.mem_of_mem_head? hl)), ?_⟩
    exact (List.pairwise_of_forall_mem_list fun a ha b _ => .inl (hfilled a ha)).isChain
  · intro line hl
    rw [List.getLast?_cons_of_ne_nil hne] at hl
    exact hfilled line (List.mem_of_mem_getLast? hl)

/-- The tables follow each other with one blank line between them. -/
theorem isChain_blocks (h : ∀ t ∈ ts, t.Proper) :
    (ts.flatMap Table.block ++ [""]).IsChain fun a b => a ≠ "" ∨ b ≠ "" := by
  induction ts with
  | nil => exact List.isChain_singleton _
  | cons t ts ih =>
    obtain ⟨ht, hts⟩ := List.forall_mem_cons.1 h
    obtain ⟨hchain, hlast⟩ := ht.isChain_block
    rw [List.flatMap_cons, List.append_assoc]
    exact List.isChain_append.2 ⟨hchain, ih hts, fun line hl _ _ => .inl (hlast line hl)⟩

/-! ### What stands above a header -/

/-- The header of a table has above it what is above the table. -/
theorem Table.Proper.eq_above {t : Table} (h : t.Proper) {above below : List String}
    {line : String} (hsplit : t.block = above ++ line :: below) (hl : isHeader line) :
    above = t.above := by
  -- A table has one header, so the lines above this one are those up to the first header.
  have hfilter := h.filter_block
  rw [hsplit, List.filter_append, List.filter_cons_of_pos hl, List.append_eq_singleton_iff]
    at hfilter
  have hnone : ∀ line ∈ above, (!isHeader line) = true := by
    rcases hfilter with ⟨hnil, _⟩ | ⟨_, hcons⟩
    · simpa [List.filter_eq_nil_iff] using hnil
    · cases hcons
  have habove : ∀ line ∈ t.above, (!isHeader line) = true := by
    intro line hline
    rw [(mem_above hline).1]
    rfl
  have htake := congrArg (List.takeWhile (!isHeader ·)) hsplit
  rw [block, List.takeWhile_append_of_pos habove, List.takeWhile_append_of_pos hnone,
    List.takeWhile_cons_of_neg (by simp [isHeader_header]),
    List.takeWhile_cons_of_neg (by simp [hl]), List.append_nil, List.append_nil] at htake
  exact htake.symm

/-- A line that begins as headers do is that of a table, and above it stand the tables before and
what is above the table. -/
theorem exists_table_of_isHeader (h : ∀ t ∈ ts, t.Proper) {above below : List String}
    {line : String} (hsplit : ts.flatMap Table.block ++ [""] = above ++ line :: below)
    (hl : isHeader line) :
    ∃ us t vs, ts = us ++ t :: vs ∧ above = us.flatMap Table.block ++ t.above := by
  induction ts generalizing above with
  | nil =>
    obtain ⟨_, hline⟩ | ⟨_, hnil⟩ := List.append_eq_singleton_iff.1 hsplit.symm
    · obtain ⟨rfl, _⟩ := List.cons.inj hline
      cases hl
    · cases hnil
  | cons t ts ih =>
    obtain ⟨ht, hts⟩ := List.forall_mem_cons.1 h
    have hlater : ∀ {above}, ts.flatMap Table.block ++ [""] = above ++ line :: below →
        ∃ us u vs, t :: ts = us ++ u :: vs ∧
          t.block ++ above = us.flatMap Table.block ++ u.above := by
      intro above hrest
      obtain ⟨us, u, vs, rfl, rfl⟩ := ih hts hrest
      exact ⟨t :: us, u, vs, rfl, by rw [List.flatMap_cons, List.append_assoc]⟩
    rw [List.flatMap_cons, List.append_assoc] at hsplit
    -- The line stands after the first table, or it is one of its lines.
    rcases List.append_eq_append_iff.1 hsplit with ⟨rest, rfl, hrest⟩ | ⟨rest, hblock, hrest⟩
    · exact hlater hrest
    · cases rest with
      | nil =>
        rw [List.append_nil] at hblock
        have hfound := @hlater [] hrest.symm
        rwa [List.append_nil, hblock] at hfound
      | cons first rest =>
        obtain ⟨rfl, _⟩ := List.cons.inj hrest
        exact ⟨[], t, ts, rfl, ht.eq_above hblock hl⟩

/-- What stands above a table sets its header off. -/
theorem setOff_append_above (lines : List String) (t : Table) :
    Text.SetOff (lines ++ t.above) := by
  rw [Table.above]
  cases t.comment with
  | none => exact .inl (.inr (by simp))
  | some comment => exact .inr ⟨lines ++ [""], "# " ++ comment, by simp, by simp, .inr (by simp)⟩

/-- At the beginning of the text the blank line is missing, and nothing stands above the comment. -/
theorem setOff_comment (t : Table) : Text.SetOff (t.comment.map ("# " ++ ·)).toList := by
  cases t.comment with
  | none => exact .inl (.inl rfl)
  | some comment => exact .inr ⟨[], "# " ++ comment, rfl, by simp, .inl rfl⟩

/-- **Tables stand apart in their text.** -/
theorem spaced_writeTables (hne : ts ≠ []) (h : ∀ t ∈ ts, t.Proper) :
    Text.Spaced (writeTables ts) := by
  have hlines := cons_lines_writeTables hne h
  refine ⟨closed_writeTables hne h, ?_, fun {above line below} hsplit hl => ?_⟩
  · have hchain := isChain_blocks h
    rw [← hlines] at hchain
    exact Text.not_infix_of_isChain (List.isChain_cons.1 hchain).2
  · rw [hsplit, ← List.cons_append] at hlines
    obtain ⟨us, t, vs, _, habove⟩ := exists_table_of_isHeader h hlines.symm hl
    cases us with
    | nil =>
      obtain ⟨_, rfl⟩ := List.cons.inj habove
      exact setOff_comment t
    | cons u us =>
      obtain ⟨_, rfl⟩ := List.cons.inj habove
      exact setOff_append_above (u.block.tail ++ us.flatMap Table.block) t

end Toml

namespace Plan

variable {plan : Plan} {secrets : Secrets} {settings : Settings}
  {served : List (Output × Credential)}

/-- A plan without pipelines has no tables, and no other plan. -/
theorem tables_eq_nil_iff (hs : plan.served secrets = .ok served) :
    plan.tables secrets settings served = [] ↔ plan.pipelines = [] := by
  constructor
  · intro h
    refine List.eq_nil_iff_forall_not_mem.2 fun p hp => ?_
    have hmem : p.table ∈ plan.tables secrets settings served := by
      refine List.mem_flatten.2 ⟨[p.table], ?_, List.mem_singleton_self _⟩
      simp only [tableGroups, List.mem_append, List.mem_map]
      exact .inr (.inr (.inl ⟨p, hp, rfl⟩))
    rw [h] at hmem
    cases hmem
  · intro h
    have hserved : served = [] := by
      have hreferenced := (served_eq_ok_iff.1 hs).1
      rw [referenced, h] at hreferenced
      exact List.map_eq_nil_iff.1 hreferenced
    simp [tables, tableGroups, usedLogs, usedInputs, usesContainers, h, hserved]

end Plan

namespace Topology

variable {t : Topology}

/-- A plan has a pipeline if one is declared. -/
theorem IsPlan.pipelines_eq_nil_iff {plan : Plan} (h : t.IsPlan plan) :
    plan.pipelines = [] ↔ t.pipelines = [] := by
  have hids : plan.pipelines.map Pipeline.id = [] ↔ t.pipelines = [] := by
    rw [h.pipelines.map_id, effectiveNames, List.map_eq_nil_iff, List.map_eq_nil_iff,
      List.zipIdx_eq_nil_iff]
  rwa [List.map_eq_nil_iff] at hids

/-- **A configuration has blank lines between its tables, one at a time.** It is empty if and only
if the topology has no pipeline. Otherwise it begins and ends with a line that is not blank and has
no two blank lines together, and each header is set off from what stands above it. -/
theorem spaced_configuration {secrets : Secrets} {settings : Settings} {text : String}
    (h : t.configuration secrets settings = .ok text) :
    (text = "" ↔ t.pipelines = []) ∧ (t.pipelines ≠ [] → Text.Spaced text) := by
  obtain ⟨plan, served, hplan, hs, rfl⟩ := configuration_eq_ok_iff.1 h
  have hempty : plan.tables secrets settings served = [] ↔ t.pipelines = [] :=
    (Plan.tables_eq_nil_iff hs).trans (isPlan_of_resolve hplan).pipelines_eq_nil_iff
  have hspaced : t.pipelines ≠ [] →
      Text.Spaced (writeTables (plan.tables secrets settings served)) :=
    fun hne => spaced_writeTables (fun hnil => hne (hempty.1 hnil))
      ((Plan.sound_of_resolve hplan).tables_proper hs)
  refine ⟨⟨fun htext => ?_, fun hnil => ?_⟩, hspaced⟩
  · by_contra hne
    obtain ⟨u, _, hclosed, _⟩ := (hspaced hne).closed
    rw [hclosed] at htext
    simp at htext
  · rw [hempty.2 hnil]
    rfl

end Topology

/-- Sinks with a user name and trusted certificates, with a cloud account and trusted certificates,
and without a secret. -/
def crowded : Topology where
  pipelines := [{ name := "\n\n", inputs := ["audit"], outputs := ["web", "cloud", "open"] }]
  outputs :=
    [{ name := "web", type := .http, url := some "\n\n\n[", secret := some "user" },
      { name := "cloud", type := .googleCloudLogging, secret := some "account",
        googleCloudLogging := some ⟨"\n[", "#\n\n"⟩ },
      { name := "open", type := .loki, url := some "x\n" }]

/-- The values hold newlines before they are quoted. -/
def crowdedSecrets : Secrets := (∅ : Secrets)
  |>.insert "user" ((∅ : Secret)
    |>.insert SecretKey.username "\n\n".toUTF8
    |>.insert SecretKey.password "\n\n\n".toUTF8
    |>.insert SecretKey.trustedCa "\n".toUTF8)
  |>.insert "account" ((∅ : Secret)
    |>.insert SecretKey.credentialsPath "\n\n".toUTF8
    |>.insert SecretKey.trustedCa "\n".toUTF8)

theorem spaced_crowded :
    ∃ text, crowded.configuration crowdedSecrets ⟨.inline, "\n\n", 600⟩ = .ok text ∧
      text ≠ "" ∧ Text.Spaced text := by
  have hserves : (crowded.resolve >>= fun plan =>
      (plan.served crowdedSecrets).map List.length) = .ok 3 := by rfl
  obtain ⟨plan, hplan, hlength⟩ := bind_eq_ok_iff.1 hserves
  obtain ⟨served, hs, _⟩ := map_eq_ok_iff.1 hlength
  have htext := Topology.configuration_eq_ok hplan hs ⟨.inline, "\n\n", 600⟩
  obtain ⟨hempty, hspaced⟩ := Topology.spaced_configuration htext
  have hne : crowded.pipelines ≠ [] := by simp [crowded]
  exact ⟨_, htext, fun hnil => hne (hempty.1 hnil), hspaced hne⟩

end LogForwarding
