/-
# A configuration as a sequence of tables

Each element of a configuration is written as its tables, and the document
puts blank lines between them, as it does between the texts of elements. So a
configuration is the text of its tables, in the order of its components; the
tables have different names, each of which is told by a place in the
configuration.

Key definitions: `Plan.tables`.
Key theorems: `document_eq_writeTables`, `Topology.configuration_eq_ok_iff`,
`Plan.Sound.tables_proper`.
-/
import LogForwarding.Proofs.Component.Sequence
import LogForwarding.Proofs.Component.SinkRendering

namespace LogForwarding

open Toml

/-! ### The document of elements that are written as tables -/

/-- Texts of tables are laid out as the text of all tables. -/
theorem layOut_eq_writeTables {texts : List String} {groups : List (List Table)}
    (h : List.Forall₂ (fun s ts => (s = writeTables ts ∨ s ++ "\n" = writeTables ts) ∧
      ts ≠ [] ∧ ∀ t ∈ ts, t.Proper) texts groups) :
    layOut ((texts.map (Text.trim '\n')).filter (· ≠ "")) = writeTables groups.flatten := by
  induction h with
  | nil => rfl
  | @cons s ts texts groups hs hrest ih =>
    obtain ⟨hs, hne, hproper⟩ := hs
    obtain ⟨htrim, hfilled⟩ := (closed_writeTables hne hproper).trim hs
    rw [List.map_cons, List.filter_cons_of_pos (by simpa using hfilled), List.flatten_cons]
    cases hrest with
    | nil => rw [List.flatten_nil, List.append_nil, ← htrim]; rfl
    | @cons s' ts' texts groups hs' hrest =>
      obtain ⟨hs', hne', hproper'⟩ := hs'
      obtain ⟨_, hfilled'⟩ := (closed_writeTables hne' hproper').trim hs'
      have hflatten : (ts' :: groups).flatten ≠ [] := by simp [hne']
      rw [writeTables_append hne hflatten, ← ih, ← htrim, List.map_cons,
        List.filter_cons_of_pos (by simpa using hfilled'), layOut]
      · simp only [String.append_assoc]
        rfl
      · simp

/-- **A document is the text of its tables.** -/
theorem document_eq_writeTables {elements : List Element} {groups : List (List Table)}
    (hw : ∀ e ∈ elements, e.Whole) (hc : Coherent (Element.treeList elements))
    (h : List.Forall₂ (fun e ts => e.Writes ts ∧ ts ≠ [] ∧ ∀ t ∈ ts, t.Proper) elements groups) :
    document elements = .ok (writeTables groups.flatten) := by
  obtain ⟨r, hr⟩ := Registry.exists_ofRoots_iff.2 hc
  obtain ⟨texts, htexts, hgroups⟩ := exists_mapM_of_forall₂ <| h.imp fun e ts ⟨hwrites, hproper⟩ =>
    hwrites.imp fun s ⟨hrender, hs⟩ => ⟨hrender, And.intro hs hproper⟩
  rw [document_eq_mapM_render (fun e he => (hw e he).selfContained) hr, htexts]
  exact congrArg Except.ok ((joinBlocks_eq_layOut texts).trans (layOut_eq_writeTables hgroups))

namespace Plan

variable {plan : Plan} {secrets : Secrets} {settings : Settings}
  {served : List (Output × Credential)}

/-! ### The tables of a plan -/

/-- The tables of each component, in the order of the document. -/
def tableGroups (plan : Plan) (secrets : Secrets) (settings : Settings)
    (served : List (Output × Credential)) : List (List Table) :=
  plan.usedLogs.map (fun log => [log.table settings]) ++
    (((if plan.usesContainers then [[routeTable]] else []) ++
      plan.usedInputs.map fun input => [input.table]) ++
    (plan.pipelines.map (fun p => [p.table]) ++
      served.map fun s => plan.sinkTables secrets settings s.1 s.2))

/-- The tables of the document. -/
def tables (plan : Plan) (secrets : Secrets) (settings : Settings)
    (served : List (Output × Credential)) : List Table :=
  (plan.tableGroups secrets settings served).flatten

theorem newline_notMem_componentId (name : String) : '\n' ∉ (componentId name).toList := by
  intro hmem
  have hchar : isIdChar '\n' = false := by decide
  rw [isIdChar_of_mem_componentId hmem] at hchar
  cases hchar

theorem Sound.newline_notMem_id (h : plan.Sound) {o : Output} (ho : o ∈ plan.outputs.list) :
    '\n' ∉ o.id.toList := by
  rw [h.output_id o ho]
  exact newline_notMem_componentId o.name

theorem mem_list_of_mem_served (hs : plan.served secrets = .ok served)
    {s : Output × Credential} (h : s ∈ served) : s.1 ∈ plan.outputs.list := by
  refine mem_list_of_mem_referenced ?_
  rw [← (served_eq_ok_iff.1 hs).1]
  exact List.mem_map_of_mem h

/-- Each component is written as its tables. -/
theorem Sound.forall₂_writes (h : plan.Sound) (hs : plan.served secrets = .ok served) :
    List.Forall₂ (fun e ts => e.Writes ts ∧ ts ≠ [] ∧ ∀ t ∈ ts, t.Proper)
      (plan.sequence secrets settings served) (plan.tableGroups secrets settings served) := by
  have hmap : ∀ {α : Type} {l : List α} {f : α → Element} {g : α → List Table},
      (∀ a ∈ l, (f a).Writes (g a) ∧ g a ≠ [] ∧ ∀ t ∈ g a, t.Proper) →
      List.Forall₂ (fun e ts => e.Writes ts ∧ ts ≠ [] ∧ ∀ t ∈ ts, t.Proper)
        (l.map f) (l.map g) := by
    intro α l f g hl
    rw [List.forall₂_map_left_iff, List.forall₂_map_right_iff, List.forall₂_same]
    exact hl
  have hroute : List.Forall₂ (fun e ts => e.Writes ts ∧ ts ≠ [] ∧ ∀ t ∈ ts, t.Proper)
      (if plan.usesContainers then [route] else [])
      (if plan.usesContainers then [[routeTable]] else []) := by
    split_ifs
    · exact .cons ⟨writes_route, by simp, by simpa using proper_routeTable⟩ .nil
    · exact .nil
  refine List.rel_append (hmap fun log _ => ?_) (List.rel_append (List.rel_append hroute
    (hmap fun input _ => ?_)) (List.rel_append (hmap fun p hp => ?_) (hmap fun s hmem => ?_)))
  · exact ⟨log.writes_source settings, by simp, by simpa using log.proper_table settings⟩
  · exact ⟨input.writes_marking, by simp, by simpa using input.proper_table⟩
  · have hid : '\n' ∉ p.id.toList := by
      rw [h.pipeline_id p hp]
      exact newline_notMem_componentId p.name
    exact ⟨p.writes_collector, by simp, by simpa using p.proper_table hid⟩
  · have hid := h.newline_notMem_id (mem_list_of_mem_served hs hmem)
    exact ⟨writes_sinkWith, by simp [sinkTables], proper_sinkTables hid⟩

theorem Sound.tables_proper (h : plan.Sound) (hs : plan.served secrets = .ok served) :
    ∀ t ∈ plan.tables secrets settings served, t.Proper := by
  intro t ht
  obtain ⟨group, hgroup, ht⟩ := List.mem_flatten.1 ht
  obtain ⟨_, _, _, _, hproper⟩ := exists_mem_of_forall₂ (h.forall₂_writes hs) hgroup
  exact hproper t ht

end Plan

/-- **A configuration is the text of its tables.** There is one if the topology has a plan and the
outputs that pipelines name have their credentials. -/
theorem Topology.configuration_eq_ok_iff {t : Topology} {secrets : Secrets} {settings : Settings}
    {text : String} :
    t.configuration secrets settings = .ok text ↔
      ∃ plan served, t.resolve = .ok plan ∧ plan.served secrets = .ok served ∧
        text = writeTables (plan.tables secrets settings served) := by
  have hdocument : ∀ {plan : Plan} {served : List (Output × Credential)},
      t.resolve = .ok plan → plan.served secrets = .ok served →
        document (plan.sequence secrets settings served) =
          .ok (writeTables (plan.tables secrets settings served)) := by
    intro plan served hplan hs
    have hsound := Plan.sound_of_resolve hplan
    have hroots : plan.sinks secrets settings = .ok _ := Plan.sinks_eq_ok hs
    refine document_eq_writeTables (fun e he => ?_) ?_ (hsound.forall₂_writes hs)
    · exact Plan.whole_of_mem_contributions hroots (Plan.mem_sequence.1 he)
    · refine (hsound.coherent_contributions hroots).subset fun e he => ?_
      obtain ⟨root, hroot, he⟩ := Element.mem_treeList.1 he
      exact Element.mem_treeList.2 ⟨root, Plan.mem_sequence.1 hroot, he⟩
  simp only [configuration, bind_eq_ok_iff]
  constructor
  · rintro ⟨plan, hplan, elements, he, htext⟩
    obtain ⟨served, hs, rfl⟩ := (Plan.sound_of_resolve hplan).elements_eq_ok_iff.1 he
    rw [hdocument hplan hs, Except.ok.injEq] at htext
    exact ⟨plan, served, hplan, hs, htext.symm⟩
  · rintro ⟨plan, served, hplan, hs, rfl⟩
    exact ⟨plan, hplan, _, (Plan.sound_of_resolve hplan).elements_eq_ok hs, hdocument hplan hs⟩

/-- The configuration of a topology whose plan and credentials are known. -/
theorem Topology.configuration_eq_ok {t : Topology} {plan : Plan} {secrets : Secrets}
    {served : List (Output × Credential)} (h : t.resolve = .ok plan)
    (hs : plan.served secrets = .ok served) (settings : Settings) :
    t.configuration secrets settings = .ok (writeTables (plan.tables secrets settings served)) :=
  configuration_eq_ok_iff.2 ⟨plan, served, h, hs, rfl⟩

end LogForwarding
