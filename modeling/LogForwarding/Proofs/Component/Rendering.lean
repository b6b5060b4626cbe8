/-
# Components as they are written

The text of a component is that of its tables. A fragment for a credential is
some lines without the last newline, so that what embeds it can go on below;
a table in a sink begins with the blank line above it. These texts end in a
quoted value, and nothing is lost when the newlines at their ends are left
out.

Key definitions: `Element.WritesLines`, `Element.Writes`, `Element.piece`.
Key theorems: `Element.Whole.render_eq_join`, `NodeLog.writes_source`,
`writes_route`, `Input.writes_marking`, `Pipeline.writes_collector`.
-/
import LogForwarding.Proofs.Component.Coherent
import LogForwarding.Proofs.Component.Tables

namespace LogForwarding

open Toml

namespace Element

/-- The text of the element consists of these lines without the last newline, and ends in none. -/
def WritesLines (e : Element) (lines : List String) : Prop :=
  ∃ s, e.render = .ok s ∧ s ++ "\n" = Text.unlines lines ∧ Text.EndsInText s

/-- The text of the element consists of these tables, perhaps without the last newline. -/
def Writes (e : Element) (tables : List Table) : Prop :=
  ∃ s, e.render = .ok s ∧ (s = writeTables tables ∨ s ++ "\n" = writeTables tables)

/-- What a segment of the template of a whole element stands for. -/
def piece (e : Element) : Segment → String
  | .text literal => literal
  | .field key => (e.get? key).getD ""
  | .embed slot => Text.trimEnd '\n' ((e.embeddedText ((e.get? slot).getD "")).toOption.getD "")

@[simp] theorem piece_text (e : Element) (literal : String) : e.piece (.text literal) = literal :=
  rfl

theorem piece_field {e : Element} {key value : String} (h : e.get? key = some value) :
    e.piece (.field key) = value := by
  rw [piece, h, Option.getD_some]

theorem piece_embed {e child : Element} {slot text : String} (h : e.get? slot = some child.name)
    (ht : e.embeddedText child.name = .ok text) :
    e.piece (.embed slot) = Text.trimEnd '\n' text := by
  rw [piece, h, Option.getD_some, ht]
  rfl

/-- The text of a whole element is made of these pieces. -/
theorem Whole.render_eq_join {e : Element} {segments : List Segment} (h : e.Whole)
    (ht : e.template = Template.write segments) (hc : Template.isCanonical segments) :
    e.render = .ok (String.join (segments.map e.piece)) := by
  have hsegments : e.segments = segments := by
    rw [Element.segments, ht, Template.segments_write hc]
  have hfilled : e.Filled := h e e.mem_tree_self
  rw [render_eq, hsegments]
  have hall : ∀ segment ∈ segments, segment ∈ e.segments := fun segment hs => hsegments ▸ hs
  clear hsegments hc ht
  induction segments with
  | nil => rfl
  | cons segment rest ih =>
    obtain ⟨hsegment, hrest⟩ := List.forall_mem_cons.1 hall
    have hfills := hfilled segment hsegment
    have htext := ih hrest
    rw [List.map_cons, String.join_cons]
    cases segment with
    | text literal => exact bind_eq_ok_iff.2 ⟨_, htext, rfl⟩
    | field key =>
      obtain ⟨value, hvalue⟩ := Option.isSome_iff_exists.1 hfills
      rw [piece_field hvalue]
      exact bind_eq_ok_iff.2 ⟨value, value_eq_ok_iff.2 hvalue, bind_eq_ok_iff.2 ⟨_, htext, rfl⟩⟩
    | embed slot =>
      obtain ⟨child, _, hname⟩ := hfills
      obtain ⟨found, hfound, _, hchild⟩ := hfilled.embedsSlots.embeddedText_eq hsegment hname
      have hwhole : found.Whole := fun d hd => h d (tree_subset_of_mem_embeds hfound hd)
      obtain ⟨inner, hinner⟩ := hwhole.exists_render
      rw [hinner] at hchild
      rw [piece_embed hname hchild]
      exact bind_eq_ok_iff.2 ⟨_, value_eq_ok_iff.2 hname, bind_eq_ok_iff.2 ⟨inner, hchild,
        bind_eq_ok_iff.2 ⟨_, htext, rfl⟩⟩⟩

/-- The only element that is embedded is found by its name. -/
theorem embeddedText_of_embeds {e child : Element} (h : e.embeds = [child]) :
    e.embeddedText child.name = child.render := by
  simp [embeddedText, h]

end Element

open Element

theorem toList_join (ss : List String) : (String.join ss).toList = ss.flatMap String.toList := by
  induction ss with
  | nil => rfl
  | cons s ss ih => rw [String.join_cons, String.toList_append, ih, List.flatMap_cons]

/-- A whole element is written as the table with its values. -/
theorem Element.Whole.writes_table {e : Element} {segments : List Segment} {t : Table}
    (h : e.Whole) (ht : e.template = Template.write segments)
    (hc : Template.isCanonical segments)
    (heq : (segments.map e.piece).flatMap String.toList = (writeTables [t]).toList) :
    e.Writes [t] :=
  ⟨_, h.render_eq_join ht hc, .inl (String.toList_injective ((toList_join _).trans heq))⟩

/-- A whole element whose last piece does not end in a newline is written as the lines with its
values. -/
theorem Element.Whole.writesLines {e : Element} {segments : List Segment} {last : Segment}
    {lines : List String} (h : e.Whole) (ht : e.template = Template.write segments)
    (hc : Template.isCanonical segments) (hlast : segments.getLast? = some last)
    (hend : Text.EndsInText (e.piece last))
    (heq : (segments.map e.piece).flatMap String.toList ++ ['\n'] =
      (Text.unlines lines).toList) :
    e.WritesLines lines := by
  obtain ⟨start, rfl⟩ := List.getLast?_eq_some_iff.1 hlast
  refine ⟨_, h.render_eq_join ht hc, String.toList_injective ?_, ?_⟩
  · rw [String.toList_append, toList_join, ← heq]
    rfl
  · have hjoin : String.join ((start ++ [last]).map e.piece) =
        String.join (start.map e.piece) ++ e.piece last := by
      simp
    exact hjoin ▸ hend.append_left _

/-- A quoted value is such a piece. -/
theorem Element.endsInText_piece {e : Element} {key value : String}
    (h : e.get? key = some (Toml.quote value)) : Text.EndsInText (e.piece (.field key)) := by
  rw [piece_field h]
  exact Text.endsInText_quote value

/-- The sources of audit logs differ in their values only. -/
theorem NodeLog.writes_auditSource {settings : Settings} {log : NodeLog}
    (hs : log.source settings =
      (log.auditSource settings log.description |>.place .sources log.rank |>.set "id" log.id))
    (he : log.entries settings =
      [("type", "\"file\""), ("ignore_older_secs", toString settings.auditIgnoreOlderSecs),
        ("include", Toml.array log.auditFile?.toList)]) :
    (log.source settings).Writes [log.table settings] := by
  refine (log.whole_source settings).writes_table (by rw [hs]; rfl) (by decide) ?_
  simp [hs, he, piece, auditSource, get?_set, writeTables, Table.block, Table.above, table,
    Table.ofEntries, assignments, assignment, header]

theorem NodeLog.writes_source (settings : Settings) (log : NodeLog) :
    (log.source settings).Writes [log.table settings] := by
  cases log with
  | container =>
    refine (whole_source settings _).writes_table rfl (by decide) ?_
    simp [piece, source, sourceBody, get?_set, writeTables, Table.block, Table.above, table,
      Table.ofEntries, entries, description, assignments, assignment, header]
  | journal =>
    refine (whole_source settings _).writes_table rfl (by decide) ?_
    simp [piece, source, sourceBody, get?_set, writeTables, Table.block, Table.above, table,
      Table.ofEntries, entries, description, assignments, assignment, header]
  | hostAudit => exact writes_auditSource rfl rfl
  | kubernetesAudit => exact writes_auditSource rfl rfl
  | openshiftAudit => exact writes_auditSource rfl rfl
  | ovnAudit => exact writes_auditSource rfl rfl

theorem writes_route : route.Writes [routeTable] := by
  refine whole_route.writes_table rfl (by decide) ?_
  simp [piece, route, get?_set, writeTables, Table.block, Table.above, routeTable, Table.ofEntries,
    assignments, assignment, header]

theorem Input.writes_marking (input : Input) : input.marking.Writes [input.table] := by
  refine input.whole_marking.writes_table rfl (by decide) ?_
  simp [piece, marking, get?_set, writeTables, Table.block, Table.above, table, remapTable,
    assignment, header]

theorem Pipeline.writes_collector (p : Pipeline) : p.collector.Writes [p.table] := by
  refine p.whole_collector.writes_table rfl (by decide) ?_
  simp [piece, collector, get?_set, writeTables, Table.block, Table.above, table, remapTable,
    assignment, header]

end LogForwarding
