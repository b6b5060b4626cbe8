/-
# Tables of a document

A document is a sequence of tables. Each begins with its header, the name in
brackets, perhaps with a comment above it; the lines of the table follow, and
all of them begin with blanks. Between two tables is a blank line. A line that
begins with a bracket is therefore a header, and what stands between a header
and the next one is read as the lines of one table, where an assignment can be
found by its key.

Key definitions: `Toml.Table`, `Toml.writeTables`, `Toml.below`,
`Toml.assigned`.
Key theorems: `Toml.headers_writeTables`, `Toml.assigned_below`.
-/
import LogForwarding.Proofs.Document.Lines
import Mathlib.Data.List.Basic
import Mathlib.Data.List.Nodup

namespace LogForwarding

namespace Toml

/-- A table of a document. -/
structure Table where
  /-- What the comment above it says. -/
  comment : Option String := none
  /-- Its name. -/
  name : String
  /-- Its lines. -/
  body : List String

/-- The header of the table of the given name. -/
def header (name : String) : String := "[" ++ name ++ "]"

/-- The line begins as headers do. -/
def isHeader (line : String) : Bool := line.toList.head? == some '['

/-- The line that gives the key a value. -/
def assignment (key value : String) : String := "  " ++ key ++ " = " ++ value

namespace Table

/-- A blank line, and the comment. -/
def above (t : Table) : List String := "" :: (t.comment.map ("# " ++ ·)).toList

/-- The table with what stands above it. -/
def block (t : Table) : List String := t.above ++ header t.name :: t.body

/-- The parts of the table are on lines of their own, and only the header begins as one. -/
structure Proper (t : Table) : Prop where
  /-- The comment is one line. -/
  comment : ∀ comment ∈ t.comment, '\n' ∉ comment.toList
  /-- The name is part of one line. -/
  name : '\n' ∉ t.name.toList
  /-- The other lines begin with a blank. -/
  body : ∀ line ∈ t.body, line.toList.head? = some ' ' ∧ '\n' ∉ line.toList

end Table

/-- The text of some tables, with blank lines between them. -/
def writeTables (ts : List Table) : String := Text.unlines (ts.flatMap Table.block).tail

/-- The lines below the header of the table of the given name, up to the next header. -/
def below (name : String) (lines : List String) : List String :=
  ((lines.dropWhile (· != header name)).drop 1).takeWhile (!isHeader ·)

/-- The values that some lines assign to the key. -/
def assigned (key : String) (lines : List String) : List String :=
  lines.filterMap fun line =>
    (line.toList.dropPrefix? (assignment key "").toList).map String.ofList

/-! ### Lines of a table -/

theorem isHeader_header (name : String) : isHeader (header name) = true := by
  simp [isHeader, header]

theorem header_injective : Function.Injective header := by
  intro a b h
  simpa [header] using h

namespace Table

variable {t : Table}

theorem mem_above {line : String} (h : line ∈ t.above) :
    isHeader line = false ∧ line.toList.head? ≠ some ' ' := by
  simp only [above, List.mem_cons, Option.mem_toList, Option.map_eq_some_iff] at h
  rcases h with rfl | ⟨comment, _, rfl⟩ <;> simp [isHeader]

theorem Proper.not_isHeader_of_mem_body (h : t.Proper) {line : String} (hl : line ∈ t.body) :
    isHeader line = false := by
  simp [isHeader, (h.body line hl).1]

/-- No line of a table is divided, and but for the first one none is empty. -/
theorem Proper.mem_tail_block (h : t.Proper) {line : String} (hl : line ∈ t.block.tail) :
    line ≠ "" ∧ '\n' ∉ line.toList := by
  simp only [block, above, List.cons_append, List.tail_cons, List.mem_append, List.mem_cons,
    Option.mem_toList, Option.map_eq_some_iff] at hl
  rcases hl with ⟨comment, hc, rfl⟩ | rfl | hl
  · exact ⟨by simp, by simpa using h.comment comment hc⟩
  · exact ⟨by simp [header], by simpa [header] using h.name⟩
  · obtain ⟨hhead, hnewline⟩ := h.body line hl
    refine ⟨?_, hnewline⟩
    rintro rfl
    cases hhead

theorem Proper.filter_block (h : t.Proper) : t.block.filter isHeader = [header t.name] := by
  have habove : t.above.filter isHeader = [] :=
    List.filter_eq_nil_iff.2 fun line hl => by simp [mem_above hl]
  have hbody : t.body.filter isHeader = [] :=
    List.filter_eq_nil_iff.2 fun line hl => by simp [h.not_isHeader_of_mem_body hl]
  rw [block, List.filter_append, habove, List.filter_cons_of_pos (isHeader_header t.name), hbody]
  rfl

end Table

/-! ### The text of some tables -/

section Text

variable {ts us : List Table}

/-- A document begins with a table and not with the blank line above it. -/
theorem cons_tail_flatMap_block (h : ts ≠ []) :
    "" :: (ts.flatMap Table.block).tail = ts.flatMap Table.block := by
  cases ts with
  | nil => exact absurd rfl h
  | cons t ts => rfl

theorem newline_append_writeTables (h : ts ≠ []) :
    "\n" ++ writeTables ts = Text.unlines (ts.flatMap Table.block) := by
  rw [← cons_tail_flatMap_block h, Text.unlines_cons, String.empty_append, writeTables]

theorem writeTables_append (ht : ts ≠ []) (hu : us ≠ []) :
    writeTables (ts ++ us) = writeTables ts ++ ("\n" ++ writeTables us) := by
  have hne : ts.flatMap Table.block ≠ [] := by
    rw [← cons_tail_flatMap_block ht]
    simp
  rw [newline_append_writeTables hu, writeTables, writeTables, List.flatMap_append,
    List.tail_append_of_ne_nil hne, Text.unlines_append]

theorem closed_writeTables (hne : ts ≠ []) (h : ∀ t ∈ ts, t.Proper) :
    Text.Closed (writeTables ts) := by
  induction ts with
  | nil => exact absurd rfl hne
  | cons t ts ih =>
    obtain ⟨ht, hts⟩ := List.forall_mem_cons.1 h
    have hfirst : Text.Closed (writeTables [t]) := by
      have hlines : t.block.tail ≠ [] := by simp [Table.block, Table.above]
      have hclosed := Text.closed_unlines hlines fun line => ht.mem_tail_block
      simpa [writeTables] using hclosed
    cases ts with
    | nil => exact hfirst
    | cons next rest =>
      rw [← List.singleton_append, writeTables_append (by simp) (by simp)]
      exact hfirst.append (ih (by simp) hts)

theorem lines_writeTables (h : ∀ t ∈ ts, t.Proper) :
    Text.lines (writeTables ts) = (ts.flatMap Table.block).tail ++ [""] := by
  refine Text.lines_unlines fun line hl => ?_
  obtain ⟨t, ht, hl⟩ := List.mem_flatMap.1 (List.mem_of_mem_tail hl)
  have hblock : t.block = "" :: t.block.tail := rfl
  rw [hblock, List.mem_cons] at hl
  rcases hl with rfl | hl
  · simp
  · exact ((h t ht).mem_tail_block hl).2

/-- With a blank line above it, a document is the tables one after the other. -/
theorem cons_lines_writeTables (hne : ts ≠ []) (h : ∀ t ∈ ts, t.Proper) :
    "" :: Text.lines (writeTables ts) = ts.flatMap Table.block ++ [""] := by
  rw [lines_writeTables h, ← List.cons_append, cons_tail_flatMap_block hne]

/-- **The headers of a document are those of its tables.** -/
theorem headers_writeTables (h : ∀ t ∈ ts, t.Proper) :
    (Text.lines (writeTables ts)).filter isHeader = ts.map (header ·.name) := by
  have hblocks : (ts.flatMap Table.block).filter isHeader = ts.map (header ·.name) := by
    rw [List.filter_flatMap, List.map_eq_flatMap]
    exact List.flatMap_congr fun t ht => (h t ht).filter_block
  rw [lines_writeTables h, List.filter_append, ← hblocks]
  by_cases hne : ts = []
  · rw [hne]
    rfl
  · rw [← cons_tail_flatMap_block hne, List.filter_cons_of_neg (by decide)]
    simp [isHeader]

/-! ### Reading one table -/

/-- The header of a table does not stand above it. -/
theorem header_notMem_before {before after : List Table} {t : Table}
    (h : ∀ b ∈ before, b.Proper) (hn : ((before ++ t :: after).map Table.name).Nodup) :
    header t.name ∉ before.flatMap Table.block ++ t.above := by
  rw [List.mem_append, not_or]
  constructor
  · intro hl
    obtain ⟨b, hb, hl⟩ := List.mem_flatMap.1 hl
    have hfilter : header t.name ∈ b.block.filter isHeader :=
      List.mem_filter.2 ⟨hl, isHeader_header t.name⟩
    rw [(h b hb).filter_block, List.mem_singleton] at hfilter
    rw [List.map_append, List.map_cons, header_injective hfilter] at hn
    exact (List.nodup_append.1 hn).2.2 b.name (List.mem_map_of_mem hb) b.name (by simp) rfl
  · intro hl
    have hheader := isHeader_header t.name
    rw [(Table.mem_above hl).1] at hheader
    cases hheader

/-- Up to the next header no line begins with a blank. -/
theorem head_of_mem_takeWhile {line : String}
    (h : line ∈ (ts.flatMap Table.block ++ [""]).takeWhile (!isHeader ·)) :
    line.toList.head? ≠ some ' ' := by
  cases ts with
  | nil =>
    have hblank : line = "" := by simpa using (List.takeWhile_sublist _).subset h
    simp [hblank]
  | cons next ts =>
    have habove : ∀ line ∈ next.above, (!isHeader line) = true := fun line hl => by
      rw [(Table.mem_above hl).1]
      rfl
    rw [List.flatMap_cons, Table.block, List.append_assoc, List.append_assoc,
      List.takeWhile_append_of_pos habove, List.cons_append,
      List.takeWhile_cons_of_neg (by simp [isHeader_header]), List.append_nil] at h
    exact (Table.mem_above h).2

/-- From the header of a table on stand its lines, and then the other tables. -/
theorem dropWhile_writeTables {before after : List Table} {t : Table}
    (h : ∀ u ∈ before ++ t :: after, u.Proper)
    (hn : ((before ++ t :: after).map Table.name).Nodup) :
    (Text.lines (writeTables (before ++ t :: after))).dropWhile (· != header t.name) =
      header t.name :: (t.body ++ (after.flatMap Table.block ++ [""])) := by
  have hlines : "" :: Text.lines (writeTables (before ++ t :: after)) =
      before.flatMap Table.block ++ t.above ++
        header t.name :: (t.body ++ (after.flatMap Table.block ++ [""])) := by
    rw [cons_lines_writeTables (by simp) h]
    simp [Table.block]
  have hother : ∀ line ∈ before.flatMap Table.block ++ t.above,
      (line != header t.name) = true := by
    intro line hl
    rw [bne_iff_ne]
    rintro rfl
    exact header_notMem_before (fun b hb => h b (by simp [hb])) hn hl
  have hblank : ("" != header t.name) = true := by simp [header]
  have hcons : ("" :: Text.lines (writeTables (before ++ t :: after))).dropWhile
        (· != header t.name) =
      (Text.lines (writeTables (before ++ t :: after))).dropWhile (· != header t.name) :=
    List.dropWhile_cons_of_pos hblank
  rw [← hcons, hlines, List.dropWhile_append_of_pos hother,
    List.dropWhile_cons_of_neg (by simp)]

/-- Below the header of a table stand its lines, and after them none that begins with a blank. -/
theorem below_writeTables (h : ∀ t ∈ ts, t.Proper) (hn : (ts.map Table.name).Nodup) {t : Table}
    (ht : t ∈ ts) :
    ∃ rest, below t.name (Text.lines (writeTables ts)) = t.body ++ rest ∧
      ∀ line ∈ rest, line.toList.head? ≠ some ' ' := by
  obtain ⟨before, after, rfl⟩ := List.append_of_mem ht
  have hbody : ∀ line ∈ t.body, (!isHeader line) = true := fun line hl => by
    rw [(h t ht).not_isHeader_of_mem_body hl]
    rfl
  refine ⟨(after.flatMap Table.block ++ [""]).takeWhile (!isHeader ·), ?_,
    fun line hl => head_of_mem_takeWhile hl⟩
  rw [below, dropWhile_writeTables h hn, List.drop_one, List.tail_cons,
    List.takeWhile_append_of_pos hbody]

/-- A line that does not begin with a blank assigns nothing. -/
theorem assigned_append_of_head {key : String} {lines rest : List String}
    (h : ∀ line ∈ rest, line.toList.head? ≠ some ' ') :
    assigned key (lines ++ rest) = assigned key lines := by
  have hnil : assigned key rest = [] := by
    refine List.filterMap_eq_nil_iff.2 fun line hl => ?_
    rw [Option.map_eq_none_iff, Option.eq_none_iff_forall_ne_some]
    intro value hvalue
    obtain ⟨start, hline, hstart⟩ := List.dropPrefix?_eq_some_iff.1 hvalue
    rw [beq_iff_eq.1 hstart] at hline
    exact h line hl (by rw [hline]; simp [assignment])
  rw [assigned, List.filterMap_append]
  exact (congrArg _ hnil).trans (List.append_nil _)

/-- **A table is read by its name.** The assignments below its header are those of the table. -/
theorem assigned_below (h : ∀ t ∈ ts, t.Proper) (hn : (ts.map Table.name).Nodup) {t : Table}
    (ht : t ∈ ts) (key : String) :
    assigned key (below t.name (Text.lines (writeTables ts))) = assigned key t.body := by
  obtain ⟨rest, hbelow, hrest⟩ := below_writeTables h hn ht
  rw [hbelow, assigned_append_of_head hrest]

/-- The key of an assignment is what stands before the next blank. -/
theorem takeWhile_key {key : String} (h : ' ' ∉ key.toList) (after : List Char) :
    (key.toList ++ ' ' :: after).takeWhile (· ≠ ' ') = key.toList := by
  have hkey : ∀ c ∈ key.toList, decide (c ≠ ' ') = true :=
    fun c hc => decide_eq_true fun heq => h (heq ▸ hc)
  rw [List.takeWhile_append_of_pos hkey, List.takeWhile_cons_of_neg (by simp), List.append_nil]

theorem dropPrefix?_assignment {key other value : String} (hk : ' ' ∉ key.toList)
    (ho : ' ' ∉ other.toList) :
    (assignment other value).toList.dropPrefix? (assignment key "").toList =
      if other = key then some value.toList else none := by
  split_ifs with heq
  · have hline : (assignment other value).toList = (assignment key "").toList ++ value.toList := by
      simp [assignment, heq]
    rw [hline, List.dropPrefix?_append_of_beq _ (beq_self_eq_true _)]
  · rw [Option.eq_none_iff_forall_ne_some]
    intro rest hrest
    obtain ⟨start, hline, hstart⟩ := List.dropPrefix?_eq_some_iff.1 hrest
    rw [beq_iff_eq.1 hstart] at hline
    have hkeys : other.toList ++ ' ' :: ('=' :: ' ' :: value.toList) =
        key.toList ++ ' ' :: ('=' :: ' ' :: rest) := by
      simpa [assignment] using hline
    have htake := congrArg (List.takeWhile (· ≠ ' ')) hkeys
    rw [takeWhile_key ho, takeWhile_key hk] at htake
    exact heq (String.toList_injective htake)

/-- An assignment is found by its key. -/
theorem assigned_map_assignment {key : String} (hk : ' ' ∉ key.toList)
    {entries : List (String × String)} (he : ∀ e ∈ entries, ' ' ∉ e.1.toList) :
    assigned key (entries.map fun e => assignment e.1 e.2) =
      (entries.filter (·.1 = key)).map Prod.snd := by
  induction entries with
  | nil => rfl
  | cons e entries ih =>
    obtain ⟨hfirst, hrest⟩ := List.forall_mem_cons.1 he
    have hrec := ih hrest
    rw [assigned] at hrec ⊢
    rw [List.map_cons, List.filterMap_cons, dropPrefix?_assignment hk hfirst, hrec]
    by_cases heq : e.1 = key <;> simp [heq]

end Text

end Toml

end LogForwarding
