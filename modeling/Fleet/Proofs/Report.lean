import Fleet.Proofs.Member.Succession
import Fleet.Report
import Mathlib.Algebra.GroupWithZero.Nat
import Mathlib.Data.List.DropRight
import Mathlib.Data.List.Forall2

/-!
# How a report is laid out

In every line of a report a column starts at the same character, behind the columns before it and
the gaps between them. Widths count bytes and filling counts characters, but a text has no more
characters than bytes, so a cell never reaches beyond its column; and the blank space that is taken
off the end of a line stands behind the last cell, if this cell ends in something else. In the
report on the members of a roster it does, whatever the ids and addresses are, as long as none of
them is too wide for its column to be filled up; then there is no report at all. The roster makes
sure that one of the rows is that of the head, which is up.

## Main definitions

* `Report.start` — where a column starts.
* `Report.IsWidth` — how wide a column is.
* `Report.line` — a row as a line, however wide the columns are.
* `Report.Shows` — a line has its cells in the columns.
* `Report.IsMarked` — a row is that of the head.

## Main statements

* `Report.isWidth_widths` — the widths of a report are those of its columns.
* `Report.lines?_eq_some`, `Report.lines?_eq_none` — whether there are lines at all.
* `Report.forall₂_shows_lines` — each line of a report shows its cells.
* `Report.members_laid_out` — the report on the members of a roster, in every run.
* `Report.overlong_unreported` — a roster without a report.
-/

namespace Fleet.Report

variable {headings : List String} {rows : List (List String)} {cells : List String} {cell : String}
  {ws : List Nat} {cs : List Char} {k w : Nat}

/-- Where a column starts: behind the columns before it, with three spaces after each of them. -/
def start (ws : List Nat) (k : Nat) : Nat := ((ws.take k).map (· + 3)).sum

/-- The width of a column is the greatest number of bytes in its heading and its cells. -/
def IsWidth (headings : List String) (rows : List (List String)) (k w : Nat) : Prop :=
  IsGreatest {b | ∃ cells ∈ headings :: rows, ∃ cell : String, cells[k]? = some cell ∧
    cell.utf8ByteSize = b} w

/-- A row as a line, if none of the columns is too wide. -/
def line (ws : List Nat) (cells : List String) : List Char :=
  Text.trimRight (gap.intercalate (List.zipWith pad cells ws))

/-- A line shows cells in columns of some widths. -/
structure Shows (ws : List Nat) (cells : List String) (cs : List Char) : Prop where
  /-- A column has room for its cell. -/
  fits : ∀ (k : Nat) (cell : String) (w : Nat), cells[k]? = some cell → ws[k]? = some w →
    cell.length ≤ w
  /-- A cell stands where its column starts. -/
  stands : ∀ (k : Nat) (cell : String), cells[k]? = some cell →
    cell.toList <+: cs.drop (start ws k)
  /-- Between a cell and the next column there are spaces and nothing else. -/
  filled : ∀ (k : Nat) (cell : String), cells[k]? = some cell → k + 1 < cells.length →
    ∀ i, start ws k + cell.length ≤ i → i < start ws (k + 1) → cs[i]? = some ' '
  /-- The line ends with its last cell. -/
  ends : ∀ (k : Nat) (cell : String), cells[k]? = some cell → k + 1 = cells.length →
    cs.length = start ws k + cell.length

/-- The last cell of a row ends in a character that is not blank. -/
def Closed (cells : List String) : Prop :=
  ∃ cell ∈ cells.getLast?, ∃ c ∈ cell.toList.getLast?, Text.isBlank c = false

/-! ### Widths -/

theorem getElem?_widen (ws : List Nat) (cells : List String) (k : Nat) :
    (widen ws cells)[k]? =
      ws[k]?.map fun w => (cells[k]?.map String.utf8ByteSize).elim w (max w) := by
  induction ws generalizing cells k with
  | nil => cases cells <;> rfl
  | cons w ws ih =>
    cases cells with
    | nil => simp [widen]
    | cons cell cells =>
      cases k with
      | zero => rfl
      | succ k => exact ih cells k

/-- The size of the cell of a row in a column, if there is one. -/
def size? (k : Nat) (cells : List String) : Option Nat := cells[k]?.map String.utf8ByteSize

/-- Widening for several rows makes a column as wide as the sizes of its cells ask for. -/
theorem getElem?_foldl_widen (ws : List Nat) (rows : List (List String)) (k : Nat) :
    (rows.foldl widen ws)[k]? = ws[k]?.map ((rows.filterMap (size? k)).foldl max) := by
  induction rows generalizing ws with
  | nil => exact (Option.map_id' (x := ws[k]?)).symm
  | cons cells rows ih =>
    rw [List.foldl_cons, ih, getElem?_widen, Option.map_map, List.filterMap_cons, size?]
    cases cells[k]?.map String.utf8ByteSize <;> rfl

theorem isWidth_widths (h : (widths headings rows)[k]? = some w) : IsWidth headings rows k w := by
  rw [widths, getElem?_foldl_widen, List.getElem?_map, Option.map_map] at h
  obtain ⟨heading, hheading, hw⟩ := Option.map_eq_some_iff.1 h
  have hmax := List.max?_eq_some_iff.1 (List.max?_cons'.trans (congrArg some hw))
  have hsizes : {b | b ∈ heading.utf8ByteSize :: rows.filterMap (size? k)} =
      {b | ∃ cells ∈ headings :: rows, ∃ cell : String, cells[k]? = some cell ∧
        cell.utf8ByteSize = b} := by
    ext b
    simp [size?, hheading, eq_comm]
  rw [IsWidth, ← hsizes]
  exact hmax

theorem length_widen (ws : List Nat) (cells : List String) :
    (widen ws cells).length = ws.length := by
  induction ws generalizing cells with
  | nil => cases cells <;> rfl
  | cons w ws ih =>
    cases cells with
    | nil => rfl
    | cons cell cells => exact congrArg (· + 1) (ih cells)

theorem length_widths (headings : List String) (rows : List (List String)) :
    (widths headings rows).length = headings.length := by
  have hfold : ∀ ws, (rows.foldl widen ws).length = ws.length := by
    induction rows with
    | nil => exact fun _ => rfl
    | cons cells rows ih => exact fun ws => (ih _).trans (length_widen ws cells)
  rw [widths, hfold, List.length_map]

theorem length_le_utf8Len (cs : List Char) : cs.length ≤ String.utf8Len cs := by
  induction cs with
  | nil => exact Nat.le_refl _
  | cons c cs ih =>
    have hpos := c.utf8Size_pos
    rw [List.length_cons, String.utf8Len_cons]
    omega

/-- A text has no more characters than bytes. -/
theorem length_le_utf8ByteSize (s : String) : s.length ≤ s.utf8ByteSize := by
  have hle := length_le_utf8Len s.toList
  rwa [String.length_toList, ← String.utf8ByteSize_ofList, String.ofList_toList] at hle

/-- A column has room for all of its cells. -/
theorem length_le_of_isWidth (h : IsWidth headings rows k w) (hcells : cells ∈ headings :: rows)
    (hcell : cells[k]? = some cell) : cell.length ≤ w :=
  (length_le_utf8ByteSize cell).trans (h.2 ⟨cells, hcells, cell, hcell, rfl⟩)

/-! ### Columns that are too wide -/

theorem mapM_pad? (hle : ∀ w ∈ ws, w ≤ maxWidth) (cells : List String) :
    ((cells.zip ws).mapM fun (cell, width) => pad? cell width) =
      some (List.zipWith pad cells ws) := by
  induction ws generalizing cells with
  | nil =>
    rw [List.zip_nil_right, List.zipWith_nil_right]
    rfl
  | cons w ws ih =>
    cases cells with
    | nil => rfl
    | cons cell cells =>
      have hpad : pad? cell w = some (pad cell w) := if_pos (hle w List.mem_cons_self)
      simp only [List.zip_cons_cons, List.mapM_cons, hpad,
        ih fun w' h => hle w' (List.mem_cons_of_mem _ h)]
      rfl

theorem mapM_pad?_eq_none (h : ∃ w ∈ ws, maxWidth < w) (hlength : ws.length ≤ cells.length) :
    ((cells.zip ws).mapM fun (cell, width) => pad? cell width) = none := by
  induction ws generalizing cells with
  | nil => simp at h
  | cons w ws ih =>
    cases cells with
    | nil => simp at hlength
    | cons cell cells =>
      rw [List.zip_cons_cons, List.mapM_cons]
      by_cases hw : w ≤ maxWidth
      · obtain ⟨w', hw', hlt⟩ := h
        have hmem : w' ∈ ws := (List.mem_cons.1 hw').resolve_left fun heq => by omega
        rw [ih ⟨w', hmem, hlt⟩ (Nat.le_of_succ_le_succ hlength)]
        exact Option.bind_fun_none _
      · have hpad : pad? cell w = none := if_neg hw
        simp only [hpad]
        rfl

theorem line?_eq_some (hle : ∀ w ∈ ws, w ≤ maxWidth) :
    line? ws = fun cells => some (line ws cells) := by
  funext cells
  rw [line?, mapM_pad? hle]
  rfl

theorem line?_eq_none (h : ∃ w ∈ ws, maxWidth < w) (hlength : ws.length ≤ cells.length) :
    line? ws cells = none := by
  rw [line?, mapM_pad?_eq_none h hlength]
  rfl

/-- There are lines if no column is too wide. -/
theorem lines?_eq_some (hle : ∀ w ∈ widths headings rows, w ≤ maxWidth) :
    lines? headings rows =
      some ((headings.map Text.upper :: rows).map (line (widths headings rows))) := by
  rw [lines?, line?_eq_some hle]
  exact List.mapM_pure

/-- There are no lines if a column is too wide: the line of headings has a cell for it. -/
theorem lines?_eq_none (h : ∃ w ∈ widths headings rows, maxWidth < w) :
    lines? headings rows = none := by
  have hlength : (widths headings rows).length ≤ (headings.map Text.upper).length := by
    rw [length_widths, List.length_map]
  rw [lines?, List.mapM_cons, line?_eq_none h hlength]
  rfl

/-! ### One line -/

@[simp] theorem start_zero (ws : List Nat) : start ws 0 = 0 := rfl

@[simp] theorem start_cons (w : Nat) (ws : List Nat) (k : Nat) :
    start (w :: ws) (k + 1) = w + 3 + start ws k := rfl

theorem eq_of_getElem?_singleton {cell' : String} (h : [cell][k]? = some cell') :
    k = 0 ∧ cell' = cell := by
  simpa [List.getElem?_singleton, eq_comm] using h

theorem Shows.single (h : cell.length ≤ w) : Shows [w] [cell] cell.toList := by
  refine ⟨fun k cell' w' hcell hw => ?_, fun k cell' hcell => ?_, fun k cell' hcell hk => ?_,
    fun k cell' hcell hk => ?_⟩
  all_goals
    obtain ⟨rfl, rfl⟩ := eq_of_getElem?_singleton hcell
  · cases hw
    exact h
  · exact List.prefix_rfl
  · exact absurd hk (Nat.lt_irrefl 1)
  · rw [String.length_toList, start_zero, Nat.zero_add]

theorem Shows.cons {filling : Nat} (h : Shows ws cells cs) (hne : cells ≠ [])
    (hle : cell.length ≤ w) (hfilling : cell.length + filling = w + 3) :
    Shows (w :: ws) (cell :: cells) (cell.toList ++ List.replicate filling ' ' ++ cs) := by
  have hlength : (cell.toList ++ List.replicate filling ' ').length = w + 3 := by
    rw [List.length_append, List.length_replicate, String.length_toList, hfilling]
  refine ⟨fun k => ?_, fun k => ?_, fun k => ?_, fun k => ?_⟩
  · cases k with
    | zero =>
      intro cell' w' hcell hw
      cases hcell
      cases hw
      exact hle
    | succ k => exact fun cell' w' => h.fits k cell' w'
  · cases k with
    | zero =>
      intro cell' hcell
      cases hcell
      rw [start_zero, List.append_assoc]
      exact List.prefix_append ..
    | succ k =>
      intro cell' hcell
      rw [start_cons, ← List.drop_drop, ← hlength, List.drop_left]
      exact h.stands k cell' hcell
  · cases k with
    | zero =>
      intro cell' hcell _ i hi hlt
      cases hcell
      rw [start_zero, Nat.zero_add] at hi
      rw [start_cons, start_zero, Nat.add_zero] at hlt
      rw [List.getElem?_append_left (hlength ▸ hlt),
        List.getElem?_append_right (by rwa [String.length_toList]), List.getElem?_replicate,
        if_pos (by rw [String.length_toList]; omega)]
    | succ k =>
      intro cell' hcell hk i hi hlt
      rw [start_cons] at hi hlt
      rw [List.getElem?_append_right (by omega), hlength]
      exact h.filled k cell' hcell (Nat.lt_of_succ_lt_succ hk) _ (by omega) (by omega)
  · cases k with
    | zero =>
      intro cell' _ hk
      exact absurd (List.length_eq_zero_iff.1 (Nat.succ.inj hk).symm) hne
    | succ k =>
      intro cell' hcell hk
      rw [List.length_append, hlength, h.ends k cell' hcell (Nat.succ.inj hk), start_cons]
      omega

/-! ### What is taken off the end -/

theorem trimRight_append_spaces (cs : List Char) (n : Nat) :
    Text.trimRight (cs ++ List.replicate n ' ') = Text.trimRight cs := by
  induction n with
  | zero => rw [List.replicate_zero, List.append_nil]
  | succ n ih =>
    rw [List.replicate_succ', ← List.append_assoc, ← ih]
    exact List.rdropWhile_concat_pos _ _ _ rfl

theorem trimRight_concat {c : Char} (hc : Text.isBlank c = false) (cs : List Char) :
    Text.trimRight (cs ++ [c]) = cs ++ [c] :=
  List.rdropWhile_concat_neg _ _ _ (Bool.eq_false_iff.1 hc)

theorem pad_append_gap (cell : String) (w : Nat) :
    pad cell w ++ gap = cell.toList ++ List.replicate (w - cell.length + 3) ' ' := by
  rw [pad, List.append_assoc, List.replicate_add]
  rfl

/-- The cells of a row, filled up and set side by side, show the row, but for the spaces behind the
last one. -/
theorem exists_shows (hlength : cells.length = ws.length) (hclosed : Closed cells)
    (hfits : ∀ (k : Nat) (cell : String) (w : Nat), cells[k]? = some cell → ws[k]? = some w →
      cell.length ≤ w) :
    ∃ front c n, gap.intercalate (List.zipWith pad cells ws) =
        front ++ [c] ++ List.replicate n ' ' ∧
      Text.isBlank c = false ∧ Shows ws cells (front ++ [c]) := by
  -- The last cell is not followed by a gap, so the induction has two cases for a row with cells.
  induction cells generalizing ws with
  | nil =>
    obtain ⟨cell, hcell, -⟩ := hclosed
    cases hcell
  | cons cell cells ih =>
    obtain ⟨w, ws, rfl⟩ := List.exists_cons_of_length_eq_add_one hlength.symm
    have hle : cell.length ≤ w := hfits 0 cell w rfl rfl
    cases cells with
    | nil =>
      obtain rfl : ws = [] := List.length_eq_zero_iff.1 (Nat.succ.inj hlength).symm
      obtain ⟨last, hlast, c, hc, hblank⟩ := hclosed
      cases hlast
      obtain ⟨front, hfront⟩ := List.getLast?_eq_some_iff.1 hc
      refine ⟨front, c, w - cell.length, ?_, hblank, hfront ▸ .single hle⟩
      rw [← hfront]
      exact List.intercalate_singleton
    | cons next cells =>
      obtain ⟨w', ws, rfl⟩ := List.exists_cons_of_length_eq_add_one (Nat.succ.inj hlength).symm
      obtain ⟨front, c, n, hline, hblank, hshows⟩ := ih (Nat.succ.inj hlength) hclosed
        fun k => hfits (k + 1)
      refine ⟨cell.toList ++ List.replicate (w - cell.length + 3) ' ' ++ front, c, n, ?_, hblank,
        ?_⟩
      · rw [List.zipWith_cons_cons] at hline ⊢
        rw [List.zipWith_cons_cons, List.intercalate_cons_cons, pad_append_gap, hline]
        simp only [List.append_assoc]
      · rw [List.append_assoc]
        exact hshows.cons (List.cons_ne_nil _ _) hle (by omega)

theorem shows_line (hlength : cells.length = ws.length) (hclosed : Closed cells)
    (hfits : ∀ (k : Nat) (cell : String) (w : Nat), cells[k]? = some cell → ws[k]? = some w →
      cell.length ≤ w) : Shows ws cells (line ws cells) := by
  obtain ⟨front, c, n, hline, hblank, hshows⟩ := exists_shows hlength hclosed hfits
  rw [line, hline, trimRight_append_spaces, trimRight_concat hblank]
  exact hshows

/-- Every line of a report shows its cells, if the rows have a cell for each column, the last one
ends in a character that is not blank, and no heading gets longer than it was by its upper case. -/
theorem forall₂_shows_lines
    (hlength : ∀ cells ∈ rows, cells.length = headings.length)
    (hclosed : ∀ cells ∈ headings.map Text.upper :: rows, Closed cells)
    (hupper : ∀ heading ∈ headings, (Text.upper heading).length ≤ heading.utf8ByteSize) :
    List.Forall₂ (Shows (widths headings rows)) (headings.map Text.upper :: rows)
      ((headings.map Text.upper :: rows).map (line (widths headings rows))) := by
  rw [List.forall₂_map_right_iff, List.forall₂_same]
  intro cells hcells
  refine shows_line ?_ (hclosed cells hcells) fun k cell w hcell hw => ?_
  · rw [length_widths]
    rcases List.mem_cons.1 hcells with rfl | hrow
    · exact List.length_map _
    · exact hlength cells hrow
  · have hwidth := isWidth_widths hw
    rcases List.mem_cons.1 hcells with rfl | hrow
    · rw [List.getElem?_map] at hcell
      obtain ⟨heading, hheading, rfl⟩ := Option.map_eq_some_iff.1 hcell
      exact (hupper heading (List.mem_of_getElem? hheading)).trans
        (hwidth.2 ⟨headings, List.mem_cons_self, heading, hheading, rfl⟩)
    · exact length_le_of_isWidth hwidth (List.mem_cons_of_mem _ hrow) hcell

example : lines? ["id", "cpu"] [["节点", "-"]] =
    some ["ID       CPU".toList, "节点       -".toList] := by decide +kernel

/-! ### The report on members -/

/-- The number of the column with a heading. -/
def column (heading : String) : Nat := memberHeadings.idxOf heading

/-- A row is marked as that of the head. -/
def IsMarked (cells : List String) : Prop := cells[column "role"]? = some "head"

/-- A row says that its member is up. -/
def IsUp (cells : List String) : Prop := cells[column "status"]? = some "Up"

theorem isMarked_memberRow {head : String} {m : Member} :
    IsMarked (memberRow head m) ↔ m.id = head := by
  have hcolumn : column "role" = 3 := by decide
  by_cases h : m.id = head <;> simp [IsMarked, hcolumn, memberRow, h]

theorem isUp_memberRow {head : String} {m : Member} :
    IsUp (memberRow head m) ↔ m.available = true := by
  have hcolumn : column "status" = 2 := by decide
  by_cases h : m.available = true <;> simp [IsUp, hcolumn, memberRow, h]

theorem closed_memberRow (head : String) (m : Member) : Closed (memberRow head m) := by
  refine ⟨(m.load.map cpuCell).getD "-", rfl, ?_⟩
  cases m.load with
  | none => exact ⟨'-', rfl, rfl⟩
  | some l =>
    change ∃ c ∈ (cpuCell l).toList.getLast?, _
    rw [cpuCell]
    split
    · exact ⟨'%', by simp, rfl⟩
    · exact ⟨'-', rfl, rfl⟩

theorem upper_memberHeadings :
    memberHeadings.map Text.upper = ["ID", "ADDRESS", "STATUS", "ROLE", "MEMORY", "CPU"] := by
  decide +kernel

/-- The lines of the report on members show the members. -/
theorem forall₂_shows_members (ms : List Member) (head : String) :
    List.Forall₂ (Shows (widths memberHeadings (ms.map (memberRow head))))
      (memberHeadings.map Text.upper :: ms.map (memberRow head))
      ((memberHeadings.map Text.upper :: ms.map (memberRow head)).map
        (line (widths memberHeadings (ms.map (memberRow head))))) := by
  refine forall₂_shows_lines (fun cells hcells => ?_) (fun cells hcells => ?_) ?_
  · obtain ⟨m, -, rfl⟩ := List.mem_map.1 hcells
    rfl
  · rcases List.mem_cons.1 hcells with rfl | hrow
    · rw [upper_memberHeadings]
      exact ⟨"CPU", rfl, 'U', rfl, rfl⟩
    · obtain ⟨m, -, rfl⟩ := List.mem_map.1 hrow
      exact closed_memberRow head m
  · decide +kernel

/-- The report on at least one member is made of its lines. -/
theorem members?_eq {ms : List Member} (h : ms ≠ []) (head : String) :
    members? ms head = (lines? memberHeadings (ms.map (memberRow head))).map fun ls =>
      String.ofList (ls.flatMap (· ++ ['\n'])) := by
  have hrows : (ms.map (memberRow head)).isEmpty = false := by
    simpa [List.isEmpty_eq_false_iff] using h
  rw [members?, table?, hrows]
  rfl

/-- There is no report on members one of which has an id that is too long. -/
theorem members?_eq_none {ms : List Member} {m : Member} (hm : m ∈ ms) (head : String)
    (hlong : maxWidth < m.id.utf8ByteSize) : members? ms head = none := by
  have hrow : memberRow head m ∈ memberHeadings :: ms.map (memberRow head) :=
    List.mem_cons_of_mem _ (List.mem_map_of_mem hm)
  have hlength := length_widths memberHeadings (ms.map (memberRow head))
  have hlt : 0 < (widths memberHeadings (ms.map (memberRow head))).length := by
    rw [hlength]
    decide
  have hwidth := isWidth_widths (List.getElem?_eq_getElem hlt)
  have hwide := hwidth.2 ⟨_, hrow, m.id, rfl, rfl⟩
  rw [members?_eq (List.ne_nil_of_mem hm),
    lines?_eq_none ⟨_, List.getElem_mem hlt, hlong.trans_le hwide⟩]
  rfl

/-- Just one row is marked, since no two members have one id. -/
theorem existsUnique_marked {me : Identity} {r : Roster} (h : r.Sorted me) :
    ∃! k : Nat, ∃ cells, (r.members.map (memberRow r.head.id))[k]? = some cells ∧
      IsMarked cells := by
  have hhead := (Roster.mem_available.1 (Roster.head_mem_available h.available)).1
  have hnodup : r.members.Nodup := h.members_eq ▸ List.Nodup.of_map _ h.shows.distinct
  obtain ⟨k, hk⟩ := List.getElem?_of_mem hhead
  refine ⟨k, ⟨_, by rw [List.getElem?_map, hk]; rfl, isMarked_memberRow.2 rfl⟩, ?_⟩
  rintro k' ⟨cells, hcells, hmarked⟩
  rw [List.getElem?_map] at hcells
  obtain ⟨m, hm, rfl⟩ := Option.map_eq_some_iff.1 hcells
  have heq := h.eq_of_id_eq (List.mem_of_getElem? hm) hhead (isMarked_memberRow.1 hmarked)
  obtain ⟨hlt, -⟩ := List.getElem?_eq_some_iff.1 hm
  exact (List.getElem?_inj hlt hnodup).1 (hm.trans (heq ▸ hk.symm))

/-- In every run the report on the members of a roster has a line of headings and a line for each
member, in the order of the roster, if no column is too wide, and otherwise there is no report. All
lines show their cells in columns that start at the same characters, whatever the ids, the addresses
and the loads are. Just one row is marked as that of the head, and the member that is marked is
up. -/
theorem members_laid_out (me : Identity) (ops : List Roster.Op) :
    let r := (Roster.new me).run ops
    let rows := r.members.map (memberRow r.head.id)
    let ws := widths memberHeadings rows
    ((∀ w ∈ ws, w ≤ maxWidth) → ∃ ls,
      members? r.members r.head.id = some (String.ofList (ls.flatMap (· ++ ['\n']))) ∧
      List.Forall₂ (Shows ws) (memberHeadings.map Text.upper :: rows) ls) ∧
    ((∃ w ∈ ws, maxWidth < w) → members? r.members r.head.id = none) ∧
    ws.length = memberHeadings.length ∧
    (∀ k w, ws[k]? = some w → IsWidth memberHeadings rows k w) ∧
    (∃! k : Nat, ∃ cells, rows[k]? = some cells ∧ IsMarked cells) ∧
    ∀ cells ∈ rows, IsMarked cells → IsUp cells := by
  intro r rows ws
  have h : r.Sorted me := (Roster.run_new me ops).1
  obtain ⟨hhead, hup⟩ := Roster.mem_available.1 (Roster.head_mem_available h.available)
  have hne : r.members ≠ [] := List.ne_nil_of_mem hhead
  refine ⟨fun hle => ⟨_, ?_, forall₂_shows_members ..⟩, fun hwide => ?_, length_widths ..,
    fun k w => isWidth_widths, existsUnique_marked h, fun cells hcells hmarked => ?_⟩
  · rw [members?_eq hne, lines?_eq_some hle]
    rfl
  · rw [members?_eq hne, lines?_eq_none hwide]
    rfl
  · obtain ⟨m, hm, rfl⟩ := List.mem_map.1 hcells
    rw [h.eq_of_id_eq hm hhead (isMarked_memberRow.1 hmarked), isUp_memberRow]
    exact hup

/-- The id of a node that has no report on itself: it is one byte too long. -/
def overlong : String := String.ofList (List.replicate (maxWidth + 1) 'a')

theorem lt_utf8ByteSize_overlong : maxWidth < overlong.utf8ByteSize := by
  have hlength : overlong.length = maxWidth + 1 := by
    rw [overlong, String.length_ofList, List.length_replicate]
  have hle := length_le_utf8ByteSize overlong
  omega

theorem overlong_unreported :
    let r := Roster.new ⟨overlong, ""⟩
    members? r.members r.head.id = none :=
  members?_eq_none List.mem_cons_self _ lt_utf8ByteSize_overlong

end Fleet.Report
