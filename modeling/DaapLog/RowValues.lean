import DaapLog.ResultsParser
import DaapLog.Tokens

/-!
What a row of a table sends, read off the row as a whole: the values of its columns in
order, each under the name with its number.
-/

namespace DaapLog.RowValues

open DaapLog.CStrings
open DaapLog.TableTemplates
open DaapLog.ResultsParser
open DaapLog.Tokens

/-- The values that are read of a column, whose elements carry its characters. -/
def columnValues {α : Type*} (char : α → Char) (table : table_t) (column : List α) :
    List (List α) :=
  if strstr (column.map char) table.val_sep then
    tokens (fun a => decide (char a ∈ table.val_sep)) column
  else []

def name (table : table_t) (slot : Nat) : Text := table.val_names.getD slot []

/-- A value with this number is not sent. -/
def Skips (table : table_t) (slot : Nat) : Prop := strstr (name table slot) "_skip"

instance (table : table_t) (slot : Nat) : Decidable (Skips table slot) :=
  inferInstanceAs (Decidable (_ = true))

/-- The calls of `sendResult` for values that are numbered from `val_found` on. -/
def sends (table : table_t) (val_found : Nat) (values : List Text) : List Event :=
  (values.zipIdx val_found).filterMap fun value =>
    if Skips table value.2 then none else some (.send (name table value.2) value.1)

theorem strtok_eq_tokens (delims text : Text) :
    strtok delims text = tokens (fun c => decide (c ∈ delims)) text := by
  rw [strtok, tokens]
  refine List.filter_congr fun token _ => ?_
  cases token with
  | nil => rfl
  | cons c token => rfl

theorem strtok_of_strstr (table : table_t) (column : Text) :
    columnValues id table column =
      if strstr column table.val_sep then strtok table.val_sep column else [] := by
  rw [columnValues, List.map_id, strtok_eq_tokens]
  rfl

theorem map_columnValues {α : Type*} (char : α → Char) (table : table_t) (column : List α) :
    (columnValues char table column).map (List.map char) =
      columnValues id table (column.map char) := by
  rw [columnValues, columnValues, List.map_id]
  split
  · exact map_tokens char (fun c => decide (c ∈ table.val_sep)) column
  · rfl

theorem sends_cons (table : table_t) (val_found : Nat) (value : Text) (values : List Text) :
    sends table val_found (value :: values) =
      if Skips table val_found then sends table (val_found + 1) values
      else .send (name table val_found) value :: sends table (val_found + 1) values := by
  rw [sends, List.zipIdx_cons, List.filterMap_cons]
  split
  · next hnone =>
      split at hnone
      · next hskip =>
          rw [if_pos hskip]
          rfl
      · exact absurd hnone nofun
  · next event hsome =>
      split at hsome
      · exact absurd hsome nofun
      · next hskip =>
          rw [if_neg hskip, ← Option.some.inj hsome]
          rfl

theorem sends_append (table : table_t) (val_found : Nat) (values values' : List Text) :
    sends table val_found (values ++ values') =
      sends table val_found values ++ sends table (val_found + values.length) values' := by
  rw [sends, List.zipIdx_append, List.filterMap_append, Nat.add_comm]
  rfl

theorem sendValues_eq (table : table_t) {val_found : Nat} (hfound : val_found ≤ MAX_VALS)
    (values : List Text) :
    sendValues table val_found values =
      if val_found + values.length ≤ MAX_VALS then
        some (val_found + values.length, sends table val_found values)
      else none := by
  induction values generalizing val_found with
  | nil =>
      rw [List.length_nil, Nat.add_zero, if_pos hfound]
      rfl
  | cons value values ih =>
      rw [sendValues, List.length_cons, ← Nat.add_assoc, Nat.add_right_comm]
      rcases Nat.lt_or_ge val_found MAX_VALS with hlt | hge
      · rw [if_pos hlt]
        dsimp only
        rw [ih hlt]
        rcases Nat.lt_or_ge MAX_VALS (val_found + 1 + values.length) with hmany | hfew
        · rw [if_neg (not_le.mpr hmany), if_neg (not_le.mpr hmany)]
          rfl
        · rw [if_pos hfew, if_pos hfew, Option.map_some, sends_cons]
          split
          · next hskip =>
              have hskips : Skips table val_found := hskip
              rw [if_pos hskips]
          · next hskip =>
              have hskips : ¬Skips table val_found := hskip
              rw [if_neg hskips]
              rfl
      · rw [if_neg (not_lt.mpr hge), if_neg (by omega)]

theorem storeColumns_eq {i : Nat} (hi : i ≤ MAX_COLS) (columns_tokens : List Text)
    (columns : Nat → Text) :
    storeColumns i columns_tokens columns =
      if i + columns_tokens.length ≤ MAX_COLS then
        some fun j => if j < i then columns j else
          (columns_tokens[j - i]?.map List.dropLast).getD (columns j)
      else none := by
  induction columns_tokens generalizing i columns with
  | nil =>
      rw [List.length_nil, Nat.add_zero, if_pos hi, storeColumns]
      congr 1
      funext j
      split
      · rfl
      · rfl
  | cons token rest ih =>
      rw [storeColumns, List.length_cons]
      rcases Nat.lt_or_ge i MAX_COLS with hlt | hge
      · rw [if_pos hlt, ih hlt]
        have hlength : i + 1 + rest.length = i + (rest.length + 1) := by omega
        rw [hlength]
        congr 2
        funext j
        rcases lt_trichotomy j i with hj | rfl | hj
        · rw [if_pos (by omega), if_pos hj, Function.update_of_ne (by omega)]
        · rw [if_pos (by omega), if_neg (by omega), Nat.sub_self, Function.update_self]
          rfl
        · obtain ⟨k, rfl⟩ := Nat.exists_eq_add_of_lt hj
          rw [if_neg (by omega), if_neg (by omega), Function.update_of_ne (by omega)]
          have hfirst : i + k + 1 - (i + 1) = k := by omega
          have hrest : i + k + 1 - i = k + 1 := by omega
          rw [hfirst, hrest, List.getElem?_cons_succ]
      · rw [if_neg (not_lt.mpr hge), if_neg (by omega)]

theorem readColumns_none (table : table_t) {is : List Nat} {i : Nat} (hi : i ∈ is)
    (hlarge : MAX_COLS ≤ i) (columns : Nat → Text) (val_found : Nat) :
    readColumns table is columns val_found = none := by
  induction is generalizing columns val_found with
  | nil => exact absurd hi List.not_mem_nil
  | cons j rest ih =>
      rw [readColumns]
      split
      · next hj =>
          have hrest : i ∈ rest := (List.mem_cons.mp hi).resolve_left (by omega)
          split
          · refine Option.bind_eq_none_iff.mpr fun r _ => ?_
            rw [ih hrest]
            rfl
          · exact ih hrest columns val_found
      · rfl

theorem flatMap_update (table : table_t) {is : List Nat} {i : Nat} (hi : i ∉ is)
    (columns : Nat → Text) (rest : Text) :
    (is.flatMap fun j => columnValues id table (Function.update columns i rest j)) =
      is.flatMap fun j => columnValues id table (columns j) := by
  apply List.flatMap_congr
  intro j hj
  rw [Function.update_of_ne]
  rintro rfl
  exact hi hj

theorem readColumns_eq (table : table_t) {is : List Nat} (hnodup : is.Nodup)
    (his : ∀ i ∈ is, i < MAX_COLS) (columns : Nat → Text) {val_found : Nat}
    (hfound : val_found ≤ MAX_VALS) :
    (readColumns table is columns val_found).map Prod.snd =
      let values := is.flatMap fun i => columnValues id table (columns i)
      if val_found + values.length ≤ MAX_VALS then some (sends table val_found values)
      else none := by
  induction is generalizing columns val_found with
  | nil =>
      rw [List.flatMap_nil]
      exact (if_pos hfound).symm
  | cons i rest ih =>
      obtain ⟨hi, hrest⟩ := List.nodup_cons.mp hnodup
      rw [List.forall_mem_cons] at his
      rw [readColumns, if_pos his.1, List.flatMap_cons, strtok_of_strstr]
      dsimp only
      split
      · rw [sendValues_eq table hfound]
        rw [List.length_append, ← Nat.add_assoc]
        split
        · next hfew =>
            rw [Option.bind_some]
            have hlater := congrArg (Option.map (sends table val_found
                (strtok table.val_sep (columns i)) ++ ·))
              (ih hrest his.2
                (Function.update columns i (strtokRest table.val_sep (columns i))) hfew)
            dsimp only at hlater
            rw [flatMap_update table hi] at hlater
            rw [Option.map_map]
            rw [Option.map_map] at hlater
            refine Eq.trans ?_ (hlater.trans ?_)
            · rfl
            · rw [sends_append]
              split
              · rfl
              · rfl
        · next hmany => rw [if_neg (by omega), Option.bind_none, Option.map_none]
      · rw [List.nil_append]
        exact ih hrest his.2 columns hfound

/-- Column `i` behind the copying: a column of the row without its last character, or
what an earlier row left. -/
def stored (table : table_t) (line : Text) (columns : Nat → Text) (i : Nat) : Text :=
  ((strtok table.sep line)[i]?.map List.dropLast).getD (columns i)

def textValues (table : table_t) (line : Text) (columns : Nat → Text) : List Text :=
  (List.range table.cols.toNat).flatMap fun i => columnValues id table (stored table line columns i)

/-- A row sends the values of its columns in order unless it has too many columns or
values. -/
theorem readRow_eq (table : table_t) (line : Text) (columns : Nat → Text) :
    (readRow table line columns).map Prod.snd =
      if (strtok table.sep line).length ≤ MAX_COLS ∧ table.cols ≤ MAX_COLS ∧
          (textValues table line columns).length ≤ MAX_VALS then
        some (sends table 0 (textValues table line columns))
      else none := by
  rw [readRow, storeColumns_eq (Nat.zero_le _), Nat.zero_add]
  split
  · next hcolumns =>
      have hstored : (fun j => if j < 0 then columns j else
          ((strtok table.sep line)[j - 0]?.map List.dropLast).getD (columns j)) =
            stored table line columns := by
        funext j
        rw [if_neg (Nat.not_lt_zero j), Nat.sub_zero]
        rfl
      rw [Option.bind_some, hstored]
      simp only [hcolumns, true_and]
      rcases le_or_gt table.cols MAX_COLS with hcols | hcols
      · have his : ∀ i ∈ List.range table.cols.toNat, i < MAX_COLS := by
          intro i hi
          have := List.mem_range.mp hi
          omega
        rw [readColumns_eq table List.nodup_range his _ (Nat.zero_le _)]
        simp only [hcols, true_and, Nat.zero_add]
        rfl
      · have hlarge : MAX_COLS ∈ List.range table.cols.toNat := List.mem_range.mpr (by omega)
        rw [readColumns_none table hlarge le_rfl, if_neg fun h => absurd h.1 (not_le.mpr hcols)]
        rfl
  · next hcolumns => rw [if_neg fun h => hcolumns h.1, Option.bind_none, Option.map_none]

theorem flatMap_range_getD {α β γ : Type*} {l : List α} {n : Nat} (hn : n ≤ l.length)
    (f : β → List γ) (g : α → β) (other : Nat → β) :
    ((List.range n).flatMap fun i => f ((l[i]?.map g).getD (other i))) =
      (l.take n).flatMap fun a => f (g a) := by
  induction n with
  | zero => rw [List.range_zero, List.take_zero, List.flatMap_nil, List.flatMap_nil]
  | succ n ih =>
      rw [List.range_succ, List.flatMap_append, ih (Nat.le_of_succ_le hn), List.take_add_one,
        List.flatMap_append, List.flatMap_singleton, List.getElem?_eq_getElem hn]
      exact congrArg _ (List.flatMap_singleton _ _).symm

section Places

/-- A character of a row with its place, or one without a place that an earlier row left. -/
abbrev Placed := Char × Option Nat

def placed (line : Text) : List Placed := line.zipIdx.map fun c => (c.1, some c.2)

def leftover (text : Text) : List Placed := text.map fun c => (c, none)

def rowColumns (table : table_t) (line : Text) : List (List Placed) :=
  tokens (fun c => decide (c.1 ∈ table.sep)) (placed line)

/-- Column `i` behind the copying, with the places of its characters. -/
def storedPlaced (table : table_t) (line : Text) (columns : Nat → Text) (i : Nat) : List Placed :=
  ((rowColumns table line)[i]?.map List.dropLast).getD (leftover (columns i))

def rowValues (table : table_t) (line : Text) (columns : Nat → Text) : List (List Placed) :=
  (List.range table.cols.toNat).flatMap fun i =>
    columnValues Prod.fst table (storedPlaced table line columns i)

/-- The calls of `sendResult` for a row: the number of the name and the value with its
place. -/
def calls (table : table_t) (line : Text) (columns : Nat → Text) : List (Nat × List Placed) :=
  (rowValues table line columns).zipIdx.filterMap fun value =>
    if Skips table value.2 then none else some (value.2, value.1)

def eventOf (table : table_t) (call : Nat × List Placed) : Event :=
  .send (name table call.1) (call.2.map Prod.fst)

variable (table : table_t) (line : Text) (columns : Nat → Text)

theorem map_placed : (placed line).map Prod.fst = line := by
  rw [placed, List.map_map]
  exact List.zipIdx_map_fst 0 line

theorem nodup_placed : (placed line).Nodup := by
  have hplaces : (placed line).map Prod.snd = (List.range' 0 line.length).map some := by
    rw [placed, List.map_map, ← List.zipIdx_map_snd 0 line, List.map_map]
    rfl
  apply List.Nodup.of_map Prod.snd
  rw [hplaces]
  exact List.Nodup.map (Option.some_injective Nat) List.nodup_range'

theorem map_rowColumns :
    (rowColumns table line).map (List.map Prod.fst) = strtok table.sep line := by
  rw [rowColumns, map_tokens Prod.fst fun c => decide (c ∈ table.sep), map_placed,
    strtok_eq_tokens]

theorem map_storedPlaced (i : Nat) :
    (storedPlaced table line columns i).map Prod.fst = stored table line columns i := by
  rw [storedPlaced, stored, ← map_rowColumns, List.getElem?_map]
  cases (rowColumns table line)[i]? with
  | none =>
      rw [Option.map_none, Option.map_none, Option.map_none, Option.getD_none, Option.getD_none,
        leftover, List.map_map]
      exact List.map_id _
  | some column =>
      rw [Option.map_some, Option.map_some, Option.map_some, Option.getD_some, Option.getD_some,
        List.map_dropLast]

theorem map_rowValues :
    (rowValues table line columns).map (List.map Prod.fst) = textValues table line columns := by
  rw [rowValues, textValues, List.map_flatMap]
  apply List.flatMap_congr
  intro i _
  rw [map_columnValues, map_storedPlaced]

theorem map_calls :
    (calls table line columns).map (eventOf table) =
      sends table 0 (textValues table line columns) := by
  rw [calls, sends, ← map_rowValues, List.zipIdx_map, List.map_filterMap, List.filterMap_map]
  apply List.filterMap_congr
  rintro ⟨value, slot⟩ -
  dsimp only [Function.comp_apply, Prod.map_apply, id_eq]
  split
  · rfl
  · rfl

end Places

end DaapLog.RowValues
