import DaapLog.Ranks
import DaapLog.RowValues

/-!
The values of a row as they are printed, those that the loop comes to, and the numbers
that they get.
-/

namespace DaapLog.NumberedValues

open DaapLog.CStrings
open DaapLog.TableTemplates
open DaapLog.ResultsParser
open DaapLog.Tokens
open DaapLog.Ranks
open DaapLog.RowValues

/-- A value as it is printed, and its column. -/
structure Printed where
  column : List Placed
  value : List Placed

def printedOf (table : table_t) (column : List Placed) : List Printed :=
  (tokens (fun c => decide (c.1 ∈ table.val_sep)) column).map fun value => ⟨column, value⟩

/-- The values of the columns of a row that are looked at. -/
def printed (table : table_t) (line : Text) : List Printed :=
  ((rowColumns table line).take table.cols.toNat).flatMap (printedOf table)

/-- `val_sep` is in front of the last character of the column, and the value is not that
character alone. -/
def reached (table : table_t) (r : Printed) : Bool :=
  strstr (r.column.dropLast.map Prod.fst) table.val_sep &&
    !(decide (r.value <:+ r.column) && r.value.length == 1)

/-- A value without the last character of its column. -/
def kept (r : Printed) : List Placed :=
  if r.value <:+ r.column then r.value.dropLast else r.value

/-- The values of columns that the row does not have: what earlier rows left there. -/
def leftovers (table : table_t) (line : Text) (columns : Nat → Text) : List (List Placed) :=
  ((List.range table.cols.toNat).drop (rowColumns table line).length).flatMap fun i =>
    columnValues Prod.fst table (leftover (columns i))

/-- A place that is not in a value: a separator. -/
def isSep (table : table_t) (c : Placed) : Bool :=
  decide (c.1 ∈ table.sep) || decide (c.1 ∈ table.val_sep)

def isTerminator (c : Placed) : Bool := isEol c.1

variable {table : table_t} {line : Text} {columns : Nat → Text}

theorem kept_isPrefix (r : Printed) : kept r <+: r.value := by
  rw [kept]
  split
  · exact List.dropLast_prefix r.value
  · exact List.prefix_rfl

theorem nodup_of_mem_rowColumns {column : List Placed} (h : column ∈ rowColumns table line) :
    column.Nodup :=
  (nodup_placed line).sublist (mem_tokens h).2.2.sublist

theorem shorten_eq (column value : List Placed) (hsep : strstr (column.dropLast.map Prod.fst)
    table.val_sep) :
    shorten column value =
      if reached table ⟨column, value⟩ then some (kept ⟨column, value⟩) else none := by
  rw [shorten, reached, kept, hsep]
  dsimp only
  split
  · next hend => simp [hend]
  · next hend => simp [hend]

theorem columnValues_dropLast {column : List Placed} (hnodup : column.Nodup) :
    columnValues Prod.fst table column.dropLast =
      ((printedOf table column).filter (reached table)).map kept := by
  rw [columnValues, printedOf, List.filter_map, List.map_map]
  split
  · next hsep =>
      rw [tokens_dropLast hnodup, ← List.filterMap_eq_map, List.filterMap_filter]
      apply List.filterMap_congr
      intro value _
      exact shorten_eq column value hsep
  · next hsep =>
      have hnone : ∀ value ∈ tokens (fun c : Placed => decide (c.1 ∈ table.val_sep)) column,
          ¬(reached table ∘ fun value => ⟨column, value⟩) value = true := by
        intro value _ hreached
        rw [Function.comp_apply, reached, Bool.and_eq_true] at hreached
        exact hsep hreached.1
      rw [List.filter_eq_nil_iff.mpr hnone, List.map_nil]

theorem rowValues_eq (table : table_t) (line : Text) (columns : Nat → Text) :
    rowValues table line columns =
      ((printed table line).filter (reached table)).map kept ++ leftovers table line columns := by
  have hsplit := List.take_append_drop (rowColumns table line).length
    (List.range table.cols.toNat)
  rw [rowValues, ← hsplit, List.flatMap_append]
  congr 1
  · have hcolumns := flatMap_range_getD (l := rowColumns table line)
      (min_le_right table.cols.toNat _) (columnValues Prod.fst table) List.dropLast
      fun i => leftover (columns i)
    rw [List.take_range, Nat.min_comm]
    refine hcolumns.trans ?_
    rw [← List.take_take, List.take_length, printed, List.filter_flatMap, List.map_flatMap]
    apply List.flatMap_congr
    intro column hcolumn
    exact columnValues_dropLast (nodup_of_mem_rowColumns (List.mem_of_mem_take hcolumn))
  · apply List.flatMap_congr
    intro i hi
    have hmissing : (rowColumns table line).length ≤ i := by
      obtain ⟨j, hj, rfl⟩ := List.mem_iff_getElem.mp hi
      rw [List.getElem_drop, List.getElem_range]
      exact Nat.le_add_right _ j
    rw [storedPlaced, List.getElem?_eq_none hmissing]
    rfl

theorem map_printed (table : table_t) (line : Text) :
    (printed table line).map Printed.value =
      ((rowColumns table line).take table.cols.toNat).flatMap
        (tokens fun c => decide (c.1 ∈ table.val_sep)) := by
  rw [printed, List.map_flatMap]
  apply List.flatMap_congr
  intro column _
  rw [printedOf, List.map_map]
  exact List.map_id _

theorem printed_isPrefix (table : table_t) (line : Text) :
    (printed table line).map Printed.value <+: tokens (isSep table) (placed line) := by
  have htokens := flatMap_tokens (fun c : Placed => decide (c.1 ∈ table.sep))
    (fun c => decide (c.1 ∈ table.val_sep)) (placed line)
  refine ⟨((rowColumns table line).drop table.cols.toNat).flatMap
    (tokens fun c => decide (c.1 ∈ table.val_sep)), ?_⟩
  rw [map_printed, ← List.flatMap_append, List.take_append_drop]
  exact htokens

theorem getElem?_tokens_of_printed {p : Nat} {r : Printed} (h : (printed table line)[p]? = some r) :
    (tokens (isSep table) (placed line))[p]? = some r.value := by
  obtain ⟨hp, rfl⟩ := List.getElem?_eq_some_iff.mp h
  have hvalue := List.prefix_iff_getElem?.mp (printed_isPrefix table line) p
    (by rwa [List.length_map])
  rwa [List.getElem_map] at hvalue

theorem mem_calls_iff {slot : Nat} {value : List Placed} :
    (slot, value) ∈ calls table line columns ↔
      ¬Skips table slot ∧ (rowValues table line columns)[slot]? = some value := by
  rw [calls, List.mem_filterMap]
  constructor
  · rintro ⟨⟨value', slot'⟩, hmem, hcall⟩
    split at hcall
    · exact absurd hcall.symm (Option.some_ne_none _)
    · next hskip =>
        obtain ⟨rfl, rfl⟩ := Prod.mk.inj (Option.some.inj hcall)
        exact ⟨hskip, List.mk_mem_zipIdx_iff_getElem?.mp hmem⟩
  · rintro ⟨hskip, hvalue⟩
    exact ⟨(value, slot), List.mk_mem_zipIdx_iff_getElem?.mpr hvalue, if_neg hskip⟩

/-- A call is for a printed value that is reached or for a leftover, under its number. -/
theorem mem_calls {slot : Nat} {value : List Placed} :
    (slot, value) ∈ calls table line columns ↔
      ¬Skips table slot ∧
        ((∃ p r, (printed table line)[p]? = some r ∧ reached table r = true ∧
            rank (reached table) (printed table line) p = slot ∧ kept r = value) ∨
          ∃ j, (leftovers table line columns)[j]? = some value ∧
            (printed table line).countP (reached table) + j = slot) := by
  rw [mem_calls_iff, rowValues_eq, getElem?_append_eq_some_iff, List.length_map,
    ← List.countP_eq_length_filter, List.getElem?_map]
  simp only [Option.map_eq_some_iff, getElem?_filter_iff]
  refine and_congr_right fun _ => or_congr_left ?_
  constructor
  · rintro ⟨r, ⟨p, hr, hreached, hrank⟩, hkept⟩
    exact ⟨p, r, hr, hreached, hrank, hkept⟩
  · rintro ⟨p, r, hr, hreached, hrank, hkept⟩
    exact ⟨r, ⟨p, hr, hreached, hrank⟩, hkept⟩

/-- The row does not have too many columns or values. -/
structure Fits (table : table_t) (line : Text) (columns : Nat → Text) : Prop where
  row_columns : (rowColumns table line).length ≤ MAX_COLS
  cols : table.cols ≤ MAX_COLS
  values : (printed table line).countP (reached table) + (leftovers table line columns).length ≤
    MAX_VALS

theorem readRow_calls_iff :
    (readRow table line columns).map Prod.snd =
        some ((calls table line columns).map (eventOf table)) ↔ Fits table line columns := by
  have hcolumns : (strtok table.sep line).length = (rowColumns table line).length := by
    rw [← map_rowColumns, List.length_map]
  have hvalues : (textValues table line columns).length =
      (printed table line).countP (reached table) + (leftovers table line columns).length := by
    rw [← map_rowValues, List.length_map, rowValues_eq, List.length_append, List.length_map,
      List.countP_eq_length_filter]
  rw [readRow_eq, map_calls, hcolumns, hvalues]
  split
  · next hfits => exact iff_of_true rfl ⟨hfits.1, hfits.2.1, hfits.2.2⟩
  · next hfits => exact iff_of_false nofun fun h => hfits ⟨h.row_columns, h.cols, h.values⟩

theorem place_of_leftovers {j : Nat} {value : List Placed}
    (h : (leftovers table line columns)[j]? = some value) : ∀ c ∈ value, c.2 = none := by
  obtain ⟨i, -, hvalue⟩ := List.mem_flatMap.mp (List.mem_of_getElem? h)
  rw [columnValues] at hvalue
  split at hvalue
  · intro c hc
    have hmem := (mem_tokens hvalue).2.2.subset hc
    obtain ⟨a, -, rfl⟩ := List.mem_map.mp hmem
    rfl
  · exact absurd hvalue List.not_mem_nil

/-- A table whose values are one blank apart, as in a shipped template. -/
def runout : table_t :=
  { sep := "|"
    val_sep := " "
    num_headers := 1
    header_names := "    Operation              | Pct" :: List.replicate 9 []
    cols := 2
    val_names := "operation_skip" :: "pct" :: "time" :: List.replicate 17 [] }

end DaapLog.NumberedValues
