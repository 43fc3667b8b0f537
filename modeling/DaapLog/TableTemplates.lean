import DaapLog.CStrings

/-!
The table template of the results parser: `parseTableTemplate` and the structure
it fills. The counter `headers_found` of `table_t` is state of `parseResults` and
is kept there.
-/

namespace DaapLog.TableTemplates

open DaapLog.CStrings

def LINE_LEN : Nat := 512
def MAX_TABLES : Nat := 10
def MAX_HEADERS : Nat := 10
def MAX_COLS : Nat := 10
def MAX_VALS : Nat := 20

/-- A `table_t` as `calloc` and the template lines leave it: `header_names` and
`val_names` have all their slots, `num_headers` of the former are in use. -/
structure table_t where
  sep : Text := []
  val_sep : Text := []
  num_headers : Nat := 0
  header_names : List Text := List.replicate MAX_HEADERS []
  cols : Int := 0
  val_names : List Text := List.replicate MAX_VALS []
  num_vals : Int := 0
  deriving DecidableEq

def isEol (c : Char) : Bool := c == '\n' || c == '\r'

/-- The line without its trailing newline and carriage return characters. -/
def trimEol (line : Text) : Text := line.rdropWhile isEol

theorem trimEol_append_eol (line : Text) {eols : Text} (h : ∀ c ∈ eols, isEol c = true) :
    trimEol (line ++ eols) = trimEol line := by
  induction eols using List.reverseRecOn with
  | nil => rw [List.append_nil]
  | append_singleton eols c ih =>
      have hc : isEol c = true := h c (by simp)
      rw [← List.append_assoc, trimEol, List.rdropWhile_concat_pos _ _ _ hc]
      exact ih fun d hd => h d (List.mem_append_left _ hd)

/-- `strncpy(field, line + tkey_len, line_len - tkey_len)`. -/
def copyValue (tkey_len : Nat) (field line : Text) : Text :=
  strncpy (line.length - tkey_len) field (line.drop tkey_len)

/-- The six keyword tests on a line of a table section, in the order of the
source. The second component is the local `vals_found`. -/
def keywordLine (line : Text) (s : table_t × Nat) : table_t × Nat :=
  let (table, vals_found) := s
  let table :=
    if strstr line "table_sep=" then { table with sep := copyValue 10 table.sep line } else table
  let table :=
    if strstr line "header=" ∧ table.num_headers < MAX_HEADERS then
      { table with
        header_names := table.header_names.set table.num_headers
          (copyValue 7 (table.header_names.getD table.num_headers []) line)
        num_headers := table.num_headers + 1 }
    else table
  let (table, vals_found) :=
    if strstr line "val_name=" ∧ vals_found < MAX_VALS then
      ({ table with
         val_names := table.val_names.set vals_found
           (copyValue 9 (table.val_names.getD vals_found []) line) },
        vals_found + 1)
    else (table, vals_found)
  let table :=
    if strstr line "cols=" then { table with cols := atoi (line.drop 5) } else table
  let table :=
    if strstr line "num_vals=" then { table with num_vals := atoi (line.drop 9) } else table
  let table :=
    if strstr line "val_sep=" then { table with val_sep := copyValue 8 table.val_sep line }
    else table
  (table, vals_found)

/-- The locals of `parseTableTemplate`; the current table is the last one. -/
structure TemplateState where
  tables : List table_t := []
  in_table : Bool := false
  vals_found : Nat := 0
  deriving DecidableEq

/-- One round of the line loop. Outside of a section only its first line is
looked for. -/
def templateLine (s : TemplateState) (line : Text) : TemplateState :=
  if line = [] then s
  else
    let line := trimEol line
    if !s.in_table then
      if strstr line "===table===" then
        { s with tables := s.tables ++ [{}], in_table := true }
      else s
    else
      let r := keywordLine line (s.tables.getLastD {}, s.vals_found)
      { tables := s.tables.dropLast ++ [r.1]
        in_table := !strstr line "===end_table==="
        vals_found := r.2 }

/-- Result and tables of `parseTableTemplate`, for a file that cannot be opened or
for its content. -/
def parseTableTemplate (table_template : Option Text) : Int × List table_t :=
  match table_template with
  | none => (-1, [])
  | some file => (0, ((fgetsLines LINE_LEN file).foldl templateLine {}).tables)

end DaapLog.TableTemplates
