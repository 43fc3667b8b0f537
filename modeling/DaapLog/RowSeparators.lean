import DaapLog.RowValues

/-!
Separators of more than one character. The tests look for the whole string, the tokenizer
takes it as a set of characters.
-/

namespace DaapLog.RowSeparators

open DaapLog.CStrings
open DaapLog.TableTemplates
open DaapLog.ResultsParser
open DaapLog.RowValues
open DaapLog.Tokens

/-- The nonempty parts of a text between the occurrences of a separator. -/
def fullPieces (sep text : Text) : List Text := (pieces sep text).filter fun piece => !piece.isEmpty

/-- Columns of which the last one loses the line terminators at its end. -/
def trimLast (columns : List Text) : List Text := columns.modifyLast trimEol

/-- The columns of a row are the pieces of what is printed in it, and what is read of them
is the nonempty pieces of each. -/
structure HonoursSeparators (table : table_t) (line : Text) : Prop where
  columns : trimLast (strtok table.sep line) = pieces table.sep (trimEol line)
  values : ((strtok table.sep line).take table.cols.toNat).map
      (fun column => columnValues id table column.dropLast) =
    ((pieces table.sep (trimEol line)).take table.cols.toNat).map (fullPieces table.val_sep)

/-- No piece has a character of the separator. -/
def PiecesFree (sep text : Text) : Prop := ∀ piece ∈ pieces sep text, ∀ c ∈ piece, c ∉ sep

instance (sep text : Text) : Decidable (PiecesFree sep text) :=
  decidable_of_iff ((pieces sep text).all fun piece => piece.all fun c => !decide (c ∈ sep)) (by
    simp [PiecesFree])

section Row

variable (sep line : Text)

/-- The pieces of a row in front of the last one. -/
def front : List Text := (pieces sep (trimEol line)).dropLast

def last : Text := (pieces sep (trimEol line)).getLastD []

/-- The line terminators at the end of a row. -/
def ending : Text := line.rtakeWhile isEol

/-- The line terminators that are no separators: the tokenizer leaves them in a column. -/
def kept : Text := (ending line).filter fun c => !decide (c ∈ sep)

/-- There is a last column, and the terminators that it keeps stand together behind it. -/
def EndsTogether : Prop :=
  last sep line ++ kept sep line ≠ [] ∧
    kept sep line <+:
      if last sep line = [] then (ending line).dropWhile fun c => decide (c ∈ sep)
      else ending line

instance : Decidable (EndsTogether sep line) := inferInstanceAs (Decidable (_ ∧ _))

end Row

/-- The characters of a column that its piece does not have once its last one is dropped or,
where no terminator is kept, the one that is dropped. -/
def stray (piece terminators : Text) : Text :=
  if terminators = [] then piece.getLast?.toList else terminators.dropLast

/-- The whole string is what cuts a piece with some terminators behind it: it is there and
none of its characters is anywhere else, or there is nothing to be read. -/
def CutsWhole (sep piece terminators : Text) : Prop :=
  if strstr (piece ++ terminators).dropLast sep then
    PiecesFree sep piece ∧ stray piece terminators ⊆ sep
  else fullPieces sep piece = []

instance (sep piece terminators : Text) : Decidable (CutsWhole sep piece terminators) :=
  inferInstanceAs (Decidable (ite _ _ _))

/-- The pieces of a row are its columns: none of them has a character of the separator, and
only the last one may be empty. The whole string cuts those that are looked at. -/
structure SeparatesWhole (table : table_t) (line : Text) : Prop where
  front_nonempty : [] ∉ front table.sep line
  free : PiecesFree table.sep (trimEol line)
  ends : EndsTogether table.sep line
  front_values : ∀ piece ∈ (front table.sep line).take table.cols.toNat,
    CutsWhole table.val_sep piece []
  last_values : (front table.sep line).length < table.cols.toNat →
    CutsWhole table.val_sep (last table.sep line) (kept table.sep line)

theorem length_trimLast (columns : List Text) : (trimLast columns).length = columns.length := by
  rcases List.eq_nil_or_concat' columns with rfl | ⟨columns, column, rfl⟩
  · rfl
  · rw [trimLast, List.modifyLast_concat, List.length_append, List.length_append]
    rfl

section Pieces

variable {sep : Text}

theorem pieces_eq (sep line : Text) :
    pieces sep (trimEol line) = front sep line ++ [last sep line] := by
  have hne : pieces sep (trimEol line) ≠ [] := piecesFrom_ne_nil _ _ _
  rw [front, last, List.getLastD_eq_getLast?, List.getLast?_eq_some_getLast hne, Option.getD_some,
    List.dropLast_append_getLast hne]

theorem tokens_of_piecesFree (hsep : sep ≠ []) {text : Text} (h : PiecesFree sep text) :
    tokens (fun c => decide (c ∈ sep)) text = fullPieces sep text := by
  have htokens := tokens_intercalate (d := fun c => decide (c ∈ sep)) hsep
    (fun c hc => decide_eq_true hc) (fun piece hpiece c hc => decide_eq_false (h piece hpiece c hc))
  rw [intercalate_pieces hsep] at htokens
  exact htokens

theorem piecesFree_of_tokens {l text : Text}
    (h : tokens (fun c => decide (c ∈ sep)) l = fullPieces sep text) : PiecesFree sep text := by
  intro piece hpiece c hc
  have hmem : piece ∈ fullPieces sep text := by
    refine List.mem_filter.mpr ⟨hpiece, ?_⟩
    simp [List.ne_nil_of_mem hc]
  rw [← h] at hmem
  exact of_decide_eq_false ((mem_tokens hmem).2.1 c hc)

end Pieces

theorem tokens_stray_iff {sep piece terminators : Text} :
    tokens (fun c => decide (c ∈ sep)) (piece ++ terminators).dropLast =
        tokens (fun c => decide (c ∈ sep)) piece ↔
      stray piece terminators ⊆ sep := by
  rcases eq_or_ne terminators [] with rfl | hne
  · rw [List.append_nil, stray, if_pos rfl]
    rcases List.eq_nil_or_concat' piece with rfl | ⟨init, c, rfl⟩
    · simp
    · rw [List.dropLast_concat, List.getLast?_concat, Option.toList_some, eq_comm,
        tokens_append_eq_iff]
      exact forall₂_congr fun c _ => decide_eq_true_iff
  · rw [List.dropLast_append_of_ne_nil hne, stray, if_neg hne, tokens_append_eq_iff]
    exact forall₂_congr fun c _ => decide_eq_true_iff

theorem columnValues_eq_iff {table : table_t} (hsep : table.val_sep ≠ [])
    {piece terminators : Text} :
    columnValues id table (piece ++ terminators).dropLast = fullPieces table.val_sep piece ↔
      CutsWhole table.val_sep piece terminators := by
  rw [columnValues, List.map_id, CutsWhole]
  split
  · constructor
    · intro h
      have hfree := piecesFree_of_tokens h
      exact ⟨hfree, tokens_stray_iff.mp (h.trans (tokens_of_piecesFree hsep hfree).symm)⟩
    · rintro ⟨hfree, hstray⟩
      exact (tokens_stray_iff.mpr hstray).trans (tokens_of_piecesFree hsep hfree)
  · exact eq_comm

section Columns

variable {sep line : Text}

theorem trimEol_append_ending (line : Text) : trimEol line ++ ending line = line :=
  List.rdropWhile_append_rtakeWhile

theorem trimEol_eq_intercalate (hsep : sep ≠ []) (line : Text) :
    trimEol line = sep.intercalate (front sep line ++ [last sep line]) := by
  rw [← pieces_eq, intercalate_pieces hsep]

theorem line_eq_intercalate (hsep : sep ≠ []) (line : Text) :
    line = sep.intercalate (front sep line ++ [last sep line ++ ending line]) := by
  rw [← intercalate_concat_append, ← trimEol_eq_intercalate hsep]
  exact (trimEol_append_ending line).symm

theorem trimEol_last_append (hsep : sep ≠ []) {terminators : Text}
    (h : ∀ c ∈ terminators, isEol c = true) :
    trimEol (last sep line ++ terminators) = last sep line := by
  rw [trimEol_append_eol _ h, trimEol, List.rdropWhile_eq_self_iff]
  intro hne
  have hsuffix : last sep line <:+ trimEol line := by
    rw [trimEol_eq_intercalate hsep line]
    exact suffix_intercalate_concat sep _ _
  rw [hsuffix.getLast hne]
  exact List.rdropWhile_last_not isEol line (hsuffix.ne_nil hne)

theorem eol_of_mem_kept {c : Char} (hc : c ∈ kept sep line) : isEol c = true :=
  List.mem_rtakeWhile_imp (List.mem_of_mem_filter hc)

theorem free_last (hfree : PiecesFree sep (trimEol line)) :
    Free (fun c => decide (c ∈ sep)) (last sep line) := by
  intro c hc
  refine decide_eq_false (hfree (last sep line) ?_ c hc)
  rw [pieces_eq]
  exact List.mem_concat_self

theorem strtok_of_piecesFree (hsep : sep ≠ []) (hfree : PiecesFree sep (trimEol line))
    (hfront : [] ∉ front sep line) :
    strtok sep line = front sep line ++
      tokens (fun c => decide (c ∈ sep)) (last sep line ++ ending line) := by
  have hparts (piece : Text) (hpiece : piece ∈ front sep line) :
      Free (fun c => decide (c ∈ sep)) piece := by
    intro c hc
    refine decide_eq_false (hfree piece ?_ c hc)
    rw [pieces_eq]
    exact List.mem_append_left _ hpiece
  have hnonempty : (front sep line).filter (fun piece => !piece.isEmpty) = front sep line := by
    refine List.filter_eq_self.mpr fun piece hpiece => ?_
    simpa using fun hempty : piece = [] => hfront (hempty ▸ hpiece)
  rw [strtok_eq_tokens]
  conv_lhs => rw [line_eq_intercalate hsep line]
  rw [tokens_intercalate_concat hsep (fun c hc => decide_eq_true hc) hparts, hnonempty]

theorem endsTogether_iff (hfree : PiecesFree sep (trimEol line)) :
    tokens (fun c => decide (c ∈ sep)) (last sep line ++ ending line) =
        [last sep line ++ kept sep line] ↔
      EndsTogether sep line := by
  rw [EndsTogether, kept]
  split
  · next hempty =>
      have hdelims : ∀ c ∈ (ending line).takeWhile (fun c => decide (c ∈ sep)),
          decide (c ∈ sep) = true := fun c hc => by
            simpa using List.mem_takeWhile_imp hc
      have hfilter : (ending line).filter (fun c => !decide (c ∈ sep)) =
          ((ending line).dropWhile fun c => decide (c ∈ sep)).filter fun c => !decide (c ∈ sep) := by
        conv_lhs => rw [← List.takeWhile_append_dropWhile (p := fun c => decide (c ∈ sep))
          (l := ending line)]
        rw [List.filter_append, List.filter_eq_nil_iff.mpr fun c hc => by simp [hdelims c hc],
          List.nil_append]
      have htokens := tokens_delimiters_append hdelims
        ((ending line).dropWhile fun c => decide (c ∈ sep))
      rw [List.takeWhile_append_dropWhile] at htokens
      rw [hempty, List.nil_append, htokens, hfilter]
      refine tokens_append_eq_singleton_iff [] Free.nil fun _ c hc => ?_
      have hhead := List.head?_dropWhile_not (fun c => decide (c ∈ sep)) (ending line)
      rw [Option.mem_def.mp hc] at hhead
      exact hhead
  · next hne => exact tokens_append_eq_singleton_iff _ (free_last hfree) fun h => absurd h hne

theorem trimLast_strtok_iff (hsep : sep ≠ []) (line : Text) :
    trimLast (strtok sep line) = pieces sep (trimEol line) ↔
      [] ∉ front sep line ∧ PiecesFree sep (trimEol line) ∧ EndsTogether sep line := by
  constructor
  · intro h
    rw [pieces_eq] at h
    rcases List.eq_nil_or_concat' (strtok sep line) with hnil | ⟨columns, column, hcolumns⟩
    · rw [hnil] at h
      exact absurd h.symm (List.append_ne_nil_of_right_ne_nil _ (List.cons_ne_nil _ _))
    · rw [hcolumns, trimLast, List.modifyLast_concat] at h
      obtain ⟨hfront, hlast⟩ := List.append_inj' h rfl
      have hlast : trimEol column = last sep line := List.head_eq_of_cons_eq hlast
      have hmem (piece : Text) (hpiece : piece ∈ columns ++ [column]) :
          piece ≠ [] ∧ ∀ c ∈ piece, c ∉ sep := by
        rw [← hcolumns, strtok_eq_tokens] at hpiece
        exact ⟨(mem_tokens hpiece).1, fun c hc => of_decide_eq_false ((mem_tokens hpiece).2.1 c hc)⟩
      have hfree : PiecesFree sep (trimEol line) := by
        intro piece hpiece c hc
        rw [pieces_eq, ← hfront, ← hlast, List.mem_append, List.mem_singleton] at hpiece
        rcases hpiece with hpiece | rfl
        · exact (hmem piece (List.mem_append_left _ hpiece)).2 c hc
        · exact (hmem column (by simp)).2 c ((List.rdropWhile_prefix isEol column).subset hc)
      have hempty : [] ∉ front sep line := by
        rw [← hfront]
        exact fun hnil => (hmem [] (List.mem_append_left _ hnil)).1 rfl
      refine ⟨hempty, hfree, (endsTogether_iff hfree).mp ?_⟩
      rw [strtok_of_piecesFree hsep hfree hempty, hfront] at hcolumns
      have hcolumn := List.append_cancel_left hcolumns
      have hflatten := congrArg List.flatten hcolumn
      rw [flatten_tokens, List.flatten_singleton, List.filter_append,
        List.filter_eq_self.mpr fun c hc => by simpa using free_last hfree c hc] at hflatten
      rw [hcolumn, ← hflatten, kept]
  · rintro ⟨hempty, hfree, hends⟩
    rw [strtok_of_piecesFree hsep hfree hempty, (endsTogether_iff hfree).mpr hends, trimLast,
      List.modifyLast_concat, pieces_eq, trimEol_last_append hsep fun c => eol_of_mem_kept]

end Columns

theorem map_take_concat_eq_iff {α β : Type*} {f g : α → β} {l : List α} {a b : α} {n : Nat} :
    ((l ++ [a]).take n).map f = ((l ++ [b]).take n).map g ↔
      (∀ x ∈ l.take n, f x = g x) ∧ (l.length < n → f a = g b) := by
  rcases Nat.lt_or_ge l.length n with hlt | hge
  · rw [List.take_of_length_le (by simp; omega), List.take_of_length_le (by simp; omega),
      List.take_of_length_le hlt.le, List.map_append, List.map_append,
      List.append_eq_append_iff_of_size_eq_left (by simp), List.map_inj_left, List.map_singleton,
      List.map_singleton, List.singleton_inj]
    exact and_congr_right fun _ => (imp_iff_right hlt).symm
  · rw [List.take_append_of_le_length hge, List.take_append_of_le_length hge, List.map_inj_left]
    exact (and_iff_left fun hlt => absurd hlt (Nat.not_lt.mpr hge)).symm

/-- The separators of a table are taken as whole strings exactly on these rows. -/
theorem honoursSeparators_iff {table : table_t} (hsep : table.sep ≠ [])
    (hval_sep : table.val_sep ≠ []) (line : Text) :
    HonoursSeparators table line ↔ SeparatesWhole table line := by
  have hcolumns := trimLast_strtok_iff hsep line
  have hvalues (hfront : [] ∉ front table.sep line) (hfree : PiecesFree table.sep (trimEol line))
      (hends : EndsTogether table.sep line) :
      ((strtok table.sep line).take table.cols.toNat).map
          (fun column => columnValues id table column.dropLast) =
        ((pieces table.sep (trimEol line)).take table.cols.toNat).map
          (fullPieces table.val_sep) ↔
      (∀ piece ∈ (front table.sep line).take table.cols.toNat,
        CutsWhole table.val_sep piece []) ∧
      ((front table.sep line).length < table.cols.toNat →
        CutsWhole table.val_sep (last table.sep line) (kept table.sep line)) := by
    rw [strtok_of_piecesFree hsep hfree hfront, (endsTogether_iff hfree).mpr hends, pieces_eq,
      map_take_concat_eq_iff]
    refine and_congr (forall₂_congr fun piece _ => ?_) (imp_congr_right fun _ => ?_)
    · rw [← columnValues_eq_iff hval_sep, List.append_nil]
    · exact columnValues_eq_iff hval_sep
  constructor
  · intro h
    obtain ⟨hfront, hfree, hends⟩ := hcolumns.mp h.columns
    obtain ⟨hinner, hlast⟩ := (hvalues hfront hfree hends).mp h.values
    exact ⟨hfront, hfree, hends, hinner, hlast⟩
  · intro h
    exact ⟨hcolumns.mpr ⟨h.front_nonempty, h.free, h.ends⟩,
      (hvalues h.front_nonempty h.free h.ends).mpr ⟨h.front_values, h.last_values⟩⟩

/-- A row with all its columns, whose separators are honoured, sends the nonempty pieces of
its pieces. -/
theorem readRow_of_honoursSeparators {table : table_t} {line : Text} {columns : Nat → Text}
    (h : HonoursSeparators table line)
    (hcols : table.cols.toNat ≤ (pieces table.sep (trimEol line)).length)
    (hmax : (pieces table.sep (trimEol line)).length ≤ MAX_COLS)
    (hvals : (((pieces table.sep (trimEol line)).take table.cols.toNat).flatMap
      (fullPieces table.val_sep)).length ≤ MAX_VALS) :
    (readRow table line columns).map Prod.snd =
      some (sends table 0 (((pieces table.sep (trimEol line)).take table.cols.toNat).flatMap
        (fullPieces table.val_sep))) := by
  have hlength : (strtok table.sep line).length = (pieces table.sep (trimEol line)).length := by
    rw [← h.columns, length_trimLast]
  have hvalues : textValues table line columns =
      ((pieces table.sep (trimEol line)).take table.cols.toNat).flatMap
        (fullPieces table.val_sep) := by
    rw [textValues]
    simp only [stored]
    refine (flatMap_range_getD (hlength ▸ hcols) (columnValues id table) List.dropLast
      columns).trans ?_
    rw [List.flatMap_def, h.values, ← List.flatMap_def]
  rw [readRow_eq, hvalues, hlength, if_pos ⟨hmax, by omega, hvals⟩]

/-- A table whose values are two blanks apart, as in a shipped template. -/
def harris : table_t :=
  { sep := "|"
    val_sep := "  "
    num_headers := 1
    header_names := "    Operation              | Pct" :: List.replicate 9 []
    cols := 2
    val_names := "operation_skip" :: "pct" :: "time" :: List.replicate 17 [] }

theorem honoursSeparators_harris : HonoursSeparators harris "sort    |12  3.5  \n" :=
  (honoursSeparators_iff (by decide) (by decide) _).mpr
    ⟨by decide, by decide, by decide, by decide, by decide⟩

/-- A value with a blank in it is cut in two, and one without two blanks behind it is lost. -/
theorem not_honoursSeparators_blank :
    ¬HonoursSeparators harris "sort keys    |12  3.5  \n" ∧
      ¬HonoursSeparators harris "sort    | 12 3.5 \n" := by
  constructor
  · intro h
    exact absurd h.values (by decide)
  · intro h
    exact absurd h.values (by decide)

end DaapLog.RowSeparators
