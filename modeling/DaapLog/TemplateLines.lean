import DaapLog.TableTemplates

/-!
The `key=value` lines of a table section and what `parseTableTemplate` makes of
one of them. Keywords are searched for anywhere in a line, so the value can form a
section marker together with the `=` in front of it.
-/

namespace DaapLog.TemplateLines

open DaapLog.CStrings
open DaapLog.TableTemplates

inductive Keyword
  | table_sep
  | header
  | val_name
  | cols
  | num_vals
  | val_sep
  deriving DecidableEq

def Keyword.text : Keyword → Text
  | table_sep => "table_sep="
  | header => "header="
  | val_name => "val_name="
  | cols => "cols="
  | num_vals => "num_vals="
  | val_sep => "val_sep="

instance (p : Keyword → Prop) [DecidablePred p] : Decidable (∀ keyword, p keyword) :=
  decidable_of_iff
    (p .table_sep ∧ p .header ∧ p .val_name ∧ p .cols ∧ p .num_vals ∧ p .val_sep)
    ⟨fun ⟨hsep, hheader, hname, hcols, hnum, hval⟩ keyword => by cases keyword <;> assumption,
      fun h => ⟨h _, h _, h _, h _, h _, h _⟩⟩

inductive Field
  | table_sep (value : Text)
  | header (value : Text)
  | cols (value : Int)
  | val_sep (value : Text)
  | num_vals (value : Int)
  | val_name (value : Text)
  deriving DecidableEq

def Field.keyword : Field → Keyword
  | table_sep _ => .table_sep
  | header _ => .header
  | cols _ => .cols
  | val_sep _ => .val_sep
  | num_vals _ => .num_vals
  | val_name _ => .val_name

def Field.text : Field → Text
  | table_sep value => value
  | header value => value
  | cols value => decimal value
  | val_sep value => value
  | num_vals value => decimal value
  | val_name value => value

def Field.line (f : Field) : Text := f.keyword.text ++ f.text

/-- The field that is left of a line when its end is trimmed. -/
def Field.trim : Field → Field
  | table_sep value => table_sep (trimEol value)
  | header value => header (trimEol value)
  | cols value => cols value
  | val_sep value => val_sep (trimEol value)
  | num_vals value => num_vals value
  | val_name value => val_name (trimEol value)

/-- The numbers of a template are of type `int`. -/
def Field.IntRange : Field → Prop
  | cols value => -2 ^ 31 ≤ value ∧ value < 2 ^ 31
  | num_vals value => -2 ^ 31 ≤ value ∧ value < 2 ^ 31
  | _ => True

def FreeOfKeywords (text : Text) : Prop :=
  (∀ keyword : Keyword, ¬keyword.text <:+: text) ∧
    ¬"===table===".toList <:+: text ∧ ¬"===end_table===".toList <:+: text

instance (f : Field) : Decidable f.IntRange :=
  match f with
  | .table_sep _ => .isTrue trivial
  | .header _ => .isTrue trivial
  | .cols _ => inferInstanceAs (Decidable (_ ∧ _))
  | .val_sep _ => .isTrue trivial
  | .num_vals _ => inferInstanceAs (Decidable (_ ∧ _))
  | .val_name _ => .isTrue trivial

instance (text : Text) : Decidable (FreeOfKeywords text) :=
  inferInstanceAs (Decidable (_ ∧ _ ∧ _))

/-- What a name does to the slots of an array and the number of slots in use. -/
def fillSlot (max : Nat) (s : List Text × Nat) (name : Text) : List Text × Nat :=
  if s.2 < max then (s.1.set s.2 (strncpy name.length (s.1.getD s.2 []) name), s.2 + 1) else s

/-- What the line of a field does to the current table and `vals_found`. -/
def Field.apply (s : table_t × Nat) : Field → table_t × Nat
  | table_sep value => ({ s.1 with sep := strncpy value.length s.1.sep value }, s.2)
  | header value =>
      let filled := fillSlot MAX_HEADERS (s.1.header_names, s.1.num_headers) value
      ({ s.1 with header_names := filled.1, num_headers := filled.2 }, s.2)
  | cols value => ({ s.1 with cols := value }, s.2)
  | val_sep value => ({ s.1 with val_sep := strncpy value.length s.1.val_sep value }, s.2)
  | num_vals value => ({ s.1 with num_vals := value }, s.2)
  | val_name value =>
      let filled := fillSlot MAX_VALS (s.1.val_names, s.2) value
      ({ s.1 with val_names := filled.1 }, filled.2)

theorem trimEol_isPrefix (text : Text) : trimEol text <+: text :=
  List.rdropWhile_prefix _ _

theorem trimEol_append {front : Text} (text : Text) (hfront : front ≠ [])
    (hlast : isEol (front.getLast hfront) = false) :
    trimEol (front ++ text) = front ++ trimEol text := by
  induction text using List.reverseRecOn with
  | nil =>
      simpa [trimEol, List.rdropWhile_eq_self_iff] using fun _ => hlast
  | append_singleton text c ih =>
      rw [trimEol, trimEol, ← List.append_assoc]
      by_cases hc : isEol c
      · rw [List.rdropWhile_concat_pos _ _ _ hc, List.rdropWhile_concat_pos _ _ _ hc]
        exact ih
      · rw [List.rdropWhile_concat_neg _ _ _ hc, List.rdropWhile_concat_neg _ _ _ hc,
          List.append_assoc]

@[simp]
theorem trimEol_decimal (x : Int) : trimEol (decimal x) = decimal x := by
  rw [trimEol, List.rdropWhile_eq_self_iff]
  intro hne heol
  rcases mem_decimal (List.getLast_mem hne) with hdigit | hdash
  · simp only [isEol, Bool.or_eq_true, beq_iff_eq] at heol
    rcases heol with heol | heol <;> exact absurd (heol ▸ hdigit) (by decide)
  · rw [hdash] at heol
    exact absurd heol (by decide)

@[simp]
theorem trimEol_newline (line : Text) : trimEol (line ++ ['\n']) = trimEol line :=
  List.rdropWhile_concat_pos _ _ _ rfl

@[simp]
theorem text_trim (f : Field) : f.trim.text = trimEol f.text := by
  cases f <;> first | rfl | exact (trimEol_decimal _).symm

@[simp]
theorem keyword_trim (f : Field) : f.trim.keyword = f.keyword := by
  cases f <;> rfl

theorem trimEol_line (f : Field) : trimEol (f.line ++ ['\n']) = f.trim.line := by
  have hkeyword (keyword : Keyword) : trimEol (keyword.text ++ f.text) =
      keyword.text ++ trimEol f.text := by
    cases keyword <;> exact trimEol_append _ (by decide) (by decide)
  rw [trimEol_newline, Field.line, Field.line, hkeyword, text_trim, keyword_trim]

theorem keyword_infix_keyword_iff (keyword other : Keyword) :
    keyword.text <:+: other.text ↔ keyword = other := by
  cases keyword <;> cases other <;> decide

theorem eq_suffix_keyword (keyword : Keyword) : ['='] <:+ keyword.text := by
  cases keyword <;> decide

theorem eq_not_mem_dropLast_keyword (keyword : Keyword) : '=' ∉ keyword.text.dropLast := by
  cases keyword <;> decide

theorem strstr_keyword {text : Text} (keyword : Keyword) (htext : FreeOfKeywords text)
    (other : Keyword) :
    strstr (keyword.text ++ text) other.text = decide (other = keyword) := by
  rw [strstr, decide_eq_decide, ← keyword_infix_keyword_iff]
  constructor
  · intro h
    rcases infix_append_cases h with hfront | hback | ⟨a, b, hword, ha, hb, hfront, -⟩
    · exact hfront
    · exact absurd hback (htext.1 other)
    · have hlast : ['='] <:+ a := by
        refine List.suffix_of_suffix_length_le (eq_suffix_keyword keyword) hfront ?_
        exact List.length_pos_of_ne_nil ha
      have hmem : '=' ∈ other.text.dropLast := by
        rw [hword, List.dropLast_append_of_ne_nil hb]
        exact List.mem_append_left _ (hlast.subset (List.mem_singleton_self _))
      exact absurd hmem (eq_not_mem_dropLast_keyword other)
  · intro h
    exact h.trans (List.prefix_append _ _).isInfix

/-- Only the last character of a keyword can open a marker. -/
theorem strstr_marker {text rest : Text} (keyword : Keyword)
    (hrest : ¬( '=' :: rest) <:+: text)
    (hkeyword : ¬( '=' :: rest) <:+: keyword.text)
    (hfront : ∀ front ∈ ('=' :: rest).inits, front <:+ keyword.text → front = [] ∨ front = ['=']) :
    strstr (keyword.text ++ text) ('=' :: rest) = decide (rest <+: text) := by
  rw [strstr, decide_eq_decide]
  constructor
  · intro h
    rcases infix_append_cases h with hin | hin | ⟨a, b, hword, ha, hb, hsuffix, hprefix⟩
    · exact absurd hin hkeyword
    · exact absurd hin hrest
    · have hinits : a ∈ ('=' :: rest).inits := by
        rw [List.mem_inits, hword]
        exact List.prefix_append a b
      rcases hfront a hinits hsuffix with rfl | rfl
      · exact absurd rfl ha
      · obtain rfl := (List.cons.inj hword).2
        exact hprefix
  · rintro ⟨back, rfl⟩
    obtain ⟨front, hfront⟩ := eq_suffix_keyword keyword
    exact ⟨front, back, by simp [← hfront]⟩

theorem strstr_table {text : Text} (keyword : Keyword) (htext : FreeOfKeywords text) :
    strstr (keyword.text ++ text) "===table===" = decide ("==table===".toList <+: text) := by
  refine strstr_marker keyword htext.2.1 ?_ ?_ <;> cases keyword <;> decide

theorem strstr_end_table {text : Text} (keyword : Keyword) (htext : FreeOfKeywords text) :
    strstr (keyword.text ++ text) "===end_table===" =
      decide ("==end_table===".toList <+: text) := by
  refine strstr_marker keyword htext.2.2 ?_ ?_ <;> cases keyword <;> decide

theorem copyValue_keyword (keyword : Keyword) (old text : Text) :
    copyValue keyword.text.length old (keyword.text ++ text) = strncpy text.length old text := by
  rw [copyValue, List.drop_left, List.length_append, Nat.add_sub_cancel_left]

/-- The six tests on the line of a field amount to the test for its own keyword. -/
theorem keywordLine_line (f : Field) (hfree : FreeOfKeywords f.text) (hint : f.IntRange)
    (s : table_t × Nat) : keywordLine f.line s = f.apply s := by
  have hsep : strstr f.line "table_sep=" = decide (Keyword.table_sep = f.keyword) :=
    strstr_keyword f.keyword hfree .table_sep
  have hheader : strstr f.line "header=" = decide (Keyword.header = f.keyword) :=
    strstr_keyword f.keyword hfree .header
  have hname : strstr f.line "val_name=" = decide (Keyword.val_name = f.keyword) :=
    strstr_keyword f.keyword hfree .val_name
  have hcols : strstr f.line "cols=" = decide (Keyword.cols = f.keyword) :=
    strstr_keyword f.keyword hfree .cols
  have hnum : strstr f.line "num_vals=" = decide (Keyword.num_vals = f.keyword) :=
    strstr_keyword f.keyword hfree .num_vals
  have hval : strstr f.line "val_sep=" = decide (Keyword.val_sep = f.keyword) :=
    strstr_keyword f.keyword hfree .val_sep
  unfold keywordLine
  rw [hsep, hheader, hname, hcols, hnum, hval]
  cases f with
  | table_sep value =>
      have hcopy : copyValue 10 s.1.sep (Field.table_sep value).line = _ :=
        copyValue_keyword .table_sep s.1.sep value
      simp [Field.keyword, Field.apply, hcopy]
  | header value =>
      have hcopy (old : Text) : copyValue 7 old (Field.header value).line = _ :=
        copyValue_keyword .header old value
      by_cases hroom : s.1.num_headers < MAX_HEADERS <;>
        simp [Field.keyword, Field.apply, hcopy, fillSlot, hroom]
  | cols value =>
      have hatoi : atoi ((Field.cols value).line.drop 5) = value :=
        atoi_decimal hint.1 hint.2
      simp [Field.keyword, Field.apply, hatoi]
  | val_sep value =>
      have hcopy : copyValue 8 s.1.val_sep (Field.val_sep value).line = _ :=
        copyValue_keyword .val_sep s.1.val_sep value
      simp [Field.keyword, Field.apply, hcopy]
  | num_vals value =>
      have hatoi : atoi ((Field.num_vals value).line.drop 9) = value :=
        atoi_decimal hint.1 hint.2
      simp [Field.keyword, Field.apply, hatoi]
  | val_name value =>
      have hcopy (old : Text) : copyValue 9 old (Field.val_name value).line = _ :=
        copyValue_keyword .val_name old value
      by_cases hroom : s.2 < MAX_VALS <;>
        simp [Field.keyword, Field.apply, hcopy, fillSlot, hroom]

theorem keywordLine_of_no_keyword {line : Text}
    (h : ∀ keyword : Keyword, strstr line keyword.text = false) (s : table_t × Nat) :
    keywordLine line s = s := by
  have hsep : strstr line "table_sep=" = false := h .table_sep
  have hheader : strstr line "header=" = false := h .header
  have hname : strstr line "val_name=" = false := h .val_name
  have hcols : strstr line "cols=" = false := h .cols
  have hnum : strstr line "num_vals=" = false := h .num_vals
  have hval : strstr line "val_sep=" = false := h .val_sep
  unfold keywordLine
  rw [hsep, hheader, hname, hcols, hnum, hval]
  simp

end DaapLog.TemplateLines
