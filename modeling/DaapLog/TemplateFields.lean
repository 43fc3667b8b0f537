import DaapLog.TemplateLines

/-!
Table descriptions and the table that the fields of one section leave. The slots
of the two name arrays are compared by index, as an unused slot reads as the empty
string.
-/

namespace DaapLog.TemplateFields

open DaapLog.CStrings
open DaapLog.TableTemplates
open DaapLog.TemplateLines

structure TableDescription where
  sep : Text
  headers : List Text
  cols : Int
  val_sep : Text
  num_vals : Int
  val_names : List Text

def TableDescription.fields (d : TableDescription) : List Field :=
  [.table_sep d.sep] ++ d.headers.map .header ++
    [.cols d.cols, .val_sep d.val_sep, .num_vals d.num_vals] ++ d.val_names.map .val_name

/-- An array of `max` zeroed strings with texts at its start. -/
def slots (max : Nat) (texts : List Text) : List Text :=
  (texts ++ List.replicate max []).take max

def TableDescription.table (d : TableDescription) : table_t :=
  { sep := d.sep
    val_sep := d.val_sep
    num_headers := d.headers.length
    header_names := slots MAX_HEADERS d.headers
    cols := d.cols
    val_names := slots MAX_VALS d.val_names
    num_vals := d.num_vals }

/-- A field whose line can go missing without a trace. -/
def Blank : Field → Prop
  | .table_sep value => value = []
  | .header _ => False
  | .cols value => value = 0
  | .val_sep value => value = []
  | .num_vals value => value = 0
  | .val_name value => value = []

instance : DecidablePred Blank
  | .table_sep value => inferInstanceAs (Decidable (value = []))
  | .header _ => .isFalse id
  | .cols value => inferInstanceAs (Decidable (value = 0))
  | .val_sep value => inferInstanceAs (Decidable (value = []))
  | .num_vals value => inferInstanceAs (Decidable (value = 0))
  | .val_name value => inferInstanceAs (Decidable (value = []))

def number : Field → Int
  | .cols value => value
  | .num_vals value => value
  | _ => 0

def ofKeyword (keyword : Keyword) (fs : List Field) : List Field :=
  fs.filter (·.keyword = keyword)

def texts (keyword : Keyword) (fs : List Field) : List Text :=
  (ofKeyword keyword fs).map Field.text

def numbers (keyword : Keyword) (fs : List Field) : List Int :=
  (ofKeyword keyword fs).map number

@[simp]
theorem texts_append (keyword : Keyword) (fs gs : List Field) :
    texts keyword (fs ++ gs) = texts keyword fs ++ texts keyword gs := by
  simp [texts, ofKeyword]

@[simp]
theorem numbers_append (keyword : Keyword) (fs gs : List Field) :
    numbers keyword (fs ++ gs) = numbers keyword fs ++ numbers keyword gs := by
  simp [numbers, ofKeyword]

@[simp]
theorem texts_map_trim (keyword : Keyword) (fs : List Field) :
    texts keyword (fs.map Field.trim) = (texts keyword fs).map trimEol := by
  simp [texts, ofKeyword, List.filter_map, Function.comp_def, keyword_trim, text_trim]

@[simp]
theorem number_trim (f : Field) : number f.trim = number f := by
  cases f <;> rfl

@[simp]
theorem numbers_map_trim (keyword : Keyword) (fs : List Field) :
    numbers keyword (fs.map Field.trim) = numbers keyword fs := by
  simp [numbers, ofKeyword, List.filter_map, Function.comp_def, keyword_trim, number_trim]

theorem forall_mem_texts {keyword : Keyword} {fs : List Field} {p : Text → Prop} :
    (∀ text ∈ texts keyword fs, p text) ↔ ∀ f ∈ fs, f.keyword = keyword → p f.text := by
  simp only [texts, List.forall_mem_map, ofKeyword, List.mem_filter, decide_eq_true_eq, and_imp]

theorem forall_mem_numbers {keyword : Keyword} {fs : List Field} {p : Int → Prop} :
    (∀ x ∈ numbers keyword fs, p x) ↔ ∀ f ∈ fs, f.keyword = keyword → p (number f) := by
  simp only [numbers, List.forall_mem_map, ofKeyword, List.mem_filter, decide_eq_true_eq, and_imp]

theorem texts_eq_nil {keyword : Keyword} {fs : List Field} :
    texts keyword fs = [] ↔ ∀ f ∈ fs, f.keyword ≠ keyword := by
  simp [texts, ofKeyword]

theorem foldl_apply_component {τ : Type} (component : table_t × Nat → τ) (step : τ → Field → τ)
    (keyword : Keyword)
    (h : ∀ (s : table_t × Nat) (f : Field), component (f.apply s) =
      if f.keyword = keyword then step (component s) f else component s)
    (fs : List Field) (s : table_t × Nat) :
    component (fs.foldl Field.apply s) = (ofKeyword keyword fs).foldl step (component s) := by
  induction fs generalizing s with
  | nil => rfl
  | cons f fs ih =>
      rw [List.foldl_cons, ih, h]
      by_cases hf : f.keyword = keyword <;> simp [ofKeyword, hf]

def copyOver (old text : Text) : Text := strncpy text.length old text

theorem foldl_apply_sep (fs : List Field) (s : table_t × Nat) :
    (fs.foldl Field.apply s).1.sep = (texts .table_sep fs).foldl copyOver s.1.sep := by
  rw [texts, List.foldl_map]
  refine foldl_apply_component (fun s => s.1.sep) _ .table_sep (fun s f => ?_) fs s
  cases f <;> rfl

theorem foldl_apply_val_sep (fs : List Field) (s : table_t × Nat) :
    (fs.foldl Field.apply s).1.val_sep = (texts .val_sep fs).foldl copyOver s.1.val_sep := by
  rw [texts, List.foldl_map]
  refine foldl_apply_component (fun s => s.1.val_sep) _ .val_sep (fun s f => ?_) fs s
  cases f <;> rfl

theorem foldl_apply_cols (fs : List Field) (s : table_t × Nat) :
    (fs.foldl Field.apply s).1.cols = (numbers .cols fs).foldl (fun _ x => x) s.1.cols := by
  rw [numbers, List.foldl_map]
  refine foldl_apply_component (fun s => s.1.cols) _ .cols (fun s f => ?_) fs s
  cases f <;> rfl

theorem foldl_apply_num_vals (fs : List Field) (s : table_t × Nat) :
    (fs.foldl Field.apply s).1.num_vals =
      (numbers .num_vals fs).foldl (fun _ x => x) s.1.num_vals := by
  rw [numbers, List.foldl_map]
  refine foldl_apply_component (fun s => s.1.num_vals) _ .num_vals (fun s f => ?_) fs s
  cases f <;> rfl

theorem foldl_apply_headers (fs : List Field) (s : table_t × Nat) :
    ((fs.foldl Field.apply s).1.header_names, (fs.foldl Field.apply s).1.num_headers) =
      (texts .header fs).foldl (fillSlot MAX_HEADERS) (s.1.header_names, s.1.num_headers) := by
  rw [texts, List.foldl_map]
  refine foldl_apply_component (fun s => (s.1.header_names, s.1.num_headers)) _ .header
    (fun s f => ?_) fs s
  cases f <;> rfl

theorem foldl_apply_val_names (fs : List Field) (s : table_t × Nat) :
    ((fs.foldl Field.apply s).1.val_names, (fs.foldl Field.apply s).2) =
      (texts .val_name fs).foldl (fillSlot MAX_VALS) (s.1.val_names, s.2) := by
  rw [texts, List.foldl_map]
  refine foldl_apply_component (fun s => (s.1.val_names, s.2)) _ .val_name (fun s f => ?_) fs s
  cases f <;> rfl

@[simp]
theorem copyOver_nil (text : Text) : copyOver [] text = text := by
  simp [copyOver, strncpy]

@[simp]
theorem slots_length (max : Nat) (names : List Text) : (slots max names).length = max := by
  simp [slots]

theorem slots_getD {max j : Nat} (names : List Text) (hj : j < max) :
    (slots max names).getD j [] = names.getD j [] := by
  simp only [slots, List.getD_eq_getElem?_getD, List.getElem?_take, if_pos hj]
  rcases Nat.lt_or_ge j names.length with hlt | hge
  · rw [List.getElem?_append_left hlt]
  · rw [List.getElem?_append_right hge, List.getElem?_eq_none hge, List.getElem?_replicate]
    split <;> rfl

theorem slots_eq_iff {max : Nat} {names others : List Text} :
    slots max names = slots max others ↔ ∀ j < max, names.getD j [] = others.getD j [] := by
  constructor
  · intro h j hj
    rw [← slots_getD names hj, ← slots_getD others hj, h]
  · intro h
    refine List.ext_getElem (by simp only [slots_length]) fun j hleft hright => ?_
    have hj : j < max := by rwa [slots_length] at hleft
    rw [← List.getD_eq_getElem _ [] hleft, ← List.getD_eq_getElem _ [] hright,
      slots_getD names hj, slots_getD others hj, h j hj]

theorem slots_set (max : Nat) (names : List Text) (name : Text) :
    (slots max names).set names.length name = slots max (names ++ [name]) := by
  refine List.ext_getElem (by simp only [List.length_set, slots_length]) fun j hleft hright => ?_
  have hj : j < max := by rwa [slots_length] at hright
  rw [List.getElem_set, ← List.getD_eq_getElem _ [] hright, slots_getD _ hj]
  split
  · next hlength =>
      subst hlength
      simp
  · next hlength =>
      rw [← List.getD_eq_getElem _ [], slots_getD _ hj]
      rcases Nat.lt_or_ge j names.length with hlt | hge
      · rw [List.getD_append _ _ _ _ hlt]
      · rw [List.getD_eq_default _ _ hge, List.getD_eq_default]
        simp only [List.length_append, List.length_singleton]
        omega

theorem slots_of_le {max : Nat} (names more : List Text) (h : max ≤ names.length) :
    slots max (names ++ more) = slots max names := by
  rw [slots, slots, List.append_assoc, List.take_append_of_le_length h,
    List.take_append_of_le_length h]

theorem foldl_fillSlot {max start : Nat} (hstart : start ≤ max) (names : List Text) :
    names.foldl (fillSlot max) (slots max [], start) =
      (slots max (List.replicate start [] ++ names), min max (start + names.length)) := by
  induction names using List.reverseRecOn with
  | nil =>
      have hslots : slots max (List.replicate start []) = slots max [] := by
        rw [slots_eq_iff]
        intro j hj
        rw [List.getD_eq_getElem?_getD, List.getElem?_replicate]
        split <;> simp
      simp [hslots, hstart]
  | append_singleton names name ih =>
      have hlength : (List.replicate start ([] : Text) ++ names).length = start + names.length := by
        simp
      rw [List.foldl_append, ih, List.foldl_cons, List.foldl_nil, fillSlot, ← List.append_assoc]
      simp only [List.length_append, List.length_singleton]
      rcases Nat.lt_or_ge (start + names.length) max with hlt | hge
      · have hfree : (slots max (List.replicate start [] ++ names)).getD (start + names.length) [] =
            [] := by
          rw [slots_getD _ hlt, ← hlength, List.getD_eq_getElem?_getD, List.getElem?_eq_none le_rfl]
          rfl
        rw [min_eq_right hlt.le, if_pos hlt, hfree, ← copyOver, copyOver_nil, ← hlength,
          slots_set, hlength, min_eq_right (by omega)]
        rfl
      · rw [min_eq_left hge, if_neg (Nat.lt_irrefl max), slots_of_le (_ ++ names) [name] (by omega),
          min_eq_left (by omega)]

theorem slots_append_blank {max : Nat} (names : List Text) {blank : List Text}
    (hblank : ∀ name ∈ blank, name = []) : slots max (names ++ blank) = slots max names := by
  rw [slots_eq_iff]
  intro j _
  rcases Nat.lt_or_ge j names.length with hlt | hge
  · rw [List.getD_append _ _ _ _ hlt]
  · rw [List.getD_append_right _ _ _ _ hge, List.getD_eq_default _ _ hge,
      List.eq_replicate_of_mem hblank, List.getD_eq_getElem?_getD, List.getElem?_replicate]
    split <;> rfl

@[simp]
theorem trimEol_nil : trimEol [] = [] := rfl

theorem getD_map_trimEol (names : List Text) (j : Nat) :
    (names.map trimEol).getD j [] = trimEol (names.getD j []) :=
  List.getD_map names [] trimEol

/-- If names are stored behind their place, every one of them repeats an earlier
slot, and the first slot is empty. -/
theorem eq_nil_of_slots_shifted {max start : Nat} {read lost : List Text} (hstart : 0 < start)
    (hlength : (read ++ lost).length ≤ max)
    (h : slots max (List.replicate start [] ++ read.map trimEol) = slots max (read ++ lost)) :
    ∀ j, (read ++ lost).getD j [] = [] := by
  intro j
  induction j using Nat.strong_induction_on with
  | _ j ih =>
      rcases Nat.lt_or_ge j max with hj | hj
      · rw [← slots_eq_iff.mp h j hj]
        rcases Nat.lt_or_ge j start with hlt | hge
        · rw [List.getD_append _ _ _ _ (by simpa using hlt), List.getD_replicate _ hlt]
        · rw [List.getD_append_right _ _ _ _ (by simpa using hge), List.length_replicate,
            getD_map_trimEol]
          have hearlier := ih (j - start) (by omega)
          rcases Nat.lt_or_ge (j - start) read.length with hlt | hge
          · rw [List.getD_append _ _ _ _ hlt] at hearlier
            rw [hearlier, trimEol_nil]
          · rw [List.getD_eq_default _ _ hge, trimEol_nil]
      · exact List.getD_eq_default _ _ (hlength.trans hj)

theorem forall_mem_of_forall_getD {names : List Text} {p : Text → Prop}
    (h : ∀ j < names.length, p (names.getD j [])) : ∀ name ∈ names, p name := by
  intro name hname
  obtain ⟨j, hj, rfl⟩ := List.getElem_of_mem hname
  rw [← List.getD_eq_getElem _ [] hj]
  exact h j hj

theorem slots_shifted_eq_iff {max start : Nat} {read lost : List Text}
    (hlength : (read ++ lost).length ≤ max) :
    slots max (List.replicate start [] ++ read.map trimEol) = slots max (read ++ lost) ↔
      (∀ name ∈ read, trimEol name = name) ∧ (∀ name ∈ lost, name = []) ∧
        (start = 0 ∨ ∀ name ∈ read ++ lost, name = []) := by
  constructor
  · intro h
    rcases Nat.eq_zero_or_pos start with rfl | hstart
    · have hslot := slots_eq_iff.mp h
      rw [List.length_append] at hlength
      refine ⟨forall_mem_of_forall_getD fun j hj => ?_, forall_mem_of_forall_getD fun j hj => ?_,
        Or.inl rfl⟩
      · have := hslot j (by omega)
        rwa [List.replicate_zero, List.nil_append, getD_map_trimEol,
          List.getD_append _ _ _ _ hj] at this
      · have := hslot (read.length + j) (by omega)
        rw [List.replicate_zero, List.nil_append, List.getD_eq_default _ _ (by simp),
          List.getD_append_right _ _ _ _ (by omega), Nat.add_sub_cancel_left] at this
        exact this.symm
    · have hall : ∀ name ∈ read ++ lost, name = [] :=
        forall_mem_of_forall_getD fun j _ => eq_nil_of_slots_shifted hstart hlength h j
      refine ⟨fun name hname => ?_, fun name hname => hall name (List.mem_append_right _ hname),
        Or.inr hall⟩
      rw [hall name (List.mem_append_left _ hname), trimEol_nil]
  · rintro ⟨hread, hlost, rfl | hall⟩
    · rw [List.map_congr_left hread, List.map_id', slots_append_blank read hlost]
      rfl
    · have hread' : ∀ name ∈ read.map trimEol, name = [] := by
        intro name hname
        obtain ⟨source, hsource, rfl⟩ := List.mem_map.mp hname
        rw [hall source (List.mem_append_left _ hsource), trimEol_nil]
      rw [slots_append_blank _ hread', ← List.nil_append (read ++ lost),
        slots_append_blank [] hall, ← List.nil_append (List.replicate start []),
        slots_append_blank [] fun name hname => List.eq_of_mem_replicate hname]

theorem foldl_copyOver_eq_iff {read lost : List Text} {text : Text} (h : read ++ lost = [text]) :
    (read.map trimEol).foldl copyOver [] = text ↔
      (∀ name ∈ read, trimEol name = name) ∧ ∀ name ∈ lost, name = [] := by
  rcases List.append_eq_singleton_iff.mp h with ⟨rfl, rfl⟩ | ⟨rfl, rfl⟩
  · simp [eq_comm]
  · simp [copyOver_nil]

theorem foldl_last_eq_iff {read lost : List Int} {x : Int} (h : read ++ lost = [x]) :
    read.foldl (fun _ x => x) 0 = x ↔ ∀ y ∈ lost, y = 0 := by
  rcases List.append_eq_singleton_iff.mp h with ⟨rfl, rfl⟩ | ⟨rfl, rfl⟩ <;> simp [eq_comm]

theorem forall_trim_eq_iff (fs : List Field) :
    (∀ f ∈ fs, f.trim = f) ↔
      (∀ text ∈ texts .table_sep fs, trimEol text = text) ∧
      (∀ text ∈ texts .header fs, trimEol text = text) ∧
      (∀ text ∈ texts .val_sep fs, trimEol text = text) ∧
      ∀ text ∈ texts .val_name fs, trimEol text = text := by
  simp only [forall_mem_texts]
  constructor
  · intro h
    refine ⟨?_, ?_, ?_, ?_⟩ <;> (intro f hf _; rw [← text_trim, h f hf])
  · rintro ⟨hsep, hheader, hval_sep, hname⟩ f hf
    cases f with
    | table_sep value => exact congrArg Field.table_sep (hsep _ hf rfl)
    | header value => exact congrArg Field.header (hheader _ hf rfl)
    | cols value => rfl
    | val_sep value => exact congrArg Field.val_sep (hval_sep _ hf rfl)
    | num_vals value => rfl
    | val_name value => exact congrArg Field.val_name (hname _ hf rfl)

theorem forall_blank_iff (fs : List Field) :
    (∀ f ∈ fs, Blank f) ↔
      (∀ text ∈ texts .table_sep fs, text = []) ∧ texts .header fs = [] ∧
      (∀ x ∈ numbers .cols fs, x = 0) ∧ (∀ text ∈ texts .val_sep fs, text = []) ∧
      (∀ x ∈ numbers .num_vals fs, x = 0) ∧ ∀ text ∈ texts .val_name fs, text = [] := by
  simp only [forall_mem_texts, forall_mem_numbers, texts_eq_nil]
  constructor
  · intro h
    refine ⟨?_, ?_, ?_, ?_, ?_, ?_⟩ <;>
      (intro f hf hkeyword; have := h f hf; cases f <;> simp_all [Field.keyword, Blank, Field.text, number])
  · rintro ⟨hsep, hheader, hcols, hval_sep, hnum, hname⟩ f hf
    cases f with
    | table_sep value => exact hsep _ hf rfl
    | header value => exact hheader _ hf rfl
    | cols value => exact hcols _ hf rfl
    | val_sep value => exact hval_sep _ hf rfl
    | num_vals value => exact hnum _ hf rfl
    | val_name value => exact hname _ hf rfl

theorem texts_fields (d : TableDescription) :
    texts .table_sep d.fields = [d.sep] ∧ texts .header d.fields = d.headers ∧
      numbers .cols d.fields = [d.cols] ∧ texts .val_sep d.fields = [d.val_sep] ∧
      numbers .num_vals d.fields = [d.num_vals] ∧ texts .val_name d.fields = d.val_names := by
  simp [TableDescription.fields, texts, numbers, ofKeyword,
    Field.keyword, Field.text, number, List.filter_map, Function.comp_def]

theorem headers_eq_iff {read lost headers : List Text} (hheaders : read ++ lost = headers)
    (hlength : headers.length ≤ MAX_HEADERS) :
    (read.map trimEol).foldl (fillSlot MAX_HEADERS) (slots MAX_HEADERS [], 0) =
        (slots MAX_HEADERS headers, headers.length) ↔
      (∀ text ∈ read, trimEol text = text) ∧ lost = [] := by
  subst hheaders
  rw [foldl_fillSlot (Nat.zero_le _), Prod.mk.injEq, slots_shifted_eq_iff hlength]
  rw [List.length_append] at hlength
  rw [List.length_map, Nat.zero_add, List.length_append, min_eq_right (by omega),
    ← List.length_eq_zero_iff]
  constructor
  · rintro ⟨⟨hread, -, -⟩, hcount⟩
    exact ⟨hread, by omega⟩
  · rintro ⟨hread, hlost⟩
    refine ⟨⟨hread, ?_, Or.inl rfl⟩, by omega⟩
    rw [List.length_eq_zero_iff.mp hlost]
    exact fun _ h => absurd h (List.not_mem_nil)

theorem foldl_apply_val_names_new (fs : List Field) {start : Nat} (hstart : start ≤ MAX_VALS) :
    (fs.foldl Field.apply ({}, start)).1.val_names =
        slots MAX_VALS (List.replicate start [] ++ texts .val_name fs) ∧
      (fs.foldl Field.apply ({}, start)).2 =
        min MAX_VALS (start + (texts .val_name fs).length) := by
  have hrun : (fs.foldl Field.apply ({}, start)).1.val_names =
      _ ∧ (fs.foldl Field.apply ({}, start)).2 = _ :=
    Prod.mk.inj (foldl_apply_val_names fs ({}, start))
  have hzero : ({} : table_t).val_names = slots MAX_VALS [] := rfl
  rw [hzero, foldl_fillSlot hstart] at hrun
  exact hrun

/-- The fields that are read give the described table exactly when none of them is
shortened, the others say nothing, and names go to the slots from 0 on. -/
theorem foldl_apply_eq_table_iff {d : TableDescription} {read lost : List Field} {start : Nat}
    (hfields : read ++ lost = d.fields) (hheaders : d.headers.length ≤ MAX_HEADERS)
    (hnames : d.val_names.length ≤ MAX_VALS) (hstart : start ≤ MAX_VALS) :
    ((read.map Field.trim).foldl Field.apply ({}, start)).1 = d.table ↔
      (∀ f ∈ read, f.trim = f) ∧ (∀ f ∈ lost, Blank f) ∧
        (start = 0 ∨ ∀ name ∈ d.val_names, name = []) := by
  obtain ⟨hsep, hheader, hcols, hval_sep, hnum, hname⟩ := texts_fields d
  rw [← hfields, texts_append] at hsep hheader hval_sep hname
  rw [← hfields, numbers_append] at hcols hnum
  have hheader_iff := headers_eq_iff hheader hheaders
  have hname_iff := @slots_shifted_eq_iff MAX_VALS start _ _ (hname ▸ hnames)
  have hheaders_run := foldl_apply_headers (read.map Field.trim) ({}, start)
  have hzero : ({} : table_t).header_names = slots MAX_HEADERS [] := rfl
  rw [hzero, texts_map_trim] at hheaders_run
  rw [← hheaders_run, Prod.mk.injEq] at hheader_iff
  rw [← texts_map_trim, ← (foldl_apply_val_names_new (read.map Field.trim) hstart).1,
    hname] at hname_iff
  rw [forall_trim_eq_iff, forall_blank_iff, TableDescription.table, table_t.mk.injEq,
    foldl_apply_sep, foldl_apply_val_sep, foldl_apply_cols, foldl_apply_num_vals,
    texts_map_trim, texts_map_trim, numbers_map_trim, numbers_map_trim,
    foldl_copyOver_eq_iff hsep, foldl_copyOver_eq_iff hval_sep, foldl_last_eq_iff hcols,
    foldl_last_eq_iff hnum, hname_iff]
  constructor
  · rintro ⟨⟨hsep_read, hsep_lost⟩, ⟨hval_read, hval_lost⟩, hcount, hslots, hcols_lost,
      ⟨hname_read, hname_lost, hplace⟩, hnum_lost⟩
    obtain ⟨hheader_read, hheader_lost⟩ := hheader_iff.mp ⟨hslots, hcount⟩
    exact ⟨⟨hsep_read, hheader_read, hval_read, hname_read⟩,
      ⟨hsep_lost, hheader_lost, hcols_lost, hval_lost, hnum_lost, hname_lost⟩, hplace⟩
  · rintro ⟨⟨hsep_read, hheader_read, hval_read, hname_read⟩,
      ⟨hsep_lost, hheader_lost, hcols_lost, hval_lost, hnum_lost, hname_lost⟩, hplace⟩
    obtain ⟨hslots, hcount⟩ := hheader_iff.mpr ⟨hheader_read, hheader_lost⟩
    exact ⟨⟨hsep_read, hsep_lost⟩, ⟨hval_read, hval_lost⟩, hcount, hslots, hcols_lost,
      ⟨hname_read, hname_lost, hplace⟩, hnum_lost⟩

end DaapLog.TemplateFields
