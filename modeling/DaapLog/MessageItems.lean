import DaapLog.MessageTimes

/-!
The items of a text message through the deletions of `common_clean` and its joining of tags
and fields.
-/

namespace DaapLog.MessageItems

open DaapLog.CStrings
open DaapLog.OrderedHash
open DaapLog.LinearPatterns
open DaapLog.PatternMatches
open DaapLog.GreedyMatches
open DaapLog.GsubWeights
open DaapLog.GsubCuts
open DaapLog.RubyValues
open DaapLog.PluginMessages
open DaapLog.CleanMessages
open DaapLog.TextRecords
open DaapLog.MessageTimes
open DaapLog.RubyStrings (split splitItem strip HasValue)

def itemText (kv : Text × Text) : Text := kv.1 ++ '=' :: kv.2

/-- Items with commas between them. -/
def itemsText (items : List (Text × Text)) : Text := [','].intercalate (items.map itemText)

/-- A key and a value that may be an item of a message. -/
structure IsPair (kv : Text × Text) : Prop where
  key_ne_nil : kv.1 ≠ []
  key : ∀ c ∈ kv.1, c ≠ '=' ∧ c ≠ ',' ∧ c ≠ '"' ∧ isspace c = false
  key_ne : kv.1 ≠ "metric".toList ∧ kv.1 ≠ "timestamp".toList
  value : ∀ c ∈ kv.2, c ≠ ',' ∧ c ≠ '"' ∧ c ≠ '\\' ∧ c ≠ '\n'
  domain : ¬strstr kv.2 ".localdomain".toList ∧ ¬strstr kv.2 ".lanl.gov".toList

structure AreItems (items : List (Text × Text)) : Prop where
  isPair : ∀ kv ∈ items, IsPair kv
  nodup : (items.map Prod.fst).Nodup

/-- The items in a message: with commas between them, and for the codes with tags and
fields also with blanks in front of the first field. -/
inductive IsBody (code : Code) : List (Text × Text) → Text → Prop
  | commas {items : List (Text × Text)} (hne : items ≠ []) : IsBody code items (itemsText items)
  | sections {tags rest : List (Text × Text)} {last : Text × Text} {blank : Char}
      {blanks value : Text} (hspaced : ¬code.spaced)
      (hblanks : ∀ c ∈ blank :: blanks, isspace c ∧ c ≠ '\n')
      (hlast : last.2.getLast?.any isspace = false) :
      IsBody code (tags ++ last :: (code.first_field, value) :: rest)
        (itemsText (tags ++ [last]) ++ blank :: blanks ++
          itemsText ((code.first_field, value) :: rest))

section Texts

variable {items : List (Text × Text)} {kv : Text × Text}

theorem itemsText_cons (kv : Text × Text) (hne : items ≠ []) :
    itemsText (kv :: items) = itemText kv ++ ',' :: itemsText items := by
  have hmap : items.map itemText ≠ [] := by simpa using hne
  rw [itemsText, List.map_cons, List.intercalate_cons_of_ne_nil hmap]
  simp [itemsText]

theorem itemsText_cons_eq_flatMap (kv : Text × Text) (items : List (Text × Text)) :
    itemsText (kv :: items) = itemText kv ++ items.flatMap fun kv => ',' :: itemText kv := by
  induction items generalizing kv with
  | nil => simp [itemsText]
  | cons kv' items ih => rw [itemsText_cons kv (List.cons_ne_nil _ _), ih, List.flatMap_cons]; rfl

theorem itemsText_singleton (kv : Text × Text) : itemsText [kv] = itemText kv :=
  List.intercalate_singleton

theorem itemsText_append {front back : List (Text × Text)} (hfront : front ≠ [])
    (hback : back ≠ []) : itemsText (front ++ back) = itemsText front ++ ',' :: itemsText back := by
  induction front with
  | nil => exact absurd rfl hfront
  | cons kv front ih =>
      rcases eq_or_ne front [] with rfl | hne
      · rw [List.singleton_append, itemsText_cons kv hback, itemsText_singleton]
      · rw [List.cons_append, itemsText_cons kv (List.append_ne_nil_of_left_ne_nil hne back),
          ih hne, itemsText_cons kv hne, List.append_assoc, List.cons_append]

theorem infix_of_not_mem {word front back : Text} {c : Char} (hc : c ∉ word)
    (h : word <:+: front ++ c :: back) : word <:+: front ∨ word <:+: back := by
  have hstarts {found : Text} (hne : found ≠ []) (hfound : found <+: c :: back) : c ∈ found := by
    obtain ⟨d, found, rfl⟩ := List.exists_cons_of_ne_nil hne
    rw [(List.cons_prefix_cons.mp hfound).1]
    exact List.mem_cons_self
  rcases infix_append_cases h with hfront | hback | ⟨a, b, rfl, -, hne, -, hb⟩
  · exact .inl hfront
  · rcases List.infix_cons_iff.mp hback with hstart | hlater
    · rcases eq_or_ne word [] with rfl | hne
      · exact .inl (List.nil_infix)
      · exact absurd (hstarts hne hstart) hc
    · exact .inr hlater
  · exact absurd (List.mem_append_right a (hstarts hne hb)) hc

theorem mem_value_of_infix {c : Char} {word : Text} (hc : isspace c)
    (hkeys : ∀ kv ∈ items, ∀ c ∈ kv.1, isspace c = false) (hcomma : ',' ∉ c :: word)
    (h : c :: word <:+: itemsText items) : ∃ kv ∈ items, c :: word <:+: kv.2 := by
  have hvalue {kv : Text × Text} (hkey : ∀ c ∈ kv.1, isspace c = false)
      (hword : c :: word <:+: itemText kv) : c :: word <:+: kv.2 := by
    obtain ⟨s, t, hst⟩ := hword
    have hsplit : s ++ (c :: word ++ t) = (kv.1 ++ ['=']) ++ kv.2 := by
      rw [← List.append_assoc, hst, itemText]
      simp
    rcases List.append_eq_append_iff.mp hsplit with ⟨m, hfront, hback⟩ | ⟨m, -, hback⟩
    · cases m with
      | nil => exact ⟨[], t, by simpa using hback⟩
      | cons d m =>
          obtain ⟨rfl, -⟩ := List.cons.inj hback
          have hmem : c ∈ kv.1 ++ ['='] := hfront ▸ by simp
          rcases List.mem_append.mp hmem with hmem | hmem
          · exact absurd (hc.symm.trans (hkey c hmem)) Bool.noConfusion
          · rw [List.mem_singleton.mp hmem] at hc
            exact absurd hc (by decide)
    · exact ⟨m, t, by rw [List.append_assoc]; exact hback.symm⟩
  induction items with
  | nil => exact absurd (List.infix_nil.mp h) (List.cons_ne_nil _ _)
  | cons kv items ih =>
      rw [List.forall_mem_cons] at hkeys
      rcases eq_or_ne items [] with rfl | hne
      · rw [itemsText_singleton] at h
        exact ⟨kv, List.mem_cons_self, hvalue hkeys.1 h⟩
      · rw [itemsText_cons kv hne] at h
        rcases infix_of_not_mem hcomma h with hfirst | hlater
        · exact ⟨kv, List.mem_cons_self, hvalue hkeys.1 hfirst⟩
        · obtain ⟨kv', hmem, hword⟩ := ih hkeys.2 hlater
          exact ⟨kv', List.mem_cons_of_mem kv hmem, hword⟩

end Texts

section Deletions

/-- The deletions behind that of the trigger. -/
def deleted (text : Text) : Text :=
  remove (lit "\"".toList 0) (remove (lit "\\".toList 0) (remove (lit ".lanl.gov".toList 0)
    (remove (lit ".localdomain".toList 0) text)))

/-- There is nothing to delete in the text. -/
structure IsPlain (text : Text) : Prop where
  localdomain : ¬strstr text ".localdomain".toList
  lanl : ¬strstr text ".lanl.gov".toList
  backslash : '\\' ∉ text
  quote : '"' ∉ text

theorem deleted_append_cons {c : Char} (hc : isspace c ∨ c = ',' ∨ c = '=') (front back : Text) :
    deleted (front ++ c :: back) = deleted front ++ c :: deleted back := by
  have hnot {word : Text} (hspaces : ∀ d ∈ word, isspace d = false) (hcomma : ',' ∉ word)
      (hequals : '=' ∉ word) : c ∉ word := by
    intro hmem
    rcases hc with hc | rfl | rfl
    · exact absurd (hc.symm.trans (hspaces c hmem)) Bool.noConfusion
    · exact hcomma hmem
    · exact hequals hmem
  have hlocal : c ∉ ".localdomain".toList := hnot (by simp [isspace]) (by decide) (by decide)
  have hlanl : c ∉ ".lanl.gov".toList := hnot (by simp [isspace]) (by decide) (by decide)
  have hslash : c ∉ "\\".toList := hnot (by simp [isspace]) (by decide) (by decide)
  have hquote : c ∉ "\"".toList := hnot (by simp [isspace]) (by decide) (by decide)
  rw [deleted, remove_lit_append_cons (by decide) hlocal, remove_lit_append_cons (by decide) hlanl,
    remove_lit_append_cons (by decide) hslash, remove_lit_append_cons (by decide) hquote]
  rfl

theorem deletions_lower :
    ∀ f ∈ [remove (lit ".localdomain".toList 0), remove (lit ".lanl.gov".toList 0),
      remove (lit "\\".toList 0), remove (lit "\"".toList 0)], Lowers charWeight f := by
  have hlit {word : Text} {c : Char} (h : c ∈ word) : Lowers charWeight (remove (lit word 0)) :=
    remove_lowers charWeight_pos (one_mem_lit h 0)
  simp only [List.forall_mem_cons]
  exact ⟨hlit (show '.' ∈ ".localdomain".toList by decide),
    hlit (show '.' ∈ ".lanl.gov".toList by decide), hlit (show '\\' ∈ "\\".toList by decide),
    hlit (show '"' ∈ "\"".toList by decide), by simp⟩

theorem deleted_lowers : Lowers charWeight deleted := foldl_lowers deletions_lower

theorem deleted_eq_self_iff (text : Text) : deleted text = text ↔ IsPlain text := by
  have hsteps := foldl_eq_self_iff deletions_lower text
  simp only [List.forall_mem_cons] at hsteps
  rw [remove_lit_eq_self_iff (show '.' ∈ ".localdomain".toList by decide),
    remove_lit_eq_self_iff (show '.' ∈ ".lanl.gov".toList by decide),
    remove_lit_eq_self_iff (show '\\' ∈ "\\".toList by decide),
    remove_lit_eq_self_iff (show '"' ∈ "\"".toList by decide),
    show "\\".toList = ['\\'] from rfl, show "\"".toList = ['"'] from rfl,
    strstr_singleton_iff, strstr_singleton_iff] at hsteps
  refine hsteps.trans ⟨fun h => ⟨h.1, h.2.1, h.2.2.1, h.2.2.2.1⟩, fun h => ?_⟩
  exact ⟨h.localdomain, h.lanl, h.backslash, h.quote, by simp⟩

theorem forall_deleted {P : Char → Prop} {text : Text} (h : ∀ c ∈ text, P c) :
    ∀ c ∈ deleted text, P c :=
  forall_remove (forall_remove (forall_remove (forall_remove h)))

/-- An item with what the deletions leave of its key. -/
def deleteKey (kv : Text × Text) : Text × Text := (deleted kv.1, kv.2)

theorem deleted_itemText {kv : Text × Text} (hvalue : IsPlain kv.2) :
    deleted (itemText kv) = itemText (deleteKey kv) := by
  rw [itemText, deleted_append_cons (.inr (.inr rfl)), (deleted_eq_self_iff kv.2).mpr hvalue]
  rfl

theorem deleted_itemsText {items : List (Text × Text)} (hvalues : ∀ kv ∈ items, IsPlain kv.2) :
    deleted (itemsText items) = itemsText (items.map deleteKey) := by
  induction items with
  | nil => rfl
  | cons kv items ih =>
      rw [List.forall_mem_cons] at hvalues
      rcases eq_or_ne items [] with rfl | hne
      · rw [itemsText_singleton, deleted_itemText hvalues.1, List.map_singleton,
          itemsText_singleton]
      · have hmap : items.map deleteKey ≠ [] := by simpa using hne
        rw [itemsText_cons kv hne, deleted_append_cons (.inr (.inl rfl)),
          deleted_itemText hvalues.1, ih hvalues.2, List.map_cons, itemsText_cons _ hmap]

theorem deleted_blanks {blanks : Text} (hblanks : ∀ c ∈ blanks, isspace c) (front : Text)
    {c : Char} (hc : isspace c) (back : Text) :
    deleted (front ++ c :: blanks ++ back) = deleted front ++ c :: blanks ++ deleted back := by
  induction blanks generalizing front c with
  | nil => simpa using deleted_append_cons (.inl hc) front back
  | cons d blanks ih =>
      rw [List.forall_mem_cons] at hblanks
      have hback := ih hblanks.2 [] hblanks.1
      rw [List.nil_append, show deleted [] = [] from rfl, List.nil_append] at hback
      rw [List.append_assoc, List.cons_append, deleted_append_cons (.inl hc), hback]
      simp

end Deletions

section Joining

variable {code : Code} {items parted : List (Text × Text)} {body : Text}

/-- The trigger is removed from the start of the line, and the rest of the line has no
other start. -/
theorem remove_trigger (code : Code) (hline : '\n' ∉ body) :
    remove (bol ++ lit code.trigger 0) (code.trigger ++ body) = body := by
  have hone : (Atom.one (· == code.separator), 0) ∈ bol ++ lit code.trigger 0 :=
    List.mem_append_right _ (one_mem_lit (separator_mem_trigger code) 0)
  have hbol : atBol none (code.trigger ++ body) = true := rfl
  have hmatch : matchHere (bol ++ lit code.trigger 0) none (code.trigger ++ body) =
      some ([] :: code.trigger.map fun c => [c], body) := by
    rw [bol, List.singleton_append, matchHere, if_pos hbol, matchHere_word]
    rfl
  have hflatten : (([] : Text) :: code.trigger.map fun c => [c]).flatten = code.trigger := by
    rw [List.flatten_cons, List.nil_append, ← List.flatMap_def, List.flatMap_singleton']
  have hsep : lastChar none code.trigger = some code.separator := lastChar_concat none _ _
  have hseparator : code.separator ≠ '\n' := by cases code <;> decide
  have hrest := @gsubAt_copy (bol ++ lit code.trigger 0) (fun _ => []) (some code.separator)
    ⟨_, 0, hone⟩ body [] fun before rest heq _ => by
      obtain ⟨c, hc, hne⟩ : ∃ c, lastChar (some code.separator) before = some c ∧ c ≠ '\n' := by
        rcases List.eq_nil_or_concat before with rfl | ⟨init, c, rfl⟩
        · exact ⟨code.separator, rfl, hseparator⟩
        · rw [List.concat_eq_append] at heq ⊢
          refine ⟨c, lastChar_concat _ _ _, ?_⟩
          rintro rfl
          exact hline (heq ▸ by simp)
      have hnot : atBol (some c) (rest ++ []) = false := by simp [atBol, hne]
      rw [hc, bol, List.singleton_append, matchHere, hnot, if_neg Bool.false_ne_true]
  have hend (prev : Option Char) : gsubAt (bol ++ lit code.trigger 0) (fun _ => []) prev [] = [] :=
    gsubAt_of_missing hone (by simp) prev
  rw [hend, List.append_nil] at hrest
  rw [remove, gsub_eq_gsubAt, gsubAt_some ⟨_, 0, hone⟩ (search_of_matchHere hmatch), hflatten,
    List.nil_append, List.nil_append, List.nil_append, hsep, hrest]

/-- The joining of tags and fields. -/
def joinedSections (code : Code) (text : Text) : Text :=
  if code.spaced then text
  else gsub (fieldsPattern code.first_field)
    (fun parts => ",".toList ++ capture (fieldsPattern code.first_field) parts 1) text

theorem joined_eq_joinedSections (hline : '\n' ∉ body) :
    joined code (code.trigger ++ body) = joinedSections code (deleted body) := by
  rw [joined_eq, remove_trigger code hline]
  rfl

theorem capture_lit_self (word : Text) (g : Nat) :
    capture (lit word g) (word.map fun c => [c]) g = word := by
  induction word with
  | nil => rfl
  | cons c word ih =>
      rw [lit, List.map_cons, List.map_cons, capture_cons, if_pos rfl]
      exact congrArg (c :: ·) ih

/-- What the first field starts with. -/
def opening (code : Code) : Text := code.first_field ++ ['=']

theorem opening_chars (code : Code) :
    (∀ c ∈ opening code, isspace c = false) ∧ ',' ∉ opening code := by
  have hspaces : code.first_field.all (fun c => !isspace c) = true := by cases code <;> rfl
  have hcomma : ',' ∉ code.first_field := by cases code <;> decide
  rw [opening, List.forall_mem_append, List.forall_mem_singleton, List.mem_append, not_or]
  exact ⟨⟨fun c hc => by simpa using List.all_eq_true.mp hspaces c hc, by decide⟩, hcomma, by decide⟩

/-- A blank in front of the first field. -/
def HasOpening (code : Code) (text : Text) : Prop := ∃ c, isspace c ∧ c :: opening code <:+: text

/-- The first part of a value, and the values of the first field that is read behind every
blank in front of its name; the codes without tags have no such parts. -/
inductive Parts (code : Code) : Text → Text → List Text → Prop
  | whole {value : Text} (h : code.spaced ∨ ¬HasOpening code value) : Parts code value value []
  | cut {value blanks rest head : Text} {blank : Char} {tail : List Text}
      (hspaced : ¬code.spaced) (hvalue : ¬HasOpening code value)
      (hlast : value.getLast?.any isspace = false) (hblanks : ∀ c ∈ blank :: blanks, isspace c)
      (hrest : Parts code rest head tail) :
      Parts code (value ++ blank :: blanks ++ (opening code ++ rest)) value (head :: tail)

/-- The items with those that are read in their values. -/
inductive Parted (code : Code) : List (Text × Text) → List (Text × Text) → Prop
  | nil : Parted code [] []
  | cons {key value head : Text} {tail : List Text} {items parted : List (Text × Text)}
      (h : Parts code value head tail) (hitems : Parted code items parted) :
      Parted code ((key, value) :: items)
        ((key, head) :: tail.map (code.first_field, ·) ++ parted)

theorem exists_first_opening {text : Text} (h : HasOpening code text) :
    ∃ front c rest, text = front ++ c :: (opening code ++ rest) ∧ isspace c ∧
      ¬HasOpening code front := by
  induction text with
  | nil =>
      obtain ⟨c, -, hfound⟩ := h
      exact absurd (List.infix_nil.mp hfound) (List.cons_ne_nil _ _)
  | cons c text ih =>
      by_cases hstart : isspace c ∧ opening code <+: text
      · obtain ⟨hc, rest, rfl⟩ := hstart
        refine ⟨[], c, rest, rfl, hc, ?_⟩
        rintro ⟨d, -, hfound⟩
        exact absurd (List.infix_nil.mp hfound) (List.cons_ne_nil _ _)
      · have hlater : HasOpening code text := by
          obtain ⟨d, hd, hfound⟩ := h
          rcases List.infix_cons_iff.mp hfound with hprefix | hinfix
          · obtain ⟨rfl, hopening⟩ := List.cons_prefix_cons.mp hprefix
            exact absurd ⟨hd, hopening⟩ hstart
          · exact ⟨d, hd, hinfix⟩
        obtain ⟨front, d, rest, rfl, hd, hfront⟩ := ih hlater
        refine ⟨c :: front, d, rest, rfl, hd, ?_⟩
        rintro ⟨d', hd', hfound⟩
        rcases List.infix_cons_iff.mp hfound with hprefix | hinfix
        · obtain ⟨rfl, hopening⟩ := List.cons_prefix_cons.mp hprefix
          exact hstart ⟨hd', hopening.trans (List.prefix_append front _)⟩
        · exact hfront ⟨d', hd', hinfix⟩

theorem exists_parts (code : Code) (value : Text) : ∃ head tail, Parts code value head tail := by
  by_cases h : code.spaced ∨ ¬HasOpening code value
  · exact ⟨value, [], .whole h⟩
  · rw [not_or, not_not] at h
    obtain ⟨front, c, rest, htext, hc, hfront⟩ := exists_first_opening h.2
    have hlength : rest.length < value.length := by
      rw [htext]
      simp only [List.length_append, List.length_cons]
      omega
    obtain ⟨head, tail, hrest⟩ := exists_parts code rest
    have hsplit : front.rdropWhile isspace ++ front.rtakeWhile isspace = front :=
      List.rdropWhile_append_rtakeWhile
    obtain ⟨blank, blanks, hblanks⟩ := List.exists_cons_of_ne_nil
      (List.append_ne_nil_of_right_ne_nil (front.rtakeWhile isspace) (List.cons_ne_nil c []))
    have hspaces : ∀ d ∈ blank :: blanks, isspace d := by
      rw [← hblanks, List.forall_mem_append, List.forall_mem_singleton]
      exact ⟨fun d hd => List.mem_rtakeWhile_imp hd, hc⟩
    have hshort : ¬HasOpening code (front.rdropWhile isspace) := by
      rintro ⟨d, hd, hfound⟩
      exact hfront ⟨d, hd, hfound.trans (List.rdropWhile_prefix isspace front).isInfix⟩
    have hlast : (front.rdropWhile isspace).getLast?.any isspace = false := by
      rcases eq_or_ne (front.rdropWhile isspace) [] with hnil | hne
      · rw [hnil]
        rfl
      · rw [List.getLast?_eq_some_getLast hne]
        simpa using List.rdropWhile_last_not isspace front hne
    have hcut : front ++ [c] = front.rdropWhile isspace ++ blank :: blanks := by
      rw [← hblanks, ← List.append_assoc, hsplit]
    have hvalue : value = front ++ [c] ++ (opening code ++ rest) := by
      rw [htext, List.append_assoc, List.singleton_append]
    refine ⟨front.rdropWhile isspace, head :: tail, ?_⟩
    rw [hvalue, hcut]
    exact .cut h.1 hshort hlast hspaces hrest
termination_by value.length

theorem exists_parted (code : Code) (items : List (Text × Text)) :
    ∃ parted, Parted code items parted := by
  induction items with
  | nil => exact ⟨[], .nil⟩
  | cons kv items ih =>
      obtain ⟨parted, hparted⟩ := ih
      obtain ⟨head, tail, hparts⟩ := exists_parts code kv.2
      exact ⟨_, .cons hparts hparted⟩

theorem forall_mem_itemsText {P : Char → Prop} (hcomma : P ',') (hequals : P '=')
    (hitems : ∀ kv ∈ items, (∀ c ∈ kv.1, P c) ∧ ∀ c ∈ kv.2, P c) : ∀ c ∈ itemsText items, P c := by
  induction items with
  | nil => simp [itemsText]
  | cons kv items ih =>
      rw [List.forall_mem_cons] at hitems
      have hitem : ∀ c ∈ itemText kv, P c := by
        rw [itemText, List.forall_mem_append, List.forall_mem_cons]
        exact ⟨hitems.1.1, hequals, hitems.1.2⟩
      rcases eq_or_ne items [] with rfl | hne
      · rwa [itemsText_singleton]
      · rw [itemsText_cons kv hne, List.forall_mem_append, List.forall_mem_cons]
        exact ⟨hitem, hcomma, ih hitems.2⟩

theorem itemsText_parts (key head : Text) (tail : List Text) :
    itemsText ((key, head) :: tail.map (code.first_field, ·)) =
      key ++ '=' :: (head ++ tail.flatMap fun value => ',' :: (opening code ++ value)) := by
  induction tail generalizing key head with
  | nil => rw [List.map_nil, itemsText_singleton, itemText, List.flatMap_nil, List.append_nil]
  | cons value tail ih =>
      rw [List.map_cons, itemsText_cons _ (List.cons_ne_nil _ _), ih, List.flatMap_cons, itemText,
        opening]
      simp

/-- How the match in front of the first field is replaced. -/
def joinFields (code : Code) (parts : List Text) : Text :=
  ",".toList ++ capture (fieldsPattern code.first_field) parts 1

theorem joinFields_eq (code : Code) (blank : Char) (blanks : Text) :
    joinFields code ([blank] :: blanks :: (opening code).map fun c => [c]) =
      ',' :: opening code := by
  have hpattern : fieldsPattern code.first_field = plus isspace 0 ++ lit (opening code) 1 := rfl
  rw [joinFields, hpattern, capture_plus, if_neg (by decide), capture_lit_self]
  rfl

theorem gsubAt_parts {value head : Text} {tail : List Text} (hspaced : ¬code.spaced)
    (h : Parts code value head tail) (prev : Option Char) :
    gsubAt (plus isspace 0 ++ lit (opening code) 1) (joinFields code) prev value =
      head ++ tail.flatMap fun value => ',' :: (opening code ++ value) := by
  induction h generalizing prev with
  | whole h =>
      rw [List.flatMap_nil, List.append_nil]
      exact gsubAt_plus_lit_of_missing
        (fun c hc hfound => h.resolve_left hspaced ⟨c, hc, hfound⟩) 0 1
  | @cut value blanks rest head blank tail _ hvalue hlast hblanks _ ih =>
      have hne : opening code ≠ [] := List.append_ne_nil_of_right_ne_nil _ (List.cons_ne_nil _ _)
      have hhead : ∀ c ∈ (blank :: blanks ++ (opening code ++ rest)).head?, isspace c := by
        intro c hc
        obtain rfl : blank = c := Option.some.inj hc
        exact hblanks blank List.mem_cons_self
      rw [List.append_assoc, gsubAt_plus_lit_copy (opening_chars code).1
          (fun c hc hfound => hvalue ⟨c, hc, hfound⟩) hlast hhead,
        gsubAt_plus_lit_run (opening_chars code).1 hblanks hne, ih, joinFields_eq,
        List.flatMap_cons]
      simp

theorem Parted.ne_nil (h : Parted code items parted) (hne : items ≠ []) : parted ≠ [] := by
  cases h with
  | nil => exact hne
  | cons => exact List.cons_ne_nil _ _

theorem Parted.eq_of_spaced (h : Parted code items parted) (hspaced : code.spaced) :
    parted = items := by
  induction h with
  | nil => rfl
  | cons hparts _ ih =>
      cases hparts with
      | whole => rw [ih]; rfl
      | cut hnot => exact absurd hspaced hnot

theorem joinedSections_itemsText (hkeys : ∀ kv ∈ items, ∀ c ∈ kv.1, isspace c = false)
    (h : Parted code items parted) : joinedSections code (itemsText items) = itemsText parted := by
  by_cases hspaced : code.spaced
  · rw [joinedSections, if_pos hspaced, h.eq_of_spaced hspaced]
  · have hjoin (text : Text) : joinedSections code text =
        gsub (plus isspace 0 ++ lit (opening code) 1) (joinFields code) text := by
      rw [joinedSections, if_neg hspaced]
      rfl
    have hpattern := consumes_plus_lit isspace (opening code) 0 1
    have hcomma : Rejects (plus isspace 0 ++ lit (opening code) 1) ',' :=
      rejects_plus_lit rfl (opening_chars code).2 0 1
    rw [hjoin]
    induction h with
    | nil => exact gsubAt_plus_lit_of_missing (by simp [itemsText]) 0 1
    | @cons key value head tail items parted hparts hitems ih =>
        rw [List.forall_mem_cons] at hkeys
        have hitem : gsub (plus isspace 0 ++ lit (opening code) 1) (joinFields code)
            (itemText (key, value)) = itemsText ((key, head) :: tail.map (code.first_field, ·)) := by
          have hskip : ∀ c ∈ key ++ ['='], isspace c = false := by
            rw [List.forall_mem_append, List.forall_mem_singleton]
            exact ⟨hkeys.1, rfl⟩
          have htext : itemText (key, value) = key ++ ['='] ++ value := by simp [itemText]
          rw [htext, gsub_eq_gsubAt, gsubAt_plus_lit_skip hskip, gsubAt_parts hspaced hparts,
            itemsText_parts]
          simp
        rcases eq_or_ne items [] with rfl | hne
        · cases hitems with
          | nil => rw [itemsText_singleton, hitem, List.append_nil]
        · rw [itemsText_cons _ hne, gsub_append_cons hpattern (unanchored_plus_lit _ _ 0 1) hcomma,
            hitem, ih hkeys.2, itemsText_append (List.cons_ne_nil _ _) (hitems.ne_nil hne)]

end Joining


section Bodies

variable {code : Code} {items parted : List (Text × Text)} {body : Text}

/-- An item of which only the key may change before it is looked for tags and fields. -/
structure IsClear (kv : Text × Text) : Prop where
  key : ∀ c ∈ kv.1, c ≠ ',' ∧ isspace c = false
  value : ∀ c ∈ kv.2, c ≠ ',' ∧ c ≠ '\n'
  plain : IsPlain kv.2

theorem IsPair.isClear {kv : Text × Text} (h : IsPair kv) : IsClear kv where
  key c hc := ⟨(h.key c hc).2.1, (h.key c hc).2.2.2⟩
  value c hc := ⟨(h.value c hc).1, (h.value c hc).2.2.2⟩
  plain := ⟨h.domain.1, h.domain.2, fun hc => (h.value _ hc).2.2.1 rfl,
    fun hc => (h.value _ hc).2.1 rfl⟩

theorem isPlain_first_field (code : Code) : IsPlain code.first_field := by
  cases code <;> exact ⟨by decide, by decide, by decide, by decide⟩

theorem parts_append {value rest head head' blanks : Text} {tail tail' : List Text} {blank : Char}
    (h : Parts code value head tail) (hspaced : ¬code.spaced)
    (hlast : value.getLast?.any isspace = false) (hblanks : ∀ c ∈ blank :: blanks, isspace c)
    (h' : Parts code rest head' tail') :
    Parts code (value ++ blank :: blanks ++ (opening code ++ rest)) head
      (tail ++ head' :: tail') := by
  induction h with
  | whole h => exact .cut hspaced (h.resolve_left hspaced) hlast hblanks h'
  | @cut value₀ blanks₀ rest₀ head tail blank₀ _ hvalue₀ hlast₀ hblanks₀ _ ih =>
      have hlast' : rest₀.getLast?.any isspace = false := by
        rcases eq_or_ne rest₀ [] with rfl | hne
        · rfl
        · rwa [← List.append_assoc, List.getLast?_append_of_ne_nil _ hne] at hlast
      have hmore := Parts.cut hspaced hvalue₀ hlast₀ hblanks₀ (ih hlast')
      simpa using hmore

theorem Parted.merge {tags rest : List (Text × Text)} {key value value' blanks : Text}
    {blank : Char} (hspaced : ¬code.spaced) (hlast : value.getLast?.any isspace = false)
    (hblanks : ∀ c ∈ blank :: blanks, isspace c)
    (h : Parted code (tags ++ (key, value) :: (code.first_field, value') :: rest) parted) :
    Parted code (tags ++ (key, value ++ blank :: blanks ++ (opening code ++ value')) :: rest)
      parted := by
  induction tags generalizing parted with
  | nil =>
      cases h with
      | @cons _ _ head tail _ _ hparts hitems =>
          cases hitems with
          | @cons _ _ head' tail' _ _ hparts' hrest =>
              have hmerged := @Parted.cons code key _ _ _ _ _
                (parts_append hparts hspaced hlast hblanks hparts') hrest
              simpa using hmerged
  | cons kv tags ih =>
      cases h with
      | cons hparts hitems => exact .cons hparts (ih hitems)

theorem isClear_merge {key value value' blanks : Text} {blank : Char}
    (h : IsClear (key, value)) (h' : IsClear (code.first_field, value'))
    (hblanks : ∀ c ∈ blank :: blanks, isspace c ∧ c ≠ '\n') :
    IsClear (key, value ++ blank :: blanks ++ (opening code ++ value')) where
  key := h.key
  value := by
    have hopening : ∀ c ∈ opening code, c ≠ ',' ∧ c ≠ '\n' := by
      rw [opening, List.forall_mem_append, List.forall_mem_singleton]
      refine ⟨fun c hc => ⟨(h'.key c hc).1, ?_⟩, by decide⟩
      rintro rfl
      exact absurd (h'.key _ hc).2 (by decide)
    have hspaces : ∀ c ∈ blank :: blanks, c ≠ ',' ∧ c ≠ '\n' := by
      refine fun c hc => ⟨?_, (hblanks c hc).2⟩
      rintro rfl
      exact absurd (hblanks _ hc).1 (by decide)
    rw [List.forall_mem_append, List.forall_mem_append, List.forall_mem_append]
    exact ⟨⟨h.value, hspaces⟩, hopening, h'.value⟩
  plain := by
    rw [List.forall_mem_cons] at hblanks
    have hopening : opening code ++ value' = code.first_field ++ '=' :: value' := by simp [opening]
    rw [← deleted_eq_self_iff, deleted_blanks (fun c hc => (hblanks.2 c hc).1) _ hblanks.1.1,
      hopening, deleted_append_cons (.inr (.inr rfl)), (deleted_eq_self_iff value).mpr h.plain,
      (deleted_eq_self_iff value').mpr h'.plain,
      (deleted_eq_self_iff _).mpr (isPlain_first_field code)]

theorem IsBody.exists_items (hbody : IsBody code items body) (hitems : ∀ kv ∈ items, IsPair kv)
    (hparted : Parted code items parted) :
    ∃ merged, body = itemsText merged ∧ merged ≠ [] ∧ (∀ kv ∈ merged, IsClear kv) ∧
      Parted code merged parted := by
  cases hbody with
  | commas hne => exact ⟨items, rfl, hne, fun kv hkv => (hitems kv hkv).isClear, hparted⟩
  | @sections tags rest last blank blanks value hspaced hblanks hlast =>
      obtain ⟨key, tag⟩ := last
      have hspaces : ∀ c ∈ blank :: blanks, isspace c := fun c hc => (hblanks c hc).1
      refine ⟨tags ++ (key, tag ++ blank :: blanks ++ (opening code ++ value)) :: rest, ?_,
        List.append_ne_nil_of_right_ne_nil _ (List.cons_ne_nil _ _), ?_,
        hparted.merge hspaced hlast hspaces⟩
      · cases tags with
        | nil =>
            rw [List.nil_append, List.nil_append, itemsText_singleton, itemsText_cons_eq_flatMap,
              itemsText_cons_eq_flatMap]
            simp [itemText, opening]
        | cons kv tags =>
            rw [List.cons_append, List.cons_append, itemsText_cons_eq_flatMap,
              itemsText_cons_eq_flatMap, itemsText_cons_eq_flatMap]
            simp [itemText, opening]
      · rw [List.forall_mem_append, List.forall_mem_cons, List.forall_mem_cons] at hitems
        rw [List.forall_mem_append, List.forall_mem_cons]
        refine ⟨fun kv hkv => (hitems.1 kv hkv).isClear, ?_,
          fun kv hkv => (hitems.2.2.2 kv hkv).isClear⟩
        exact isClear_merge hitems.2.1.isClear hitems.2.2.1.isClear hblanks

theorem Parted.map_deleteKey (h : Parted code items parted) :
    Parted code (items.map deleteKey) (parted.map deleteKey) := by
  induction h with
  | nil => exact .nil
  | @cons key value head tail items parted hparts _ ih =>
      have hfield (value : Text) : deleteKey (code.first_field, value) = (code.first_field, value) := by
        rw [deleteKey, (deleted_eq_self_iff code.first_field).mpr (isPlain_first_field code)]
      have hmap : (tail.map (code.first_field, ·)).map deleteKey =
          tail.map (code.first_field, ·) := by
        rw [List.map_map]
        exact List.map_congr_left fun value _ => hfield value
      rw [List.map_cons, List.cons_append, List.map_cons, List.map_append, hmap]
      exact .cons hparts ih

theorem newline_not_mem_itemsText (hitems : ∀ kv ∈ items, IsClear kv) : '\n' ∉ itemsText items := by
  have hchars : ∀ c ∈ itemsText items, c ≠ '\n' := by
    refine forall_mem_itemsText (by decide) (by decide) fun kv hkv => ⟨fun c hc => ?_, fun c hc => ?_⟩
    · rintro rfl
      exact absurd ((hitems kv hkv).key _ hc).2 (by decide)
    · exact ((hitems kv hkv).value c hc).2
  exact fun hc => hchars _ hc rfl

theorem newline_not_mem_line (hbody : IsBody code items body) (hitems : ∀ kv ∈ items, IsPair kv) :
    '\n' ∉ code.trigger ++ body := by
  have htrigger : '\n' ∉ code.trigger := by cases code <;> decide
  obtain ⟨parted, hparted⟩ := exists_parted code items
  obtain ⟨merged, rfl, -, hclear, -⟩ := hbody.exists_items hitems hparted
  rw [List.mem_append, not_or]
  exact ⟨htrigger, newline_not_mem_itemsText hclear⟩

/-- Up to the timestamp the items are read apart, with what is left of their keys. -/
theorem joined_body (hbody : IsBody code items body) (hitems : ∀ kv ∈ items, IsPair kv)
    (hparted : Parted code items parted) :
    joined code (code.trigger ++ body) = itemsText (parted.map deleteKey) := by
  have hline := newline_not_mem_line hbody hitems
  obtain ⟨merged, rfl, -, hclear, hmerged⟩ := hbody.exists_items hitems hparted
  have hkeys : ∀ kv ∈ merged.map deleteKey, ∀ c ∈ kv.1, isspace c = false := by
    rw [List.forall_mem_map]
    exact fun kv hkv => forall_deleted fun c hc => ((hclear kv hkv).key c hc).2
  rw [joined_eq_joinedSections fun hc => hline (List.mem_append_right _ hc),
    deleted_itemsText fun kv hkv => (hclear kv hkv).plain,
    joinedSections_itemsText hkeys hmerged.map_deleteKey]

end Bodies

end DaapLog.MessageItems
