import DaapLog.MessageItems

/-!
The items of a text message that its branch reaches: those in front of its time.
-/

namespace DaapLog.ReachedItems

open DaapLog.CStrings
open DaapLog.LinearPatterns
open DaapLog.PluginMessages
open DaapLog.CleanMessages
open DaapLog.MessageTimes
open DaapLog.MessageItems
open DaapLog.RubyStrings (split splitItem)

section Reading

/-- A blank in front of a digit. -/
def HasTime (text : Text) : Prop := ∃ d : Char, d.isDigit ∧ [' ', d] <:+: text

/-- What ends a message: nothing, or a blank and a timestamp. -/
def ending : Option (Text × Text) → Text
  | none => []
  | some (digits, tail) => ' ' :: (digits ++ tail)

/-- The items in front of the time of the message. Without a timestamp at the end, that is
the last blank in front of a digit in a value. -/
inductive Reached (timed : Prop) : List (Text × Text) → List (Text × Text) → Prop
  | all {items : List (Text × Text)} (h : timed ∨ ∀ kv ∈ items, ¬HasTime kv.2) :
      Reached timed items items
  | cut {front behind : List (Text × Text)} {key value rest : Text} {d : Char} (htimed : ¬timed)
      (hd : d.isDigit) (hrest : ¬HasTime rest) (hbehind : ∀ kv ∈ behind, ¬HasTime kv.2) :
      Reached timed (front ++ (key, value ++ ' ' :: d :: rest) :: behind) (front ++ [(key, value)])

variable {code : Code} {items parted seen : List (Text × Text)} {body : Text}

theorem exists_last_time {text : Text} (h : HasTime text) :
    ∃ value d rest, text = value ++ ' ' :: d :: rest ∧ d.isDigit ∧ ¬HasTime rest := by
  induction text with
  | nil =>
      obtain ⟨d, -, hfound⟩ := h
      exact absurd (List.infix_nil.mp hfound) (List.cons_ne_nil _ _)
  | cons c text ih =>
      by_cases hlater : HasTime text
      · obtain ⟨value, d, rest, rfl, hd, hrest⟩ := ih hlater
        exact ⟨c :: value, d, rest, rfl, hd, hrest⟩
      · obtain ⟨d, hd, hfound⟩ := h
        rcases List.infix_cons_iff.mp hfound with ⟨rest, hstart⟩ | hinfix
        · obtain ⟨rfl, rfl⟩ := List.cons.inj hstart
          refine ⟨[], d, rest, rfl, hd, fun hrest => hlater ?_⟩
          obtain ⟨d', hd', hfound'⟩ := hrest
          exact ⟨d', hd', hfound'.trans ⟨[d], [], by simp⟩⟩
        · exact absurd ⟨d, hd, hinfix⟩ hlater

theorem exists_reached (timed : Prop) (items : List (Text × Text)) :
    ∃ seen, Reached timed items seen := by
  by_cases htimed : timed
  · exact ⟨items, .all (.inl htimed)⟩
  · by_cases hnone : ∀ kv ∈ items, ¬HasTime kv.2
    · exact ⟨items, .all (.inr hnone)⟩
    · suffices hlast : ∃ front key value behind, items = front ++ (key, value) :: behind ∧
          HasTime value ∧ ∀ kv ∈ behind, ¬HasTime kv.2 by
        obtain ⟨front, key, value, behind, rfl, htime, hbehind⟩ := hlast
        obtain ⟨value, d, rest, rfl, hd, hrest⟩ := exists_last_time htime
        exact ⟨_, .cut htimed hd hrest hbehind⟩
      induction items with
      | nil => exact absurd (by simp) hnone
      | cons kv items ih =>
          by_cases hlater : ∀ kv ∈ items, ¬HasTime kv.2
          · rw [List.forall_mem_cons, not_and] at hnone
            refine ⟨[], kv.1, kv.2, items, rfl, ?_, hlater⟩
            by_contra hfirst
            exact hnone hfirst hlater
          · obtain ⟨front, key, value, behind, rfl, htime, hbehind⟩ := ih hlater
            exact ⟨kv :: front, key, value, behind, rfl, htime, hbehind⟩

theorem split_itemsText (hne : items ≠ []) (hcomma : ∀ kv ∈ items, ',' ∉ itemText kv) :
    split ',' (itemsText items) = items.map itemText := by
  have hmap : items.map itemText ≠ [] := by simpa using hne
  have hcommas : ∀ item ∈ items.map itemText, ',' ∉ item := by
    rw [List.forall_mem_map]
    exact hcomma
  rw [split, itemsText, List.splitOn_intercalate ',' hcommas hmap, List.rdropWhile_eq_self_iff]
  intro hne'
  obtain ⟨kv, -, hlast⟩ := List.mem_map.mp (List.getLast_mem hne')
  rw [← hlast, itemText]
  simp

theorem not_hasTime_itemsText (hkeys : ∀ kv ∈ items, ∀ c ∈ kv.1, isspace c = false)
    (hvalues : ∀ kv ∈ items, ¬HasTime kv.2) : ¬HasTime (itemsText items) := by
  rintro ⟨d, hd, hfound⟩
  have hcomma : ',' ∉ [' ', d] := by
    rw [List.mem_cons, List.mem_singleton, not_or]
    refine ⟨by decide, ?_⟩
    rintro rfl
    exact absurd hd (by decide)
  obtain ⟨kv, hmem, hvalue⟩ := mem_value_of_infix (by decide) hkeys hcomma hfound
  exact hvalues kv hmem ⟨d, hd, hvalue⟩

theorem HasTime.append_cons {front back : Text} {c : Char} (hblank : c ≠ ' ')
    (hdigit : c.isDigit = false) (h : HasTime (front ++ c :: back)) :
    HasTime front ∨ HasTime back := by
  obtain ⟨d, hd, hfound⟩ := h
  have hnot : c ∉ [' ', d] := by
    rw [List.mem_cons, List.mem_singleton, not_or]
    refine ⟨hblank, ?_⟩
    rintro rfl
    exact absurd (hd.symm.trans hdigit) Bool.noConfusion
  rcases infix_of_not_mem hnot hfound with hfront | hback
  · exact .inl ⟨d, hd, hfront⟩
  · exact .inr ⟨d, hd, hback⟩

theorem itemsText_value (front behind : List (Text × Text)) (key value more : Text) :
    ∃ after, itemsText (front ++ (key, value ++ more) :: behind) =
        itemsText (front ++ [(key, value)]) ++ (more ++ after) ∧
      (after = [] ∨ after = ',' :: itemsText behind) := by
  have hback : ∃ after, itemsText ((key, value ++ more) :: behind) =
        itemText (key, value) ++ (more ++ after) ∧
      (after = [] ∨ after = ',' :: itemsText behind) := by
    rcases eq_or_ne behind [] with rfl | hne
    · exact ⟨[], by rw [itemsText_singleton]; simp [itemText], .inl rfl⟩
    · exact ⟨_, by rw [itemsText_cons _ hne]; simp [itemText], .inr rfl⟩
  obtain ⟨after, htext, hafter⟩ := hback
  refine ⟨after, ?_, hafter⟩
  rcases eq_or_ne front [] with rfl | hne
  · rw [List.nil_append, List.nil_append, htext, itemsText_singleton]
  · rw [itemsText_append hne (List.cons_ne_nil _ _), itemsText_append hne (List.cons_ne_nil _ _),
      htext, itemsText_singleton]
    simp

theorem lastBlank_of_value {behind : List (Text × Text)} {rest after : Text} {d : Char}
    (hline : '\n' ∉ rest ++ after) (hkeys : ∀ kv ∈ behind, ∀ c ∈ kv.1, isspace c = false)
    (hd : d.isDigit) (hrest : ¬HasTime rest) (hbehind : ∀ kv ∈ behind, ¬HasTime kv.2)
    (hafter : after = [] ∨ after = ',' :: itemsText behind) :
    LastBlank ((d :: rest).takeWhile Char.isDigit) (rest.dropWhile Char.isDigit ++ after) [] := by
  have hdropped : rest.dropWhile Char.isDigit <:+ rest := List.dropWhile_suffix _
  refine ⟨?_, fun c hc => List.mem_takeWhile_imp hc, fun c hc => ?_, ?_, rfl,
    fun d' hd' hfound => ?_⟩
  · rw [List.takeWhile_cons_of_pos hd]
    exact List.cons_ne_nil _ _
  · rw [inLine, bne_iff_ne]
    rintro rfl
    rw [List.mem_append] at hc
    exact hline (List.mem_append.mpr (hc.imp_left fun hc => hdropped.subset hc))
  · rw [List.append_nil]
    cases hdrop : rest.dropWhile Char.isDigit with
    | nil => rcases hafter with rfl | rfl <;> rfl
    | cons c more =>
        have hhead := List.head?_dropWhile_not Char.isDigit rest
        rw [hdrop] at hhead
        simpa using hhead
  · have hleft : ¬HasTime (rest.dropWhile Char.isDigit) := by
      rintro ⟨d', hd', hfound⟩
      exact hrest ⟨d', hd', hfound.trans hdropped.isInfix⟩
    rcases hafter with rfl | rfl
    · exact hleft ⟨d', hd', by simpa using hfound⟩
    · rcases HasTime.append_cons (by decide) (by decide) ⟨d', hd', hfound⟩ with hfound | hfound
      · exact hleft hfound
      · exact not_hasTime_itemsText hkeys hbehind hfound

theorem gsub_timestamp_cut {front behind : List (Text × Text)} {key value rest : Text} {d : Char}
    (hline : '\n' ∉ itemsText (front ++ (key, value ++ ' ' :: d :: rest) :: behind))
    (hkeys : ∀ kv ∈ behind, ∀ c ∈ kv.1, isspace c = false) (hd : d.isDigit)
    (hrest : ¬HasTime rest) (hbehind : ∀ kv ∈ behind, ¬HasTime kv.2) :
    gsub timestampPattern stampText
        (itemsText (front ++ (key, value ++ ' ' :: d :: rest) :: behind)) =
      itemsText ((front ++ [(key, value)]) ++
        [("timestamp".toList, (d :: rest).takeWhile Char.isDigit)]) := by
  obtain ⟨after, htext, hafter⟩ := itemsText_value front behind key value (' ' :: d :: rest)
  have hsplit := (@List.takeWhile_append_dropWhile _ Char.isDigit (d :: rest)).symm
  rw [List.dropWhile_cons_of_pos hd] at hsplit
  have hwhole : ' ' :: d :: rest ++ after =
      ' ' :: ((d :: rest).takeWhile Char.isDigit ++ (rest.dropWhile Char.isDigit ++ after ++ [])) := by
    rw [List.append_nil, List.cons_append, ← List.append_assoc, ← hsplit]
  rw [htext, List.mem_append, not_or] at hline
  have hrest' : '\n' ∉ rest ++ after :=
    fun hc => hline.2 (List.mem_cons_of_mem _ (List.mem_cons_of_mem _ hc))
  have hlast := lastBlank_of_value hrest' hkeys hd hrest hbehind hafter
  have hfront : front ++ [(key, value)] ≠ [] :=
    List.append_ne_nil_of_right_ne_nil _ (List.cons_ne_nil _ _)
  rw [htext, hwhole, gsub_timestamp hlast hline.1 (by simp),
    itemsText_append hfront (List.cons_ne_nil _ _), itemsText_singleton, List.append_nil,
    List.append_assoc]
  rfl

theorem ne_nil_of_isBody (hbody : IsBody code items body) : items ≠ [] := by
  cases hbody with
  | commas hne => exact hne
  | sections => exact List.append_ne_nil_of_right_ne_nil _ (List.cons_ne_nil _ _)

theorem comma_not_mem_parts {value head : Text} {tail : List Text} (h : Parts code value head tail)
    (hvalue : ',' ∉ value) : ',' ∉ head ∧ ∀ value ∈ tail, ',' ∉ value := by
  induction h with
  | whole => exact ⟨hvalue, by simp⟩
  | cut _ _ _ _ _ ih =>
      simp only [List.mem_append, not_or] at hvalue
      rw [List.forall_mem_cons]
      exact ⟨hvalue.1.1, ih hvalue.2.2⟩

theorem mem_parted (h : Parted code items parted) (hitems : ∀ kv ∈ items, ',' ∉ kv.2) :
    ∀ kv ∈ parted, (kv.1 = code.first_field ∨ ∃ kv' ∈ items, kv'.1 = kv.1) ∧ ',' ∉ kv.2 := by
  induction h with
  | nil => simp
  | @cons key value head tail items parted hparts _ ih =>
      rw [List.forall_mem_cons] at hitems
      have hcommas := comma_not_mem_parts hparts hitems.1
      rw [List.cons_append, List.forall_mem_cons, List.forall_mem_append, List.forall_mem_map]
      refine ⟨⟨.inr ⟨_, List.mem_cons_self, rfl⟩, hcommas.1⟩,
        fun value hvalue => ⟨.inl rfl, hcommas.2 value hvalue⟩, fun kv hkv => ?_⟩
      obtain ⟨hkey, hcomma⟩ := ih hitems.2 kv hkv
      exact ⟨hkey.imp_right fun ⟨kv', hkv', heq⟩ => ⟨kv', List.mem_cons_of_mem _ hkv', heq⟩, hcomma⟩

theorem deleteKey_chars (hitems : ∀ kv ∈ items, IsPair kv) (hparted : Parted code items parted) :
    ∀ kv ∈ parted, (∀ c ∈ (deleteKey kv).1, c ≠ '=' ∧ c ≠ ',' ∧ isspace c = false) ∧
      ',' ∉ kv.2 := by
  intro kv hkv
  obtain ⟨hkey, hcomma⟩ := mem_parted hparted
    (fun kv hkv hc => ((hitems kv hkv).value _ hc).1 rfl) kv hkv
  refine ⟨forall_deleted fun c hc => ?_, hcomma⟩
  rcases hkey with hfield | ⟨kv', hkv', heq⟩
  · have hequals : '=' ∉ code.first_field := by cases code <;> decide
    have hchars := opening_chars code
    rw [hfield] at hc
    have hmem : c ∈ opening code := List.mem_append_left _ hc
    exact ⟨fun heq => hequals (heq ▸ hc), fun heq => hchars.2 (heq ▸ hmem), hchars.1 c hmem⟩
  · have hchars := (hitems kv' hkv').key c (heq ▸ hc)
    exact ⟨hchars.1, hchars.2.1, hchars.2.2.2⟩

theorem comma_not_mem_items (hitems : ∀ kv ∈ items, IsPair kv)
    (hparted : Parted code items parted) : ∀ kv ∈ parted.map deleteKey, ',' ∉ itemText kv := by
  rw [List.forall_mem_map]
  intro kv hkv
  obtain ⟨hkey, hcomma⟩ := deleteKey_chars hitems hparted kv hkv
  rw [itemText, List.mem_append, List.mem_cons, not_or, not_or]
  exact ⟨fun hc => (hkey _ hc).2.1 rfl, by decide, hcomma⟩

theorem isspace_deleteKey (hitems : ∀ kv ∈ items, IsPair kv) (hparted : Parted code items parted) :
    ∀ kv ∈ parted.map deleteKey, ∀ c ∈ kv.1, isspace c = false := by
  rw [List.forall_mem_map]
  exact fun kv hkv c hc => ((deleteKey_chars hitems hparted kv hkv).1 c hc).2.2

theorem splitItem_stamp {digits : Text} (hne : digits ≠ []) (hdigits : ∀ c ∈ digits, c.isDigit) :
    splitItem (itemText ("timestamp".toList, digits)) = some ("timestamp".toList, digits) := by
  have h := @splitItem_timestamp digits [] ⟨hne, hdigits, by decide⟩
  rwa [List.filter_nil, List.append_nil] at h

theorem kv_pairs_stamp {digits tail : Text} (hbody : IsBody code items body)
    (hitems : ∀ kv ∈ items, IsPair kv) (hparted : Parted code items parted)
    (hstamp : IsStamp digits tail) :
    kv_pairs code (code.trigger ++ body ++ ' ' :: (digits ++ tail)) =
      (parted.map deleteKey).map itemText ++
        ["timestamp".toList ++ '=' :: (digits ++ tail.filter (· = '\n'))] := by
  have hname : code.spaced → code.trigger ++ body ≠ code.text := by
    intro _ heq
    have hlength := congrArg List.length heq
    rw [Code.trigger, List.append_assoc, List.length_append] at hlength
    simp at hlength
  have hcommas : ∀ item ∈ (parted.map deleteKey).map itemText, ',' ∉ item := by
    rw [List.forall_mem_map]
    exact comma_not_mem_items hitems hparted
  have hmap : (parted.map deleteKey).map itemText ≠ [] := by simpa using hparted.ne_nil (ne_nil_of_isBody hbody)
  have hsplit := List.splitOn_intercalate ',' hcommas hmap
  rw [kv_pairs_ending hstamp (newline_not_mem_line hbody hitems) hname,
    joined_body hbody hitems hparted, itemsText, hsplit]

theorem kv_pairs_line (hbody : IsBody code items body) (hitems : ∀ kv ∈ items, IsPair kv)
    (hparted : Parted code items parted) :
    kv_pairs code (code.trigger ++ body) =
      split ',' (gsub timestampPattern stampText (itemsText (parted.map deleteKey))) := by
  rw [kv_pairs, common_clean_eq, joined_body hbody hitems hparted]

theorem kv_pairs_untimed (hbody : IsBody code items body) (hitems : ∀ kv ∈ items, IsPair kv)
    (hparted : Parted code items parted) (hvalues : ∀ kv ∈ parted, ¬HasTime kv.2) :
    kv_pairs code (code.trigger ++ body) = (parted.map deleteKey).map itemText := by
  have hvalues' : ∀ kv ∈ parted.map deleteKey, ¬HasTime kv.2 := by
    rw [List.forall_mem_map]
    exact hvalues
  have hkeys := isspace_deleteKey hitems hparted
  have hsame : gsub timestampPattern stampText (itemsText (parted.map deleteKey)) =
      itemsText (parted.map deleteKey) :=
    (timestamp_eq_self_iff _).mpr fun d hd hfound =>
      not_hasTime_itemsText hkeys hvalues' ⟨d, hd, of_decide_eq_true hfound⟩
  have hmap : parted.map deleteKey ≠ [] := by simpa using hparted.ne_nil (ne_nil_of_isBody hbody)
  rw [kv_pairs_line hbody hitems hparted, hsame,
    split_itemsText hmap (comma_not_mem_items hitems hparted)]

theorem kv_pairs_cut {front behind : List (Text × Text)} {key value rest : Text} {d : Char}
    (hbody : IsBody code items body) (hitems : ∀ kv ∈ items, IsPair kv)
    (hparted : Parted code items (front ++ (key, value ++ ' ' :: d :: rest) :: behind))
    (hd : d.isDigit) (hrest : ¬HasTime rest) (hbehind : ∀ kv ∈ behind, ¬HasTime kv.2) :
    kv_pairs code (code.trigger ++ body) =
      ((front ++ [(key, value)]).map deleteKey).map itemText ++
        [itemText ("timestamp".toList, (d :: rest).takeWhile Char.isDigit)] := by
  have hline : '\n' ∉ joined code (code.trigger ++ body) :=
    newline_not_mem_joined (newline_not_mem_line hbody hitems)
  have hkeys := isspace_deleteKey hitems hparted
  have hcommas := comma_not_mem_items hitems hparted
  rw [joined_body hbody hitems hparted] at hline
  rw [kv_pairs_line hbody hitems hparted]
  simp only [List.map_append, List.map_cons, List.forall_mem_append, List.forall_mem_cons]
    at hline hkeys hcommas ⊢
  have hbehind' : ∀ kv ∈ behind.map deleteKey, ¬HasTime kv.2 := by
    rw [List.forall_mem_map]
    exact hbehind
  have hcut : gsub timestampPattern stampText (itemsText (front.map deleteKey ++
      deleteKey (key, value ++ ' ' :: d :: rest) :: behind.map deleteKey)) = _ :=
    gsub_timestamp_cut hline hkeys.2.2 hd hrest hbehind'
  have hstamp : ',' ∉ itemText ("timestamp".toList, (d :: rest).takeWhile Char.isDigit) := by
    have hname : ',' ∉ "timestamp".toList := by decide
    rw [itemText, List.mem_append, List.mem_cons, not_or, not_or]
    exact ⟨hname, by decide, fun hc => absurd (List.mem_takeWhile_imp hc) (by decide)⟩
  have hvalue : ',' ∉ itemText (deleted key, value) := by
    have hlong := hcommas.2.1
    rw [itemText, List.mem_append, List.mem_cons, not_or, not_or] at hlong ⊢
    exact ⟨hlong.1, hlong.2.1, fun hc => hlong.2.2 (List.mem_append_left _ hc)⟩
  rw [hcut, split_itemsText (by simp)]
  · simp [deleteKey]
  · rw [List.forall_mem_append, List.forall_mem_append, List.forall_mem_singleton,
      List.forall_mem_singleton]
    exact ⟨⟨hcommas.1, hvalue⟩, hstamp⟩

/-- Behind the items that are reached there are only timestamps. -/
theorem kv_pairs_reached {time : Option (Text × Text)} (hbody : IsBody code items body)
    (hitems : ∀ kv ∈ items, IsPair kv) (htime : ∀ p ∈ time, IsStamp p.1 p.2)
    (hparted : Parted code items parted) (hreached : Reached time.isSome parted seen) :
    ∃ stamps, kv_pairs code (code.trigger ++ body ++ ending time) =
        (seen.map deleteKey).map itemText ++ stamps ∧
      ∀ item ∈ stamps, ∃ digits, splitItem item = some ("timestamp".toList, digits) := by
  cases time with
  | some p =>
      have hstamp := htime p rfl
      have hseen : seen = parted := by
        cases hreached with
        | all => rfl
        | cut htimed => exact absurd rfl htimed
      refine ⟨_, hseen ▸ kv_pairs_stamp hbody hitems hparted hstamp, ?_⟩
      rw [List.forall_mem_singleton]
      exact ⟨p.1, splitItem_timestamp hstamp⟩
  | none =>
      rw [ending, List.append_nil]
      cases hreached with
      | all h =>
          have hvalues := h.resolve_left Bool.false_ne_true
          exact ⟨[], by rw [kv_pairs_untimed hbody hitems hparted hvalues, List.append_nil], by simp⟩
      | cut htimed hd hrest hbehind =>
          refine ⟨_, kv_pairs_cut hbody hitems hparted hd hrest hbehind, ?_⟩
          rw [List.forall_mem_singleton]
          refine ⟨_, splitItem_stamp ?_ fun c hc => List.mem_takeWhile_imp hc⟩
          rw [List.takeWhile_cons_of_pos hd]
          exact List.cons_ne_nil _ _

end Reading

end DaapLog.ReachedItems
