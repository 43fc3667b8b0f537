import DaapLog.ReachedItems

/-!
The values of a text message in its record: which of them are the texts behind the first
equals signs of their items.
-/

namespace DaapLog.SurvivingValues

open DaapLog.CStrings
open DaapLog.OrderedHash
open DaapLog.GsubWeights
open DaapLog.RubyValues
open DaapLog.PluginMessages
open DaapLog.TextDispatch
open DaapLog.PluginProcess
open DaapLog.CleanMessages
open DaapLog.TextRecords
open DaapLog.MessageTimes
open DaapLog.MessageItems
open DaapLog.ReachedItems
open DaapLog.RubyStrings (isBlank split splitItem strip HasValue)

/-- What is stored of a value: the text up to the next equals sign. -/
def stored (value : Text) : Text := strip (value.takeWhile (· ≠ '='))

section Values

theorem filter_strip (text : Text) :
    (strip text).filter (fun c => !isBlank c) = text.filter fun c => !isBlank c := by
  have hdrop (text : Text) : (text.dropWhile isBlank).filter (fun c => !isBlank c) =
      text.filter fun c => !isBlank c := by
    conv_rhs => rw [← @List.takeWhile_append_dropWhile _ isBlank text]
    have hblank : (text.takeWhile isBlank).filter (fun c => !isBlank c) = [] := by
      rw [List.filter_eq_nil_iff]
      intro c hc
      simp [List.mem_takeWhile_imp hc]
    rw [List.filter_append, hblank, List.nil_append]
  rw [strip, List.rdropWhile, List.filter_reverse, hdrop, ← List.filter_reverse,
    List.reverse_reverse, hdrop]

theorem stored_eq_strip_iff (value : Text) : stored value = strip value ↔ '=' ∉ value := by
  constructor
  · intro h hequals
    have hfilter := congrArg (List.filter fun c => !isBlank c) h
    rw [stored, filter_strip, filter_strip] at hfilter
    have hmem : '=' ∈ (value.takeWhile (· ≠ '=')).filter fun c => !isBlank c := by
      rw [hfilter, List.mem_filter]
      exact ⟨hequals, by decide⟩
    have hne := List.mem_takeWhile_imp (List.mem_of_mem_filter hmem)
    exact absurd hne (by decide)
  · intro h
    have hall : value.takeWhile (· ≠ '=') = value := by
      rw [List.takeWhile_eq_self_iff]
      intro c hc
      rw [decide_eq_true_iff]
      rintro rfl
      exact h hc
    rw [stored, hall]

theorem stored_ne_strip_append (value : Text) {more : Text} (hmore : ∃ c ∈ more, isBlank c = false) :
    stored value ≠ strip (value ++ more) := by
  intro h
  have hfilter := congrArg (List.filter fun c => !isBlank c) h
  rw [stored, filter_strip, filter_strip, List.filter_append] at hfilter
  have hlength := congrArg List.length hfilter
  have hshort : (value.takeWhile (· ≠ '=')).Sublist value := (List.takeWhile_prefix _).sublist
  have hle := (hshort.filter fun c => !isBlank c).length_le
  obtain ⟨c, hc, hblank⟩ := hmore
  have hpos : 0 < (more.filter fun c => !isBlank c).length :=
    List.length_pos_of_mem (List.mem_filter.mpr ⟨hc, by simp [hblank]⟩)
  rw [List.length_append] at hlength
  omega

end Values

section Pairs

variable {code : Code} {message key : Text} {seen : List (Text × Text)} {stamps : List Text}

/-- There is something to store for the key. -/
def Valued (kv : Text × Text) : Prop := ∃ c ∈ kv.2, c ≠ '='

theorem filterMap_splitItem (hkeys : ∀ kv ∈ seen, '=' ∉ kv.1) (h : ∀ kv ∈ seen, Valued kv) :
    (seen.map itemText).filterMap splitItem = seen.map fun kv => (kv.1, stored kv.2) := by
  rw [List.filterMap_map, ← List.filterMap_eq_map]
  refine List.filterMap_congr fun kv hkv => ?_
  exact splitItem_eq (hkeys kv hkv) (h kv hkv)

theorem itemValue_items (hkeys : ∀ kv ∈ seen, '=' ∉ kv.1) (h : ∀ kv ∈ seen, Valued kv)
    (hstamps : ∀ item ∈ stamps, ∃ digits, splitItem item = some ("timestamp".toList, digits))
    (hkey : key ≠ "timestamp".toList) :
    itemValue key (seen.map itemText ++ stamps) = (get seen.reverse key).map stored := by
  have hnone : get (stamps.filterMap splitItem).reverse key = none := by
    rw [Option.eq_none_iff_forall_not_mem]
    intro w hw
    obtain ⟨item, hitem, hsplit⟩ := List.mem_filterMap.mp (List.mem_reverse.mp (mem_of_get hw))
    obtain ⟨digits, hdigits⟩ := hstamps item hitem
    exact hkey (Prod.mk.inj (Option.some.inj (hsplit.symm.trans hdigits))).1
  have hvalue : itemValue key (seen.map itemText ++ stamps) =
      get ((seen.map itemText ++ stamps).filterMap splitItem).reverse key := rfl
  rw [hvalue, List.filterMap_append, List.reverse_append, get_append, hnone, Option.none_or,
    filterMap_splitItem hkeys h, ← List.map_reverse, get_map_values]

theorem itemFields_isSome_iff (hkeys : ∀ kv ∈ seen, '=' ∉ kv.1)
    (hstamps : ∀ item ∈ stamps, ∃ digits, splitItem item = some ("timestamp".toList, digits))
    (hpairs : kv_pairs code message = seen.map itemText ++ stamps) :
    (itemFields code message).isSome ↔ ∀ kv ∈ seen, Valued kv := by
  have hstamp : ∀ item ∈ stamps, HasValue item := by
    intro item hitem
    obtain ⟨digits, hdigits⟩ := hstamps item hitem
    rw [← RubyStrings.splitItem_isSome_iff, hdigits]
    rfl
  rw [itemFields, addItems_isSome_iff, hpairs, List.forall_mem_append, List.forall_mem_map,
    and_iff_left hstamp]
  exact forall₂_congr fun kv hkv => RubyStrings.hasValue_append (hkeys kv hkv)

theorem get_itemFields {r : Fields} (hkeys : ∀ kv ∈ seen, '=' ∉ kv.1)
    (hstamps : ∀ item ∈ stamps, ∃ digits, splitItem item = some ("timestamp".toList, digits))
    (hpairs : kv_pairs code message = seen.map itemText ++ stamps)
    (hr : itemFields code message = some r) (hkey : key ≠ "timestamp".toList) :
    get r key = ((get seen.reverse key).map fun value => .str (stored value)).or
      (get [("metric".toList, .str code.metric)] key) := by
  have hvalued : ∀ kv ∈ seen, Valued kv := by
    rw [← itemFields_isSome_iff hkeys hstamps hpairs, hr]
    rfl
  rw [get_addItems key hr, hpairs, itemValue_items hkeys hvalued hstamps hkey, Option.map_map]
  rfl

end Pairs

section Events

variable {rb : Runtime} {e : Event} {code : Code} {message : Text} {items : List (Text × Text)}

/-- In the record of the event, every key that its branch does not deal with itself has the
text behind the first equals sign of its item. -/
def Survives (rb : Runtime) (e : Event) (code : Code) (items : List (Text × Text)) : Prop :=
  ∃ out, Emits rb e out ∧
    ∀ kv ∈ items, kv.1 ∉ dealtWith code → get out.2 kv.1 = some (.str (strip kv.2))

theorem survives_iff_fields (htext : IsText rb e message)
    (hcaliper : strstr message caliperTrigger = false) (hcode : firstCode message = some code)
    (hsome : kv_pairs code message ≠ []) (htimes : ∀ kv ∈ items, kv.1 ≠ "timestamp".toList) :
    Survives rb e code items ↔ ∃ r, itemFields code message = some r ∧
      ∀ kv ∈ items, kv.1 ∉ dealtWith code →
        get (convert rb code r) kv.1 = some (.str (strip kv.2)) := by
  have hactions : eventActions rb e = code.actions rb message := by
    rw [eventActions_of_isText htext, textActions, hcaliper, if_neg Bool.false_ne_true, hcode]
  cases hr : itemFields code message with
  | none =>
      refine iff_of_false ?_ ?_
      · rintro ⟨out, hout, -⟩
        exact not_emits_of_raise (hactions.trans (actions_eq_raise hr)) out hout
      · rintro ⟨r, hsome, -⟩
        exact Option.some_ne_none r hsome.symm
  | some r =>
      obtain ⟨m, hm, hget⟩ := emits_of_push (hactions.trans (actions_eq_push hr hsome))
        (get_set_self _ _ _)
      have hfield : ∀ kv ∈ items, get m kv.1 = some (.str (strip kv.2)) ↔
          get (convert rb code r) kv.1 = some (.str (strip kv.2)) := by
        intro kv hkv
        rw [hget kv.1 (htimes kv hkv), map_toVal_str_iff, stamp, get_set_of_ne (htimes kv hkv)]
      constructor
      · rintro ⟨out, hout, hall⟩
        obtain rfl := hout.unique hm
        exact ⟨r, rfl, fun kv hkv hdealt => (hfield kv hkv).mp (hall kv hkv hdealt)⟩
      · rintro ⟨r', hr', hall⟩
        obtain rfl := Option.some.inj hr'
        exact ⟨_, hm, fun kv hkv hdealt => (hfield kv hkv).mpr (hall kv hkv hdealt)⟩

end Events

section Keys

variable {code : Code} {items parted seen : List (Text × Text)} {timed : Prop}

/-- The key under which items are read in values. -/
def IsFirst (code : Code) (key : Text) : Prop := ¬code.spaced ∧ key = code.first_field

instance (code : Code) (key : Text) : Decidable (IsFirst code key) :=
  inferInstanceAs (Decidable (_ ∧ _))

theorem parted_keys (h : Parted code items parted) :
    ((parted.map Prod.fst).filter fun key => ¬IsFirst code key).Sublist (items.map Prod.fst) := by
  induction h with
  | nil => exact List.Sublist.slnil
  | @cons key value head tail items parted hparts _ ih =>
      have htail : ((tail.map (code.first_field, ·)).map Prod.fst).filter
          (fun key => ¬IsFirst code key) = [] := by
        cases hparts with
        | whole => rfl
        | cut hspaced =>
            rw [List.map_map, List.filter_eq_nil_iff]
            intro key' hkey'
            obtain ⟨value, -, rfl⟩ := List.mem_map.mp hkey'
            simp [IsFirst, hspaced]
      rw [List.cons_append, List.map_cons, List.map_append, List.map_cons, List.filter_cons,
        List.filter_append, htail, List.nil_append]
      split
      · exact ih.cons_cons key
      · exact ih.cons key

theorem reached_keys (h : Reached timed parted seen) :
    seen.map Prod.fst <+: parted.map Prod.fst := by
  cases h with
  | all => exact List.prefix_rfl
  | cut => simp

theorem eq_of_mem_seen (hitems : AreItems items) (hparted : Parted code items parted)
    (hreached : Reached timed parted seen) {kv kv' : Text × Text} (hkv : kv ∈ seen)
    (hkv' : kv' ∈ seen) (heq : kv.1 = kv'.1) (hfirst : ¬IsFirst code kv.1) : kv = kv' := by
  have hnodup : ((seen.map Prod.fst).filter fun key => ¬IsFirst code key).Nodup :=
    hitems.nodup.sublist
      (((reached_keys hreached).sublist.filter _).trans (parted_keys hparted))
  rw [List.filter_map] at hnodup
  refine List.inj_on_of_nodup_map hnodup ?_ ?_ heq
  · exact List.mem_filter.mpr ⟨hkv, by simpa using hfirst⟩
  · exact List.mem_filter.mpr ⟨hkv', by simpa [← heq] using hfirst⟩

theorem parted_values (h : Parted code items parted) :
    ∀ kv ∈ parted, ¬IsFirst code kv.1 →
      kv ∈ items ∨ ∃ more, '=' ∈ more ∧ (kv.1, kv.2 ++ more) ∈ items := by
  induction h with
  | nil => simp
  | @cons key value head tail items parted hparts _ ih =>
      intro kv hkv hfirst
      rcases List.mem_append.mp hkv with hhere | hlater
      · rcases List.mem_cons.mp hhere with rfl | htail
        · cases hparts with
          | whole => exact .inl List.mem_cons_self
          | @cut _ blanks rest _ blank _ =>
              refine .inr ⟨blank :: blanks ++ (opening code ++ rest), ?_, ?_⟩
              · simp [opening]
              · simp
        · cases hparts with
          | whole => exact absurd htail List.not_mem_nil
          | cut hspaced =>
              obtain ⟨value, -, rfl⟩ := List.mem_map.mp htail
              exact absurd ⟨hspaced, rfl⟩ hfirst
      · rcases ih kv hlater hfirst with hmem | ⟨more, hmore, hmem⟩
        · exact .inl (List.mem_cons_of_mem _ hmem)
        · exact .inr ⟨more, hmore, List.mem_cons_of_mem _ hmem⟩

/-- A value that is reached is that of its item or has lost its end. -/
theorem reached_values (hparted : Parted code items parted) (hreached : Reached timed parted seen) :
    ∀ kv ∈ seen, ¬IsFirst code kv.1 → kv ∈ items ∨
      ∃ more, (∃ c ∈ more, isBlank c = false) ∧ (kv.1, kv.2 ++ more) ∈ items := by
  have hparts {kv : Text × Text} (hkv : kv ∈ parted) (hfirst : ¬IsFirst code kv.1) :
      ∃ more, (more = [] ∨ ∃ c ∈ more, isBlank c = false) ∧ (kv.1, kv.2 ++ more) ∈ items := by
    rcases parted_values hparted kv hkv hfirst with hmem | ⟨more, hmore, hmem⟩
    · exact ⟨[], .inl rfl, by rwa [List.append_nil]⟩
    · exact ⟨more, .inr ⟨'=', hmore, by decide⟩, hmem⟩
  have hwhole {kv : Text × Text} (hkv : kv ∈ parted) (hfirst : ¬IsFirst code kv.1) :
      kv ∈ items ∨ ∃ more, (∃ c ∈ more, isBlank c = false) ∧ (kv.1, kv.2 ++ more) ∈ items := by
    obtain ⟨more, rfl | hmore, hmem⟩ := hparts hkv hfirst
    · exact .inl (by rwa [List.append_nil] at hmem)
    · exact .inr ⟨more, hmore, hmem⟩
  intro kv hkv hfirst
  cases hreached with
  | all => exact hwhole hkv hfirst
  | @cut front behind key value rest d htimed hd =>
      rcases List.mem_append.mp hkv with hfront | hlast
      · exact hwhole (List.mem_append_left _ hfront) hfirst
      · obtain rfl := List.mem_singleton.mp hlast
        obtain ⟨more, -, hmem⟩ := hparts (List.mem_append_right front List.mem_cons_self) hfirst
        rw [List.append_assoc] at hmem
        exact .inr ⟨_, ⟨d, by simp, isBlank_of_isDigit hd⟩, hmem⟩

theorem key_of_reached (hitems : ∀ kv ∈ items, IsPair kv) (hparted : Parted code items parted)
    (hreached : Reached timed parted seen) {kv : Text × Text} (hkv : kv ∈ seen) :
    kv.1 = code.first_field ∨ ∃ kv' ∈ items, kv'.1 = kv.1 := by
  have hmem := (reached_keys hreached).subset (List.mem_map_of_mem hkv)
  obtain ⟨kv', hkv', heq⟩ := List.mem_map.mp hmem
  rw [← heq]
  exact (mem_parted hparted (fun kv hkv hc => ((hitems kv hkv).value _ hc).1 rfl) kv' hkv').1

theorem equals_not_mem_key (hitems : ∀ kv ∈ items, IsPair kv) (hparted : Parted code items parted)
    (hreached : Reached timed parted seen) : ∀ kv ∈ seen.map deleteKey, '=' ∉ kv.1 := by
  rw [List.forall_mem_map]
  intro kv hkv hmem
  have hkey := (reached_keys hreached).subset (List.mem_map_of_mem hkv)
  obtain ⟨kv', hkv', heq⟩ := List.mem_map.mp hkey
  have hchars := (deleteKey_chars hitems hparted kv' hkv').1
  rw [deleteKey, heq] at hchars
  exact (hchars _ hmem).1 rfl

theorem metric_not_mem_key (hitems : ∀ kv ∈ items, IsPair kv) (hparted : Parted code items parted)
    (hreached : Reached timed parted seen) : ∀ kv ∈ seen, kv.1 ≠ "metric".toList := by
  intro kv hkv
  rcases key_of_reached hitems hparted hreached hkv with hfield | ⟨kv', hkv', heq⟩
  · rw [hfield]
    cases code <;> decide
  · exact heq ▸ (hitems kv' hkv').key_ne.1

end Keys

section Items

variable {rb : Runtime} {code : Code} {items parted seen : List (Text × Text)} {timed : Prop}
  {r : Fields}

theorem isPlain_names (code : Code) :
    ∀ key ∈ dealtWith code ++ overwritten code ++ driverItems, IsPlain key := by
  have hall : (dealtWith code ++ overwritten code ++ driverItems).all (fun key =>
      !strstr key ".localdomain".toList && !strstr key ".lanl.gov".toList &&
        !key.contains '\\' && !key.contains '"') = true := by
    cases code <;> decide +kernel
  intro key hkey
  have h := List.all_eq_true.mp hall key hkey
  simp only [Bool.and_eq_true, Bool.not_eq_true', List.contains_eq_mem, decide_eq_false_iff_not] at h
  refine ⟨?_, ?_, h.1.2, h.2⟩
  · rw [h.1.1.1]
    exact Bool.false_ne_true
  · rw [h.1.1.2]
    exact Bool.false_ne_true

/-- Only a longer key that is changed can take the place of a key that is changed. -/
theorem longer_of_get (hitems : AreItems items) (hparted : Parted code items parted)
    (hreached : Reached timed parted seen)
    (hr : ∀ key ≠ "timestamp".toList, get r key =
      ((get (seen.map deleteKey).reverse key).map fun value => .str (stored value)).or
        (get [("metric".toList, .str code.metric)] key))
    (hget : ∀ kv ∈ items, kv.1 ∉ dealtWith code → (get (convert rb code r) kv.1).isSome)
    {kv : Text × Text} (hkv : kv ∈ items) (hplain : ¬IsPlain kv.1) :
    ∃ kv' ∈ items, ¬IsPlain kv'.1 ∧ weight charWeight kv.1 < weight charWeight kv'.1 := by
  have hnames {keys : List Text} (h : ∀ key ∈ keys, key ∈ dealtWith code ++ overwritten code ++
      driverItems) : kv.1 ∉ keys := fun hmem => hplain (isPlain_names code _ (h _ hmem))
  have hdealt : kv.1 ∉ dealtWith code := hnames fun key h =>
    List.mem_append_left _ (List.mem_append_left _ h)
  have hover : kv.1 ∉ overwritten code := hnames fun key h =>
    List.mem_append_left _ (List.mem_append_right _ h)
  have hdriver : kv.1 ∉ driverItems := hnames fun key h => List.mem_append_right _ h
  have hkey := (hitems.isPair kv hkv).key_ne
  have hsome := hget kv hkv hdealt
  have hmetric := get_singleton_of_ne hkey.1 (Scalar.str code.metric)
  rw [get_convert hdealt hover hkey.2 rb fun _ => .inr hdriver, hr kv.1 hkey.2, hmetric,
    Option.or_none, Option.isSome_map] at hsome
  obtain ⟨value, hvalue⟩ := Option.isSome_iff_exists.mp hsome
  obtain ⟨seenItem, hseen, heq⟩ := List.mem_map.mp (List.mem_reverse.mp (mem_of_get hvalue))
  have hdeleted : deleted seenItem.1 = kv.1 := (Prod.mk.inj heq).1
  have hchanged : ¬IsPlain seenItem.1 := by
    intro hplain'
    rw [(deleted_eq_self_iff seenItem.1).mpr hplain'] at hdeleted
    exact hplain (hdeleted ▸ hplain')
  have hlower := (deleted_lowers seenItem.1).resolve_left fun h =>
    hchanged ((deleted_eq_self_iff seenItem.1).mp h)
  rw [hdeleted] at hlower
  rcases key_of_reached hitems.isPair hparted hreached hseen with hfield | ⟨kv', hkv', hsame⟩
  · exact absurd (hfield ▸ isPlain_first_field code) hchanged
  · exact ⟨kv', hkv', hsame ▸ hchanged, hsame ▸ hlower⟩

theorem isPlain_of_longer
    (h : ∀ kv ∈ items, ¬IsPlain kv.1 →
      ∃ kv' ∈ items, ¬IsPlain kv'.1 ∧ weight charWeight kv.1 < weight charWeight kv'.1) :
    ∀ kv ∈ items, IsPlain kv.1 := by
  classical
  by_contra hnot
  push Not at hnot
  obtain ⟨kv, hkv, hplain⟩ := hnot
  obtain ⟨longest, hlongest, hmax⟩ := Finset.exists_max_image
    (items.toFinset.filter fun kv => ¬IsPlain kv.1) (fun kv => weight charWeight kv.1)
    ⟨kv, by rw [Finset.mem_filter, List.mem_toFinset]; exact ⟨hkv, hplain⟩⟩
  rw [Finset.mem_filter, List.mem_toFinset] at hlongest
  obtain ⟨kv', hkv', hplain', hlt⟩ := h longest hlongest.1 hlongest.2
  have hle := hmax kv' (by rw [Finset.mem_filter, List.mem_toFinset]; exact ⟨hkv', hplain'⟩)
  exact absurd hlt (not_lt_of_ge hle)

theorem map_deleteKey_of_isPlain (h : ∀ kv ∈ seen, IsPlain kv.1) : seen.map deleteKey = seen := by
  refine (List.map_congr_left fun kv hkv => ?_).trans (List.map_id seen)
  rw [deleteKey, (deleted_eq_self_iff kv.1).mpr (h kv hkv)]
  rfl

/-- What the fields have of the items that are reached. -/
def HoldsItems (code : Code) (seen : List (Text × Text)) (r : Fields) : Prop :=
  ∀ key ≠ "timestamp".toList, get r key =
    ((get seen.reverse key).map fun value => .str (stored value)).or
      (get [("metric".toList, .str code.metric)] key)

theorem HoldsItems.get_of_ne (h : HoldsItems code seen r) {key : Text}
    (hmetric : key ≠ "metric".toList) (htime : key ≠ "timestamp".toList) :
    get r key = (get seen.reverse key).map fun value => .str (stored value) := by
  rw [h key htime, get_singleton_of_ne hmetric, Option.or_none]

theorem HoldsItems.metricIncludes (h : HoldsItems .xrage seen r)
    (hkeys : ∀ kv ∈ seen, kv.1 ≠ "metric".toList) :
    PluginMessages.metricIncludes r "xrage_metrics".toList := by
  have hnone : get seen.reverse "metric".toList = none := by
    rw [Option.eq_none_iff_forall_not_mem]
    intro value hvalue
    exact hkeys _ (List.mem_reverse.mp (mem_of_get hvalue)) rfl
  rw [PluginMessages.metricIncludes, h _ (by decide), hnone]
  rfl

/-- The last item that is reached under the key has the text up to its next equals sign. -/
def LastStores (seen : List (Text × Text)) (kv : Text × Text) : Prop :=
  ∃ value, get seen.reverse kv.1 = some value ∧ stored value = strip kv.2

theorem get_kept_iff (hr : HoldsItems code seen r) (hkeys : ∀ kv ∈ seen, kv.1 ≠ "metric".toList)
    {kv : Text × Text} (hkv : IsPair kv) (hdealt : kv.1 ∉ dealtWith code)
    (hover : kv.1 ∉ overwritten code) :
    get (convert rb code r) kv.1 = some (.str (strip kv.2)) ↔ LastStores seen kv := by
  have hmetric : code = .xrage →
      PluginMessages.metricIncludes r "xrage_metrics".toList ∨ kv.1 ∉ driverItems := by
    rintro rfl
    exact .inl (hr.metricIncludes hkeys)
  rw [get_convert hdealt hover hkv.key_ne.2 rb hmetric, hr.get_of_ne hkv.key_ne.1 hkv.key_ne.2,
    Option.map_eq_some_iff]
  simp only [Scalar.str.injEq]
  rfl

theorem lastStores_iff (hitems : AreItems items) (hparted : Parted code items parted)
    (hreached : Reached timed parted seen) {kv : Text × Text} (hkv : kv ∈ items)
    (hfirst : ¬IsFirst code kv.1) : LastStores seen kv ↔ kv ∈ seen ∧ '=' ∉ kv.2 := by
  constructor
  · rintro ⟨value, hvalue, hstored⟩
    have hseen : (kv.1, value) ∈ seen := List.mem_reverse.mp (mem_of_get hvalue)
    rcases reached_values hparted hreached _ hseen hfirst with hmem | ⟨more, hmore, hmem⟩
    · obtain rfl : kv.2 = value := congrArg Prod.snd
        (List.inj_on_of_nodup_map hitems.nodup hkv hmem rfl)
      exact ⟨hseen, (stored_eq_strip_iff kv.2).mp hstored⟩
    · have hcut : kv.2 = value ++ more := congrArg Prod.snd
        (List.inj_on_of_nodup_map hitems.nodup hkv hmem rfl)
      rw [hcut] at hstored
      exact absurd hstored (stored_ne_strip_append value hmore)
  · rintro ⟨hseen, hequals⟩
    have hkey : kv.1 ∈ seen.reverse.map Prod.fst :=
      List.mem_map_of_mem (List.mem_reverse.mpr hseen)
    obtain ⟨value, hvalue⟩ := exists_get_of_mem_keys hkey
    have hsame : kv = (kv.1, value) := eq_of_mem_seen hitems hparted hreached hseen
      (List.mem_reverse.mp (mem_of_get hvalue)) rfl hfirst
    refine ⟨value, hvalue, ?_⟩
    have hsnd : kv.2 = value := congrArg Prod.snd hsame
    rw [← hsnd]
    exact (stored_eq_strip_iff kv.2).mpr hequals

/-- The item under a new name has the text that the branch puts there. -/
def Renames (seen : List (Text × Text)) (kv : Text × Text) : Prop :=
  ∃ n ∈ scmIds, n.new = kv.1 ∧
    strip kv.2 = ((get seen.reverse n.old).map stored).getD n.default

theorem get_renamed_iff (hr : HoldsItems code seen r) (hkeys : ∀ kv ∈ seen, kv.1 ≠ "metric".toList)
    {kv : Text × Text} (hover : kv.1 ∈ overwritten code) :
    get (convert rb code r) kv.1 = some (.str (strip kv.2)) ↔ Renames seen kv := by
  cases code with
  | lap =>
      have hnot : ∀ n ∈ scmIds, n.new ∉ overwritten .lap := by decide
      obtain ⟨x, hx⟩ := lapFields_get_new hover rb r
      refine iff_of_false ?_ ?_
      · rw [convert, hx]
        intro h
        exact Scalar.noConfusion (Option.some.inj h)
      · rintro ⟨n, hn, hnew, -⟩
        exact hnot n hn (hnew ▸ hover)
  | xrage =>
      have hnew : ∀ key ∈ overwritten .xrage, ∃ n ∈ scmIds, n.new = key := by decide
      have hold : ∀ n ∈ scmIds, n.old ≠ "metric".toList ∧ n.old ≠ "timestamp".toList := by decide
      have hvalue {n : ScmId} (hn : n ∈ scmIds) : get (convert rb .xrage r) n.new =
          some (.str (((get seen.reverse n.old).map stored).getD n.default)) := by
        rw [convert, if_pos (hr.metricIncludes hkeys), xrageFields_get_new hn,
          hr.get_of_ne (hold n hn).1 (hold n hn).2]
        cases get seen.reverse n.old with
        | none => rfl
        | some value => rfl
      constructor
      · intro h
        obtain ⟨n, hn, hname⟩ := hnew kv.1 hover
        rw [← hname, hvalue hn] at h
        exact ⟨n, hn, hname, (Scalar.str.inj (Option.some.inj h)).symm⟩
      · rintro ⟨n, hn, hname, hstrip⟩
        rw [← hname, hvalue hn, hstrip]
  | poisson => exact absurd hover List.not_mem_nil
  | jayenne => exact absurd hover List.not_mem_nil
  | mcatk => exact absurd hover List.not_mem_nil
  | sap => exact absurd hover List.not_mem_nil

/-- The items are read as they were written: each item that is reached has a value, nothing is
deleted from a key, and the items that the branch does not deal with itself are reached and
have no further equals sign. Under the key of the first field the last item counts, and
under a new name the old one. -/
structure Intact (code : Code) (items seen : List (Text × Text)) : Prop where
  valued : ∀ kv ∈ seen, Valued kv
  key : ∀ kv ∈ items, IsPlain kv.1
  kept : ∀ kv ∈ items, kv.1 ∉ dealtWith code ++ overwritten code → ¬IsFirst code kv.1 →
    kv ∈ seen ∧ '=' ∉ kv.2
  first : ∀ kv ∈ items, kv.1 ∉ dealtWith code ++ overwritten code → IsFirst code kv.1 →
    LastStores seen kv
  renamed : ∀ kv ∈ items, kv.1 ∈ overwritten code → Renames seen kv

end Items

section Messages

variable {rb : Runtime} {e : Event} {code : Code} {items parted seen : List (Text × Text)}
  {body : Text} {time : Option (Text × Text)}

/-- The values under keys that are left alone survive in the fields exactly if the items are
intact. -/
theorem intact_iff_get {r : Fields} {timed : Prop} (hitems : AreItems items)
    (hparted : Parted code items parted) (hreached : Reached timed parted seen)
    (hr : HoldsItems code seen r) (hvalued : ∀ kv ∈ seen, Valued kv)
    (hplain : ∀ kv ∈ items, IsPlain kv.1) :
    (∀ kv ∈ items, kv.1 ∉ dealtWith code →
      get (convert rb code r) kv.1 = some (.str (strip kv.2))) ↔ Intact code items seen := by
  have hkeys := metric_not_mem_key hitems.isPair hparted hreached
  have hnames : ∀ key ∈ overwritten code, key ∉ dealtWith code := by cases code <;> decide
  constructor
  · intro hget
    have hlast : ∀ kv ∈ items, kv.1 ∉ dealtWith code ++ overwritten code →
        LastStores seen kv := by
      intro kv hkv hnot
      rw [List.mem_append, not_or] at hnot
      exact (get_kept_iff hr hkeys (hitems.isPair kv hkv) hnot.1 hnot.2).mp (hget kv hkv hnot.1)
    refine ⟨hvalued, hplain, fun kv hkv hnot hfirst => ?_, fun kv hkv hnot _ => hlast kv hkv hnot,
      fun kv hkv hover => ?_⟩
    · exact (lastStores_iff hitems hparted hreached hkv hfirst).mp (hlast kv hkv hnot)
    · exact (get_renamed_iff hr hkeys hover).mp (hget kv hkv (hnames _ hover))
  · intro h kv hkv hdealt
    by_cases hover : kv.1 ∈ overwritten code
    · exact (get_renamed_iff hr hkeys hover).mpr (h.renamed kv hkv hover)
    · have hnot : kv.1 ∉ dealtWith code ++ overwritten code := by
        rw [List.mem_append, not_or]
        exact ⟨hdealt, hover⟩
      refine (get_kept_iff hr hkeys (hitems.isPair kv hkv) hdealt hover).mpr ?_
      by_cases hfirst : IsFirst code kv.1
      · exact h.first kv hkv hnot hfirst
      · exact (lastStores_iff hitems hparted hreached hkv hfirst).mpr (h.kept kv hkv hnot hfirst)

theorem survives_iff_of_reached (hitems : AreItems items) (hbody : IsBody code items body)
    (htime : ∀ p ∈ time, IsStamp p.1 p.2) (hparted : Parted code items parted)
    (hreached : Reached time.isSome parted seen)
    (hcaliper : strstr (code.trigger ++ body ++ ending time) caliperTrigger = false)
    (hcode : firstCode (code.trigger ++ body ++ ending time) = some code)
    (htext : IsText rb e (code.trigger ++ body ++ ending time)) :
    Survives rb e code items ↔ Intact code items seen := by
  obtain ⟨stamps, hpairs, hstamps⟩ := kv_pairs_reached hbody hitems.isPair htime hparted hreached
  have hkeys := equals_not_mem_key hitems.isPair hparted hreached
  have hne : seen ≠ [] := by
    cases hreached with
    | all => exact hparted.ne_nil (ne_nil_of_isBody hbody)
    | cut => exact List.append_ne_nil_of_right_ne_nil _ (List.cons_ne_nil _ _)
  have hsome : kv_pairs code (code.trigger ++ body ++ ending time) ≠ [] := by
    rw [hpairs]
    exact List.append_ne_nil_of_left_ne_nil (by simpa using hne) _
  have hvalued := itemFields_isSome_iff hkeys hstamps hpairs
  rw [List.forall_mem_map] at hvalued
  have hseen (hplain : ∀ kv ∈ items, IsPlain kv.1) : seen.map deleteKey = seen := by
    refine map_deleteKey_of_isPlain fun kv hkv => ?_
    rcases key_of_reached hitems.isPair hparted hreached hkv with hfield | ⟨kv', hkv', heq⟩
    · exact hfield ▸ isPlain_first_field code
    · exact heq ▸ hplain kv' hkv'
  have hholds {r : Fields} (hr : itemFields code (code.trigger ++ body ++ ending time) = some r)
      (hplain : ∀ kv ∈ items, IsPlain kv.1) : HoldsItems code seen r := by
    intro key hkey
    rw [get_itemFields hkeys hstamps hpairs hr hkey, hseen hplain]
  rw [survives_iff_fields htext hcaliper hcode hsome fun kv hkv => (hitems.isPair kv hkv).key_ne.2]
  constructor
  · rintro ⟨r, hr, hget⟩
    have hplain : ∀ kv ∈ items, IsPlain kv.1 := isPlain_of_longer fun kv hkv hnot =>
      longer_of_get hitems hparted hreached
        (fun key hkey => get_itemFields hkeys hstamps hpairs hr hkey)
        (fun kv hkv hdealt => by rw [hget kv hkv hdealt]; rfl) hkv hnot
    have hall : ∀ kv ∈ seen, Valued kv := hvalued.mp (by rw [hr]; rfl)
    exact (intact_iff_get hitems hparted hreached (hholds hr hplain) hall hplain).mp hget
  · intro h
    obtain ⟨r, hr⟩ := Option.isSome_iff_exists.mp (hvalued.mpr h.valued)
    exact ⟨r, hr, (intact_iff_get hitems hparted hreached (hholds hr h.key) h.valued h.key).mpr h⟩

/-- The values of a message survive exactly if its items are intact in front of its time. -/
theorem survives_iff_intact (hitems : AreItems items) (hbody : IsBody code items body)
    (htime : ∀ p ∈ time, IsStamp p.1 p.2)
    (hcaliper : strstr (code.trigger ++ body ++ ending time) caliperTrigger = false)
    (hcode : firstCode (code.trigger ++ body ++ ending time) = some code)
    (htext : IsText rb e (code.trigger ++ body ++ ending time)) :
    Survives rb e code items ↔ ∃ parted seen, Parted code items parted ∧
      Reached time.isSome parted seen ∧ Intact code items seen := by
  constructor
  · intro h
    obtain ⟨parted, hparted⟩ := exists_parted code items
    obtain ⟨seen, hreached⟩ := exists_reached (time.isSome : Prop) parted
    exact ⟨parted, seen, hparted, hreached,
      (survives_iff_of_reached hitems hbody htime hparted hreached hcaliper hcode htext).mp h⟩
  · rintro ⟨parted, seen, hparted, hreached, hintact⟩
    exact (survives_iff_of_reached hitems hbody htime hparted hreached hcaliper hcode htext).mpr
      hintact

end Messages

def messageTime : Text := Nat.toDigits 10 1635185068000000000

theorem isStamp_messageTime : IsStamp messageTime ['\n'] :=
  ⟨Nat.toDigits_ne_nil, fun _ hc => isDigit_of_mem_toDigits hc, by decide⟩

def plotTag : Text × Text := ("desc".toList, "spider plot".toList)

def plotField : Text × Text := ("npes".toList, "4".toList)

def plotCells : Text × Text := ("cells".toList, "1814400".toList)

def plotItems : List (Text × Text) := [] ++ plotTag :: plotField :: [plotCells]

def plotBody : Text :=
  itemsText ([] ++ [plotTag]) ++ ' ' :: [] ++ itemsText (plotField :: [plotCells])

def plotMessage : Text :=
  Code.sap.trigger ++ plotBody ++ ending (some (messageTime, ['\n']))

theorem survives_iff_intact_plot :
    Survives integerRuntime (0, [("message".toList, .str plotMessage)]) .sap plotItems ↔
      ∃ parted seen, Parted .sap plotItems parted ∧
        Reached (some (messageTime, ['\n'])).isSome parted seen ∧
        Intact .sap plotItems seen := by
  have hpair : ∀ kv ∈ plotItems, IsPair kv := by
    have htag : IsPair plotTag :=
      ⟨by decide, by simp [plotTag, isspace], by decide, by simp [plotTag], by decide⟩
    have hfield : IsPair plotField :=
      ⟨by decide, by simp [plotField, isspace], by decide, by simp [plotField], by decide⟩
    have hcells : IsPair plotCells :=
      ⟨by decide, by simp [plotCells, isspace], by decide, by simp [plotCells], by decide⟩
    simp only [plotItems, List.nil_append, List.forall_mem_cons]
    exact ⟨htag, hfield, hcells, by simp⟩
  have hbody : IsBody .sap plotItems plotBody :=
    .sections (by decide) (by simp [isspace]) (by decide)
  refine survives_iff_intact ⟨hpair, by decide⟩ hbody ?_ (by decide +kernel) (by decide +kernel)
    ⟨_, rfl, rfl, rfl⟩
  rintro p hp
  obtain rfl := Option.some.inj hp
  exact isStamp_messageTime

/-- The flags of a compiler. -/
def flagsItems : List (Text × Text) :=
  [("flags".toList, "-O2 -std=c++11".toList), ("ppn".toList, "32".toList)]

def flagsMessage : Text :=
  Code.mcatk.trigger ++ itemsText flagsItems ++ ending (some (messageTime, ['\n']))

theorem not_survives_flags :
    AreItems flagsItems ∧ IsBody .mcatk flagsItems (itemsText flagsItems) ∧
      IsStamp messageTime ['\n'] ∧ strstr flagsMessage caliperTrigger = false ∧
      firstCode flagsMessage = some .mcatk ∧
      IsText integerRuntime (0, [("message".toList, .str flagsMessage)]) flagsMessage ∧
      ¬Survives integerRuntime (0, [("message".toList, .str flagsMessage)]) .mcatk flagsItems := by
  have hpair : ∀ kv ∈ flagsItems, IsPair kv := by
    simp only [flagsItems, List.forall_mem_cons]
    refine ⟨⟨by decide, by simp [isspace], by decide, by simp, by decide⟩,
      ⟨by decide, by simp [isspace], by decide, by simp, by decide⟩, by simp⟩
  refine ⟨⟨hpair, by decide⟩, .commas (List.cons_ne_nil _ _), isStamp_messageTime,
    by decide +kernel, by decide +kernel, ⟨_, rfl, rfl, rfl⟩, ?_⟩
  rintro ⟨out, hout, hall⟩
  have hflags := hall ("flags".toList, "-O2 -std=c++11".toList) List.mem_cons_self (by decide)
  have hcut : ((eventActions integerRuntime
      (0, [("message".toList, .str flagsMessage)])).mapM (emit integerRuntime)).map
        (fun outs => outs.map fun out => (get out.2 "flags".toList).map fun v =>
          v.isText "-O2 -std".toList) = some [some true] := by
    decide +kernel
  rw [emits_iff.mp hout] at hcut
  simp only [Option.map_some, List.map_cons, List.map_nil, hflags] at hcut
  exact absurd hcut (by decide +kernel)

end DaapLog.SurvivingValues
