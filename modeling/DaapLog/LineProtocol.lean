import DaapLog.CStrings

/-!
A reader of the InfluxDB line protocol, as far as lines with string tags and one
string field need it: `measurement,key=value,.. key="text" stamp`.
-/

namespace DaapLog.LineProtocol

open DaapLog.CStrings

/-- Read up to the first unescaped character of `stop`, which stays in front of
the rest. A backslash makes a character of `stop` part of the text and stands
for itself in front of any other. -/
def readUntil (stop : Char → Bool) : Text → Text × Text
  | [] => ([], [])
  | '\\' :: c :: rest =>
      if stop c then
        let r := readUntil stop rest
        (c :: r.1, r.2)
      else
        let r := readUntil stop (c :: rest)
        ('\\' :: r.1, r.2)
  | c :: rest =>
      if stop c then ([], c :: rest)
      else
        let r := readUntil stop rest
        (c :: r.1, r.2)

def tagStop (c : Char) : Bool := c == ',' || c == ' '

def keyStop (c : Char) : Bool := c == '='

/-- Tags up to the space in front of the fields; a tag needs a value. -/
def readTags : Nat → Text → Option (List (Text × Text) × Text)
  | _, ' ' :: rest => some ([], rest)
  | fuel + 1, ',' :: rest =>
      match readUntil keyStop rest with
      | (key, '=' :: rest) =>
          match readUntil tagStop rest with
          | ([], _) => none
          | (value, rest) =>
              (readTags fuel rest).map fun r => ((key, value) :: r.1, r.2)
      | _ => none
  | _, _ => none

/-- The text of a string field behind its opening quote, and what follows the
closing one. -/
def readString : Text → Option (Text × Text)
  | [] => none
  | '"' :: rest => some ([], rest)
  | '\\' :: '"' :: rest => (readString rest).map fun r => ('"' :: r.1, r.2)
  | '\\' :: '\\' :: rest => (readString rest).map fun r => ('\\' :: r.1, r.2)
  | c :: rest => (readString rest).map fun r => (c :: r.1, r.2)

structure Point where
  measurement : Text
  tags : List (Text × Text)
  field : Text × Text
  stamp : Text
  deriving DecidableEq

def readPoint (line : Text) : Option Point := do
  let (measurement, rest) := readUntil tagStop line
  let (tags, rest) ← readTags line.length rest
  match readUntil keyStop rest with
  | (key, '=' :: '"' :: rest) =>
      let (value, rest) ← readString rest
      match rest with
      | ' ' :: stamp => some ⟨measurement, tags, (key, value), stamp⟩
      | _ => none
  | _ => none

/-- A text that `readUntil` reads back as it is. -/
def Clean (stop : Char → Bool) (text : Text) : Prop :=
  (∀ c ∈ text, stop c = false) ∧ text.getLast? ≠ some '\\'

/-- A text that `readString` reads back as it is. -/
def Plain (text : Text) : Prop :=
  '"' ∉ text ∧ ¬['\\', '\\'] <:+: text ∧ text.getLast? ≠ some '\\'

instance (stop : Char → Bool) (text : Text) : Decidable (Clean stop text) :=
  decidable_of_iff ((text.all fun c => !stop c) = true ∧ text.getLast? ≠ some '\\') (by
    simp [Clean])

instance (text : Text) : Decidable (Plain text) :=
  inferInstanceAs (Decidable (_ ∧ _))

section ReadUntil

variable {stop : Char → Bool} (hbackslash : stop '\\' = false)

include hbackslash in
theorem readUntil_stop {t : Char} (ht : stop t = true) (rest : Text) :
    readUntil stop (t :: rest) = ([], t :: rest) := by
  have hne : t ≠ '\\' := by
    rintro rfl
    simp [hbackslash] at ht
  rw [readUntil]
  · simp [ht]
  · rintro c rest' rfl
    exact absurd rfl hne

theorem readUntil_escaped {t : Char} (ht : stop t = true) (rest : Text) :
    readUntil stop ('\\' :: t :: rest) =
      (t :: (readUntil stop rest).1, (readUntil stop rest).2) := by
  simp [readUntil, ht]

theorem readUntil_char {c : Char} {rest : Text} (hc : stop c = false)
    (hnext : c = '\\' → ∀ d rest', rest = d :: rest' → stop d = false) :
    readUntil stop (c :: rest) =
      (c :: (readUntil stop rest).1, (readUntil stop rest).2) := by
  by_cases hb : c = '\\'
  · subst hb
    rcases rest with _ | ⟨d, rest⟩
    · simp [readUntil, hc]
    · simp [readUntil, hnext rfl d rest rfl]
  · rw [readUntil]
    · simp [hc]
    · rintro d rest' rfl
      exact absurd rfl hb

include hbackslash in
theorem readUntil_append {t : Char} (ht : stop t = true) {text : Text} (h : Clean stop text)
    (rest : Text) : readUntil stop (text ++ t :: rest) = (text, t :: rest) := by
  induction text with
  | nil => exact readUntil_stop hbackslash ht rest
  | cons c text ih =>
      obtain ⟨hstop, hlast⟩ := h
      have htail : Clean stop text := by
        refine ⟨fun d hd => hstop d (List.mem_cons_of_mem _ hd), ?_⟩
        rcases text with _ | ⟨d, text⟩
        · simp
        · simpa using hlast
      rw [List.cons_append, readUntil_char (hstop c (by simp)), ih htail]
      rintro rfl d rest' hd
      rcases text with _ | ⟨e, text⟩
      · simp at hlast
      · obtain ⟨rfl, -⟩ := List.cons_eq_cons.mp hd
        exact hstop _ (by simp)

include hbackslash in
/-- Nothing but a clean text is read back: at the first stopping character, or at
the first escape, text and reading part. -/
theorem clean_of_readUntil {t : Char} (ht : stop t = true) {text rest : Text}
    (h : (readUntil stop (text ++ t :: rest)).1 = text) : Clean stop text := by
  induction text with
  | nil => simp [Clean]
  | cons c text ih =>
      rw [List.cons_append] at h
      have hc : stop c = false := by
        by_contra hc
        simp [readUntil_stop hbackslash (by simpa using hc : stop c = true)] at h
      by_cases hnext : c = '\\' → ∀ d rest', text ++ t :: rest = d :: rest' → stop d = false
      · rw [readUntil_char hc hnext] at h
        obtain ⟨hstop, hlast⟩ := ih (List.cons_eq_cons.mp h).2
        refine ⟨List.forall_mem_cons.mpr ⟨hc, hstop⟩, ?_⟩
        rcases text with _ | ⟨d, text⟩
        · rintro hb
          have := hnext (by simpa using hb) t rest rfl
          simp [ht] at this
        · simpa using hlast
      · push Not at hnext
        obtain ⟨rfl, d, rest', hd, hstop⟩ := hnext
        rw [hd, readUntil_escaped (by simpa using hstop)] at h
        obtain ⟨rfl, -⟩ := List.cons_eq_cons.mp h
        exact absurd hbackslash hstop

end ReadUntil

def renderTags (tags : List (Text × Text)) : Text :=
  tags.flatMap fun tag => ',' :: tag.1 ++ '=' :: tag.2

@[simp]
theorem tagStop_backslash : tagStop '\\' = false := rfl

@[simp]
theorem keyStop_backslash : keyStop '\\' = false := rfl

theorem readTags_succ (fuel : Nat) {key : Text} (hkey : Clean keyStop key) (value rest : Text) :
    readTags (fuel + 1) (',' :: key ++ '=' :: (value ++ rest)) =
      if (readUntil tagStop (value ++ rest)).1 = [] then none
      else
        (readTags fuel (readUntil tagStop (value ++ rest)).2).map fun r =>
          ((key, (readUntil tagStop (value ++ rest)).1) :: r.1, r.2) := by
  rw [List.cons_append, readTags, readUntil_append keyStop_backslash rfl hkey]
  rcases h : readUntil tagStop (value ++ rest) with ⟨_ | ⟨c, read⟩, left⟩
  · simp [h]
  · simp [h]

theorem readTags_render {tags : List (Text × Text)}
    (h : ∀ tag ∈ tags, Clean keyStop tag.1 ∧ tag.2 ≠ [] ∧ Clean tagStop tag.2)
    {fuel : Nat} (hfuel : tags.length ≤ fuel) (rest : Text) :
    readTags fuel (renderTags tags ++ ' ' :: rest) = some (tags, rest) := by
  induction tags generalizing fuel with
  | nil => cases fuel <;> rfl
  | cons tag tags ih =>
      obtain ⟨fuel, rfl⟩ := Nat.exists_eq_add_of_le' (Nat.one_le_of_lt hfuel)
      obtain ⟨⟨hkey, hne, hvalue⟩, htags⟩ := List.forall_mem_cons.mp h
      have hread : readUntil tagStop (tag.2 ++ (renderTags tags ++ ' ' :: rest)) =
          (tag.2, renderTags tags ++ ' ' :: rest) := by
        rcases tags with _ | ⟨next, tags⟩
        · exact readUntil_append tagStop_backslash rfl hvalue _
        · simpa [renderTags] using readUntil_append tagStop_backslash (t := ',') rfl hvalue _
      have hstep := readTags_succ fuel hkey tag.2 (renderTags tags ++ ' ' :: rest)
      rw [hread, if_neg hne, ih htags (by simpa using hfuel)] at hstep
      simpa [renderTags] using hstep

theorem clean_of_readTags {tags : List (Text × Text)} (hkeys : ∀ tag ∈ tags, Clean keyStop tag.1)
    {fuel : Nat} {rest left : Text}
    (h : readTags fuel (renderTags tags ++ ' ' :: rest) = some (tags, left)) :
    ∀ tag ∈ tags, tag.2 ≠ [] ∧ Clean tagStop tag.2 := by
  induction tags generalizing fuel with
  | nil => simp
  | cons tag tags ih =>
      obtain ⟨hkey, hkeys⟩ := List.forall_mem_cons.mp hkeys
      obtain ⟨t, suffix, ht, hsuffix⟩ : ∃ t suffix, tagStop t = true ∧
          renderTags tags ++ ' ' :: rest = t :: suffix := by
        rcases tags with _ | ⟨next, tags⟩
        · exact ⟨' ', rest, rfl, rfl⟩
        · exact ⟨',', _, rfl, rfl⟩
      have hline : renderTags (tag :: tags) ++ ' ' :: rest =
          ',' :: tag.1 ++ '=' :: (tag.2 ++ (renderTags tags ++ ' ' :: rest)) := by
        simp [renderTags]
      rcases fuel with _ | fuel
      · rw [hline] at h
        simp [readTags] at h
      · rw [hline, readTags_succ fuel hkey] at h
        split at h
        · simp at h
        · rename_i hne
          obtain ⟨r, hr, hcons⟩ := Option.map_eq_some_iff.mp h
          simp only [Prod.mk.injEq, List.cons.injEq] at hcons
          obtain ⟨⟨htag, htags⟩, hleft⟩ := hcons
          have hvalue : (readUntil tagStop (tag.2 ++ t :: suffix)).1 = tag.2 := by
            rw [← hsuffix]
            exact congrArg Prod.snd htag
          have hclean := clean_of_readUntil tagStop_backslash ht hvalue
          rw [hsuffix, readUntil_append tagStop_backslash ht hclean] at hr hne
          rw [← hsuffix] at hr
          have htail : readTags fuel (renderTags tags ++ ' ' :: rest) = some (tags, left) := by
            rw [hr, ← htags, ← hleft]
          exact List.forall_mem_cons.mpr ⟨⟨hne, hclean⟩, ih hkeys htail⟩

@[simp]
theorem readString_quote (rest : Text) : readString ('"' :: rest) = some ([], rest) := by
  simp [readString]

theorem readString_escaped {c : Char} (hc : c = '"' ∨ c = '\\') (rest : Text) :
    readString ('\\' :: c :: rest) = (readString rest).map fun r => (c :: r.1, r.2) := by
  rcases hc with rfl | rfl
  · rw [readString]
  · rw [readString]

theorem readString_char {c : Char} {rest : Text} (hc : c ≠ '"')
    (hnext : c = '\\' → ∀ d rest', rest = d :: rest' → d ≠ '"' ∧ d ≠ '\\') :
    readString (c :: rest) = (readString rest).map fun r => (c :: r.1, r.2) := by
  rw [readString]
  · exact fun hq => absurd hq hc
  · rintro rest' rfl rfl
    exact absurd rfl (hnext rfl _ _ rfl).1
  · rintro rest' rfl rfl
    exact absurd rfl (hnext rfl _ _ rfl).2

theorem readString_append {text : Text} (h : Plain text) (rest : Text) :
    readString (text ++ '"' :: rest) = some (text, rest) := by
  induction text with
  | nil => exact readString_quote rest
  | cons c text ih =>
      obtain ⟨hquote, hpair, hlast⟩ := h
      have htail : Plain text := by
        refine ⟨fun hd => hquote (List.mem_cons_of_mem _ hd), fun hd => hpair ?_, ?_⟩
        · exact hd.trans (List.suffix_cons c text).isInfix
        · rcases text with _ | ⟨d, text⟩
          · simp
          · simpa using hlast
      rw [List.cons_append, readString_char, ih htail]
      · rfl
      · rintro rfl
        exact hquote (by simp)
      · rintro rfl d rest' hd
        rcases text with _ | ⟨e, text⟩
        · simp at hlast
        · obtain ⟨rfl, -⟩ := List.cons_eq_cons.mp hd
          refine ⟨?_, ?_⟩
          · rintro rfl
            exact hquote (by simp)
          · rintro rfl
            exact hpair ⟨[], text, rfl⟩

theorem exists_consumed_of_readString {text read left : Text}
    (h : readString text = some (read, left)) :
    ∃ consumed, text = consumed ++ '"' :: left ∧ read.length ≤ consumed.length := by
  fun_induction readString text generalizing read with
  | case1 => simp at h
  | case2 rest =>
      simp only [Option.some.injEq, Prod.mk.injEq] at h
      exact ⟨[], by simp [← h.1, h.2]⟩
  | case3 rest ih =>
      obtain ⟨r, hr, heq⟩ := Option.map_eq_some_iff.mp h
      obtain ⟨rfl, rfl⟩ := Prod.mk.injEq .. ▸ heq
      obtain ⟨consumed, rfl, hlen⟩ := ih hr
      exact ⟨'\\' :: '"' :: consumed, rfl, by simp; omega⟩
  | case4 rest ih =>
      obtain ⟨r, hr, heq⟩ := Option.map_eq_some_iff.mp h
      obtain ⟨rfl, rfl⟩ := Prod.mk.injEq .. ▸ heq
      obtain ⟨consumed, rfl, hlen⟩ := ih hr
      exact ⟨'\\' :: '\\' :: consumed, rfl, by simp; omega⟩
  | case5 c rest _ _ _ ih =>
      obtain ⟨r, hr, heq⟩ := Option.map_eq_some_iff.mp h
      obtain ⟨rfl, rfl⟩ := Prod.mk.injEq .. ▸ heq
      obtain ⟨consumed, rfl, hlen⟩ := ih hr
      exact ⟨c :: consumed, rfl, by simp; omega⟩

theorem length_le_of_readString {text rest read left : Text} (hrest : '"' ∉ rest)
    (h : readString (text ++ '"' :: rest) = some (read, left)) :
    read.length ≤ text.length := by
  obtain ⟨consumed, heq, hlen⟩ := exists_consumed_of_readString h
  refine hlen.trans ?_
  by_contra hlt
  -- a longer piece would end at a quote inside `rest`
  rcases List.append_eq_append_iff.mp heq with ⟨more, rfl, hmore⟩ | ⟨more, rfl, -⟩
  · rcases more with _ | ⟨c, more⟩
    · simp at hlt
    · obtain ⟨-, hmore⟩ := List.cons_eq_cons.mp hmore
      exact hrest (by simp [hmore])
  · simp at hlt

/-- Nothing but a plain text is read back from a line without a later quote. -/
theorem plain_of_readString {text rest left : Text} (hrest : '"' ∉ rest)
    (h : readString (text ++ '"' :: rest) = some (text, left)) : Plain text := by
  induction text with
  | nil => simp [Plain]
  | cons c text ih =>
      have hc : c ≠ '"' := by
        rintro rfl
        simp at h
      by_cases hnext : c = '\\' → ∀ d rest', text ++ '"' :: rest = d :: rest' →
          d ≠ '"' ∧ d ≠ '\\'
      · rw [List.cons_append, readString_char hc hnext] at h
        obtain ⟨r, hr, heq⟩ := Option.map_eq_some_iff.mp h
        simp only [Prod.mk.injEq, List.cons.injEq, true_and] at heq
        obtain ⟨hquote, hpair, hlast⟩ := ih (by rw [hr, ← heq.1, ← heq.2])
        refine ⟨?_, ?_, ?_⟩
        · simp [hc.symm, hquote]
        · intro hinfix
          rcases List.infix_cons_iff.mp hinfix with hprefix | hinfix
          · obtain ⟨rfl, htext⟩ := List.cons_prefix_cons.mp hprefix
            obtain ⟨more, rfl⟩ := htext
            exact (hnext rfl _ _ rfl).2 rfl
          · exact hpair hinfix
        · rcases text with _ | ⟨d, text⟩
          · rintro hb
            exact (hnext (by simpa using hb) _ _ rfl).1 rfl
          · simpa using hlast
      · push Not at hnext
        obtain ⟨rfl, d, rest', hd, hstop⟩ := hnext
        rw [List.cons_append, hd] at h
        rw [readString_escaped (or_iff_not_imp_left.mpr hstop)] at h
        obtain ⟨r, hr, heq⟩ := Option.map_eq_some_iff.mp h
        simp only [Prod.mk.injEq, List.cons.injEq] at heq
        obtain ⟨⟨rfl, hread⟩, hleft⟩ := heq
        -- a doubled backslash leaves a text that is too short
        rcases text with _ | ⟨e, text⟩
        · simp at hd
        · obtain ⟨rfl, rfl⟩ := List.cons_eq_cons.mp hd
          have hlen := length_le_of_readString hrest hr
          rw [hread] at hlen
          simp at hlen

/-- A point as a line, with no escaping at all. -/
def renderPoint (point : Point) : Text :=
  point.measurement ++ (renderTags point.tags ++ ' ' :: (point.field.1 ++ '=' :: '"' ::
    (point.field.2 ++ '"' :: ' ' :: point.stamp)))

theorem length_tags_le_renderTags (tags : List (Text × Text)) :
    tags.length ≤ (renderTags tags).length := by
  induction tags with
  | nil => simp
  | cons tag tags ih =>
      simp only [renderTags, List.flatMap_cons, List.length_append, List.length_cons] at ih ⊢
      omega

theorem readUntil_measurement {measurement : Text} (h : Clean tagStop measurement)
    (tags : List (Text × Text)) (rest : Text) :
    readUntil tagStop (measurement ++ (renderTags tags ++ ' ' :: rest)) =
      (measurement, renderTags tags ++ ' ' :: rest) := by
  rcases tags with _ | ⟨tag, tags⟩
  · exact readUntil_append tagStop_backslash rfl h _
  · exact readUntil_append tagStop_backslash (t := ',') rfl h _

/-- A point with clean names is read back from its unescaped line exactly when
its tag values are nonempty and clean and its string field is plain. -/
theorem readPoint_renderPoint_iff {point : Point} (hmeasurement : Clean tagStop point.measurement)
    (hkeys : ∀ tag ∈ point.tags, Clean keyStop tag.1) (hkey : Clean keyStop point.field.1)
    (hstamp : '"' ∉ point.stamp) :
    readPoint (renderPoint point) = some point ↔
      (∀ tag ∈ point.tags, tag.2 ≠ [] ∧ Clean tagStop tag.2) ∧ Plain point.field.2 := by
  have hfield (rest : Text) := readUntil_append keyStop_backslash (t := '=') rfl hkey rest
  have hfuel : point.tags.length ≤ (renderPoint point).length := by
    have := length_tags_le_renderTags point.tags
    simp only [renderPoint, List.length_append]
    omega
  constructor
  · intro h
    rw [readPoint, renderPoint, readUntil_measurement hmeasurement, ← renderPoint] at h
    obtain ⟨⟨tags, rest⟩, htags, h⟩ := Option.bind_eq_some_iff.mp h
    dsimp only at h
    split at h
    · rename_i key text hread
      obtain ⟨⟨value, rest'⟩, hvalue, h⟩ := Option.bind_eq_some_iff.mp h
      dsimp only at h
      split at h
      · have hpoint := Option.some.inj h
        obtain rfl : tags = point.tags := congrArg Point.tags hpoint
        obtain rfl : value = point.field.2 := congrArg (fun p => p.field.2) hpoint
        have hvalues := clean_of_readTags hkeys htags
        have hrender := readTags_render (fun tag htag => ⟨hkeys tag htag, hvalues tag htag⟩) hfuel
        -- the tags end where the field starts, so the field is read from its own text
        rw [hrender] at htags
        obtain ⟨-, rfl⟩ := Prod.mk.injEq .. ▸ Option.some.inj htags
        rw [hfield] at hread
        obtain ⟨-, hread⟩ := Prod.mk.injEq .. ▸ hread
        simp only [List.cons.injEq, true_and] at hread
        rw [← hread] at hvalue
        refine ⟨hvalues, plain_of_readString ?_ hvalue⟩
        simpa using hstamp
      · simp at h
    · simp at h
  · rintro ⟨hvalues, hplain⟩
    have htags := readTags_render (fun tag htag => ⟨hkeys tag htag, hvalues tag htag⟩) hfuel
    rw [readPoint, renderPoint, readUntil_measurement hmeasurement, ← renderPoint]
    simp only [htags, Option.bind_eq_bind, Option.bind_some, hfield,
      readString_append hplain]

/-- Whatever else is read, a point with all its tags is read only if their values are
nonempty and clean. -/
theorem tags_of_readPoint {point read : Point} (hmeasurement : Clean tagStop point.measurement)
    (hkeys : ∀ tag ∈ point.tags, Clean keyStop tag.1)
    (h : readPoint (renderPoint point) = some read) :
    read.measurement = point.measurement ∧
      (read.tags = point.tags → ∀ tag ∈ point.tags, tag.2 ≠ [] ∧ Clean tagStop tag.2) := by
  rw [readPoint, renderPoint, readUntil_measurement hmeasurement, ← renderPoint] at h
  obtain ⟨⟨tags, rest⟩, htags, h⟩ := Option.bind_eq_some_iff.mp h
  dsimp only at h
  split at h
  · obtain ⟨⟨value, rest'⟩, -, h⟩ := Option.bind_eq_some_iff.mp h
    dsimp only at h
    split at h
    · rw [← Option.some.inj h]
      refine ⟨rfl, fun hsame => ?_⟩
      dsimp only at hsame
      rw [hsame] at htags
      exact clean_of_readTags hkeys htags
    · exact absurd h nofun
  · exact absurd h nofun

end DaapLog.LineProtocol
