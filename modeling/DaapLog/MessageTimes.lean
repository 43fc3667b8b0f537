import DaapLog.CleanMessages
import DaapLog.GsubCuts
import DaapLog.TextRecords

/-!
The time of a text message: of all blanks in front of digits, `common_clean` takes the
last one of the line.
-/

namespace DaapLog.MessageTimes

open DaapLog.CStrings
open DaapLog.OrderedHash
open DaapLog.LinearPatterns
open DaapLog.PatternMatches
open DaapLog.GreedyMatches
open DaapLog.GsubCuts
open DaapLog.RubyValues
open DaapLog.PluginMessages
open DaapLog.TextDispatch
open DaapLog.PluginProcess
open DaapLog.CleanMessages
open DaapLog.TextRecords
open DaapLog.RubyStrings (split splitItem strip HasValue)

/-- The deletions of `common_clean` and its joining of tags and fields. -/
def joined (code : Code) (message : Text) : Text :=
  ((cleaning code code.first_field).take 6).foldl (fun text f => f text) message

def stampText (parts : List Text) : Text :=
  capture timestampPattern parts 1 ++ ",timestamp=".toList ++ capture timestampPattern parts 2

theorem common_clean_eq (code : Code) (message : Text) :
    common_clean message code code.first_field =
      gsub timestampPattern stampText (joined code message) := rfl

/-- What may stand behind the timestamp. -/
def tails : List Text := [[], ['\n'], ['\\', 'n']]

/-- A timestamp at the end of a message. -/
structure IsStamp (digits tail : Text) : Prop where
  ne_nil : digits ≠ []
  isDigit : ∀ c ∈ digits, c.isDigit
  mem_tails : tail ∈ tails

section Ending

variable {digits tail : Text}

theorem IsStamp.mem_tail (h : IsStamp digits tail) :
    ∀ c ∈ tail, c = '\n' ∨ c = '\\' ∨ c = 'n' := by
  have htail := h.mem_tails
  simp only [tails, List.mem_cons, List.not_mem_nil, or_false] at htail
  rcases htail with rfl | rfl | rfl
  · simp
  · simp
  · simp

theorem IsStamp.not_mem (h : IsStamp digits tail) {c : Char} (hblank : c ≠ ' ')
    (hdigit : c.isDigit = false) (htail : c ∉ ['\n', '\\', 'n']) :
    c ∉ ' ' :: (digits ++ tail) := by
  rw [List.mem_cons, List.mem_append, not_or, not_or]
  refine ⟨hblank, fun hc => ?_, fun hc => ?_⟩
  · exact absurd ((h.isDigit c hc).symm.trans hdigit) Bool.noConfusion
  · exact htail (by simpa using h.mem_tail c hc)

theorem remove_lit_ending {word : Text} {c : Char} (hc : c ∈ word) {back : Text}
    (hmissing : c ∉ ' ' :: back) (hblank : ' ' ∉ word) (front : Text) :
    remove (lit word 0) (front ++ ' ' :: back) = remove (lit word 0) front ++ ' ' :: back := by
  rw [remove_lit_append (List.ne_nil_of_mem hc) hblank,
    gsubAt_of_missing (mem_lit hc 0) (forall_beq_false hmissing)]

theorem remove_trigger_ending (code : Code) (h : IsStamp digits tail) {front : Text}
    (hline : '\n' ∉ front) (hfront : code.spaced → front ≠ code.text) :
    remove (bol ++ lit code.trigger 0) (front ++ ' ' :: (digits ++ tail)) =
      remove (bol ++ lit code.trigger 0) front ++ ' ' :: (digits ++ tail) := by
  have hletter : ∃ c ∈ code.trigger, c ≠ ' ' ∧ c.isDigit = false ∧ c ∉ ['\n', '\\', 'n'] := by
    cases code with
    | lap => exact ⟨'l', by decide⟩
    | poisson => exact ⟨'p', by decide⟩
    | jayenne => exact ⟨'j', by decide⟩
    | mcatk => exact ⟨'m', by decide⟩
    | sap => exact ⟨'s', by decide⟩
    | xrage => exact ⟨'x', by decide⟩
  obtain ⟨c, hc, hblank, hdigit, htail⟩ := hletter
  have hone : (Atom.one (· == c), 0) ∈ bol ++ lit code.trigger 0 :=
    List.mem_append_right _ (mem_lit hc 0)
  have hcut (more : Text) : code.trigger ≠ front ++ ' ' :: more := by
    have htext : ' ' ∉ code.text := by cases code <;> decide
    intro heq
    rcases List.eq_nil_or_concat more with rfl | ⟨init, d, rfl⟩
    · have hsame := List.append_inj' heq rfl
      have hspaced : code.spaced := by
        by_contra hnot
        have hcomma : [','] = [' '] := by
          simpa [Code.separator, hnot] using hsame.2
        exact absurd hcomma (by decide)
      exact hfront hspaced hsame.1.symm
    · rw [List.concat_eq_append, ← List.cons_append, ← List.append_assoc] at heq
      have hsame := List.append_inj_left' heq rfl
      exact htext (hsame ▸ by simp)
  have hmissing := h.not_mem hblank hdigit htail
  have hlocal : Local (bol ++ lit code.trigger 0) none front (' ' :: (digits ++ tail)) :=
    local_bol_lit hline hcut
  rw [remove, gsub_eq_gsubAt, gsubAt_append ⟨_, 0, hone⟩ hlocal,
    gsubAt_of_missing hone (forall_beq_false hmissing)]
  rfl

theorem fields_ending {first_field : Text} (hletter : first_field.head?.any Char.isDigit = false)
    (hne : first_field ≠ []) (hblank : ' ' ∉ first_field) (hdigits : ∀ c ∈ digits, c.isDigit)
    (hsome : digits ≠ []) (hmissing : '=' ∉ ' ' :: (digits ++ tail))
    {replace : List Text → Text} (front : Text) :
    gsub (fieldsPattern first_field) replace (front ++ ' ' :: (digits ++ tail)) =
      gsub (fieldsPattern first_field) replace front ++ ' ' :: (digits ++ tail) := by
  obtain ⟨d, rest, rfl⟩ := List.exists_cons_of_ne_nil hsome
  obtain ⟨c, word, rfl⟩ := List.exists_cons_of_ne_nil hne
  have hd : d.isDigit := hdigits d List.mem_cons_self
  have hcd : d ≠ c := by
    rintro rfl
    exact absurd (hd.symm.trans hletter) Bool.noConfusion
  have hword : ' ' ∉ (c :: word) ++ ['='] := by
    rw [List.mem_append, not_or]
    exact ⟨hblank, by decide⟩
  have hlocal : Local (fieldsPattern (c :: word)) none front (' ' :: (d :: rest ++ tail)) :=
    local_plus_lit (List.cons_ne_nil _ _) hword (RubyStrings.isspace_of_isDigit hd)
      (fun c' hc' => Option.some.inj hc' ▸ hcd) 0 1 none front _
  have hone : (Atom.one (· == '='), 1) ∈ fieldsPattern (c :: word) :=
    List.mem_append_right _ (mem_lit (by simp) 1)
  rw [gsub_eq_gsubAt, gsubAt_append ⟨_, 1, hone⟩ hlocal,
    gsubAt_of_missing hone (forall_beq_false hmissing)]
  rfl

theorem joined_eq (code : Code) (message : Text) :
    joined code message =
      (fun message => if code.spaced then message
        else gsub (fieldsPattern code.first_field)
          (fun parts => ",".toList ++ capture (fieldsPattern code.first_field) parts 1) message)
        (remove (lit "\"".toList 0) (remove (lit "\\".toList 0) (remove (lit ".lanl.gov".toList 0)
          (remove (lit ".localdomain".toList 0)
            (remove (bol ++ lit code.trigger 0) message))))) := rfl

/-- All steps but the last leave the end of the message alone, except for a backslash. -/
theorem joined_ending {code : Code} {body : Text} (h : IsStamp digits tail) (hline : '\n' ∉ body)
    (hbody : code.spaced → body ≠ code.text) :
    joined code (body ++ ' ' :: (digits ++ tail)) =
      joined code body ++ ' ' :: (digits ++ tail.filter (· ≠ '\\')) := by
  have hdigits : (' ' :: (digits ++ tail)).filter (· ≠ '\\') =
      ' ' :: (digits ++ tail.filter (· ≠ '\\')) := by
    rw [List.filter_cons_of_pos (by decide), List.filter_append, List.filter_eq_self.mpr]
    intro c hc
    rw [decide_eq_true_iff]
    rintro rfl
    exact absurd (h.isDigit _ hc) (by decide)
  have hdot : '.' ∉ ' ' :: (digits ++ tail) := h.not_mem (by decide) (by decide) (by decide)
  have hstamp : ∀ c ∈ ' ' :: (digits ++ tail.filter (· ≠ '\\')), c ∈ ' ' :: (digits ++ tail) := by
    rw [← hdigits]
    exact fun c hc => List.mem_of_mem_filter hc
  have hquote : '"' ∉ ' ' :: (digits ++ tail.filter (· ≠ '\\')) :=
    fun hc => h.not_mem (by decide) (by decide) (by decide) (hstamp _ hc)
  have hequals : '=' ∉ ' ' :: (digits ++ tail.filter (· ≠ '\\')) :=
    fun hc => h.not_mem (by decide) (by decide) (by decide) (hstamp _ hc)
  have hslash (front : Text) : remove (lit "\\".toList 0) (front ++ ' ' :: (digits ++ tail)) =
      remove (lit "\\".toList 0) front ++ ' ' :: (digits ++ tail.filter (· ≠ '\\')) := by
    rw [show "\\".toList = ['\\'] from rfl, remove_char, remove_char, List.filter_append, hdigits]
  rw [joined_eq, joined_eq, remove_trigger_ending code h hline hbody,
    remove_lit_ending (show '.' ∈ ".localdomain".toList by decide) hdot (by decide),
    remove_lit_ending (show '.' ∈ ".lanl.gov".toList by decide) hdot (by decide), hslash,
    remove_lit_ending (show '"' ∈ "\"".toList by decide) hquote (by decide)]
  split
  · rfl
  · next hspaced =>
      have hfield : code.first_field ≠ [] ∧ ' ' ∉ code.first_field ∧
          code.first_field.head?.any Char.isDigit = false := by
        cases code with
        | mcatk => exact absurd rfl hspaced
        | lap => decide
        | poisson => decide
        | jayenne => decide
        | sap => decide
        | xrage => decide
      exact fields_ending hfield.2.2 hfield.1 hfield.2.1 h.isDigit h.ne_nil hequals _

end Ending

section LastBlank

/-- Digits behind a blank in a line, with no such place behind them. -/
structure LastBlank (digits dropped rest : Text) : Prop where
  ne_nil : digits ≠ []
  isDigit : ∀ c ∈ digits, c.isDigit
  inLine : ∀ c ∈ dropped, inLine c
  stop : (dropped ++ rest).head?.any Char.isDigit = false
  line_end : rest.head?.any LinearPatterns.inLine = false
  last : ∀ d : Char, d.isDigit → ¬[' ', d] <:+: dropped

variable {line digits dropped rest : Text}

theorem not_of_any_head {p : Char → Bool} {text : Text} (h : text.head?.any p = false) :
    ∀ c ∈ text.head?, ¬p c := by
  intro c hc hp
  rw [Option.mem_def.mp hc] at h
  exact absurd (hp.symm.trans h) Bool.noConfusion

theorem LastBlank.ne_append (h : LastBlank digits dropped rest) {d : Char} (hd : d.isDigit)
    {word text : Text} (hword : ∀ c ∈ word, LinearPatterns.inLine c) :
    dropped ++ rest ≠ word ++ ' ' :: d :: text := by
  have hline := not_of_any_head h.line_end
  have hdline : LinearPatterns.inLine d := by
    rw [LinearPatterns.inLine, bne_iff_ne]
    rintro rfl
    exact absurd hd (by decide)
  intro heq
  rcases List.append_eq_append_iff.mp heq with ⟨a, rfl, hrest⟩ | ⟨a, hdropped, htext⟩
  · cases a with
    | nil => exact hline ' ' (by rw [hrest]; rfl) (by decide)
    | cons c a => exact hline c (by rw [hrest]; rfl) (hword c (by simp))
  · rcases a with _ | ⟨c, _ | ⟨c', a⟩⟩
    · rw [List.nil_append] at htext
      exact hline ' ' (by rw [← htext]; rfl) (by decide)
    · obtain ⟨rfl, hcons⟩ := List.cons.inj htext
      have hfound : d :: text = rest := hcons
      exact hline d (by rw [← hfound]; rfl) hdline
    · obtain ⟨rfl, hcons⟩ := List.cons.inj htext
      obtain ⟨rfl, -⟩ := List.cons.inj hcons
      exact h.last d hd ⟨word, a, by rw [hdropped]; simp⟩

theorem LastBlank.not_starts (h : LastBlank digits dropped rest) {more rest' : Text} {k : Pattern}
    {prev : Option Char} (hne : more ≠ [])
    (heq : ' ' :: (digits ++ (dropped ++ rest)) = more ++ rest')
    (hmore : ∀ c ∈ more, LinearPatterns.inLine c) :
    ¬Starts (lit " ".toList 0 ++ (plus Char.isDigit 2 ++ k)) prev rest' := by
  intro hstarts
  obtain ⟨found, rfl, hfound⟩ := (starts_lit_iff " ".toList 0).mp hstarts
  obtain ⟨word, text, rfl, hword, hdigits, -⟩ := (starts_plus_iff Char.isDigit 2).mp hfound
  obtain ⟨d, word, rfl⟩ := List.exists_cons_of_ne_nil hword
  have hd : d.isDigit := hdigits d List.mem_cons_self
  obtain ⟨b, more, rfl⟩ := List.exists_cons_of_ne_nil hne
  rw [List.forall_mem_cons] at hmore
  have hsame : digits ++ (dropped ++ rest) = more ++ ' ' :: d :: (word ++ text) :=
    (List.cons.inj heq).2
  rcases List.append_eq_append_iff.mp hsame with ⟨m, rfl, hrest⟩ | ⟨m, hdigits, hrest⟩
  · rw [List.forall_mem_append] at hmore
    exact h.ne_append hd hmore.2.2 hrest
  · cases m with
    | nil =>
        have hnone : ∀ c ∈ ([] : Text), LinearPatterns.inLine c := by simp
        exact h.ne_append hd hnone hrest.symm
    | cons c m =>
        obtain ⟨rfl, -⟩ := List.cons.inj hrest
        exact absurd (h.isDigit ' ' (by rw [hdigits]; simp)) (by decide)

theorem gsub_timestamp (h : LastBlank digits dropped rest) (hline : '\n' ∉ line)
    (hrest : ' ' ∉ rest) :
    gsub timestampPattern stampText (line ++ ' ' :: (digits ++ (dropped ++ rest))) =
      line ++ ",timestamp=".toList ++ digits ++ rest := by
  have hword : ∀ c ∈ line, LinearPatterns.inLine c := by
    intro c hc
    rw [LinearPatterns.inLine, bne_iff_ne]
    rintro rfl
    exact hline hc
  have hdrop (prev : Option Char) : matchHere (LinearPatterns.star LinearPatterns.inLine 0) prev
      (dropped ++ rest) = some ([dropped], rest) := by
    refine @matchHere_star [] prev rest rest [] _ dropped 0 h.inLine rfl ?_
    intro more rest' hne heq hmore
    obtain ⟨c, more, rfl⟩ := List.exists_cons_of_ne_nil hne
    exact absurd (hmore c List.mem_cons_self) (not_of_any_head h.line_end c (by rw [heq]; rfl))
  obtain ⟨d, more, rfl⟩ := List.exists_cons_of_ne_nil h.ne_nil
  have hdigits (prev : Option Char) := matchHere_plus 2 h.isDigit (not_of_any_head h.stop)
    (hdrop (lastChar prev (d :: more)))
  have hblank : matchHere (lit " ".toList 0 ++
      (plus Char.isDigit 2 ++ LinearPatterns.star LinearPatterns.inLine 0)) (lastChar none line)
        (' ' :: (d :: more ++ (dropped ++ rest))) =
      some ([' '] :: [d] :: more :: [dropped], rest) := by
    have hlit := matchHere_lit " ".toList 0
      (plus Char.isDigit 2 ++ LinearPatterns.star LinearPatterns.inLine 0) (lastChar none line)
      (d :: more ++ (dropped ++ rest))
    rw [hdigits] at hlit
    exact hlit
  have hstar := matchHere_star 1 hword hblank fun _ _ hne heq hmore =>
    h.not_starts hne heq hmore
  have hmatch : matchHere timestampPattern none (line ++ ' ' :: (d :: more ++ (dropped ++ rest))) =
      some ([] :: line :: [' '] :: [d] :: more :: [dropped], rest) := by
    have hbol : atBol none (line ++ ' ' :: (d :: more ++ (dropped ++ rest))) = true := rfl
    rw [timestampPattern, List.append_assoc, List.append_assoc, List.append_assoc, bol,
      List.singleton_append, matchHere, if_pos hbol, hstar]
    rfl
  have hone : (Atom.one (· == ' '), 0) ∈ timestampPattern := by simp [timestampPattern, lit]
  have hstamp : stampText ([] :: line :: [' '] :: [d] :: more :: [dropped]) =
      line ++ ",timestamp=".toList ++ (d :: more) := by
    simp [stampText, capture, timestampPattern, bol, LinearPatterns.star, plus, cls, lit]
  rw [gsub_eq_gsubAt, gsubAt_some ⟨_, 0, hone⟩ (search_of_matchHere hmatch), hstamp,
    gsubAt_of_missing hone (forall_beq_false hrest), List.nil_append]

end LastBlank

section Items

theorem splitItem_eq {key value : Text} (hkey : '=' ∉ key) (hvalue : ∃ c ∈ value, c ≠ '=') :
    splitItem (key ++ '=' :: value) = some (key, strip (value.takeWhile (· ≠ '='))) := by
  obtain ⟨piece, pieces, hpieces, hpiece⟩ : ∃ piece pieces, value.splitOn '=' = piece :: pieces ∧
      piece = value.takeWhile (· ≠ '=') := by
    by_cases heq : '=' ∈ value
    · obtain ⟨front, back, rfl, hfront⟩ := List.eq_append_cons_of_mem heq
      have hall : ∀ c ∈ front, decide (c ≠ '=') = true := by
        intro c hc
        rw [decide_eq_true_iff]
        rintro rfl
        exact hfront hc
      refine ⟨front, back.splitOn '=', List.splitOn_append_cons_self_of_not_mem hfront back, ?_⟩
      rw [List.takeWhile_append_of_pos hall, List.takeWhile_cons_of_neg (by decide),
        List.append_nil]
    · have hall : ∀ c ∈ value, decide (c ≠ '=') = true := by
        intro c hc
        rw [decide_eq_true_iff]
        rintro rfl
        exact heq hc
      exact ⟨value, [], List.splitOn_eq_singleton heq, (List.takeWhile_eq_self_iff.mpr hall).symm⟩
  have hne : (value.splitOn '=').rdropWhile (· = []) ≠ [] := by
    intro hnil
    rw [List.rdropWhile_eq_nil_iff] at hnil
    obtain ⟨c, hc, hcne⟩ := hvalue
    have hblank := (RubyStrings.forall_splitOn_eq_nil_iff '=' value).mp
      fun p hp => of_decide_eq_true (hnil p hp)
    exact hcne (hblank c hc)
  have hsplit : split '=' (key ++ '=' :: value) =
      key :: (value.splitOn '=').rdropWhile (· = []) := by
    rw [split, List.splitOn_append_cons_self_of_not_mem hkey, RubyStrings.rdropWhile_cons,
      if_neg hne]
  obtain ⟨v, rest, hfirst⟩ := List.exists_cons_of_ne_nil hne
  have hv : v = piece := by
    have hprefix : (value.splitOn '=').rdropWhile (· = []) <+: value.splitOn '=' :=
      List.rdropWhile_prefix _ _
    rw [hfirst, hpieces] at hprefix
    exact (List.cons_prefix_cons.mp hprefix).1
  rw [splitItem, hsplit, hfirst, hv, hpiece]

theorem strip_eq_self {text : Text} (h : ∀ c ∈ text, RubyStrings.isBlank c = false) :
    strip text = text := by
  have hdrop : text.dropWhile RubyStrings.isBlank = text := by
    rw [List.dropWhile_eq_self_iff]
    intro hpos
    rw [h _ (List.getElem_mem hpos)]
    exact Bool.false_ne_true
  rw [strip, hdrop, List.rdropWhile_eq_self_iff]
  intro hne
  rw [h _ (List.getLast_mem hne)]
  exact Bool.false_ne_true

theorem strip_append_blanks {text blanks : Text}
    (htext : ∀ c ∈ text, RubyStrings.isBlank c = false)
    (hblanks : ∀ c ∈ blanks, RubyStrings.isBlank c) (hne : text ≠ []) :
    strip (text ++ blanks) = text := by
  obtain ⟨c, rest, rfl⟩ := List.exists_cons_of_ne_nil hne
  have hdrop : (c :: rest ++ blanks).dropWhile RubyStrings.isBlank = c :: rest ++ blanks := by
    rw [List.cons_append, List.dropWhile_cons_of_neg (by simp [htext c List.mem_cons_self])]
  have hself := strip_eq_self htext
  rw [strip, List.dropWhile_cons_of_neg (by simp [htext c List.mem_cons_self])] at hself
  rw [strip, hdrop]
  conv_rhs => rw [← hself]
  rw [List.rdropWhile, List.rdropWhile, List.reverse_append, List.dropWhile_append_of_pos]
  intro c hc
  exact hblanks c (List.mem_reverse.mp hc)

theorem isBlank_of_isDigit {c : Char} (h : c.isDigit) : RubyStrings.isBlank c = false := by
  rw [RubyStrings.isBlank, RubyStrings.isspace_of_isDigit h, Bool.false_or, beq_eq_false_iff_ne]
  rintro rfl
  exact absurd h (by decide)

end Items

section Branches

variable {rb : Runtime} {e : Event} {code : Code} {body digits tail : Text}

/-- `key=value` with something in the value other than equals signs. -/
def IsItem (item : Text) : Prop :=
  ∃ key value, item = key ++ '=' :: value ∧ key ≠ [] ∧ '=' ∉ key ∧ ∃ c ∈ value, c ≠ '='

theorem newline_not_mem_joined (h : '\n' ∉ body) : '\n' ∉ joined code body := by
  have hbody : ∀ c ∈ body, c ≠ '\n' := fun c hc heq => h (heq ▸ hc)
  have hclean := @forall_remove (lit "\"".toList 0) (· ≠ '\n') _
    (@forall_remove (lit "\\".toList 0) (· ≠ '\n') _
      (@forall_remove (lit ".lanl.gov".toList 0) (· ≠ '\n') _
        (@forall_remove (lit ".localdomain".toList 0) (· ≠ '\n') _
          (@forall_remove (bol ++ lit code.trigger 0) (· ≠ '\n') _ hbody))))
  have hjoined : ∀ c ∈ joined code body, c ≠ '\n' := by
    rw [joined_eq]
    split
    · exact hclean
    · refine forall_gsub (fun parts hparts => ?_) hclean
      rw [List.forall_mem_append]
      exact ⟨by simp, fun c hc => hparts c (capture_subset _ _ _ hc)⟩
  exact fun hc => hjoined _ hc rfl

theorem body_ne_text (hitems : ∀ item ∈ (joined code body).splitOn ',', IsItem item)
    (hspaced : code.spaced) : body ≠ code.text := by
  rintro rfl
  have hjoined : joined code code.text = code.text ∧ ',' ∉ code.text ∧ '=' ∉ code.text := by
    cases code with
    | poisson => decide +kernel
    | mcatk => decide +kernel
    | lap => exact absurd hspaced (by decide)
    | jayenne => exact absurd hspaced (by decide)
    | sap => exact absurd hspaced (by decide)
    | xrage => exact absurd hspaced (by decide)
  rw [hjoined.1, List.splitOn_eq_singleton hjoined.2.1, List.forall_mem_singleton] at hitems
  obtain ⟨key, value, htext, -⟩ := hitems
  exact hjoined.2.2 (by rw [htext]; simp)

/-- The last blank and the digits behind it become an item, and of what follows them only
the end of the line stays. -/
theorem common_clean_ending (h : IsStamp digits tail) (hline : '\n' ∉ body)
    (hbody : code.spaced → body ≠ code.text) :
    common_clean (body ++ ' ' :: (digits ++ tail)) code code.first_field =
      joined code body ++ ",timestamp=".toList ++ digits ++ tail.filter (· = '\n') := by
  have htails : ∃ dropped, tail.filter (· ≠ '\\') = dropped ++ tail.filter (· = '\n') ∧
      LastBlank digits dropped (tail.filter (· = '\n')) := by
    have hone (d : Char) (hd : d.isDigit) : ¬[' ', d] <:+: ([] : Text) ∧ ¬[' ', d] <:+: ['n'] :=
      ⟨fun h => absurd h.length_le (by simp), fun h => absurd h.length_le (by simp)⟩
    have htail := h.mem_tails
    simp only [tails, List.mem_cons, List.not_mem_nil, or_false] at htail
    rcases htail with rfl | rfl | rfl
    · exact ⟨[], rfl, h.ne_nil, h.isDigit, by simp, rfl, rfl, fun d hd => (hone d hd).1⟩
    · exact ⟨[], rfl, h.ne_nil, h.isDigit, by simp, rfl, rfl, fun d hd => (hone d hd).1⟩
    · exact ⟨['n'], rfl, h.ne_nil, h.isDigit, by simp [inLine], rfl, rfl,
        fun d hd => (hone d hd).2⟩
  obtain ⟨dropped, hfilter, hlast⟩ := htails
  have hblank : ' ' ∉ tail.filter (· = '\n') := by
    intro hc
    exact absurd (of_decide_eq_true (List.mem_filter.mp hc).2) (by decide)
  rw [common_clean_eq, joined_ending h hline hbody, hfilter,
    gsub_timestamp hlast (newline_not_mem_joined hline) hblank]

theorem kv_pairs_ending (h : IsStamp digits tail) (hline : '\n' ∉ body)
    (hbody : code.spaced → body ≠ code.text) :
    kv_pairs code (body ++ ' ' :: (digits ++ tail)) = (joined code body).splitOn ',' ++
      ["timestamp".toList ++ '=' :: (digits ++ tail.filter (· = '\n'))] := by
  have hcomma : ',' ∉ "timestamp".toList ++ '=' :: (digits ++ tail.filter (· = '\n')) := by
    have hname : ',' ∉ "timestamp".toList := by decide
    simp only [List.mem_append, List.mem_cons, List.mem_filter, not_or]
    refine ⟨hname, by decide, fun hc => ?_, fun hc => ?_⟩
    · exact absurd (h.isDigit _ hc) (by decide)
    · exact absurd hc.2 (by decide)
  have htext : joined code body ++ ",timestamp=".toList ++ digits ++ tail.filter (· = '\n') =
      joined code body ++
        ',' :: ("timestamp".toList ++ '=' :: (digits ++ tail.filter (· = '\n'))) := by
    simp
  rw [kv_pairs, common_clean_ending h hline hbody, htext, split, List.splitOn_append_cons_self,
    List.splitOn_eq_singleton hcomma, List.rdropWhile_concat_neg]
  simp

theorem splitItem_timestamp (h : IsStamp digits tail) :
    splitItem ("timestamp".toList ++ '=' :: (digits ++ tail.filter (· = '\n'))) =
      some ("timestamp".toList, digits) := by
  obtain ⟨d, rest, rfl⟩ := List.exists_cons_of_ne_nil h.ne_nil
  have hvalue : ∃ c ∈ d :: rest ++ tail.filter (· = '\n'), c ≠ '=' := by
    refine ⟨d, List.mem_cons_self, ?_⟩
    rintro rfl
    exact absurd (h.isDigit _ List.mem_cons_self) (by decide)
  have hall : ∀ c ∈ d :: rest ++ tail.filter (· = '\n'), decide (c ≠ '=') = true := by
    intro c hc
    rw [decide_eq_true_iff]
    rintro rfl
    rcases List.mem_append.mp hc with hc | hc
    · exact absurd (h.isDigit _ hc) (by decide)
    · exact absurd (of_decide_eq_true (List.mem_filter.mp hc).2) (by decide)
  have hblanks : ∀ c ∈ tail.filter (· = '\n'), RubyStrings.isBlank c := by
    intro c hc
    rw [of_decide_eq_true (List.mem_filter.mp hc).2]
    rfl
  rw [splitItem_eq (by decide) hvalue, List.takeWhile_eq_self_iff.mpr hall,
    strip_append_blanks (fun c hc => isBlank_of_isDigit (h.isDigit c hc)) hblanks
      (List.cons_ne_nil _ _)]

theorem IsItem.hasValue {item : Text} (h : IsItem item) : HasValue item := by
  obtain ⟨key, value, rfl, -, hkey, hvalue⟩ := h
  exact ⟨key, value, rfl, hkey, hvalue⟩

theorem itemFields_ending (h : IsStamp digits tail) (hline : '\n' ∉ body)
    (hitems : ∀ item ∈ (joined code body).splitOn ',', IsItem item) :
    ∃ r, itemFields code (body ++ ' ' :: (digits ++ tail)) = some r ∧
      get r "timestamp".toList = some (.str digits) ∧
      ((∀ item ∈ (joined code body).splitOn ',', ¬"run_date=".toList <+: item) →
        hasKey r "run_date".toList = false) := by
  have hpairs := kv_pairs_ending h hline (body_ne_text hitems)
  have hlast := splitItem_timestamp h
  have hvalues : ∀ item ∈ kv_pairs code (body ++ ' ' :: (digits ++ tail)), HasValue item := by
    rw [hpairs, List.forall_mem_append, List.forall_mem_singleton]
    refine ⟨fun item hitem => (hitems item hitem).hasValue, ?_⟩
    rw [← RubyStrings.splitItem_isSome_iff, hlast]
    rfl
  obtain ⟨r, hr⟩ := Option.isSome_iff_exists.mp
    ((addItems_isSome_iff [("metric".toList, .str code.metric)] _).mpr hvalues)
  have hfilter : (kv_pairs code (body ++ ' ' :: (digits ++ tail))).filterMap splitItem =
      ((joined code body).splitOn ',').filterMap splitItem ++ [("timestamp".toList, digits)] := by
    rw [hpairs, List.filterMap_append, List.filterMap_cons_some hlast, List.filterMap_nil]
  refine ⟨r, hr, ?_, fun hdate => ?_⟩
  · have hvalue : itemValue "timestamp".toList (kv_pairs code (body ++ ' ' :: (digits ++ tail))) =
        some digits := by
      rw [itemValue, hfilter, List.reverse_append, List.reverse_singleton, List.singleton_append,
        List.find?_cons_of_pos (by simp)]
      rfl
    rw [get_addItems _ hr, hvalue]
    rfl
  · have hnone : itemValue "run_date".toList (kv_pairs code (body ++ ' ' :: (digits ++ tail))) =
        none := by
      rw [itemValue, Option.map_eq_none_iff, List.find?_eq_none, hfilter]
      intro kv hkv
      rw [List.mem_reverse, List.mem_append, List.mem_filterMap, List.mem_singleton] at hkv
      rw [decide_eq_true_iff]
      rcases hkv with ⟨item, hitem, hsplit⟩ | rfl
      · obtain ⟨key, value, rfl, -, hkey, hvalue⟩ := hitems item hitem
        rw [splitItem_eq hkey hvalue] at hsplit
        obtain rfl := Option.some.inj hsplit
        rintro rfl
        exact hdate _ hitem ⟨value, rfl⟩
      · show "timestamp".toList ≠ "run_date".toList
        decide
    rw [hasKey, get_addItems _ hr, hnone]
    rfl

/-- The time of a record is that at the end of its message. -/
theorem emits_at_timestamp (h : IsStamp digits tail) (hline : '\n' ∉ body)
    (hitems : ∀ item ∈ (joined code body).splitOn ',', IsItem item)
    (hdate : code = .xrage → ∀ item ∈ (joined code body).splitOn ',', ¬"run_date=".toList <+: item)
    (hcaliper : strstr (body ++ ' ' :: (digits ++ tail)) caliperTrigger = false)
    (hcode : firstCode (body ++ ' ' :: (digits ++ tail)) = some code)
    (htext : IsText rb e (body ++ ' ' :: (digits ++ tail))) :
    common_clean (body ++ ' ' :: (digits ++ tail)) code code.first_field =
        joined code body ++ ",timestamp=".toList ++ digits ++ tail.filter (· = '\n') ∧
      ∃ m, Emits rb e (.num (Nat.ofDigitChars 10 digits 0 / 1000000000 : Nat), m) := by
  refine ⟨common_clean_ending h hline (body_ne_text hitems), ?_⟩
  obtain ⟨r, hr, htime, hrun⟩ := itemFields_ending h hline hitems
  have hsome : kv_pairs code (body ++ ' ' :: (digits ++ tail)) ≠ [] := by
    rw [kv_pairs_ending h hline (body_ne_text hitems)]
    exact List.append_ne_nil_of_right_ne_nil _ (List.cons_ne_nil _ _)
  have hactions : eventActions rb e = [.push (stamp (convert rb code r)).toRecord] := by
    rw [eventActions_of_isText htext, textActions, hcaliper, if_neg Bool.false_ne_true, hcode]
    exact actions_eq_push hr hsome
  have hstamp : get (stamp (convert rb code r)) "timestamp".toList =
      some (.num (Nat.ofDigitChars 10 digits 0 / 1000000000 : Nat)) := by
    have hconvert := get_convert_timestamp rb fun hxrage => hrun (hdate hxrage)
    rw [stamp, get_set_self, PluginMessages.to_i, hconvert, htime]
    simp only [RubyStrings.to_i_digits h.ne_nil h.isDigit]
    norm_cast
  obtain ⟨m, hm, -⟩ := emits_of_push hactions hstamp
  exact ⟨m, hm⟩

end Branches

def xeonRun : Text := "mcatk cpu=Xeon 2 v4,ppn=32".toList

def xeonTime : Text := Nat.toDigits 10 1644527941000000000

theorem emits_at_timestamp_xeon :
    common_clean (xeonRun ++ ' ' :: (xeonTime ++ ['\n'])) .mcatk Code.mcatk.first_field =
        joined .mcatk xeonRun ++ ",timestamp=".toList ++ xeonTime ++ ['\n'].filter (· = '\n') ∧
      ∃ m, Emits integerRuntime
        (0, [("message".toList, .str (xeonRun ++ ' ' :: (xeonTime ++ ['\n'])))])
        (.num (Nat.ofDigitChars 10 xeonTime 0 / 1000000000 : Nat), m) := by
  have hitems : (joined .mcatk xeonRun).splitOn ',' =
      ["cpu=Xeon 2 v4".toList, "ppn=32".toList] := by decide +kernel
  have hstamp : IsStamp xeonTime ['\n'] :=
    ⟨Nat.toDigits_ne_nil, fun c hc => isDigit_of_mem_toDigits hc, by decide⟩
  refine emits_at_timestamp hstamp (by decide) (fun item hitem => ?_)
    (fun h => absurd h (by decide)) (by decide +kernel) (by decide +kernel) ⟨_, rfl, rfl, rfl⟩
  rw [hitems, List.mem_cons, List.mem_singleton] at hitem
  rcases hitem with rfl | rfl
  · exact ⟨"cpu".toList, "Xeon 2 v4".toList, rfl, by decide, by decide, 'X', by decide⟩
  · exact ⟨"ppn".toList, "32".toList, rfl, by decide, by decide, '3', by decide⟩

end DaapLog.MessageTimes
