import DaapLog.GreedyMatches
import DaapLog.SkippedChildren

/-!
The three layouts of a `jobinfo` tag. All patterns begin at its first word, and in each
of the layouts a word in front of an equals sign is found at one place only.
-/

namespace DaapLog.JobinfoLayouts

open DaapLog.CStrings
open DaapLog.OrderedHash
open DaapLog.LinearPatterns
open DaapLog.PatternMatches
open DaapLog.GreedyMatches
open DaapLog.RubyValues
open DaapLog.PluginActions
open DaapLog.PluginChildren
open DaapLog.PluginProcess
open DaapLog.ChildRecords
open DaapLog.ErrorIsolation
open DaapLog.ChunkBoundaries
open DaapLog.SkippedChildren

structure Token (text : Text) : Prop where
  ne_nil : text ≠ []
  blank : ' ' ∉ text
  equals : '=' ∉ text

/-- ` key=token` -/
def item (e : Text × Text) : Text := ' ' :: (e.1 ++ '=' :: e.2)

/-- `.*key=([^ ]+)` for key after key, with groups from `g` on. -/
def itemsPattern : List Text → Nat → Pattern
  | [], _ => []
  | key :: keys, g =>
      star inLine 0 ++ (litFold (key ++ ['=']) 0 ++ (plus notSpace g ++ itemsPattern keys (g + 1)))

/-- `jobid=([^ ]+)` in front of other keys. -/
def layoutPattern (keys : List Text) : Pattern :=
  litFold "jobid=".toList 0 ++ (plus notSpace 1 ++ itemsPattern keys 2)

/-- The keys behind the job id. -/
def layoutKeys : List Text := ["name", "user", "ranks", "version", "probsize"].map String.toList

theorem userPattern_eq : userPattern = layoutPattern (layoutKeys.take 2) := by
  simp only [userPattern, List.append_assoc]
  rfl

theorem ranksPattern_eq : ranksPattern = layoutPattern (layoutKeys.take 3) := by
  simp only [ranksPattern, userPattern, List.append_assoc]
  rfl

theorem probsizePattern_eq : probsizePattern = layoutPattern (layoutKeys.take 5) := by
  simp only [probsizePattern, ranksPattern, userPattern, List.append_assoc]
  rfl

section Letters

variable {c d : Char}

theorem eq_of_toLower_eq (hd : d = '=' ∨ d = ' ') (h : c.toLower = d) : c = d := by
  rw [Char.toLower] at h
  split at h
  · next hupper =>
      have hval := congrArg (fun x : Char => x.val.toNat) h
      have hlow : 65 ≤ c.val.toNat := UInt32.le_iff_toNat_le.mp hupper.1
      have hhigh : c.val.toNat ≤ 90 := UInt32.le_iff_toNat_le.mp hupper.2
      have hsum : (c.val + ('a'.val - 'A'.val)).toNat = c.val.toNat + 32 := by
        rw [UInt32.toNat_add, show ('a'.val - 'A'.val).toNat = 32 from rfl]
        exact Nat.mod_eq_of_lt (by omega)
      rcases hd with rfl | rfl
      · have hequals : c.val.toNat + 32 = 61 := hsum.symm.trans hval
        omega
      · have hblank : c.val.toNat + 32 = 32 := hsum.symm.trans hval
        omega
  · exact h

theorem eq_of_sameLetter (hd : d = '=' ∨ d = ' ') (h : sameLetter c d = true) : c = d := by
  have hlower : d.toLower = d := by
    rcases hd with rfl | rfl
    · rfl
    · rfl
  have hother : d ≠ 'ſ' ∧ d ≠ '\u212a' := by
    rcases hd with rfl | rfl
    · decide
    · decide
  simp only [sameLetter, Bool.or_eq_true, Bool.and_eq_true, beq_iff_eq, hother.1, hother.2,
    and_false, or_false, hlower] at h
  exact eq_of_toLower_eq hd h.symm

theorem eq_of_sameLetter_equals (h : sameLetter '=' d = true) : d = '=' := by
  have hlower : '='.toLower = '=' := rfl
  have hother : '=' ≠ 's' ∧ '=' ≠ 'k' := by decide
  simp only [sameLetter, Bool.or_eq_true, Bool.and_eq_true, beq_iff_eq, hlower, hother.1,
    hother.2, false_and, or_false] at h
  exact eq_of_toLower_eq (.inl rfl) h

/-- A label ends with the letters of a key. -/
def endsLike (label key : Text) : Bool :=
  decide (key.length ≤ label.length) &&
    (key.zip (label.drop (label.length - key.length))).all fun cd => sameLetter cd.1 cd.2

/-- A key has neither an equals sign nor a blank. -/
def IsKey (key : Text) : Prop := key ≠ [] ∧ '=' ∉ key ∧ ' ' ∉ key

theorem endsLike_of_suffix {label key word : Text} (hword : word <:+ label)
    (hkey : List.Forall₂ (fun c d => sameLetter c d = true) key word) :
    endsLike label key = true := by
  obtain ⟨front, rfl⟩ := hword
  have hlength := hkey.length_eq
  have hdrop : (front ++ word).drop ((front ++ word).length - key.length) = word := by
    rw [List.length_append, hlength, Nat.add_sub_cancel, List.drop_left]
  rw [endsLike, hdrop, Bool.and_eq_true, decide_eq_true_iff, List.length_append, hlength,
    List.all_eq_true]
  refine ⟨Nat.le_add_left _ _, fun cd hcd => ?_⟩
  exact (List.forall₂_iff_zip.mp hkey).2 hcd

theorem forall₂_concat {α β : Type*} {R : α → β → Prop} {l : List α} {a : α} {l' : List β}
    (h : List.Forall₂ R (l ++ [a]) l') :
    ∃ init b, l' = init ++ [b] ∧ List.Forall₂ R l init ∧ R a b := by
  induction l generalizing l' with
  | nil =>
      obtain ⟨b, rest, hab, hrest, rfl⟩ := List.forall₂_cons_left_iff.mp h
      obtain rfl := List.forall₂_nil_left_iff.mp hrest
      exact ⟨[], b, rfl, .nil, hab⟩
  | cons c l ih =>
      obtain ⟨d, rest, hcd, hrest, rfl⟩ := List.forall₂_cons_left_iff.mp h
      obtain ⟨init, b, rfl, hinit, hab⟩ := ih hrest
      exact ⟨d :: init, b, rfl, .cons hcd hinit, hab⟩

theorem exists_word_of_sameLetters {key found : Text} (hkey : IsKey key)
    (h : List.Forall₂ (fun c d => sameLetter c d = true) (key ++ ['=']) found) :
    ∃ word, found = word ++ ['='] ∧ '=' ∉ word ∧ ' ' ∉ word ∧
      List.Forall₂ (fun c d => sameLetter c d = true) key word := by
  obtain ⟨word, d, rfl, hword, hd⟩ := forall₂_concat h
  obtain rfl := eq_of_sameLetter_equals hd
  have hmem {d : Char} (hd : d = '=' ∨ d = ' ') (hmem : d ∈ word) : d ∈ key := by
    obtain ⟨i, hi, hget⟩ := List.mem_iff_getElem.mp hmem
    have hi' : i < key.length := hword.length_eq ▸ hi
    have hsame : sameLetter key[i] word[i] = true := hword.get hi' hi
    rw [hget] at hsame
    exact eq_of_sameLetter hd hsame ▸ List.getElem_mem hi'
  exact ⟨word, rfl, fun h => hkey.2.1 (hmem (.inl rfl) h), fun h => hkey.2.2 (hmem (.inr rfl) h),
    hword⟩

end Letters
section Labels

variable {word front token : Text} {entries : List (Text × Text)}

theorem suffix_of_infix_concat (hequals : '=' ∉ front) (h : word ++ ['='] <:+: front ++ ['=']) :
    word <:+ front := by
  obtain ⟨before, after, heq⟩ := h
  rcases List.eq_nil_or_concat after with rfl | ⟨init, c, rfl⟩
  · rw [List.append_nil, ← List.append_assoc] at heq
    exact ⟨before, List.append_inj_left' heq rfl⟩
  · rw [List.concat_eq_append, ← List.append_assoc] at heq
    have hfront := List.append_inj_left' heq rfl
    exact absurd (by rw [← hfront]; simp) hequals

theorem suffix_of_suffix_cons {c : Char} (hc : c ∉ word) (h : word <:+ c :: front) :
    word <:+ front := by
  rcases List.suffix_cons_iff.mp h with rfl | h
  · exact absurd List.mem_cons_self hc
  · exact h

theorem subset_of_cut {a b : Text} (h : word ++ ['='] = a ++ b) (hb : b ≠ []) : a ⊆ word := by
  obtain ⟨init, c, rfl⟩ := List.eq_nil_or_concat b |>.resolve_left hb
  rw [List.concat_eq_append, ← List.append_assoc] at h
  rw [List.append_inj_left' h rfl]
  exact List.subset_append_left a init

/-- A word in front of an equals sign ends the label in front of the first one, or stands
behind the token there. -/
theorem label_step {rest : Text} (hequals : '=' ∉ front) (htoken : Token token)
    (hrest : ∀ c ∈ rest.head?, c = ' ') (hword : '=' ∉ word) (hblank : ' ' ∉ word)
    (h : word ++ ['='] <:+: front ++ '=' :: (token ++ rest)) :
    word <:+ front ∨ word ++ ['='] <:+: rest := by
  have htext : front ++ '=' :: (token ++ rest) = front ++ ['='] ++ (token ++ rest) := by simp
  rw [htext] at h
  rcases infix_append_cases h with h | h | ⟨a, b, heq, ha, hb, hsuffix, -⟩
  · exact .inl (suffix_of_infix_concat hequals h)
  · rcases infix_append_cases h with h | h | ⟨a, b, heq, -, hb, -, hprefix⟩
    · exact absurd (h.subset (List.mem_append_right _ List.mem_cons_self)) htoken.equals
    · exact .inr h
    · obtain ⟨c, b, rfl⟩ := List.exists_cons_of_ne_nil hb
      obtain ⟨tail, rfl⟩ := hprefix
      obtain rfl := hrest c rfl
      have hmem : ' ' ∈ word ++ ['='] := heq ▸ List.mem_append_right _ List.mem_cons_self
      rcases List.mem_append.mp hmem with hmem | hmem
      · exact absurd hmem hblank
      · exact absurd (List.mem_singleton.mp hmem) (by decide)
  · obtain ⟨init, c, rfl⟩ := List.eq_nil_or_concat a |>.resolve_left ha
    rw [List.concat_eq_append] at hsuffix heq
    obtain ⟨before, hbefore⟩ := hsuffix
    rw [← List.append_assoc] at hbefore
    obtain rfl : c = '=' := by simpa using List.append_inj_right' hbefore rfl
    exact absurd (subset_of_cut heq hb (List.mem_append_right _ List.mem_cons_self)) hword

/-- Entries are keys with tokens. -/
def Entries (entries : List (Text × Text)) : Prop := ∀ e ∈ entries, IsKey e.1 ∧ Token e.2

theorem head_flatMap_item (entries : List (Text × Text)) :
    ∀ c ∈ (entries.flatMap item).head?, c = ' ' := by
  intro c hc
  cases entries with
  | nil => exact absurd hc (Option.not_mem_none c)
  | cons e entries => exact (Option.some.inj hc).symm

theorem label_of_infix (hentries : Entries entries) (hequals : '=' ∉ front)
    (htoken : Token token) (hword : '=' ∉ word) (hblank : ' ' ∉ word)
    (h : word ++ ['='] <:+: front ++ '=' :: (token ++ entries.flatMap item)) :
    word <:+ front ∨ ∃ e ∈ entries, word <:+ e.1 := by
  induction entries generalizing front token with
  | nil =>
      rcases label_step hequals htoken (head_flatMap_item []) hword hblank h with h | h
      · exact .inl h
      · exact absurd (List.infix_nil.mp h) (List.append_ne_nil_of_right_ne_nil _ (by simp))
  | cons e entries ih =>
      rw [Entries, List.forall_mem_cons] at hentries
      rcases label_step hequals htoken (head_flatMap_item _) hword hblank h with h | h
      · exact .inl h
      · right
        have hitem : (e :: entries).flatMap item =
            ' ' :: e.1 ++ '=' :: (e.2 ++ entries.flatMap item) := by
          simp [item]
        rw [hitem] at h
        have hlabel : '=' ∉ ' ' :: e.1 := by
          rw [List.mem_cons, not_or]
          exact ⟨by decide, hentries.1.1.2.1⟩
        rcases ih hentries.2 hlabel hentries.1.2 h with h | ⟨e', he', h⟩
        · exact ⟨e, List.mem_cons_self, suffix_of_suffix_cons hblank h⟩
        · exact ⟨e', List.mem_cons_of_mem _ he', h⟩

end Labels

section Matches

/-- No label behind an entry ends with its key. -/
def Distinct (entries : List (Text × Text)) : Prop :=
  entries.Pairwise fun e e' => endsLike e'.1 e.1 = false

section Step

variable {entries : List (Text × Text)} {key token : Text}

theorem notSpace_of_token (htoken : Token token) : ∀ c ∈ token, notSpace c := by
  intro c hc
  rw [notSpace, bne_iff_ne]
  rintro rfl
  exact htoken.blank hc

theorem not_notSpace_head_items (entries : List (Text × Text)) :
    ∀ c ∈ (entries.flatMap item).head?, ¬notSpace c := by
  intro c hc
  obtain rfl := head_flatMap_item entries c hc
  decide

theorem key_not_found_again (hentries : Entries entries) (hkey : IsKey key) (htoken : Token token)
    (hdistinct : ∀ e ∈ entries, endsLike e.1 key = false) {more rest : Text} (hmore : more ≠ [])
    (hrest : key ++ ['='] ++ (token ++ entries.flatMap item) = more ++ rest) {k : Pattern}
    {prev : Option Char} : ¬Starts (litFold (key ++ ['=']) 0 ++ k) prev rest := by
  intro hstarts
  obtain ⟨found, after, rfl, hfound⟩ := starts_litFold_sound hstarts
  obtain ⟨word, rfl, hequals, hblank, hsame⟩ := exists_word_of_sameLetters hkey hfound
  obtain ⟨c, tail, rfl⟩ := List.exists_cons_of_ne_nil hkey.1
  obtain ⟨d, more, rfl⟩ := List.exists_cons_of_ne_nil hmore
  have htail : tail ++ '=' :: (token ++ entries.flatMap item) =
      more ++ (word ++ ['='] ++ after) := by
    simpa using (List.cons.inj hrest).2
  have hinfix : word ++ ['='] <:+: tail ++ '=' :: (token ++ entries.flatMap item) :=
    ⟨more, after, by rw [htail, List.append_assoc]⟩
  have hnot : '=' ∉ tail := fun h => hkey.2.1 (List.mem_cons_of_mem c h)
  rcases label_of_infix hentries hnot htoken hequals hblank hinfix with h | ⟨e, he, h⟩
  · have hle := h.length_le
    rw [← hsame.length_eq] at hle
    exact absurd hle (Nat.not_succ_le_self _)
  · exact Bool.noConfusion ((hdistinct e he).symm.trans (endsLike_of_suffix h hsame))

theorem matchHere_item (hentries : Entries entries) (hkey : IsKey key) (htoken : Token token)
    (hdistinct : ∀ e ∈ entries, endsLike e.1 key = false) (g : Nat) {k : Pattern}
    {prev : Option Char} {parts : List Text} {rest : Text}
    (hk : matchHere k (lastChar (lastChar (lastChar prev [' ']) (key ++ ['='])) token)
      (entries.flatMap item) = some (parts, rest)) :
    ∃ c word, token = c :: word ∧
      matchHere (star inLine 0 ++ (litFold (key ++ ['=']) 0 ++ (plus notSpace g ++ k))) prev
          (((key, token) :: entries).flatMap item) =
        some ([' '] :: ((key ++ ['=']).map (fun c => [c]) ++ [c] :: word :: parts), rest) := by
  have hagain {more rest : Text} (hmore : more ≠ [])
      (hrest : key ++ ['='] ++ (token ++ entries.flatMap item) = more ++ rest) {k : Pattern}
      {prev : Option Char} : ¬Starts (litFold (key ++ ['=']) 0 ++ k) prev rest :=
    key_not_found_again hentries hkey htoken hdistinct hmore hrest
  have hspace := notSpace_of_token htoken
  obtain ⟨c, word, rfl⟩ := List.exists_cons_of_ne_nil htoken.ne_nil
  have hplus := matchHere_plus g hspace (not_notSpace_head_items _) hk
  have hlit : matchHere (litFold (key ++ ['=']) 0 ++ (plus notSpace g ++ k)) (lastChar prev [' '])
      (key ++ ['='] ++ (c :: word ++ entries.flatMap item)) =
        some ((key ++ ['=']).map (fun c => [c]) ++ [c] :: word :: parts, rest) := by
    rw [matchHere_litFold, hplus]
    rfl
  have htext : ((key, c :: word) :: entries).flatMap item =
      [' '] ++ (key ++ ['='] ++ (c :: word ++ entries.flatMap item)) := by
    simp [item]
  have hblank : ∀ c ∈ [' '], inLine c := by simp [inLine]
  refine ⟨c, word, rfl, ?_⟩
  rw [htext]
  refine matchHere_star 0 hblank hlit fun more rest' hne hrest _ => ?_
  exact hagain hne hrest

end Step

/-- The patterns for the first entries of a text match these, each group its token. -/
theorem matchHere_items {entries others : List (Text × Text)}
    (hentries : Entries (entries ++ others)) (hdistinct : Distinct (entries ++ others)) (g : Nat)
    (hg : 0 < g) (prev : Option Char) :
    ∃ parts, matchHere (itemsPattern (entries.map Prod.fst) g) prev
        ((entries ++ others).flatMap item) = some (parts, others.flatMap item) ∧
      ∀ g', g' ≠ 0 → capture (itemsPattern (entries.map Prod.fst) g) parts g' =
        if g ≤ g' then (entries.map Prod.snd).getD (g' - g) [] else [] := by
  induction entries generalizing g prev with
  | nil =>
      refine ⟨[], rfl, fun g' _ => ?_⟩
      split
      · rfl
      · rfl
  | cons e entries ih =>
      rw [List.cons_append, Entries, List.forall_mem_cons] at hentries
      rw [List.cons_append, Distinct, List.pairwise_cons] at hdistinct
      obtain ⟨key, token⟩ := e
      obtain ⟨⟨hkey, htoken⟩, hrest⟩ := hentries
      obtain ⟨parts, hmatch, hcapture⟩ := ih hrest hdistinct.2 (g + 1) (Nat.succ_pos g)
        (lastChar (lastChar (lastChar prev [' ']) (key ++ ['='])) token)
      obtain ⟨c, word, rfl, hitem⟩ := matchHere_item hrest hkey htoken hdistinct.1 g hmatch
      refine ⟨_, hitem, ?_⟩
      · intro g' hg'
        rw [List.map_cons, itemsPattern, capture_star, if_neg hg'.symm,
          capture_litFold _ hg'.symm, capture_plus, hcapture g' hg']
        rcases Nat.lt_trichotomy g g' with hlt | rfl | hgt
        · have hindex : g' - g = g' - (g + 1) + 1 := by omega
          rw [if_neg (Nat.ne_of_lt hlt), if_pos (Nat.succ_le_of_lt hlt), if_pos (Nat.le_of_lt hlt),
            List.map_cons, hindex, List.getD_cons_succ]
        · rw [if_pos rfl, if_neg (Nat.not_succ_le_self g), if_pos le_rfl, Nat.sub_self,
            List.map_cons, List.getD_cons_zero, List.append_nil]
        · rw [if_neg (Nat.ne_of_gt hgt), if_neg (by omega), if_neg (by omega)]

/-- A `jobinfo` with a job id in front of its other entries. -/
def layoutText (jobid : Text) (entries : List (Text × Text)) : Text :=
  "jobid=".toList ++ (jobid ++ entries.flatMap item)

/-- The groups of a pattern for the first entries of a layout are the job id and their
tokens. -/
theorem captures_layout {jobid : Text} {entries others : List (Text × Text)}
    (hjobid : Token jobid) (hentries : Entries (entries ++ others))
    (hdistinct : Distinct (entries ++ others)) (names : List Text) :
    captures (layoutPattern (entries.map Prod.fst)) names (layoutText jobid (entries ++ others)) =
      some (names.zipIdx.map fun name =>
        (name.1, (jobid :: entries.map Prod.snd).getD name.2 [])) := by
  have hspace := notSpace_of_token hjobid
  obtain ⟨c, word, rfl⟩ := List.exists_cons_of_ne_nil hjobid.ne_nil
  obtain ⟨parts, hmatch, hcapture⟩ := matchHere_items hentries hdistinct 2 (by decide)
    (lastChar (lastChar none "jobid=".toList) (c :: word))
  have hplus := matchHere_plus 1 hspace (not_notSpace_head_items _) hmatch
  have hlit : matchHere (layoutPattern (entries.map Prod.fst)) none
      (layoutText (c :: word) (entries ++ others)) =
        some ("jobid=".toList.map (fun c => [c]) ++ [c] :: word :: parts,
          others.flatMap item) := by
    have hword := matchHere_litFold "jobid=".toList 0
      (plus notSpace 1 ++ itemsPattern (entries.map Prod.fst) 2) none
      (c :: word ++ (entries ++ others).flatMap item)
    rw [hplus] at hword
    exact hword
  rw [captures, firstMatch, search_of_matchHere hlit]
  refine congrArg some (List.map_congr_left fun name _ => congrArg (Prod.mk name.1) ?_)
  rw [layoutPattern, capture_litFold _ (Nat.succ_ne_zero _).symm, capture_plus,
    hcapture _ (Nat.succ_ne_zero _)]
  cases name.2 with
  | zero => rw [if_pos rfl, if_neg (by decide), List.append_nil, List.getD_cons_zero]
  | succ n =>
      rw [if_neg (by omega), if_pos (by omega), List.getD_cons_succ]
      rfl

theorem itemsPattern_split {keys : List Text} {key : Text} (hkey : key ∈ keys) (g : Nat) :
    ∃ front k, itemsPattern keys g = front ++ (litFold (key ++ ['=']) 0 ++ k) := by
  induction keys generalizing g with
  | nil => exact absurd hkey List.not_mem_nil
  | cons first keys ih =>
      rcases List.mem_cons.mp hkey with rfl | hkey
      · exact ⟨star inLine 0, _, rfl⟩
      · obtain ⟨front, k, heq⟩ := ih hkey (g + 1)
        refine ⟨star inLine 0 ++ (litFold (first ++ ['=']) 0 ++ (plus notSpace g ++ front)), k, ?_⟩
        rw [itemsPattern, heq]
        simp only [List.append_assoc]

theorem captures_none {jobid : Text} {entries : List (Text × Text)} (hjobid : Token jobid)
    (hentries : Entries entries) {keys : List Text} {key : Text} (hmem : key ∈ keys)
    (hkey : IsKey key) (hfirst : endsLike "jobid".toList key = false)
    (hothers : ∀ e ∈ entries, endsLike e.1 key = false) (names : List Text) :
    captures (layoutPattern keys) names (layoutText jobid entries) = none := by
  obtain ⟨front, k, heq⟩ := itemsPattern_split hmem 2
  have hpattern : layoutPattern keys =
      (litFold "jobid=".toList 0 ++ (plus notSpace 1 ++ front)) ++
        (litFold (key ++ ['=']) 0 ++ k) := by
    rw [layoutPattern, heq]
    simp only [List.append_assoc]
  rw [captures, Option.map_eq_none_iff, firstMatch, Option.map_eq_none_iff,
    ← Option.not_isSome_iff_eq_none]
  intro hsome
  rw [hpattern] at hsome
  obtain ⟨found, hinfix, hfound⟩ := search_litFold_sound hsome
  obtain ⟨word, rfl, hequals, hblank, hsame⟩ := exists_word_of_sameLetters hkey hfound
  have htext : layoutText jobid entries =
      "jobid".toList ++ '=' :: (jobid ++ entries.flatMap item) := rfl
  rw [htext] at hinfix
  rcases label_of_infix hentries (by decide) hjobid hequals hblank hinfix with h | ⟨e, he, h⟩
  · exact Bool.noConfusion (hfirst.symm.trans (endsLike_of_suffix h hsame))
  · exact Bool.noConfusion ((hothers e he).symm.trans (endsLike_of_suffix h hsame))

end Matches

/-- The three layouts of a `jobinfo` tag with what they say about a job. -/
inductive Layout : Text → List (Text × Text) → Prop
  | user {J N U : Text} (hJ : Token J) (hN : Token N) (hU : Token U) :
      Layout ("jobid=".toList ++ J ++ " name=".toList ++ N ++ " user=".toList ++ U)
        [("jobid".toList, J), ("job_name".toList, N), ("user".toList, U)]
  | ranks {J N U R : Text} (hJ : Token J) (hN : Token N) (hU : Token U) (hR : Token R) :
      Layout ("jobid=".toList ++ J ++ " name=".toList ++ N ++ " user=".toList ++ U ++
          " ranks=".toList ++ R)
        [("jobid".toList, J), ("job_name".toList, N), ("user".toList, U), ("ranks".toList, R)]
  | probsize {J N U R V P : Text} (hJ : Token J) (hN : Token N) (hU : Token U) (hR : Token R)
      (hV : Token V) (hP : Token P) :
      Layout ("jobid=".toList ++ J ++ " name=".toList ++ N ++ " user=".toList ++ U ++
          " ranks=".toList ++ R ++ " version=".toList ++ V ++ " probsize=".toList ++ P)
        [("jobid".toList, J), ("job_name".toList, N), ("user".toList, U), ("ranks".toList, R),
          ("version".toList, V), ("probsize".toList, P)]

section Layouts

def entriesOf (tokens : List Text) : List (Text × Text) := layoutKeys.zip tokens

theorem isKey_of_mem : ∀ key ∈ layoutKeys, IsKey key := by
  unfold IsKey
  decide

theorem entries_entriesOf {tokens : List Text} (h : ∀ token ∈ tokens, Token token) :
    Entries (entriesOf tokens) := by
  intro e he
  obtain ⟨hkey, htoken⟩ := List.of_mem_zip he
  exact ⟨isKey_of_mem _ hkey, h _ htoken⟩

theorem map_fst_zip_take {α β : Type*} (l : List α) (l' : List β) :
    (l.zip l').map Prod.fst = l.take l'.length := by
  induction l generalizing l' with
  | nil => simp
  | cons a l ih =>
      cases l' with
      | nil => simp
      | cons b l' => simp [ih]

theorem distinct_entriesOf (tokens : List Text) : Distinct (entriesOf tokens) := by
  have hkeys : layoutKeys.Pairwise fun key key' => endsLike key' key = false := by decide +kernel
  refine List.pairwise_map.mp (hkeys.sublist ?_)
  rw [entriesOf, map_fst_zip_take]
  exact List.take_sublist _ _

variable {J : Text} {tokens : List Text}

theorem captures_entriesOf (hJ : Token J) (htokens : ∀ token ∈ tokens, Token token)
    (names : List Text) {n : Nat} (hn : n ≤ tokens.length) (hkeys : n ≤ layoutKeys.length) :
    captures (layoutPattern (layoutKeys.take n)) names (layoutText J (entriesOf tokens)) =
      some (names.zipIdx.map fun name => (name.1, (J :: tokens.take n).getD name.2 [])) := by
  have hkeysTake : (layoutKeys.take n).length = n := List.length_take_of_le hkeys
  have htokensTake : (tokens.take n).length = n := List.length_take_of_le hn
  have hsplit : entriesOf tokens = (layoutKeys.take n).zip (tokens.take n) ++
      (layoutKeys.drop n).zip (tokens.drop n) := by
    rw [← List.zip_append (hkeysTake.trans htokensTake.symm), List.take_append_drop,
      List.take_append_drop]
    rfl
  have hentries := entries_entriesOf htokens
  have hdistinct := distinct_entriesOf tokens
  rw [hsplit] at hentries hdistinct
  have hlayout := captures_layout hJ hentries hdistinct names
  rw [List.map_fst_zip (hkeysTake.trans htokensTake.symm).le,
    List.map_snd_zip (htokensTake.trans hkeysTake.symm).le, ← hsplit] at hlayout
  exact hlayout

theorem captures_entriesOf_none (hJ : Token J) (htokens : ∀ token ∈ tokens, Token token)
    (names : List Text) {n : Nat} (hn : tokens.length < n) (hkeys : n ≤ layoutKeys.length) :
    captures (layoutPattern (layoutKeys.take n)) names (layoutText J (entriesOf tokens)) =
      none := by
  have hlength : tokens.length < layoutKeys.length := lt_of_lt_of_le hn hkeys
  have hmem : layoutKeys[tokens.length] ∈ layoutKeys.take n := by
    rw [List.mem_take_iff_getElem]
    exact ⟨tokens.length, lt_min hn hlength, rfl⟩
  have hfirst : ∀ key ∈ layoutKeys, endsLike "jobid".toList key = false := by decide +kernel
  have hpairs : layoutKeys.Pairwise fun key key' => endsLike key key' = false := by
    decide +kernel
  refine captures_none hJ (entries_entriesOf htokens) hmem
    (isKey_of_mem _ (List.getElem_mem hlength)) (hfirst _ (List.getElem_mem hlength)) ?_ names
  intro e he
  obtain ⟨i, hi, rfl⟩ := List.mem_iff_getElem.mp he
  have hi' : i < tokens.length := by
    rw [entriesOf, List.length_zip] at hi
    omega
  have hi'' : i < layoutKeys.length := hi'.trans hlength
  have hkey : (entriesOf tokens)[i].1 = layoutKeys[i] := by
    simp [entriesOf]
  rw [hkey]
  exact List.pairwise_iff_getElem.mp hpairs i tokens.length hi'' hlength hi'

theorem set_of_mem {entries : Hash Text Text} (h : (entries.map Prod.fst).Nodup)
    {e : Text × Text} (he : e ∈ entries) : set entries e.1 e.2 = entries := by
  have hkey : hasKey entries e.1 := (mem_keys_iff entries e.1).mp (List.mem_map_of_mem he)
  rw [OrderedHash.set, if_pos hkey]
  conv_rhs => rw [← List.map_id entries]
  refine List.map_congr_left fun e' he' => ?_
  split
  · next heq => exact (List.inj_on_of_nodup_map h he' he heq).symm
  · rfl

theorem foldl_set_prefix {front back : Hash Text Text}
    (h : ((front ++ back).map Prod.fst).Nodup) :
    (front ++ back).foldl (fun info e => set info e.1 e.2) front = front ++ back := by
  have hfront : ∀ entries ⊆ front, entries.foldl (fun info e => set info e.1 e.2) front =
      front := by
    intro entries hentries
    rw [List.map_append] at h
    induction entries with
    | nil => rfl
    | cons e entries ih =>
        rw [List.cons_subset] at hentries
        rw [List.foldl_cons, set_of_mem h.of_append_left hentries.1, ih hentries.2]
  have hback (info : Hash Text Text) (hinfo : ((info ++ back).map Prod.fst).Nodup) :
      back.foldl (fun info e => set info e.1 e.2) info = info ++ back := by
    clear h hfront
    induction back generalizing info with
    | nil => exact (List.append_nil info).symm
    | cons e back ih =>
        have hkey : ¬hasKey info e.1 := by
          rw [← mem_keys_iff]
          rw [List.map_append, List.map_cons] at hinfo
          exact fun hmem => (List.nodup_append.mp hinfo).2.2 _ hmem _ List.mem_cons_self rfl
        rw [List.foldl_cons, OrderedHash.set, if_neg hkey, ih, List.append_assoc,
          List.singleton_append]
        rwa [List.append_assoc, List.singleton_append]
  rw [List.foldl_append, hfront front (List.Subset.refl front), hback front h]

theorem foldl_set_take {entries : Hash Text Text} (h : (entries.map Prod.fst).Nodup) {m n : Nat}
    (hmn : m ≤ n) :
    (entries.take n).foldl (fun info e => OrderedHash.set info e.1 e.2) (entries.take m) =
      entries.take n := by
  have hsplit : entries.take m ++ (entries.drop m).take (n - m) = entries.take n := by
    rw [← List.take_add, Nat.add_sub_cancel' hmn]
  rw [← hsplit]
  refine foldl_set_prefix ?_
  rw [hsplit]
  exact h.sublist ((List.take_sublist n entries).map Prod.fst)

theorem map_zipIdx_getD {names values : List Text} (h : names.length ≤ values.length) :
    (names.zipIdx.map fun name => (name.1, values.getD name.2 [])) = names.zip values := by
  refine List.ext_getElem (by simp [h]) fun i hi hi' => ?_
  have hvalues : i < values.length := by
    rw [List.length_zip] at hi'
    exact lt_of_lt_of_le hi' (min_le_right _ _)
  simp [hvalues]

theorem captures_getD (hJ : Token J) (htokens : ∀ token ∈ tokens, Token token) {n : Nat}
    (hkeys : n ≤ layoutKeys.length) :
    (captures (layoutPattern (layoutKeys.take n)) (jobKeys.take (n + 1))
        (layoutText J (entriesOf tokens))).getD [] =
      if n ≤ tokens.length then (jobKeys.zip (J :: tokens)).take (n + 1) else [] := by
  split
  · next hn =>
      have hlength : (jobKeys.take (n + 1)).length ≤ (J :: tokens.take n).length := by
        rw [List.length_take, List.length_cons, List.length_take_of_le hn]
        exact min_le_left _ _
      rw [captures_entriesOf hJ htokens _ hn hkeys, map_zipIdx_getD hlength, List.zip,
        List.take_zipWith, List.take_succ_cons]
      rfl
  · next hn =>
      rw [captures_entriesOf_none hJ htokens _ (Nat.lt_of_not_le hn) hkeys]
      rfl

theorem jobInfo_eq (jobinfo : Text) :
    jobInfo jobinfo = [2, 3, 5].foldl (fun info n =>
      ((captures (layoutPattern (layoutKeys.take n)) (jobKeys.take (n + 1)) jobinfo).getD []).foldl
        (fun info e => OrderedHash.set info e.1 e.2) info) [] := by
  rw [jobInfo, userPattern_eq, ranksPattern_eq, probsizePattern_eq]
  rfl

theorem nodup_job (values : List Text) : ((jobKeys.zip values).map Prod.fst).Nodup := by
  have hkeys : jobKeys.Nodup := by decide
  rw [map_fst_zip_take]
  exact hkeys.sublist (List.take_sublist _ _)

/-- Each pattern that matches finds what the one before it did, and more. -/
theorem jobInfo_layoutText (hJ : Token J) (htokens : ∀ token ∈ tokens, Token token)
    (hlength : tokens.length = 2 ∨ tokens.length = 3 ∨ tokens.length = 5) :
    jobInfo (layoutText J (entriesOf tokens)) = jobKeys.zip (J :: tokens) := by
  have htake {m n : Nat} (hmn : m ≤ n) :=
    foldl_set_take (nodup_job (J :: tokens)) hmn
  have hall : (jobKeys.zip (J :: tokens)).take (tokens.length + 1) =
      jobKeys.zip (J :: tokens) := by
    refine List.take_of_length_le ?_
    rw [List.length_zip]
    exact min_le_right _ _
  have huser := @htake 0 3 (by decide)
  have hranks := @htake 3 4 (by decide)
  have hprobsize := @htake 4 6 (by decide)
  rw [List.take_zero] at huser
  rw [jobInfo_eq]
  simp only [List.foldl_cons, List.foldl_nil]
  rw [captures_getD hJ htokens (by decide), captures_getD hJ htokens (by decide),
    captures_getD hJ htokens (by decide)]
  rcases hlength with h | h | h
  · rw [h, if_pos (by decide), if_neg (by decide), if_neg (by decide), huser]
    rwa [h] at hall
  · rw [h, if_pos (by decide), if_pos (by decide), if_neg (by decide), huser, hranks]
    rwa [h] at hall
  · rw [h, if_pos (by decide), if_pos (by decide), if_pos (by decide), huser, hranks, hprobsize]
    rwa [h] at hall

theorem jobInfo_of_layout {jobinfo : Text} {job : List (Text × Text)} (h : Layout jobinfo job) :
    jobInfo jobinfo = job := by
  cases h with
  | @user J N U hJ hN hU =>
      have htext : "jobid=".toList ++ J ++ " name=".toList ++ N ++ " user=".toList ++ U =
          layoutText J (entriesOf [N, U]) := by
        unfold layoutText
        simp [entriesOf, layoutKeys, item]
      rw [htext]
      exact jobInfo_layoutText hJ (by simp [hN, hU]) (.inl rfl)
  | @ranks J N U R hJ hN hU hR =>
      have htext : "jobid=".toList ++ J ++ " name=".toList ++ N ++ " user=".toList ++ U ++
          " ranks=".toList ++ R = layoutText J (entriesOf [N, U, R]) := by
        unfold layoutText
        simp [entriesOf, layoutKeys, item]
      rw [htext]
      exact jobInfo_layoutText hJ (by simp [hN, hU, hR]) (.inr (.inl rfl))
  | @probsize J N U R V P hJ hN hU hR hV hP =>
      have htext : "jobid=".toList ++ J ++ " name=".toList ++ N ++ " user=".toList ++ U ++
          " ranks=".toList ++ R ++ " version=".toList ++ V ++ " probsize=".toList ++ P =
            layoutText J (entriesOf [N, U, R, V, P]) := by
        unfold layoutText
        simp [entriesOf, layoutKeys, item]
      rw [htext]
      exact jobInfo_layoutText hJ (by simp [hN, hU, hR, hV, hP]) (.inr (.inr rfl))

end Layouts

section Records

/-- The names whose children are about a node. -/
def nodeNames : List Text := ["infiniband", "cpu", "mem", "temp"].map String.toList

variable {c : Child}

/-- The record says about the job what the record of the child does. -/
def SameJob (c : Child) (r : Record) : Prop := ∀ key ∈ jobKeys, get r key = get c.newRec key

theorem SameJob.set {r : Record} (h : SameJob c r) {other : Text} (hother : other ∉ jobKeys)
    (v : Val) : SameJob c (OrderedHash.set r other v) := by
  intro key hkey
  have hne : key ≠ other := fun heq => hother (heq ▸ hkey)
  rw [get_set_of_ne hne]
  exact h key hkey

theorem sameJob_newRec (c : Child) : SameJob c c.newRec := fun _ _ => rfl

theorem sameJob_setMetric (c : Child) (what : Text) : SameJob c (c.setMetric what c.newRec) :=
  (sameJob_newRec c).set (by decide) _

theorem expand_sameJob {what : Text} {items : List Text} {dup : Text → Record → Record}
    (hdup : ∀ item r, SameJob c r → SameJob c (dup item r)) :
    ∀ action ∈ c.expand what items dup, ∃ r, action.record? = some r ∧ SameJob c r := by
  intro action haction
  obtain ⟨item, -, rfl⟩ := List.mem_map.mp haction
  exact ⟨_, rfl, hdup item _ (sameJob_setMetric c what)⟩

theorem infiniband_sameJob (c : Child) :
    ∀ action ∈ c.infiniband, ∃ r, action.record? = some r ∧ SameJob c r := by
  have hdup (item : Text) (r : Record) (h : SameJob c r) : SameJob c (c.infinibandRecord item r) :=
    ((h.set (by decide) _).set (by decide) _).set (by decide) _
  intro action haction
  rcases List.mem_append.mp haction with h | h
  · exact expand_sameJob hdup action h
  · exact expand_sameJob hdup action h

theorem cpu_sameJob (c : Child) :
    ∀ action ∈ c.cpu, ∃ r, action.record? = some r ∧ SameJob c r :=
  expand_sameJob fun _ _ h => (h.set (by decide) _).set (by decide) _

theorem mem_sameJob (c : Child) (job_key : Text) (time : Int) :
    ∀ action ∈ c.mem job_key time, ∃ r, action.record? = some r ∧ SameJob c r := by
  rintro action (haction : action ∈ [_])
  rw [List.mem_singleton] at haction
  subst haction
  exact ⟨_, rfl, ((sameJob_setMetric c _).set (by decide) _).set (by decide) _⟩

theorem temp_sameJob (c : Child) : SameJob c c.temp :=
  ((sameJob_setMetric c _).set (by decide) _).set (by decide) _

/-- A child with a job and the name of one about a node yields records about that job. -/
theorem actions_sameJob (hjob : (jobOf c.jobinfo).isSome) (hname : c.finalName ∈ nodeNames)
    (rb : Runtime) (time : Int) :
    c.actions rb time ≠ [] ∧
      ∀ action ∈ c.actions rb time, ∃ r, action.record? = some r ∧ SameJob c r := by
  obtain ⟨job, hjob⟩ := Option.isSome_iff_exists.mp hjob
  simp only [nodeNames, List.map_cons, List.map_nil, List.mem_cons, List.not_mem_nil,
    or_false] at hname
  rcases hname with hname | hname | hname | hname
  · have hactions : c.actions rb time = c.infiniband := by
      simp [Child.actions, hjob, hname]
    rw [hactions]
    exact ⟨List.append_ne_nil_of_left_ne_nil (List.cons_ne_nil _ _) _, infiniband_sameJob c⟩
  · have hactions : c.actions rb time = c.cpu := by
      simp [Child.actions, hjob, hname]
    rw [hactions]
    exact ⟨List.cons_ne_nil _ _, cpu_sameJob c⟩
  · have hactions : c.actions rb time = c.mem (job.1 ++ "_".toList ++ job.2) time := by
      simp [Child.actions, hjob, hname]
    rw [hactions]
    exact ⟨List.cons_ne_nil _ _, mem_sameJob c _ time⟩
  · have hactions : c.actions rb time = [.push c.temp] := by
      simp [Child.actions, hjob, hname]
    rw [hactions]
    refine ⟨List.cons_ne_nil _ _, ?_⟩
    rw [List.forall_mem_singleton]
    exact ⟨_, rfl, temp_sameJob c⟩

theorem get_newRec (hmessage : c.message = none) (hname : c.name ∈ nodeNames)
    (hnodup : ((jobInfo c.jobinfo).map Prod.fst).Nodup) :
    c.finalName = c.name ∧
      ∀ key ∈ jobKeys, get c.newRec key = (get (jobInfo c.jobinfo) key).map Val.str := by
  have hfinal : c.finalName = c.name := by
    simp [Child.finalName, Child.mesh, Child.isMesh, Child.mentions, hmessage]
  have hteam : ∀ name ∈ nodeNames, name ≠ "pre_team_pavilion_parser".toList ∧
      name ≠ "pre_team_pavilion_hpl_parser".toList := by decide
  refine ⟨hfinal, fun key hkey => ?_⟩
  have hpreTeam (r : Record) : c.preTeam r = r := by
    rw [Child.preTeam, hfinal, if_neg (hteam _ hname).1, if_neg (hteam _ hname).2]
  have hzones (r : Record) : c.zones r = r := by
    simp [Child.zones, Child.isZones, Child.mentions, hmessage]
  have hstart : c.meshInfo (c.jobDuration (c.jobState (c.heartbeat []))) = [] := by
    simp [Child.meshInfo, Child.isMesh, Child.jobDuration, Child.jobState, Child.heartbeat,
      Child.mentions, Child.isMessage, hmessage]
  have hother : ∀ other ∉ jobKeys, key ≠ other := fun other hother heq => hother (heq ▸ hkey)
  rw [Child.newRec, hpreTeam, hzones, get_mpirank c (hother _ (by decide)),
    addTexts, get_foldl_entries hnodup, hstart, Child.common,
    get_set_of_ne (hother _ (by decide)), get_set_of_ne (hother _ (by decide))]
  exact Option.or_none

end Records

theorem mapM_append_some {α β : Type*} {f : α → Option β} {l l' : List α} {out : List β}
    (h : (l ++ l').mapM f = some out) :
    ∃ front back, l.mapM f = some front ∧ l'.mapM f = some back ∧ out = front ++ back := by
  rw [List.mapM_append] at h
  obtain ⟨front, hfront, h⟩ := Option.bind_eq_some_iff.mp h
  obtain ⟨back, hback, h⟩ := Option.bind_eq_some_iff.mp h
  exact ⟨front, back, hfront, hback, (Option.some.inj h).symm⟩

theorem mem_of_mapM {α β : Type*} {f : α → Option β} {l : List α} {out : List β}
    (h : l.mapM f = some out) : ∀ b ∈ out, ∃ a ∈ l, f a = some b := by
  induction l generalizing out with
  | nil =>
      obtain rfl := Option.some.inj h
      exact fun b hb => absurd hb List.not_mem_nil
  | cons a l ih =>
      rw [mapM_cons_some] at h
      obtain ⟨b, hb, h⟩ := Option.bind_eq_some_iff.mp h
      obtain ⟨rest, hrest, rfl⟩ := Option.map_eq_some_iff.mp h
      intro b' hb'
      rcases List.mem_cons.mp hb' with rfl | hb'
      · exact ⟨a, List.mem_cons_self, hb⟩
      · obtain ⟨a', ha', hf⟩ := ih hrest b' hb'
        exact ⟨a', List.mem_cons_of_mem a ha', hf⟩

theorem ne_nil_of_mapM {α β : Type*} {f : α → Option β} {l : List α} {out : List β}
    (h : l.mapM f = some out) (hl : l ≠ []) : out ≠ [] := by
  obtain ⟨a, l, rfl⟩ := List.exists_cons_of_ne_nil hl
  rw [mapM_cons_some] at h
  obtain ⟨b, -, h⟩ := Option.bind_eq_some_iff.mp h
  obtain ⟨rest, -, rfl⟩ := Option.map_eq_some_iff.mp h
  exact List.cons_ne_nil b rest

theorem emit_get {rb : Runtime} {action : Action} {m : Val × Record} {r : Record}
    (h : emit rb action = some m) (hrecord : action.record? = some r) {key : Text}
    (hkey : key ≠ "timestamp".toList) : get m.2 key = get r key := by
  cases action with
  | push new_rec =>
      obtain rfl := Option.some.inj hrecord
      exact stampRecord_get h hkey
  | sample job_key time new_mem dup_rec =>
      obtain rfl := Option.some.inj hrecord
      obtain ⟨x, -, h⟩ := Option.bind_eq_some_iff.mp h
      exact stampRecord_get h hkey
  | raise => exact absurd hrecord (Option.some_ne_none r).symm

/-- In every call the child has records of its own, and in each of them `job` under the
keys for a job, and nothing else. -/
structure Decodes (rb : Runtime) (time : Int) (child : Val) (job : List (Text × Text)) :
    Prop where
  notFatal : NotFatal rb time child
  records : ∀ cur_ts jobs past future front back record out,
    Carries rb (time, record) (front ++ child :: back) →
    (process rb cur_ts jobs (past ++ (time, record) :: future)).2 = some out →
      ∃ before own after, out = before ++ own ++ after ∧
        (process rb cur_ts jobs [childEvent time child]).2 = some own ∧ own ≠ [] ∧
        ∀ m ∈ own, ∀ key ∈ jobKeys, get m.2 key = (get job key).map Val.str

/-- The records of a child that are emitted in a call are those of a call for it alone. -/
theorem exists_own_records {rb : Runtime} {cur_ts time : Int} {jobs : Hash Text Job}
    {past future : List Event} {front back : List Val} {child : Val} {record : Record}
    {out : List (Val × Record)} (hcarries : Carries rb (time, record) (front ++ child :: back))
    (h : (process rb cur_ts jobs (past ++ (time, record) :: future)).2 = some out) :
    ∃ before own after, out = before ++ own ++ after ∧
      (childActions rb time child).mapM (emit rb) = some own := by
  rw [process_emits, List.flatMap_append, List.flatMap_cons, eventActions_of_carries hcarries,
    List.flatMap_append, List.flatMap_cons] at h
  obtain ⟨before, _, -, hevent, rfl⟩ := mapM_append_some h
  obtain ⟨_, after, hchildren, -, rfl⟩ := mapM_append_some hevent
  obtain ⟨before', _, -, hrest, rfl⟩ := mapM_append_some hchildren
  obtain ⟨own, after', hown, -, rfl⟩ := mapM_append_some hrest
  refine ⟨before ++ before', own, after' ++ after, ?_, hown⟩
  simp only [List.append_assoc]

theorem nodup_of_layout {jobinfo : Text} {job : List (Text × Text)} (h : Layout jobinfo job) :
    (job.map Prod.fst).Nodup := by
  cases h with
  | user => exact nodup_job [_, _, _]
  | ranks => exact nodup_job [_, _, _, _]
  | probsize => exact nodup_job [_, _, _, _, _, _]

theorem jobOf_of_layout {jobinfo : Text} {job : List (Text × Text)} (h : Layout jobinfo job) :
    (jobOf jobinfo).isSome := by
  rw [jobOf, jobInfo_of_layout h]
  cases h with
  | user => rfl
  | ranks => rfl
  | probsize => rfl

theorem allEmitted_of_node {c : Child} (hname : c.finalName ∈ nodeNames)
    (hmem : c.finalName = "mem".toList →
      (fetch c.fields "used_percent".toList).asNum.isSome) (rb : Runtime) (time : Int) :
    AllEmitted rb (c.actions rb time) := by
  rw [actions_emitted_iff]
  intro _
  have hlisted : ∀ name ∈ nodeNames, name ≠ "snap_pavilion_parser".toList ∧
      name ∈ ["infiniband", "cpu", "mem", "temp", "snap_pavilion_parser"].map
        String.toList := by decide
  constructor
  · exact hmem
  · exact fun h => absurd h (hlisted _ hname).1
  · exact fun h => absurd (hlisted _ hname).2 h

/-- The job of a layout is in all records of a child about a node. -/
theorem decodes_of_layout {child : Val} {entries tags fields : Record} {name host jobinfo : Text}
    {job : List (Text × Text)} (haccepted : Accepted child entries tags name host)
    (hname : name ∈ nodeNames) (hfields : fetch entries "fields".toList = .hash fields)
    (hmessage : hasKey fields "message".toList = false)
    (hmem : name = "mem".toList → (fetch fields "used_percent".toList).asNum.isSome)
    (hjobinfo : fetch tags "jobinfo".toList = .str jobinfo) (hlayout : Layout jobinfo job)
    (rb : Runtime) (time : Int) : Decodes rb time child job := by
  have hinfo := jobInfo_of_layout hlayout
  have hnodup : ((jobInfo jobinfo).map Prod.fst).Nodup := by
    rw [hinfo]
    exact nodup_of_layout hlayout
  have hjob := jobOf_of_layout hlayout
  have hnone : get fields "message".toList = none := by
    rw [← Option.not_isSome_iff_eq_none, Bool.not_eq_true]
    exact hmessage
  have hharmless : HarmlessMessage jobinfo fields := by
    intro message hsome
    exact absurd (hnone.symm.trans hsome) (Option.some_ne_none message).symm
  let c : Child := ⟨name, tags, fields, jobinfo, host, fetch entries "timestamp".toList,
    messageText fields⟩
  have hread : readChild entries name = some c :=
    (readChild_of_accepted haccepted c).mpr
      ⟨jobinfo, fields, hjobinfo, hfields, hharmless, rfl⟩
  have hquiet : c.message = none := by
    show (get fields "message".toList).bind Val.asText = none
    rw [hnone]
    rfl
  obtain ⟨hfinal, hnewRec⟩ := get_newRec (c := c) hquiet hname hnodup
  have hactions : childActions rb time child = c.actions rb time := by
    rw [childActions_of_accepted haccepted, namedActions, hread]
  obtain ⟨hne, hsame⟩ := actions_sameJob (c := c) hjob (hfinal ▸ hname) rb time
  have hemitted : AllEmitted rb (childActions rb time child) := by
    rw [hactions]
    exact allEmitted_of_node (hfinal ▸ hname) (fun h => hmem (hfinal.symm.trans h)) rb time
  constructor
  · exact notFatal_iff_allEmitted.mpr hemitted
  · intro cur_ts jobs past future front back record out hcarries hout
    obtain ⟨before, own, after, rfl, hown⟩ := exists_own_records hcarries hout
    refine ⟨before, own, after, rfl, ?_, ?_, fun m hm key hkey => ?_⟩
    · rw [process_emits, List.flatMap_singleton, eventActions_childEvent, hown]
    · rw [hactions] at hown
      exact ne_nil_of_mapM hown hne
    · obtain ⟨action, haction, hemit⟩ := mem_of_mapM hown m hm
      rw [hactions] at haction
      obtain ⟨r, hrecord, hr⟩ := hsame action haction
      have hkey' : key ≠ "timestamp".toList := by
        rintro rfl
        exact absurd hkey (by decide)
      rw [emit_get hemit hrecord hkey', hr key hkey, hnewRec key hkey]
      exact congrArg (fun info => (get info key).map Val.str) hinfo

def sizedTag : Record :=
  [("jobinfo".toList, .str ("jobid=".toList ++ "7".toList ++ " name=".toList ++ "name".toList ++
    " user=".toList ++ "u".toList ++ " ranks=".toList ++ "2".toList ++ " version=".toList ++
    "ranks".toList ++ " probsize=".toList ++ "8".toList))]

/-- Tokens that are keys of the layout. -/
theorem decodes_of_layout_mem :
    Decodes integerRuntime 0
      (.hash (nodeChild "mem".toList sizedTag [("used_percent".toList, .num 42)]))
      [("jobid".toList, "7".toList), ("job_name".toList, "name".toList),
        ("user".toList, "u".toList), ("ranks".toList, "2".toList),
        ("version".toList, "ranks".toList), ("probsize".toList, "8".toList)] :=
  decodes_of_layout (accepted_nodeChild (by decide) sizedTag _) (by decide) rfl rfl
    (fun _ => rfl) rfl
    (.probsize ⟨by decide, by decide, by decide⟩ ⟨by decide, by decide, by decide⟩
      ⟨by decide, by decide, by decide⟩ ⟨by decide, by decide, by decide⟩
      ⟨by decide, by decide, by decide⟩ ⟨by decide, by decide, by decide⟩)
    integerRuntime 0

end DaapLog.JobinfoLayouts
