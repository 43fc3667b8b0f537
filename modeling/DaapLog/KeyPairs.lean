import DaapLog.ResultsParser

/-!
The key/value pairs of a match. The size of the output vector decides what
`pcre_exec` returns: one more than the number of groups, or zero when a match has
more groups than the vector has room for.
-/

namespace DaapLog.KeyPairs

open DaapLog.CStrings
open DaapLog.TableRecognition
open DaapLog.ResultsParser

/-- The number of elements of the output vector; a third of it is work space, and each
group takes two of the others. -/
def OVECCOUNT : Nat := 30

/-- The loop `for (j = 0; j < ret; j++)` from one value of `j` on. The whole match and a
last key without a value are passed over; a pair advances `j` by two. -/
def sendGroups (line : Text) (ovector : List Int) (ret : Int) (j : Nat) : List Event :=
  if j < ret then
    if j = 0 then sendGroups line ovector ret (j + 1)
    else if j + 1 ≥ ret then sendGroups line ovector ret (j + 1)
    else .send (group line ovector j) (group line ovector (j + 1)) ::
      sendGroups line ovector ret (j + 2)
  else []
termination_by (ret - j).toNat

theorem sendGroups_of_pos (line : Text) (ovector : List Int) (ret : Int) {j : Nat}
    (hj : 0 < j) :
    sendGroups line ovector ret j =
      sendPairs ((List.range' j (ret.toNat - j)).map (group line ovector)) := by
  fun_induction sendGroups line ovector ret j with
  | case1 hlt ih => exact absurd hj (Nat.lt_irrefl 0)
  | case2 j hlt hzero hlast ih =>
      have hone : ret.toNat - j = 1 := by omega
      have hend : ret.toNat - (j + 1) = 0 := by omega
      rw [ih (Nat.succ_pos j), hone, hend]
      rfl
  | case3 j hlt hzero hmore ih =>
      have hcount : ret.toNat - j = ret.toNat - (j + 2) + 1 + 1 := by omega
      rw [ih (Nat.succ_pos _), hcount, List.range'_succ, List.range'_succ]
      rfl
  | case4 j hge =>
      have hnone : ret.toNat - j = 0 := by omega
      rw [hnone]
      rfl

theorem sendGroups_zero (line : Text) (ovector : List Int) (ret : Int) :
    sendGroups line ovector ret 0 =
      sendPairs ((List.range ret.toNat).tail.map (group line ovector)) := by
  by_cases hret : 0 < ret
  · have hpos : ((0 : Nat) : Int) < ret := hret
    have hcount : ret.toNat = ret.toNat - 1 + 1 := by omega
    have hrange : (List.range ret.toNat).tail = List.range' 1 (ret.toNat - 1) := by
      rw [hcount, List.range_eq_range', List.range'_succ]
      rfl
    rw [sendGroups, if_pos hpos, if_pos rfl, sendGroups_of_pos _ _ _ Nat.one_pos, hrange]
  · have hstop : ¬((0 : Nat) : Int) < ret := hret
    have hnone : ret.toNat = 0 := by omega
    rw [sendGroups, if_neg hstop, hnone]
    rfl

theorem sendPairs_map_range' (f : Nat → Text) (start count : Nat) :
    sendPairs ((List.range' start count).map f) =
      (List.range (count / 2)).map fun k => .send (f (start + 2 * k)) (f (start + 2 * k + 1)) := by
  induction count using Nat.strong_induction_on generalizing start with
  | h count ih =>
      rcases count with _ | _ | count
      · rfl
      · rfl
      · have hhalf : (count + 1 + 1) / 2 = count / 2 + 1 := by omega
        rw [List.range'_succ, List.range'_succ, List.map_cons, List.map_cons, sendPairs,
          ih count (by omega), hhalf, List.range_succ_eq_map, List.map_cons, List.map_map]
        congr 1
        refine List.map_congr_left fun k _ => ?_
        have hindex : start + 1 + 1 + 2 * k = start + 2 * (k + 1) := by ring
        rw [Function.comp_apply, hindex]

/-- `pcre_exec` has matched with every group set: the offsets of the whole match and of the
groups behind it are in the output vector as far as they fit, and the result is their
number, or zero when they do not fit. -/
structure Matched (result : Int × List Int) (whole : Nat × Nat) (groups : List (Nat × Nat)) :
    Prop where
  ret : result.1 = if groups.length < OVECCOUNT / 3 then (groups.length + 1 : Int) else 0
  filled : ∀ j offsets, (whole :: groups)[j]? = some offsets → j < OVECCOUNT / 3 →
    result.2.getD (2 * j) (-1) = offsets.1 ∧ result.2.getD (2 * j + 1) (-1) = offsets.2

/-- The text between two offsets. -/
def between (line : Text) (offsets : Nat × Nat) : Text :=
  (line.drop offsets.1).take (offsets.2 - offsets.1)

/-- The number of groups with room in the output vector. -/
def fitting (groups : List (Nat × Nat)) : Nat := min groups.length (OVECCOUNT / 3 - 1)

/-- The groups that fit, two at a time. -/
def pairsOf (line : Text) (groups : List (Nat × Nat)) : List Event :=
  (List.range (fitting groups / 2)).map fun k =>
    .send (between line (groups.getD (2 * k) (0, 0)))
      (between line (groups.getD (2 * k + 1) (0, 0)))

def isSend : Event → Bool
  | .exec _ _ => false
  | .send _ _ => true

/-- What is sent between a call of `pcre_exec` and the next one. -/
def sentFor (i : Nat) (line : Text) (events : List Event) : List Event :=
  ((events.dropWhile (· ≠ .exec i line)).tail).takeWhile isSend

/-- The line sends the pairs of the regex's match, in order and once each. -/
def SendsPairs {ρ : Type} (p : Parser ρ) (s : ParserState) (i : Nat) (line : Text)
    (groups : List (Nat × Nat)) : Prop :=
  ∃ r, parseLine p s line = some r ∧ sentFor i line r.2 = pairsOf line groups

theorem group_of_matched {result : Int × List Int} {whole : Nat × Nat}
    {groups : List (Nat × Nat)} (h : Matched result whole groups) (line : Text) {j : Nat}
    (hj : j < fitting groups) :
    group line result.2 (j + 1) = between line (groups.getD j (0, 0)) := by
  have hlength : j < groups.length := lt_of_lt_of_le hj (min_le_left _ _)
  have hroom : j + 1 < OVECCOUNT / 3 := by
    have hfit : j < OVECCOUNT / 3 - 1 := lt_of_lt_of_le hj (min_le_right _ _)
    omega
  have hoffsets : (whole :: groups)[j + 1]? = some (groups.getD j (0, 0)) := by
    rw [List.getElem?_cons_succ, List.getD_eq_getElem _ _ hlength]
    exact List.getElem?_eq_getElem hlength
  obtain ⟨hstart, hstop⟩ := h.filled (j + 1) _ hoffsets hroom
  rw [group, between, hstart, hstop]
  congr 1
  omega

theorem sendGroups_of_matched {result : Int × List Int} {whole : Nat × Nat}
    {groups : List (Nat × Nat)} (h : Matched result whole groups) (line : Text)
    (hfit : groups.length < OVECCOUNT / 3) :
    sendGroups line result.2 result.1 0 = pairsOf line groups := by
  have hret : result.1.toNat = groups.length + 1 := by
    rw [h.ret, if_pos hfit]
    omega
  have hall : fitting groups = groups.length := by
    rw [fitting]
    omega
  have hpos : ((0 : Nat) : Int) < result.1 := by omega
  have hbehind : result.1.toNat - 1 = groups.length := by omega
  rw [sendGroups, if_pos hpos, if_pos rfl, sendGroups_of_pos _ _ _ Nat.one_pos,
    sendPairs_map_range', hbehind, pairsOf, hall]
  refine List.map_congr_left fun k hk => ?_
  have hk : k < groups.length / 2 := List.mem_range.mp hk
  have hkey : 0 + 1 + 2 * k = 2 * k + 1 := by ring
  rw [hkey, group_of_matched h line (by omega), group_of_matched h line (by omega)]

theorem sendGroups_of_overflow {result : Int × List Int} {whole : Nat × Nat}
    {groups : List (Nat × Nat)} (h : Matched result whole groups) (line : Text)
    (hmany : ¬groups.length < OVECCOUNT / 3) : sendGroups line result.2 result.1 0 = [] := by
  have hret : ¬(0 : Nat) < result.1 := by
    rw [h.ret, if_neg hmany]
    simp
  rw [sendGroups, if_neg hret]

theorem tryKeys_eq {ρ : Type} (p : Parser ρ) (line : Text) :
    tryKeys p line = p.key_regexes.zipIdx.flatMap fun r =>
      .exec r.2 line :: sendGroups line (p.pcre_exec r.1 line).2 (p.pcre_exec r.1 line).1 0 := by
  unfold tryKeys
  simp only [sendGroups_zero]

theorem isSend_of_mem_sendPairs {texts : List Text} {event : Event}
    (h : event ∈ sendPairs texts) : isSend event = true := by
  fun_induction sendPairs texts with
  | case1 key val rest ih =>
      rcases List.mem_cons.mp h with rfl | h
      · rfl
      · exact ih h
  | case2 => exact absurd h List.not_mem_nil

/-- Calls for different indices are apart, so each index has what it sent to itself. -/
theorem sentFor_flatMap {ρ : Type} (line : Text) (sends : ρ → List Event)
    (hsends : ∀ r, ∀ event ∈ sends r, isSend event = true) (regexes : List ρ) (n i : Nat)
    {regex : ρ} (hregex : regexes[i]? = some regex) :
    sentFor (n + i) line
        ((regexes.zipIdx n).flatMap fun r => .exec r.2 line :: sends r.1) = sends regex := by
  induction regexes generalizing n i with
  | nil => exact absurd hregex (by simp)
  | cons first regexes ih =>
      rw [List.zipIdx_cons, List.flatMap_cons, sentFor]
      rcases i with _ | i
      · obtain rfl : first = regex := Option.some.inj hregex
        have hrest : ((regexes.zipIdx (n + 1)).flatMap fun r =>
            Event.exec r.2 line :: sends r.1).takeWhile isSend = [] := by
          rcases regexes with _ | ⟨second, regexes⟩
          · rfl
          · rfl
        rw [List.cons_append, List.dropWhile_cons_of_neg (by simp), List.tail_cons,
          List.takeWhile_append_of_pos (hsends first), hrest, List.append_nil]
      · have hskip : ∀ event ∈ Event.exec n line :: sends first,
            decide (event ≠ .exec (n + (i + 1)) line) = true := by
          intro event hevent
          rw [decide_eq_true_eq]
          rintro rfl
          rcases List.mem_cons.mp hevent with heq | hmem
          · injection heq with hindex
            omega
          · exact absurd (hsends first _ hmem) (by simp [isSend])
        rw [List.dropWhile_append_of_pos hskip]
        have hindex : n + (i + 1) = n + 1 + i := by ring
        rw [hindex]
        exact ih (n + 1) i hregex

theorem sentFor_parseLine {ρ : Type} {p : Parser ρ} {s : ParserState} {line : Text}
    (hkeys : (recognize p.tables s.toRecognizer line).2 = .keys) {i : Nat} {regex : ρ}
    (hregex : p.key_regexes[i]? = some regex) :
    ∃ r, parseLine p s line = some r ∧ sentFor i line r.2 =
      sendGroups line (p.pcre_exec regex line).2 (p.pcre_exec regex line).1 0 := by
  refine ⟨(⟨(recognize p.tables s.toRecognizer line).1, s.columns⟩, tryKeys p line), ?_, ?_⟩
  · simp only [parseLine, hkeys]
  · have hsent := sentFor_flatMap line
      (fun r => sendGroups line (p.pcre_exec r line).2 (p.pcre_exec r line).1 0)
      (fun r event hevent => by
        rw [sendGroups_zero] at hevent
        exact isSend_of_mem_sendPairs hevent) p.key_regexes 0 i hregex
    rw [Nat.zero_add] at hsent
    rw [tryKeys_eq]
    exact hsent

/-- From any state, a regex's match on a line that reaches the regexes sends all its pairs
exactly when the output vector has room for all its groups. -/
theorem sendsPairs_iff {ρ : Type} {p : Parser ρ} {s : ParserState} {line : Text}
    (hkeys : (recognize p.tables s.toRecognizer line).2 = .keys) {i : Nat} {regex : ρ}
    (hregex : p.key_regexes[i]? = some regex) {whole : Nat × Nat} {groups : List (Nat × Nat)}
    (hmatch : Matched (p.pcre_exec regex line) whole groups) :
    SendsPairs p s i line groups ↔ groups.length < OVECCOUNT / 3 := by
  obtain ⟨after, hline, hsent⟩ := sentFor_parseLine hkeys hregex
  constructor
  · rintro ⟨after', hline', hpairs⟩
    obtain rfl := Option.some.inj (hline.symm.trans hline')
    by_contra hmany
    rw [hsent, sendGroups_of_overflow hmatch line hmany] at hpairs
    have hfour : fitting groups / 2 = 4 := by
      have hroom : OVECCOUNT / 3 = 10 := rfl
      rw [fitting]
      omega
    rw [pairsOf, hfour] at hpairs
    exact absurd (congrArg List.length hpairs) (by simp)
  · intro hfit
    exact ⟨after, hline, hsent.trans (sendGroups_of_matched hmatch line hfit)⟩

/-- The offsets of `n` groups of one character with a character in front of each but the
first. -/
def apart (n : Nat) : List (Nat × Nat) := (List.range n).map fun k => (2 * k, 2 * k + 1)

/-- One regex `^(.).(.).(.)..` of `n` groups. -/
def charsParser (n : Nat) : Parser Unit :=
  { tables := []
    key_regexes := [()]
    pcre_exec := fun _ line =>
      if line.length + 1 < 2 * n then (-1, [])
      else (if n < 10 then n + 1 else 0,
        (((0, 2 * n - 1) :: apart n).take 10).flatMap fun o => [(o.1 : Int), (o.2 : Int)]) }

theorem matched_chars_two : Matched ((charsParser 2).pcre_exec () "a=1") (0, 3) (apart 2) where
  ret := by decide
  filled := by
    intro j offsets hoffsets hroom
    have hj : j < 3 := (List.getElem?_eq_some_iff.mp hoffsets).1
    interval_cases j <;> obtain rfl := Option.some.inj hoffsets <;> decide

theorem sendsPairs_iff_two :
    SendsPairs (charsParser 2) ⟨{}, fun _ => []⟩ 0 "a=1" (apart 2) ↔
      (apart 2).length < OVECCOUNT / 3 :=
  sendsPairs_iff (by decide) rfl matched_chars_two

theorem matched_chars_ten :
    Matched ((charsParser 10).pcre_exec () "a=1 b=2 c=3 d=4 e=5") (0, 19) (apart 10) where
  ret := by decide
  filled := by
    intro j offsets hoffsets hroom
    have hroom : j < 10 := hroom
    interval_cases j <;> obtain rfl := Option.some.inj hoffsets <;> decide

/-- Of five pairs on a line, of which four fit, none is sent. -/
theorem not_sendsPairs_ten :
    Matched ((charsParser 10).pcre_exec () "a=1 b=2 c=3 d=4 e=5") (0, 19) (apart 10) ∧
      (recognize (charsParser 10).tables {} "a=1 b=2 c=3 d=4 e=5").2 = .keys ∧
      ¬SendsPairs (charsParser 10) ⟨{}, fun _ => []⟩ 0 "a=1 b=2 c=3 d=4 e=5" (apart 10) := by
  refine ⟨matched_chars_ten, by decide, ?_⟩
  rintro ⟨after, hline, hpairs⟩
  obtain rfl := Option.some.inj hline
  exact absurd hpairs (by decide)

end DaapLog.KeyPairs
