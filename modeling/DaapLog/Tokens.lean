import Mathlib

/-!
Tokens of a list, as `strtok` finds them: the longest parts without a delimiter. The
elements may be characters or anything that carries one, such as a character with its
place, so that a token can be told from an equal one elsewhere. Pieces of a list are the
parts between the occurrences of a whole separator.
-/

namespace DaapLog.Tokens

variable {α β : Type*} {d : α → Bool}

def tokens (d : α → Bool) (l : List α) : List (List α) :=
  (l.splitOnP d).filter fun token => !token.isEmpty

/-- No delimiter is in the list. -/
def Free (d : α → Bool) (l : List α) : Prop := ∀ a ∈ l, d a = false

theorem Free.nil : Free d [] := fun _ h => absurd h List.not_mem_nil

theorem Free.append {l m : List α} (hl : Free d l) (hm : Free d m) : Free d (l ++ m) :=
  List.forall_mem_append.mpr ⟨hl, hm⟩

theorem Free.sublist {l m : List α} (hm : Free d m) (h : l.Sublist m) : Free d l :=
  fun a ha => hm a (h.subset ha)

@[simp]
theorem tokens_nil : tokens d [] = [] := rfl

theorem tokens_append_cons (l : List α) {a : α} (ha : d a = true) (m : List α) :
    tokens d (l ++ a :: m) = tokens d l ++ tokens d m := by
  rw [tokens, List.splitOnP_append_cons l m ha, List.filter_append, tokens, tokens]

theorem tokens_of_free {l : List α} (h : Free d l) (hne : l ≠ []) : tokens d l = [l] := by
  rw [tokens, List.splitOnP_eq_singleton h, List.filter_cons_of_pos (by simp [hne]),
    List.filter_nil]

theorem split_induction {motive : List α → Prop} (nil : motive [])
    (free : ∀ l, Free d l → l ≠ [] → motive l)
    (delimiter : ∀ l a m, d a = true → motive l → motive m → motive (l ++ a :: m))
    (l : List α) : motive l := by
  have hfree (run : List α) (hrun : Free d run) : motive run := by
    rcases eq_or_ne run [] with rfl | hne
    · exact nil
    · exact free run hrun hne
  suffices h : ∀ run, Free d run → motive (run ++ l) from h [] Free.nil
  induction l with
  | nil =>
      intro run hrun
      rw [List.append_nil]
      exact hfree run hrun
  | cons a l ih =>
      intro run hrun
      cases ha : d a with
      | true => exact delimiter run a l ha (hfree run hrun) (ih [] Free.nil)
      | false =>
          have hmore := ih (run ++ [a]) (hrun.append (List.forall_mem_singleton.mpr ha))
          rwa [List.append_assoc] at hmore

theorem mem_tokens {l w : List α} (h : w ∈ tokens d l) : w ≠ [] ∧ Free d w ∧ w <:+: l := by
  induction l using split_induction (d := d) with
  | nil => exact absurd h List.not_mem_nil
  | free l hl hne =>
      rw [tokens_of_free hl hne, List.mem_singleton] at h
      rw [h]
      exact ⟨hne, hl, List.infix_rfl⟩
  | delimiter l a m ha ihl ihm =>
      rw [tokens_append_cons l ha, List.mem_append] at h
      rcases h with h | h
      · obtain ⟨hne, hfree, hinfix⟩ := ihl h
        exact ⟨hne, hfree, hinfix.trans (List.prefix_append _ _).isInfix⟩
      · obtain ⟨hne, hfree, hinfix⟩ := ihm h
        have hsuffix : m <:+ l ++ a :: m := (List.suffix_cons a m).trans (List.suffix_append _ _)
        exact ⟨hne, hfree, hinfix.trans hsuffix.isInfix⟩

theorem tokens_congr {d' : α → Bool} {l : List α} (h : ∀ a ∈ l, d a = d' a) :
    tokens d l = tokens d' l := by
  induction l using split_induction (d := d) with
  | nil => rfl
  | free l hl hne =>
      have hl' : Free d' l := fun a ha => (h a ha).symm.trans (hl a ha)
      rw [tokens_of_free hl hne, tokens_of_free hl' hne]
  | delimiter l a m ha ihl ihm =>
      rw [List.forall_mem_append, List.forall_mem_cons] at h
      rw [tokens_append_cons l ha, tokens_append_cons l (h.2.1.symm.trans ha), ihl h.1, ihm h.2.2]

theorem map_tokens (f : α → β) (d : β → Bool) (l : List α) :
    (tokens (fun a => d (f a)) l).map (List.map f) = tokens d (l.map f) := by
  induction l using split_induction (d := fun a => d (f a)) with
  | nil => rfl
  | free l hl hne =>
      have hmap : Free d (l.map f) := List.forall_mem_map.mpr hl
      rw [tokens_of_free hl hne, tokens_of_free hmap (by simpa using hne), List.map_singleton]
  | delimiter l a m ha ihl ihm =>
      rw [tokens_append_cons l ha, List.map_append, List.map_append, List.map_cons,
        tokens_append_cons _ ha, ihl, ihm]

theorem flatMap_tokens (d d' : α → Bool) (l : List α) :
    (tokens d l).flatMap (tokens d') = tokens (fun a => d a || d' a) l := by
  induction l using split_induction (d := d) with
  | nil => rfl
  | free l hl hne =>
      rw [tokens_of_free hl hne, List.flatMap_singleton]
      exact tokens_congr fun a ha => by simp [hl a ha]
  | delimiter l a m ha ihl ihm =>
      rw [tokens_append_cons l ha, List.flatMap_append, ihl, ihm,
        tokens_append_cons (d := fun a => d a || d' a) l (by simp [ha])]

@[simp]
theorem flatten_tokens (d : α → Bool) (l : List α) :
    (tokens d l).flatten = l.filter fun a => !d a := by
  induction l using split_induction (d := d) with
  | nil => rfl
  | free l hl hne =>
      rw [tokens_of_free hl hne, List.flatten_singleton]
      exact (List.filter_eq_self.mpr fun a ha => by simp [hl a ha]).symm
  | delimiter l a m ha ihl ihm =>
      rw [tokens_append_cons l ha, List.flatten_append, ihl, ihm, List.filter_append,
        List.filter_cons_of_neg (by simp [ha])]

theorem flatten_tokens_sublist (d : α → Bool) (l : List α) : (tokens d l).flatten.Sublist l := by
  rw [flatten_tokens]
  exact List.filter_sublist

theorem tokens_delimiters_append {delims : List α} (h : ∀ a ∈ delims, d a = true) (l : List α) :
    tokens d (delims ++ l) = tokens d l := by
  induction delims with
  | nil => rfl
  | cons a delims ih =>
      rw [List.forall_mem_cons] at h
      have hfirst := tokens_append_cons [] h.1 (delims ++ l)
      rw [tokens_nil, List.nil_append, List.nil_append] at hfirst
      exact hfirst.trans (ih h.2)

theorem tokens_append_eq_iff {l m : List α} :
    tokens d (l ++ m) = tokens d l ↔ ∀ a ∈ m, d a = true := by
  constructor
  · intro h
    have hflatten := congrArg List.flatten h
    rw [flatten_tokens, flatten_tokens, List.filter_append] at hflatten
    have hnone := List.filter_eq_nil_iff.mp (List.append_right_eq_self.mp hflatten)
    exact fun a ha => by simpa using hnone a ha
  · intro hm
    induction m using List.reverseRecOn with
    | nil => rw [List.append_nil]
    | append_singleton m a ih =>
        rw [← List.append_assoc, tokens_append_cons (l ++ m) (hm a (by simp)) [], tokens_nil,
          List.append_nil]
        exact ih fun b hb => hm b (List.mem_append_left _ hb)

theorem tokens_of_free_eq_filter {l : List α} (h : Free d l) :
    tokens d l = [l].filter fun part => !part.isEmpty := by
  rw [tokens, List.splitOnP_eq_singleton h]

theorem tokens_intercalate_concat {sep : List α} (hsep : sep ≠ [])
    (hdelims : ∀ a ∈ sep, d a = true) {parts : List (List α)} (hparts : ∀ part ∈ parts, Free d part)
    (l : List α) :
    tokens d (sep.intercalate (parts ++ [l])) =
      (parts.filter fun part => !part.isEmpty) ++ tokens d l := by
  induction parts with
  | nil => rw [List.nil_append, List.intercalate_singleton, List.filter_nil, List.nil_append]
  | cons part parts ih =>
      rw [List.forall_mem_cons] at hparts
      obtain ⟨a, more, rfl⟩ := List.exists_cons_of_ne_nil hsep
      rw [List.forall_mem_cons] at hdelims
      rw [List.cons_append, List.intercalate_cons_of_ne_nil (by simp), List.append_assoc,
        List.cons_append, tokens_append_cons part hdelims.1, tokens_delimiters_append hdelims.2,
        ih hparts.2, tokens_of_free_eq_filter hparts.1, ← List.append_assoc, ← List.filter_append,
        List.singleton_append]

theorem intercalate_concat_append (sep : List α) (parts : List (List α)) (l m : List α) :
    sep.intercalate (parts ++ [l]) ++ m = sep.intercalate (parts ++ [l ++ m]) := by
  induction parts with
  | nil => rw [List.nil_append, List.nil_append, List.intercalate_singleton,
      List.intercalate_singleton]
  | cons part parts ih =>
      rw [List.cons_append, List.cons_append, List.intercalate_cons_of_ne_nil (by simp),
        List.intercalate_cons_of_ne_nil (by simp), List.append_assoc, ih]

theorem suffix_intercalate_concat (sep : List α) (parts : List (List α)) (l : List α) :
    l <:+ sep.intercalate (parts ++ [l]) :=
  ⟨sep.intercalate (parts ++ [[]]), intercalate_concat_append sep parts [] l⟩

theorem tokens_intercalate {sep : List α} (hsep : sep ≠ []) (hdelims : ∀ a ∈ sep, d a = true)
    {parts : List (List α)} (hparts : ∀ part ∈ parts, Free d part) :
    tokens d (sep.intercalate parts) = parts.filter fun part => !part.isEmpty := by
  rcases List.eq_nil_or_concat' parts with rfl | ⟨parts, part, rfl⟩
  · rfl
  · rw [List.forall_mem_append, List.forall_mem_singleton] at hparts
    rw [tokens_intercalate_concat hsep hdelims hparts.1, tokens_of_free_eq_filter hparts.2,
      List.filter_append]

section LastRun

/-- A list that is empty or ends with a delimiter. -/
def Closed (d : α → Bool) (l : List α) : Prop := l = [] ∨ ∃ m a, l = m ++ [a] ∧ d a = true

theorem exists_last_run (d : α → Bool) (l : List α) :
    ∃ front run, l = front ++ run ∧ Closed d front ∧ Free d run := by
  induction l using split_induction (d := d) with
  | nil => exact ⟨[], [], rfl, .inl rfl, Free.nil⟩
  | free l hl hne => exact ⟨[], l, rfl, .inl rfl, hl⟩
  | delimiter l a m ha ihl ihm =>
      obtain ⟨front, run, rfl, hfront, hrun⟩ := ihm
      refine ⟨l ++ a :: front, run, by simp, .inr ?_, hrun⟩
      rcases hfront with rfl | ⟨m, b, rfl, hb⟩
      · exact ⟨l, a, rfl, ha⟩
      · exact ⟨l ++ a :: m, b, by simp, hb⟩

theorem Closed.tokens_append {front : List α} (h : Closed d front) (m : List α) :
    tokens d (front ++ m) = tokens d front ++ tokens d m := by
  rcases h with rfl | ⟨l, a, rfl, ha⟩
  · rfl
  · rw [tokens_append_cons l ha [], List.append_assoc, List.singleton_append,
      tokens_append_cons l ha m, tokens_nil, List.append_nil]

theorem Closed.not_suffix {front w : List α} (h : Closed d front) (hw : w ∈ tokens d front) :
    ¬w <:+ front := by
  obtain ⟨hne, hfree, -⟩ := mem_tokens hw
  intro hsuffix
  rcases h with rfl | ⟨l, a, rfl, ha⟩
  · exact hne (List.suffix_nil.mp hsuffix)
  · have hlast := hsuffix.getLast hne
    rw [List.getLast_concat] at hlast
    have hfalse := hfree _ (List.getLast_mem hne)
    rw [hlast, ha] at hfalse
    exact absurd hfalse (by decide)

end LastRun

section Prolonged

/-- Tokens behind the first ones, of which the last may be longer than it was. -/
def Prolongs (xs ys : List (List α)) : Prop :=
  (∃ more, ys = xs ++ more) ∨
    ∃ front run extra more, xs = front ++ [run] ∧ ys = front ++ (run ++ extra) :: more

theorem exists_first_run (d : α → Bool) (l : List α) :
    Free d l ∨ ∃ run a rest, l = run ++ a :: rest ∧ Free d run ∧ d a = true := by
  induction l with
  | nil => exact .inl Free.nil
  | cons b l ih =>
      cases hb : d b with
      | true => exact .inr ⟨[], b, l, rfl, Free.nil, hb⟩
      | false =>
          rcases ih with hfree | ⟨run, a, rest, rfl, hrun, ha⟩
          · exact .inl (List.forall_mem_cons.mpr ⟨hb, hfree⟩)
          · exact .inr ⟨b :: run, a, rest, rfl, List.forall_mem_cons.mpr ⟨hb, hrun⟩, ha⟩

theorem tokens_free_append {run : List α} (hrun : Free d run) (hne : run ≠ []) (l : List α) :
    ∃ extra more, tokens d (run ++ l) = (run ++ extra) :: more := by
  rcases exists_first_run d l with hfree | ⟨extra, a, rest, rfl, hextra, ha⟩
  · exact ⟨l, [], tokens_of_free (hrun.append hfree) (by simp [hne])⟩
  · refine ⟨extra, tokens d rest, ?_⟩
    rw [← List.append_assoc, tokens_append_cons _ ha,
      tokens_of_free (hrun.append hextra) (by simp [hne]), List.singleton_append]

/-- What follows a run is in one token with it if and only if all of it that is no delimiter
stands together behind the run. -/
theorem tokens_append_eq_singleton_iff (run : List α) {l : List α} (hrun : Free d run)
    (hstart : run = [] → ∀ a ∈ l.head?, d a = false) :
    tokens d (run ++ l) = [run ++ l.filter fun a => !d a] ↔
      (run ++ l.filter fun a => !d a) ≠ [] ∧ (l.filter fun a => !d a) <+: l := by
  constructor
  · intro h
    have hmem : (run ++ l.filter fun a => !d a) ∈ tokens d (run ++ l) := by
      rw [h]
      exact List.mem_singleton_self _
    refine ⟨(mem_tokens hmem).1, (List.prefix_append_right_inj run).mp ?_⟩
    rcases exists_first_run d (run ++ l) with hfree | ⟨first, a, rest, hsplit, hfirst, ha⟩
    · rw [List.filter_eq_self.mpr fun a ha => by simp [hfree a (List.mem_append_right _ ha)]]
    · have hne : first ≠ [] := by
        rintro rfl
        rcases run with _ | ⟨b, run⟩
        · have hhead := hstart rfl a (by rw [← List.nil_append l, hsplit]; simp)
          exact absurd (ha.symm.trans hhead) (by decide)
        · obtain ⟨rfl, -⟩ := List.cons.inj hsplit
          exact absurd (ha.symm.trans (hrun b List.mem_cons_self)) (by decide)
      rw [hsplit, tokens_append_cons first ha, tokens_of_free hfirst hne,
        List.singleton_append] at h
      rw [← (List.cons.inj h).1, hsplit]
      exact List.prefix_append _ _
  · rintro ⟨hne, rest, hrest⟩
    have hfilter := congrArg (List.filter fun a => !d a) hrest
    rw [List.filter_append, List.filter_filter] at hfilter
    simp only [Bool.and_self] at hfilter
    have hdelims := List.filter_eq_nil_iff.mp (List.append_right_eq_self.mp hfilter)
    have hfree : Free d (l.filter fun a => !d a) := fun a ha => by
      simpa using (List.mem_filter.mp ha).2
    calc tokens d (run ++ l)
        = tokens d ((run ++ l.filter fun a => !d a) ++ rest) := by
            rw [List.append_assoc, hrest]
      _ = tokens d (run ++ l.filter fun a => !d a) :=
            tokens_append_eq_iff.mpr fun a ha => by simpa using hdelims a ha
      _ = [run ++ l.filter fun a => !d a] := tokens_of_free (hrun.append hfree) hne

theorem prolongs_tokens_append (d : α → Bool) (l m : List α) :
    Prolongs (tokens d l) (tokens d (l ++ m)) := by
  obtain ⟨front, run, rfl, hfront, hrun⟩ := exists_last_run d l
  rw [List.append_assoc, hfront.tokens_append, hfront.tokens_append]
  rcases eq_or_ne run [] with rfl | hne
  · exact .inl ⟨tokens d m, by rw [tokens_nil, List.append_nil, List.nil_append]⟩
  · obtain ⟨extra, more, hmore⟩ := tokens_free_append hrun hne m
    refine .inr ⟨tokens d front, run, extra, more, ?_, ?_⟩
    · rw [tokens_of_free hrun hne]
    · rw [hmore]

theorem Prolongs.length_le {xs ys : List (List α)} (h : Prolongs xs ys) :
    xs.length ≤ ys.length := by
  rcases h with ⟨more, rfl⟩ | ⟨front, run, extra, more, rfl, rfl⟩
  · rw [List.length_append]
    exact Nat.le_add_right _ _
  · simp

theorem Prolongs.take {xs ys : List (List α)} (h : Prolongs xs ys) :
    Prolongs xs (ys.take xs.length) := by
  rcases h with ⟨more, rfl⟩ | ⟨front, run, extra, more, rfl, rfl⟩
  · exact .inl ⟨[], by rw [List.take_left, List.append_nil]⟩
  · refine .inr ⟨front, run, extra, [], rfl, ?_⟩
    rw [List.append_cons front (run ++ extra) more]
    exact List.take_left' (by simp)

theorem Prolongs.flatMap_tokens {xs ys : List (List α)} (h : Prolongs xs ys) (d : α → Bool) :
    Prolongs (xs.flatMap (tokens d)) (ys.flatMap (tokens d)) := by
  rcases h with ⟨more, rfl⟩ | ⟨front, run, extra, more, rfl, rfl⟩
  · exact .inl ⟨more.flatMap (tokens d), List.flatMap_append⟩
  · rw [List.flatMap_append, List.flatMap_append, List.flatMap_singleton, List.flatMap_cons]
    rcases prolongs_tokens_append d run extra with
      ⟨rest, hrest⟩ | ⟨front', run', extra', rest, hrun, hrest⟩
    · exact .inl ⟨rest ++ more.flatMap (tokens d), by rw [hrest]; simp only [List.append_assoc]⟩
    · refine .inr ⟨front.flatMap (tokens d) ++ front', run', extra',
        rest ++ more.flatMap (tokens d), ?_, ?_⟩
      · rw [hrun, List.append_assoc]
      · rw [hrest, List.append_assoc, List.append_assoc, List.cons_append]

theorem Prolongs.getElem? {xs ys : List (List α)} (h : Prolongs xs ys) {i : Nat} {x : List α}
    (hi : xs[i]? = some x) : ∃ y, ys[i]? = some y ∧ x <+: y := by
  have hlength := (List.getElem?_eq_some_iff.mp hi).1
  rcases h with ⟨more, rfl⟩ | ⟨front, run, extra, more, rfl, rfl⟩
  · exact ⟨x, (List.getElem?_append_left hlength).trans hi, List.prefix_rfl⟩
  · rw [List.length_append, List.length_singleton] at hlength
    rcases Nat.lt_succ_iff_lt_or_eq.mp hlength with hlt | rfl
    · rw [List.getElem?_append_left hlt] at hi ⊢
      exact ⟨x, hi, List.prefix_rfl⟩
    · rw [List.getElem?_concat_length] at hi
      obtain rfl := Option.some.inj hi
      refine ⟨run ++ extra, ?_, List.prefix_append _ _⟩
      rw [List.getElem?_append_right le_rfl, Nat.sub_self]
      rfl

end Prolonged

section Distinct

theorem disjoint_of_getElem?_tokens {l : List α} (hnodup : l.Nodup) {i j : Nat} {w x : List α}
    (hw : (tokens d l)[i]? = some w) (hx : (tokens d l)[j]? = some x) (hij : i ≠ j) :
    w.Disjoint x := by
  have hpairwise : (tokens d l).Pairwise List.Disjoint :=
    (List.nodup_flatten.mp (hnodup.sublist (flatten_tokens_sublist d l))).2
  obtain ⟨hi, rfl⟩ := List.getElem?_eq_some_iff.mp hw
  obtain ⟨hj, rfl⟩ := List.getElem?_eq_some_iff.mp hx
  rcases Nat.lt_or_gt_of_ne hij with hlt | hgt
  · exact List.pairwise_iff_getElem.mp hpairwise i j hi hj hlt
  · exact (List.pairwise_iff_getElem.mp hpairwise j i hj hi hgt).symm

end Distinct

section Shortened

variable [DecidableEq α]

/-- What is left of a token when the list loses its last element. -/
def shorten (l w : List α) : Option (List α) :=
  if w <:+ l then (if w.length = 1 then none else some w.dropLast) else some w

/-- Without repeated elements the tokens behind the loss are those of the list, each
with what is left of it. -/
theorem tokens_dropLast {l : List α} (hnodup : l.Nodup) :
    tokens d l.dropLast = (tokens d l).filterMap (shorten l) := by
  obtain ⟨front, run, rfl, hfront, hrun⟩ := exists_last_run d l
  have hkeep (h : ∀ w ∈ tokens d front, ¬w <:+ front ++ run) :
      (tokens d front).filterMap (shorten (front ++ run)) = tokens d front := by
    have hsome (w : List α) (hw : w ∈ tokens d front) : shorten (front ++ run) w = some w :=
      if_neg (h w hw)
    rw [List.filterMap_congr hsome]
    exact List.filterMap_some
  rcases List.eq_nil_or_concat' run with rfl | ⟨init, a, rfl⟩
  · rw [List.append_nil] at hkeep ⊢
    rw [hkeep fun w hw => hfront.not_suffix hw]
    rcases hfront with rfl | ⟨m, b, rfl, hb⟩
    · rfl
    · rw [List.dropLast_concat, tokens_append_cons m hb, tokens_nil, List.append_nil]
  · have hinner (w : List α) (hw : w ∈ tokens d front) : ¬w <:+ front ++ (init ++ [a]) := by
      obtain ⟨hne, -, hinfix⟩ := mem_tokens hw
      intro hsuffix
      have hlast := hsuffix.getLast hne
      rw [List.getLast_append_of_right_ne_nil _ _ (by simp), List.getLast_concat] at hlast
      have hmem : a ∈ front := hinfix.subset (hlast ▸ List.getLast_mem hne)
      exact List.disjoint_of_nodup_append hnodup hmem (by simp)
    have hend : init ++ [a] <:+ front ++ (init ++ [a]) := List.suffix_append _ _
    have hinit : tokens d init = [init ++ [a]].filterMap (shorten (front ++ (init ++ [a]))) := by
      rw [List.filterMap_cons, List.filterMap_nil, shorten, if_pos hend, List.dropLast_concat]
      rcases eq_or_ne init [] with rfl | hne
      · rfl
      · rw [if_neg (by simpa using hne), tokens_of_free (hrun.sublist (by simp)) hne]
    rw [hfront.tokens_append, List.filterMap_append, hkeep hinner, tokens_of_free hrun (by simp),
      ← hinit, ← List.append_assoc, List.dropLast_concat, hfront.tokens_append]

end Shortened

section Pieces

variable [DecidableEq α]

/-- The pieces of what is left of a list, for the piece that is being read. The first
elements are skipped: they belong to a separator. -/
def piecesFrom (sep : List α) : Nat → List α → List α → List (List α)
  | _, piece, [] => [piece]
  | skipped + 1, piece, _ :: rest => piecesFrom sep skipped piece rest
  | 0, piece, a :: rest =>
      if sep <+: a :: rest then piece :: piecesFrom sep (sep.length - 1) [] rest
      else piecesFrom sep 0 (piece ++ [a]) rest

/-- The parts of a list between the occurrences of a separator, found from the left. -/
def pieces (sep l : List α) : List (List α) := piecesFrom sep 0 [] l

variable {sep : List α}

@[simp]
theorem piecesFrom_ne_nil (skipped : Nat) (piece l : List α) :
    piecesFrom sep skipped piece l ≠ [] := by
  fun_induction piecesFrom sep skipped piece l with
  | case1 => exact List.cons_ne_nil _ _
  | case2 skipped piece a rest ih => exact ih
  | case3 piece a rest h ih => exact List.cons_ne_nil _ _
  | case4 piece a rest h ih => exact ih

theorem intercalate_piecesFrom (hsep : sep ≠ []) (skipped : Nat) (piece l : List α) :
    sep.intercalate (piecesFrom sep skipped piece l) = piece ++ l.drop skipped := by
  fun_induction piecesFrom sep skipped piece l with
  | case1 skipped piece => rw [List.intercalate_singleton, List.drop_nil, List.append_nil]
  | case2 skipped piece a rest ih => rw [ih, List.drop_succ_cons]
  | case3 piece a rest h ih =>
      obtain ⟨more, hmore⟩ := h
      obtain ⟨n, hn⟩ := Nat.exists_eq_succ_of_ne_zero (List.length_pos_iff.mpr hsep).ne'
      have hdrop : rest.drop (sep.length - 1) = more := by
        have := congrArg (List.drop sep.length) hmore
        rw [List.drop_left, hn, List.drop_succ_cons] at this
        rw [hn, Nat.succ_sub_one, this]
      rw [List.intercalate_cons_of_ne_nil (piecesFrom_ne_nil _ _ _), ih, hdrop, List.nil_append,
        List.drop_zero, List.append_assoc, hmore]
  | case4 piece a rest h ih =>
      rw [ih, List.drop_zero, List.drop_zero, List.append_assoc, List.singleton_append]

@[simp]
theorem intercalate_pieces (hsep : sep ≠ []) (l : List α) : sep.intercalate (pieces sep l) = l :=
  (intercalate_piecesFrom hsep 0 [] l).trans (by simp)

end Pieces

end DaapLog.Tokens
