import Mathlib

/-!
Hashes that keep the order in which their keys were first stored, as lists of
entries.
-/

namespace DaapLog.OrderedHash

variable {κ α β : Type*} [DecidableEq κ]

abbrev Hash (κ α : Type*) := List (κ × α)

def get (h : Hash κ α) (k : κ) : Option α := (h.find? (·.1 = k)).map Prod.snd

def hasKey (h : Hash κ α) (k : κ) : Bool := (get h k).isSome

/-- A key that is there keeps its place. -/
def set (h : Hash κ α) (k : κ) (v : α) : Hash κ α :=
  if hasKey h k then h.map fun e => if e.1 = k then (k, v) else e else h ++ [(k, v)]

def delete (h : Hash κ α) (k : κ) : Hash κ α := h.filter (·.1 ≠ k)

@[grind =]
theorem get_cons (e : κ × α) (h : Hash κ α) (k : κ) :
    get (e :: h) k = if e.1 = k then some e.2 else get h k := by
  by_cases he : e.1 = k <;> simp [get, he]

@[grind =]
theorem get_append (front back : Hash κ α) (k : κ) :
    get (front ++ back) k = (get front k).or (get back k) := by
  induction front with
  | nil => rfl
  | cons e front ih =>
      rw [List.cons_append, get_cons, get_cons, ih]
      split <;> rfl

theorem get_map_replace (h : Hash κ α) (k k' : κ) (v : α) :
    get (h.map fun e => if e.1 = k then (k, v) else e) k' =
      if k' = k then (get h k).map fun _ => v else get h k' := by
  induction h with
  | nil => simp [get]
  | cons e h ih =>
      rw [List.map_cons, get_cons, ih, get_cons, get_cons]
      by_cases he : e.1 = k
      · by_cases hk : k' = k
        · simp [he, hk]
        · have hne : ¬k = k' := fun h => hk h.symm
          simp [he, hk, hne]
      · by_cases hk : k' = k
        · simp [he, hk]
        · simp [he, hk]

@[grind =]
theorem get_set (h : Hash κ α) (k k' : κ) (v : α) :
    get (set h k v) k' = if k' = k then some v else get h k' := by
  rw [set, hasKey]
  split
  · next hk =>
      rw [get_map_replace]
      split
      · obtain ⟨w, hw⟩ := Option.isSome_iff_exists.mp hk
        rw [hw]
        rfl
      · rfl
  · next hk =>
      have hnone : get h k = none := by simpa using hk
      rw [get_append, get_cons]
      by_cases hk' : k' = k
      · subst hk'
        simp [hnone]
      · have hne : ¬k = k' := fun h => hk' h.symm
        simp [hk', hne, get]

@[simp]
theorem get_set_self (h : Hash κ α) (k : κ) (v : α) : get (set h k v) k = some v := by
  rw [get_set, if_pos rfl]

@[simp]
theorem get_set_of_ne {k k' : κ} (hne : k' ≠ k) (h : Hash κ α) (v : α) :
    get (set h k v) k' = get h k' := by
  rw [get_set, if_neg hne]

@[simp]
theorem get_singleton_of_ne {k k' : κ} (hne : k' ≠ k) (v : α) : get [(k, v)] k' = none := by
  rw [get_cons, if_neg hne.symm]
  rfl

@[grind →]
theorem mem_of_get {h : Hash κ α} {k : κ} {v : α} (hv : get h k = some v) : (k, v) ∈ h := by
  obtain ⟨e, he, rfl⟩ := Option.map_eq_some_iff.mp hv
  have hk : e.1 = k := by simpa using List.find?_some he
  exact hk ▸ List.mem_of_find?_eq_some he

theorem exists_get_of_mem_keys {h : Hash κ α} {k : κ} (hk : k ∈ h.map Prod.fst) :
    ∃ v, get h k = some v := by
  obtain ⟨e, he, rfl⟩ := List.mem_map.mp hk
  refine Option.isSome_iff_exists.mp ?_
  rw [get, Option.isSome_map, List.find?_isSome]
  exact ⟨e, he, decide_eq_true rfl⟩

theorem mem_set {h : Hash κ α} {k : κ} {v : α} {e : κ × α} (he : e ∈ set h k v) :
    e = (k, v) ∨ (e ∈ h ∧ e.1 ≠ k) := by
  rw [set] at he
  split at he
  · obtain ⟨e', he', rfl⟩ := List.mem_map.mp he
    split
    · exact .inl rfl
    · next hne => exact .inr ⟨he', hne⟩
  · next hkey =>
      rcases List.mem_append.mp he with hmem | hnew
      · refine .inr ⟨hmem, ?_⟩
        rintro rfl
        rw [hasKey, get, Option.isSome_map, List.find?_isSome] at hkey
        exact hkey ⟨e, hmem, by simp⟩
      · exact .inl (by simpa using hnew)

theorem forall_key_set {p : κ → Prop} {h : Hash κ α} {k : κ} (hk : p k)
    (hh : ∀ e ∈ h, p e.1) (v : α) : ∀ e ∈ set h k v, p e.1 := by
  intro e he
  rw [set] at he
  split at he
  · obtain ⟨e', he', rfl⟩ := List.mem_map.mp he
    split
    · exact hk
    · exact hh e' he'
  · rcases List.mem_append.mp he with he | he
    · exact hh e he
    · obtain rfl : e = (k, v) := by simpa using he
      exact hk

theorem forall_key_foldl_set {ι : Type*} {p : κ → Prop} (key : ι → κ)
    (value : Hash κ α → ι → α) {items : List ι} (hitems : ∀ item ∈ items, p (key item))
    {h : Hash κ α} (hh : ∀ e ∈ h, p e.1) :
    ∀ e ∈ items.foldl (fun r item => set r (key item) (value r item)) h, p e.1 := by
  induction items generalizing h with
  | nil => exact hh
  | cons item items ih =>
      rw [List.forall_mem_cons] at hitems
      exact ih hitems.2 (forall_key_set hitems.1 hh _)

theorem get_foldl_set {ι : Type*} (key : ι → κ) (value : Hash κ α → ι → α) {k : κ}
    {items : List ι} (hne : ∀ item ∈ items, k ≠ key item) (h : Hash κ α) :
    get (items.foldl (fun r item => set r (key item) (value r item)) h) k = get h k := by
  induction items generalizing h with
  | nil => rfl
  | cons item items ih =>
      rw [List.forall_mem_cons] at hne
      rw [List.foldl_cons, ih hne.2, get_set_of_ne hne.1]

@[simp]
theorem hasKey_set (h : Hash κ α) (k k' : κ) (v : α) :
    hasKey (set h k v) k' ↔ k' = k ∨ hasKey h k' := by
  rw [hasKey, get_set, hasKey]
  split
  · next hk => exact iff_of_true rfl (.inl hk)
  · next hk => exact ⟨.inr, fun h => h.resolve_left hk⟩

@[simp]
theorem keys_set {h : Hash κ α} {k : κ} (hk : hasKey h k) (v : α) :
    (set h k v).map Prod.fst = h.map Prod.fst := by
  rw [set, if_pos hk, List.map_map]
  refine List.map_congr_left fun e _ => ?_
  rw [Function.comp_apply]
  split
  · next he => exact he.symm
  · rfl

theorem mem_keys_iff (h : Hash κ α) (k : κ) : k ∈ h.map Prod.fst ↔ hasKey h k := by
  induction h with
  | nil => simp [hasKey, get]
  | cons e h ih =>
      rw [List.map_cons, List.mem_cons, ih, hasKey, hasKey, get_cons]
      by_cases he : e.1 = k
      · simp [he]
      · simp [he, show ¬k = e.1 from fun h => he h.symm]

theorem nodup_keys_set {h : Hash κ α} (hh : (h.map Prod.fst).Nodup) (k : κ) (v : α) :
    ((set h k v).map Prod.fst).Nodup := by
  by_cases hk : hasKey h k
  · rw [keys_set hk]
    exact hh
  · rw [set, if_neg hk, List.map_append, List.map_singleton]
    refine List.Nodup.append hh (List.nodup_singleton k) ?_
    rw [List.disjoint_singleton, mem_keys_iff]
    exact hk

theorem get_filter {h : Hash κ α} (hh : (h.map Prod.fst).Nodup) (p : κ × α → Bool) (k : κ) :
    get (h.filter p) k = none ∨ get (h.filter p) k = get h k := by
  induction h with
  | nil => exact .inl rfl
  | cons e h ih =>
      rw [List.map_cons, List.nodup_cons] at hh
      rw [List.filter_cons, get_cons]
      by_cases he : e.1 = k
      · split
        · exact .inr (by rw [get_cons, if_pos he])
        · refine .inl ?_
          have hnone : get h k = none := by
            rw [he, mem_keys_iff, hasKey, Option.not_isSome_iff_eq_none] at hh
            exact hh.1
          exact (ih hh.2).elim id fun heq => heq.trans hnone
      · rw [if_neg he]
        split
        · rw [get_cons, if_neg he]
          exact ih hh.2
        · exact ih hh.2

theorem hasKey_foldl_set {ι : Type*} (key : ι → κ) (value : Hash κ α → ι → α) {k : κ}
    {items : List ι} {h : Hash κ α} (hk : hasKey h k ∨ ∃ item ∈ items, k = key item) :
    hasKey (items.foldl (fun r item => set r (key item) (value r item)) h) k := by
  induction items generalizing h with
  | nil =>
      rcases hk with hk | ⟨item, hitem, -⟩
      · exact hk
      · exact absurd hitem List.not_mem_nil
  | cons item items ih =>
      refine ih ?_
      rw [hasKey_set]
      rcases hk with hk | ⟨item', hitem, rfl⟩
      · exact .inl (.inr hk)
      · rcases List.mem_cons.mp hitem with rfl | hitem
        · exact .inl (.inl rfl)
        · exact .inr ⟨item', hitem, rfl⟩

@[simp]
theorem get_delete_of_ne {k k' : κ} (hne : k' ≠ k) (h : Hash κ α) :
    get (delete h k) k' = get h k' := by
  induction h with
  | nil => rfl
  | cons e h ih =>
      rw [delete, List.filter_cons, get_cons]
      by_cases he : e.1 = k
      · have hek : ¬e.1 = k' := fun h => hne (h.symm.trans he)
        simpa [he, hek, delete, show ¬k = k' from fun h => hne h.symm] using ih
      · rw [if_pos (by simpa using he), get_cons]
        rw [delete] at ih
        rw [ih]

@[simp]
theorem get_map_values (f : α → β) (h : Hash κ α) (k : κ) :
    get (h.map fun e => (e.1, f e.2)) k = (get h k).map f := by
  induction h with
  | nil => rfl
  | cons e h ih =>
      rw [List.map_cons, get_cons, get_cons, ih]
      split <;> rfl

theorem nodup_keys_foldl_set {ι : Type*} (key : ι → κ) (value : ι → α) (items : List ι)
    {h : Hash κ α} (hh : (h.map Prod.fst).Nodup) :
    ((items.foldl (fun r item => set r (key item) (value item)) h).map Prod.fst).Nodup := by
  induction items generalizing h with
  | nil => exact hh
  | cons item items ih => exact ih (nodup_keys_set hh (key item) (value item))

/-- The entries of one hash stored into another one. -/
theorem get_foldl_entries {entries : Hash κ β} (hentries : (entries.map Prod.fst).Nodup) (f : β → α)
    (h : Hash κ α) (k : κ) :
    get (entries.foldl (fun r e => set r e.1 (f e.2)) h) k =
      ((get entries k).map f).or (get h k) := by
  induction entries generalizing h with
  | nil => rfl
  | cons e entries ih =>
      rw [List.map_cons, List.nodup_cons] at hentries
      rw [List.foldl_cons, ih hentries.2, get_set, get_cons]
      by_cases hk : e.1 = k
      · have hnone : get entries k = none := by
          rw [← Option.not_isSome_iff_eq_none]
          exact fun hsome => hentries.1 (hk ▸ (mem_keys_iff entries k).mpr hsome)
        rw [if_pos hk, if_pos hk.symm, hnone]
        rfl
      · rw [if_neg hk, if_neg fun heq => hk heq.symm]

end DaapLog.OrderedHash
