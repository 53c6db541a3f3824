import Mathlib
import AllocScript.TextMap

/-!
# What maps keyed by text hold

An insertion changes the value under one text (`get?_insert`), and a map is determined by the values
under all texts (`ext_get?`), because its order is part of it. Of many insertions one after the
other, the last one under a text counts (`get?_foldl_insert`), and if old values stay, the first one
(`get?_foldl_insertNew`).
-/

namespace AllocScript

namespace TextMap

variable {β γ ε : Type}

theorem lookup_cons_eq_ite (e : String × β) (l : List (String × β)) (k : String) :
    (e :: l).lookup k = if k = e.1 then some e.2 else l.lookup k := by
  by_cases hk : k = e.1
  · rw [List.lookup_cons, if_pos hk, beq_iff_eq.2 hk]
  · rw [List.lookup_cons, if_neg hk, beq_eq_false_iff_ne.2 hk]

theorem lookup_eq_none_of_forall_lt {key : String} {l : List (String × β)}
    (h : ∀ k ∈ l.map Prod.fst, key < k) : l.lookup key = none := by
  induction l with
  | nil => rfl
  | cons e rest ih =>
    have hne : (key == e.1) = false :=
      beq_eq_false_iff_ne.2 fun he => String.lt_irrefl key (by
        simpa [← he] using h e.1 (by simp))
    rw [List.lookup_cons, hne]
    exact ih fun k hk => h k (List.mem_cons_of_mem _ hk)

theorem mem_of_lookup_eq_some {key : String} {value : β} {l : List (String × β)}
    (h : l.lookup key = some value) : (key, value) ∈ l := by
  obtain ⟨l₁, l₂, rfl, -⟩ := List.lookup_eq_some_iff.1 h
  simp

/-- In an ascending list, every entry is the one that its text is looked up by. -/
theorem lookup_of_mem {e : String × β} {l : List (String × β)}
    (h : (l.map Prod.fst).Pairwise (· < ·)) (he : e ∈ l) : l.lookup e.1 = some e.2 := by
  induction l with
  | nil => cases he
  | cons f rest ih =>
    obtain ⟨hfirst, hrest⟩ := List.pairwise_cons.1 h
    rw [lookup_cons_eq_ite]
    rcases List.mem_cons.1 he with rfl | he
    · rw [if_pos rfl]
    · rw [if_neg, ih hrest he]
      intro heq
      exact String.lt_irrefl _ (heq ▸ hfirst e.1 (List.mem_map_of_mem he))

/-- A text that is none of the map's has no value. -/
theorem get?_eq_none_iff {m : TextMap β} {key : String} : m.get? key = none ↔ key ∉ m.keys := by
  rw [get?, List.lookup_eq_none_iff, keys, List.mem_map]
  constructor
  · rintro h ⟨e, he, rfl⟩
    simpa using h e he
  · intro h e he
    simpa using fun heq : key = e.1 => h ⟨e, he, heq.symm⟩

/-! ## Insertions -/

theorem length_insertEntry_le (key : String) (value : β) (l : List (String × β)) :
    (insertEntry key value l).length ≤ l.length + 1 := by
  induction l with
  | nil => simp [insertEntry]
  | cons e rest ih =>
    simp only [insertEntry]
    split
    · simp
    · split
      · simpa using ih
      · simp

theorem mem_insertEntry {key : String} {value : β} {l : List (String × β)} {e : String × β}
    (h : e ∈ insertEntry key value l) : e.2 = value ∨ e ∈ l := by
  induction l with
  | nil => simp only [insertEntry, List.mem_singleton] at h; exact .inl (by rw [h])
  | cons f rest ih =>
    simp only [insertEntry] at h
    split at h
    · rcases List.mem_cons.1 h with rfl | h
      · exact .inl rfl
      · exact .inr h
    · split at h
      · rcases List.mem_cons.1 h with rfl | h
        · exact .inr (by simp)
        · exact (ih h).imp_right (List.mem_cons_of_mem _)
      · rcases List.mem_cons.1 h with rfl | h
        · exact .inl rfl
        · exact .inr (List.mem_cons_of_mem _ h)

/-- An insertion adds the new value to a sum over the values and takes the old one away. -/
theorem sum_insertEntry (f : β → Rat) (key : String) (value : β) {l : List (String × β)}
    (h : (l.map Prod.fst).Pairwise (· < ·)) :
    ((insertEntry key value l).map fun e => f e.2).sum =
      (l.map fun e => f e.2).sum - ((l.lookup key).map f).getD 0 + f value := by
  induction l with
  | nil => simp [insertEntry]
  | cons e rest ih =>
    obtain ⟨hfirst, hrest⟩ := List.pairwise_cons.1 h
    simp only [insertEntry]
    split
    next hlt =>
      have hnone : (e :: rest).lookup key = none := lookup_eq_none_of_forall_lt fun k hk => by
        rcases List.mem_cons.1 hk with rfl | hk
        · exact hlt
        · exact String.lt_trans hlt (hfirst k hk)
      rw [hnone]
      simp
      ring
    next hnot =>
      split
      next hlt =>
        have hne : (key == e.1) = false :=
          beq_eq_false_iff_ne.2 fun he => String.lt_irrefl key (by rwa [← he] at hlt)
        rw [List.lookup_cons, hne, List.map_cons, List.sum_cons, ih hrest, List.map_cons,
          List.sum_cons]
        ring
      next hnot' =>
        have he : key = e.1 := String.le_antisymm (String.not_lt.1 hnot') (String.not_lt.1 hnot)
        rw [List.lookup_cons, he, beq_self_eq_true]
        simp
        ring

/-- An insertion changes the value under its text and no other. -/
theorem lookup_insertEntry (key k : String) (value : β) (l : List (String × β)) :
    (insertEntry key value l).lookup k = if k = key then some value else l.lookup k := by
  induction l with
  | nil => exact lookup_cons_eq_ite ..
  | cons e rest ih =>
    simp only [insertEntry]
    split
    next => exact lookup_cons_eq_ite ..
    next hnot =>
      split
      next hlt =>
        rw [lookup_cons_eq_ite, lookup_cons_eq_ite, ih]
        by_cases hk : k = e.1
        · have hne : k ≠ key := fun he => String.lt_irrefl key (by rwa [← hk, he] at hlt)
          rw [if_pos hk, if_neg hne, if_pos hk]
        · rw [if_neg hk, if_neg hk]
      next hnot' =>
        have he : e.1 = key := String.le_antisymm (String.not_lt.1 hnot) (String.not_lt.1 hnot')
        rw [lookup_cons_eq_ite, lookup_cons_eq_ite, he]
        split <;> rfl

theorem get?_insert (m : TextMap β) (key k : String) (value : β) :
    (m.insert key value).get? k = if k = key then some value else m.get? k :=
  lookup_insertEntry key k value m.entries

/-- An insertion that leaves old values in place. -/
theorem get?_insertNew (m : TextMap β) (key k : String) (value : β) :
    (m.insertNew key value).get? k = (m.get? k).or (if k = key then some value else none) := by
  unfold insertNew
  cases hold : m.get? key with
  | none =>
    rw [Option.isSome_none, if_neg Bool.false_ne_true, get?_insert]
    by_cases hk : k = key
    · rw [if_pos hk, if_pos hk, hk, hold]
      rfl
    · rw [if_neg hk, if_neg hk, Option.or_none]
  | some v =>
    rw [Option.isSome_some, if_pos rfl]
    by_cases hk : k = key
    · rw [hk, hold]
      rfl
    · rw [if_neg hk, Option.or_none]

/-- Of many insertions the last one under a text counts. -/
theorem get?_foldl_insert (l : List (String × β)) (m : TextMap β) (k : String) :
    (l.foldl (fun m e => m.insert e.1 e.2) m).get? k = (l.reverse.lookup k).or (m.get? k) := by
  induction l generalizing m with
  | nil => rfl
  | cons e rest ih =>
    rw [List.foldl_cons, ih, get?_insert, List.reverse_cons, List.lookup_append, Option.or_assoc,
      lookup_cons_eq_ite]
    split <;> rfl

/-- Of many insertions that leave old values in place the first one under a text counts. -/
theorem get?_foldl_insertNew (l : List (String × β)) (m : TextMap β) (k : String) :
    (l.foldl (fun m e => m.insertNew e.1 e.2) m).get? k = (m.get? k).or (l.lookup k) := by
  induction l generalizing m with
  | nil => exact (Option.or_none).symm
  | cons e rest ih =>
    rw [List.foldl_cons, ih, get?_insertNew, Option.or_assoc, lookup_cons_eq_ite]
    split <;> rfl

/-! ## Maps of values -/

/-- A map of entries keeps the texts and maps the value under each. -/
theorem lookup_mapEntries {f : β → Except ε γ} {l : List (String × β)}
    {r : { r : List (String × γ) // r.map Prod.fst = l.map Prod.fst }}
    (h : mapEntries f l = .ok r) (key : String) :
    l.lookup key = none ∧ r.1.lookup key = none ∨
      ∃ v w, l.lookup key = some v ∧ f v = .ok w ∧ r.1.lookup key = some w := by
  induction l with
  | nil =>
    cases h
    exact .inl ⟨rfl, rfl⟩
  | cons e rest ih =>
    rw [mapEntries] at h
    split at h
    · cases h
    · rename_i w hw
      split at h
      · cases h
      · rename_i r' hr'
        cases h
        simp only [lookup_cons_eq_ite]
        by_cases hkey : key = e.1
        · simp only [if_pos hkey]
          exact .inr ⟨e.2, w, rfl, hw, rfl⟩
        · simp only [if_neg hkey]
          exact ih hr'

theorem get?_mapValues {f : β → Except ε γ} {m : TextMap β} {m' : TextMap γ}
    (h : m.mapValues f = .ok m') (key : String) :
    m.get? key = none ∧ m'.get? key = none ∨
      ∃ v w, m.get? key = some v ∧ f v = .ok w ∧ m'.get? key = some w := by
  unfold mapValues at h
  split at h
  · cases h
  · rename_i r hr
    cases h
    exact lookup_mapEntries hr key

/-! ## Extensionality -/

/-- The first text of a list is no less than that of an ascending list with the same values. -/
theorem le_of_lookup_eq {e e' : String × β} {l l' : List (String × β)}
    (h' : ((e' :: l').map Prod.fst).Pairwise (· < ·))
    (hlookup : (e :: l).lookup e.1 = (e' :: l').lookup e.1) : e'.1 ≤ e.1 := by
  refine String.not_lt.1 fun hlt => ?_
  have hnone : (e' :: l').lookup e.1 = none := lookup_eq_none_of_forall_lt fun k hk => by
    rcases List.mem_cons.1 hk with rfl | hk
    · exact hlt
    · exact String.lt_trans hlt ((List.pairwise_cons.1 h').1 k hk)
  rw [hnone, lookup_cons_eq_ite, if_pos rfl] at hlookup
  cases hlookup

theorem eq_of_lookup_eq {l l' : List (String × β)} (h : (l.map Prod.fst).Pairwise (· < ·))
    (h' : (l'.map Prod.fst).Pairwise (· < ·)) (hlookup : ∀ k, l.lookup k = l'.lookup k) :
    l = l' := by
  induction l generalizing l' with
  | nil =>
    cases l' with
    | nil => rfl
    | cons e' rest' =>
      have hfirst := hlookup e'.1
      rw [lookup_cons_eq_ite, if_pos rfl] at hfirst
      cases hfirst
  | cons e rest ih =>
    cases l' with
    | nil =>
      have hfirst := hlookup e.1
      rw [lookup_cons_eq_ite, if_pos rfl] at hfirst
      cases hfirst
    | cons e' rest' =>
      obtain ⟨hlt, hrest⟩ := List.pairwise_cons.1 h
      obtain ⟨hlt', hrest'⟩ := List.pairwise_cons.1 h'
      have hkey : e.1 = e'.1 := String.le_antisymm
        (le_of_lookup_eq h (hlookup e'.1).symm) (le_of_lookup_eq h' (hlookup e.1))
      have hvalue := hlookup e.1
      rw [lookup_cons_eq_ite, if_pos rfl, lookup_cons_eq_ite, if_pos hkey] at hvalue
      have htail : ∀ k, rest.lookup k = rest'.lookup k := by
        intro k
        by_cases hk : k = e.1
        · rw [hk, lookup_eq_none_of_forall_lt hlt, hkey, lookup_eq_none_of_forall_lt hlt']
        · have hboth := hlookup k
          rwa [lookup_cons_eq_ite, if_neg hk, lookup_cons_eq_ite, if_neg (hkey ▸ hk)] at hboth
      rw [ih hrest hrest' htail, Prod.ext hkey (Option.some.inj hvalue)]

/-- **A map is what it gives under all texts.** -/
theorem ext_get? {m m' : TextMap β} (h : ∀ k, m.get? k = m'.get? k) : m = m' := by
  obtain ⟨entries, hm⟩ := m
  obtain ⟨entries', hm'⟩ := m'
  congr 1
  exact eq_of_lookup_eq hm hm' h

end TextMap

end AllocScript
