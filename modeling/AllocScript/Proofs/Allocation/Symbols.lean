import AllocScript.Eval.Weighting
import AllocScript.Proofs.Allocation.Total

/-!
# Where the symbols of allocations come from

No operation on allocations brings in a symbol of its own: those of a sum are symbols of its parts,
rescaling leaves them as they are (`symbols_normalized`), and so what `equalWeight` and
`specifiedWeight` share out weight among are symbols of the children (`mem_symbols_equalWeight`,
`mem_symbols_specifiedWeight`).

One child gets the whole weight, whatever its symbol is (`specifiedWeight_single`).
-/

namespace AllocScript

namespace Allocation

@[simp] theorem symbols_empty : empty.symbols = [] := rfl

@[simp] theorem symbols_single (symbol : String) : (single symbol).symbols = [symbol] := rfl

theorem length_symbols (a : Allocation) : a.symbols.length = a.size := List.length_map _

theorem nodup_symbols (a : Allocation) : a.symbols.Nodup := by
  have hascending : a.symbols.Pairwise (· < ·) := a.weights.ascending
  exact hascending.nodup

variable {a b : Allocation} {s : String}

/-! ## Operations -/

theorem mem_symbols_add {symbol : String} {w : Decimal} (h : a.add symbol w = .ok b)
    (hs : s ∈ b.symbols) : s = symbol ∨ s ∈ a.symbols := by
  unfold add at h
  by_cases hw : w.isPositive = true
  · rw [if_pos hw] at h
    obtain ⟨c, -, rfl⟩ := exists_ok_of_map h
    exact TextMap.mem_keys_insertEntry hs
  · rw [if_neg hw] at h
    cases h
    exact .inr hs

theorem mem_symbols_addScaled {factor : Decimal} {entries : List (String × Decimal)}
    (h : a.addScaled factor entries = .ok b) (hs : s ∈ b.symbols) :
    s ∈ a.symbols ∨ s ∈ entries.map Prod.fst := by
  induction entries generalizing a with
  | nil =>
    cases h
    exact .inl hs
  | cons e rest ih =>
    obtain ⟨w, -, h⟩ := exists_ok_of_bind h
    obtain ⟨a', hadd, h⟩ := exists_ok_of_bind h
    rcases ih h with hs | hs
    · exact (mem_symbols_add hadd hs).symm.imp_right fun hs => by simp [hs]
    · exact .inr (List.mem_cons_of_mem _ hs)

theorem mem_symbols_mergeScaled {other : Allocation} {factor : Decimal}
    (h : a.mergeScaled other factor = .ok b) (hs : s ∈ b.symbols) :
    s ∈ a.symbols ∨ s ∈ other.symbols :=
  mem_symbols_addScaled h hs

theorem symbols_normalized (h : a.normalized = .ok b) : b.symbols = a.symbols := by
  obtain ⟨t, -, h⟩ := exists_ok_of_bind h
  split at h
  · cases h
    rfl
  · obtain ⟨ws, hmap, rfl⟩ := exists_ok_of_map h
    unfold TextMap.mapValues at hmap
    split at hmap
    · cases hmap
    · rename_i r _
      cases hmap
      exact r.2

/-! ## Sharing weight -/

theorem mem_symbols_addShares {shares : List (Except Overflow Decimal × Allocation)}
    (h : a.addShares shares = .ok b) (hs : s ∈ b.symbols) :
    s ∈ a.symbols ∨ ∃ c ∈ shares.map Prod.snd, s ∈ c.symbols := by
  induction shares generalizing a with
  | nil =>
    cases h
    exact .inl hs
  | cons c rest ih =>
    obtain ⟨child, hchild, h⟩ := exists_ok_of_bind h
    obtain ⟨share, -, h⟩ := exists_ok_of_bind h
    obtain ⟨a', hmerge, h⟩ := exists_ok_of_bind h
    rcases ih h with hs | ⟨d, hd, hs⟩
    · rcases mem_symbols_mergeScaled hmerge hs with hs | hs
      · exact .inl hs
      · rw [symbols_normalized hchild] at hs
        exact .inr ⟨c.2, by simp, hs⟩
    · exact .inr ⟨d, List.mem_cons_of_mem _ hd, hs⟩

/-- **Equal shares** have the symbols of the children. -/
theorem mem_symbols_equalWeight {children : List Allocation} (h : equalWeight children = .ok a)
    (hs : s ∈ a.symbols) : ∃ c ∈ children, s ∈ c.symbols := by
  unfold equalWeight at h
  dsimp only at h
  split at h
  · cases h
    cases hs
  · obtain ⟨share, -, h⟩ := exists_ok_of_bind h
    rcases mem_symbols_addShares h hs with hs | ⟨c, hc, hs⟩
    · cases hs
    · rw [List.map_map] at hc
      obtain ⟨d, hd, rfl⟩ := List.mem_map.1 hc
      exact ⟨d, List.mem_of_mem_filter hd, hs⟩

/-- **Given shares** have the symbols of the children that have weight. -/
theorem exists_weighted_of_mem_symbols {children : List (Decimal × Allocation)}
    (h : specifiedWeight children = .ok a) (hs : s ∈ a.symbols) :
    ∃ c ∈ children, c.1.isZero = false ∧ c.2.isEmpty = false ∧ s ∈ c.2.symbols := by
  unfold specifiedWeight at h
  dsimp only at h
  split at h
  · cases h
    cases hs
  · split at h
    · cases h
    · split at h
      · cases h
      · split at h
        · cases h
        · rename_i hshares
          cases h
          rcases mem_symbols_addShares hshares hs with hs | ⟨c, hc, hs⟩
          · cases hs
          · rw [List.map_map] at hc
            obtain ⟨d, hd, rfl⟩ := List.mem_map.1 hc
            obtain ⟨hd, hweight⟩ := List.mem_filter.1 hd
            obtain ⟨hd, hne⟩ := List.mem_filter.1 hd
            exact ⟨d, hd, by simpa using hweight, by simpa using hne, hs⟩

theorem mem_symbols_specifiedWeight {children : List (Decimal × Allocation)}
    (h : specifiedWeight children = .ok a) (hs : s ∈ a.symbols) :
    ∃ c ∈ children, s ∈ c.2.symbols := by
  obtain ⟨c, hc, -, -, hs⟩ := exists_weighted_of_mem_symbols h hs
  exact ⟨c, hc, hs⟩

/-! ## One child -/

theorem sumFrom_one : sumFrom .zero [.one] = .ok .one := by decide +kernel

theorem quotient_one : quotient .one .one = .ok .one := by decide +kernel

theorem normalized_single (symbol : String) : (single symbol).normalized = .ok (single symbol) := by
  have htotal : (single symbol).total = .ok .one := sumFrom_one
  rw [normalized, htotal, ok_bind, if_neg (by decide)]
  simp [single, TextMap.single, TextMap.mapValues, TextMap.mapEntries, quotient_one, Except.map]

theorem mergeScaled_empty_single (symbol : String) :
    mergeScaled .empty (single symbol) .one = .ok (single symbol) := by
  have hproduct : product .one .one = .ok .one := by decide +kernel
  have hsum : sum .zero .one = .ok .one := by decide +kernel
  have hadd : add .empty symbol .one = .ok (single symbol) := by
    rw [add, if_pos (by decide)]
    exact congrArg (Except.map _) hsum
  show product .one .one >>= (fun w => add .empty symbol w >>= fun a => a.addScaled .one []) = _
  rw [hproduct, ok_bind, hadd]
  rfl

/-- **One child has the whole weight**, whatever its symbol is. -/
theorem specifiedWeight_single (symbol : String) :
    specifiedWeight [(.one, single symbol)] = .ok (single symbol) := by
  have hshares : addShares .empty [(.ok .one, single symbol)] = .ok (single symbol) := by
    rw [addShares, normalized_single, ok_bind, ok_bind, mergeScaled_empty_single]
    rfl
  have hpresent : [(Decimal.one, single symbol)].filter (fun c => !c.2.isEmpty) =
      [(.one, single symbol)] := rfl
  have hweighted : [(Decimal.one, single symbol)].filter (fun c => !c.1.isZero) =
      [(.one, single symbol)] := rfl
  simp only [specifiedWeight, hpresent, hweighted, List.isEmpty_cons, List.map_cons, List.map_nil,
    sumFrom_one, quotient_one, hshares]
  rfl

end Allocation

end AllocScript
