import Mathlib
import AllocScript.Proofs.Token.Lexer

/-!
# How tokens are spelled

`Spells kind l` says which texts are tokens of a kind, without regard to what stands around them.

* Every rule takes the longest first part of a text that is spelled as its kind, and nothing if
  there is none (`rule_longest`).
* **Longest match** (`longest_of_longestMatch`, `Longest.longestMatch`): a first part of a text is
  matched if no first part that is spelled as any kind is longer, and as the earliest of the kinds
  that it is spelled as (`Longest`). There is no match if no first part is spelled as a kind
  (`longestMatch_eq_none_iff`).
-/

namespace AllocScript

namespace Lexer

/-- The texts that are tokens of a kind. Strings have no rule. -/
def Spells : TokenKind → List Char → Prop
  | .blank, l => l ≠ [] ∧ ∀ c ∈ l, isBlank c = true
  | .comment, l => ∃ body, l = ';' :: body ∧ ∀ c ∈ body, c ≠ '\n'
  | .comma, l => l = [',']
  | .opening bracket, l => l = [bracket.openChar]
  | .closing bracket, l => l = [bracket.closeChar]
  | .string, _ => False
  | .float, l => ∃ sign ds fs, l = sign ++ ds ++ '.' :: fs ∧ IsSign sign ∧
      (ds ≠ [] ∧ ∀ c ∈ ds, c.isDigit = true) ∧ (fs ≠ [] ∧ ∀ c ∈ fs, c.isDigit = true)
  | .integer, l => ∃ sign ds, l = sign ++ ds ∧ IsSign sign ∧ ds ≠ [] ∧ ∀ c ∈ ds, c.isDigit = true
  | .keyword, l => ∃ name, l = ':' :: name ∧ name ≠ [] ∧ ∀ c ∈ name, isSymbolChar c = true
  | .symbol, l => ∃ c cs, l = c :: cs ∧ isSymbolStart c = true ∧ ∀ d ∈ cs, isSymbolChar d = true

/-! ## Spans -/

theorem of_mem_take_spanLength {p : Char → Bool} {cs : List Char} {c : Char}
    (h : c ∈ cs.take (spanLength p cs)) : p c = true := by
  induction cs with
  | nil => simp at h
  | cons d cs ih =>
    cases hd : p d with
    | false =>
      rw [spanLength_cons_of_neg hd] at h
      cases h
    | true =>
      rw [spanLength_cons_of_pos hd, List.take_succ_cons] at h
      rcases List.mem_cons.1 h with rfl | h
      · exact hd
      · exact ih h

theorem take_spanLength_ne_nil {p : Char → Bool} {cs : List Char} (h : spanLength p cs ≠ 0) :
    cs.take (spanLength p cs) ≠ [] := by
  intro hnil
  rcases List.take_eq_nil_iff.1 hnil with h0 | rfl
  · exact h h0
  · exact h rfl

theorem le_spanLength {p : Char → Bool} {l : List Char} (h : ∀ c ∈ l, p c = true)
    (rest : List Char) : l.length ≤ spanLength p (l ++ rest) := by
  induction l with
  | nil => exact Nat.zero_le _
  | cons c l ih =>
    rw [List.cons_append, spanLength_cons_of_pos (h c (by simp))]
    exact Nat.succ_le_succ (ih fun d hd => h d (by simp [hd]))

/-! ## Rules and spellings -/

/-- A rule takes the longest first part that is spelled as its kind. -/
structure Finds (kind : TokenKind) (f : List Char → Nat) : Prop where
  spelled : ∀ cs, f cs ≠ 0 → Spells kind (cs.take (f cs))
  longest : ∀ l rest, Spells kind l → l.length ≤ f (l ++ rest)

theorem finds_blank : Finds .blank matchBlank where
  spelled _ h := ⟨take_spanLength_ne_nil h, fun _ => of_mem_take_spanLength⟩
  longest _ rest h := le_spanLength h.2 rest

theorem finds_comment : Finds .comment matchComment where
  spelled cs h := by
    cases cs with
    | nil => exact absurd rfl h
    | cons c cs =>
      by_cases hc : c = ';'
      · rw [hc]
        refine ⟨cs.take (spanLength (· ≠ '\n') cs), ?_, fun d hd => ?_⟩
        · rw [matchComment, Nat.add_comm, List.take_succ_cons]
        · simpa using of_mem_take_spanLength hd
      · exact absurd (matchComment_of_ne hc cs) h
  longest l rest h := by
    obtain ⟨body, rfl, hbody⟩ := h
    have hspan := le_spanLength (p := (· ≠ '\n')) (fun c hc => by simpa using hbody c hc) rest
    rw [List.cons_append, matchComment, List.length_cons]
    omega

theorem finds_char {kind : TokenKind} {d : Char} (h : ∀ l, Spells kind l ↔ l = [d]) :
    Finds kind (matchChar d) where
  spelled cs hne := by
    cases cs with
    | nil => exact absurd rfl hne
    | cons c cs =>
      by_cases hc : c = d
      · rw [h, hc, matchChar, if_pos rfl]
        rfl
      · exact absurd (if_neg hc) hne
  longest l rest hl := by
    obtain rfl := (h l).1 hl
    simp [matchChar]

theorem isSign_take_matchSign (cs : List Char) : IsSign (cs.take (matchSign cs)) := by
  cases cs with
  | nil => exact .inl rfl
  | cons c cs =>
    by_cases hc : c = '-' ∨ c = '+'
    · rw [matchSign, if_pos hc]
      exact .inr (hc.imp (congrArg ([·])) (congrArg ([·])))
    · rw [matchSign, if_neg hc]
      exact .inl rfl

theorem finds_integer : Finds .integer matchInteger where
  spelled cs h := by
    have hdigits : spanLength Char.isDigit (cs.drop (matchSign cs)) ≠ 0 := by
      intro h0
      exact h (if_pos h0)
    rw [matchInteger, if_neg hdigits, List.take_add]
    exact ⟨_, _, rfl, isSign_take_matchSign cs, take_spanLength_ne_nil hdigits,
      fun c => of_mem_take_spanLength⟩
  longest l rest h := by
    obtain ⟨sign, ds, rfl, hsign, hne, hds⟩ := h
    have hspan := le_spanLength hds rest
    have hpos := List.length_pos_iff.2 hne
    rw [matchInteger, matchSign_digits hsign hne hds, List.append_assoc, List.drop_left,
      if_neg (by omega), List.length_append]
    exact Nat.add_le_add_left hspan _

theorem finds_float : Finds .float matchFloat where
  spelled cs h := by
    rw [matchFloat_eq] at h ⊢
    by_cases hwhole : matchInteger cs = 0
    · exact absurd (if_pos hwhole) h
    · rw [if_neg hwhole] at h ⊢
      obtain ⟨sign, ds, hl, hsign, hds⟩ := finds_integer.spelled cs hwhole
      cases hdrop : cs.drop (matchInteger cs) with
      | nil =>
        rw [hdrop] at h
        exact absurd rfl h
      | cons c rest =>
        rw [hdrop] at h
        by_cases hc : c = '.'
        · rw [hc] at h hdrop ⊢
          by_cases hplaces : spanLength Char.isDigit rest = 0
          · exact absurd (if_pos hplaces) h
          · have htake : cs.take (matchPlaces (matchInteger cs) ('.' :: rest)) =
                sign ++ ds ++ '.' :: rest.take (spanLength Char.isDigit rest) := by
              rw [matchPlaces, if_neg hplaces, Nat.add_assoc, List.take_add, hl, hdrop,
                Nat.add_comm 1, List.take_succ_cons]
            exact ⟨sign, ds, _, htake, hsign, hds, take_spanLength_ne_nil hplaces,
              fun c => of_mem_take_spanLength⟩
        · exact absurd (matchPlaces_of_ne _ hc rest) h
  longest l rest h := by
    obtain ⟨sign, ds, fs, rfl, hsign, hds, hfs⟩ := h
    have hinteger : matchInteger (sign ++ ds ++ '.' :: fs ++ rest) = sign.length + ds.length := by
      rw [List.append_assoc _ ('.' :: fs)]
      refine matchInteger_digits hsign hds.1 hds.2 _ fun c hc => ?_
      injection hc with hc
      rw [← hc]
      rfl
    have hspan := le_spanLength hfs.2 rest
    have hpos := List.length_pos_iff.2 hds.1
    have hfpos := List.length_pos_iff.2 hfs.1
    rw [matchFloat_eq, hinteger, if_neg (by omega), ← List.length_append,
      List.append_assoc (sign ++ ds), List.drop_left, List.cons_append, matchPlaces,
      if_neg (by omega), List.length_append, List.length_cons]
    omega

theorem finds_keyword : Finds .keyword matchKeyword where
  spelled cs h := by
    cases cs with
    | nil => exact absurd rfl h
    | cons c cs =>
      by_cases hc : c = ':'
      · rw [hc] at h ⊢
        by_cases htail : spanLength isSymbolChar cs = 0
        · exact absurd (if_pos htail) h
        · refine ⟨cs.take (spanLength isSymbolChar cs), ?_, take_spanLength_ne_nil htail,
            fun d => of_mem_take_spanLength⟩
          rw [matchKeyword, if_neg htail, Nat.add_comm, List.take_succ_cons]
      · exact absurd (matchKeyword_of_ne hc cs) h
  longest l rest h := by
    obtain ⟨name, rfl, hne, hname⟩ := h
    have hspan := le_spanLength hname rest
    have hpos := List.length_pos_iff.2 hne
    rw [List.cons_append, matchKeyword, if_neg (by omega), List.length_cons]
    omega

theorem finds_symbol : Finds .symbol matchSymbol where
  spelled cs h := by
    cases cs with
    | nil => exact absurd rfl h
    | cons c cs =>
      cases hc : isSymbolStart c with
      | false => exact absurd (if_neg (by simp [hc])) h
      | true =>
        refine ⟨c, cs.take (spanLength isSymbolChar cs), ?_, hc, fun d => of_mem_take_spanLength⟩
        rw [matchSymbol, if_pos hc, Nat.add_comm, List.take_succ_cons]
  longest l rest h := by
    obtain ⟨c, cs, rfl, hc, hcs⟩ := h
    have hspan := le_spanLength hcs rest
    rw [List.cons_append, matchSymbol, if_pos hc, List.length_cons]
    omega

/-- **Every rule takes the longest first part that is spelled as its kind.** -/
theorem rule_longest : ∀ r ∈ rules, Finds r.1 r.2 := by
  simp only [rules, List.forall_mem_cons, List.not_mem_nil, false_imp_iff, implies_true, and_true]
  exact ⟨finds_blank, finds_comment, finds_char fun _ => Iff.rfl, finds_char fun _ => Iff.rfl,
    finds_char fun _ => Iff.rfl, finds_char fun _ => Iff.rfl, finds_char fun _ => Iff.rfl,
    finds_char fun _ => Iff.rfl, finds_char fun _ => Iff.rfl, finds_float, finds_integer,
    finds_keyword, finds_symbol⟩

/-! ## First characters -/

/-- The characters that tokens of a kind may begin with. -/
def Begins : TokenKind → Char → Prop
  | .blank, c => isBlank c = true
  | .comment, c => c = ';'
  | .comma, c => c = ','
  | .opening bracket, c => c = bracket.openChar
  | .closing bracket, c => c = bracket.closeChar
  | .string, _ => False
  | .float, c | .integer, c | .keyword, c | .symbol, c => isSymbolChar c = true

theorem exists_begins_of_spells {kind : TokenKind} {l : List Char} (h : Spells kind l) :
    ∃ c cs, l = c :: cs ∧ Begins kind c := by
  cases kind with
  | blank =>
    obtain ⟨hne, hall⟩ := h
    obtain ⟨c, cs, rfl⟩ := List.exists_cons_of_ne_nil hne
    exact ⟨c, cs, rfl, hall c List.mem_cons_self⟩
  | comment =>
    obtain ⟨body, rfl, -⟩ := h
    exact ⟨_, _, rfl, rfl⟩
  | comma => exact ⟨_, _, h, rfl⟩
  | opening bracket => exact ⟨_, _, h, rfl⟩
  | closing bracket => exact ⟨_, _, h, rfl⟩
  | string => exact h.elim
  | float =>
    obtain ⟨sign, ds, fs, rfl, hsign, hds, -⟩ := h
    obtain ⟨c, cs, hfirst, hc⟩ := exists_first_of_digits hsign hds.1 hds.2
    exact ⟨c, cs ++ '.' :: fs, by rw [hfirst]; rfl, hc.isSymbolChar⟩
  | integer =>
    obtain ⟨sign, ds, rfl, hsign, hne, hds⟩ := h
    obtain ⟨c, cs, hfirst, hc⟩ := exists_first_of_digits hsign hne hds
    exact ⟨c, cs, hfirst, hc.isSymbolChar⟩
  | keyword =>
    obtain ⟨name, rfl, -⟩ := h
    exact ⟨_, _, rfl, (by decide : isSymbolChar ':' = true)⟩
  | symbol =>
    obtain ⟨c, cs, rfl, hc, -⟩ := h
    exact ⟨c, cs, rfl, isSymbolChar_of_isSymbolStart hc⟩

theorem not_begins_quote (kind : TokenKind) : ¬ Begins kind '"' := by
  cases kind with
  | opening bracket => cases bracket <;> simp [Begins, Bracket.openChar]
  | closing bracket => cases bracket <;> simp [Begins, Bracket.closeChar]
  | string => exact id
  | _ =>
    unfold Begins
    decide

/-- Where a separator begins, no token of another kind does. -/
theorem Begins.eq_of_isDiscarded {kind kind' : TokenKind} {c : Char} (h : Begins kind c)
    (hkind : kind.isDiscarded = true) (h' : Begins kind' c) : kind' = kind := by
  cases kind with
  | blank =>
    have hne : ∀ d, isBlank d = false → c ≠ d := by
      rintro d hd rfl
      rw [show isBlank c = true from h] at hd
      cases hd
    cases kind' with
    | blank => rfl
    | comment => exact absurd h' (hne _ (by decide))
    | comma => exact absurd h' (hne _ (by decide))
    | opening bracket => exact absurd h' (hne _ (by cases bracket <;> decide))
    | closing bracket => exact absurd h' (hne _ (by cases bracket <;> decide))
    | string => exact h'.elim
    | _ => exact absurd ((isSymbolChar_of_isBlank h).symm.trans h') (by decide)
  | comment | comma =>
    cases h
    revert h'
    cases kind' with
    | opening bracket => cases bracket <;> simp [Begins, Bracket.openChar]
    | closing bracket => cases bracket <;> simp [Begins, Bracket.closeChar]
    | string => exact False.elim
    | _ =>
      unfold Begins
      decide
  | _ => cases hkind

/-! ## Longest match -/

/-- The kinds of the rules, in order of precedence. -/
def precedence : List TokenKind := rules.map Prod.fst

/-- `l` is the longest first part of the text `l ++ rest` that is spelled as some kind, and `kind`
is the earliest of the kinds that it is spelled as. -/
structure Longest (kind : TokenKind) (l rest : List Char) : Prop where
  spelled : Spells kind l
  longest : ∀ kind' l' rest', l ++ rest = l' ++ rest' → Spells kind' l' → l'.length ≤ l.length
  earliest : ∃ before after, precedence = before ++ kind :: after ∧
    ∀ kind' ∈ before, ¬ Spells kind' l

theorem length_pos_of_spells {kind : TokenKind} {l : List Char} (h : Spells kind l) :
    0 < l.length := by
  obtain ⟨c, cs, rfl, -⟩ := exists_begins_of_spells h
  exact Nat.succ_pos _

/-- Every kind that is spelled at all has a rule. -/
theorem exists_rule_of_spells {kind : TokenKind} {l : List Char} (h : Spells kind l) :
    ∃ r ∈ rules, r.1 = kind := by
  have hmem : kind ∈ precedence := by
    cases kind with
    | opening bracket => cases bracket <;> decide
    | closing bracket => cases bracket <;> decide
    | string => exact h.elim
    | _ => decide
  exact List.mem_map.1 hmem

/-- Where no first part longer than `n` characters is spelled as a kind, no rule takes more. -/
theorem rule_le_of_spells_le {cs : List Char} {n : Nat}
    (h : ∀ kind l rest, cs = l ++ rest → Spells kind l → l.length ≤ n) :
    ∀ r ∈ rules, r.2 cs ≤ n := by
  intro r hr
  by_cases h0 : r.2 cs = 0
  · exact h0.le.trans (Nat.zero_le n)
  · have hspelled := (rule_longest r hr).spelled cs h0
    have hle := h r.1 _ _ (List.take_append_drop (r.2 cs) cs).symm hspelled
    rwa [List.length_take, Nat.min_eq_left (rule_le_length cs r hr)] at hle

theorem longest_of_longestMatch {kind : TokenKind} {l rest : List Char}
    (h : longestMatch (l ++ rest) = some (kind, l.length)) : Longest kind l rest := by
  obtain ⟨before, f, after, hrules, hn, hpos, hbefore⟩ := exists_split_of_longestMatch h
  have hfinds : Finds kind f := rule_longest (kind, f) (by rw [hrules]; simp)
  refine ⟨?_, fun kind' l' rest' hsplit hspells => ?_, before.map Prod.fst, after.map Prod.fst, ?_,
    fun kind' hkind' hspells => ?_⟩
  · have hspelled := hfinds.spelled (l ++ rest) (by omega)
    rwa [hn, List.take_left] at hspelled
  · obtain ⟨r, hr, rfl⟩ := exists_rule_of_spells hspells
    have hle := (rule_longest r hr).longest l' rest' hspells
    rw [← hsplit] at hle
    exact hle.trans (rule_le_of_longestMatch h r hr)
  · rw [precedence, hrules, List.map_append, List.map_cons]
  · obtain ⟨r, hr, rfl⟩ := List.mem_map.1 hkind'
    have hmem : r ∈ rules := by rw [hrules]; exact List.mem_append_left _ hr
    have hle := (rule_longest r hmem).longest l rest hspells
    exact absurd (hbefore r hr) (Nat.not_lt.2 hle)

theorem Longest.longestMatch {kind : TokenKind} {l rest : List Char} (h : Longest kind l rest) :
    Lexer.longestMatch (l ++ rest) = some (kind, l.length) := by
  obtain ⟨before, after, hprecedence, hbefore⟩ := h.earliest
  obtain ⟨rs, tail, hrules, rfl, htail⟩ := List.map_eq_append_iff.1 hprecedence
  obtain ⟨r, rs', rfl, rfl, -⟩ := List.map_eq_cons_iff.1 htail
  have hle := rule_le_of_spells_le h.longest
  have hmem : r ∈ rules := by rw [hrules]; simp
  have hwins : r.2 (l ++ rest) = l.length :=
    Nat.le_antisymm (hle r hmem) ((rule_longest r hmem).longest l rest h.spelled)
  refine longestMatch_eq_of_rules hrules hwins (length_pos_of_spells h.spelled)
    (fun r' hr' => ?_) fun r' hr' => hle r' (by rw [hrules]; simp [hr'])
  -- A rule before the winner that takes as much would spell the lexeme as an earlier kind.
  have hmem' : r' ∈ rules := by rw [hrules]; exact List.mem_append_left _ hr'
  refine lt_of_le_of_ne (hle r' hmem') fun heq => ?_
  have hpos := length_pos_of_spells h.spelled
  have hspelled := (rule_longest r' hmem').spelled (l ++ rest) (by omega)
  rw [heq, List.take_left] at hspelled
  exact hbefore r'.1 (List.mem_map_of_mem hr') hspelled

/-- Separators compete with separators of the same kind only. -/
theorem longest_of_isDiscarded {kind : TokenKind} {l rest : List Char}
    (hkind : kind.isDiscarded = true) (h : Spells kind l)
    (hlongest : ∀ l' rest', l ++ rest = l' ++ rest' → Spells kind l' → l'.length ≤ l.length) :
    Longest kind l rest := by
  have hunique : ∀ kind' l' rest', l ++ rest = l' ++ rest' → Spells kind' l' → kind' = kind := by
    intro kind' l' rest' hsplit h'
    obtain ⟨c, cs, rfl, hc⟩ := exists_begins_of_spells h
    obtain ⟨c', cs', rfl, hc'⟩ := exists_begins_of_spells h'
    injection hsplit with hsplit
    exact hc.eq_of_isDiscarded hkind (hsplit ▸ hc')
  have hmem : kind ∈ precedence := List.mem_map.2 (exists_rule_of_spells h)
  obtain ⟨before, after, hprecedence⟩ := List.append_of_mem hmem
  have hnodup : (before ++ kind :: after).Nodup := hprecedence ▸ (by decide : precedence.Nodup)
  refine ⟨h, fun kind' l' rest' hsplit h' => ?_, before, after, hprecedence,
    fun kind' hkind' h' => ?_⟩
  · rw [hunique kind' l' rest' hsplit h'] at h'
    exact hlongest l' rest' hsplit h'
  · rw [hunique kind' l rest rfl h'] at hkind'
    exact (List.nodup_append.1 hnodup).2.2 kind hkind' kind List.mem_cons_self rfl

theorem longestMatch_eq_none_iff {cs : List Char} :
    longestMatch cs = none ↔ ∀ kind l rest, cs = l ++ rest → ¬ Spells kind l := by
  constructor
  · rintro hnone kind l rest rfl hspells
    obtain ⟨r, hr, rfl⟩ := exists_rule_of_spells hspells
    have hle := (le_matchLength_foldl (l ++ rest) rules none).2 r hr
    rw [← longestMatch_eq, hnone] at hle
    have hpos := length_pos_of_spells hspells
    exact absurd (((rule_longest r hr).longest l rest hspells).trans hle) (Nat.not_le.2 hpos)
  · intro h
    cases hmatch : longestMatch cs with
    | none => rfl
    | some best =>
      obtain ⟨r, hr, -, hn, hpos⟩ := exists_rule_of_longestMatch hmatch
      have hspelled := (rule_longest r hr).spelled cs (by omega)
      exact absurd hspelled (h r.1 _ _ (List.take_append_drop _ cs).symm)

end Lexer

end AllocScript
