import Mathlib
import AllocScript.Node.Printer
import AllocScript.Proofs.Decimal.Text
import AllocScript.Proofs.Node.Grammar
import AllocScript.Proofs.Token.Lexer
import AllocScript.Proofs.Token.Literal
import AllocScript.Source

/-!
# The canonical text is read back

A tree is well formed if its lists are not too deep, its maps have as many keys as values, and its
symbols are spelled as one token. The canonical text of such a tree is read as the same tree, except
that the nodes begin elsewhere (`Node.WellFormed.roundTrips`).

The canonical text is scanned into the tokens of a derivation of the tree
(`Node.exists_derivation`), and the grammar does the rest. The lexemes end where they should
because what follows a node in a canonical text is a boundary: a blank, a closing bracket or
nothing.
-/

namespace AllocScript

open Lexer

namespace Node

/-! ## Trees up to positions -/

mutual

/-- The tree with all nodes at byte 0. -/
def erasePositions : Node → Node
  | atom a _ => atom a 0
  | list kind children _ => list kind (eraseAllPositions children) 0

def eraseAllPositions : List Node → List Node
  | [] => []
  | n :: ns => n.erasePositions :: eraseAllPositions ns

end

mutual

@[simp] theorem depth_erasePositions (n : Node) : n.erasePositions.depth = n.depth := by
  cases n with
  | atom => rfl
  | list kind children p => simp only [erasePositions, depth, depthOfAll_eraseAllPositions children]

@[simp] theorem depthOfAll_eraseAllPositions (ns : List Node) :
    depthOfAll (eraseAllPositions ns) = depthOfAll ns := by
  cases ns with
  | nil => rfl
  | cons n ns =>
    simp only [eraseAllPositions, depthOfAll, depth_erasePositions n,
      depthOfAll_eraseAllPositions ns]

end

mutual

@[simp] theorem renderChars_erasePositions (n : Node) :
    n.erasePositions.renderChars = n.renderChars := by
  cases n with
  | atom => rfl
  | list kind children p =>
    simp only [erasePositions, renderChars, renderAll_eraseAllPositions children]

theorem renderAll_eraseAllPositions (ns : List Node) :
    renderAll (eraseAllPositions ns) = renderAll ns := by
  cases ns with
  | nil => rfl
  | cons n ns =>
    simp only [eraseAllPositions, renderAll, renderChars_erasePositions n,
      renderTail_eraseAllPositions ns]

theorem renderTail_eraseAllPositions (ns : List Node) :
    renderTail (eraseAllPositions ns) = renderTail ns := by
  cases ns with
  | nil => rfl
  | cons n ns =>
    simp only [eraseAllPositions, renderTail, renderChars_erasePositions n,
      renderTail_eraseAllPositions ns]

end

theorem length_eraseAllPositions (ns : List Node) : (eraseAllPositions ns).length = ns.length := by
  induction ns with
  | nil => rfl
  | cons n ns ih => simp only [eraseAllPositions, List.length_cons, ih]

/-! ## Well-formed trees -/

/-- A text that is one token, a symbol or a keyword. -/
def IsSymbolText (name : String) : Prop :=
  tokenize name = .ok [⟨.symbol, name, 0⟩] ∨ tokenize name = .ok [⟨.keyword, name, 0⟩]

mutual

/-- Every symbol of a tree is spelled as one token. -/
def Spelled : Node → Prop
  | atom (.symbol name) _ => IsSymbolText name
  | atom _ _ => True
  | list _ children _ => AllSpelled children

def AllSpelled : List Node → Prop
  | [] => True
  | n :: ns => n.Spelled ∧ AllSpelled ns

end

/-- A tree that a text can have. -/
structure WellFormed (n : Node) : Prop where
  depth : n.depth ≤ maxDepth
  evenMaps : n.EvenMaps
  spelled : n.Spelled

theorem isSymbolText_iff {name : String} :
    IsSymbolText name ↔
      ∃ kind, (kind = .symbol ∨ kind = .keyword) ∧ Word kind name.toList := by
  constructor
  · rintro (h | h)
    · exact ⟨_, .inl rfl, word_of_tokenize (.inl rfl) h⟩
    · exact ⟨_, .inr rfl, word_of_tokenize (.inr rfl) h⟩
  · rintro ⟨kind, rfl | rfl, h⟩
    · exact .inl (tokenize_of_word (.inl rfl) h)
    · exact .inr (tokenize_of_word (.inr rfl) h)

end Node

/-! ## Lexemes of leaves -/

theorem Decimal.word_renderChars (d : Decimal) :
    ∃ kind, (kind = .integer ∨ kind = .float) ∧ Word kind d.renderChars := by
  have hsign : IsSign (if d.isNegative then ['-'] else []) := by
    cases d.isNegative
    · exact .inl rfl
    · exact .inr (.inl rfl)
  have hne : Nat.toDigits 10 (d.coefficient.natAbs / 10 ^ d.scale) ≠ [] := Nat.toDigits_ne_nil
  have hdigits : ∀ c ∈ Nat.toDigits 10 (d.coefficient.natAbs / 10 ^ d.scale), c.isDigit = true :=
    fun c hc => Nat.isDigit_of_mem_toDigits (by decide) (by decide) hc
  rw [renderChars_eq, digitChars]
  by_cases hs : d.scale = 0
  · rw [if_pos hs, List.append_nil]
    exact ⟨_, .inl rfl, word_integer hsign hne hdigits⟩
  · rw [if_neg hs, ← List.append_assoc]
    refine ⟨_, .inr rfl, word_float hsign hne hdigits ?_ fun c hc => isDigit_of_mem_lastDigits hc⟩
    rw [← List.length_pos_iff, length_lastDigits]
    omega

theorem Decimal.withoutPlus_renderChars (d : Decimal) :
    Token.withoutPlus d.renderChars = d.renderChars := by
  obtain ⟨c, cs, hcs, hc⟩ := exists_digitChars_eq d
  rw [renderChars_eq, hcs]
  cases d.isNegative with
  | true => rfl
  | false =>
    show Token.withoutPlus (c :: cs) = c :: cs
    unfold Token.withoutPlus
    split
    · rename_i heq
      injection heq with heq
      rw [heq] at hc
      cases hc
    · rfl

/-- The brackets that a list is written in. -/
def ListKind.bracket : ListKind → Bracket
  | .plain => .round
  | .map => .curly

namespace Node

/-- The lexeme of a leaf: its kind, what it stands for, its beginning and its end. -/
theorem exists_lexeme (a : Atom) (h : ∀ name, a = .symbol name → IsSymbolText name) :
    ∃ kind, (∀ position, Token.Reads ⟨kind, String.ofList a.renderChars, position⟩ a) ∧
      (∃ c cs, a.renderChars = c :: cs ∧ isBlank c = false) ∧
      ∀ position rest, Boundary rest →
        cut position (a.renderChars ++ rest) = .ok (kind, a.renderChars.length) := by
  cases a with
  | number d =>
    obtain ⟨kind, hkind, hword⟩ := d.word_renderChars
    obtain ⟨c, cs, hfirst, hc⟩ := hword.first
    refine ⟨kind, fun position => .number hkind ?_, ⟨c, cs, hfirst, isBlank_of_isSymbolChar hc⟩,
      fun position rest hrest => hword.cut hrest position⟩
    rw [String.toList_ofList]
    exact (congrArg _ d.withoutPlus_renderChars).trans d.readChars_renderChars
  | string s =>
    refine ⟨.string, fun position => ?_, ⟨'"', _, rfl, rfl⟩,
      fun position rest _ => cut_literal position s rest⟩
    have hreads := Token.Reads.string (t := ⟨.string, String.ofList (literal s), position⟩) rfl
    rwa [Token.unescape_literal] at hreads
  | symbol name =>
    obtain ⟨kind, hkind, hword⟩ := isSymbolText_iff.1 (h name rfl)
    obtain ⟨c, cs, hfirst, hc⟩ := hword.first
    refine ⟨kind, fun position => ?_, ⟨c, cs, hfirst, isBlank_of_isSymbolChar hc⟩,
      fun position rest hrest => hword.cut hrest position⟩
    show Token.Reads ⟨kind, String.ofList name.toList, position⟩ (.symbol name)
    rw [String.ofList_toList]
    exact .symbol hkind

theorem exists_first_renderChars {n : Node} (h : n.Spelled) :
    ∃ c cs, n.renderChars = c :: cs ∧ isBlank c = false := by
  cases n with
  | atom a p =>
    obtain ⟨kind, -, hfirst, -⟩ := exists_lexeme a (by rintro name rfl; exact h)
    exact hfirst
  | list kind children p => cases kind <;> exact ⟨_, _, rfl, rfl⟩

/-! ## The scan of a canonical text -/

/-- The text before a boundary is scanned into these tokens. -/
def Scans (position : Nat) (text : List Char) (tokens : List Token) : Prop :=
  ∀ done rest, Boundary rest →
    Scan.scanFrom done 0 position (text ++ rest) =
      Scan.scanFrom (tokens.reverse ++ done) 0 (position + byteLength text) rest

theorem scans_nil (position : Nat) : Scans position [] [] := by
  intro done rest _
  rfl

theorem Scans.append {position : Nat} {text text' : List Char} {ts us : List Token}
    (h : Scans position text ts) (h' : Scans (position + byteLength text) text' us)
    (hboundary : ∀ rest, Boundary rest → Boundary (text' ++ rest)) :
    Scans position (text ++ text') (ts ++ us) := by
  intro done rest hrest
  rw [List.append_assoc, h done _ (hboundary rest hrest), h' _ rest hrest, byteLength_append,
    List.reverse_append, List.append_assoc, Nat.add_assoc]

theorem scans_lexeme {position : Nat} {kind : TokenKind} {l : List Char} (hl : l ≠ [])
    (hkind : kind.isDiscarded = false)
    (hcut : ∀ rest, Boundary rest → cut position (l ++ rest) = .ok (kind, l.length)) :
    Scans position l [⟨kind, String.ofList l, position⟩] := by
  intro done rest hrest
  rw [Scan.scanFrom_lexeme done rest hl (hcut rest hrest), hkind]
  rfl

theorem cut_openChar (kind : ListKind) (position : Nat) (rest : List Char) :
    cut position (kind.openChar :: rest) = .ok (.opening kind.bracket, 1) := by
  cases kind <;> rfl

theorem cut_closeChar (kind : ListKind) (position : Nat) (rest : List Char) :
    cut position (kind.closeChar :: rest) = .ok (.closing kind.bracket, 1) := by
  cases kind <;> rfl

theorem boundary_closeChar (kind : ListKind) (rest : List Char) :
    Boundary (kind.closeChar :: rest) :=
  boundary_cons (by cases kind <;> decide) rest

theorem boundary_renderTail (ns : List Node) {rest : List Char} (h : Boundary rest) :
    Boundary (renderTail ns ++ rest) := by
  cases ns with
  | nil => exact h
  | cons n ns => exact boundary_cons (by decide) _

/-- One blank before a node is a lexeme. -/
theorem cut_blank (position : Nat) {c : Char} (hc : isBlank c = false) (cs : List Char) :
    cut position (' ' :: c :: cs) = .ok (.blank, 1) := by
  have hblank : matchBlank (' ' :: c :: cs) = 1 := by
    rw [matchBlank, spanLength_cons_of_pos rfl, spanLength_cons_of_neg hc]
  have hothers : ∀ r ∈ rules.drop 1, r.2 (' ' :: c :: cs) ≤ 1 := by
    simp only [rules, List.drop_succ_cons, List.drop_zero, List.forall_mem_cons, List.not_mem_nil,
      false_imp_iff, implies_true, and_true]
    exact ⟨Nat.zero_le _, Nat.zero_le _, Nat.zero_le _, Nat.zero_le _, Nat.zero_le _,
      Nat.zero_le _, Nat.zero_le _, Nat.zero_le _, Nat.zero_le _, Nat.zero_le _, Nat.zero_le _,
      Nat.zero_le _⟩
  have hrules : rules = [] ++ (.blank, matchBlank) :: rules.drop 1 := rfl
  rw [cut_of_ne (by decide), longestMatch_eq_of_rules hrules hblank Nat.one_pos
    (fun r hr => by cases hr) hothers]

theorem scans_renderTail_cons {position : Nat} {n : Node} {ns : List Node} {ts us : List Token}
    (hn : n.Spelled) (hts : Scans (position + 1) n.renderChars ts)
    (hus : Scans (position + 1 + byteLength n.renderChars) (renderTail ns) us) :
    Scans position (renderTail (n :: ns)) (ts ++ us) := by
  intro done rest hrest
  have hnode := hts.append hus fun _ => boundary_renderTail ns
  obtain ⟨c, cs, hfirst, hc⟩ := exists_first_renderChars hn
  have hblank : cut position ([' '] ++ (n.renderChars ++ renderTail ns ++ rest)) =
      .ok (.blank, [' '].length) := by
    rw [hfirst]
    exact cut_blank position hc _
  have hspace : byteLength [' '] = 1 := rfl
  calc Scan.scanFrom done 0 position (renderTail (n :: ns) ++ rest)
      = Scan.scanFrom done 0 position ([' '] ++ (n.renderChars ++ renderTail ns ++ rest)) := rfl
    _ = Scan.scanFrom done 0 (position + 1) (n.renderChars ++ renderTail ns ++ rest) :=
        Scan.scanFrom_lexeme done _ (List.cons_ne_nil _ _) hblank
    _ = _ := by
        rw [hnode done rest hrest]
        congr 1
        rw [Nat.add_assoc, ← hspace, ← byteLength_append]
        rfl

theorem scans_list {position : Nat} {children : List Node} {ts : List Token}
    (h : Scans (position + 1) (renderAll children) ts) (kind : ListKind) (p : Nat) :
    Scans position (list kind children p).renderChars
      (⟨.opening kind.bracket, String.ofList [kind.openChar], position⟩ :: ts ++
        [⟨.closing kind.bracket, String.ofList [kind.closeChar],
          position + 1 + byteLength (renderAll children)⟩]) := by
  intro done rest hrest
  have hopen : byteLength [kind.openChar] = 1 := by cases kind <;> rfl
  have hclose : byteLength [kind.closeChar] = 1 := by cases kind <;> rfl
  have hlength : byteLength (list kind children p).renderChars =
      1 + byteLength (renderAll children) + 1 := by
    rw [renderChars, ← List.singleton_append, byteLength_append, byteLength_append, hopen, hclose]
  calc Scan.scanFrom done 0 position ((list kind children p).renderChars ++ rest)
      = Scan.scanFrom done 0 position
          ([kind.openChar] ++ (renderAll children ++ ([kind.closeChar] ++ rest))) := by
        simp only [renderChars, List.cons_append, List.append_assoc, List.nil_append]
    _ = Scan.scanFrom (⟨.opening kind.bracket, String.ofList [kind.openChar], position⟩ :: done) 0
          (position + 1) (renderAll children ++ ([kind.closeChar] ++ rest)) := by
        rw [Scan.scanFrom_lexeme done _ (List.cons_ne_nil _ _) (cut_openChar kind position _),
          hopen]
        rfl
    _ = Scan.scanFrom (ts.reverse ++
            (⟨.opening kind.bracket, String.ofList [kind.openChar], position⟩ :: done)) 0
          (position + 1 + byteLength (renderAll children)) ([kind.closeChar] ++ rest) :=
        h _ _ (boundary_closeChar kind rest)
    _ = _ := by
        rw [Scan.scanFrom_lexeme _ rest (List.cons_ne_nil _ _) (cut_closeChar kind _ _), hclose,
          hlength]
        simp only [TokenKind.isDiscarded, Bool.false_eq_true, if_false, List.reverse_append,
          List.reverse_cons, List.reverse_nil, List.nil_append, List.append_assoc,
          List.cons_append]
        congr 1
        omega

mutual

/-- The canonical text of a tree is scanned into the tokens of a derivation of it. -/
theorem exists_derivation (n : Node) (hspelled : n.Spelled) (heven : n.EvenMaps)
    (position : Nat) :
    ∃ d : Derivation, d.Valid ∧ d.tree.erasePositions = n.erasePositions ∧
      Scans position n.renderChars d.tokens := by
  cases n with
  | atom a p =>
    obtain ⟨kind, hreads, ⟨c, cs, hfirst, -⟩, hcut⟩ :=
      exists_lexeme a (by rintro name rfl; exact hspelled)
    have hne : a.renderChars ≠ [] := by
      rw [hfirst]
      exact List.cons_ne_nil c cs
    have hvalid : (Derivation.leaf ⟨kind, String.ofList a.renderChars, position⟩ a).Valid :=
      hreads position
    have hkind := Derivation.isDiscarded_of_mem_tokens hvalid _ List.mem_cons_self
    exact ⟨_, hvalid, rfl, scans_lexeme hne hkind (hcut position)⟩
  | list kind children p =>
    obtain ⟨ds, hds, herase, hscans⟩ := exists_derivations children hspelled heven.2 (position + 1)
    have hcount : ds.length = children.length := by
      have hlength := congrArg List.length herase
      rwa [length_eraseAllPositions, length_eraseAllPositions,
        Derivation.treesOfAll_length] at hlength
    refine ⟨.list kind.bracket _ _ ds, ⟨rfl, rfl, ?_, hds⟩, ?_, scans_list hscans kind p⟩
    · intro hcurly
      rw [hcount]
      apply heven.1
      cases kind with
      | map => rfl
      | plain => cases hcurly
    · cases kind <;> simp only [Derivation.tree, erasePositions, herase] <;> rfl

theorem exists_derivations (ns : List Node) (hspelled : AllSpelled ns) (heven : AllEvenMaps ns)
    (position : Nat) :
    ∃ ds : List Derivation, Derivation.AllValid ds ∧
      eraseAllPositions (Derivation.treesOfAll ds) = eraseAllPositions ns ∧
      Scans position (renderAll ns) (Derivation.tokensOfAll ds) := by
  cases ns with
  | nil => exact ⟨[], trivial, rfl, scans_nil position⟩
  | cons n ns =>
    obtain ⟨d, hd, hderase, hdscans⟩ := exists_derivation n hspelled.1 heven.1 position
    obtain ⟨ds, hds, hdserase, hdsscans⟩ := exists_derivations_tail ns hspelled.2 heven.2
      (position + byteLength n.renderChars)
    refine ⟨d :: ds, ⟨hd, hds⟩, ?_, hdscans.append hdsscans fun _ => boundary_renderTail ns⟩
    simp only [Derivation.treesOfAll, eraseAllPositions, hderase, hdserase]

theorem exists_derivations_tail (ns : List Node) (hspelled : AllSpelled ns)
    (heven : AllEvenMaps ns) (position : Nat) :
    ∃ ds : List Derivation, Derivation.AllValid ds ∧
      eraseAllPositions (Derivation.treesOfAll ds) = eraseAllPositions ns ∧
      Scans position (renderTail ns) (Derivation.tokensOfAll ds) := by
  cases ns with
  | nil => exact ⟨[], trivial, rfl, scans_nil position⟩
  | cons n ns =>
    obtain ⟨d, hd, hderase, hdscans⟩ := exists_derivation n hspelled.1 heven.1 (position + 1)
    obtain ⟨ds, hds, hdserase, hdsscans⟩ := exists_derivations_tail ns hspelled.2 heven.2
      (position + 1 + byteLength n.renderChars)
    refine ⟨d :: ds, ⟨hd, hds⟩, ?_, scans_renderTail_cons hspelled.1 hdscans hdsscans⟩
    simp only [Derivation.treesOfAll, eraseAllPositions, hderase, hdserase]

end

/-! ## Round trips -/

/-- The canonical text of a tree is tokens that are parsed as the same tree up to positions, so it
is the canonical text of that tree too. It is the text of a strategy if it is not too long. -/
def RoundTrips (n : Node) : Prop :=
  ∃ tokens n', tokenize n.render = .ok tokens ∧ ofTokens tokens = .ok n' ∧
    n'.erasePositions = n.erasePositions ∧ n'.render = n.render ∧
    (n.render.utf8ByteSize ≤ maxSourceBytes → ofSource n.render = .ok n')

theorem WellFormed.roundTrips {n : Node} (h : n.WellFormed) : n.RoundTrips := by
  obtain ⟨d, hd, herase, hscans⟩ := exists_derivation n h.spelled h.evenMaps 0
  have htokens : tokenize n.render = .ok d.tokens := by
    have hscan := hscans [] [] boundary_nil
    rw [List.append_nil] at hscan
    rw [tokenize_eq_ok_iff, render, String.toList_ofList, hscan]
    simp [Scan.scanFrom]
  have hdepth : d.tree.depth ≤ maxDepth := by
    rw [← depth_erasePositions, herase, depth_erasePositions]
    exact h.depth
  have hparse := ofTokens_of_derives (Derivation.derives_tokens hd) hdepth
  have hrender : d.tree.render = n.render := by
    unfold render
    rw [← renderChars_erasePositions, herase, renderChars_erasePositions]
  refine ⟨d.tokens, d.tree, htokens, hparse, herase, hrender, fun hsize => ?_⟩
  exact ofSource_eq_ok_iff.2 ⟨hsize, ofText_eq_ok_iff.2 ⟨d.tokens, htokens, hparse⟩⟩

mutual

/-- The symbols of a derivation are spelled as its tokens are. -/
theorem spelled_tree {d : Derivation} (hvalid : d.Valid)
    (hwords : ∀ t ∈ d.tokens, t.kind = .symbol ∨ t.kind = .keyword → Word t.kind t.lexeme.toList) :
    d.tree.Spelled := by
  cases d with
  | leaf token a =>
    cases hvalid with
    | string => trivial
    | symbol h => exact isSymbolText_iff.2 ⟨_, h, hwords token List.mem_cons_self h⟩
    | number => trivial
  | list bracket opener closer children =>
    refine allSpelled_treesOfAll hvalid.2.2.2 fun t ht => hwords t ?_
    simp only [Derivation.tokens, List.cons_append, List.mem_cons, List.mem_append, ht, true_or,
      or_true]

theorem allSpelled_treesOfAll {ds : List Derivation} (hvalid : Derivation.AllValid ds)
    (hwords : ∀ t ∈ Derivation.tokensOfAll ds, t.kind = .symbol ∨ t.kind = .keyword →
      Word t.kind t.lexeme.toList) :
    AllSpelled (Derivation.treesOfAll ds) := by
  cases ds with
  | nil => trivial
  | cons d ds =>
    exact ⟨spelled_tree hvalid.1 fun t ht => hwords t (List.mem_append_left _ ht),
      allSpelled_treesOfAll hvalid.2 fun t ht => hwords t (List.mem_append_right _ ht)⟩

end

/-- A tree that comes from a text is well formed. -/
theorem wellFormed_of_ofTokens {source : String} {tokens : List Token} {n : Node}
    (htokens : tokenize source = .ok tokens) (hn : ofTokens tokens = .ok n) : n.WellFormed := by
  obtain ⟨d, hd, hdepth, rfl⟩ := exists_derives_of_ofTokens hn
  refine ⟨hdepth, Derivation.tree_evenMaps hd.1, spelled_tree hd.1 fun t ht hkind => ?_⟩
  rw [hd.2] at ht
  have hmem : t ∈ (Scan.scanFrom [] 0 0 source.toList).tokens := by
    rw [tokenize_eq_ok_iff.1 htokens]
    exact List.mem_of_mem_filter ht
  exact Scan.word_of_mem_tokens hmem hkind

theorem wellFormed_of_ofSource {source : String} {n : Node} (h : ofSource source = .ok n) :
    n.WellFormed := by
  obtain ⟨tokens, htokens, hn⟩ := ofText_eq_ok_iff.1 (ofSource_eq_ok_iff.1 h).2
  exact wellFormed_of_ofTokens htokens hn

/-- **Canonical texts are read back**: those of the trees of all texts, and those of all
well-formed trees. -/
theorem render_roundTrips :
    (∀ source tokens n, tokenize source = .ok tokens → ofTokens tokens = .ok n → n.RoundTrips) ∧
    ∀ n : Node, n.WellFormed → n.RoundTrips :=
  ⟨fun _ _ _ htokens hn => (wellFormed_of_ofTokens htokens hn).roundTrips,
    fun _ h => h.roundTrips⟩

/-- A map of a symbol that begins like a number to a string with a quote and a line feed. -/
theorem numberLike_roundTrips :
    (list .map [atom (.symbol "-5x") 3, atom (.string "a\"\n") 9] 2).RoundTrips := by
  have heven : (list .map [atom (.symbol "-5x") 3, atom (.string "a\"\n") 9] 2).EvenMaps :=
    ⟨fun _ => rfl, trivial, trivial, trivial⟩
  have hspelled : (list .map [atom (.symbol "-5x") 3, atom (.string "a\"\n") 9] 2).Spelled :=
    ⟨.inl rfl, trivial, trivial⟩
  exact render_roundTrips.2 _ ⟨by decide, heven, hspelled⟩

end Node

end AllocScript
