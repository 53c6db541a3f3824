import Mathlib
import AllocScript.Node.Parser
import AllocScript.Source

/-!
# The grammar of expressions

`Derivation` is a derivation of the grammar

    expr := string | symbol | keyword | number | ( expr* ) | [ expr* ] | { (expr expr)* }

with the tokens that it reads (`Derivation.tokens`) and the tree that it stands for
(`Derivation.tree`). Discarded tokens have no part in it.

* **Uniqueness** (`Derivation.eq_of_tokens`): tokens have at most one derivation. The proof is that
  no derivation reads a proper beginning of what another one reads (`tokens_append_inj`).
* **Completeness** (`run_derivation`): the parser goes over the tokens of a derivation and adds its
  tree to the innermost open list, if the tree is not too deep there.
* **Soundness** (`Reached.step`, `Reached.run`): the open lists of the parser are derivations that
  lack their end, and each token keeps them so.
-/

namespace AllocScript

/-! ## Derivations -/

/-- The characters of a number without a plus sign in front. -/
def Token.withoutPlus : List Char → List Char
  | '+' :: cs => cs
  | cs => cs

/-- What a token stands for that is an expression of its own. -/
inductive Token.Reads (t : Token) : Atom → Prop where
  | string (h : t.kind = .string) : Reads t (.string (unescape t.lexeme))
  | symbol (h : t.kind = .symbol ∨ t.kind = .keyword) : Reads t (.symbol t.lexeme)
  | number {d : Decimal} (h : t.kind = .integer ∨ t.kind = .float)
      (hd : Decimal.readChars (withoutPlus t.lexeme.toList) = .ok d) :
      Reads t (.number d)

inductive Derivation where
  | leaf (token : Token) (atom : Atom)
  | list (bracket : Bracket) (opener closer : Token) (children : List Derivation)

namespace Derivation

mutual

/-- Every part of a derivation is an instance of a rule of the grammar. -/
def Valid : Derivation → Prop
  | leaf token atom => token.Reads atom
  | list bracket opener closer children =>
    opener.kind = .opening bracket ∧ closer.kind = .closing bracket ∧
      (bracket = .curly → children.length % 2 = 0) ∧ AllValid children

def AllValid : List Derivation → Prop
  | [] => True
  | d :: ds => d.Valid ∧ AllValid ds

end

mutual

/-- The tokens that a derivation reads. -/
def tokens : Derivation → List Token
  | leaf token _ => [token]
  | list _ opener closer children => opener :: tokensOfAll children ++ [closer]

def tokensOfAll : List Derivation → List Token
  | [] => []
  | d :: ds => d.tokens ++ tokensOfAll ds

end

mutual

/-- The tree that a derivation stands for. A node begins where its first token does. -/
def tree : Derivation → Node
  | leaf token atom => .atom atom token.position
  | list bracket opener _ children =>
    .list (Parser.listKind bracket) (treesOfAll children) opener.position

def treesOfAll : List Derivation → List Node
  | [] => []
  | d :: ds => d.tree :: treesOfAll ds

end

/-- A derivation of a token sequence reads the tokens that have a meaning. -/
def Derives (d : Derivation) (ts : List Token) : Prop :=
  d.Valid ∧ d.tokens = ts.filter fun t => !t.kind.isDiscarded

@[simp] theorem tokensOfAll_append (ds es : List Derivation) :
    tokensOfAll (ds ++ es) = tokensOfAll ds ++ tokensOfAll es := by
  induction ds with
  | nil => rfl
  | cons d ds ih => simp only [List.cons_append, tokensOfAll, ih, List.append_assoc]

@[simp] theorem treesOfAll_append (ds es : List Derivation) :
    treesOfAll (ds ++ es) = treesOfAll ds ++ treesOfAll es := by
  induction ds with
  | nil => rfl
  | cons d ds ih => simp only [List.cons_append, treesOfAll, ih]

theorem treesOfAll_length (ds : List Derivation) : (treesOfAll ds).length = ds.length := by
  induction ds with
  | nil => rfl
  | cons d ds ih => simp only [treesOfAll, List.length_cons, ih]

theorem allValid_append {ds es : List Derivation} :
    AllValid (ds ++ es) ↔ AllValid ds ∧ AllValid es := by
  induction ds with
  | nil => simp [AllValid]
  | cons d ds ih => simp only [List.cons_append, AllValid, ih, and_assoc]

/-! ## Uniqueness -/

theorem reads_unique {t : Token} {a b : Atom} (ha : t.Reads a) (hb : t.Reads b) : a = b := by
  cases ha with
  | string h =>
    cases hb with
    | string => rfl
    | symbol h' => rw [h] at h'; simp at h'
    | number h' => rw [h] at h'; simp at h'
  | symbol h =>
    cases hb with
    | string h' => rw [h'] at h; simp at h
    | symbol => rfl
    | number h' => rcases h with h | h <;> rw [h] at h' <;> simp at h'
  | number h hd =>
    cases hb with
    | string h' => rw [h'] at h; simp at h
    | symbol h' => rcases h with h | h <;> rw [h] at h' <;> simp at h'
    | number _ hd' =>
      rw [hd] at hd'
      injection hd' with hd'
      rw [hd']

/-- The kinds of tokens that are expressions of their own. -/
theorem kind_of_reads {t : Token} {a : Atom} (h : t.Reads a) :
    t.kind = .string ∨ t.kind = .symbol ∨ t.kind = .keyword ∨ t.kind = .integer ∨
      t.kind = .float := by
  cases h with
  | string h => exact .inl h
  | symbol h => rcases h with h | h <;> simp [h]
  | number h => rcases h with h | h <;> simp [h]

/-- A derivation does not begin with a closing bracket. -/
theorem exists_first {d : Derivation} (h : d.Valid) :
    ∃ t ts, d.tokens = t :: ts ∧ t.kind.isCloser = false := by
  cases d with
  | leaf token atom =>
    refine ⟨token, [], rfl, ?_⟩
    rcases kind_of_reads h with h | h | h | h | h <;> rw [h] <;> rfl
  | list bracket opener closer children =>
    refine ⟨opener, tokensOfAll children ++ [closer], rfl, ?_⟩
    rw [h.1]
    rfl

mutual

/-- No derivation reads a proper beginning of what another one reads. -/
theorem tokens_append_inj {d e : Derivation} {r s : List Token} (hd : d.Valid) (he : e.Valid)
    (h : d.tokens ++ r = e.tokens ++ s) : d = e ∧ r = s := by
  cases d with
  | leaf t a =>
    cases e with
    | leaf u b =>
      obtain ⟨rfl, rfl⟩ := List.cons.inj h
      exact ⟨by rw [reads_unique hd he], rfl⟩
    | list bracket opener closer children =>
      obtain ⟨rfl, -⟩ := List.cons.inj h
      rcases kind_of_reads hd with hk | hk | hk | hk | hk <;> simp [he.1] at hk
  | list bracket opener closer children =>
    cases e with
    | leaf u b =>
      obtain ⟨rfl, -⟩ := List.cons.inj h
      rcases kind_of_reads he with hk | hk | hk | hk | hk <;> simp [hd.1] at hk
    | list bracket' opener' closer' children' =>
      simp only [tokens, List.cons_append, List.append_assoc, List.nil_append] at h
      obtain ⟨rfl, htail⟩ := List.cons.inj h
      have hbracket : bracket = bracket' := by
        have hkind := hd.1.symm.trans he.1
        injection hkind
      obtain ⟨rfl, rfl, hrest⟩ := tokensOfAll_append_inj hd.2.2.2 he.2.2.2
        (by rw [hd.2.1]; rfl) (by rw [he.2.1]; rfl) htail
      exact ⟨by rw [hbracket], hrest⟩

/-- The children of a list end at its closing bracket. -/
theorem tokensOfAll_append_inj {ds es : List Derivation} {c c' : Token} {r s : List Token}
    (hds : AllValid ds) (hes : AllValid es) (hc : c.kind.isCloser = true)
    (hc' : c'.kind.isCloser = true) (h : tokensOfAll ds ++ c :: r = tokensOfAll es ++ c' :: s) :
    ds = es ∧ c = c' ∧ r = s := by
  cases ds with
  | nil =>
    cases es with
    | nil =>
      obtain ⟨rfl, rfl⟩ := List.cons.inj h
      exact ⟨rfl, rfl, rfl⟩
    | cons e es =>
      obtain ⟨t, ts, ht, hopen⟩ := exists_first hes.1
      simp only [tokensOfAll, ht, List.nil_append, List.cons_append] at h
      obtain ⟨rfl, -⟩ := List.cons.inj h
      rw [hc] at hopen
      cases hopen
  | cons d ds =>
    cases es with
    | nil =>
      obtain ⟨t, ts, ht, hopen⟩ := exists_first hds.1
      simp only [tokensOfAll, ht, List.nil_append, List.cons_append] at h
      obtain ⟨rfl, -⟩ := List.cons.inj h
      rw [hc'] at hopen
      cases hopen
    | cons e es =>
      simp only [tokensOfAll, List.append_assoc] at h
      obtain ⟨rfl, hrest⟩ := tokens_append_inj hds.1 hes.1 h
      obtain ⟨rfl, rfl, rfl⟩ := tokensOfAll_append_inj hds.2 hes.2 hc hc' hrest
      exact ⟨rfl, rfl, rfl⟩

end

/-- **Derivations are unique.** -/
theorem eq_of_tokens {d e : Derivation} (hd : d.Valid) (he : e.Valid)
    (h : d.tokens = e.tokens) : d = e := by
  have happend : d.tokens ++ [] = e.tokens ++ [] := by rw [h]
  exact (tokens_append_inj hd he happend).1

mutual

/-- All tokens of a derivation have a meaning. -/
theorem isDiscarded_of_mem_tokens {d : Derivation} (h : d.Valid) :
    ∀ t ∈ d.tokens, t.kind.isDiscarded = false := by
  intro t ht
  cases d with
  | leaf token atom =>
    obtain rfl := List.mem_singleton.1 ht
    rcases kind_of_reads h with h | h | h | h | h <;> rw [h] <;> rfl
  | list bracket opener closer children =>
    simp only [tokens, List.cons_append, List.mem_cons, List.mem_append, List.not_mem_nil,
      or_false] at ht
    rcases ht with rfl | ht | rfl
    · rw [h.1]; rfl
    · exact isDiscarded_of_mem_tokensOfAll h.2.2.2 t ht
    · rw [h.2.1]; rfl

theorem isDiscarded_of_mem_tokensOfAll {ds : List Derivation} (h : AllValid ds) :
    ∀ t ∈ tokensOfAll ds, t.kind.isDiscarded = false := by
  intro t ht
  cases ds with
  | nil => cases ht
  | cons d ds =>
    rcases List.mem_append.1 ht with ht | ht
    · exact isDiscarded_of_mem_tokens h.1 t ht
    · exact isDiscarded_of_mem_tokensOfAll h.2 t ht

end

/-- A derivation derives the tokens that it reads. -/
theorem derives_tokens {d : Derivation} (h : d.Valid) : d.Derives d.tokens := by
  refine ⟨h, ?_⟩
  rw [List.filter_eq_self.2]
  intro t ht
  rw [isDiscarded_of_mem_tokens h t ht]
  rfl

end Derivation

/-! ## Runs of the parser -/

theorem Node.depthOfAll_append (ns ms : List Node) :
    Node.depthOfAll (ns ++ ms) = max (Node.depthOfAll ns) (Node.depthOfAll ms) := by
  induction ns with
  | nil => simp [Node.depthOfAll]
  | cons n ns ih => simp only [List.cons_append, Node.depthOfAll, ih, max_assoc]

namespace Parser

open AllocScript.Derivation

/-- Tokens without a meaning make no difference. -/
theorem run_filter (state : State) (ts : List Token) :
    run state (ts.filter fun t => !t.kind.isDiscarded) = run state ts := by
  induction ts generalizing state with
  | nil => rfl
  | cons t ts ih =>
    cases ht : t.kind.isDiscarded with
    | true =>
      rw [List.filter_cons_of_neg (by simp [ht]), ih]
      simp only [run, step, ht, if_true]
      rfl
    | false =>
      rw [List.filter_cons_of_pos (by simp [ht])]
      simp only [run]
      congr 1
      funext state
      exact ih state

/-! ## Completeness -/

theorem readNumber_eq (t : Token) :
    readNumber t = match Decimal.readChars (Token.withoutPlus t.lexeme.toList) with
      | .ok value => .ok (.atom (.number value) t.position)
      | .error _ => .error ⟨.numberOutOfRange t.lexeme, t.position⟩ := rfl

theorem step_leaf {t : Token} {a : Atom} (h : t.Reads a) (frames : List Frame) :
    step (.reading frames) t = .ok (attach (.atom a t.position) frames) := by
  cases h with
  | string h => simp [step, take, h, TokenKind.isDiscarded]
  | symbol h => rcases h with h | h <;> simp [step, take, h, TokenKind.isDiscarded]
  | @number d h hd =>
    have hnumber : readNumber t = .ok (.atom (.number d) t.position) := by
      rw [readNumber_eq, hd]
    rcases h with h | h <;> simp [step, take, h, TokenKind.isDiscarded, hnumber, Except.map]

theorem step_opening {t : Token} {bracket : Bracket} (h : t.kind = .opening bracket)
    {frames : List Frame} (hroom : frames.length < maxDepth) :
    step (.reading frames) t = .ok (.reading (⟨bracket, t, []⟩ :: frames)) := by
  simp [step, take, h, TokenKind.isDiscarded, Nat.not_le.2 hroom]

theorem closeFrame_eq_ok_iff {frame : Frame} {node : Node} :
    closeFrame frame = .ok node ↔
      (frame.bracket = .curly → frame.children.length % 2 = 0) ∧
        node = .list (listKind frame.bracket) frame.children.reverse frame.opener.position := by
  have hkind : listKind frame.bracket = .map ↔ frame.bracket = .curly := by
    cases frame.bracket <;> simp [listKind]
  simp only [closeFrame, hkind]
  by_cases hodd : frame.bracket = .curly ∧ frame.children.length % 2 ≠ 0
  · rw [if_pos hodd]
    constructor
    · intro h
      cases h
    · intro h
      exact absurd (h.1 hodd.1) hodd.2
  · rw [if_neg hodd]
    constructor
    · intro h
      injection h with h
      exact ⟨fun hcurly => by_contra fun h => hodd ⟨hcurly, h⟩, h.symm⟩
    · rintro ⟨-, rfl⟩
      rfl

theorem step_closing {t : Token} {frame : Frame} (h : t.kind = .closing frame.bracket)
    (heven : frame.bracket = .curly → frame.children.length % 2 = 0) (frames : List Frame) :
    step (.reading (frame :: frames)) t =
      .ok (attach (.list (listKind frame.bracket) frame.children.reverse frame.opener.position)
        frames) := by
  have hclose := closeFrame_eq_ok_iff.2 ⟨heven, rfl⟩
  simp [step, take, h, TokenKind.isDiscarded, hclose, Except.map]

mutual

/-- The parser adds the tree of a derivation to the innermost open list. -/
theorem run_derivation {d : Derivation} (h : d.Valid) {frames : List Frame}
    (hroom : frames.length + d.tree.depth ≤ maxDepth) (rest : List Token) :
    run (.reading frames) (d.tokens ++ rest) = run (attach d.tree frames) rest := by
  cases d with
  | leaf t a =>
    change step (.reading frames) t >>= _ = _
    rw [step_leaf h]
    rfl
  | list bracket opener closer children =>
    obtain ⟨hopen, hclose, heven, hchildren⟩ := h
    simp only [tree, Node.depth] at hroom
    have hlength : (treesOfAll children).reverse.length = children.length := by
      rw [List.length_reverse, treesOfAll_length]
    simp only [tokens, List.cons_append, List.append_assoc, List.nil_append]
    calc run (.reading frames) (opener :: (tokensOfAll children ++ closer :: rest))
        = run (.reading (⟨bracket, opener, []⟩ :: frames))
            (tokensOfAll children ++ closer :: rest) := by
          rw [run, step_opening hopen (by omega)]
          rfl
      _ = run (.reading (⟨bracket, opener, (treesOfAll children).reverse⟩ :: frames))
            (closer :: rest) := by
          rw [run_derivations hchildren _ (by omega), List.append_nil]
      _ = run (attach (.list (listKind bracket) (treesOfAll children) opener.position) frames)
            rest := by
          rw [run, step_closing hclose (by rw [hlength]; exact heven), List.reverse_reverse]
          rfl

theorem run_derivations {ds : List Derivation} (h : AllValid ds) {frame : Frame}
    {frames : List Frame} (rest : List Token)
    (hroom : frames.length + 1 + Node.depthOfAll (treesOfAll ds) ≤ maxDepth) :
    run (.reading (frame :: frames)) (tokensOfAll ds ++ rest) =
      run (.reading ({ frame with children := (treesOfAll ds).reverse ++ frame.children } ::
        frames)) rest := by
  cases ds with
  | nil => rfl
  | cons d ds =>
    simp only [treesOfAll, Node.depthOfAll] at hroom
    simp only [tokensOfAll, treesOfAll, List.append_assoc, List.reverse_cons, List.cons_append,
      List.nil_append]
    rw [run_derivation h.1 (by rw [List.length_cons]; omega)]
    exact run_derivations h.2 rest (by omega)

end

/-! ## Soundness -/

/-- The open lists are what a parser has made of the tokens: each one has an opening bracket and
derivations of its children behind it and lacks a closing bracket. -/
inductive Opened : List Frame → List Token → Prop where
  | nil : Opened [] []
  | cons {frames : List Frame} {ts : List Token} {opener : Token} {bracket : Bracket}
      {children : List Derivation} (hframes : Opened frames ts)
      (hopen : opener.kind = .opening bracket) (hvalid : AllValid children)
      (hroom : frames.length + 1 + Node.depthOfAll (treesOfAll children) ≤ maxDepth) :
      Opened (⟨bracket, opener, (treesOfAll children).reverse⟩ :: frames)
        (ts ++ opener :: tokensOfAll children)

/-- The tokens behind a state of the parser. -/
inductive Reached : State → List Token → Prop where
  | reading {frames : List Frame} {ts : List Token} (h : Opened frames ts) :
      Reached (.reading frames) ts
  | complete {d : Derivation} (hvalid : d.Valid) (hroom : d.tree.depth ≤ maxDepth) :
      Reached (.complete d.tree) d.tokens

/-- A complete derivation becomes a child of the innermost open list. -/
theorem Opened.attach {frames : List Frame} {ts : List Token} (h : Opened frames ts)
    {d : Derivation} (hvalid : d.Valid) (hroom : frames.length + d.tree.depth ≤ maxDepth) :
    Reached (attach d.tree frames) (ts ++ d.tokens) := by
  cases h with
  | nil => exact .complete hvalid (by simpa using hroom)
  | @cons frames ts opener bracket children hframes hopen hchildren hinner =>
    have htokens : ts ++ opener :: tokensOfAll children ++ d.tokens =
        ts ++ opener :: tokensOfAll (children ++ [d]) := by
      simp [tokensOfAll]
    have htrees : d.tree :: (treesOfAll children).reverse =
        (treesOfAll (children ++ [d])).reverse := by
      simp [treesOfAll]
    rw [htokens]
    change Reached (.reading (⟨bracket, opener, d.tree :: (treesOfAll children).reverse⟩ :: _)) _
    rw [htrees]
    refine .reading (.cons hframes hopen (allValid_append.2 ⟨hchildren, hvalid, trivial⟩) ?_)
    rw [List.length_cons] at hroom
    rw [treesOfAll_append, Node.depthOfAll_append]
    simp only [treesOfAll, Node.depthOfAll]
    omega

theorem Opened.length_le {frames : List Frame} {ts : List Token} (h : Opened frames ts) :
    frames.length ≤ maxDepth := by
  cases h with
  | nil => exact Nat.zero_le _
  | cons _ _ _ hroom =>
    rw [List.length_cons]
    omega

/-- A leaf is a derivation of one token. -/
theorem Opened.leaf {frames : List Frame} {ts : List Token} (h : Opened frames ts) {t : Token}
    {a : Atom} (ha : t.Reads a) : Reached (Parser.attach (.atom a t.position) frames) (ts ++ [t]) :=
  h.attach (d := .leaf t a) ha h.length_le

theorem Opened.opening {frames : List Frame} {ts : List Token} (h : Opened frames ts) {t : Token}
    {bracket : Bracket} (hopen : t.kind = .opening bracket) (hroom : frames.length < maxDepth) :
    Reached (.reading (⟨bracket, t, []⟩ :: frames)) (ts ++ [t]) :=
  .reading (.cons h hopen (show AllValid [] from trivial) hroom)

/-- A closing bracket makes a derivation of the innermost open list. -/
theorem Opened.closing {frame : Frame} {frames : List Frame} {ts : List Token}
    (h : Opened (frame :: frames) ts) {t : Token} (hclose : t.kind = .closing frame.bracket)
    {node : Node} (hnode : closeFrame frame = .ok node) :
    Reached (Parser.attach node frames) (ts ++ [t]) := by
  cases h with
  | @cons _ ts opener bracket children hframes hopen hchildren hroom =>
    obtain ⟨heven, hnode⟩ := closeFrame_eq_ok_iff.1 hnode
    have hvalid : (Derivation.list bracket opener t children).Valid := by
      refine ⟨hopen, hclose, fun hcurly => ?_, hchildren⟩
      have hcount := heven hcurly
      rwa [List.length_reverse, treesOfAll_length] at hcount
    have hreached := hframes.attach hvalid (by simp only [tree, Node.depth]; omega)
    rw [hnode, List.reverse_reverse, List.append_assoc]
    exact hreached

theorem reads_of_readNumber {t : Token} {node : Node} (hkind : t.kind = .integer ∨ t.kind = .float)
    (h : readNumber t = .ok node) :
    ∃ d, t.Reads (.number d) ∧ node = .atom (.number d) t.position := by
  rw [readNumber_eq] at h
  split at h
  · rename_i d hd
    injection h with h
    exact ⟨d, .number hkind hd, h.symm⟩
  · cases h

/-- Each token keeps the invariant of the parser. -/
theorem Reached.step {state state' : State} {ts : List Token} {t : Token} (h : Reached state ts)
    (hmeaning : t.kind.isDiscarded = false) (hstep : Parser.step state t = .ok state') :
    Reached state' (ts ++ [t]) := by
  unfold Parser.step at hstep
  rw [if_neg (by simp [hmeaning])] at hstep
  cases h with
  | complete => cases hstep
  | @reading frames _ hframes =>
    unfold take at hstep
    cases hkind : t.kind with
    | opening bracket =>
      simp only [hkind] at hstep
      split at hstep
      · cases hstep
      · rename_i hroom
        injection hstep with hstep
        rw [← hstep]
        exact hframes.opening hkind (Nat.not_le.1 hroom)
    | closing bracket =>
      simp only [hkind] at hstep
      cases frames with
      | nil => cases hstep
      | cons frame frames =>
        by_cases hsame : frame.bracket = bracket
        · rw [← hsame] at hkind
          simp only [hsame, if_true] at hstep
          cases hnode : closeFrame frame with
          | error e => rw [hnode] at hstep; cases hstep
          | ok node =>
            rw [hnode] at hstep
            injection hstep with hstep
            rw [← hstep]
            exact hframes.closing hkind hnode
        · simp only [hsame, if_false] at hstep
          cases hstep
    | string =>
      simp only [hkind] at hstep
      injection hstep with hstep
      rw [← hstep]
      exact hframes.leaf (.string hkind)
    | symbol | keyword =>
      simp only [hkind] at hstep
      injection hstep with hstep
      rw [← hstep]
      exact hframes.leaf (.symbol (by simp [hkind]))
    | integer | float =>
      simp only [hkind] at hstep
      cases hnode : readNumber t with
      | error e => rw [hnode] at hstep; cases hstep
      | ok node =>
        obtain ⟨d, hd, rfl⟩ := reads_of_readNumber (by simp [hkind]) hnode
        rw [hnode] at hstep
        injection hstep with hstep
        rw [← hstep]
        exact hframes.leaf hd
    | blank | comment | comma =>
      rw [hkind] at hmeaning
      cases hmeaning

/-- **Soundness.** A state of the parser comes from the tokens that it has taken. -/
theorem Reached.run {state state' : State} {ts us : List Token} (h : Reached state ts)
    (hmeaning : ∀ t ∈ us, t.kind.isDiscarded = false) (hrun : Parser.run state us = .ok state') :
    Reached state' (ts ++ us) := by
  induction us generalizing state ts with
  | nil =>
    injection hrun with hrun
    rw [← hrun, List.append_nil]
    exact h
  | cons t us ih =>
    simp only [Parser.run] at hrun
    cases hstep : Parser.step state t with
    | error e => rw [hstep] at hrun; cases hrun
    | ok middle =>
      rw [hstep] at hrun
      have hmiddle := h.step (hmeaning t (by simp)) hstep
      have hend := ih hmiddle (fun u hu => hmeaning u (by simp [hu])) hrun
      rwa [List.append_assoc] at hend

end Parser

/-! ## Trees of derivations -/

namespace Node

mutual

/-- Every map has as many keys as values. -/
def EvenMaps : Node → Prop
  | atom .. => True
  | list kind children _ => (kind = .map → children.length % 2 = 0) ∧ AllEvenMaps children

def AllEvenMaps : List Node → Prop
  | [] => True
  | n :: ns => n.EvenMaps ∧ AllEvenMaps ns

end

mutual

/-- The number of nodes of a tree. -/
def size : Node → Nat
  | atom .. => 1
  | list _ children _ => 1 + sizeOfAll children

def sizeOfAll : List Node → Nat
  | [] => 0
  | n :: ns => n.size + sizeOfAll ns

end

end Node

namespace Derivation

mutual

theorem tree_evenMaps {d : Derivation} (h : d.Valid) : d.tree.EvenMaps := by
  cases d with
  | leaf => trivial
  | list bracket opener closer children =>
    refine ⟨fun hmap => ?_, treesOfAll_evenMaps h.2.2.2⟩
    rw [treesOfAll_length]
    apply h.2.2.1
    cases bracket with
    | curly => rfl
    | round => cases hmap
    | square => cases hmap

theorem treesOfAll_evenMaps {ds : List Derivation} (h : AllValid ds) :
    Node.AllEvenMaps (treesOfAll ds) := by
  cases ds with
  | nil => trivial
  | cons d ds => exact ⟨tree_evenMaps h.1, treesOfAll_evenMaps h.2⟩

end

mutual

/-- A tree has no more nodes than the tokens it comes from. -/
theorem size_tree_le (d : Derivation) : d.tree.size ≤ d.tokens.length := by
  cases d with
  | leaf => exact Nat.le_refl _
  | list bracket opener closer children =>
    have hchildren := sizeOfAll_treesOfAll_le children
    simp only [tree, tokens, Node.size, List.cons_append, List.length_cons, List.length_append]
    omega

theorem sizeOfAll_treesOfAll_le (ds : List Derivation) :
    Node.sizeOfAll (treesOfAll ds) ≤ (tokensOfAll ds).length := by
  cases ds with
  | nil => exact Nat.le_refl _
  | cons d ds =>
    have hd := size_tree_le d
    have hds := sizeOfAll_treesOfAll_le ds
    simp only [treesOfAll, tokensOfAll, Node.sizeOfAll, List.length_append]
    omega

end

end Derivation

/-! ## The language of the parser -/

namespace Node

theorem ofTokens_of_derives {d : Derivation} {ts : List Token} (h : d.Derives ts)
    (hroom : d.tree.depth ≤ maxDepth) : ofTokens ts = .ok d.tree := by
  have hrun : Parser.run (.reading []) ts = .ok (.complete d.tree) := by
    rw [← Parser.run_filter, ← h.2, ← List.append_nil d.tokens,
      Parser.run_derivation h.1 (by simpa using hroom)]
    rfl
  unfold ofTokens
  rw [hrun]
  rfl

theorem exists_derives_of_ofTokens {ts : List Token} {n : Node} (h : ofTokens ts = .ok n) :
    ∃ d : Derivation, d.Derives ts ∧ d.tree.depth ≤ maxDepth ∧ d.tree = n := by
  unfold ofTokens at h
  cases hrun : Parser.run (.reading []) ts with
  | error e => rw [hrun] at h; cases h
  | ok state =>
    rw [hrun] at h
    rw [← Parser.run_filter] at hrun
    have hmeaning : ∀ t ∈ ts.filter (fun t => !t.kind.isDiscarded), t.kind.isDiscarded = false :=
      fun t ht => by simpa using (List.mem_filter.1 ht).2
    have hreached := (Parser.Reached.reading .nil).run hmeaning hrun
    rw [List.nil_append] at hreached
    generalize hus : ts.filter (fun t => !t.kind.isDiscarded) = us at hreached
    cases hreached with
    | reading hframes => cases hframes <;> cases h
    | @complete d hvalid hroom =>
      injection h with h
      exact ⟨d, ⟨hvalid, hus.symm⟩, hroom, h⟩

theorem ofText_eq_ok_iff {source : String} {n : Node} :
    ofText source = .ok n ↔ ∃ tokens, tokenize source = .ok tokens ∧ ofTokens tokens = .ok n := by
  unfold ofText
  cases tokenize source with
  | error e => simp
  | ok tokens =>
    simp only [Except.ok.injEq, exists_eq_left']
    cases ofTokens tokens <;> simp

theorem ofSource_eq_ok_iff {source : String} {n : Node} :
    ofSource source = .ok n ↔
      source.utf8ByteSize ≤ maxSourceBytes ∧ ofText source = .ok n := by
  unfold ofSource checkSourceSize
  by_cases hsize : maxSourceBytes < source.utf8ByteSize
  · rw [if_pos hsize]
    exact iff_of_false nofun fun h => absurd h.1 (Nat.not_le.2 hsize)
  · rw [if_neg hsize, and_iff_right (Nat.not_lt.1 hsize)]
    cases ofText source <;> simp [bind, Except.bind]

/-- **The parser accepts exactly its grammar.** It gives a tree if and only if the tokens with a
meaning have a derivation with no more than 300 lists in each other, which is then the only one,
and the tree is the one of the derivation. So it is not too deep and has no odd map. -/
theorem ofTokens_eq_ok_iff_derives (ts : List Token) :
    (∀ n, ofTokens ts = .ok n ↔
      ∃ d : Derivation, d.Derives ts ∧ d.tree.depth ≤ maxDepth ∧ d.tree = n) ∧
    (∀ d e : Derivation, d.Derives ts → e.Derives ts → d = e) ∧
    (∀ n, ofTokens ts = .ok n → n.depth ≤ maxDepth ∧ n.EvenMaps) := by
  refine ⟨fun n => ⟨exists_derives_of_ofTokens, ?_⟩, ?_, ?_⟩
  · rintro ⟨d, hd, hroom, rfl⟩
    exact ofTokens_of_derives hd hroom
  · intro d e hd he
    exact Derivation.eq_of_tokens hd.1 he.1 (hd.2.trans he.2.symm)
  · intro n hn
    obtain ⟨d, hd, hroom, rfl⟩ := exists_derives_of_ofTokens hn
    exact ⟨hroom, Derivation.tree_evenMaps hd.1⟩

end Node

end AllocScript
