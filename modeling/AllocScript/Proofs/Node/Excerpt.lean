import Mathlib
import AllocScript.Node.Printer

/-!
# Excerpts are beginnings of the canonical text

A page takes as many characters as it has room for (`Page.write_eq`), and what is written on it in
pieces might as well be written at once (`Page.write_append`, `Page.foldlM_write`). So a tree is
written as its canonical text is (`Node.writeOn_eq`), and its excerpt is that text, cut where it is
too long for a message (`Node.excerpt_eq`), in whatever piece of the tree the limit falls
(`Node.excerpt_abridges_render`).
-/

namespace AllocScript

namespace Node

/-- Characters up to a limit, and three dots if there are more. -/
def abridged (limit : Nat) (cs : List Char) : List Char :=
  if cs.length ≤ limit then cs else cs.take limit ++ ['.', '.', '.']

/-- The piece in which the limit falls is shown up to the limit, and nothing of what follows it. -/
theorem abridged_append {limit : Nat} {before piece : List Char} (after : List Char)
    (hbefore : before.length ≤ limit) (hpiece : limit < before.length + piece.length) :
    abridged limit (before ++ (piece ++ after)) =
      before ++ piece.take (limit - before.length) ++ ['.', '.', '.'] := by
  have hlong : ¬(before ++ (piece ++ after)).length ≤ limit := by
    rw [List.length_append, List.length_append]
    omega
  rw [abridged, if_neg hlong, List.take_append, List.take_of_length_le hbefore,
    List.take_append_of_le_length (by omega)]

/-! ## Pages -/

namespace Page

theorem write_append (page : Page) (cs ds : List Char) :
    page.write (cs ++ ds) = page.write cs >>= fun page => page.write ds := by
  induction cs generalizing page with
  | nil => rfl
  | cons c cs ih =>
    obtain ⟨written, room⟩ := page
    cases room with
    | zero => rfl
    | succ room => exact ih ⟨c :: written, room⟩

/-- Whatever the pieces are that a text comes in, the page that they leave is the same. -/
theorem foldlM_write (page : Page) (pieces : List (List Char)) :
    pieces.foldlM write page = page.write pieces.flatten := by
  induction pieces generalizing page with
  | nil => rfl
  | cons piece pieces ih =>
    rw [List.foldlM_cons, List.flatten_cons, write_append]
    exact congrArg (_ >>= ·) (funext ih)

/-- What is on a page behind the characters that have been written on it. -/
theorem write_eq (page : Page) (cs : List Char) :
    page.write cs =
      if cs.length ≤ page.room then .ok ⟨cs.reverse ++ page.written, page.room - cs.length⟩
      else .error ⟨(cs.take page.room).reverse ++ page.written, 0⟩ := by
  induction cs generalizing page with
  | nil => rfl
  | cons c cs ih =>
    obtain ⟨written, room⟩ := page
    cases room with
    | zero => rfl
    | succ room =>
      show write ⟨c :: written, room⟩ cs = _
      rw [ih]
      simp only [List.length_cons, Nat.add_le_add_iff_right, Nat.reduceSubDiff, List.take_succ_cons,
        List.reverse_cons, List.append_assoc, List.singleton_append]

/-- What a message shows of a page, with three dots for what the page had no room for. -/
def shown : Except Page Page → String
  | .ok page => String.ofList page.written.reverse
  | .error page => String.ofList (page.written.reverse ++ ['.', '.', '.'])

theorem shown_write (limit : Nat) (cs : List Char) :
    shown (write ⟨[], limit⟩ cs) = String.ofList (abridged limit cs) := by
  rw [write_eq, abridged]
  by_cases h : cs.length ≤ limit
  · rw [if_pos h, if_pos h]
    simp only [shown, List.append_nil, List.reverse_reverse]
  · rw [if_neg h, if_neg h]
    simp only [shown, List.append_nil, List.reverse_reverse]

end Page

/-! ## Trees -/

mutual

theorem writeOn_eq (page : Page) (n : Node) : n.writeOn page = page.write n.renderChars := by
  cases n with
  | atom a p => rfl
  | list kind children p =>
    show (page.write [kind.openChar] >>= fun page => writeAllOn page children >>= fun page =>
      page.write [kind.closeChar]) =
        page.write ([kind.openChar] ++ (renderAll children ++ [kind.closeChar]))
    rw [Page.write_append]
    refine congrArg (_ >>= ·) (funext fun page => ?_)
    rw [writeAllOn_eq page children, Page.write_append]

theorem writeAllOn_eq (page : Page) (ns : List Node) :
    writeAllOn page ns = page.write (renderAll ns) := by
  cases ns with
  | nil => rfl
  | cons n ns =>
    rw [writeAllOn, renderAll, writeOn_eq page n, Page.write_append]
    exact congrArg (_ >>= ·) (funext fun page => writeTailOn_eq page ns)

theorem writeTailOn_eq (page : Page) (ns : List Node) :
    writeTailOn page ns = page.write (renderTail ns) := by
  cases ns with
  | nil => rfl
  | cons n ns =>
    show (page.write [' '] >>= fun page => writeOn page n >>= fun page => writeTailOn page ns) =
      page.write ([' '] ++ (n.renderChars ++ renderTail ns))
    rw [Page.write_append]
    refine congrArg (_ >>= ·) (funext fun page => ?_)
    rw [writeOn_eq page n, Page.write_append]
    exact congrArg (_ >>= ·) (funext fun page => writeTailOn_eq page ns)

end

/-- The excerpt of a tree is its canonical text, cut behind the characters that a message shows. -/
theorem excerpt_eq (n : Node) :
    n.excerpt = String.ofList (abridged excerptLimit n.render.toList) := by
  show Page.shown (n.writeOn ⟨[], excerptLimit⟩) = _
  rw [writeOn_eq, Page.shown_write, render, String.toList_ofList]

/-- **An excerpt is the canonical text, cut behind its 80th character.** A tree whose text has at
most 80 characters, not bytes, is shown whole, and of any other the first 80 characters are shown
with three dots behind them. Into whatever pieces the text is divided, to write them on a page one
by one shows the same; and if the first character that is left out belongs to one of the pieces, be
it an escape, a number, a blank or a bracket, then the excerpt holds what stands before this piece,
as many characters of it as there is room for, and nothing of what comes behind it. -/
theorem excerpt_abridges_render (n : Node) :
    (n.excerpt = if n.render.length ≤ 80 then n.render
      else String.ofList (n.render.toList.take 80) ++ "...") ∧
    ∀ pieces : List (List Char), pieces.flatten = n.render.toList →
      Page.shown (pieces.foldlM Page.write ⟨[], 80⟩) = n.excerpt ∧
      ∀ before piece after, pieces = before ++ piece :: after →
        before.flatten.length ≤ 80 → 80 < before.flatten.length + piece.length →
        n.excerpt =
          String.ofList (before.flatten ++ piece.take (80 - before.flatten.length)) ++ "..." := by
  have hcut : n.excerpt = String.ofList (abridged 80 n.render.toList) := excerpt_eq n
  refine ⟨?_, fun pieces htext => ⟨?_, ?_⟩⟩
  · rw [hcut, abridged, String.length_toList]
    by_cases hfits : n.render.length ≤ 80
    · rw [if_pos hfits, if_pos hfits, String.ofList_toList]
    · rw [if_neg hfits, if_neg hfits, String.ofList_append]
  · rw [Page.foldlM_write, Page.shown_write, htext, hcut]
  · intro before piece after hpieces hbefore hpiece
    have hparts : n.render.toList = before.flatten ++ (piece ++ after.flatten) := by
      rw [← htext, hpieces, List.flatten_append, List.flatten_cons]
    rw [hcut, hparts, abridged_append after.flatten hbefore hpiece, String.ofList_append]

/-- The limit falls between the two characters of an escape, behind letters of two bytes each. -/
theorem excerpt_abridges_render_escape :
    let letters := List.replicate 71 'é'
    let n := list .plain [atom (.symbol "asset") 1,
      atom (.string (String.ofList (letters ++ ['\n']))) 7] 0
    let before := [['('], ['a', 's', 's', 'e', 't'], [' '], ['"']] ++ letters.map ([·])
    let after := [['"'], [')']]
    (before ++ ['\\', 'n'] :: after).flatten = n.render.toList ∧
      n.excerpt = String.ofList (before.flatten ++ ['\\']) ++ "..." := by
  intro letters n before after
  have htext : (before ++ ['\\', 'n'] :: after).flatten = n.render.toList := by
    simp only [n, render, renderChars, renderAll, renderTail, Atom.renderChars, literal,
      String.toList_ofList]
    decide +kernel
  have hlength : before.flatten.length = 79 := by decide +kernel
  have hcut := ((excerpt_abridges_render n).2 _ htext).2 before ['\\', 'n'] after rfl
  rw [hlength] at hcut
  exact ⟨htext, hcut (by decide) (by decide)⟩

end Node

end AllocScript
