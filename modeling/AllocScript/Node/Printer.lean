import AllocScript.Decimal.Text
import AllocScript.Node
import AllocScript.Text.Quoted

/-!
# The canonical text of a tree

`Node.render` writes a tree with one blank between the children of a list and round brackets
around every plain list; a number keeps its scale. `Node.excerpt` writes no more of it than a
message has room for and marks a cut with three dots.
-/

namespace AllocScript

def Atom.renderChars : Atom → List Char
  | .number value => value.renderChars
  | .string text => literal text
  | .symbol name => name.toList

namespace ListKind

def openChar : ListKind → Char
  | plain => '('
  | map => '\x7b'

def closeChar : ListKind → Char
  | plain => ')'
  | map => '\x7d'

end ListKind

namespace Node

mutual

def renderChars : Node → List Char
  | atom a _ => a.renderChars
  | list kind children _ => kind.openChar :: renderAll children ++ [kind.closeChar]

def renderAll : List Node → List Char
  | [] => []
  | n :: ns => n.renderChars ++ renderTail ns

def renderTail : List Node → List Char
  | [] => []
  | n :: ns => ' ' :: n.renderChars ++ renderTail ns

end

/-- The canonical text. -/
def render (n : Node) : String := String.ofList n.renderChars

/-! ## Excerpts -/

/-- A page takes a limited number of characters, which it holds last one first. -/
structure Page where
  written : List Char
  room : Nat

namespace Page

/-- Writes characters until the page is full; a page that cannot take them all is returned as an
error. -/
def write (page : Page) : List Char → Except Page Page
  | [] => .ok page
  | c :: cs =>
    match page.room with
    | 0 => .error page
    | room + 1 => write ⟨c :: page.written, room⟩ cs

end Page

mutual

/-- Writes the canonical text on a page and stops where the page is full. -/
def writeOn (page : Page) : Node → Except Page Page
  | atom a _ => page.write a.renderChars
  | list kind children _ => do
    let page ← page.write [kind.openChar]
    let page ← writeAllOn page children
    page.write [kind.closeChar]

def writeAllOn (page : Page) : List Node → Except Page Page
  | [] => .ok page
  | n :: ns => do
    let page ← writeOn page n
    writeTailOn page ns

def writeTailOn (page : Page) : List Node → Except Page Page
  | [] => .ok page
  | n :: ns => do
    let page ← page.write [' ']
    let page ← writeOn page n
    writeTailOn page ns

end

/-- The number of characters of a tree that a message shows. -/
def excerptLimit : Nat := 80

/-- The canonical text up to the limit, and three dots if there is more of it. -/
def excerpt (n : Node) : String :=
  match n.writeOn ⟨[], excerptLimit⟩ with
  | .ok page => String.ofList page.written.reverse
  | .error page => String.ofList (page.written.reverse ++ ['.', '.', '.'])

end Node

end AllocScript
