import PatentFilter.Markup.Token

/-!
# The forest of a document

What the tokens of a document say about its elements, as trees: a start tag adds an element under
the innermost open one, an end tag closes the nearest open element of its name with everything
inside it, text goes to the innermost open element, and the end of the input closes everything.
The values at a path are read off the finished trees.
-/

namespace PatentFilter.Markup

inductive Node where
  | element (name : String) (children : List Node)
  | text (content : String)
  deriving Repr

namespace Node

def isNamed (name : String) : Node → Bool
  | element n _ => n == name
  | text _ => false

@[simp] theorem isNamed_element (name n : String) (cs : List Node) :
    (element n cs).isNamed name = (n == name) := rfl

@[simp] theorem isNamed_text (name s : String) : (text s).isNamed name = false := rfl

def children : Node → List Node
  | element _ cs => cs
  | text _ => []

@[simp] theorem children_element (n : String) (cs : List Node) :
    (element n cs).children = cs := rfl

end Node

mutual

/-- All text inside a node, in document order. -/
def Node.content : Node → String
  | .element _ children => contentOf children
  | .text s => s

def contentOf : List Node → String
  | [] => ""
  | x :: xs => x.content ++ contentOf xs

end

theorem contentOf_append (xs ys : List Node) :
    contentOf (xs ++ ys) = contentOf xs ++ contentOf ys := by
  induction xs with
  | nil => simp [contentOf]
  | cons x xs ih => rw [List.cons_append, contentOf, contentOf, ih, String.append_assoc]

/-- The elements whose names, from the root down to themselves, are the given ones. -/
def elementsAt : List String → List Node → List Node
  | [], _ => []
  | [n], forest => forest.filter (·.isNamed n)
  | n :: names, forest =>
    (forest.filter (·.isNamed n)).flatMap fun x => elementsAt names x.children

/-- The values at a path: of every root with the only name; of a longer path, the first child with
the last name under every element that has the names before it. -/
def valuesAt (names : List String) (forest : List Node) : List String :=
  match names.reverse with
  | [] => []
  | [n] => (forest.filter (·.isNamed n)).map Node.content
  | n :: above =>
    (elementsAt above.reverse forest).filterMap fun x =>
      (x.children.find? (·.isNamed n)).map Node.content

/-- A forest while it is read. Nothing is open at the top; or else the last tree is an element that
is still open, and its children are a forest while it is read. -/
inductive Growth where
  | top (trees : List Node)
  | inside (earlier : List Node) (name : String) (inner : Growth)
  deriving Repr

namespace Growth

def forest : Growth → List Node
  | top trees => trees
  | inside earlier name inner => earlier ++ [.element name inner.forest]

def names : Growth → List String
  | top _ => []
  | inside _ name inner => name :: inner.names

def addText (s : String) : Growth → Growth
  | top trees => top (trees ++ [.text s])
  | inside earlier name inner => inside earlier name (inner.addText s)

def openElement (name : String) : Growth → Growth
  | top trees => inside trees name (top [])
  | inside earlier n inner => inside earlier n (inner.openElement name)

def closeElement (name : String) : Growth → Growth
  | top trees => top trees
  | inside earlier n inner =>
    if name ∈ inner.names then inside earlier n (inner.closeElement name)
    else if n = name then top (earlier ++ [.element n inner.forest])
    else inside earlier n inner

def step (g : Growth) : Token → Growth
  | .opening name => g.openElement name
  | .closing name => g.closeElement name
  | .text s => g.addText s
  | .skipped => g

end Growth

/-- The trees that a sequence of tokens describes. -/
def forestOf (tokens : List Token) : List Node :=
  (tokens.foldl Growth.step (.top [])).forest

end PatentFilter.Markup
