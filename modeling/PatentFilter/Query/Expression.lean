import PatentFilter.Query.Basic

/-!
# Queries as path expressions

A test is written as the path of its element with a condition in brackets, a query as its tests
with bars between them.
-/

namespace PatentFilter

def FieldTest.expression (anchor : Markup.Path) (t : FieldTest) : String :=
  anchor.text ++ "/" ++ t.place.element ++ "[starts-with(" ++ t.place.textElement ++ ", '" ++
    t.stem ++ "')]"

namespace Query

def testTexts (q : Query) : List String :=
  q.tests.map (·.expression q.anchor)

def text (q : Query) : String :=
  " | ".intercalate q.testTexts

end Query

end PatentFilter
