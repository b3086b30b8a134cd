/-!
# Tags

A tag is a string of octets, since percent signs may spell octets that are no text. It tells the
type of a node: one of the standard types, or a variant that the document's reader knows by name.
-/

namespace PatentFilter.Yaml

abbrev Tag := List UInt8

namespace Tag

def ofText (s : String) : Tag := s.toList.flatMap String.utf8EncodeChar

/-- A zero octet ends a tag, or the part of a tag that it stands in. -/
def untilZero (octets : List UInt8) : Tag := octets.takeWhile (· != 0)

def standard (name : String) : Tag := ofText ("tag:yaml.org,2002:" ++ name)

def mark : UInt8 := 0x21

/-- A tag that is not standard starts with an exclamation mark. -/
def isLocal (t : Tag) : Bool := t.head? == some mark

def isText (octets : List UInt8) : Bool := (String.fromUTF8? octets.toByteArray).isSome

/-- The name of a variant is what comes after the mark. It has to be text. -/
def namesVariant : Tag → Bool
  | [] => false
  | o :: name => o == mark && isText name

end Tag

end PatentFilter.Yaml
