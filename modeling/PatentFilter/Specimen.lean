/-!
# Specimen documents

Made-up documents in the form of a granted patent, with the four classification fields set as
asked. A field that is not given has no element; its anchor is there all the same.
-/

namespace PatentFilter.Specimen

def field (element : String) : Option String → String
  | some v => "<" ++ element ++ "><PDAT>" ++ v ++ "</PDAT></" ++ element ++ ">"
  | none => ""

/-- Everything up to the end tag of the root. -/
def body (cpcPrimary cpcSecondary uspcPrimary uspcSecondary : Option String) : String :=
  "<!DOCTYPE PATDOC SYSTEM \"ST32-US-Grant-025xml.dtd\">\n" ++
  "<PATDOC DTD=\"2.5\" STATUS=\"BUILD 20010803\">\n" ++
  "<SDOBI>\n<B100><B110><DNUM><PDAT>06000000</PDAT></DNUM></B110></B100>\n<B500>\n" ++
  "<B510>" ++ field "B511" cpcPrimary ++ field "B516" cpcSecondary ++ "</B510>\n" ++
  "<B520>" ++ field "B521" uspcPrimary ++ field "B522" uspcSecondary ++ "</B520>\n" ++
  "<B540><STEXT><PDAT>Synthetic title</PDAT></STEXT></B540>\n" ++
  "</B500>\n</SDOBI>\n" ++
  "<SDOAB><BTEXT><PARA><PTEXT><PDAT>Abstract text.</PDAT></PTEXT></PARA></BTEXT></SDOAB>\n"

def rootEnd : String := "</PATDOC>\n"

def patent (cpcPrimary cpcSecondary uspcPrimary uspcSecondary : Option String) : String :=
  body cpcPrimary cpcSecondary uspcPrimary uspcSecondary ++ rootEnd

def cpcPatent (primary secondary : Option String) : String :=
  patent primary secondary none none

def uspcPatent (primary secondary : Option String) : String :=
  patent none none primary secondary

/-- A paragraph number has at least five digits. -/
def paragraphNumber (i : Nat) : String :=
  let ds := Nat.toDigits 10 i
  String.ofList (List.replicate (5 - ds.length) '0' ++ ds)

def paragraph (i : Nat) : String :=
  "<PARA ID=\"P-" ++ paragraphNumber i ++ "\"><PTEXT><PDAT>Paragraph " ++ toString i ++
    " describes the claimed apparatus in detail.</PDAT></PTEXT></PARA>\n"

def description (paragraphs : Nat) : String :=
  "<SDODE><DETDESC><BTEXT>\n" ++ String.join ((List.range paragraphs).map paragraph) ++
    "</BTEXT></DETDESC></SDODE>\n"

/-- A patent with a description of the given length in front of the root's end tag. -/
def longPatent (cpcPrimary uspcPrimary : String) (paragraphs : Nat) : String :=
  body (some cpcPrimary) none (some uspcPrimary) none ++ description paragraphs ++ rootEnd

end PatentFilter.Specimen
