import SoapTypes.Text.Display
import SoapTypes.Text.Pieces

/-!
# Leaf labels

A leaf of a service description says its type in one line, its label: a display name, a base type
with a namespace prefix, and facet data, with `|` between them, as in `id|xs:int` or
`status|tns:Status|Active,Idle`.
A line without `|` is its own display name and base type, an empty base type falls back to the
display name, empty facet data counts as none, and whatever stands behind a third `|` is ignored.
-/

namespace SoapTypes

/-- What the label of a leaf says. -/
structure LeafLabel where
  displayName : String
  baseType : String
  facetData : Option String := none
  deriving DecidableEq, Repr, Inhabited

namespace LeafLabel

/-- Read a label. The grammar of labels has segments without `|` in them, each as long as it can be,
and `|` between them. Every text is taken to be in it, line breaks included, and to be cut exactly
at its bars. -/
def parse (text : String) : LeafLabel :=
  match Text.pieces '|' text with
  | (whole, []) => ⟨whole, whole, none⟩
  | (name, base :: more) =>
    ⟨name, (Text.nonempty? base).getD name, more.head?.bind Text.nonempty?⟩

/-- The part of a qualified name behind its prefix: the piece after the first colon, or the piece
before it if the other is missing or empty. -/
def localName (name : String) : String :=
  match Text.pieces ':' name with
  | (first, second :: _) => (Text.nonempty? second).getD first
  | (first, []) => first

/-- The base type without its namespace prefix. -/
def localBaseType (label : LeafLabel) : String := localName label.baseType

/-- The facet data, cut at its commas. -/
def facetValues (label : LeafLabel) : List String :=
  match label.facetData with
  | none => []
  | some data => if data.isEmpty then [] else Text.allPieces ',' data

/-- A label as a diagnostic shows it. -/
def display (label : LeafLabel) : String :=
  "TypeAnnotation(display_name=" ++ Text.display label.displayName ++
    ", base_type=" ++ Text.display label.baseType ++
    ", facet_data=" ++ (label.facetData.map Text.display).getD "None" ++ ")"

end LeafLabel

end SoapTypes
