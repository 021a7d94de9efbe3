import SoapTypes.Entries

/-!
# Primitive types

The types of XML schema that have a primitive counterpart in a declaration file.
-/

namespace SoapTypes.Primitive

/-- Types of XML schema, without namespace prefix, and the primitives that stand for them. -/
def table : Entries String := [
  ("string", "string"), ("normalizedString", "string"), ("token", "string"),
  ("language", "string"), ("Name", "string"), ("NCName", "string"), ("NMTOKEN", "string"),
  ("ID", "string"), ("IDREF", "string"), ("ENTITY", "string"), ("QName", "string"),
  ("anyURI", "string"), ("duration", "string"), ("gYear", "string"), ("gYearMonth", "string"),
  ("gMonth", "string"), ("gMonthDay", "string"), ("gDay", "string"), ("base64Binary", "string"),
  ("hexBinary", "string"), ("boolean", "boolean"), ("integer", "number"), ("decimal", "number"),
  ("int", "number"), ("long", "number"), ("short", "number"), ("byte", "number"),
  ("double", "number"), ("float", "number"), ("unsignedLong", "number"),
  ("unsignedInt", "number"), ("unsignedShort", "number"), ("unsignedByte", "number"),
  ("positiveInteger", "number"), ("negativeInteger", "number"), ("nonPositiveInteger", "number"),
  ("nonNegativeInteger", "number"), ("dateTime", "Date"), ("date", "Date"), ("time", "Date"),
  ("anyType", "any")]

/-- The primitive that stands for a type of XML schema. -/
def ofSchemaType? (localName : String) : Option String := table.value? localName

/-- The names that a declaration file never has to import. -/
def names : List String := ["boolean", "number", "string", "Date", "any"]

/-- Every primitive of the table is one of the names. -/
theorem mem_names_of_mem_table {entry : String × String} (h : entry ∈ table) :
    entry.2 ∈ names := by
  revert entry
  decide

end SoapTypes.Primitive
