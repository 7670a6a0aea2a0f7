import Schematic.Conversion.Error
import Schematic.OptionBody

/-!
# The options of a field

A field carries up to three custom options: what kind of property it is, how its
values are validated, and how lists are filtered and sorted by it.  The last two
stand only on fields that have such rules.
-/

namespace Schematic

/-! ## Kind -/

def IntegerFormat.ident : IntegerFormat → String
  | .int32 => "INT32"
  | .int64 => "INT64"
  | .uint32 => "UINT32"
  | .uint64 => "UINT64"

def FloatFormat.ident : FloatFormat → String
  | .float32 => "FLOAT32"
  | .float64 => "FLOAT64"

def KeyFormat.body : KeyFormat → OptionBody
  | .uuid => [("uuid", .message [])]
  | .id62 => [("id62", .message [])]
  | .custom pattern => [("custom", .message [("pattern", .string pattern)])]
  | .informal => [("informal", .message [])]

def AnyField.body (f : AnyField) : OptionBody :=
  OptionBody.flag "only_defined" f.onlyDefined ++
    if f.types.isEmpty then [] else [("types", .list (f.types.map .string))]

namespace FieldNode

/-- What the kind of a field says of itself. -/
def kindDetails : FieldNode → OptionBody
  | .string f => OptionBody.opt "format" .string f.format
  | .integer f => [("format", .ident f.format.ident)]
  | .float f => [("format", .ident f.format.ident)]
  | .key f => [("format", .message f.format.body)]
  | .object _ flatten => OptionBody.flag "flatten" flatten
  | .array _ _ singleForm => OptionBody.opt "single_form" .string singleForm
  | .any f => f.body
  | _ => []

def kindBody (f : FieldNode) : OptionBody :=
  [(f.kindName, .message f.kindDetails)]

end FieldNode

/-! ## Validation -/

namespace Validation

/-- An enum by its full name, with its values. -/
structure EnumView where
  name : String
  table : EnumTable
deriving DecidableEq, Repr

namespace EnumView

def value (e : EnumView) (name : String) : Except ConvertError (String × Int) :=
  match e.table.value? name with
  | some found => .ok found
  | none => .error (.unknownEnumValue e.name name)

end EnumView

/-- Twenty-two digits in base 62. -/
def id62Pattern : String := "^[0-9A-Za-z]\x7b22\x7d$"

def size (n : UInt64) : OptionValue := .uint n.toNat

def bound {α : Type} (property : String) (which : Bound) (exclusive inclusive : String)
    (value : α → OptionValue) (limit : Option α) (isExclusive : Option Bool) :
    Except ConvertError OptionBody :=
  match limit, isExclusive with
  | some a, some true => .ok [(exclusive, value a)]
  | some a, _ => .ok [(inclusive, value a)]
  | none, some _ => .error (.exclusiveWithoutBound property which)
  | none, none => .ok []

def numeric {α : Type} (property : String) (value : α → OptionValue) (rules : NumericRules α) :
    Except ConvertError OptionBody := do
  let low ← bound property .minimum "gt" "gte" value rules.minimum rules.exclusiveMinimum
  let high ← bound property .maximum "lt" "lte" value rules.maximum rules.exclusiveMaximum
  return low ++ high

/-- Values by number. -/
def enumNumbers (key : String) (e : EnumView) (names : List String) :
    Except ConvertError OptionBody :=
  if names.isEmpty then .ok []
  else do
    let values ← names.mapM e.value
    return [(key, .list (values.map fun v => .int v.2))]

def enumBody (e : EnumView) (rules : EnumRules) : Except ConvertError OptionBody := do
  let allowed ← enumNumbers "in" e rules.allowed
  let forbidden ← enumNumbers "not_in" e rules.forbidden
  return OptionBody.flag "defined_only" rules.definedOnly ++ allowed ++ forbidden

def keyBody : KeyFormat → OptionBody
  | .uuid => [("uuid", .bool true)]
  | .id62 => [("pattern", .string id62Pattern)]
  | .custom pattern => [("pattern", .string pattern)]
  | .informal => []

def integerKind : IntegerFormat → String
  | .int32 => "int32"
  | .int64 => "int64"
  | .uint32 => "uint32"
  | .uint64 => "uint64"

def floatKind : FloatFormat → String
  | .float32 => "float"
  | .float64 => "double"

/-- The rules of a kind under its name, or nothing if there are none. -/
def underKind (kind : String) (body : OptionBody) : OptionBody :=
  if body.isEmpty then [] else [(kind, .message body)]

/-- The rules on a single value. -/
def item (property : String) (enum : Option EnumView) : FieldNode → Except ConvertError OptionBody
  | .string f =>
    .ok (underKind "string" (OptionBody.opt "min_len" size f.minLen ++
      OptionBody.opt "max_len" size f.maxLen ++ OptionBody.opt "pattern" .string f.pattern))
  | .key f => .ok (underKind "string" (keyBody f.format))
  | .integer f => do
    let body ← numeric property (fun i : Int64 => .int i.toInt) f.rules
    return underKind (integerKind f.format) body
  | .float f => do
    let body ← numeric property .real f.rules
    return underKind (floatKind f.format) body
  | .bool f => .ok (underKind "bool" (OptionBody.opt "const" .bool f.constValue))
  | .bytes f =>
    .ok (underKind "bytes" (OptionBody.opt "min_len" size f.minLen ++
      OptionBody.opt "max_len" size f.maxLen))
  | .enum _ rules _ =>
    match enum with
    | some e => do
      let body ← enumBody e rules
      return underKind "enum" body
    | none => .ok []
  | _ => .ok []

/-- Whether a required value of this kind must be set.  For a number, a flag or an
enum the zero value is as good as any. -/
def presenceRequired : FieldNode → Bool
  | .integer _ => false
  | .float _ => false
  | .bool _ => false
  | .enum .. => false
  | _ => true

/-- The rules on the items of a collection, under `key`. -/
def items (key : String) (body : OptionBody) : OptionBody :=
  if body.isEmpty then [] else [(key, .message body)]

def arrayBody (rules : ArrayRules) : OptionBody :=
  OptionBody.opt "min_items" size rules.minItems ++ OptionBody.opt "max_items" size rules.maxItems ++
    OptionBody.flag "unique" rules.uniqueItems

def mapBody (rules : MapRules) : OptionBody :=
  OptionBody.opt "min_pairs" size rules.minPairs ++ OptionBody.opt "max_pairs" size rules.maxPairs

/-- The rules on a whole field.  They may be empty. -/
def body (property : String) (required : Bool) (enum : Option EnumView) (field : FieldNode) :
    Except ConvertError OptionBody := do
  let presence := OptionBody.flag "required" (required && presenceRequired field)
  match field with
  | .array inner rules _ =>
    let inner ← item property enum inner
    return presence ++ underKind "repeated" (arrayBody rules ++ items "items" inner)
  | .map inner rules =>
    let inner ← item property enum inner
    return presence ++ underKind "map" (mapBody rules ++ items "values" inner)
  | field =>
    let inner ← item property enum field
    return presence ++ inner

end Validation

/-! ## Lists -/

namespace Listing

def rules? : FieldNode → Option ListRules
  | .string f => f.listRules
  | .integer f => f.listRules
  | .float f => f.listRules
  | .decimal r => r
  | .date r => r
  | .timestamp r => r
  | .bool f => f.listRules
  | .key f => f.listRules
  | .enum _ _ r => r
  | _ => none

/-- The default filters.  Those on an enum are named in full. -/
def filters (enum : Option Validation.EnumView) (field : FieldNode) (names : List String) :
    Except ConvertError (List String) :=
  match field, enum with
  | .enum .., some e => names.mapM fun name => (e.value name).map Prod.fst
  | _, _ => .ok names

def details (rules : ListRules) (filters : List String) : OptionBody :=
  (if rules.filterable || !filters.isEmpty then
    [("filtering", .message (("filterable", .bool true) ::
      if filters.isEmpty then [] else [("default_filters", .list (filters.map .string))]))]
  else []) ++
    (if rules.sortable then [("sorting", .message [("sortable", .bool true)])] else []) ++
    if rules.searchable then [("searching", .message [("searchable", .bool true)])] else []

/-- The body of the option, if the field has any list rules. -/
def body? (enum : Option Validation.EnumView) (field : FieldNode) :
    Except ConvertError (Option OptionBody) :=
  match (rules? field).filter fun r => !r.isEmpty with
  | none => .ok none
  | some rules => do
    let filters ← filters enum field rules.defaultFilters
    return some [(field.kindName, .message (details rules filters))]

end Listing
end Schematic
