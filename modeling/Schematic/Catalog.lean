import Schematic.Descriptor.Basic
import Schematic.Dict
import Schematic.Text.Basic

/-!
# The catalog of well-known files

Files that are there without any package supplying them.  The standard ones hold what
linking needs to know: the well-known types, and the custom options with the messages
they carry.
-/

namespace Schematic

structure Catalog where
  files : Dict FileDescriptor := {}

namespace Catalog

def insert (c : Catalog) (f : FileDescriptor) : Catalog :=
  ⟨c.files.insert f.nameText f⟩

def get? (c : Catalog) (file : String) : Option FileDescriptor :=
  c.files.get? file

def fileNames (c : Catalog) : List String :=
  c.files.keys

def filesInPackage (c : Catalog) (package : String) : List FileDescriptor :=
  c.files.values.filter fun f => f.packageText == package

/-! ## Parts of the standard files -/

def optionsFile : String := "google/protobuf/descriptor.proto"
def timestampFile : String := "google/protobuf/timestamp.proto"
def timestampType : String := ".google.protobuf.Timestamp"

def file (name package : String) (dependencies : List String) (messages : List MessageDescriptor)
    (extensions : List FieldDescriptor := []) : FileDescriptor :=
  { name := some name, package := some package, dependencies, messages, extensions
    dialect := some "proto3" }

def message (name : String) (fields : List FieldDescriptor) : MessageDescriptor :=
  { name := some name, fields }

/-- An options message, which can be extended. -/
def optionsMessage (level : OptionLevel) : MessageDescriptor :=
  { name := some level.messageName
    extensionRanges := [{ range := ⟨some 1000, some 536870912⟩ }] }

def field (name : String) (number type : Int) : FieldDescriptor :=
  { name := some name, jsonName := some (Case.lowerCamel name), number := some number
    type := some type, label := some FieldLabel.optional }

def messageField (name : String) (number : Int) (typeName : String) : FieldDescriptor :=
  { field name number FieldType.message with typeName := some typeName }

def listField (name : String) (number : Int) (typeName : String) : FieldDescriptor :=
  { messageField name number typeName with label := some FieldLabel.repeated }

/-- A custom option: its own name, its number, and the message it carries. -/
def extension (e : Extension) (name : String) (number : Int) (typeName : String) : FieldDescriptor :=
  { messageField name number typeName with extendee := some e.level.extendee }

/-! ## The standard files -/

def optionsDescriptor : FileDescriptor :=
  { file optionsFile "google.protobuf" []
      (([.file, .message, .field, .oneof, .enum, .enumValue, .service, .method] :
        List OptionLevel).map optionsMessage) with
    dialect := some "proto2" }

def timestamp : FileDescriptor :=
  file timestampFile "google.protobuf" []
    [message "Timestamp" [field "seconds" 1 FieldType.int64, field "nanos" 2 FieldType.int32]]

def empty : FileDescriptor :=
  file "google/protobuf/empty.proto" "google.protobuf" [] [message "Empty" []]

def http : FileDescriptor :=
  file "google/api/http.proto" "google.api" []
    [message "HttpRule"
      [field "selector" 1 FieldType.string, field "get" 2 FieldType.string,
        field "put" 3 FieldType.string, field "post" 4 FieldType.string,
        field "delete" 5 FieldType.string, field "patch" 6 FieldType.string,
        field "body" 7 FieldType.string]]

def httpOptions : FileDescriptor :=
  file Extension.http.file "google.api" ["google/api/http.proto", optionsFile] []
    [extension Extension.http "http" 72295728 ".google.api.HttpRule"]

def validation : FileDescriptor :=
  file Extension.validation.file "buf.validate" [optionsFile]
    [message "FieldRules" [field "required" 25 FieldType.bool]]
    [extension Extension.validation "field" 1159 ".buf.validate.FieldRules"]

def schemaOptions : FileDescriptor :=
  file Extension.schemaFile "j5.ext.v1" [optionsFile]
    [message "FieldOptions" [], message "MessageOptions" [], message "EnumOptions" [],
      message "ServiceOptions" [], message "MethodOptions" []]
    [extension Extension.field "field" 90443001 ".j5.ext.v1.FieldOptions",
      extension Extension.message "message" 90443002 ".j5.ext.v1.MessageOptions",
      extension Extension.enum "enum" 90443003 ".j5.ext.v1.EnumOptions",
      extension Extension.service "service" 90443004 ".j5.ext.v1.ServiceOptions",
      extension Extension.method "method" 90443005 ".j5.ext.v1.MethodOptions"]

def listOptions : FileDescriptor :=
  file Extension.listing.file "j5.list.v1" [optionsFile]
    [message "FieldConstraint" []]
    [extension Extension.listing "field" 90443101 ".j5.list.v1.FieldConstraint"]

def page : FileDescriptor :=
  file "j5/list/v1/page.proto" "j5.list.v1" []
    [message "PageRequest" [field "token" 1 FieldType.string, field "page_size" 2 FieldType.int64],
      message "PageResponse" [field "next_token" 1 FieldType.string]]

def query : FileDescriptor :=
  file "j5/list/v1/query.proto" "j5.list.v1" []
    [message "QueryRequest"
      [listField "searches" 1 ".j5.list.v1.Search", listField "sorts" 2 ".j5.list.v1.Sort",
        listField "filters" 3 ".j5.list.v1.Filter"],
      message "Search" [field "field" 1 FieldType.string, field "value" 2 FieldType.string],
      message "Sort" [field "field" 1 FieldType.string, field "descending" 2 FieldType.bool],
      message "Filter" [field "field" 1 FieldType.string, field "value" 2 FieldType.string]]

def stateMetadata : FileDescriptor :=
  file "j5/state/v1/metadata.proto" "j5.state.v1" [timestampFile]
    [message "StateMetadata"
      [messageField "created_at" 1 timestampType, messageField "updated_at" 2 timestampType,
        field "last_sequence" 3 FieldType.uint64],
      message "EventMetadata"
        [field "event_id" 1 FieldType.string, field "sequence" 2 FieldType.uint64,
          messageField "timestamp" 3 timestampType]]

def messagingOptions : FileDescriptor :=
  file Extension.messaging.file "j5.messaging.v1" [optionsFile]
    [message "ServiceConfig" [field "topic_name" 1 FieldType.string]]
    [extension Extension.messaging "service" 90443201 ".j5.messaging.v1.ServiceConfig"]

def messagingMetadata : FileDescriptor :=
  file "j5/messaging/v1/metadata.proto" "j5.messaging.v1" [timestampFile]
    [message "EventPublishMetadata"
      [field "event_id" 1 FieldType.string, field "sequence" 2 FieldType.uint64,
        messageField "timestamp" 3 timestampType],
      message "UpsertMetadata"
        [field "entity_id" 1 FieldType.string, field "event_id" 2 FieldType.string,
          messageField "event_timestamp" 3 timestampType]]

def decimal : FileDescriptor :=
  file "j5/types/decimal/v1/decimal.proto" "j5.types.decimal.v1" []
    [message "Decimal" [field "value" 1 FieldType.string]]

def date : FileDescriptor :=
  file "j5/types/date/v1/date.proto" "j5.types.date.v1" []
    [message "Date"
      [field "year" 1 FieldType.int32, field "month" 2 FieldType.int32, field "day" 3 FieldType.int32]]

def any : FileDescriptor :=
  file "j5/types/any/v1/any.proto" "j5.types.any.v1" []
    [message "Any"
      [field "type_name" 1 FieldType.string, field "proto" 2 FieldType.bytes,
        field "j5_json" 3 FieldType.bytes]]

def standardFiles : List FileDescriptor :=
  [optionsDescriptor, timestamp, empty, http, httpOptions, validation, schemaOptions, listOptions,
    page, query, stateMetadata, messagingOptions, messagingMetadata, decimal, date, any]

/-- The catalog that packages are built with. -/
def standard : Catalog :=
  standardFiles.foldl insert {}

end Catalog
end Schematic
