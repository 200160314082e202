import DebianPackaging.Yaml.Value

namespace DebianPackaging

open Text Yaml

structure Settings where
  hostArchitecture : Text
  strictVersions : Bool
  buildProfiles : List Text
  /-- The relationship fields whose targets are built first. -/
  orderFields : List Text
  /-- Whether a source package also goes by the names of its binary packages. -/
  includeBinaryNames : Bool
deriving DecidableEq, Repr

inductive SettingsFault
  | hostArchitecture
  | strictVersions
  | buildProfiles
  | buildOrder
  | orderFields
  | includeBinaryNames
deriving DecidableEq, Repr

def SettingsFault.message : SettingsFault → String
  | .hostArchitecture => "host_arch must be a non-empty string"
  | .strictVersions => "strict_versions must be true or false"
  | .buildProfiles => "build_profiles must be a list of strings"
  | .buildOrder => "build_order must be a mapping"
  | .orderFields => "build_order.fields must be a list of strings"
  | .includeBinaryNames => "build_order.include_binary_names must be true or false"

namespace Settings

def defaults : Settings :=
  ⟨"amd64", false, [], ["Build-Depends", "Build-Depends-Arch", "Build-Depends-Indep"], true⟩

def toValue (s : Settings) : Value :=
  .map [
    (.text "host_arch", .text s.hostArchitecture),
    (.text "strict_versions", .bool s.strictVersions),
    (.text "build_profiles", .texts s.buildProfiles),
    (.text "build_order", .map [
      (.text "fields", .texts s.orderFields),
      (.text "include_binary_names", .bool s.includeBinaryNames)])]

def hostArchitecture? (v : Value) : Option Text :=
  (v.field? "host_arch").bind Value.text?

def strictVersions? (v : Value) : Option Bool :=
  (v.field? "strict_versions").bind Value.bool?

def buildProfiles? (v : Value) : Option (List Text) :=
  (v.field? "build_profiles").bind Value.texts?

def buildOrder? (v : Value) : Option Value :=
  (v.field? "build_order").filter Value.isMap

def orderFields? (v : Value) : Option (List Text) :=
  ((v.field? "build_order").bind (Value.field? · "fields")).bind Value.texts?

def includeBinaryNames? (v : Value) : Option Bool :=
  ((v.field? "build_order").bind (Value.field? · "include_binary_names")).bind Value.bool?

def checks (v : Value) : List (SettingsFault × Bool) :=
  [
    (.hostArchitecture, (hostArchitecture? v).all isBlankText),
    (.strictVersions, (strictVersions? v).isNone),
    (.buildProfiles, (buildProfiles? v).isNone),
    (.buildOrder, (buildOrder? v).isNone),
    (.orderFields, (orderFields? v).isNone),
    (.includeBinaryNames, (includeBinaryNames? v).isNone)]

def fault? (v : Value) : Option SettingsFault :=
  ((checks v).find? (·.2)).map Prod.fst

/-- An entry that is not there, or is no such entry, has its default. -/
def ofValue (v : Value) : Settings where
  hostArchitecture := (hostArchitecture? v).getD defaults.hostArchitecture
  strictVersions := (strictVersions? v).getD defaults.strictVersions
  buildProfiles := (buildProfiles? v).getD defaults.buildProfiles
  orderFields := (orderFields? v).getD defaults.orderFields
  includeBinaryNames := (includeBinaryNames? v).getD defaults.includeBinaryNames

end Settings

end DebianPackaging
