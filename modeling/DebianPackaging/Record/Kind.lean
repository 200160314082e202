import DebianPackaging.Record.Schema

namespace DebianPackaging

inductive RecordKind
  | source
  | binary
  | sourceControl
  | sourceIndex
  | binaryIndex
deriving DecidableEq, Repr

namespace RecordKind

def sourceSchema : Schema :=
  [
    .needed "Source", .optional "Maintainer", .optional "Uploaders" .items, .optional "Section",
    .optional "Priority", .optional "Standards-Version", .optional "Build-Depends" .dependency,
    .optional "Build-Depends-Arch" .dependency, .optional "Build-Depends-Indep" .dependency,
    .optional "Build-Conflicts" .dependency, .optional "Build-Conflicts-Indep" .dependency
  ]

def binarySchema : Schema :=
  [
    .needed "Package", (FieldRule.optional "Architecture" .architectures).asWords,
    .optional "Section", .optional "Priority", .optional "Essential" .flag,
    .optional "Description", .optional "Depends" .dependency, .optional "Pre-Depends" .dependency,
    .optional "Recommends" .dependency, .optional "Suggests" .dependency,
    .optional "Enhances" .dependency, .optional "Breaks" .dependency,
    .optional "Conflicts" .dependency, .optional "Replaces" .dependency,
    .optional "Provides" .dependency, .optional "Built-Using" .dependency
  ]

def sourceControlSchema : Schema :=
  [
    .optional "Format", .needed "Source", .optional "Binary" .items,
    (FieldRule.optional "Architecture" .architectures).asWords, .needed "Version" .version,
    .optional "Origin", .optional "Maintainer", .optional "Uploaders" .items,
    .optional "Homepage", .optional "Standards-Version", .optional "Vcs-Browser",
    .optional "Vcs-Git", .optional "Build-Depends" .dependency,
    .optional "Build-Depends-Arch" .dependency, .optional "Build-Depends-Indep" .dependency,
    .optional "Package-List" .lines, .optional "Checksums-Sha256" .lines,
    .optional "Files" .lines
  ]

def sourceIndexSchema : Schema :=
  [
    .needed "Package", .optional "Binary" .items, .needed "Version" .version,
    .optional "Maintainer", .optional "Uploaders" .items,
    (FieldRule.optional "Architecture" .architectures).asWords, .optional "Standards-Version",
    .optional "Format", .optional "Directory", .optional "Files" .lines,
    .optional "Checksums-Sha256" .lines, .optional "Vcs-Browser", .optional "Vcs-Git",
    .optional "Homepage", .optional "Priority", .optional "Section",
    .optional "Build-Depends" .dependency, .optional "Build-Depends-Arch" .dependency,
    .optional "Build-Depends-Indep" .dependency
  ]

def binaryIndexSchema : Schema :=
  [
    .needed "Package", .optional "Source", .needed "Version" .version, .optional "Installed-Size",
    .optional "Maintainer", .needed "Architecture" .architecture, .optional "Multi-Arch",
    .optional "Depends" .dependency, .optional "Pre-Depends" .dependency,
    .optional "Recommends" .dependency, .optional "Suggests" .dependency,
    .optional "Breaks" .dependency, .optional "Conflicts" .dependency,
    .optional "Provides" .dependency, .optional "Replaces" .dependency, .optional "Description",
    .optional "Homepage", .optional "Description-md5", .optional "Tag" .items,
    .optional "Section", .optional "Priority", .optional "Filename", .optional "Size",
    .optional "MD5sum", .optional "SHA1", .optional "SHA256"
  ]

def schema : RecordKind → Schema
  | .source => sourceSchema
  | .binary => binarySchema
  | .sourceControl => sourceControlSchema
  | .sourceIndex => sourceIndexSchema
  | .binaryIndex => binaryIndexSchema

def title : RecordKind → String
  | .source => "SourceParagraph"
  | .binary => "BinaryParagraph"
  | .sourceControl => "DSC"
  | .sourceIndex => "SourceIndex"
  | .binaryIndex => "BinaryIndex"

end RecordKind

end DebianPackaging
