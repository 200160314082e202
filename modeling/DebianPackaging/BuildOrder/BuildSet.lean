import DebianPackaging.Graph.Basic
import DebianPackaging.Record.Document
import DebianPackaging.Settings.Basic

namespace DebianPackaging

open Text

structure BuildSet where
  sources : List Control
  host : Architecture
  settings : Settings

structure Offer where
  binary : Text
  source : Text
  built : Bool
deriving DecidableEq, Repr

def Control.name (c : Control) : Text :=
  c.source.source

namespace BuildSet

def names (s : BuildSet) : List Text :=
  s.sources.map Control.name

def offersOf (s : BuildSet) (c : Control) : List Offer :=
  c.binaries.map fun b => ⟨b.package, c.name, b.buildsOn s.host⟩

def offers (s : BuildSet) : List Offer :=
  if s.settings.includeBinaryNames then s.sources.flatMap s.offersOf else []

def provider? (s : BuildSet) (binary : Text) : Option Text :=
  (s.offers.find? fun o => o.built && o.binary = binary).map Offer.source

/-- The source to build for a name. The name of a source stands for that source. -/
def target? (s : BuildSet) (name : Text) : Option Text :=
  if s.names.contains name then some name else s.provider? name

/-- The packages that one relationship field of a source asks for on the host. -/
def fieldNames (s : BuildSet) (c : Control) (field : Text) :
    Except Record.NotARelationship (List Text) :=
  (c.source.relationship field).map fun d =>
    ((d.select s.host (some s.settings.buildProfiles)).filter (!·.isSubstvar)).map (·.name)

def neededNames (s : BuildSet) (c : Control) : Except Record.NotARelationship (List Text) :=
  (s.settings.orderFields.mapM (s.fieldNames c)).map List.flatten

def targets (s : BuildSet) (c : Control) (needed : List Text) : List Text :=
  (needed.filterMap s.target?).filter (· != c.name)

def external (s : BuildSet) (needed : List Text) : List Text :=
  needed.filter fun name => (s.target? name).isNone

end BuildSet

end DebianPackaging
