import DebianPackaging.Dependency.Basic

namespace DebianPackaging

open Text

namespace Possibility

def matchesProfiles (p : Possibility) (active : List Text) : Bool :=
  p.profileGroups.isEmpty || p.profileGroups.any (·.all (·.holds active))

/-- Without a set of profiles the profile groups do not count. -/
def applies (p : Possibility) (a : Architecture) (active : Option (List Text)) : Bool :=
  p.architectures.admits a && active.all p.matchesProfiles

end Possibility

namespace Dependency

def select (d : Dependency) (a : Architecture) (active : Option (List Text)) : List Possibility :=
  d.filterMap fun relation => relation.find? (·.applies a active)

def packages (d : Dependency) : List Possibility :=
  d.flatten.filter (!·.isSubstvar)

def substvars (d : Dependency) : List Possibility :=
  d.flatten.filter (·.isSubstvar)

end Dependency

end DebianPackaging
