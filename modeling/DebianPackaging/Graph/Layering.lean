import DebianPackaging.Graph.ReleaseLayers
import DebianPackaging.Log

namespace DebianPackaging.Graph

open Text

def layering (g : Graph) : Layering :=
  g.release?.get (by rw [release?_eq, Option.isSome_some])

theorem layering_eq (g : Graph) : g.layering = layers g.targets g.nodes := by
  simp only [layering, release?_eq, Option.get_some]

structure Cycle where
  nodes : List Text
deriving DecidableEq, Repr

def commaSeparated (names : List Text) : String :=
  string (join ", " names)

def Cycle.message (c : Cycle) : String :=
  s!"dependency cycle among: {commaSeparated c.nodes}"

def generations (g : Graph) : Except Cycle (List (List Text)) :=
  if g.layering.unresolved.isEmpty then
    .ok g.layering.generations
  else
    .error ⟨g.layering.unresolved⟩

def order (g : Graph) : Except Cycle (List Text) :=
  g.generations.map List.flatten

def topic : String := "TOPSORT"

def Layering.report (l : Layering) : List Log.Entry :=
  (l.generations.mapIdx fun i names =>
    .debug topic s!"Generation {i}: {commaSeparated names}") ++
    if l.unresolved.isEmpty then []
    else [.debug topic s!"Unresolved: {commaSeparated l.unresolved}"]

def logGenerations (g : Graph) : Logged Cycle (List (List Text)) :=
  ⟨g.layering.report, g.generations⟩

end DebianPackaging.Graph
