import DebianPackaging.Table
import DebianPackaging.Text.Basic

namespace DebianPackaging

structure Graph where
  rows : List (Text × List Text)
  distinct : (rows.map Prod.fst).Nodup

namespace Graph

def nodes (g : Graph) : List Text :=
  g.rows.map Prod.fst

/-- The targets of a node that are nodes themselves. -/
def targets (g : Graph) (name : Text) : List Text :=
  ((g.rows.lookup name).getD []).filter g.nodes.contains

theorem mem_nodes_of_mem_targets {g : Graph} {name target : Text} (h : target ∈ g.targets name) :
    target ∈ g.nodes := by
  simpa using (List.mem_filter.mp h).2

def ofRows (rows : List (Text × List Text)) : Graph :=
  ⟨Table.ofRows rows, Table.ofRows_distinct rows⟩

end Graph

end DebianPackaging
