import DebianPackaging.Graph.Basic
import DebianPackaging.Graph.Layers

namespace DebianPackaging.Graph

open Text

abbrev Rows := List (Text × List Text)

def pending (g : Graph) : Rows :=
  Table.tabulate g.nodes g.targets

def waiters (g : Graph) : Rows :=
  Table.tabulate g.nodes fun name => g.nodes.filter fun other => (g.targets other).contains name

/-- The nodes that are not done, and those among them that were freed of their last target. -/
structure Work where
  pending : Rows
  released : List Text
deriving DecidableEq, Repr

def discard (name : Text) (w : Work) (waiter : Text) : Option Work :=
  (w.pending.lookup waiter).map fun targets =>
    let left := targets.filter (· != name)
    { pending := Table.insert (waiter, left) w.pending
      released := if left.isEmpty then w.released.insert waiter else w.released }

def settle (waiters : Rows) (w : Work) (name : Text) : Option Work :=
  if (w.pending.map Prod.fst).contains name then
    (waiters.lookup name).bind fun names =>
      names.foldlM (discard name) ⟨w.pending.filter (·.1 != name), w.released⟩
  else
    none

theorem discard_length {name waiter : Text} {w v : Work} (h : discard name w waiter = some v) :
    v.pending.length = w.pending.length := by
  obtain ⟨targets, ht, rfl⟩ := Option.map_eq_some_iff.mp h
  exact Table.insert_length (Table.mem_keys_of_lookup ht)

theorem discard_all_length {name : Text} {names : List Text} {w v : Work}
    (h : names.foldlM (discard name) w = some v) : v.pending.length = w.pending.length := by
  induction names generalizing w with
  | nil =>
      cases h
      rfl
  | cons waiter names ih =>
      rw [List.foldlM_cons] at h
      obtain ⟨u, hu, hv⟩ := Option.bind_eq_some_iff.mp h
      rw [ih hv, discard_length hu]

theorem settle_length {waiters : Rows} {name : Text} {w v : Work}
    (h : settle waiters w name = some v) : v.pending.length < w.pending.length := by
  unfold settle at h
  split at h
  · rename_i hmem
    obtain ⟨names, -, hv⟩ := Option.bind_eq_some_iff.mp h
    obtain ⟨row, hrow, hname⟩ := List.mem_map.mp (List.contains_iff_mem.mp hmem)
    rw [discard_all_length hv]
    exact List.length_filter_lt_length_iff_exists.mpr ⟨row, hrow, by simp [hname]⟩
  · cases h

theorem settle_all_length {waiters : Rows} {names : List Text} {w v : Work}
    (h : names.foldlM (settle waiters) w = some v) :
    v.pending.length + names.length ≤ w.pending.length := by
  induction names generalizing w with
  | nil =>
      cases h
      simp
  | cons name names ih =>
      rw [List.foldlM_cons] at h
      obtain ⟨u, hu, hv⟩ := Option.bind_eq_some_iff.mp h
      have := ih hv
      have := settle_length hu
      simp only [List.length_cons]
      omega

/-- Settles the nodes that are ready and goes on with those that this releases. It fails where a
table lacks the row that is looked up. -/
def rounds (waiters pending : Rows) (ready : List Text) : Option Layering :=
  if _hr : ready = [] then
    some ⟨[], sort (pending.map Prod.fst)⟩
  else
    match _h : ready.foldlM (settle waiters) ⟨pending, []⟩ with
    | none => none
    | some w =>
        (rounds waiters w.pending (sort w.released)).map fun rest =>
          ⟨ready :: rest.generations, rest.unresolved⟩
termination_by pending.length
decreasing_by
  have := settle_all_length _h
  have := List.length_pos_iff.mpr _hr
  dsimp only at *
  omega

def release? (g : Graph) : Option Layering :=
  rounds g.waiters g.pending (sort ((g.pending.filter (·.2.isEmpty)).map Prod.fst))

end DebianPackaging.Graph
