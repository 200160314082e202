import DebianPackaging.Text.Basic

namespace DebianPackaging.Graph

open Text

structure Layering where
  generations : List (List Text)
  unresolved : List Text
deriving DecidableEq, Repr

def isReady (targets : Text → List Text) (names : List Text) (name : Text) : Bool :=
  (targets name).all fun target => !names.contains target

theorem isReady_iff {targets : Text → List Text} {names : List Text} {name : Text} :
    isReady targets names name = true ↔ ∀ target ∈ targets name, target ∉ names := by
  simp [isReady]

def ready (targets : Text → List Text) (names : List Text) : List Text :=
  names.filter (isReady targets names)

def waiting (targets : Text → List Text) (names : List Text) : List Text :=
  names.filter fun name => !isReady targets names name

theorem waiting_length_lt {targets : Text → List Text} {names : List Text}
    (h : ready targets names ≠ []) : (waiting targets names).length < names.length := by
  obtain ⟨name, hname⟩ := List.exists_mem_of_ne_nil _ h
  obtain ⟨hmem, hready⟩ := List.mem_filter.mp hname
  exact List.length_filter_lt_length_iff_exists.mpr ⟨name, hmem, by simp [hready]⟩

/-- Takes away the names that are ready, again and again. Those that lead into a cycle are left. -/
def layers (targets : Text → List Text) (names : List Text) : Layering :=
  if _h : ready targets names = [] then
    ⟨[], sort names⟩
  else
    let rest := layers targets (waiting targets names)
    ⟨sort (ready targets names) :: rest.generations, rest.unresolved⟩
termination_by names.length
decreasing_by exact waiting_length_lt _h

end DebianPackaging.Graph
