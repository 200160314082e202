import DebianPackaging.Text.LowerCase
import DebianPackaging.Text.Quoted

namespace DebianPackaging

open Text

structure Field where
  name : Text
  value : Text
deriving DecidableEq, Repr

def Field.key (f : Field) : Text :=
  lower f.name

structure Paragraph where
  fields : List Field
  distinct : (fields.map Field.key).Nodup
deriving DecidableEq

namespace Paragraph

def empty : Paragraph := ⟨[], by simp⟩

/-- The first field whose name, in any case, is among the names before it. -/
def firstRepeat? : List Text → List Field → Option Field
  | _, [] => none
  | seen, f :: rest => if seen.contains f.key then some f else firstRepeat? (f.key :: seen) rest

theorem distinct_of_firstRepeat? {seen : List Text} {fields : List Field}
    (h : firstRepeat? seen fields = none) :
    (fields.map Field.key).Nodup ∧ ∀ f ∈ fields, f.key ∉ seen := by
  induction fields generalizing seen with
  | nil => simp
  | cons f rest ih =>
      simp only [firstRepeat?] at h
      split at h
      · cases h
      · rename_i hf
        obtain ⟨hd, hs⟩ := ih h
        refine ⟨?_, fun g hg => ?_⟩
        · rw [List.map_cons, List.nodup_cons]
          refine ⟨fun hmem => ?_, hd⟩
          obtain ⟨g, hg, hgf⟩ := List.mem_map.mp hmem
          exact hs g hg (by simp [hgf])
        · rcases List.mem_cons.mp hg with rfl | hg
          · simpa using hf
          · exact fun hmem => hs g hg (List.mem_cons_of_mem _ hmem)

def ofFields (fields : List Field) : Except Field Paragraph :=
  match h : firstRepeat? [] fields with
  | some f => .error f
  | none => .ok ⟨fields, (distinct_of_firstRepeat? h).1⟩

def names (p : Paragraph) : List Text :=
  p.fields.map Field.name

def get? (p : Paragraph) (name : Text) : Option Text :=
  (p.fields.find? fun f => f.key = lower name).map Field.value

def contains (p : Paragraph) (name : Text) : Bool :=
  (p.get? name).isSome

def sameFields (p q : Paragraph) : Bool :=
  p.fields.all q.fields.contains && q.fields.all p.fields.contains

def describe (p : Paragraph) : String :=
  let members := p.fields.map fun f => s!"{quoted f.name}: {quoted f.value}"
  "Paragraph(\x7b" ++ ", ".intercalate members ++ "\x7d)"

end Paragraph

end DebianPackaging
