import DebianPackaging.Proofs.Dependency.Contents
import DebianPackaging.Proofs.Version.Order

namespace DebianPackaging

open Text VersionConstraint

variable {c d w : Version} {op : Operator} {operator : Text}

namespace Operator

def lowerBounds : List Operator := [.laterOrEqual, .later, .oldLaterOrEqual]

def upperBounds : List Operator := [.earlierOrEqual, .earlier, .oldEarlierOrEqual]

/-- What lower bounds admit, they admit of every later version. -/
theorem admits_of_later (hop : op ∈ lowerBounds) (h : (compare c d).isLE = true)
    (hc : op.admits (compare c w) = true) : op.admits (compare d w) = true := by
  have hdc : (compare d c).isGE = true := Std.OrientedCmp.isGE_iff_isLE.mpr h
  simp only [lowerBounds, List.mem_cons, List.not_mem_nil, or_false] at hop
  rcases hop with rfl | rfl | rfl
  · exact Std.TransCmp.isGE_trans hdc hc
  · exact Ordering.isGT_iff_eq_gt.mpr
      (Std.TransCmp.gt_of_isGE_of_gt hdc (Ordering.isGT_iff_eq_gt.mp hc))
  · exact Std.TransCmp.isGE_trans hdc hc

theorem admits_of_earlier (hop : op ∈ upperBounds) (h : (compare d c).isLE = true)
    (hc : op.admits (compare c w) = true) : op.admits (compare d w) = true := by
  simp only [upperBounds, List.mem_cons, List.not_mem_nil, or_false] at hop
  rcases hop with rfl | rfl | rfl
  · exact Std.TransOrd.isLE_trans h hc
  · exact Ordering.isLT_iff_eq_lt.mpr
      (Std.TransCmp.lt_of_isLE_of_lt h (Ordering.isLT_iff_eq_lt.mp hc))
  · exact Std.TransOrd.isLE_trans h hc

theorem earlier_admits_iff (o : Ordering) :
    earlier.admits o = true ↔ ¬laterOrEqual.admits o = true := by
  cases o <;> decide

theorem later_admits_iff (o : Ordering) :
    later.admits o = true ↔ ¬earlierOrEqual.admits o = true := by
  cases o <;> decide

theorem exactly_admits_iff (o : Ordering) : exactly.admits o = true ↔
    earlierOrEqual.admits o = true ∧ laterOrEqual.admits o = true := by
  cases o <;> decide

end Operator

namespace Version

def Satisfies (v : Version) (op : Operator) (bound : Version) : Prop :=
  satisfiedBy? ⟨op.symbol, bound⟩ v = some true

theorem satisfiedBy?_symbol (op : Operator) (w v : Version) :
    satisfiedBy? ⟨op.symbol, w⟩ v = some (op.admits (compare v w)) := by
  rw [satisfiedBy?, Dependency.ofSymbol?_eq_some_iff.mpr rfl]
  rfl

theorem satisfies_iff : c.Satisfies op w ↔ op.admits (compare c w) = true := by
  rw [Satisfies, satisfiedBy?_symbol, Option.some.injEq]

theorem satisfiedBy?_eq_none_iff :
    satisfiedBy? ⟨operator, w⟩ c = none ↔ ∀ op : Operator, op.symbol ≠ operator := by
  rw [satisfiedBy?, Option.map_eq_none_iff, Option.eq_none_iff_forall_ne_some]
  exact forall_congr' fun op => not_congr Dependency.ofSymbol?_eq_some_iff

theorem satisfiedBy?_congr (h : compare c d = .eq) (operator : Text) (w : Version) :
    satisfiedBy? ⟨operator, w⟩ c = satisfiedBy? ⟨operator, w⟩ d := by
  rw [satisfiedBy?, satisfiedBy?, Std.TransCmp.congr_left h]

/-- A constraint is answered for every operator, and equally for versions that compare equal. Lower
bounds are open upwards and upper bounds downwards; the strict operators are complements, and equality
is where both bounds hold. -/
theorem satisfies_interval (w c d : Version) :
    (∀ operator, satisfiedBy? ⟨operator, w⟩ c = none ↔ ∀ op : Operator, op.symbol ≠ operator) ∧
    (compare c d = .eq →
      ∀ operator, satisfiedBy? ⟨operator, w⟩ c = satisfiedBy? ⟨operator, w⟩ d) ∧
    ((compare c d).isLE = true →
      ∀ op ∈ Operator.lowerBounds, c.Satisfies op w → d.Satisfies op w) ∧
    ((compare d c).isLE = true →
      ∀ op ∈ Operator.upperBounds, c.Satisfies op w → d.Satisfies op w) ∧
    (c.Satisfies .earlier w ↔ ¬c.Satisfies .laterOrEqual w) ∧
    (c.Satisfies .later w ↔ ¬c.Satisfies .earlierOrEqual w) ∧
    (c.Satisfies .exactly w ↔ c.Satisfies .earlierOrEqual w ∧ c.Satisfies .laterOrEqual w) := by
  simp only [satisfies_iff]
  refine ⟨fun _ => satisfiedBy?_eq_none_iff, fun h operator => satisfiedBy?_congr h operator w,
    fun h op hop => Operator.admits_of_later hop h,
    fun h op hop => Operator.admits_of_earlier hop h, ?_⟩
  exact ⟨Operator.earlier_admits_iff _, Operator.later_admits_iff _, Operator.exactly_admits_iff _⟩

/-- Two spellings of one place in the order, for leading zeros and a revision of zero do not count, and
a version on either side of it. -/
theorem satisfies_interval_spellings :
    compare (⟨0, "1.02", []⟩ : Version) ⟨0, "1.2", "0"⟩ = .eq ∧
      satisfiedBy? ⟨"=", ⟨0, "1.2", []⟩⟩ ⟨0, "1.02", []⟩ =
        satisfiedBy? ⟨"=", ⟨0, "1.2", []⟩⟩ ⟨0, "1.2", "0"⟩ ∧
      (⟨0, "1.2", "0"⟩ : Version).Satisfies .laterOrEqual ⟨0, "1.2", []⟩ ∧
      (⟨0, "1.2", "0"⟩ : Version).Satisfies .earlierOrEqual ⟨0, "1.2", []⟩ ∧
      compare (⟨0, "1.02", []⟩ : Version) ⟨0, "1.10", []⟩ = .lt ∧
      (∀ op ∈ Operator.lowerBounds, (⟨0, "1.10", []⟩ : Version).Satisfies op ⟨0, "1.1", []⟩) ∧
      compare (⟨0, "1.2~rc1", []⟩ : Version) ⟨0, "1.02", []⟩ = .lt ∧
      (∀ op ∈ Operator.upperBounds, (⟨0, "1.2~rc1", []⟩ : Version).Satisfies op ⟨0, "1.10", []⟩) := by
  have heq : compare (⟨0, "1.02", []⟩ : Version) ⟨0, "1.2", "0"⟩ = .eq := by cbv
  have hle := Ordering.isLE_of_eq_eq heq
  have hge := Ordering.isLE_of_eq_eq (Std.OrientedCmp.eq_symm heq)
  have hlow : (⟨0, "1.02", []⟩ : Version).Satisfies .laterOrEqual ⟨0, "1.2", []⟩ :=
    satisfies_iff.mpr (by cbv)
  have hhigh : (⟨0, "1.02", []⟩ : Version).Satisfies .earlierOrEqual ⟨0, "1.2", []⟩ :=
    satisfies_iff.mpr (by cbv)
  obtain ⟨-, hequal, hlower, hupper, -⟩ :=
    satisfies_interval ⟨0, "1.2", []⟩ ⟨0, "1.02", []⟩ ⟨0, "1.2", "0"⟩
  have hlt : compare (⟨0, "1.02", []⟩ : Version) ⟨0, "1.10", []⟩ = .lt := by cbv
  have hbelow : ∀ op ∈ Operator.lowerBounds,
      (⟨0, "1.02", []⟩ : Version).Satisfies op ⟨0, "1.1", []⟩ := by
    have hbound : compare (⟨0, "1.02", []⟩ : Version) ⟨0, "1.1", []⟩ = .gt := by cbv
    simp only [satisfies_iff, hbound]
    decide
  obtain ⟨-, -, hlarger, -⟩ := satisfies_interval ⟨0, "1.1", []⟩ ⟨0, "1.02", []⟩ ⟨0, "1.10", []⟩
  have hgt : compare (⟨0, "1.2~rc1", []⟩ : Version) ⟨0, "1.02", []⟩ = .lt := by cbv
  have habove : ∀ op ∈ Operator.upperBounds,
      (⟨0, "1.02", []⟩ : Version).Satisfies op ⟨0, "1.10", []⟩ := by
    simp only [satisfies_iff, hlt]
    decide
  obtain ⟨-, -, -, hsmaller, -⟩ :=
    satisfies_interval ⟨0, "1.10", []⟩ ⟨0, "1.02", []⟩ ⟨0, "1.2~rc1", []⟩
  exact ⟨heq, hequal heq "=", hlower hle .laterOrEqual (by decide) hlow,
    hupper hge .earlierOrEqual (by decide) hhigh,
    hlt, fun op hop => hlarger (Ordering.isLE_of_eq_lt hlt) op hop (hbelow op hop),
    hgt, fun op hop => hsmaller (Ordering.isLE_of_eq_lt hgt) op hop (habove op hop)⟩

end Version

end DebianPackaging
