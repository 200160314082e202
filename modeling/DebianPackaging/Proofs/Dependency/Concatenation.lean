import DebianPackaging.Proofs.Dependency.Reading

namespace DebianPackaging.Dependency

open Text Outcome

variable {t : Text} {d : Dependency} {r : Relation} {e : ParseError}

theorem read_append_comma (t u : Text) :
    read (t ++ ',' :: u) = read t >>= fun a => read u >>= fun b => .ok (a ++ b) := by
  rw [read, splitOn_append_cons, List.filter_append, List.mapM_append]
  rfl

theorem parse_eq_ok_iff_read : parse t = .ok d ↔ read t = .ok d :=
  mapError_eq_ok_iff

theorem parse_eq_error_iff : parse t = .error e ↔ e.text = t ∧ read t = .error e.fault := by
  obtain ⟨fault, text⟩ := e
  rw [parse]
  cases read t with
  | error fault' => simp [Except.mapError, and_comm, eq_comm]
  | ok d => simp [Except.mapError]

/-- A piece without commas that is not blank is one relation. -/
theorem parse_piece_iff (hc : ',' ∉ t) (hb : isBlankText t = false) :
    parse t = .ok [r] ↔ readRelation t = .ok r := by
  rw [parse_eq_ok_iff_read, read, List.splitOn_eq_singleton hc,
    List.filter_cons_of_pos (by simp [hb]), List.filter_nil, mapM_eq_ok_iff]
  simp

theorem parse_eq_ok_iff_pieces : parse t = .ok d ↔
    List.Forall₂ (fun piece r => parse piece = .ok [r])
      ((t.splitOn ',').filter (!isBlankText ·)) d := by
  rw [parse_eq_ok_iff_read, read, mapM_eq_ok_iff]
  refine forall₂_congr_of_mem fun piece hp r => (parse_piece_iff ?_ ?_).symm
  · exact not_mem_of_mem_splitOn (List.mem_filter.mp hp).1
  · simpa using (List.mem_filter.mp hp).2

/-- Two fields with a comma between them are read exactly when both are, as the relations of the first
and after them those of the second. Otherwise the fault, and so its kind, is that of the first, or that
of the second when the first is read. The relations of a field are those of its pieces between commas,
blank ones apart, one for each and in their order. -/
theorem parse_append_comma (t u : Text) :
    (∀ d, parse (t ++ ',' :: u) = .ok d ↔
      ∃ a b, parse t = .ok a ∧ parse u = .ok b ∧ d = a ++ b) ∧
    (∀ e, parse (t ++ ',' :: u) = .error e ↔ e.text = t ++ ',' :: u ∧
      (parse t = .error ⟨e.fault, t⟩ ∨ (∃ a, parse t = .ok a) ∧ parse u = .error ⟨e.fault, u⟩)) ∧
    ∀ d, parse t = .ok d ↔ List.Forall₂ (fun piece r => parse piece = .ok [r])
      ((t.splitOn ',').filter (!isBlankText ·)) d := by
  refine ⟨fun d => ?_, fun e => ?_, fun d => parse_eq_ok_iff_pieces⟩
  · simp only [parse_eq_ok_iff_read, read_append_comma, bind_eq_ok_iff, Except.ok.injEq]
    constructor
    · rintro ⟨a, ha, b, hb, rfl⟩
      exact ⟨a, b, ha, hb, rfl⟩
    · rintro ⟨a, b, ha, hb, rfl⟩
      exact ⟨a, ha, b, hb, rfl⟩
  · simp only [parse_eq_error_iff, parse_eq_ok_iff_read, read_append_comma, bind_eq_error_iff,
      reduceCtorEq, and_false, exists_false, or_false, true_and, exists_and_right]

/-- A bracket is not closed behind the comma. -/
example : (parse "a [amd64, b]").mapError ParseError.fault = .error (.missingCloser ']') := by cbv

end DebianPackaging.Dependency
