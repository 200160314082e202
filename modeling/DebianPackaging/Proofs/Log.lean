import DebianPackaging.Log
import DebianPackaging.Proofs.Outcome

namespace DebianPackaging.Logged

open Outcome

variable {ε ε' α β : Type}

theorem result_bind (x : Logged ε α) (f : α → Logged ε β) :
    (x >>= f).result = x.result >>= fun a => (f a).result := by
  cases h : x.result with
  | error e => simp [bind, andThen, Except.bind, h]
  | ok a => simp [bind, andThen, Except.bind, h]

theorem result_bind_eq_ok_iff {x : Logged ε α} {f : α → Logged ε β} {b : β} :
    (x >>= f).result = .ok b ↔ ∃ a, x.result = .ok a ∧ (f a).result = .ok b := by
  rw [result_bind, bind_eq_ok_iff]

@[simp]
theorem result_pure (a : α) : (pure a : Logged ε α).result = .ok a := rfl

@[simp]
theorem result_ofExcept (r : Except ε α) : (ofExcept r).result = r := rfl

@[simp]
theorem result_report (entry : Log.Entry) : (report entry : Logged ε Unit).result = .ok () := rfl

@[simp]
theorem result_reportAll (entries : List Log.Entry) :
    (reportAll entries : Logged ε Unit).result = .ok () := rfl

@[simp]
theorem result_mapError (f : ε → ε') (x : Logged ε α) :
    (x.mapError f).result = x.result.mapError f := rfl

/-- A report on what was found leaves it as it is. -/
theorem result_reported (r : Except ε α) (entry : α → Log.Entry) :
    (do
      let a ← .ofExcept r
      .report (entry a)
      return a : Logged ε α).result = r := by
  cases r <;> rfl

instance : LawfulMonad (Logged ε) :=
  LawfulMonad.mk' (Logged ε)
    (fun x => by
      obtain ⟨log, _ | a⟩ := x
      · rfl
      · simp [Functor.map, andThen])
    (fun a f => by simp [pure, bind, andThen])
    (fun x f g => by
      obtain ⟨log, _ | a⟩ := x
      · rfl
      · cases h : (f a).result with
        | error e => simp [bind, andThen, h]
        | ok b => simp [bind, andThen, h])

theorem result_mapM (f : α → Logged ε β) (as : List α) :
    (as.mapM f).result = as.mapM fun a => (f a).result := by
  induction as with
  | nil => rfl
  | cons a as ih =>
      simp only [List.mapM_cons, result_bind, ih]
      rfl

end DebianPackaging.Logged
