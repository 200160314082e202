namespace DebianPackaging

namespace Log

inductive Entry
  | step (index total : Int) (message : String)
  | verbose (topic message : String)
  | debug (topic message : String)
deriving DecidableEq, Repr

def Entry.line : Entry → String
  | .step index total message => s!"[{index}/{total}] {message}"
  | .verbose topic message | .debug topic message => s!"[{topic}] {message}"

inductive Level
  | silent
  | steps
  | verbose
  | debug
deriving DecidableEq, Repr

def Level.ofFlags (verbose debug : Bool) : Level :=
  if debug then .debug else if verbose then .verbose else .steps

def Level.shows : Level → Entry → Bool
  | .silent, _ => false
  | _, .step _ _ _ => true
  | .steps, _ => false
  | _, .verbose _ _ => true
  | level, .debug _ _ => level = .debug

def Level.output (level : Level) (entries : List Entry) : String :=
  String.join ((entries.filter level.shows).map fun e => e.line ++ "\n")

end Log

/-- A result with the entries that were reported before it was reached. -/
structure Logged (ε α : Type) where
  log : List Log.Entry
  result : Except ε α

namespace Logged

variable {ε ε' α β : Type}

def ofExcept (r : Except ε α) : Logged ε α := ⟨[], r⟩

def report (entry : Log.Entry) : Logged ε Unit := ⟨[entry], .ok ()⟩

def reportAll (entries : List Log.Entry) : Logged ε Unit := ⟨entries, .ok ()⟩

/-- What comes after an error is not reached, and not reported. -/
def andThen (x : Logged ε α) (f : α → Logged ε β) : Logged ε β :=
  match x.result with
  | .error e => ⟨x.log, .error e⟩
  | .ok a => ⟨x.log ++ (f a).log, (f a).result⟩

instance : Monad (Logged ε) where
  pure a := ⟨[], .ok a⟩
  bind := andThen

def mapError (f : ε → ε') (x : Logged ε α) : Logged ε' α :=
  ⟨x.log, x.result.mapError f⟩

end Logged

end DebianPackaging
