/-!
# Computations that leave notices

A computation reports what it does by notices, in order. It may fail; the notices up to the failure
remain.
-/

namespace SoapTypes

/-- A message about the work in progress. -/
inductive Notice where
  /-- What is being done; of interest only to somebody who asks for details. -/
  | debug (text : String)
  /-- What may be wrong with the result. -/
  | warning (text : String)
  deriving DecidableEq, Repr

namespace Notice

/-- A notice as a line for a reader who wants all of them. -/
def line : Notice → String
  | debug text => "[DEBUG] " ++ text
  | warning text => "[WARNING] " ++ text

/-- The text of a warning. -/
def warning? : Notice → Option String
  | debug _ => none
  | warning text => some text

/-- The warnings among some notices. -/
def warnings (notices : List Notice) : List String := notices.filterMap warning?

@[simp] theorem warnings_nil : warnings [] = [] := rfl

@[simp] theorem warnings_append (a b : List Notice) :
    warnings (a ++ b) = warnings a ++ warnings b := by
  simp [warnings, List.filterMap_append]

end Notice

/-- An outcome and the notices on the way to it. -/
structure Traced (ε α : Type) where
  notices : List Notice
  outcome : Except ε α

namespace Traced

variable {ε α β : Type}

/-- A result without notices. -/
def value (a : α) : Traced ε α := ⟨[], .ok a⟩

/-- A failure without notices. -/
def fail (e : ε) : Traced ε α := ⟨[], .error e⟩

/-- One notice. -/
def notice (n : Notice) : Traced ε Unit := ⟨[n], .ok ()⟩

/-- An outcome that leaves no notices. -/
def ofExcept (outcome : Except ε α) : Traced ε α := ⟨[], outcome⟩

/-- Go on with the result; the notices of both parts follow each other. -/
def andThen (x : Traced ε α) (f : α → Traced ε β) : Traced ε β :=
  match x.outcome with
  | .error e => ⟨x.notices, .error e⟩
  | .ok a => ⟨x.notices ++ (f a).notices, (f a).outcome⟩

instance : Monad (Traced ε) where
  pure := value
  bind := andThen

@[simp] theorem pure_eq (a : α) : (pure a : Traced ε α) = ⟨[], .ok a⟩ := rfl

@[simp] theorem mk_bind_ok (notices : List Notice) (a : α) (f : α → Traced ε β) :
    ((⟨notices, .ok a⟩ : Traced ε α) >>= f) = ⟨notices ++ (f a).notices, (f a).outcome⟩ := rfl

@[simp] theorem mk_bind_error (notices : List Notice) (e : ε) (f : α → Traced ε β) :
    ((⟨notices, .error e⟩ : Traced ε α) >>= f) = ⟨notices, .error e⟩ := rfl

/-- The warnings of a computation. -/
def warnings (x : Traced ε α) : List String := Notice.warnings x.notices

end Traced

end SoapTypes
