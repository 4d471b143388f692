/-!
Forms of texts, read a character at a time.  A form says which stage follows a
stage on a character, and at which stages a text may end.  The stages are
finitely many, so that a form asks no more of a text than a regular expression
for the whole of it could.
-/

namespace HostPattern.Text

structure Form (Stage : Type) where
  first : Stage
  /-- The stage after a character, if the character may stand there. -/
  next? : Stage → Char → Option Stage
  mayEnd : Stage → Bool

namespace Form

variable {Stage : Type}

def admitsFrom (form : Form Stage) : Stage → List Char → Bool
  | stage, [] => form.mayEnd stage
  | stage, c :: text =>
    match form.next? stage c with
    | none => false
    | some next => form.admitsFrom next text

def admits (form : Form Stage) (text : List Char) : Bool :=
  form.admitsFrom form.first text

@[simp] theorem admitsFrom_nil (form : Form Stage) (stage : Stage) :
    form.admitsFrom stage [] = form.mayEnd stage := rfl

theorem admitsFrom_cons (form : Form Stage) (stage : Stage) (c : Char) (text : List Char) :
    form.admitsFrom stage (c :: text) = true ↔
      ∃ next, form.next? stage c = some next ∧ form.admitsFrom next text = true := by
  rw [admitsFrom]
  cases form.next? stage c <;> simp

end Form

end HostPattern.Text
