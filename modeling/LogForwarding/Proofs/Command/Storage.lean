/-
# Running a program on a storage

A storage is all that a program sees of files: in each state a path can be read,
with the bytes or an error, and written, with a new state or an error. So a
write that fails has no effect, and nothing else changes the state. What a
write that succeeds must do is said by `Storage.ReplacesAt`: it replaces the
whole of one file.

Key definitions: `Command.Storage`, `Command.Storage.ReplacesAt`,
`Command.Program.runOn`.
Key theorems: `Command.runOn_andThen`, `Command.runOn_bind`.
-/
import LogForwarding.Command.Ending
import LogForwarding.Proofs.FirstFault

namespace LogForwarding.Command

/-- Files in any of the states `σ`. An error is the text that the operating system has for it. -/
structure Storage (σ : Type) where
  /-- What a file is told by, whatever paths lead to it. -/
  File : Type
  /-- The bytes of a file that is there. -/
  content : σ → File → Option ByteArray
  /-- Read the file at the path. -/
  read : σ → String → Except String ByteArray
  /-- Replace the file at the path by a text. -/
  write : σ → String → String → Except String σ

/-- To write at the path is to replace the whole of one file: the text is found at the path, and
every other file is left alone. -/
def Storage.ReplacesAt {σ : Type} (d : Storage σ) (s : σ) (path : String) : Prop :=
  ∀ text after, d.write s path text = .ok after →
    d.read after path = .ok text.toUTF8 ∧
      ∃ file, d.content after file = some text.toUTF8 ∧
        ∀ other, other ≠ file → d.content after other = d.content s other

theorem mapError_eq_ok_iff {ε ε' α : Type} {x : Except ε α} {f : ε → ε'} {a : α} :
    x.mapError f = .ok a ↔ x = .ok a := by
  cases x <;> simp [Except.mapError]

/-! ### Runs -/

namespace Program

/-- The value of a program that runs on a storage, and the state after it. -/
def runOn {σ α : Type} (d : Storage σ) (s : σ) : Program α → α × σ
  | done value => (value, s)
  | read path next => (next (d.read s path)).runOn d s
  | write path text next =>
    match d.write s path text with
    | .ok after => (next (.ok ())).runOn d after
    | .error cause => (next (.error cause)).runOn d s

end Program

variable {σ α β : Type} {d : Storage σ} {s : σ}

/-- What comes after a program runs in the state that the program has left. -/
theorem runOn_andThen (p : Program α) (f : α → Program β) :
    (p.andThen f).runOn d s = (f (p.runOn d s).1).runOn d (p.runOn d s).2 := by
  induction p generalizing s with
  | done value => rfl
  | read path next ih => exact ih (d.read s path)
  | write path text next ih =>
    rw [Program.andThen, Program.runOn, Program.runOn]
    cases d.write s path text with
    | ok after => exact ih (.ok ())
    | error cause => exact ih (.error cause)

/-- An attempt after another is made only if the first has succeeded. -/
theorem runOn_bind (x : Attempt α) (f : α → Attempt β) :
    (x >>= f).run.runOn d s =
      match x.run.runOn d s with
      | (.ok a, after) => (f a).run.runOn d after
      | (.error failure, after) => (.error failure, after) := by
  have hbind : (x >>= f).run = x.run.andThen (ExceptT.bindCont f) := rfl
  rw [hbind, runOn_andThen]
  rcases x.run.runOn d s with ⟨failure | a, after⟩
  · rfl
  · rfl

end LogForwarding.Command
