import PackedInts.Command.Job

/-!
# Runs on a file tree

* `FileTree.readInput` -- the content of an input file, with the tests that come before reading;
* `FileTree.access` -- a file tree as what jobs read and write;
* `runWith` -- a run with a codec for base64 text: its report, and the tree it leaves;
* `run` -- a run with the standard codec.

Main statements: `runWith_of_parse_error`, arguments that cannot be read leave the tree alone;
`Job.perform_access`, what a job does on a tree, step by step.
-/

namespace PackedInts

/-- The content of an input file. It has to exist and must not be a directory. -/
def FileTree.readInput (t : FileTree) (path : Bytes) : Except CommandError Bytes :=
  match t.resolve path with
  | .error .nameTooLong => .error (.file (.cannotInspect path .nameTooLong))
  | .error _ => .error (.inputMissing path)
  | .ok loc =>
    if t.find loc = some .directory then .error (.inputIsDirectory path)
    else (t.read path).mapError .file

/-- A file tree as what jobs read and write. -/
def FileTree.access : FileAccess (StateM FileTree) where
  readInput path := fun t => (t.readInput path, t)
  writeOutput path content := fun t =>
    let (result, t') := t.write path content
    (result.mapError .file, t')

theorem FileTree.run_readInput (t : FileTree) (path : Bytes) :
    (FileTree.access.readInput path).run t = (t.readInput path, t) := rfl

theorem FileTree.run_writeOutput (t : FileTree) (path content : Bytes) :
    (FileTree.access.writeOutput path content).run t =
      ((t.write path content).1.mapError .file, (t.write path content).2) := rfl

/-- Does what the arguments ask for on a tree, with a codec for base64 text: the report, and the tree
    afterwards. -/
def runWith {τ σ : Type} (codec : Base64.Codec τ σ) (arguments : List Bytes) (t : FileTree) :
    Report × FileTree :=
  (performArguments codec FileTree.access arguments).run t

/-- Does what the arguments ask for on a tree, with the standard codec. -/
def run (arguments : List Bytes) (t : FileTree) : Report × FileTree :=
  runWith Base64.standardCodec arguments t

/-- **Arguments that cannot be read leave the tree alone.** -/
theorem runWith_of_parse_error {τ σ : Type} {codec : Base64.Codec τ σ} {arguments : List Bytes}
    {e : CommandError} (h : Request.parse arguments = .error e) (t : FileTree) :
    runWith codec arguments t = (.failure [] e, t) := by
  rw [runWith, performArguments, h]
  rfl

/-- **What a job does on a tree**, step by step. -/
theorem Job.perform_access (job : Job) (t : FileTree) :
    (Job.perform FileTree.access job).run t =
      match t.readInput job.input with
      | .error e => (.failure [] e, t)
      | .ok content =>
        match job.make content with
        | ⟨warning, .error e⟩ => (.failure warning e, t)
        | ⟨warning, .ok (result, summary)⟩ =>
          match t.write job.output result with
          | (.error e, t') => (.failure warning (.file e), t')
          | (.ok (), t') => (.success summary warning, t') := by
  rw [Job.perform, StateT.run_bind, FileTree.run_readInput]
  cases t.readInput job.input with
  | error e => rfl
  | ok content =>
    rw [show (Except.ok content, t) = (pure (Except.ok content, t) : Id _) from rfl, pure_bind]
    dsimp only
    match job.make content with
    | ⟨warning, .error e⟩ => rfl
    | ⟨warning, .ok (result, summary)⟩ =>
      dsimp only
      rw [StateT.run_bind, FileTree.run_writeOutput]
      match t.write job.output result with
      | (.error e, t') => rfl
      | (.ok (), t') => rfl

end PackedInts
