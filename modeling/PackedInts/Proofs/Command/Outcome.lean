import Mathlib
import PackedInts.Command.Run
import PackedInts.Proofs.FileTree.Writing

/-!
# How a run ends

Whatever the arguments are and whatever the tree holds, a run ends in one of three ways: it fails
with an error and has written no file, it answers from the arguments alone, or it has written the
file that was asked for and nothing else.

* `IsWarning` -- what may stand in front of an error or, alone, on the error output;
* `Fails`, `Answers`, `Produces` -- the three ways;
* `Job.perform_outcome` -- a job fails or produces its output;
* **`run_outcome`** -- every run ends in one of the three ways.
-/

namespace PackedInts

/-! ## 1. Warnings -/

/-- Nothing, or one line about bytes behind the last value. -/
def IsWarning (text : Bytes) : Prop :=
  text = [] ∨ ∃ bytes > 0, text
    = ascii "Warning: ignoring " ++ Numeral.decimal bytes ++ ascii " trailing bytes\n"

theorem isWarning_trailingWarning (bytes : Nat) : IsWarning (trailingWarning bytes) := by
  unfold trailingWarning
  by_cases none : bytes = 0
  · rw [if_pos none]
    exact .inl rfl
  · rw [if_neg none]
    exact .inr ⟨bytes, Nat.pos_of_ne_zero none, rfl⟩

section Products

variable {τ σ : Type} (codec : Base64.Codec τ σ)

/-- Packing never warns. -/
theorem warning_packProduct (w : BitWidth) (base64 : Bool) (text : Bytes) :
    (packProduct codec w base64 text).warning = [] := by
  unfold packProduct
  split
  · rfl
  split
  · rfl
  split
  · rfl
  split
  · rfl
  · rfl

/-- Unpacking warns of bytes behind the last value, if at all. -/
theorem isWarning_unpackProduct (w : BitWidth) (count : UInt64) (base64 : Bool) (content : Bytes) :
    IsWarning (unpackProduct codec w count base64 content).warning := by
  unfold unpackProduct
  split
  · exact .inl rfl
  unfold unpackBytes
  split
  · exact .inl rfl
  split
  · exact .inl rfl
  · exact isWarning_trailingWarning _

end Products

/-! ## 2. The three ways -/

/-- The file that a request writes, if it writes any. -/
def Request.output? : Request → Option Bytes
  | .help => none
  | .layout _ => none
  | .pack _ _ _ output => some output
  | .unpack _ _ _ _ output => some output

/-- The file that the arguments ask for. -/
def outputOfArguments? (arguments : List Bytes) : Option Bytes :=
  match Request.parse arguments with
  | .error _ => none
  | .ok request => request.output?

/-- A run that failed. It says why, behind at most a warning, and nothing else; no file was made,
    changed or removed, and new directories stand on the way to the output at most. -/
structure Fails (t t' : FileTree) (output? : Option Bytes) (report : Report) : Prop where
  exit : report.exit = 1
  stdout : report.stdout = []
  stderr : ∃ warning e, IsWarning warning ∧
    report.stderr = warning ++ ascii "Error: " ++ CommandError.message e ++ ascii "\n"
  tree : match output? with
    | none => t' = t
    | some output => t.Grows t' (t.origin output) (FileTree.wayTo output)

/-- A run that answered from its arguments alone. -/
structure Answers (t t' : FileTree) (report : Report) : Prop where
  exit : report.exit = 0
  stderr : report.stderr = []
  tree : t' = t

/-- A run that wrote its output, and at most a warning on the error output. -/
structure Produces (t t' : FileTree) (output : Bytes) (report : Report) : Prop where
  exit : report.exit = 0
  stderr : IsWarning report.stderr
  tree : ∃ content, t.Writes t' output content

/-! ## 3. Jobs -/

/-- **A job reads exactly what is the content of a file.** -/
theorem FileTree.readInput_eq_ok_iff {t : FileTree} {path content : Bytes} :
    t.readInput path = .ok content ↔ t.read path = .ok content := by
  unfold readInput
  constructor
  · intro h
    split at h
    · cases h
    · cases h
    split at h
    · cases h
    cases given : t.read path with
    | error e =>
      rw [given] at h
      cases h
    | ok content' =>
      rw [given] at h
      exact congrArg Except.ok (Except.ok.inj h)
  · intro h
    obtain ⟨loc, resolved, found⟩ := read_eq_ok_iff.1 h
    have file : t.find loc ≠ some .directory := by
      rw [found]
      exact nofun
    rw [resolved]
    dsimp only
    rw [if_neg file, h]
    rfl

section Job

variable {job : Job} {t t' : FileTree} {content warning result summary : Bytes} {e : CommandError}

theorem Job.perform_of_unread (unread : t.readInput job.input = .error e) :
    (Job.perform FileTree.access job).run t = (.failure [] e, t) := by
  rw [Job.perform_access, unread]

theorem Job.perform_of_unmade (read : t.readInput job.input = .ok content)
    (unmade : job.make content = ⟨warning, .error e⟩) :
    (Job.perform FileTree.access job).run t = (.failure warning e, t) := by
  rw [Job.perform_access, read]
  dsimp only
  rw [unmade]

theorem Job.perform_of_unwritten {fault : FileError} (read : t.readInput job.input = .ok content)
    (made : job.make content = ⟨warning, .ok (result, summary)⟩)
    (unwritten : t.write job.output result = (.error fault, t')) :
    (Job.perform FileTree.access job).run t = (.failure warning (.file fault), t') := by
  rw [Job.perform_access, read]
  dsimp only
  rw [made]
  dsimp only
  rw [unwritten]

/-- **A job that reads, makes and writes succeeds**, and its warning stands on the error output. -/
theorem Job.perform_of_written (read : t.readInput job.input = .ok content)
    (made : job.make content = ⟨warning, .ok (result, summary)⟩)
    (written : t.write job.output result = (.ok (), t')) :
    (Job.perform FileTree.access job).run t = (.success summary warning, t') := by
  rw [Job.perform_access, read]
  dsimp only
  rw [made]
  dsimp only
  rw [written]

theorem fails_failure {output? : Option Bytes} (warns : IsWarning warning) (e : CommandError)
    (tree : match output? with
      | none => t' = t
      | some output => t.Grows t' (t.origin output) (FileTree.wayTo output)) :
    Fails t t' output? (.failure warning e) :=
  ⟨rfl, rfl, ⟨warning, e, warns, rfl⟩, tree⟩

end Job

/-- **A job fails or produces its output.** What it reads and what it makes comes before the output
    is touched, so only a write can leave anything behind. -/
theorem Job.perform_outcome (job : Job) (warns : ∀ content, IsWarning (job.make content).warning)
    (t : FileTree) :
    ∃ report t', (Job.perform FileTree.access job).run t = (report, t') ∧
      (Fails t t' (some job.output) report ∨ Produces t t' job.output report) := by
  have same := FileTree.Grows.refl t (t.origin job.output) (FileTree.wayTo job.output)
  cases read : t.readInput job.input with
  | error e => exact ⟨_, _, Job.perform_of_unread read, .inl (fails_failure (.inl rfl) e same)⟩
  | ok content =>
    have warned := warns content
    rcases made : job.make content with ⟨warning, _ | ⟨result, summary⟩⟩
    · rw [made] at warned
      exact ⟨_, _, Job.perform_of_unmade read made, .inl (fails_failure warned _ same)⟩
    rw [made] at warned
    rcases written : t.write job.output result with ⟨_ | _, t'⟩
    · have grown := FileTree.write_of_error written
      exact ⟨_, _, Job.perform_of_unwritten read made written, .inl (fails_failure warned _ grown)⟩
    · refine ⟨_, _, Job.perform_of_written read made written, .inr ⟨rfl, warned, result, ?_⟩⟩
      exact FileTree.write_of_ok written

/-! ## 4. Every run -/

section Runs

variable {τ σ : Type} {codec : Base64.Codec τ σ}

/-- **A run without error** does what its request asks for. -/
theorem runWith_of_parse_ok {arguments : List Bytes} {request : Request}
    (h : Request.parse arguments = .ok request) (t : FileTree) :
    runWith codec arguments t = (request.perform codec FileTree.access).run t := by
  unfold runWith performArguments
  rw [h]

/-- **Every run ends in one of three ways**, whatever the codec for base64 text does: it fails and
    writes no file, it answers from its arguments alone, or it writes the file that was asked for and
    nothing else. -/
theorem run_outcome (codec : Base64.Codec τ σ) (arguments : List Bytes) (t : FileTree) :
    ∃ report t', runWith codec arguments t = (report, t') ∧
      (Fails t t' (outputOfArguments? arguments) report ∨
        ∃ request, Request.parse arguments = .ok request ∧
          match request.output? with
          | none => Answers t t' report
          | some output => Produces t t' output report) := by
  unfold outputOfArguments?
  cases parsed : Request.parse arguments with
  | error e =>
    exact ⟨_, _, runWith_of_parse_error parsed t, .inl (fails_failure (.inl rfl) e rfl)⟩
  | ok request =>
    rw [runWith_of_parse_ok parsed]
    cases request with
    | help => exact ⟨_, _, rfl, .inr ⟨_, rfl, rfl, rfl, rfl⟩⟩
    | layout w => exact ⟨_, _, rfl, .inr ⟨_, rfl, rfl, rfl, rfl⟩⟩
    | pack w base64 input output =>
      have warns : ∀ content, IsWarning (packProduct codec w base64 content).warning :=
        fun content => .inl (warning_packProduct codec w base64 content)
      obtain ⟨report, t', performed, way⟩ :=
        Job.perform_outcome ⟨input, output, packProduct codec w base64⟩ warns t
      refine ⟨report, t', performed, ?_⟩
      rcases way with failed | produced
      · exact .inl failed
      · exact .inr ⟨_, rfl, produced⟩
    | unpack w count base64 input output =>
      obtain ⟨report, t', performed, way⟩ :=
        Job.perform_outcome ⟨input, output, unpackProduct codec w count base64⟩
          (isWarning_unpackProduct codec w count base64) t
      refine ⟨report, t', performed, ?_⟩
      rcases way with failed | produced
      · exact .inl failed
      · exact .inr ⟨_, rfl, produced⟩

end Runs

end PackedInts
