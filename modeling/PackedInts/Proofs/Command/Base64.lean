import Mathlib
import PackedInts.Proofs.Command.Arguments
import PackedInts.Proofs.Command.Outcome
import PackedInts.Proofs.Command.Packing
import PackedInts.Proofs.FileTree.SameBut
import PackedInts.Proofs.Text.Base64Codec

/-!
# Packed bytes raw and as base64 text

The flag for base64 text changes how packed bytes stand in a file and nothing else. A file that holds
them as text is unpacked just as one that holds them raw, with the same words and the same end, and
a packing writes the text where it would have written the bytes.

* `packProduct_cases` -- what is made of a list, raw and as text;
* `unpackProduct_of_decode` -- what is made of a text is made of the bytes that it spells;
* `Job.perform_sameBut` -- two jobs that make the same on trees that differ in their input only;
* `Job.perform_contents` -- two jobs that differ in the form of their output only;
* `TextFits` -- a codec can be given the text of what is packed;
* **`run_base64`** -- a run with the flag beside one without it.
-/

namespace PackedInts

/-! ## 1. Products -/

section Products

variable {τ σ : Type} {codec : Base64.Codec τ σ}

/-- **What is made of a list**: an error, whatever the form of the output, or the packed bytes with a
    summary; and the same summary with their text, if the codec makes one. -/
theorem packProduct_cases (codec : Base64.Codec τ σ) (w : BitWidth) (content : Bytes) :
    (∃ e, ∀ base64, packProduct codec w base64 content = ⟨[], .error e⟩) ∨
      ∃ vs summary, ValueList.parse content = .ok vs ∧ (∀ v ∈ vs, v.toNat < 2 ^ w.bits) ∧
        packProduct codec w false content = ⟨[], .ok (Bits.packed w.bits vs, summary)⟩ ∧
        ∀ text, Base64.encodeWith codec.encoder (Bits.packed w.bits vs) = .ok text →
          packProduct codec w true content = ⟨[], .ok (text ++ ascii "\n", summary)⟩ := by
  cases parsed : ValueList.parse content with
  | error e =>
    refine .inl ⟨.values e, fun base64 => ?_⟩
    unfold packProduct
    rw [parsed]
  | ok vs =>
    cases found : firstTooWide w vs with
    | some entry => exact .inl ⟨_, packProduct_of_tooWide codec parsed found⟩
    | none =>
      have fit := firstTooWide_eq_none_iff.1 found
      exact .inr ⟨vs, _, rfl, fit, packProduct_of_fits parsed fit rfl, fun text written =>
        packProduct_of_fits parsed fit (packedContent_of_encodeWith written)⟩

/-- **What is made of a text is made of the bytes that it spells.** -/
theorem unpackProduct_of_decode {text d : Bytes}
    (decoded : Base64.decodeWith codec.decoder text = .ok d) (w : BitWidth) (count : UInt64) :
    unpackProduct codec w count true text = unpackProduct codec w count false d := by
  have same : packedOfContent codec true text = packedOfContent codec false d :=
    packedOfContent_of_decodeWith decoded
  unfold unpackProduct
  rw [same]

end Products

/-! ## 2. Jobs -/

section Job

variable {t t' : FileTree} {loc : Location} {c c' : Bytes}

/-- **Two jobs that make the same** of what each finds in the input come to the same, on trees that
    differ in the input only; and these differ there only afterwards, or not at all if the output
    was written over the input. -/
theorem Job.perform_sameBut (job job' : Job) (h : FileTree.SameBut loc c c' t t')
    (read : t.readInput job.input = .ok c) (read' : t'.readInput job'.input = .ok c')
    (same : job'.output = job.output) (made : job'.make c' = job.make c) :
    ∃ report t₁ t₁', (Job.perform FileTree.access job).run t = (report, t₁) ∧
      (Job.perform FileTree.access job').run t' = (report, t₁') ∧
      (FileTree.SameBut loc c c' t₁ t₁' ∨
        report.exit = 0 ∧ t₁.resolve job.output = .ok loc ∧ t₁'.start = t₁.start ∧
          ∀ place, t₁'.find place = t₁.find place) := by
  rcases product : job.make c with ⟨warning, e | ⟨result, summary⟩⟩
  · exact ⟨_, _, _, Job.perform_of_unmade read product,
      Job.perform_of_unmade read' (made.trans product), .inl h⟩
  obtain ⟨outcome, t₁, t₁', written, written', after⟩ := h.write job.output result
  rw [← same] at written'
  cases outcome with
  | error fault =>
    rcases after with apart | ⟨ended, -⟩
    · exact ⟨_, _, _, Job.perform_of_unwritten read product written,
        Job.perform_of_unwritten read' (made.trans product) written', .inl apart⟩
    · cases ended
  | ok _ =>
    refine ⟨_, _, _, Job.perform_of_written read product written,
      Job.perform_of_written read' (made.trans product) written', ?_⟩
    rcases after with apart | ⟨-, written_over⟩
    · exact .inl apart
    · exact .inr ⟨rfl, written_over⟩

/-- **Two jobs that differ in the form of their output** come to the same, and if they write it then
    the trees differ there only. -/
theorem Job.perform_contents (job job' : Job) {content warning summary x x' : Bytes}
    (read : t.readInput job.input = .ok content) (read' : t.readInput job'.input = .ok content)
    (same : job'.output = job.output)
    (product : job.make content = ⟨warning, .ok (x, summary)⟩)
    (product' : job'.make content = ⟨warning, .ok (x', summary)⟩) :
    ∃ report t₁ t₁', (Job.perform FileTree.access job).run t = (report, t₁) ∧
      (Job.perform FileTree.access job').run t = (report, t₁') ∧
      (report.exit = 1 ∧ t₁' = t₁ ∨
        report.exit = 0 ∧ ∃ loc, t₁.resolve job.output = .ok loc ∧
          t₁'.resolve job.output = .ok loc ∧ FileTree.SameBut loc x x' t₁ t₁') := by
  rcases t.write_contents job.output x x' with
    ⟨fault, t₁, written, written'⟩ | ⟨loc, t₁, t₁', written, written', here, there, apart⟩
  all_goals rw [← same] at written'
  · exact ⟨_, _, _, Job.perform_of_unwritten read product written,
      Job.perform_of_unwritten read' product' written', .inl ⟨rfl, rfl⟩⟩
  · exact ⟨_, _, _, Job.perform_of_written read product written,
      Job.perform_of_written read' product' written', .inr ⟨rfl, loc, here, there, apart⟩⟩

end Job

/-! ## 3. Runs -/

section Runs

variable {τ σ : Type} {codec : Base64.Codec τ σ} {t t' : FileTree} {loc : Location} {w : BitWidth}
  {input output d text : Bytes}

/-- **An unpacking of a text** comes to what the unpacking of its bytes comes to. -/
theorem perform_unpack_base64 {count : UInt64} (resolved : t.resolve input = .ok loc)
    (h : FileTree.SameBut loc d text t t')
    (decoded : Base64.decodeWith codec.decoder text = .ok d) :
    ∃ report t₁ t₁',
      ((Request.unpack w count false input output).perform codec FileTree.access).run t
        = (report, t₁) ∧
      ((Request.unpack w count true input output).perform codec FileTree.access).run t'
        = (report, t₁') ∧
      (FileTree.SameBut loc d text t₁ t₁' ∨
        report.exit = 0 ∧ t₁.resolve output = .ok loc ∧ t₁'.start = t₁.start ∧
          ∀ place, t₁'.find place = t₁.find place) := by
  have read : t.readInput input = .ok d :=
    FileTree.readInput_eq_ok_iff.2 (FileTree.read_eq_ok_iff.2 ⟨loc, resolved, h.left⟩)
  have read' : t'.readInput input = .ok text :=
    FileTree.readInput_eq_ok_iff.2
      (FileTree.read_eq_ok_iff.2 ⟨loc, (h.resolve input).trans resolved, h.right⟩)
  exact Job.perform_sameBut ⟨input, output, unpackProduct codec w count false⟩
    ⟨input, output, unpackProduct codec w count true⟩ h read read' rfl
    (unpackProduct_of_decode decoded w count)

/-- The values of the input, if they are packed at all, have packed bytes of which a codec can be given
    the text. -/
def TextFits (t : FileTree) (w : BitWidth) (input : Bytes) : Prop :=
  ∀ content vs, t.read input = .ok content → ValueList.parse content = .ok vs →
    (∀ v ∈ vs, v.toNat < 2 ^ w.bits) →
    4 * ((byteCount (vs.length * w.bits) + 2) / 3) ≤ Base64.mostCharacters

/-- **A packing into a text** comes to what the packing into bytes comes to. -/
theorem perform_pack_base64 (standard : codec.Standard) (fits : TextFits t w input)
    (output : Bytes) :
    ∃ report t₁ t₁',
      ((Request.pack w false input output).perform codec FileTree.access).run t = (report, t₁) ∧
      ((Request.pack w true input output).perform codec FileTree.access).run t = (report, t₁') ∧
      (report.exit = 1 ∧ t₁' = t₁ ∨
        report.exit = 0 ∧ ∃ x s loc, Base64.encodeWith codec.encoder x = .ok s ∧
          t₁.resolve output = .ok loc ∧ t₁'.resolve output = .ok loc ∧
          FileTree.SameBut loc x (s ++ ascii "\n") t₁ t₁') := by
  cases read : t.readInput input with
  | error e =>
    exact ⟨_, _, _, Job.perform_of_unread read, Job.perform_of_unread read, .inl ⟨rfl, rfl⟩⟩
  | ok content =>
    rcases packProduct_cases codec w content with
      ⟨e, product⟩ | ⟨vs, summary, parsed, fit, product, product'⟩
    · exact ⟨_, _, _, Job.perform_of_unmade read (product false),
        Job.perform_of_unmade read (product true), .inl ⟨rfl, rfl⟩⟩
    · obtain ⟨text, encodes⟩ := standard.encoder
      have short : (Base64.encode (Bits.packed w.bits vs)).length ≤ Base64.mostCharacters := by
        rw [Base64.length_encode, Bits.length_packed]
        exact fits content vs (FileTree.readInput_eq_ok_iff.1 read) parsed fit
      have written := Base64.encodeWith_eq encodes short
      obtain ⟨report, t₁, t₁', performed, performed', after⟩ :=
        Job.perform_contents ⟨input, output, packProduct codec w false⟩
          ⟨input, output, packProduct codec w true⟩ read read rfl product (product' _ written)
      refine ⟨report, t₁, t₁', performed, performed', ?_⟩
      rcases after with failed | ⟨done, loc, here, there, apart⟩
      · exact .inl failed
      · exact .inr ⟨done, _, _, loc, written, here, there, apart⟩

/-- **A run with the flag for base64 text beside one without it.**

    An unpacking of a text with the flag ends as the unpacking of the bytes that the text spells
    ends without it, and says the same. The trees are the same but for the input file, as they were
    before; if that is the file that was written then they are the same altogether.

    A packing with the flag ends as it ends without it, and says the same, if the codec keeps to the
    standard and can be given the text. If it fails then it leaves the same tree, and else one that is
    the same but for the output file: that holds the packed bytes as a line of text. -/
theorem run_base64 (codec : Base64.Codec τ σ) {arguments arguments' : List Bytes}
    (added : AddsBase64 arguments arguments') :
    (∀ {w : BitWidth} {count : UInt64} {input output d text : Bytes} {loc : Location}
        {t t' : FileTree},
      Request.parse arguments = .ok (.unpack w count false input output) →
      t.resolve input = .ok loc → FileTree.SameBut loc d text t t' →
      Base64.decodeWith codec.decoder text = .ok d →
      ∃ report t₁ t₁', runWith codec arguments t = (report, t₁) ∧
        runWith codec arguments' t' = (report, t₁') ∧
        (FileTree.SameBut loc d text t₁ t₁' ∨
          report.exit = 0 ∧ t₁.resolve output = .ok loc ∧ t₁'.start = t₁.start ∧
            ∀ place, t₁'.find place = t₁.find place)) ∧
    ∀ {w : BitWidth} {input output : Bytes} {t : FileTree}, codec.Standard →
      Request.parse arguments = .ok (.pack w false input output) → TextFits t w input →
      ∃ report t₁ t₁', runWith codec arguments t = (report, t₁) ∧
        runWith codec arguments' t = (report, t₁') ∧
        (report.exit = 1 ∧ t₁' = t₁ ∨
          report.exit = 0 ∧ ∃ x s loc, Base64.encodeWith codec.encoder x = .ok s ∧
            t₁.resolve output = .ok loc ∧ t₁'.resolve output = .ok loc ∧
            FileTree.SameBut loc x (s ++ ascii "\n") t₁ t₁') := by
  have flagged := parse_of_addsBase64 added
  refine ⟨?_, ?_⟩
  · intro w count input output d text loc t t' parsed resolved h decoded
    rw [parsed] at flagged
    rw [runWith_of_parse_ok parsed, runWith_of_parse_ok flagged]
    exact perform_unpack_base64 resolved h decoded
  · intro w input output t standard parsed fits
    rw [parsed] at flagged
    rw [runWith_of_parse_ok parsed, runWith_of_parse_ok flagged]
    exact perform_pack_base64 standard fits output

end Runs

/-- Three values unpacked from three bytes, one of them too many, and from their text between blanks;
    and three values packed over the file that they came from. -/
theorem run_base64_both_ways :
    (∃ loc report t₁ t₁',
      run (unpackArguments ⟨3, by decide⟩ 3 false (ascii "p") (ascii "/d/v"))
        (.ofEntries [(ascii "p", some [173, 0, 7])]) = (report, t₁) ∧
      run (unpackArguments ⟨3, by decide⟩ 3 true (ascii "p") (ascii "/d/v"))
        (.ofEntries [(ascii "p", some (ascii " rQAH\n"))]) = (report, t₁') ∧
      report.exit = 0 ∧ report.stderr = ascii "Warning: ignoring 1 trailing bytes\n" ∧
      FileTree.SameBut loc [173, 0, 7] (ascii " rQAH\n") t₁ t₁') ∧
    Base64.standardCodec.Standard ∧ ∃ report t₁ t₁',
      run (packArguments ⟨3, by decide⟩ false (ascii "v") (ascii "v"))
        (.ofEntries [(ascii "v", some (ascii "5,3,2"))]) = (report, t₁) ∧
      run (packArguments ⟨3, by decide⟩ true (ascii "v") (ascii "v"))
        (.ofEntries [(ascii "v", some (ascii "5,3,2"))]) = (report, t₁') ∧
      report.exit = 0 ∧ ∃ x loc, t₁.resolve (ascii "v") = .ok loc ∧
        t₁'.resolve (ascii "v") = .ok loc ∧ FileTree.SameBut loc x (ascii "rQA=\n") t₁ t₁' := by
  refine ⟨?_, Base64.standardCodec_standard, ?_⟩
  · have few : 3 < 2 ^ 64 := by decide
    have decoded : Base64.decodeWith Base64.standardCodec.decoder (ascii " rQAH\n")
        = .ok [173, 0, 7] :=
      (Base64.decodeWith_eq_ok_iff Base64.standardDecoder_decodesBlocks).2 (by decide +kernel)
    rcases (FileTree.bare FileTree.workplace).write_contents (ascii "p") [173, 0, 7] (ascii " rQAH\n") with
      ⟨e, t, unwritten, -⟩ | ⟨loc, t, t', written, written', resolved, -, apart⟩
    · have opens : ((FileTree.bare FileTree.workplace).write (ascii "p") [173, 0, 7]).1 = .ok () := by
        decide +kernel
      rw [unwritten] at opens
      cases opens
    obtain rfl : FileTree.ofEntries [(ascii "p", some [173, 0, 7])] = t :=
      congrArg Prod.snd written
    obtain rfl : FileTree.ofEntries [(ascii "p", some (ascii " rQAH\n"))] = t' :=
      congrArg Prod.snd written'
    obtain ⟨report, t₁, t₁', ran, ran', after⟩ := (run_base64 Base64.standardCodec
        (addsBase64_unpackArguments ⟨3, by decide⟩ few (ascii "p") (ascii "/d/v"))).1
      (parse_unpackArguments few (by decide) (by decide)) resolved apart decoded
    have ends : (run (unpackArguments ⟨3, by decide⟩ 3 false (ascii "p") (ascii "/d/v"))
        (.ofEntries [(ascii "p", some [173, 0, 7])])).1.exit = 0 ∧
      (run (unpackArguments ⟨3, by decide⟩ 3 false (ascii "p") (ascii "/d/v"))
        (.ofEntries [(ascii "p", some [173, 0, 7])])).1.stderr
          = ascii "Warning: ignoring 1 trailing bytes\n" := by decide +kernel
    have elsewhere : (run (unpackArguments ⟨3, by decide⟩ 3 false (ascii "p") (ascii "/d/v"))
        (.ofEntries [(ascii "p", some [173, 0, 7])])).2.resolve (ascii "/d/v")
          ≠ (FileTree.ofEntries [(ascii "p", some [173, 0, 7])]).resolve (ascii "p") := by
      decide +kernel
    unfold run at ends elsewhere
    rw [ran] at ends elsewhere
    rcases after with still | ⟨-, written_over, -⟩
    · exact ⟨loc, report, t₁, t₁', ran, ran', ends.1, ends.2, still⟩
    · exact absurd (written_over.trans resolved.symm) elsewhere
  · have parsed : ValueList.parse (ascii "5,3,2") = .ok [5, 3, 2] := by decide +kernel
    have given : (FileTree.ofEntries [(ascii "v", some (ascii "5,3,2"))]).read (ascii "v")
        = .ok (ascii "5,3,2") := by
      decide +kernel
    have fits : TextFits (.ofEntries [(ascii "v", some (ascii "5,3,2"))]) ⟨3, by decide⟩
        (ascii "v") := by
      intro content vs given' parsed' _
      obtain rfl : ascii "5,3,2" = content := Except.ok.inj (given.symm.trans given')
      obtain rfl : [5, 3, 2] = vs := Except.ok.inj (parsed.symm.trans parsed')
      decide
    obtain ⟨report, t₁, t₁', ran, ran', after⟩ := (run_base64 Base64.standardCodec
        (addsBase64_packArguments ⟨3, by decide⟩ (ascii "v") (ascii "v"))).2
      Base64.standardCodec_standard (parse_packArguments (by decide) (by decide)) fits
    have ends : (run (packArguments ⟨3, by decide⟩ false (ascii "v") (ascii "v"))
        (.ofEntries [(ascii "v", some (ascii "5,3,2"))])).1.exit ≠ 1 := by decide +kernel
    have text : (run (packArguments ⟨3, by decide⟩ true (ascii "v") (ascii "v"))
        (.ofEntries [(ascii "v", some (ascii "5,3,2"))])).2.read (ascii "v")
          = .ok (ascii "rQA=\n") := by decide +kernel
    unfold run at ends text
    rw [ran] at ends
    rw [ran'] at text
    rcases after with ⟨failed, -⟩ | ⟨done, x, s, loc, -, here, there, apart⟩
    · exact absurd failed ends
    · have line := FileTree.read_eq_ok_iff.2 ⟨loc, there, apart.right⟩
      obtain same : s ++ ascii "\n" = ascii "rQA=\n" := Except.ok.inj (line.symm.trans text)
      rw [same] at apart
      exact ⟨report, t₁, t₁', ran, ran', done, x, loc, here, there, apart⟩

end PackedInts
