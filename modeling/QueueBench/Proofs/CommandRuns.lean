import QueueBench.Command.Run
import QueueBench.Proofs.SingleDocuments

set_option autoImplicit false

namespace QueueBench.Command

variable (surroundings : Surroundings) (tree : FileTree)

/-- A text is the rendered dataset of an input. -/
def Renders (input : String) (asked : Option String) (text : String) : Prop :=
  ∃ settings dataset, Settings.load tree asked surroundings.settings = .ok settings ∧
    (Dataset.ofPath settings tree input).value = .ok dataset ∧ text = dataset.toJson.indented

/-- The text that an ingest run makes of its input, or why it makes none. -/
def rendering (input : String) (asked : Option String) : Except String String :=
  match settingsFor surroundings tree asked with
  | .error message => .error message
  | .ok settings =>
    match (Dataset.ofPath settings tree input).value with
    | .error failure => .error ("ingestion failed: " ++ failure.message)
    | .ok dataset => .ok dataset.toJson.indented

theorem renders_of_rendering {input : String} {asked : Option String} {text : String}
    (made : rendering surroundings tree input asked = .ok text) :
    Renders surroundings tree input asked text := by
  unfold rendering settingsFor at made
  cases loaded : Settings.load tree asked surroundings.settings with
  | error problem =>
    rw [loaded] at made
    cases made
  | ok settings =>
    rw [loaded] at made
    dsimp only at made
    cases ran : (Dataset.ofPath settings tree input).value with
    | error failure =>
      rw [ran] at made
      cases made
    | ok dataset =>
      rw [ran] at made
      exact ⟨settings, dataset, loaded, ran, (Except.ok.inj made).symm⟩

/-- A run makes its text and then delivers it. -/
theorem execute_ingest (input : String) (asked output : Option String) :
    (execute surroundings tree (.ingest input asked output)).value =
      (rendering surroundings tree input asked).bind
        fun text => (deliver tree text output).value := by
  unfold execute rendering
  dsimp only
  cases settingsFor surroundings tree asked with
  | error message => rfl
  | ok settings =>
    dsimp only
    rw [Logged.value_bind]
    cases (Dataset.ofPath settings tree input).value <;> rfl

variable {surroundings tree}

theorem run_of_ok (invocation : Invocation) {success : Success}
    (done : (execute surroundings tree invocation.command).value = .ok success) :
    let outcome := run surroundings tree invocation
    outcome.exitCode = 0 ∧ outcome.output = success.output ∧ outcome.tree = success.tree := by
  unfold run
  dsimp only
  rw [done]
  exact ⟨rfl, rfl, rfl⟩

theorem run_of_error (invocation : Invocation) {message : String}
    (failed : (execute surroundings tree invocation.command).value = .error message) :
    let outcome := run surroundings tree invocation
    outcome.exitCode = 1 ∧ outcome.output = "" ∧ outcome.tree = tree := by
  unfold run
  dsimp only
  rw [failed]
  exact ⟨rfl, rfl, rfl⟩

/-- A run that fails leaves the tree as it was and prints nothing. -/
theorem run_of_failure {invocation : Invocation}
    (failed : (run surroundings tree invocation).exitCode ≠ 0) :
    (run surroundings tree invocation).output = "" ∧
      (run surroundings tree invocation).tree = tree := by
  cases ended : (execute surroundings tree invocation.command).value with
  | ok success => exact absurd (run_of_ok invocation ended).1 failed
  | error message => exact (run_of_error invocation ended).2

section Ingest

variable (verbose : Bool) {input text : String} {asked : Option String}
  (made : rendering surroundings tree input asked = .ok text)

include made in
/-- Without a file to write a run prints its text. -/
theorem run_printing :
    let outcome := run surroundings tree ⟨verbose, .ingest input asked none⟩
    outcome.exitCode = 0 ∧ outcome.output = text ++ "\n" ∧ outcome.tree = tree := by
  have done : (execute surroundings tree (.ingest input asked none)).value =
      .ok ⟨text ++ "\n", tree⟩ := by
    rw [execute_ingest, made]
    rfl
  exact run_of_ok ⟨verbose, .ingest input asked none⟩ done

include made in
/-- With a file to write a run succeeds if the tree lets it write there. -/
theorem run_writing {file : String} {after : FileTree}
    (written : tree.write file text.toUTF8 = .ok after) :
    let outcome := run surroundings tree ⟨verbose, .ingest input asked (some file)⟩
    outcome.exitCode = 0 ∧ outcome.output = "" ∧ outcome.tree = after := by
  have done : (execute surroundings tree (.ingest input asked (some file))).value =
      .ok ⟨"", after⟩ := by
    rw [execute_ingest, made]
    show (deliver tree text (some file)).value = _
    unfold deliver
    dsimp only
    rw [written]
  exact run_of_ok ⟨verbose, .ingest input asked (some file)⟩ done

/-- A run that succeeds has made a text, and delivered it. -/
theorem exists_text_of_success {output : Option String}
    (succeeds : (run surroundings tree ⟨verbose, .ingest input asked output⟩).exitCode = 0) :
    ∃ text, rendering surroundings tree input asked = .ok text ∧
      ∃ success, (deliver tree text output).value = .ok success := by
  cases ended : (execute surroundings tree (.ingest input asked output)).value with
  | error message =>
    have failed := (run_of_error ⟨verbose, .ingest input asked output⟩ ended).1
    rw [failed] at succeeds
    cases succeeds
  | ok success =>
    rw [execute_ingest] at ended
    cases made : rendering surroundings tree input asked with
    | error message =>
      rw [made] at ended
      cases ended
    | ok text =>
      rw [made] at ended
      exact ⟨text, rfl, success, ended⟩

theorem written_of_deliver {file : String} {success : Success}
    (delivered : (deliver tree text (some file)).value = .ok success) :
    ∃ after, tree.write file text.toUTF8 = .ok after := by
  unfold deliver at delivered
  dsimp only at delivered
  cases written : tree.write file text.toUTF8 with
  | ok after => exact ⟨after, rfl⟩
  | error fault =>
    rw [written] at delivered
    cases delivered

end Ingest

/-- An ingest run does all or nothing. One that fails prints nothing and leaves the tree as it was.
One that succeeds with a file to write has the rendered dataset stand there, prints nothing and
leaves everything else as it was; and then the run without a file succeeds as well and prints that
text with a line end. Without a file to write a run never changes the tree, and where it succeeds
a file is written unless the tree does not let it be. -/
theorem ingest_is_all_or_nothing (surroundings : Surroundings) (tree : FileTree) (verbose : Bool)
    (input : String) (asked : Option String) :
    let outcome := fun output => run surroundings tree ⟨verbose, .ingest input asked output⟩
    (∀ output, (outcome output).exitCode ≠ 0 →
      (outcome output).output = "" ∧ (outcome output).tree = tree) ∧
    (∀ file, (outcome (some file)).exitCode = 0 →
      ∃ text location, Renders surroundings tree input asked text ∧
        (outcome (some file)).output = "" ∧
        (outcome (some file)).tree.resolve file = .ok (location, .file (.ok text.toUTF8)) ∧
        (∀ other, other ≠ location →
          (outcome (some file)).tree.node? other = tree.node? other) ∧
        (outcome none).exitCode = 0 ∧ (outcome none).output = text ++ "\n") ∧
    (outcome none).tree = tree ∧
    ((outcome none).exitCode = 0 →
      ∃ text, Renders surroundings tree input asked text ∧ (outcome none).output = text ++ "\n" ∧
        ∀ file, (outcome (some file)).exitCode = 0 ↔
          ∃ after, tree.write file text.toUTF8 = .ok after) := by
  intro outcome
  refine ⟨fun output => run_of_failure, ?written, ?kept, ?printed⟩
  case written =>
    intro file succeeds
    obtain ⟨text, made, success, delivered⟩ := exists_text_of_success verbose succeeds
    obtain ⟨after, written⟩ := written_of_deliver delivered
    obtain ⟨location, found, others⟩ := FileTree.resolve_of_write written
    obtain ⟨-, silent, left⟩ := run_writing verbose made written
    obtain ⟨ends, prints, -⟩ := run_printing verbose made
    refine ⟨text, location, renders_of_rendering surroundings tree made, silent, ?_, ?_, ends,
      prints⟩
    · rw [left, found]
    · intro other apart
      rw [left, others other apart]
  case kept =>
    by_cases ended : (outcome none).exitCode = 0
    · obtain ⟨text, made, -⟩ := exists_text_of_success verbose ended
      exact (run_printing verbose made).2.2
    · exact (run_of_failure ended).2
  case printed =>
    intro succeeds
    obtain ⟨text, made, -⟩ := exists_text_of_success verbose succeeds
    refine ⟨text, renders_of_rendering surroundings tree made,
      (run_printing verbose made).2.1, fun file => ⟨?_, ?_⟩⟩
    · intro written
      obtain ⟨text', made', success, delivered⟩ := exists_text_of_success verbose written
      rw [made] at made'
      rw [Except.ok.inj made']
      exact written_of_deliver delivered
    · rintro ⟨after, written⟩
      exact (run_writing verbose made written).1

open Counter (renamed textEntries) in
/-- A run over a directory with one document, once with a file to write and once without. -/
theorem ingest_is_all_or_nothing_renamed :
    let tree := FileTree.ofTexts [("benchmark_results_q1_p2.json", renamed)]
    let outcome := fun output => run ⟨none, none⟩ tree ⟨false, .ingest "r" none output⟩
    (outcome (some "d.json")).exitCode = 0 ∧
      ∃ text location, Renders ⟨none, none⟩ tree "r" none text ∧
        (outcome (some "d.json")).tree.resolve "d.json" = .ok (location, .file (.ok text.toUTF8)) ∧
        (outcome none).output = text ++ "\n" := by
  intro tree outcome
  have listed : tree.list "r" = .ok (textEntries [("benchmark_results_q1_p2.json", renamed)]) := by
    rfl
  have merged : Dataset.mergedRecords .standard
      (textEntries [("benchmark_results_q1_p2.json", renamed)]) = [⟨⟨5, 6⟩, 7, ∅⟩] := by
    rw [Dataset.mergedRecords, Dataset.discover_renamed]
    rfl
  have window : AggregationRule.isValidWindow Settings.standard.aggregation.window = true := by
    decide
  obtain ⟨dataset, ran⟩ := Dataset.exists_dataset_of_lastWriteWins window rfl
    (by rw [merged]; exact List.cons_ne_nil _ _) "r"
  rw [← Dataset.ofPath_eq_ofDirectory .standard listed] at ran
  have settings : settingsFor ⟨none, none⟩ tree none = .ok .standard := by rfl
  have made : rendering ⟨none, none⟩ tree "r" none = .ok dataset.toJson.indented := by
    unfold rendering
    rw [settings]
    dsimp only
    rw [ran]
  have written : ∃ after, tree.write "d.json" dataset.toJson.indented.toUTF8 = .ok after :=
    ⟨_, rfl⟩
  obtain ⟨after, written⟩ := written
  have succeeds : (outcome (some "d.json")).exitCode = 0 := (run_writing false made written).1
  obtain ⟨-, saved, -⟩ := ingest_is_all_or_nothing ⟨none, none⟩ tree false "r" none
  obtain ⟨text, location, rendered, -, found, -, -, prints⟩ := saved "d.json" succeeds
  exact ⟨succeeds, text, location, rendered, found, prints⟩

end QueueBench.Command
