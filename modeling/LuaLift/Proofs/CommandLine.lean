import LuaLift.CommandLine
import LuaLift.Proofs.Chunk.Faults
import LuaLift.Proofs.Forest.Dump
import LuaLift.Proofs.Forest.Supply
import LuaLift.Proofs.Listing.Sections
import LuaLift.Proofs.Source.Layout

/-! Runs of the command line over the bytes of a file. A run leaves behind the text of the chunk or
its fault, and the listing and the tree that could be made, whatever comes after them. -/
namespace LuaLift

/-- What a file holds after a run is what was last written to it. -/
def Output.file? (output : Output) (name : String) : Option (List UInt8) :=
  output.files.reverse.lookup name

private theorem Output.exists_file?_iff {output : Output} {name : String} :
    (∃ content, output.file? name = some content) ↔ name ∈ output.files.map Prod.fst := by
  rw [file?, ← Option.isSome_iff_exists, List.lookup_isSome_iff, List.mem_map]
  simp only [List.mem_reverse, beq_iff_eq, eq_comm (a := name)]

private theorem Output.file?_eq_none {output : Output} {name : String}
    (absent : name ∉ output.files.map Prod.fst) : output.file? name = none := by
  rw [← exists_file?_iff, ← Option.ne_none_iff_exists'] at absent
  exact not_not.mp absent

namespace Session

variable {session : Session α} {next : α → Session β} {files others : List (String × List UInt8)}
  {printed more : List UInt8} {output after : Output}

private theorem run_bind_of_ok {value : α} (ran : session.run output = (.ok value, after)) :
    (session >>= next).run output = (next value).run after := by
  have steps : (session >>= next).run output =
    (match session.run output with | (first, after) => ExceptT.bindCont next first after) := rfl
  rw [steps, ran]
  rfl

private theorem run_bind_of_error {stop : Stop} (ran : session.run output = (.error stop, after)) :
    (session >>= next).run output = (.error stop, after) := by
  have steps : (session >>= next).run output =
    (match session.run output with | (first, after) => ExceptT.bindCont next first after) := rfl
  rw [steps, ran]
  rfl

/-- From any output a piece of work comes to the same end, writes the same files and prints the same
bytes, and what it has to say comes after what was said before. -/
def Adds (session : Session α) (result : Except Stop α) (files : List (String × List UInt8))
    (printed : List UInt8) : Prop :=
  ∀ output : Output, ∃ said, session.run output =
    (result, ⟨output.stdout ++ printed, output.messages ++ said, output.files ++ files⟩)

private theorem adds_pure (value : α) : (pure value : Session α).Adds (.ok value) [] [] := by
  intro output
  refine ⟨[], ?_⟩
  simp only [List.append_nil]
  rfl

private theorem adds_throw (stop : Stop) : (throw stop : Session α).Adds (.error stop) [] [] := by
  intro output
  refine ⟨[], ?_⟩
  simp only [List.append_nil]
  rfl

theorem Adds.bind {value : α} {result : Except Stop β}
    (start : session.Adds (.ok value) files printed)
    (follow : (next value).Adds result others more) :
    (session >>= next).Adds result (files ++ others) (printed ++ more) := by
  intro output
  obtain ⟨said, ran⟩ := start output
  obtain ⟨later, follows⟩ := follow
    ⟨output.stdout ++ printed, output.messages ++ said, output.files ++ files⟩
  refine ⟨said ++ later, ?_⟩
  rw [run_bind_of_ok ran, follows]
  simp only [List.append_assoc]

private theorem Adds.stop {stop : Stop} (start : session.Adds (.error stop) files printed) :
    (session >>= next).Adds (.error stop) files printed := by
  intro output
  obtain ⟨said, ran⟩ := start output
  exact ⟨said, run_bind_of_error ran⟩

/-- Work that has to stop leaves only what was there before. -/
theorem Adds.bind_stop {value : α} {stop : Stop} (start : session.Adds (.ok value) files printed)
    (follow : (next value).Adds (.error stop) [] []) :
    (session >>= next).Adds (.error stop) files printed := by
  have whole := start.bind follow
  rwa [List.append_nil, List.append_nil] at whole

private theorem adds_modify (said : List Text) (files : List (String × List UInt8))
    (printed : List UInt8) :
    Adds (modify fun output => ⟨output.stdout ++ printed, output.messages ++ said,
      output.files ++ files⟩) (.ok ()) files printed := fun _ => ⟨said, rfl⟩

private theorem adds_say (text : Text) : (say text).Adds (.ok ()) [] [] := by
  simpa only [say, List.append_nil] using adds_modify [text] [] []

private theorem adds_forM_say (texts : List Text) : (texts.forM say).Adds (.ok ()) [] [] := by
  induction texts with
  | nil => exact adds_pure ()
  | cons text rest ih => exact (adds_say text).bind ih

private theorem adds_writeFile (name : String) (bytes : List UInt8) :
    (writeFile name bytes).Adds (.ok ()) [(name, bytes)] [] := by
  simpa only [writeFile, List.append_nil] using adds_modify [] [(name, bytes)] []

private theorem adds_ofExcept_of_ok {outcome : Except Fault α} {value : α}
    (done : outcome = .ok value) :
    (ofExcept outcome).Adds (.ok value) [] [] := by
  rw [done]
  exact adds_pure value

private theorem adds_print (bytes : List UInt8) :
    Adds (modify fun output => { output with stdout := output.stdout ++ bytes }) (.ok ()) []
      bytes := by
  simpa only [List.append_nil] using adds_modify [] [] bytes

/-- A journal is only something to say. -/
theorem adds_ofTraced_of_ok {traced : Traced α} {value : α} (least : Level)
    (done : traced.outcome = .ok value) : (ofTraced least traced).Adds (.ok value) [] [] :=
  (adds_forM_say _).bind (adds_ofExcept_of_ok done)

private theorem adds_ofTraced_of_error {traced : Traced α} {fault : Fault} (least : Level)
    (failed : traced.outcome = .error fault) :
    (ofTraced least traced).Adds (.error (.fault fault)) [] [] := by
  refine (adds_forM_say _).bind ?_
  rw [failed]
  exact adds_throw (.fault fault)

end Session

namespace Command

open Session (Adds)

variable {command : Command} {chunk : Chunk} {fault : Fault} {bytes : List UInt8}

/-- A file that is written and then reported. -/
theorem adds_written (what : Text) (name : String) (content : List UInt8) :
    (do Session.writeFile name content; sayWritten what name).Adds (.ok ()) [(name, content)] [] :=
  (Session.adds_writeFile name content).bind (Session.adds_say _)

private theorem adds_listing (command : Command) (chunk : Chunk)
    (listable : Listing.Listable chunk.main)
    (plain : command.listing ≠ none → ∀ part ∈ chunk.main.all, part.Plain) :
    ∃ files, (command.listing.forM (writeListing chunk)).Adds (.ok ()) files [] ∧
      files.map Prod.fst = command.listing.toList := by
  cases given : command.listing with
  | none => exact ⟨[], Session.adds_pure (), rfl⟩
  | some name =>
    rw [given] at plain
    have asked := plain (Option.some_ne_none name)
    obtain ⟨listing, found, plain⟩ := Chunk.plain_listing none listable asked
    refine ⟨[(name, listing.encode)], ?_, rfl⟩
    have clean : ¬ listing.any Symbol.isStray = true := by
      simpa [Text.Plain] using plain
    have whole : (writeListing chunk name).Adds (.ok ()) [(name, listing.encode)] [] := by
      rw [writeListing]
      refine (Session.adds_ofExcept_of_ok found).bind ?_
      dsimp only
      rw [if_neg clean]
      exact adds_written "listing" name listing.encode
    exact whole

/-- The forest of the main function. -/
def forest (command : Command) (chunk : Chunk) : Traced (List Node) :=
  Forest.build ⟨some chunk.main.functions.length, command.verbose⟩ 0 chunk.main.code

private theorem adds_tree {forest : List Node} (built : (command.forest chunk).outcome = .ok forest)
    (sound : ∀ instruction ∈ chunk.main.code, instruction.Sound) :
    ∃ files, (command.tree.forM (command.writeTree chunk)).Adds (.ok ()) files [] ∧
      files.map Prod.fst = command.tree.toList := by
  cases given : command.tree with
  | none => exact ⟨[], Session.adds_pure (), rfl⟩
  | some name =>
    have written : ∀ inner ∈ Node.preorderAll forest, ∃ shown, inner.instruction.text = .ok shown := by
      intro inner inside
      have each := sound _ (Forest.mem_code_of_build built inside)
      exact (each.confined fun _ => False).text.exists_ok
    obtain ⟨dump, dumped⟩ := Node.exists_dumpForest "  " written
    have start := Session.adds_ofTraced_of_ok command.least built
    have shown := Session.adds_ofExcept_of_ok dumped
    have whole : (command.writeTree chunk name).Adds (.ok ())
        [(name, Text.encode dump ++ Text.encode "\n")] [] :=
      start.bind (shown.bind (adds_written "tree" name _))
    exact ⟨_, whole, rfl⟩

private theorem adds_tree_of_error (given : command.tree ≠ none)
    (failed : (command.forest chunk).outcome = .error fault) :
    (command.tree.forM (command.writeTree chunk)).Adds (.error (.fault fault)) [] [] := by
  obtain ⟨name, known⟩ := Option.ne_none_iff_exists'.mp given
  rw [known]
  exact (Session.adds_ofTraced_of_error command.least failed).stop

/-- A run is loading, listing, dumping and writing one after another. -/
theorem work_eq (command : Command) (bytes : List UInt8) : command.work bytes = (do
    let chunk ← Session.ofTraced command.least (Chunk.ofBytes bytes)
    command.listing.forM (writeListing chunk)
    command.tree.forM (command.writeTree chunk)
    let text ← Session.ofTraced command.least
      (chunk.main.bodyText command.options command.verbose [])
    let code := Text.encode text ++ Text.encode "\n"
    match command.out with
    | some name => do
      Session.writeFile name code
      sayWritten "code" name
    | none => modify fun output => { output with stdout := output.stdout ++ code }) := by
  rw [work]
  congr 1
  funext chunk
  cases command.listing <;> cases command.tree <;> rfl

/-- The bytes of a text and of the line feed behind it. -/
def code (text : Text) : List UInt8 := Text.encode text ++ Text.encode "\n"

/-- The text goes to the file that is asked for, and only without one is it printed. -/
theorem adds_code (command : Command) (text : Text) :
    Adds (match command.out with
      | some name => do
        Session.writeFile name (code text)
        sayWritten "code" name
      | none => modify fun output => { output with stdout := output.stdout ++ code text })
      (.ok ()) (command.out.toList.map fun name => (name, code text))
      (if command.out.isNone then code text else []) := by
  cases command.out with
  | some name => exact adds_written "code" name (code text)
  | none => exact Session.adds_print (code text)

/-- The ways in which a run ends, with the text or the fault that it comes to, the files that it
writes and the bytes that it prints. -/
inductive Ends (command : Command) (bytes : List UInt8) :
    Except Fault Text → List (String × List UInt8) → List UInt8 → Prop where
  | unread {fault : Fault} (refused : (Chunk.ofBytes bytes).outcome = .error fault) :
    Ends command bytes (.error fault) [] []
  | unbuilt {chunk : Chunk} {fault : Fault} {listed : List (String × List UInt8)}
      (loaded : (Chunk.ofBytes bytes).outcome = .ok chunk)
      (named : listed.map Prod.fst = command.listing.toList)
      (refused : (command.forest chunk).outcome = .error fault) :
    Ends command bytes (.error fault) listed []
  | unwritten {chunk : Chunk} {fault : Fault} {forest : List Node}
      {listed dumped : List (String × List UInt8)}
      (loaded : (Chunk.ofBytes bytes).outcome = .ok chunk)
      (named : listed.map Prod.fst = command.listing.toList)
      (built : (command.forest chunk).outcome = .ok forest)
      (also : dumped.map Prod.fst = command.tree.toList) :
    Ends command bytes (.error fault) (listed ++ dumped) []
  | written {chunk : Chunk} {forest : List Node} {listed dumped : List (String × List UInt8)}
      (loaded : (Chunk.ofBytes bytes).outcome = .ok chunk)
      (named : listed.map Prod.fst = command.listing.toList)
      (built : (command.forest chunk).outcome = .ok forest)
      (also : dumped.map Prod.fst = command.tree.toList) (text : Text) :
    Ends command bytes (.ok text)
      (listed ++ (dumped ++ command.out.toList.map fun name => (name, code text)))
      (if command.out.isNone then code text else [])

private theorem work_ends (command : Command) (bytes : List UInt8)
    (plain : command.listing ≠ none → ∀ chunk, (Chunk.ofBytes bytes).outcome = .ok chunk →
      ∀ part ∈ chunk.main.all, part.Plain) :
    ∃ files printed,
      command.Ends bytes (liftBytes command.options command.verbose bytes).outcome files printed ∧
      (command.work bytes).Adds (((liftBytes command.options command.verbose bytes).outcome.map
        fun _ => ()).mapError .fault) files printed := by
  rw [work_eq, liftBytes]
  cases loaded : (Chunk.ofBytes bytes).outcome with
  | error fault =>
    rw [Traced.outcome_bind_of_error _ loaded]
    exact ⟨[], [], .unread loaded, (Session.adds_ofTraced_of_error _ loaded).stop⟩
  | ok chunk =>
    rw [Traced.outcome_bind_of_ok _ loaded]
    have sound := Chunk.sound_of_chunk loaded
    have own := (Prototype.forall_mem_all_iff.mp sound).1
    have start := Session.adds_ofTraced_of_ok command.least loaded
    obtain ⟨listed, lists, named⟩ := adds_listing command chunk
      (Chunk.listable_of_ofBytes loaded) fun given => plain given chunk loaded
    cases built : (command.forest chunk).outcome with
    | error fault =>
      have failed : (chunk.main.bodyText command.options command.verbose []).outcome =
          .error fault := by
        rw [Prototype.bodyText_eq]
        exact Traced.outcome_bind_of_error _ built
      rw [failed]
      refine ⟨listed, [], .unbuilt loaded named built, start.bind (lists.bind_stop ?_)⟩
      cases given : command.tree with
      | none =>
        have behind := Session.adds_ofTraced_of_error command.least failed
        exact (Session.adds_pure ()).bind behind.stop
      | some name =>
        have asked : command.tree ≠ none := given ▸ Option.some_ne_none name
        have stopped := adds_tree_of_error asked built
        rw [given] at stopped
        exact stopped.stop
    | ok forest =>
      obtain ⟨dumped, dumps, also⟩ := adds_tree built own
      cases lifted : (chunk.main.bodyText command.options command.verbose []).outcome with
      | error fault =>
        have failed := Session.adds_ofTraced_of_error command.least lifted
        refine ⟨listed ++ dumped, [], .unwritten loaded named built also, ?_⟩
        exact start.bind (lists.bind (dumps.bind_stop failed.stop))
      | ok text =>
        have done := Session.adds_ofTraced_of_ok command.least lifted
        refine ⟨_, _, .written loaded named built also text, ?_⟩
        exact start.bind (lists.bind (dumps.bind (done.bind (adds_code command text))))

private theorem run_of_done {files : List (String × List UInt8)} {printed : List UInt8}
    (done : (command.work bytes).Adds (.ok ()) files printed) :
    ∃ said, command.run (some bytes) = ⟨⟨printed, said, files⟩, none⟩ := by
  obtain ⟨said, ran⟩ := done {}
  refine ⟨[] ++ said, ?_⟩
  rw [run, ran]
  rfl

private theorem run_of_fault {files : List (String × List UInt8)} {printed : List UInt8}
    (stopped : (command.work bytes).Adds (.error (.fault fault)) files printed) :
    ∃ said, command.run (some bytes) =
      ⟨⟨printed, said ++ ["error: " ++ fault.message], files⟩, some (.fault fault)⟩ := by
  obtain ⟨said, ran⟩ := stopped {}
  refine ⟨[] ++ said, ?_⟩
  rw [run, ran]
  rfl

/-- Whether the forest of a loaded chunk can be built does not depend on what is noted. -/
theorem exists_forest_iff (loaded : (Chunk.ofBytes bytes).outcome = .ok chunk) (detailed : Bool) :
    (∃ forest, (command.forest chunk).outcome = .ok forest) ↔
      ∃ forest, (Forest.build ⟨some chunk.main.functions.length, detailed⟩ 0
        chunk.main.code).outcome = .ok forest := by
  have known : chunk.main.Known :=
    (Prototype.forall_mem_all_iff.mp (Chunk.instruction_of_ofBytes loaded)).1
  have same := known.same (List.forall₂_same.mpr fun _ _ => ⟨rfl, rfl⟩)
  have watched : (Watch.mk (some chunk.main.functions.length) command.verbose).prototypes =
      (Watch.mk (some chunk.main.functions.length) detailed).prototypes := rfl
  rcases (Forest.build_agree watched same 0).outcomes with ⟨first, other, here, there, _⟩ |
    ⟨fault, here, there⟩
  · exact ⟨fun _ => ⟨other, there⟩, fun _ => ⟨first, here⟩⟩
  · rw [forest, here, there]

namespace Ends

variable {lifted : Except Fault Text} {text : Text} {files : List (String × List UInt8)}
  {printed : List UInt8}

/-- The files of a run are those that were asked for and could be made. -/
theorem mem_files_iff (ends : command.Ends bytes lifted files printed) (name : String) :
    name ∈ files.map Prod.fst ↔
      (command.listing = some name ∧ ∃ chunk, (Chunk.ofBytes bytes).outcome = .ok chunk) ∨
      (command.tree = some name ∧ ∃ chunk, (Chunk.ofBytes bytes).outcome = .ok chunk ∧
        ∃ forest, (command.forest chunk).outcome = .ok forest) ∨
      (command.out = some name ∧ ∃ text, lifted = .ok text) := by
  cases ends with
  | unread refused => simp [refused]
  | unbuilt loaded named refused => simp [loaded, named, refused]
  | unwritten loaded named built also => simp [loaded, named, built, also]
  | written loaded named built also text =>
    simp [loaded, named, built, also]

private theorem printed_of_error (ends : command.Ends bytes (.error fault) files printed) :
    printed = [] := by
  cases ends <;> rfl

private theorem content (ends : command.Ends bytes (.ok text) files printed) :
    match command.out with
    | some name => files.reverse.lookup name = some (code text) ∧ printed = []
    | none => printed = code text := by
  cases ends with
  | written =>
    cases command.out with
    | none => rfl
    | some name =>
      refine ⟨?_, rfl⟩
      simp

end Ends

/-- A run over the bytes of a file leaves behind the text of the chunk, in the file asked for or
else printed, or it stops with the chunk's fault. A listing is written just where the chunk can be
loaded, and a tree where its forest can be built too. -/
theorem run_liftBytes (command : Command) (detailed : Bool) (bytes : List UInt8)
    (plain : command.listing ≠ none → ∀ chunk, (Chunk.ofBytes bytes).outcome = .ok chunk →
      ∀ part ∈ chunk.main.all, part.source.Plain ∧ ∀ entry ∈ part.locals, entry.name.Plain) :
    let options : Options :=
      { indent := List.replicate command.indent.toNat Text.space, strict := !command.lenient }
    let lifted := (liftBytes options detailed bytes).outcome
    let outcome := command.run (some bytes)
    (outcome.status = 0 ↔ ∃ text, lifted = .ok text) ∧
      (∀ text, lifted = .ok text →
        let code := Text.encode text ++ Text.encode "\n"
        match command.out with
        | some name => outcome.output.file? name = some code ∧ outcome.output.stdout = []
        | none => outcome.output.stdout = code) ∧
      (∀ fault, lifted = .error fault → outcome.status = 1 ∧ outcome.output.stdout = [] ∧
        "error: " ++ fault.message ∈ outcome.output.messages ∧
        ∀ name, command.out = some name → command.listing ≠ some name →
          command.tree ≠ some name → outcome.output.file? name = none) ∧
      ∀ name, (∃ content, outcome.output.file? name = some content) ↔
        (command.listing = some name ∧ ∃ chunk, (Chunk.ofBytes bytes).outcome = .ok chunk) ∨
        (command.tree = some name ∧ ∃ chunk, (Chunk.ofBytes bytes).outcome = .ok chunk ∧
          ∃ forest, (Forest.build ⟨some chunk.main.functions.length, detailed⟩ 0
            chunk.main.code).outcome = .ok forest) ∨
        (command.out = some name ∧ ∃ text, lifted = .ok text) := by
  intro options lifted outcome
  have fine : command.listing ≠ none → ∀ chunk, (Chunk.ofBytes bytes).outcome = .ok chunk →
      ∀ part ∈ chunk.main.all, part.Plain := by
    intro given chunk loaded part member
    obtain ⟨source, locals⟩ := plain given chunk loaded part member
    exact ⟨source, locals⟩
  obtain ⟨files, printed, ends, adds⟩ := work_ends command bytes fine
  have same : (liftBytes command.options command.verbose bytes).outcome = lifted :=
    liftBytes_detailed command.options command.verbose detailed bytes
  rw [same] at ends adds
  clear_value lifted
  have trees (name : String) : (command.tree = some name ∧ ∃ chunk,
      (Chunk.ofBytes bytes).outcome = .ok chunk ∧
        ∃ forest, (command.forest chunk).outcome = .ok forest) ↔
      command.tree = some name ∧ ∃ chunk, (Chunk.ofBytes bytes).outcome = .ok chunk ∧
        ∃ forest, (Forest.build ⟨some chunk.main.functions.length, detailed⟩ 0
          chunk.main.code).outcome = .ok forest := by
    refine and_congr_right fun _ => exists_congr fun chunk => and_congr_right fun loaded => ?_
    exact exists_forest_iff loaded detailed
  have written := ends.mem_files_iff
  simp only [trees] at written
  simp only [Output.exists_file?_iff]
  cases lifted with
  | ok text =>
    obtain ⟨said, ran⟩ := run_of_done adds
    have ended : outcome = ⟨⟨printed, said, files⟩, none⟩ := ran
    rw [ended]
    refine ⟨⟨fun _ => ⟨text, rfl⟩, fun _ => rfl⟩, ?_, nofun, written⟩
    intro other same
    obtain rfl := Except.ok.inj same
    exact ends.content
  | error fault =>
    obtain ⟨said, ran⟩ := run_of_fault adds
    have ended : outcome = ⟨⟨printed, said ++ ["error: " ++ fault.message], files⟩,
      some (.fault fault)⟩ := ran
    rw [ended]
    have nonzero : (1 : UInt32) ≠ 0 := by decide
    refine ⟨⟨fun zero => absurd zero nonzero, nofun⟩, nofun, ?_, written⟩
    intro other same
    obtain rfl := Except.error.inj same
    refine ⟨rfl, ends.printed_of_error, List.mem_append_right _ List.mem_cons_self, ?_⟩
    intro name _ unlisted undumped
    refine Output.file?_eq_none fun present => ?_
    rcases (written name).mp present with here | here | here
    · exact unlisted here.1
    · exact undumped here.1
    · obtain ⟨_, text, ⟨⟩⟩ := here

theorem run_liftBytes_of_runner :
    let command : Command :=
      { input := "run.out", out := some "out.lua", listing := some "out.lst",
        tree := some "out.tree" }
    let bytes := Chunk.compact.toBytes ++
      (runner {} [] 2147483544 65).toBytes Chunk.compactEncoding
    let outcome := command.run (some bytes)
    outcome.status = 0 ∧ outcome.output.stdout = [] ∧
      outcome.output.file? "out.lua" =
        some (Text.encode "run = function(x)\n  return (x + 0.5) - 1\nend" ++ Text.encode "\n") ∧
      (∃ content, outcome.output.file? "out.lst" = some content) ∧
      ∃ content, outcome.output.file? "out.tree" = some content := by
  intro command bytes outcome
  have fits : ∀ part ∈ (runner {} [] 2147483544 65).all,
      part.Fits Chunk.compactEncoding Chunk.compact.widths := by decide
  have read := Chunk.ofBytes_of_stands (Chunk.stands_image Chunk.compact_readable fits)
  rw [Chunk.standing, Prototype.bytes_image] at read
  have plain : ∀ chunk, (Chunk.ofBytes bytes).outcome = .ok chunk →
      ∀ part ∈ chunk.main.all, part.source.Plain ∧ ∀ entry ∈ part.locals, entry.name.Plain := by
    intro chunk loaded
    obtain rfl := Except.ok.inj (read.symm.trans loaded)
    decide
  have body : (((runner {} [] 2147483544 65).reread Chunk.compactEncoding).bodyText
      command.options false []).outcome = .ok "run = function(x)\n  return (x + 0.5) - 1\nend" := by
    cbv
  have lifted : (liftBytes command.options false bytes).outcome = _ :=
    (Traced.outcome_bind_of_ok _ read).trans body
  obtain ⟨forest, built, _⟩ := Prototype.bodyText_eq_ok.mp body
  obtain ⟨status, written, _, files⟩ := run_liftBytes command false bytes fun _ => plain
  obtain ⟨code, silent⟩ := written _ lifted
  refine ⟨status.mpr ⟨_, lifted⟩, silent, code, ?_, ?_⟩
  · exact (files "out.lst").mpr (.inl ⟨rfl, _, read⟩)
  · exact (files "out.tree").mpr (.inr (.inl ⟨rfl, _, read, forest, built⟩))

end Command

end LuaLift
