import BlockingCalls.Source
import Mathlib.Logic.Basic

/-!
# Two readers

A module is read by a blocking reader or by a concurrent one. Which of them is used must not matter to an analysis: both
have to make the same requests in the same order, and return the same source or else a fault of the same sort.

Both are the same up to the point where `deno` is run on a specifier. The blocking reader treats an exit code other than
zero as a failure to run the command and reports the command; the concurrent one inspects the code when the command has
ended and reports its error output. In every other case, whatever the output of the command is, the two have the same
result. So the two readers are interchangeable, and the texts of their faults differ if and only if `deno` was run and
failed.

## Results

* `resolve_eq_of_not_commandFails` — unless the command fails, specifiers are resolved alike.
* `read_eq_of_not_failsOn`         — unless the command fails, modules are read alike.
* `readers_agree`                  — the two readers agree, except for one text.
-/

namespace BlockingCalls

-- ---------------------------------------------------------------------------
-- Sorts of faults
-- ---------------------------------------------------------------------------

/-- The class of a fault, without its text. -/
inductive FaultSort where
  | syntaxError
  | sourceRead
  | resolution
  | noSuchMember
  | unusableTarget
  | badValue
  | tooDeep
  | crash
  | invalidUrl
  | unknownKey
  deriving Repr, DecidableEq

/-- The class of each fault. -/
def Fault.sort : Fault → FaultSort
  | .syntaxError .. => .syntaxError
  | .unreadable .. => .sourceRead
  | .fetchFailed .. => .sourceRead
  | .unresolved .. => .resolution
  | .notAnObject .. => .noSuchMember
  | .unusableTarget .. => .unusableTarget
  | .tooManyDigits .. => .badValue
  | .badUrl .. => .badValue
  | .crash .. => .crash
  | .invalidUrl .. => .invalidUrl
  | .negativeCapacity => .badValue
  | .unknownModule .. => .unknownKey
  | .tooDeep => .tooDeep

namespace Reader

-- ---------------------------------------------------------------------------
-- Successful reads
-- ---------------------------------------------------------------------------

/-- A fetch that succeeds has received a page, which is the source. -/
theorem page_of_fetch {w : World} {moduleId : ModuleId} {target : Json.Value} {source : Source}
    (h : (fetch w moduleId target).outcome = .ok source) :
    ∃ text location, w.page target = .page text location ∧
      source = { moduleId, text, location := location.getD target.text } := by
  obtain ⟨_, _, hrest⟩ := Traced.outcome_bind_eq_ok_iff.mp h
  obtain ⟨entry, hentry, hsource⟩ := Traced.outcome_bind_eq_ok_iff.mp hrest
  obtain rfl := Except.ok.inj hentry
  cases hpage : w.page target with
  | page text location =>
    rw [hpage] at hsource
    exact ⟨text, location, rfl, (Except.ok.inj hsource).symm⟩
  | unreachable message => rw [hpage] at hsource; cases hsource
  | badStatus message => rw [hpage] at hsource; cases hsource
  | invalid message => rw [hpage] at hsource; cases hsource
  | unusable message => rw [hpage] at hsource; cases hsource

/-- A file that can be read is not refused, and is its own location. -/
theorem file_of_readFile {w : World} {moduleId : ModuleId} {source : Source}
    (h : (readFile w moduleId).outcome = .ok source) :
    (∀ errno, w.file moduleId ≠ .refused errno) ∧ source.moduleId = moduleId ∧ source.location = moduleId := by
  obtain ⟨text, htext, hsource⟩ := Traced.outcome_bind_eq_ok_iff.mp h
  obtain rfl := Except.ok.inj hsource
  refine ⟨fun errno hrefused => ?_, rfl, rfl⟩
  obtain ⟨entry, hentry, hread⟩ := Traced.outcome_bind_eq_ok_iff.mp htext
  obtain rfl := Except.ok.inj hentry
  rw [hrefused] at hread
  cases hread

-- ---------------------------------------------------------------------------
-- Resolving specifiers
-- ---------------------------------------------------------------------------

/-- Run on a specifier, `deno` ends with a code other than zero. -/
def CommandFails (w : World) (specifier : String) : Prop :=
  ∃ output errors code, w.answer specifier = .finished output errors code ∧ code ≠ 0

/-- A command that cannot be started or exits with zero is treated alike by both readers. -/
theorem resolve_eq_of_not_commandFails (r : Reader) {w : World} {specifier : String} (h : ¬ CommandFails w specifier) :
    r.resolveWaiting w specifier = r.resolveConcurrently w specifier := by
  unfold resolveWaiting runWaiting resolveConcurrently runConcurrently World.askDeno
  cases hanswer : w.answer specifier with
  | refused errno => rfl
  | finished output errors code =>
    by_cases hcode : code = 0
    · subst hcode
      rfl
    · exact absurd ⟨output, errors, code, hanswer, hcode⟩ h

/-- The blocking reader reports the command that has failed. -/
theorem resolveWaiting_of_commandFails (r : Reader) {w : World} {specifier output errors : String} {code : Int}
    (h : w.answer specifier = .finished output errors code) (hcode : code ≠ 0) :
    r.resolveWaiting w specifier =
      { outcome := .error (.unresolved specifier (.commandFailed r.denoCommand code))
        requests := [.deno r.denoCommand (entryText specifier)] } := by
  unfold resolveWaiting runWaiting World.askDeno
  simp [bind, Traced.andThen, h, hcode, Traced.fail, Traced.ofExcept]

/-- The concurrent reader reports the error output of the command. -/
theorem resolveConcurrently_of_commandFails (r : Reader) {w : World} {specifier output errors : String} {code : Int}
    (h : w.answer specifier = .finished output errors code) (hcode : code ≠ 0) :
    r.resolveConcurrently w specifier =
      { outcome := .error (.unresolved specifier
          (.commandExited code (String.ofList (Text.trimBoth Text.isBlank errors.toList))))
        requests := [.deno r.denoCommand (entryText specifier)] } := by
  unfold resolveConcurrently runConcurrently World.askDeno
  simp [bind, pure, Traced.andThen, h, hcode, Traced.fail, Traced.ofExcept]

/-- The two reports of a failed command have different texts. -/
theorem message_commandFailed_ne (command : List String) (code code' : Int) (errors : String) :
    (ResolutionFault.commandFailed command code).message ≠ (ResolutionFault.commandExited code' errors).message := by
  show "deno info failed: " ++ Command.failureText command code ≠ "deno info exited with " ++ toString code' ++ ": " ++ errors
  rw [String.append_assoc, String.append_assoc]
  intro h
  -- the texts differ at their eleventh character
  have hchar : ("deno info failed: ".toList ++ (Command.failureText command code).toList)[10]? =
      ("deno info exited with ".toList ++ (toString code' ++ (": " ++ errors)).toList)[10]? := by
    rw [← String.toList_append, ← String.toList_append, h]
  rw [List.getElem?_append_left (by decide), List.getElem?_append_left (by decide)] at hchar
  exact absurd hchar (by decide)

-- ---------------------------------------------------------------------------
-- Reading modules
-- ---------------------------------------------------------------------------

/-- Reading a module runs `deno`, which fails. -/
def FailsOn (r : Reader) (w : World) (moduleId : ModuleId) : Prop :=
  Config.beginsWithAny r.remoteSchemes moduleId = true ∧ Config.beginsWithAny ["jsr:"] moduleId = true ∧
    CommandFails w moduleId

/-- Unless the command fails, modules are read alike. -/
theorem read_eq_of_not_failsOn {r : Reader} {w : World} {moduleId : ModuleId} (h : ¬ r.FailsOn w moduleId) :
    r.readWaiting w moduleId = r.readConcurrently w moduleId := by
  unfold readWaiting readConcurrently
  split
  · next hremote =>
    split
    · next hspecifier => rw [r.resolve_eq_of_not_commandFails fun hfails => h ⟨hremote, hspecifier, hfails⟩]
    · rfl
  · rfl

/-- If the command fails nothing is fetched, and each reader returns its own report. -/
theorem read_of_failsOn {r : Reader} {w : World} {moduleId : ModuleId} (h : r.FailsOn w moduleId) :
    ∃ code errors,
      r.readWaiting w moduleId =
        { outcome := .error (.unresolved moduleId (.commandFailed r.denoCommand code))
          requests := [.deno r.denoCommand (entryText moduleId)] } ∧
      r.readConcurrently w moduleId =
        { outcome := .error (.unresolved moduleId (.commandExited code errors))
          requests := [.deno r.denoCommand (entryText moduleId)] } := by
  obtain ⟨hremote, hspecifier, output, errors, code, hanswer, hcode⟩ := h
  refine ⟨code, String.ofList (Text.trimBoth Text.isBlank errors.toList), ?_, ?_⟩
  · rw [readWaiting, if_pos hremote, if_pos hspecifier, r.resolveWaiting_of_commandFails hanswer hcode]
    rfl
  · rw [readConcurrently, if_pos hremote, if_pos hspecifier, r.resolveConcurrently_of_commandFails hanswer hcode]
    rfl

/-- Both readers succeed on the same modules and with the same source. -/
theorem toOption_outcome_readConcurrently (r : Reader) (w : World) (moduleId : ModuleId) :
    (r.readConcurrently w moduleId).outcome.toOption = (r.readWaiting w moduleId).outcome.toOption := by
  by_cases hfails : r.FailsOn w moduleId
  · obtain ⟨code, errors, hwaiting, hconcurrent⟩ := read_of_failsOn hfails
    rw [hwaiting, hconcurrent]
    rfl
  · rw [read_eq_of_not_failsOn hfails]

/-- **The two readers agree.** In every world and for every id, they make the same requests in the same order and log
the same. If one returns a source, the other returns the same source. Otherwise both return faults of one sort, and the
texts of the faults are the same if and only if reading did not run a command that failed. -/
theorem readers_agree (r : Reader) (w : World) (moduleId : ModuleId) :
    (r.readWaiting w moduleId).requests = (r.readConcurrently w moduleId).requests ∧
    (r.readWaiting w moduleId).log = (r.readConcurrently w moduleId).log ∧
    (∀ source, (r.readWaiting w moduleId).outcome = .ok source ↔ (r.readConcurrently w moduleId).outcome = .ok source) ∧
    (∀ fault, (r.readWaiting w moduleId).outcome = .error fault →
      ∃ fault', (r.readConcurrently w moduleId).outcome = .error fault' ∧ fault'.sort = fault.sort ∧
        (fault'.message = fault.message ↔ ¬ r.FailsOn w moduleId)) := by
  by_cases hfails : r.FailsOn w moduleId
  · -- the command fails: both reports are of one sort, with different texts
    obtain ⟨code, errors, hwaiting, hconcurrent⟩ := read_of_failsOn hfails
    rw [hwaiting, hconcurrent]
    refine ⟨rfl, rfl, fun source => iff_of_false (by simp) (by simp), fun fault hfault => ?_⟩
    obtain rfl := Except.error.inj hfault
    refine ⟨_, rfl, rfl, iff_of_false (fun hsame => ?_) (not_not_intro hfails)⟩
    exact message_commandFailed_ne _ _ _ _ (String.append_right_inj _ |>.mp hsame.symm)
  · -- in every other case the readers are equal
    rw [read_eq_of_not_failsOn hfails]
    exact ⟨rfl, rfl, fun _ => Iff.rfl, fun fault hfault => ⟨fault, hfault, rfl, iff_of_true rfl hfails⟩⟩

/-- A world in which `deno` fails on `jsr:a`. -/
def failingWorld : World where
  deno := ⟨[("jsr:a", .finished "" " no such package\n" 1)]⟩

/-- The readers on a specifier on which `deno` fails. -/
theorem readers_agree_on_failing_command :
    FailsOn {} failingWorld "jsr:a" ∧
      (readWaiting {} failingWorld "jsr:a").outcome =
        .error (.unresolved "jsr:a" (.commandFailed ["deno", "info", "/tmp/jsr/resolve.ts", "--json"] 1)) ∧
      ∃ fault, (readConcurrently {} failingWorld "jsr:a").outcome = .error fault ∧ fault.sort = .resolution ∧
        fault.message ≠
          (Fault.unresolved "jsr:a" (.commandFailed ["deno", "info", "/tmp/jsr/resolve.ts", "--json"] 1)).message := by
  have hfails : FailsOn {} failingWorld "jsr:a" := ⟨by decide, by decide, _, _, 1, rfl, by decide⟩
  have hwaiting : (readWaiting {} failingWorld "jsr:a").outcome =
      .error (.unresolved "jsr:a" (.commandFailed ["deno", "info", "/tmp/jsr/resolve.ts", "--json"] 1)) := rfl
  obtain ⟨fault, hfault, hsort, htext⟩ := (readers_agree {} failingWorld "jsr:a").2.2.2 _ hwaiting
  exact ⟨hfails, hwaiting, fault, hfault, hsort, fun hsame => htext.mp hsame hfails⟩

end Reader

end BlockingCalls
