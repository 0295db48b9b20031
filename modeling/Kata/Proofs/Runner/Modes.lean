/-
# Deciding a case by all of its assertions

When all assertions decide a case they are counted in a tally while they are checked. This
file says what the tally holds at any point of that loop and compares the case that is
concluded from it with the cases that consist of one assertion each. A case passes if each
of those passes, and then it is the last of them; otherwise it is the first of them that
fails, but tells the messages of all that fail. Nothing is assumed about the interpreter or
about what the case carries from elsewhere.
-/

import Kata.Proofs.Runner.Judgement

namespace Kata

/-! ## What a tally holds -/

namespace Finding

/-- The fault that a finding comes to, with its sides where it has any. -/
def fault? : Finding → Option (Fault × Option Sides)
  | .ok sides => if sides.agree then none else some (.mismatch sides, some sides)
  | .error fault => some (fault, none)

/-- The sides of a finding that holds. -/
def pass? : Finding → Option Sides
  | .ok sides => if sides.agree then some sides else none
  | .error _ => none

end Finding

namespace Tally

/-- The tally of some findings: the message of every fault in order, the first fault, and
the last sides that agree. -/
structure Counts (findings : List Finding) (tally : Tally) : Prop where
  messages : tally.messages =
    findings.filterMap fun finding => (Finding.fault? finding).map (·.1.message)
  first : tally.first = findings.findSome? fun finding =>
    (Finding.fault? finding).map fun blamed => (blamed.1.failure, blamed.2)
  lastPass : tally.lastPass = (findings.filterMap Finding.pass?).getLast?

variable {findings : List Finding} {tally : Tally}

theorem counts_nil : Counts [] {} := ⟨rfl, rfl, rfl⟩

/-- One more finding is counted behind the others. -/
theorem Counts.add (counts : Counts findings tally) (finding : Finding) :
    Counts (findings ++ [finding]) (tally.add finding) := by
  obtain ⟨messages, first, lastPass⟩ := counts
  cases finding with
  | error fault =>
      constructor
      · simp [Tally.add, blame, messages, Finding.fault?]
      · simp [Tally.add, blame, first, Finding.fault?, List.findSome?_append]
      · simp [Tally.add, blame, lastPass, Finding.pass?]
  | ok sides =>
      by_cases agree : sides.agree = true
      · constructor
        · simp [Tally.add, agree, messages, Finding.fault?]
        · simp [Tally.add, agree, first, Finding.fault?, List.findSome?_append]
        · simp [Tally.add, agree, Finding.pass?]
      · constructor
        · simp [Tally.add, blame, agree, messages, Finding.fault?]
        · simp [Tally.add, blame, agree, first, Finding.fault?, List.findSome?_append]
        · simp [Tally.add, blame, agree, lastPass, Finding.pass?]

/-- However many findings follow, each is counted. -/
theorem Counts.foldl (counts : Counts findings tally) (more : List Finding) :
    Counts (findings ++ more) (more.foldl Tally.add tally) := by
  induction more generalizing findings tally with
  | nil => simpa using counts
  | cons finding rest ih =>
      have later := ih (counts.add finding)
      rwa [List.append_assoc, List.singleton_append] at later

end Tally

/-! ## What is concluded -/

namespace Case

variable {findings : List Finding} {tally : Tally} {finding : Finding}

/-- If every finding holds, the case is judged by the last one. -/
theorem conclude_of_all (case : Case) (counts : tally.Counts findings)
    (all : ∀ finding ∈ findings, Finding.fault? finding = none)
    (last : findings.getLast? = some finding) :
    case.conclude tally = case.judge finding := by
  have first : tally.first = none := by
    rw [counts.first, List.findSome?_eq_none_iff]
    intro other inside
    simp [all other inside]
  obtain ⟨earlier, rfl⟩ := List.getLast?_eq_some_iff.mp last
  have holds := all finding (by simp)
  cases finding with
  | error fault => simp [Finding.fault?] at holds
  | ok sides =>
      have agree : sides.agree = true := by simpa [Finding.fault?] using holds
      have lastPass : tally.lastPass = some sides := by
        simp [counts.lastPass, Finding.pass?, agree]
      simp [conclude, first, lastPass, judge, agree]

/-- If a finding does not hold, the case is judged by the first such finding, but all
messages are told. -/
theorem conclude_of_find? (case : Case) (counts : tally.Counts findings)
    (found : findings.find? (fun finding => (Finding.fault? finding).isSome) = some finding) :
    case.conclude tally =
      { case.judge finding with error := some ("; ".intercalate tally.messages) } := by
  have first : tally.first = (Finding.fault? finding).map fun blamed =>
      (blamed.1.failure, blamed.2) := by
    obtain ⟨faulty, earlier, later, rfl, clean⟩ := List.find?_eq_some_iff_append.mp found
    obtain ⟨blamed, shape⟩ := Option.isSome_iff_exists.mp faulty
    have passed : earlier.findSome? (fun finding => (Finding.fault? finding).map
        fun blamed => (blamed.1.failure, blamed.2)) = none := by
      rw [List.findSome?_eq_none_iff]
      intro other inside
      simpa using clean other inside
    rw [counts.first, List.findSome?_append, passed, List.findSome?_cons, shape]
    rfl
  cases finding with
  | error fault =>
      simp only [Finding.fault?, Option.map_some] at first
      simp [conclude, first, judge, blame, fail, withSides]
  | ok sides =>
      have blamed := List.find?_some found
      have agree : sides.agree = false := by simpa [Finding.fault?] using blamed
      simp only [Finding.fault?, agree] at first
      simp [conclude, first, judge, blame, fail, withSides, agree]

/-! ## One case for each assertion -/

theorem judge_with_code (case : Case) (code : String) (finding : Finding) :
    { case with code := code }.judge finding = { case.judge finding with code := code } := by
  cases finding with
  | error fault => rfl
  | ok sides => cases agree : sides.agree <;> simp [judge, withSides, agree, blame, fail]

theorem conclude_with_code (case : Case) (code : String) (tally : Tally) :
    { case with code := code }.conclude tally = { case.conclude tally with code := code } := by
  obtain ⟨messages, first, lastPass⟩ := tally
  rcases first with _ | ⟨failure, sides⟩
  · cases lastPass <;> rfl
  · cases sides <;> rfl

/-- What the findings come to does not depend on the code that they were found in. -/
theorem settle_with_code (case : Case) (code : String) (mode : Mode) (findings : List Finding) :
    { case with code := code }.settle mode findings =
      { case.settle mode findings with code := code } := by
  cases findings with
  | nil => rfl
  | cons finding rest =>
      cases mode with
      | firstOnly => exact case.judge_with_code code finding
      | all => exact case.conclude_with_code code _

theorem judge_passed (case : Case) (finding : Finding) :
    (case.judge finding).passed = some (Finding.fault? finding).isNone := by
  cases finding with
  | error fault => rfl
  | ok sides => cases agree : sides.agree <;> simp [Finding.fault?, agree]

theorem judge_error (case : Case) {blamed : Fault × Option Sides}
    (faulty : Finding.fault? finding = some blamed) :
    (case.judge finding).error = some blamed.1.message := by
  cases finding with
  | error fault =>
      obtain rfl : (fault, none) = blamed := by simpa [Finding.fault?] using faulty
      rfl
  | ok sides =>
      cases agree : sides.agree <;> simp only [Finding.fault?, agree] at faulty
      · obtain rfl := Option.some.inj faulty
        simp [judge, withSides, agree, blame, fail]
      · simp at faulty

/-- A case that passes says nothing about errors. -/
theorem judge_of_fault?_eq_none (case : Case) (clean : Finding.fault? finding = none) :
    (case.judge finding).error = case.error ∧ (case.judge finding).failure = case.failure := by
  cases finding with
  | error fault => simp [Finding.fault?] at clean
  | ok sides =>
      have agree : sides.agree = true := by simpa [Finding.fault?] using clean
      simp [judge, withSides, agree]

/-- The case that has one of the assertion lines and nothing else. -/
def reduced (case : Case) (line : Style × List Char) : Case :=
  { case with code := String.ofList line.2 }

/-- A reduced case is judged by what its line comes to. -/
theorem run_reduced {case : Case} {line : Style × List Char}
    (inside : line ∈ Assertion.lines case.code.toList) (mode : Mode) (i : Interpreter) :
    ((case.reduced line).run mode i).1 =
      { case.judge (i.check line).1 with code := String.ofList line.2 } := by
  have single : Assertion.lines (case.reduced line).code.toList = [line] := by
    rw [reduced, String.toList_ofList]
    exact Assertion.lines_of_mem_lines inside
  rw [run_fst_of_lines_eq_singleton mode i single]
  exact case.judge_with_code _ _

/-- With all assertions deciding, a case is concluded from what its lines come to. -/
theorem exists_counts_of_run_all {case : Case} (i : Interpreter)
    (asserted : Assertion.lines case.code.toList ≠ []) :
    ∃ tally : Tally,
      tally.Counts ((Assertion.lines case.code.toList).map fun line => (i.check line).1) ∧
        (case.run .all i).1 = case.conclude tally := by
  refine ⟨_, Tally.counts_nil.foldl _, ?_⟩
  rw [run_fst_eq_settle]
  obtain ⟨line, rest, shape⟩ := List.exists_cons_of_ne_nil asserted
  rw [shape]
  rfl

variable {line : Style × List Char}

/-- A case without faulty lines is judged by its last line. -/
theorem run_all_of_clean (case : Case) (i : Interpreter)
    (clean : ∀ line ∈ Assertion.lines case.code.toList,
      Finding.fault? (i.check line).1 = none)
    (last : (Assertion.lines case.code.toList).getLast? = some line) :
    (case.run .all i).1 = case.judge (i.check line).1 := by
  have asserted : Assertion.lines case.code.toList ≠ [] := by
    rintro nothing
    simp [nothing] at last
  obtain ⟨tally, counts, concluded⟩ := exists_counts_of_run_all i asserted
  rw [concluded]
  exact case.conclude_of_all counts (List.forall_mem_map.mpr clean) (by simp [last])

/-- A case with faulty lines is judged by the first of them and tells the messages of all. -/
theorem run_all_of_find? (case : Case) (i : Interpreter)
    (found : (Assertion.lines case.code.toList).find?
      (fun line => (Finding.fault? (i.check line).1).isSome) = some line) :
    (case.run .all i).1 =
      { case.judge (i.check line).1 with
        error := some ("; ".intercalate ((Assertion.lines case.code.toList).filterMap
          fun line => (Finding.fault? (i.check line).1).map (·.1.message))) } := by
  obtain ⟨tally, counts, concluded⟩ :=
    exists_counts_of_run_all i (List.ne_nil_of_mem (List.mem_of_find?_eq_some found))
  have first : ((Assertion.lines case.code.toList).map fun line => (i.check line).1).find?
      (fun finding => (Finding.fault? finding).isSome) = some (i.check line).1 := by
    rw [List.find?_map]
    exact congrArg (Option.map _) found
  rw [concluded, case.conclude_of_find? counts first, counts.messages, List.filterMap_map]
  rfl

theorem run_firstOnly_of_head? (case : Case) (i : Interpreter)
    (first : (Assertion.lines case.code.toList).head? = some line) :
    (case.run .firstOnly i).1 = case.judge (i.check line).1 := by
  obtain ⟨rest, shape⟩ := List.head?_eq_some_iff.mp first
  rw [run_fst_eq_settle, shape]
  rfl

/-- A case whose first finding is a fault fails for it. Its error opens with the message of the
fault, and nothing follows unless all of several lines are looked at. -/
theorem exists_settle_of_error (case : Case) (mode : Mode) (fault : Fault)
    (rest : List Finding) :
    ∃ more, case.settle mode (.error fault :: rest) =
        { case.blame fault with error := some ("; ".intercalate (fault.message :: more)) } ∧
      (mode = .firstOnly ∨ rest = [] → more = []) := by
  cases mode with
  | firstOnly => exact ⟨[], rfl, fun _ => rfl⟩
  | all =>
      have counts := Tally.counts_nil.foldl (.error fault :: rest)
      refine ⟨rest.filterMap fun finding => (Finding.fault? finding).map (·.1.message), ?_, ?_⟩
      · rw [← show _ = fault.message :: _ from counts.messages]
        exact case.conclude_of_find? counts rfl
      · intro alone
        obtain rfl : rest = [] := by simpa using alone
        rfl

/-- Whether a case that was run did not pass. -/
def fails (result : Case) : Bool := result.passed != some true

theorem fails_judge (case : Case) (code : String) (finding : Finding) :
    fails { case.judge finding with code := code } = (Finding.fault? finding).isSome := by
  cases faulty : Finding.fault? finding <;> simp [fails, judge_passed, faulty]

/-- The results of the reduced cases, in the order of the lines. -/
def singly (case : Case) (i : Interpreter) : List Case :=
  (Assertion.lines case.code.toList).map fun line => ((case.reduced line).run .firstOnly i).1

theorem singly_eq (case : Case) (i : Interpreter) :
    case.singly i = (Assertion.lines case.code.toList).map fun line =>
      { case.judge (i.check line).1 with code := String.ofList line.2 } :=
  List.map_congr_left fun _ inside => run_reduced inside .firstOnly i

theorem forall_singly_passed_iff (case : Case) (i : Interpreter) :
    (∀ result ∈ case.singly i, result.passed = some true) ↔
      ∀ line ∈ Assertion.lines case.code.toList, Finding.fault? (i.check line).1 = none := by
  rw [singly_eq, List.forall_mem_map]
  exact forall₂_congr fun line _ => by simp [judge_passed]

theorem find?_singly (case : Case) (i : Interpreter)
    (found : (Assertion.lines case.code.toList).find?
      (fun line => (Finding.fault? (i.check line).1).isSome) = some line) :
    (case.singly i).find? fails =
      some { case.judge (i.check line).1 with code := String.ofList line.2 } := by
  rw [singly_eq, List.find?_map]
  simp only [Function.comp_def, fails_judge, found, Option.map_some]

theorem errors_singly (case : Case) (i : Interpreter) :
    ((case.singly i).filter fails).filterMap (·.error) =
      (Assertion.lines case.code.toList).filterMap
        fun line => (Finding.fault? (i.check line).1).map (·.1.message) := by
  rw [singly_eq, List.filter_map, List.filterMap_map, List.filterMap_filter]
  refine List.filterMap_congr fun line _ => ?_
  simp only [Function.comp_def, fails_judge]
  cases fault : Finding.fault? (i.check line).1 with
  | none => rfl
  | some blamed => exact case.judge_error fault

/-- Deciding a case by all of its assertions is deciding it by each of them. The case passes
exactly when every reduced case passes. Then it shows the sides of the last one, and it has
an error or a failure only if it came with one. Otherwise it is classified by and shows the
sides of the first reduced case that fails, and tells the errors of all that fail. With one
assertion the modes agree, and a case that passes by all assertions passes by the first. -/
theorem run_all_eq_singly (case : Case) (i : Interpreter)
    (asserted : Assertion.lines case.code.toList ≠ []) :
    let whole := (case.run .all i).1
    (whole.passed = some true ↔ ∀ result ∈ case.singly i, result.passed = some true) ∧
    (whole.passed = some true → ∃ last, (case.singly i).getLast? = some last ∧
      whole.actual = last.actual ∧ whole.expected = last.expected ∧
      whole.error = case.error ∧ whole.failure = case.failure) ∧
    (whole.passed ≠ some true → ∃ first, (case.singly i).find? fails = some first ∧
      whole.passed = some false ∧ whole.failure = first.failure ∧
      whole.actual = first.actual ∧ whole.expected = first.expected ∧
      whole.error = some ("; ".intercalate
        (((case.singly i).filter fails).filterMap (·.error)))) ∧
    ((Assertion.lines case.code.toList).length = 1 → (case.run .firstOnly i).1 = whole) ∧
    (whole.passed = some true → (case.run .firstOnly i).1.passed = some true) := by
  intro whole
  have single : (Assertion.lines case.code.toList).length = 1 →
      (case.run .firstOnly i).1 = whole := by
    intro one
    obtain ⟨line, alone⟩ := List.length_eq_one_iff.mp one
    exact (run_fst_of_lines_eq_singleton .firstOnly i alone).trans
      (run_fst_of_lines_eq_singleton .all i alone).symm
  rw [forall_singly_passed_iff]
  by_cases clean : ∀ line ∈ Assertion.lines case.code.toList,
      Finding.fault? (i.check line).1 = none
  · obtain ⟨last, isLast⟩ : ∃ last, (Assertion.lines case.code.toList).getLast? = some last :=
      Option.isSome_iff_exists.mp (by simpa using asserted)
    obtain ⟨head, isHead⟩ : ∃ head, (Assertion.lines case.code.toList).head? = some head :=
      Option.isSome_iff_exists.mp (by simpa using asserted)
    have judged : whole = case.judge (i.check last).1 := case.run_all_of_clean i clean isLast
    have lastClean := clean last (List.mem_of_getLast? isLast)
    have passed : whole.passed = some true := by simp [judged, judge_passed, lastClean]
    refine ⟨iff_of_true passed clean, fun _ => ?_, fun failed => absurd passed failed, single,
      fun _ => ?_⟩
    · obtain ⟨error, failure⟩ := case.judge_of_fault?_eq_none lastClean
      rw [judged, singly_eq, List.getLast?_map, isLast]
      exact ⟨_, rfl, rfl, rfl, error, failure⟩
    · rw [case.run_firstOnly_of_head? i isHead, judge_passed,
        clean head (List.mem_of_head? isHead)]
      rfl
  · obtain ⟨first, found⟩ : ∃ first, (Assertion.lines case.code.toList).find?
        (fun line => (Finding.fault? (i.check line).1).isSome) = some first := by
      push Not at clean
      obtain ⟨line, inside, fault⟩ := clean
      exact Option.isSome_iff_exists.mp
        (List.find?_isSome.mpr ⟨line, inside, Option.isSome_iff_ne_none.mpr fault⟩)
    have judged : whole = _ := case.run_all_of_find? i found
    have faulty := List.find?_some found
    have failed : whole.passed = some false := by
      rw [judged, judge_passed, Option.isNone_eq_false_iff.mpr faulty]
    refine ⟨iff_of_false (by simp [failed]) clean, fun passed => ?_, fun _ => ?_, single,
      fun passed => ?_⟩
    · simp [failed] at passed
    · refine ⟨_, case.find?_singly i found, failed, ?_⟩
      rw [errors_singly, judged]
      exact ⟨rfl, rfl, rfl, rfl⟩
    · simp [failed] at passed

/-- Two calls of functions that are not there are both told, and the case is classified by
the first. -/
theorem run_all_eq_singly_of_two_missing :
    let case : Case := { name := "t", code := "ASSERT f() == 1\nEXPECT g() TO_BE 2" }
    Assertion.lines case.code.toList ≠ [] ∧ (case.run .all .empty).1.passed ≠ some true ∧
      (case.run .all .empty).1.error =
        some "Function 'f' not found; Function 'g' not found" := by
  intro case
  have asserted : Assertion.lines case.code.toList ≠ [] := by decide
  have failed : (case.run .all .empty).1.passed ≠ some true := by decide
  obtain ⟨first, -, -, -, -, -, told⟩ :=
    (run_all_eq_singly case .empty asserted).2.2.1 failed
  exact ⟨asserted, failed, told.trans (by decide)⟩

end Case

end Kata
