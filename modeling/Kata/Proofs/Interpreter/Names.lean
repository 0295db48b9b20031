/-
# Names that are bound and read

A name is bound as a parameter of a function or by an assignment and read in an expression,
and three readers take part in that. An expression tries literals before names, so a name
that is a literal as well, a run of digits or one of three words, can be bound but is read as
the literal. Every other name is read as what it was bound to, whatever the caller has bound
it to. A header takes parameters that are no names, too, and of those none is read back
whatever it was bound to.
-/

import Kata.Proofs.Interpreter.Symbolic
import Kata.Proofs.Literal.Grammar
import Kata.Proofs.Program.Printed
import Kata.Proofs.Runner.Isolation

namespace Kata

/-! ## Names among literals -/

namespace Text

variable {s : List Char}

theorem isDigit_of_isNameChar {c : Char} (named : isNameChar c = true)
    (numeric : c.isDigit = true ∨ c = '-' ∨ c = '.') : c.isDigit = true := by
  rcases numeric with digit | rfl | rfl
  · exact digit
  · exact absurd named (by decide)
  · exact absurd named (by decide)

/-- A name that a numeral or a word for a value takes up. -/
def Reserved (s : List Char) : Prop :=
  s.all Char.isDigit = true ∨ s = "true".toList ∨ s = "false".toList ∨ s = "null".toList

instance (s : List Char) : Decidable (Reserved s) := inferInstanceAs (Decidable (_ ∨ _))

end Text

namespace Literal

variable {s : List Char} {v : Value}

theorem reserved_of_written (written : Written s v) (named : Text.isName s = true) :
    Text.Reserved s := by
  have letters : ∀ c ∈ s, Text.isNameChar c = true := by
    simp only [Text.isName, Bool.and_eq_true, List.all_eq_true] at named
    exact named.2
  cases written with
  | number plain =>
      left
      rw [List.all_eq_true]
      intro c inside
      exact Text.isDigit_of_isNameChar (letters c inside)
        (isDigit_or_eq_of_mem_toChars plain inside)
  | quoted opens _ =>
      have unquoted := Text.not_isBlank_and_not_isQuote_of_isPlain
        (Text.isPlain_of_isNameChar (letters _ List.mem_cons_self))
      simp [opens] at unquoted
  | true => exact .inr (.inl rfl)
  | false => exact .inr (.inr (.inl rfl))
  | null => exact .inr (.inr (.inr rfl))

/-- Digits are a numeral without sign and fraction. -/
theorem written_of_digits (filled : s ≠ []) (digits : s.all Char.isDigit = true) :
    ∃ v, Written s v := by
  have plain : Numeral.IsPlain ⟨false, s, [], none⟩ :=
    ⟨filled, List.all_eq_true.mp digits, by simp, rfl⟩
  have chars : Numeral.toChars ⟨false, s, [], none⟩ = s := by
    simp [toChars_of_isPlain plain, unsignedChars]
  exact ⟨_, chars ▸ Written.number plain⟩

/-- The names that are literals are the reserved ones. -/
theorem value?_eq_none_iff_of_isName (named : Text.isName s = true) :
    value? s = none ↔ ¬ Text.Reserved s := by
  constructor
  · rintro absent reserved
    have written : ∃ v, Written s v := by
      rcases reserved with digits | rfl | rfl | rfl
      · exact written_of_digits (Text.atom_of_isName named).ne_nil digits
      · exact ⟨_, .true⟩
      · exact ⟨_, .false⟩
      · exact ⟨_, .null⟩
    obtain ⟨v, written⟩ := written
    rw [value?_eq_some_iff.mpr written] at absent
    cases absent
  · intro free
    cases found : value? s with
    | none => rfl
    | some v => exact absurd (reserved_of_written (value?_eq_some_iff.mp found) named) free

end Literal

/-- A name is read as the literal that it is, or else as what it is bound to. -/
theorem Expr.eval_compile_of_isName {s : List Char} (named : Text.isName s = true)
    (look : String → Value) :
    (compile s).eval look = (Literal.value? s).getD (look (String.ofList s)) := by
  rw [compile_eq, (Text.atom_of_isName named).trim_eq_self, leaf?]
  cases Literal.value? s with
  | none => simp [named, eval]
  | some v => rfl

/-- Only names are looked up. -/
theorem Expr.eval_compile_congr {look other : String → Value}
    (agree : ∀ name, Text.isName name.toList = true → look name = other name) (s : List Char) :
    (compile s).eval look = (compile s).eval other := by
  induction s using compile_induct with
  | leaf s tree single compiled =>
      rw [compiled]
      rcases leaf?_cases single with ⟨v, -, rfl⟩ | ⟨-, named, rfl⟩
      · rfl
      · exact agree _ (by rwa [String.toList_ofList])
  | cut s left op right single cut compiled ihLeft ihRight =>
      rw [compiled, eval, eval, ihLeft, ihRight]
  | invalid s uncut compiled =>
      rw [compiled]
      rfl

/-! ## Functions that read a name -/

/-- The text of a function that gives back its parameter. -/
def echo (function parameter : String) : String :=
  "\n".intercalate
    ["FUNCTION " ++ function ++ "(" ++ parameter ++ ")", "RETURN " ++ parameter, "END"]

/-- The text of a function that assigns an expression and gives back what it has assigned. -/
def assigning (function : String) (parameters : List String) (variableName : String)
    (value : Expression) : String :=
  "\n".intercalate ["FUNCTION " ++ function ++ "(" ++ ", ".intercalate parameters ++ ")",
    "SET " ++ variableName ++ " = " ++ value.source, "RETURN " ++ variableName, "END"]

theorem toList_header (function : String) (parameters : List String) :
    ("FUNCTION " ++ function ++ "(" ++ ", ".intercalate parameters ++ ")").toList =
      Routine.header function parameters := by
  simp only [String.toList_append, String.toList_intercalate, List.append_assoc]
  rfl

theorem line_result_ofChars {name : String} (trimmed : Text.trim name.toList = name.toList) :
    ("RETURN " ++ name).toList = Statement.line (.result (.ofChars name.toList)) := by
  rw [Statement.line_result, Expression.ofChars, trimmed, String.ofList_toList,
    String.toList_append]

theorem toList_echo (function : String) {parameter : String}
    (trimmed : Text.trim parameter.toList = parameter.toList) :
    (echo function parameter).toList =
      Program.render [⟨function, [parameter], [.result (.ofChars parameter.toList)]⟩] := by
  have first := toList_header function [parameter]
  rw [String.intercalate_singleton] at first
  rw [echo, String.toList_intercalate, List.map_cons, List.map_cons, first,
    line_result_ofChars trimmed]
  rfl

theorem toList_assigning (function : String) (parameters : List String) {variableName : String}
    (value : Expression) (trimmed : Text.trim variableName.toList = variableName.toList) :
    (assigning function parameters variableName value).toList =
      Program.render [⟨function, parameters,
        [.assign variableName value, .result (.ofChars variableName.toList)]⟩] := by
  have second : ("SET " ++ variableName ++ " = " ++ value.source).toList =
      Statement.line (.assign variableName value) := by
    simp only [String.toList_append, List.append_assoc, Statement.line_assign]
  rw [assigning, String.toList_intercalate, List.map_cons, List.map_cons, List.map_cons,
    toList_header, second, line_result_ofChars trimmed]
  rfl

/-! ## Calling them -/

/-- A name is an expression that a line can hold. -/
theorem Expression.printable_of_isName {s : List Char} (named : Text.isName s = true) :
    (ofChars s).Printable :=
  printable_ofChars (Text.atom_of_isName named).allBlank_eq_false
    (Text.not_mem_of_isName named (by decide))

/-- A parameter of a header. -/
def Routine.IsParameter (p : String) : Prop :=
  ∃ line name parameters, '\n' ∉ line ∧ header? line = some (name, parameters) ∧ p ∈ parameters

/-- What a line assigns, and to which variable. -/
def Statement.IsAssigned (variableName : String) (value : Expression) : Prop :=
  ∃ line, '\n' ∉ line ∧ read? line = some (.assign variableName value)

theorem Routine.IsParameter.plain {p : String} (accepted : IsParameter p) :
    PlainParameter p.toList := by
  obtain ⟨line, name, parameters, unbroken, read, inside⟩ := accepted
  exact (plain_of_header? read unbroken).2 p inside

theorem Statement.IsAssigned.printable {variableName : String} {value : Expression}
    (accepted : IsAssigned variableName value) :
    (Statement.assign variableName value).Printable := by
  obtain ⟨line, unbroken, read⟩ := accepted
  rw [read?] at read
  split at read
  · rename_i rest starts
    apply printable_of_assignment? read
    intro broken
    rw [← Text.append_of_isPrefixOf? starts] at unbroken
    exact unbroken (List.mem_append_right _ broken)
  · split at read
    · cases read
    · split at read
      · rw [branch?] at read
        split at read
        · split at read
          · cases read
          · cases read
        · cases read
      · cases read

namespace Interpreter

/-- A function that was written down and loaded is called by running its body. -/
theorem call_load_of_render (i : Interpreter) {routine : Routine} (printable : routine.Printable)
    {source : String} (written : source.toList = Program.render [routine]) (args : List Value) :
    ((i.load source).2.call routine.name args).1 =
      .ok (Statement.run routine.body (i.scopes.enter.bind routine.parameters args)).1 := by
  have read : Program.routines source.toList = [routine] := by
    rw [written]
    exact Program.routines_render (by simpa using printable)
  have loaded : (i.load source).2.routines.get? routine.name = some routine := by
    rw [load, read]
    exact (get?_routines_add i [routine] routine.name).trans (by simp)
  rw [call, loaded, load, read]
  rfl

variable {function : String}

/-- What `RETURN` gives for a parameter that was bound. The parameter need not be a name. -/
theorem call_echo (i : Interpreter) (named : Text.isName function.toList = true) {p : String}
    (plain : Routine.PlainParameter p.toList) (v : Value) :
    ((i.load (echo function p)).2.call function [v]).1 =
      .ok ((Expr.compile p.toList).eval (i.scopes.enter.define p v).look) := by
  have filled : Text.allBlank p.toList = false :=
    Text.allBlank_eq_false_of_trim_eq [] plain.filled plain.trim_eq
  have printable : (Routine.mk function [p] [.result (.ofChars p.toList)]).Printable := by
    refine ⟨named, by simpa using plain, ?_⟩
    simpa [Statement.Printable] using Expression.printable_ofChars filled plain.unbroken
  rw [call_load_of_render i printable (toList_echo function plain.trim_eq)]
  simp only [Statement.run, Scopes.bind, Expression.ofChars, plain.trim_eq]

/-- What `RETURN` gives for a variable that was assigned just before. -/
theorem call_assigning (i : Interpreter) (named : Text.isName function.toList = true)
    {parameters : List String} (plain : ∀ p ∈ parameters, Routine.PlainParameter p.toList)
    {x : String} {e : Expression} (assignable : (Statement.assign x e).Printable)
    (args : List Value) :
    let scopes := i.scopes.enter.bind parameters args
    ((i.load (assigning function parameters x e)).2.call function args).1 =
      .ok ((Expr.compile x.toList).eval (scopes.define x (e.tree.eval scopes.look)).look) := by
  have trimmed := (Text.atom_of_isName assignable.1).trim_eq_self
  have printable : (Routine.mk function parameters
      [.assign x e, .result (.ofChars x.toList)]).Printable := by
    refine ⟨named, plain, ?_⟩
    simpa [Statement.Printable] using
      ⟨assignable, Expression.printable_of_isName assignable.1⟩
  rw [call_load_of_render i printable (toList_assigning function parameters e trimmed)]
  simp only [Statement.run, Expression.ofChars, trimmed]

/-- A name that has just been bound is read as what it was bound to, unless it is a literal. -/
theorem eval_compile_define {name : String} (named : Text.isName name.toList = true) (s : Scopes)
    (v : Value) :
    (Expr.compile name.toList).eval (s.define name v).look =
      (Literal.value? name.toList).getD v := by
  rw [Expr.eval_compile_of_isName named, String.ofList_toList, Scopes.look_define, if_pos rfl]

/-- Nothing but an unreserved name is read back whatever it was bound to. Of a parameter that
is no name the expression reads names only, and those are other variables. -/
theorem forall_call_echo_eq_iff (i : Interpreter) (named : Text.isName function.toList = true)
    {p : String} (plain : Routine.PlainParameter p.toList) :
    (∀ v, ((i.load (echo function p)).2.call function [v]).1 = .ok v) ↔
      Text.isName p.toList = true ∧ ¬ Text.Reserved p.toList := by
  constructor
  · intro faithful
    have reads (v : Value) : (Expr.compile p.toList).eval (i.scopes.enter.define p v).look = v :=
      Except.ok.inj ((call_echo i named plain v).symm.trans (faithful v))
    have name : Text.isName p.toList = true := by
      by_contra unnamed
      have blind : (Expr.compile p.toList).eval (i.scopes.enter.define p .null).look =
          (Expr.compile p.toList).eval (i.scopes.enter.define p (.bool true)).look := by
        apply Expr.eval_compile_congr
        intro name isName
        have other : name ≠ p := fun same => unnamed (same ▸ isName)
        rw [Scopes.look_define, Scopes.look_define, if_neg other, if_neg other]
      rw [reads, reads] at blind
      cases blind
    refine ⟨name, ?_⟩
    rw [← Literal.value?_eq_none_iff_of_isName name]
    cases literal : Literal.value? p.toList with
    | none => rfl
    | some w =>
        have constant (v : Value) : w = v := by
          rw [← reads v, eval_compile_define name, literal, Option.getD_some]
        cases (constant .null).symm.trans (constant (.bool true))
  · rintro ⟨name, free⟩ v
    rw [call_echo i named plain, eval_compile_define name,
      (Literal.value?_eq_none_iff_of_isName name).mpr free, Option.getD_none]

/-- What is bound by name is read by name. A parameter that is a name, and whatever a line
assigns, is read as what it was bound to, whichever function binds it and whatever the caller
has bound. Only a name that is a literal as well is read as that literal. Such names are the
runs of digits and the three words. -/
theorem names_are_read (i : Interpreter) (function : String)
    (named : Text.isName function.toList = true) :
    (∀ p, Routine.IsParameter p → Text.isName p.toList = true → ∀ v,
      ((i.load (echo function p)).2.call function [v]).1 =
        .ok ((Literal.value? p.toList).getD v)) ∧
    (∀ x e, Statement.IsAssigned x e →
      ∀ parameters, (∀ p ∈ parameters, Routine.IsParameter p) → ∀ args,
      ((i.load (assigning function parameters x e)).2.call function args).1 =
        .ok ((Literal.value? x.toList).getD
          (e.tree.eval (i.scopes.enter.bind parameters args).look))) ∧
    (∀ s, Text.isName s = true → (Literal.value? s = none ↔ ¬ Text.Reserved s)) := by
  refine ⟨?_, ?_, ?_⟩
  · intro p accepted name v
    rw [call_echo i named accepted.plain, eval_compile_define name]
  · intro x e assigned parameters accepted args
    have plain : ∀ p ∈ parameters, Routine.PlainParameter p.toList :=
      fun p inside => (accepted p inside).plain
    rw [call_assigning i named plain assigned.printable, eval_compile_define assigned.printable.1]
  · intro s name
    exact Literal.value?_eq_none_iff_of_isName name

/-- A parameter whose name holds a digit, and a variable that it is assigned to. -/
theorem names_are_read_of_item_2 :
    let copied := Expression.ofChars "item_2".toList
    ((empty.load (echo "f" "item_2")).2.call "f" [.text "v"]).1 = .ok (.text "v") ∧
    ((empty.load (assigning "f" ["item_2"] "x" copied)).2.call "f" [.text "v"]).1 =
      .ok (.text "v") := by
  intro copied
  obtain ⟨bound, assigns, reserved⟩ := names_are_read .empty "f" (by decide)
  have accepted : Routine.IsParameter "item_2" :=
    ⟨"FUNCTION f(item_2)".toList, "f", ["item_2"], by decide, by decide, by simp⟩
  have assigned : Statement.IsAssigned "x" copied :=
    ⟨"SET x = item_2".toList, by decide, rfl⟩
  have free {s : List Char} (name : Text.isName s = true) (unreserved : ¬ Text.Reserved s)
      (v : Value) : (Literal.value? s).getD v = v := by
    rw [(reserved s name).mpr unreserved, Option.getD_none]
  constructor
  · rw [bound "item_2" accepted (by decide), free (by decide) (by decide)]
  · rw [assigns "x" copied assigned ["item_2"] (by simpa using accepted),
      free (by decide) (by decide)]
    rfl

/-- Two parameters and a variable that are bound to a text and not read as it: two words for
values, and a parameter that is no name. -/
theorem not_read_as_bound :
    let quoted := Expression.ofChars "'v'".toList
    (Routine.IsParameter "true" ∧
      ((empty.load (echo "f" "true")).2.call "f" [.text "v"]).1 ≠ .ok (.text "v")) ∧
    (Routine.IsParameter "a b" ∧
      ((empty.load (echo "f" "a b")).2.call "f" [.text "v"]).1 ≠ .ok (.text "v")) ∧
    (Statement.IsAssigned "null" quoted ∧ quoted.tree.eval Scopes.empty.look = .text "v" ∧
      ((empty.load (assigning "f" [] "null" quoted)).2.call "f" []).1 ≠ .ok (.text "v")) := by
  intro quoted
  have word : Routine.IsParameter "true" :=
    ⟨"FUNCTION f(true)".toList, "f", ["true"], by decide, by decide, by simp⟩
  have words : Routine.IsParameter "a b" :=
    ⟨"FUNCTION f(a b)".toList, "f", ["a b"], by decide, by decide, by simp⟩
  have assigned : Statement.IsAssigned "null" quoted :=
    ⟨"SET null = 'v'".toList, by decide, rfl⟩
  refine ⟨⟨word, ?_⟩, ⟨words, ?_⟩, assigned, rfl, ?_⟩
  · rw [call_echo empty (by decide) word.plain]
    exact fun same => Value.noConfusion (Except.ok.inj same)
  · rw [call_echo empty (by decide) words.plain]
    exact fun same => Value.noConfusion (Except.ok.inj same)
  · rw [call_assigning empty (by decide) (by simp) assigned.printable]
    exact fun same => Value.noConfusion (Except.ok.inj same)

end Interpreter

end Kata
