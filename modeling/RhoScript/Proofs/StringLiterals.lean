import RhoScript.Proofs.Compile
import RhoScript.Proofs.Source.Adjoined

/-!
# String literals survive

The text of a string in the calculus is also a literal of the source language. Main statement: it denotes
the string, it is read as one token whatever follows, and the program that logs it is compiled to a process
that has the same text in it (`toText_log`).
-/

namespace RhoScript

open Lowering Source

namespace Node

/-! ### Nodes by their bare forms -/

variable {m e : Node}

theorem exists_program_of_bare {es : List Node} (h : m.bare = .program none es) :
    ∃ loc ms, m = .program loc ms ∧ ms.map bare = es := by
  cases m <;> cases h
  exact ⟨_, _, rfl, (bareAll_eq _).symm⟩

theorem exists_expressionStatement_of_bare (h : m.bare = .expressionStatement none e) :
    ∃ loc n, m = .expressionStatement loc n ∧ n.bare = e := by
  cases m <;> cases h
  exact ⟨_, _, rfl, rfl⟩

theorem exists_call_of_bare {es : List Node} (h : m.bare = .callExpression none e es) :
    ∃ loc n ms, m = .callExpression loc n ms ∧ n.bare = e ∧ ms.map bare = es := by
  cases m <;> cases h
  exact ⟨_, _, _, rfl, rfl, (bareAll_eq _).symm⟩

theorem exists_member_of_bare {f : Node} {computed : Bool}
    (h : m.bare = .memberExpression none e f computed) :
    ∃ loc n o, m = .memberExpression loc n o computed ∧ n.bare = e ∧ o.bare = f := by
  cases m <;> cases h
  exact ⟨_, _, _, rfl, rfl, rfl⟩

theorem exists_identifier_of_bare {x : String} (h : m.bare = .identifier none x) :
    ∃ loc, m = .identifier loc x := by
  cases m <;> cases h
  exact ⟨_, rfl⟩

theorem exists_literal_of_bare {value : Option Ground} (h : m.bare = .literal none value none) :
    ∃ loc raw, m = .literal loc value raw := by
  cases m <;> cases h
  exact ⟨_, _, rfl⟩

end Node

namespace Source

/-- The text of a string is read as one token. -/
theorem read_stringText {place : Place} (h : .string ∈ place.accepts) (s : String) (rest : List Char)
    (p : Position) : read place ⟨(Ground.stringText s).toList ++ rest, p⟩ =
      .ok (some (Word.token ⟨.string, Ground.stringText s⟩ p),
        ⟨rest, Word.stop ⟨.string, Ground.stringText s⟩ p⟩) := by
  have hsolid := (Word.IsSpelled.string s).isSolid
  have hcursor := IsLayout.nil.skipLayout_append hsolid rest p
  rw [List.nil_append, List.foldl_nil] at hcursor
  exact read_of_lexeme? (w := ⟨.string, Ground.stringText s⟩) hcursor (lexeme?_string h s rest)

end Source

namespace Compile

open Node

/-- The tree of a program that logs a string. -/
def logging (s : String) : Node :=
  .program none [.expressionStatement none (.callExpression none
    (.memberExpression none (.identifier none "console") (.identifier none "log") false)
    [.literal none (some (.string s)) none])]

theorem built_logging (s : String) : Built .program (logging s) := by
  have hcallee : Built .expression
      (.memberExpression none (.identifier none "console") (.identifier none "log") false) :=
    .member (.name (named_identifier (by decide +kernel))) (by decide +kernel)
  refine .program (List.forall_mem_singleton.mpr (.statementItem (.expression (.call hcallee ?_))))
  exact List.forall_mem_singleton.mpr .string

/-- The source of a program that logs a string. -/
def logSource (s : String) : String := "console.log(" ++ Ground.stringText s ++ ");"

theorem words_logging (s : String) : words (logging s) =
    [⟨.name, "console"⟩, .mark .dot, ⟨.name, "log"⟩, .mark .parenOpen,
      ⟨.string, Ground.stringText s⟩, .mark .parenClose, .mark .semicolon] := by
  rw [← stringLiteral_ofString]
  rfl

theorem adjoined_logSource (s : String) : Adjoined (words (logging s)) (logSource s).toList := by
  have htext : (logSource s).toList = "console".toList ++ '.' :: ("log".toList ++ '(' ::
      ((Ground.stringText s).toList ++ [')', ';'])) := by
    simp [logSource]
  have hname : ∀ {x : String} {c : Char} (rest : List Char), IsIdentifier x → isNamePart c = false →
      nameLength (x.toList ++ c :: rest) = x.toList.length := fun rest hx hc =>
    nameLength_append hx.1 hc rest
  have hconsole : IsIdentifier "console" := by decide +kernel
  have hlog : IsIdentifier "log" := by decide +kernel
  rw [words_logging, htext]
  refine .name hconsole (hname _ hconsole (by decide +kernel)) (.mark (by decide +kernel) (by decide) ?_)
  refine .name hlog (hname _ hlog (by decide +kernel)) (.mark (by decide +kernel) (by decide) ?_)
  exact .string s (.mark (by decide +kernel) (by decide) (.mark (by decide +kernel) (by decide) .nil))

/-- The source is read as the tree, apart from locations. -/
theorem readProgram_logSource (s : String) :
    ∃ m, readProgram (logSource s) = .ok m ∧ m.bare = (logging s).bare :=
  exists_readProgram_of_adjoined (built_logging s).prints (adjoined_logSource s)

/-! ### Compiling -/

/-- The process that logs a string. -/
def logProcess (s : String) : Process :=
  .new [consoleBinding] (.send (.var "console") [.ground (.string s)])

/-- A program that logs a string is lowered to the process that does, wherever its parts stand. -/
theorem yields_logProcess {m : Node} {s : String} (h : m.bare = (logging s).bare) :
    ∃ ledger, Yields (lowerTree m) {} ⟨logProcess s, []⟩ ledger := by
  obtain ⟨l₁, statements, rfl, hstatements⟩ := exists_program_of_bare h
  obtain ⟨n, ms, rfl, hn, hms⟩ := List.map_eq_cons_iff.mp hstatements
  obtain rfl := List.map_eq_nil_iff.mp hms
  obtain ⟨l₂, call, rfl, hcall⟩ := exists_expressionStatement_of_bare hn
  obtain ⟨l₃, callee, arguments, rfl, hcallee, harguments⟩ := exists_call_of_bare hcall
  obtain ⟨l₄, object, property, rfl, hobject, hproperty⟩ := exists_member_of_bare hcallee
  obtain ⟨l₅, rfl⟩ := exists_identifier_of_bare hobject
  obtain ⟨l₆, rfl⟩ := exists_identifier_of_bare hproperty
  obtain ⟨argument, ms, rfl, hargument, hms⟩ := List.map_eq_cons_iff.mp harguments
  obtain rfl := List.map_eq_nil_iff.mp hms
  obtain ⟨l₇, raw, rfl⟩ := exists_literal_of_bare hargument
  exact ⟨_, rfl⟩

/-- The text of the process that logs a string. -/
def logText (s : String) : String :=
  "\nnew console(`rho:io:stdout`)\nin \x7b\n  console!(" ++ Ground.stringText s ++ ")\n  \x7d\n"

/-- The commands that write the process up to the string. -/
def opening : List Printer.Command :=
  [.newline, .print "new ", .print consoleBinding.text, .newline, .enter "in \x7b", .print "console",
    .print "!("]

/-- The commands that write the text of the string and the rest of the process. -/
def closing (text : WideString) : List Printer.Command := [.print text, .print ")", .leave "\x7d"]

theorem run_opening : Printer.run {} opening =
    (⟨1, "\nnew console(`rho:io:stdout`)\nin \x7b\n  console!("⟩, none) := by decide +kernel

theorem run_closing (text s : WideString) :
    Printer.run ⟨1, text⟩ (closing s) = (⟨0, text ++ s ++ ")\n  \x7d\n"⟩, none) := by
  have hclosing : (")" : WideString) ++ (Printer.line 1 ++ ("\x7d" ++ Printer.line 0)) =
      ")\n  \x7d\n" := by decide +kernel
  rw [← hclosing, ← List.append_assoc, ← List.append_assoc, ← List.append_assoc]
  rfl

theorem text_logProcess (s : String) : (logProcess s).text = .ok (logText s) := by
  have hlayout : (logProcess s).layout = opening ++ closing (Ground.quotedText s) := rfl
  rw [Process.text, Process.render, hlayout, Printer.run_append, run_opening]
  dsimp only
  rw [run_closing, Ground.quotedText_ofString, ← WideString.ofString_append,
    ← WideString.ofString_append]
  rfl

/-- **String literals survive**: the text of a string denotes the string, it is read as one token whatever
follows, and a program that logs the string is compiled to a text around it, with nothing replaced. -/
theorem toText_log (s : String) :
    (Ground.string s).text? = some ↑(Ground.stringText s) ∧
    decodeString (Ground.stringText s) = .ok (s.toList.map Char.toNat) ∧
    (∀ place : Place, .string ∈ place.accepts → ∀ rest p, ∃ token stop,
      read place ⟨(Ground.stringText s).toList ++ rest, p⟩ = .ok (some token, ⟨rest, stop⟩) ∧
      token.terminal = .string ∧ token.text = Ground.stringText s ∧
      token.value = .ok (some (.string s))) ∧
    ∀ path,
      (toProcess .source path ("console.log(" ++ Ground.stringText s ++ ");")).2 =
        .ok ⟨.new [consoleBinding] (.send (.var "console") [.ground (.string s)]), []⟩ ∧
      (toText .source path ("console.log(" ++ Ground.stringText s ++ ");")).2 =
        .ok ↑("\nnew console(`rho:io:stdout`)\nin \x7b\n  console!(" ++ Ground.stringText s ++
          ")\n  \x7d\n") := by
  refine ⟨congrArg some (Ground.quotedText_ofString s), decodeString_stringText s,
    fun place hplace rest p => ?_, fun path => ?_⟩
  · exact ⟨_, _, read_stringText hplace s rest p, rfl, rfl, Word.value_string s⟩
  · obtain ⟨m, hread, hbare⟩ := readProgram_logSource s
    obtain ⟨ledger, hyields⟩ := yields_logProcess hbare
    have hprocess : (toProcess .source path (logSource s)).2 = .ok ⟨logProcess s, []⟩ :=
      toProcess_of_yields hread hyields
    exact ⟨hprocess, (toText_eq_ok_iff hprocess).mpr (text_logProcess s)⟩

end Compile

end RhoScript
