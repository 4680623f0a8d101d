import RhoScript.Proofs.Term.Subprocesses
import RhoScript.Term.Layout

/-!
# The order of the text

The processes in a term are listed in the order in which its text comes to them. For ground values
this is seen in the commands that write the term: those that write its ground values are among them,
in the order of the list (`Process.writes_sublist_layout`).
-/

namespace RhoScript

open Printer List

/-- The command that writes a ground value, if the process is one. -/
def writesAt : Process → List Command
  | .ground value => [value.layout]
  | _ => []

mutual

theorem Process.writes_sublist_layout (p : Process) :
    p.subprocesses.flatMap writesAt <+ p.layout := by
  cases p
  case ground value => exact Sublist.refl [value.layout]
  case list items =>
    exact ((Process.writesAll_sublist_layout items).cons _).trans (sublist_append_left _ _)
  case tuple items =>
    exact ((Process.writesAll_sublist_layout items).cons _).trans (sublist_append_left _ _)
  case map entries =>
    exact ((Process.writesEntries_sublist_layout entries).cons _).trans (sublist_append_left _ _)
  case select specimen cases =>
    have hcases := (Process.writesCases_sublist_layout cases).cons (.enter ") \x7b")
    have h := (((specimen.writes_sublist_layout.append hcases).cons (.print "match (")).cons
      .newline).trans (sublist_append_left _ [.leave "\x7d"])
    rw [← flatMap_append] at h
    exact h
  case send destination arguments =>
    have h := (destination.writes_sublist_layout.append
      ((Process.writesAll_sublist_layout arguments).cons (.print "!("))).trans
      (sublist_append_left _ [.print ")"])
    rw [← flatMap_append] at h
    exact h
  case binary operator left right =>
    have h := left.writes_sublist_layout.append
      (right.writes_sublist_layout.cons (.print (" " ++ operator ++ " ")))
    rw [← flatMap_append] at h
    exact h
  case unary operator operand =>
    exact ((operand.writes_sublist_layout.cons _).cons _).trans (sublist_append_left _ _)
  case receive clauses continuation =>
    have h := (((Name.writesClauses_sublist_layout clauses).append
      (continuation.writes_sublist_layout.cons (.enter ") \x7b"))).cons (.print "for(")).trans
      (sublist_append_left _ [.leave "\x7d"])
    rw [← flatMap_append] at h
    exact h
  case contract name formals body =>
    have hformals := (Name.writesAll_sublist_layout formals).cons (.print "(")
    have hbody := body.writes_sublist_layout.cons (.enter ") = \x7b")
    have h := (((name.writes_sublist_layout.append hformals).append hbody).cons
      (.print "contract ")).trans (sublist_append_left _ [.leave "\x7d"])
    rw [← flatMap_append, ← flatMap_append, append_assoc] at h
    exact h
  case drop name => exact name.writes_sublist_layout.cons _
  case par left right =>
    have h := left.writes_sublist_layout.append
      (((right.writes_sublist_layout.cons .newline).cons (.print "|")).cons .newline)
    rw [← flatMap_append] at h
    exact h
  case new bindings body =>
    have hbody := (body.writes_sublist_layout.cons (.enter "in \x7b")).cons .newline
    exact (((hbody.trans (sublist_append_right (Binding.layoutAll bindings) _)).cons
      (.print "new ")).cons .newline).trans (sublist_append_left _ _)
  all_goals exact nil_sublist _
termination_by structural p

theorem Name.writes_sublist_layout (n : Name) : n.subprocesses.flatMap writesAt <+ n.layout := by
  cases n with
  | quote process =>
    exact (process.writes_sublist_layout.cons _).trans (sublist_append_left _ _)
  | var | unspecified => exact nil_sublist _
termination_by structural n

theorem Process.writesAll_sublist_layout (ps : List Process) :
    (Process.subprocessesAll ps).flatMap writesAt <+ Process.layoutAll ps := by
  obtain _ | ⟨p, _ | ⟨q, rest⟩⟩ := ps
  · exact nil_sublist _
  · simpa [Process.subprocessesAll, Process.layoutAll] using p.writes_sublist_layout
  · have h := p.writes_sublist_layout.append
      ((Process.writesAll_sublist_layout (q :: rest)).cons (.print ", "))
    rw [← flatMap_append] at h
    exact h
termination_by structural ps

theorem Process.writesEntries_sublist_layout (es : List (WideString × Process)) :
    (Process.subprocessesEntries es).flatMap writesAt <+ Process.layoutEntries es := by
  obtain _ | ⟨⟨key, p⟩, _ | ⟨e, rest⟩⟩ := es
  · exact nil_sublist _
  · have h := (p.writes_sublist_layout.cons (.print ": ")).cons (.print (Ground.quotedText key))
    simpa [Process.subprocessesEntries, Process.layoutEntries] using h
  · have hp := (p.writes_sublist_layout.cons (.print ": ")).cons (.print (Ground.quotedText key))
    have h := hp.append ((Process.writesEntries_sublist_layout (e :: rest)).cons (.print ", "))
    rw [← flatMap_append] at h
    exact h
termination_by structural es

theorem Process.writesCases_sublist_layout (cs : List (Process × Process)) :
    (Process.subprocessesCases cs).flatMap writesAt <+ Process.layoutCases cs := by
  obtain _ | ⟨⟨pattern, body⟩, rest⟩ := cs
  · exact nil_sublist _
  · have h := (pattern.writes_sublist_layout.append
      (body.writes_sublist_layout.cons (.enter " => \x7b"))).append
      ((Process.writesCases_sublist_layout rest).cons (.leave "\x7d"))
    rw [← flatMap_append, ← flatMap_append, append_assoc] at h
    exact h
termination_by structural cs

theorem Name.writesAll_sublist_layout (ns : List Name) :
    (Name.subprocessesAll ns).flatMap writesAt <+ Name.layoutAll ns := by
  obtain _ | ⟨n, _ | ⟨m, rest⟩⟩ := ns
  · exact nil_sublist _
  · simpa [Name.subprocessesAll, Name.layoutAll] using n.writes_sublist_layout
  · have h := n.writes_sublist_layout.append
      ((Name.writesAll_sublist_layout (m :: rest)).cons (.print ", "))
    rw [← flatMap_append] at h
    exact h
termination_by structural ns

theorem Name.writesClauses_sublist_layout (cs : List (List Name × Name)) :
    (Name.subprocessesClauses cs).flatMap writesAt <+ Name.layoutClauses cs := by
  obtain _ | ⟨⟨patterns, channel⟩, _ | ⟨c, rest⟩⟩ := cs
  · exact nil_sublist _
  · have h := (Name.writesAll_sublist_layout patterns).append
      (channel.writes_sublist_layout.cons (.print " <- "))
    rw [← flatMap_append] at h
    simpa [Name.subprocessesClauses, Name.layoutClauses] using h
  · have h := ((Name.writesAll_sublist_layout patterns).append
      (channel.writes_sublist_layout.cons (.print " <- "))).append
      ((Name.writesClauses_sublist_layout (c :: rest)).cons (.print "; "))
    rw [← flatMap_append, ← flatMap_append, append_assoc] at h
    exact h
termination_by structural cs

end

end RhoScript
