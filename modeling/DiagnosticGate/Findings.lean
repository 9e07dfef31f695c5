import DiagnosticGate.AllowList
import DiagnosticGate.Coverage
import DiagnosticGate.Diagnostic.Basic

/-!
Judged diagnostics.

A diagnostic is judged by two questions: whether its file is checked loosely and whether its code
may be ignored. The findings of a compilation are its judged diagnostics in the order in which they
were reported. They can be looked at through views, one filter each, or split in one pass.
-/

namespace DiagnosticGate

/-- how a diagnostic relates to the two lists -/
inductive Class
  /-- file and code are on the lists -/
  | ignored
  /-- only the code is -/
  | promotable
  /-- only the file is -/
  | fileOnly
  /-- neither is -/
  | valid
  deriving Repr, DecidableEq

namespace Class

/-- the class for the two answers -/
def of (fileListed codeListed : Bool) : Class :=
  match fileListed, codeListed with
  | true, true => ignored
  | false, true => promotable
  | true, false => fileOnly
  | false, false => valid

def fileListed : Class → Bool
  | ignored | fileOnly => true
  | promotable | valid => false

def codeListed : Class → Bool
  | ignored | promotable => true
  | fileOnly | valid => false

def name : Class → String
  | ignored => "Ignored"
  | promotable => "CouldBeIgnored"
  | fileOnly => "FilePathOnly"
  | valid => "Valid"

theorem fileListed_of (f c : Bool) : (of f c).fileListed = f := by cases f <;> cases c <;> rfl

theorem codeListed_of (f c : Bool) : (of f c).codeListed = c := by cases f <;> cases c <;> rfl

end Class

/-- the class of a diagnostic -/
def Diagnostic.judge (d : Diagnostic) (codes : AllowList) (files : Coverage) : Class :=
  .of (files.covers d.file) (codes.contains d.code)

/-- a diagnostic and its class -/
structure Finding where
  kind : Class
  diagnostic : Diagnostic
  deriving Repr, DecidableEq

/-- the judged diagnostics of a compilation -/
structure Findings where
  items : Array Finding
  deriving Repr, DecidableEq

namespace Findings

def empty : Findings := ⟨#[]⟩

def push (f : Findings) (kind : Class) (d : Diagnostic) : Findings := ⟨f.items.push ⟨kind, d⟩⟩

/-- the findings, oldest first -/
def toList (f : Findings) : List Finding := f.items.toList

def size (f : Findings) : Nat := f.items.size

def isEmpty (f : Findings) : Bool := f.items.isEmpty

/-- the diagnostics whose class `keep` holds of -/
def select (f : Findings) (keep : Class → Bool) : List Diagnostic :=
  (f.toList.filter fun x => keep x.kind).map (·.diagnostic)

def all (f : Findings) : List Diagnostic := f.toList.map (·.diagnostic)

def ignored (f : Findings) : List Diagnostic := f.select (· == .ignored)

/-- those that are not ignored -/
def reported (f : Findings) : List Diagnostic := f.select (· != .ignored)

/-- those whose code is not on its list, wherever their file is -/
def valid (f : Findings) : List Diagnostic := f.select fun k => !k.codeListed

def promotable (f : Findings) : List Diagnostic := f.select (· == .promotable)

/-- the findings split by what is to be reported about them -/
structure Split where
  all : List Diagnostic
  ignored : List Diagnostic
  unignored : List Diagnostic
  promotable : List Diagnostic
  valid : List Diagnostic
  deriving Repr, DecidableEq

/-- puts one more finding in front of the parts it belongs to -/
def Split.cons (x : Finding) (s : Split) : Split :=
  let d := x.diagnostic
  let s := { s with all := d :: s.all }
  match x.kind with
  | .ignored => { s with ignored := d :: s.ignored }
  | .promotable =>
    { s with unignored := d :: s.unignored, promotable := d :: s.promotable }
  | .fileOnly | .valid => { s with unignored := d :: s.unignored, valid := d :: s.valid }

/-- splits the findings in one pass -/
def split (f : Findings) : Split := f.toList.foldr .cons ⟨[], [], [], [], []⟩

@[simp] theorem toList_empty : empty.toList = [] := rfl

@[simp] theorem toList_push (f : Findings) (k : Class) (d : Diagnostic) :
    (f.push k d).toList = f.toList ++ [⟨k, d⟩] := by simp [push, toList]

theorem length_toList (f : Findings) : f.toList.length = f.size := Array.length_toList

theorem isEmpty_iff (f : Findings) : f.isEmpty ↔ f.toList = [] := by
  simp [isEmpty, toList, Array.isEmpty_iff]

theorem all_push (f : Findings) (k : Class) (d : Diagnostic) :
    (f.push k d).all = f.all ++ [d] := by simp [all]

end Findings

end DiagnosticGate
