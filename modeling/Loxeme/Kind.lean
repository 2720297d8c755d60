/-
# Kinds of tokens

A token is an operator, an identifier, a string, a number, a keyword or the end of the
source.  Kinds have names and are numbered from 1 in a fixed order, and both can be looked
up.

* `Kind.ofName` and `Kind.ofOrdinal` invert `Kind.name` and `Kind.ordinal`
  (`ofName_name`, `ofOrdinal_ordinal`); what they refuse is a `Kind.Unknown`.
-/
import Loxeme.Operator
import Loxeme.Keyword
import Loxeme.Text.Quoted

namespace Loxeme

/-- What a token is. -/
inductive Kind where
  | operator (o : Operator)
  | identifier
  | string
  | number
  | keyword (k : Keyword)
  | endOfSource
  deriving DecidableEq, Repr

namespace Kind

/-! ## 1. Names and numbers -/

/-- All kinds, in the order of their numbers. -/
def all : List Kind :=
  Operator.all.map operator ++ [.identifier, .string, .number] ++ Keyword.all.map keyword ++
    [.endOfSource]

/-- What a kind is called. -/
def name : Kind → Text
  | operator o => o.name
  | identifier => "IDENTIFIER".toList
  | string => "STRING".toList
  | number => "NUMBER".toList
  | keyword k => k.name
  | endOfSource => "EOF".toList

/-- The number of a kind: its place in `all`, counted from 1. -/
def ordinal (k : Kind) : Nat := all.idxOf k + 1

theorem mem_all (k : Kind) : k ∈ all := by
  cases k <;> simp [all, Operator.mem_all, Keyword.mem_all]

/-! ## 2. Looking kinds up -/

/-- A name or a number that no kind has. -/
inductive Unknown where
  | name (name : Text)
  | ordinal (n : Int)
  deriving DecidableEq, Repr

/-- What is said about a name or number that no kind has. -/
def Unknown.message : Unknown → Text
  | .name n => n.quoted
  | .ordinal n => Text.ofInt n ++ " is not a valid TokenType".toList

/-- The kind with a given name. -/
def ofName (n : Text) : Except Unknown Kind :=
  match all.find? (·.name = n) with
  | some k => .ok k
  | none => .error (.name n)

/-- The kind with a given number. -/
def ofOrdinal (n : Int) : Except Unknown Kind :=
  match all.find? (fun k => (k.ordinal : Int) = n) with
  | some k => .ok k
  | none => .error (.ordinal n)

theorem ofName_name (k : Kind) : ofName k.name = .ok k := by
  have h : ∀ k ∈ all, all.find? (·.name = k.name) = some k := by decide +kernel
  rw [ofName, h k (mem_all k)]

theorem ofOrdinal_ordinal (k : Kind) : ofOrdinal k.ordinal = .ok k := by
  have h : ∀ k ∈ all, all.find? (fun k' => (k'.ordinal : Int) = k.ordinal) = some k := by
    decide +kernel
  rw [ofOrdinal, h k (mem_all k)]

/-- The kind of a word: the keyword so spelled, or an identifier. -/
def ofWord (w : Text) : Kind :=
  match Keyword.ofSpelling? w with
  | some k => .keyword k
  | none => .identifier

end Kind
end Loxeme
